import TiOpenCL.CommandQueue.Order

/-!
# The counters of a queue

`p_num_events_on_device` goes up with every event that a traversal starts, and down with every call of
`pushEventsOnDevice` that is told that an event has completed.  Such a call is due for every event of the
queue whose end was set (`countWeight`).  The two balance as long as every end is that of a started event
and is counted once: not if an error is passed on to a dependent event, nor if a completed event makes two
events of its own queue ready.  An instantaneous event leaves the list before it is counted as completed,
so that `p_num_events_completed` counts it for ever.
-/

namespace TiOpenCL.CommandQueue

open Machine

/-! ### What is counted -/

/-- The events of a queue that were started and have not finished. -/
def onDevice (c : Core) (q : ℕ) : ℕ :=
  c.started.countP fun e => decide ((c.event e).parent = some q ∧ e ∉ c.finished)

/-- The calls of `pushEventsOnDevice` for a queue that will count a completed event. -/
def countWeight (c : Core) (q : ℕ) : Frame → ℕ
  | .notify e _ _ pushed => if pushed = false ∧ (c.event e).parent = some q then 1 else 0
  | .fail e _ _ => if (c.event e).parent = some q then 1 else 0
  | .push q' _ oneCompleted => if q' = q ∧ oneCompleted = true then 1 else 0
  | _ => 0

/-- The ends that are counted without a started event that has not finished: the end of another event of
the queue, and the second event of its own queue that a completed event makes ready. -/
def surplus (c : Core) (q : ℕ) : Frame → ℕ
  | .setStatus e _ =>
    if (c.event e).parent = some q ∧ ¬(e ∈ c.started ∧ e ∉ c.finished) then 1 else 0
  | .notify e i n pushed =>
    match (c.event e).dependents[i]? with
    | some d =>
      if i < n ∧ pushed = true ∧ (c.event e).parent = some q ∧ (c.event d).parent = some q ∧
          (c.event d).waitEvents.filter (· ≠ e) = [] then 1
      else 0
    | none => 0
  | _ => 0

/-- The weights of frames depend on the queues of the events they name. -/
lemma countWeight_congr {c c' : Core} (hle : c.Le c') {f : Frame} (hf : FrameOk c f) (q : ℕ) :
    countWeight c' q f = countWeight c q f := by
  cases f with
  | notify e i n pushed => simp only [countWeight, hle.parent e hf.1]
  | fail e i n => simp only [countWeight, hle.parent e hf.1]
  | _ => rfl

/-- Counting changes the counters only. -/
lemma Queue.count_numOnDevice (x : Queue) (oneCompleted : Bool) :
    (x.count oneCompleted).numOnDevice = x.numOnDevice - (if oneCompleted = true then 1 else 0) ∧
      (x.count oneCompleted).numCompleted =
        x.numCompleted + (if oneCompleted = true then 1 else 0) := by
  cases oneCompleted <;> simp [Queue.count]

/-- One more element of a list without repetitions does not count any more. -/
lemma countP_remove {l : List ℕ} {p p' : ℕ → Bool} {a : ℕ} (hl : l.Nodup) (ha : a ∈ l) (hp : p a = true)
    (hp' : p' a = false) (hother : ∀ x, x ≠ a → p' x = p x) : l.countP p' + 1 = l.countP p := by
  induction l with
  | nil => cases ha
  | cons x l ih =>
    obtain ⟨hx, hnodup⟩ := List.nodup_cons.mp hl
    rcases List.mem_cons.mp ha with rfl | hmem
    · have hrest : l.countP p' = l.countP p := by
        refine List.countP_congr fun y hy => ?_
        rw [hother y fun heq => hx (heq ▸ hy)]
      rw [List.countP_cons_of_neg (by simp [hp']), List.countP_cons_of_pos hp, hrest]
    · have hne : x ≠ a := fun heq => hx (heq ▸ hmem)
      have hrec := ih hnodup hmem
      rw [List.countP_cons, List.countP_cons, hother x hne]
      omega

/-! ### Critical sections -/

/-- The started events that have not finished depend on the record alone. -/
lemma onDevice_congr {c c' : Core} (hst : c'.started = c.started) (hfin : c'.finished = c.finished)
    (hpar : ∀ e ∈ c.started, (c'.event e).parent = (c.event e).parent) (q : ℕ) :
    onDevice c' q = onDevice c q := by
  rw [onDevice, onDevice, hst, hfin]
  refine List.countP_congr fun e he => ?_
  rw [hpar e he]

/-- The end of a started event that has not finished is one less on the device. -/
lemma onDevice_setStatusHelper {c : Core} {e : ℕ} {status : ℤ} (hs : status ≤ complete)
    (hnodup : c.started.Nodup) (q : ℕ) :
    onDevice (setStatusHelper c e status) q +
        (if (c.event e).parent = some q ∧ e ∈ c.started ∧ e ∉ c.finished then 1 else 0) =
      onDevice c q := by
  have hpar : ∀ x, ((setStatusHelper c e status).event x).parent = (c.event x).parent := by
    intro x
    simp only [setStatusHelper, Core.setEvent, Function.update_apply]
    split
    · rename_i heq
      rw [heq]
    · rfl
  have hfin : (setStatusHelper c e status).finished = e :: c.finished := by
    rw [setStatusHelper, if_pos hs]
  have hst : (setStatusHelper c e status).started = c.started := rfl
  rw [onDevice, onDevice, hst, hfin]
  simp only [hpar]
  split
  · rename_i hin
    obtain ⟨hq, hmem, hnot⟩ := hin
    refine countP_remove hnodup hmem ?_ ?_ ?_
    · exact decide_eq_true ⟨hq, hnot⟩
    · exact decide_eq_false fun hcon => hcon.2 List.mem_cons_self
    · intro x hne
      rw [decide_eq_decide, List.mem_cons, not_or]
      exact ⟨fun h => ⟨h.1, h.2.2⟩, fun h => ⟨h.1, hne, h.2⟩⟩
  · rename_i hout
    rw [Nat.add_zero]
    refine List.countP_congr fun x hx => ?_
    rw [decide_eq_true_iff, decide_eq_true_iff, List.mem_cons, not_or]
    refine ⟨fun h => ⟨h.1, h.2.2⟩, fun h => ⟨h.1, ?_, h.2⟩⟩
    rintro rfl
    exact hout ⟨h.1, hx, h.2⟩

/-- What a traversal starts was not on the device. -/
lemma onDevice_applyScan {s : State} (hv : Valid s) (ho : OrderOk s.toCore) {q' : ℕ}
    {ready : Option ℕ} {x : Queue} (q : ℕ) :
    onDevice (s.toCore.applyScan q' x (s.scan q' ready)) q =
      onDevice s.toCore q + if q' = q then (s.scan q' ready).started.length else 0 := by
  have hpar : ∀ e, ((s.toCore.applyScan q' x (s.scan q' ready)).event e).parent =
      (s.event e).parent := by
    intro e
    simp only [Core.applyScan]
    split <;> rfl
  have hst : (s.toCore.applyScan q' x (s.scan q' ready)).started =
      s.started ++ (s.scan q' ready).started := rfl
  have hfin : (s.toCore.applyScan q' x (s.scan q' ready)).finished = s.finished := rfl
  have hnew : ∀ e ∈ (s.scan q' ready).started, (s.event e).parent = some q' ∧ e ∉ s.finished := by
    intro e he
    obtain ⟨hmem, hqueued, -⟩ := mem_started_scan he
    obtain ⟨-, -, hp, -⟩ := hv.wellformed.queues.listed q' e hmem
    exact ⟨hp, fun hin => (ho.past e hin).2 hqueued⟩
  rw [onDevice, onDevice, hst, hfin, List.countP_append]
  simp only [hpar]
  congr 1
  by_cases hq : q' = q
  · subst hq
    rw [if_pos rfl, List.countP_eq_length]
    exact fun e he => decide_eq_true (hnew e he)
  · rw [if_neg hq, List.countP_eq_zero]
    intro e he hcon
    obtain ⟨hp, -⟩ := of_decide_eq_true hcon
    rw [(hnew e he).1] at hp
    exact hq (Option.some.inj hp)

/-- The counter of a queue after a traversal. -/
lemma numOnDevice_applyScan (c : Core) (q' q : ℕ) (ready : Option ℕ) (oneCompleted : Bool) :
    ((c.applyScan q' ((c.queue q').count oneCompleted) (c.scan q' ready)).queue q).numOnDevice =
      (c.queue q).numOnDevice - (if q' = q ∧ oneCompleted = true then 1 else 0) +
        if q' = q then ((c.scan q' ready).started.length : ℤ) else 0 := by
  by_cases hq : q' = q
  · subst hq
    simp only [Core.applyScan, Function.update_self, (Queue.count_numOnDevice _ _).1, Scan.started,
      List.length_append, true_and, if_true, Nat.cast_add]
    exact add_assoc _ _ _
  · simp [Core.applyScan, Function.update_of_ne (Ne.symm hq), hq]

/-- A release counts nothing. -/
lemma sum_releaseFrames (c c' : Core) (e q : ℕ) :
    ((releaseFrames c e).map (countWeight c' q)).sum = 0 := by
  unfold releaseFrames
  split <;> simp [countWeight]

/-- A critical section changes the counter of a queue, the started events that have not finished and the
calls that are due by the same number, but for the surplus. -/
lemma Effect.balance {s : State} {c : Core} {f : Frame} {fs : List Frame} (h : Effect s.toCore f c fs)
    (hv : Valid s) (ho : OrderOk s.toCore) (hf : FrameOk s.toCore f) (q : ℕ) :
    (c.queue q).numOnDevice + countWeight s.toCore q f + surplus s.toCore q f + onDevice s.toCore q =
      (s.queue q).numOnDevice + ((fs.map (countWeight s.toCore q)).sum : ℕ) + onDevice c q := by
  have hle := h.le
  have hkeep : c.started = s.started → c.finished = s.finished → onDevice c q = onDevice s.toCore q :=
    fun hst hfin => onDevice_congr hst hfin
      (fun e he => hle.parent e (hv.devices.started e he).1) q
  cases h
  case completed e hp =>
    have hdev := onDevice_setStatusHelper (e := e) (le_refl complete) hv.devices.nodup q
    have hqueue : ((setStatusHelper s.toCore e complete).queue q) = s.queue q := rfl
    rw [hqueue]
    simp only [countWeight, surplus, List.map_cons, List.map_nil, List.sum_cons, List.sum_nil]
    grind
  case failed e status hs =>
    have hdev := onDevice_setStatusHelper (e := e) hf.2 hv.devices.nodup q
    have hqueue : ((setStatusHelper s.toCore e status).queue q) = s.queue q := rfl
    rw [hqueue]
    simp only [countWeight, surplus, List.map_cons, List.map_nil, List.sum_cons, List.sum_nil]
    grind
  case set e status hs hp =>
    have heq : status = complete := le_antisymm hf.2 hs
    have hdev := onDevice_setStatusHelper (e := e) hf.2 hv.devices.nodup q
    have hqueue : ((setStatusHelper s.toCore e status).queue q) = s.queue q := rfl
    rw [hqueue]
    simp only [countWeight, surplus, (hp heq).2, List.map_nil, List.sum_nil] at hdev ⊢
    grind
  case throttled q' ready oneCompleted ht =>
    rw [hkeep rfl rfl]
    simp only [countWeight, surplus, List.map_nil, List.sum_nil]
    by_cases hq : q' = q
    · subst hq
      simp only [Core.setQueue, Function.update_self, (Queue.count_numOnDevice _ _).1, true_and]
      grind
    · simp only [Core.setQueue, Function.update_of_ne (Ne.symm hq), hq, false_and]
      grind
  case pushed q' ready oneCompleted ht hs =>
    rw [numOnDevice_applyScan, onDevice_applyScan hv ho]
    simp only [countWeight, surplus, List.map_nil, List.sum_nil]
    grind
  case took q' e ready oneCompleted ht hs =>
    rw [numOnDevice_applyScan, onDevice_applyScan hv ho]
    simp only [countWeight, surplus, List.map_cons, List.map_nil, List.sum_cons, List.sum_nil]
    grind
  case appended e q' blocking hq' =>
    have hsame := hkeep rfl rfl
    have hcount : ((s.toCore.setQueue q' { s.queue q' with events := (s.queue q').events ++ [e] }).queue
        q).numOnDevice = (s.queue q).numOnDevice := by
      simp only [Core.setQueue, Function.update_apply]
      split <;> grind
    rw [hsame]
    change ((s.toCore.setQueue q' _).queue q).numOnDevice + _ + _ + _ = _
    rw [hcount]
    cases blocking <;> simp [countWeight, surplus]
  case cleaned q' =>
    rw [hkeep (by rw [cleanEvents]; split <;> rfl) (by rw [cleanEvents]; split <;> rfl)]
    have hcount : ((cleanEvents s.toCore q').queue q).numOnDevice = (s.queue q).numOnDevice := by
      rw [cleanEvents]
      split
      · rfl
      · simp only [Core.setQueue, Function.update_apply]
        split <;> grind
    rw [hcount]
    simp [countWeight, surplus]
  case notifiedReady e i n d q' pushed hi hd hb hq' hw =>
    rw [hkeep rfl rfl, List.map_append, List.sum_append, sum_releaseFrames]
    simp only [countWeight, surplus, hd, List.map_cons, List.map_nil, List.sum_cons, List.sum_nil,
      removeWaitEvent, Core.setEvent]
    grind
  case notified e i n d pushed hi hd hb hw =>
    rw [hkeep rfl rfl, List.map_append, List.sum_append, sum_releaseFrames]
    simp only [countWeight, surplus, hd, List.map_cons, List.map_nil, List.sum_cons, List.sum_nil,
      removeWaitEvent, Core.setEvent]
    grind
  case notifiedAll e i n q' pushed hi hq' =>
    rw [hkeep rfl rfl]
    cases pushed <;> simp [countWeight, surplus] <;> grind
  case notifiedUser e i n pushed hi hq' =>
    rw [hkeep rfl rfl]
    simp only [countWeight, surplus, List.map_nil, List.sum_nil]
    grind
  case propagated e i n d hi hd hb =>
    rw [hkeep rfl rfl, List.map_append, List.sum_append, sum_releaseFrames]
    simp only [countWeight, surplus, List.map_cons, List.map_nil, List.sum_cons, List.sum_nil,
      removeWaitEvent, Core.setEvent]
    grind
  case propagatedAll e i n q' hi hq' =>
    rw [hkeep rfl rfl]
    simp only [countWeight, surplus, List.map_cons, List.map_nil, List.sum_cons, List.sum_nil]
    grind
  case propagatedUser e i n hi hq' =>
    rw [hkeep rfl rfl]
    simp only [countWeight, surplus, List.map_nil, List.sum_nil]
    grind
  case built e failed blocking he =>
    rw [hkeep rfl rfl]
    cases failed <;> simp [countWeight, surplus, Core.setEvent]
  all_goals
    rw [hkeep rfl rfl]
    simp [countWeight, surplus, newEvent, nextWait, addDependentEvent, setStatusHelper, Core.setEvent]

/-- What the frames that a critical section leaves are worth is settled before it. -/
lemma Effect.countWeight_eq {c c' : Core} {f : Frame} {fs : List Frame} (h : Effect c f c' fs)
    (hf : FrameOk c f) (q : ℕ) : ∀ g ∈ fs, countWeight c' q g = countWeight c q g := by
  have hle := h.le
  have hsame : ∀ e < c.numEvents, (c'.event e).parent = (c.event e).parent := hle.parent
  intro g hg
  cases g with
  | notify e i n pushed =>
    have he : e < c.numEvents := by
      cases h <;> simp_all [releaseFrames, FrameOk]
    simp only [countWeight, hsame e he]
  | fail e i n =>
    have he : e < c.numEvents := by
      cases h <;> simp_all [releaseFrames, FrameOk]
    simp only [countWeight, hsame e he]
  | _ => rfl

/-! ### Steps of the machine -/

/-- The calls that are due for a queue. -/
def dueCounts (s : State) (q : ℕ) : ℕ := total (countWeight s.toCore q) s.threads

/-- The calls that are due after a critical section have the weights of before. -/
lemma Effect.dueCounts_eq {s : State} {c : Core} {f : Frame} {fs rest : List Frame} {t : ℕ}
    (h : Effect s.toCore f c fs) (hv : Valid s) (ht : s.threads[t]? = some (f :: rest)) (q : ℕ) :
    dueCounts ⟨c, advance s.threads t fs⟩ q =
      total (countWeight s.toCore q) (advance s.threads t fs) := by
  refine total_congr fun g hg => ?_
  rcases runs_advance hg with hnew | hold
  · exact h.countWeight_eq (hv.wellformed.frames f (next_of_getElem? ht).runs) q g hnew
  · exact countWeight_congr h.le (hv.wellformed.frames g hold) q

/-- What a step counts without a started event. -/
def stepSurplus (s : State) (q : ℕ) : Action → ℕ
  | .thread t =>
    match s.threads[t]? with
    | some (f :: _) => surplus s.toCore q f
    | _ => 0
  | _ => 0

/-- A step changes the counter of a queue, the started events that have not finished and the calls that
are due by the same number, but for the surplus. -/
lemma Move.balance {s s' : State} {a : Action} (hm : Move s a s') (hv : Valid s)
    (ho : OrderOk s.toCore) (q : ℕ) :
    (s'.queue q).numOnDevice + stepSurplus s q a + (onDevice s.toCore q + dueCounts s q : ℕ) =
      (s.queue q).numOnDevice + (onDevice s'.toCore q + dueCounts s' q : ℕ) := by
  cases hm with
  | @thread t f rest fs c ht hf =>
    have hfok := hv.wellformed.frames f (next_of_getElem? ht).runs
    have hbal := hf.balance hv ho hfok q
    have htot := total_advance (countWeight s.toCore q) fs ht
    rw [hf.dueCounts_eq hv ht]
    simp only [stepSurplus, ht, dueCounts]
    change (c.queue q).numOnDevice + _ + _ = _ + ((onDevice c q + _ : ℕ) : ℤ)
    omega
  | createUserEvent =>
    have hdev : onDevice (newEvent s.toCore .user none [] submitted true) q = onDevice s.toCore q := by
      have hle := Core.le_newEvent s.toCore .user none [] submitted true
      have hst : (newEvent s.toCore .user none [] submitted true).started = s.started := rfl
      have hfin : (newEvent s.toCore .user none [] submitted true).finished = s.finished := rfl
      exact onDevice_congr hst hfin (fun e he => hle.parent e (hv.devices.started e he).1) q
    have hdue : dueCounts { s with toCore := newEvent s.toCore .user none [] submitted true } q =
        dueCounts s q := by
      refine total_congr fun g hg => ?_
      exact countWeight_congr (Core.le_newEvent s.toCore .user none [] submitted true)
        (hv.wellformed.frames g hg) q
    have hqueue : ((newEvent s.toCore .user none [] submitted true).queue q) = s.queue q := rfl
    rw [hdue]
    simp only [stepSurplus, hdev, hqueue, Nat.cast_zero, add_zero]
  | giveUp ht =>
    have htot := total_advance (countWeight s.toCore q) [] ht
    simp only [stepSurplus, dueCounts, countWeight, List.map_nil, List.sum_nil] at htot ⊢
    omega
  | enqueue | setUserEventStatus | flush | finish =>
    simp only [stepSurplus, dueCounts, State.spawn, total_append]
    simp [countWeight]
  | dispatch | endCommand =>
    simp only [stepSurplus, dueCounts, State.spawn, total_append]
    simp only [countWeight, List.map_cons, List.map_nil, List.sum_cons, List.sum_nil,
      Nat.cast_zero, add_zero]
    have hdue : ∀ c : Core, c.event = s.event →
        total (countWeight c q) s.threads = total (countWeight s.toCore q) s.threads := by
      intro c hc
      refine total_congr fun g _ => ?_
      cases g <;> simp only [countWeight, hc]
    rw [hdue _ rfl]
    rfl

/-! ### Runs in which every end is counted once -/

/-- A critical section in which nothing goes wrong with the counters: no error is passed on, to an event
under construction or to a dependent one, a completed event makes one event of its own queue ready at
most, and no instantaneous event is taken. -/
def Counts (c : Core) : Frame → Prop
  | .construct e failed _ => (c.event e).unregistered = [] → failed = false
  | .notify e i n pushed =>
    ∀ d ∈ (c.event e).dependents[i]?, i < n → pushed = true →
      (c.event d).parent = (c.event e).parent → (c.event d).waitEvents.filter (· ≠ e) ≠ []
  | .fail _ i n => n ≤ i
  | .push q ready oneCompleted => ¬Throttled c ((c.queue q).count oneCompleted) ready →
      (c.scan q ready).taken = none
  | _ => True

instance (c : Core) (f : Frame) : Decidable (Counts c f) := by
  cases f <;> unfold Counts <;> infer_instance

/-- A step in which nothing goes wrong with the counters. -/
def CountsStep (s : State) : Action → Prop
  | .thread t => ∀ f ∈ s.threads[t]?.bind List.head?, Counts s.toCore f
  | _ => True

instance (s : State) (a : Action) : Decidable (CountsStep s a) := by
  cases a <;> unfold CountsStep <;> infer_instance

/-- The calls that will set the end of an event. -/
def endWeight (e : ℕ) : Frame → ℕ
  | .setStatus e' _ => if e' = e then 1 else 0
  | _ => 0

/-- A critical section sets the ends that it is there for. -/
lemma Effect.count_finished {c c' : Core} {f : Frame} {fs : List Frame} (h : Effect c f c' fs)
    (hf : FrameOk c f) (e : ℕ) : c'.finished.count e = c.finished.count e + endWeight e f := by
  cases h
  case completed e' _ | failed e' _ _ | set e' _ _ _ =>
    simp only [setStatusHelper, if_pos hf.2, le_refl, if_true, endWeight, List.count_cons, beq_iff_eq]
  case cleaned =>
    rw [cleanEvents]
    split <;> rfl
  all_goals rfl

/-- The finished events in the list of a queue. -/
def finishedIn (c : Core) (q : ℕ) : ℕ := (c.queue q).events.countP fun e => decide (e ∈ c.finished)

/-- What holds in such runs: a command ends once, on its device, and the counters are right but for the
calls that are due. -/
structure AccountsOk (s : State) : Prop where
  valid : Valid s
  order : OrderOk s.toCore
  ends : ∀ e < s.numEvents, (s.event e).parent.isSome →
    total (endWeight e) s.threads + s.finished.count e = s.ended.count e
  settled : ∀ e ∈ s.finished, (s.event e).parent.isSome → (s.event e).status ≤ complete
  balanced : ∀ q, (s.queue q).numOnDevice = (onDevice s.toCore q + dueCounts s q : ℕ)
  counted : ∀ q, (s.queue q).numCompleted + dueCounts s q = finishedIn s.toCore q

section Clean

variable {s : State} {c : Core} {f : Frame} {fs rest : List Frame} {t : ℕ}

/-- A call that sets the end of an event of a queue does so for a started command that has not
finished. -/
lemma AccountsOk.started_of_setStatus (h : AccountsOk s) {e : ℕ} {status : ℤ}
    (hf : Runs s.threads (.setStatus e status)) (hp : (s.event e).parent.isSome) :
    (s.event e).kind = .command ∧ e ∈ s.started ∧ e ∉ s.finished := by
  have he := (h.valid.wellformed.frames _ hf).1
  have hends := h.ends e he hp
  have hweight := hf.weight_le (endWeight e)
  simp only [endWeight, if_true] at hweight
  have hended : 0 < s.ended.count e := by omega
  have hplaces : 0 < places s.toCore e + total (workerWeight e) s.threads := by
    rw [places]
    omega
  obtain ⟨hk, hst⟩ := h.valid.command_of_places he hplaces
  have htoken := h.valid.devices.token e he
  have hone : s.started.count e ≤ 1 := List.nodup_iff_count_le_one.mp h.valid.devices.nodup e
  rw [starts, if_pos hk, places] at htoken
  refine ⟨hk, hst, fun hfin => ?_⟩
  have hcount := List.count_pos_iff.mpr hfin
  omega

/-- In the list of a queue the finished events are those whose status says so. -/
lemma AccountsOk.mem_finished_iff (h : AccountsOk s) {q e : ℕ} (he : e ∈ (s.queue q).events) :
    e ∈ s.finished ↔ (s.event e).status ≤ complete := by
  obtain ⟨hlt, -, hp, -⟩ := h.valid.wellformed.queues.listed q e he
  exact ⟨fun hfin => h.settled e hfin (by rw [hp]; rfl), h.valid.wellformed.events.reached e hlt⟩

/-- Nothing is counted without a started event. -/
lemma AccountsOk.surplus_eq_zero (h : AccountsOk s) (hf : Runs s.threads f) (hok : Counts s.toCore f)
    (q : ℕ) : surplus s.toCore q f = 0 := by
  cases f with
  | setStatus e status =>
    simp only [surplus]
    refine if_neg fun hcon => ?_
    have hst := h.started_of_setStatus hf (by rw [hcon.1]; rfl)
    exact hcon.2 hst.2
  | notify e i n pushed =>
    simp only [Counts] at hok
    simp only [surplus]
    cases hd : (s.event e).dependents[i]? with
    | none => rfl
    | some d =>
      refine if_neg fun hcon => ?_
      obtain ⟨hi, hpushed, hpe, hpd, hnil⟩ := hcon
      exact hok d hd hi hpushed (hpd.trans hpe.symm) hnil
  | _ => rfl

/-- No critical section asks for the end of an event. -/
lemma sum_endWeight_eq_zero (heff : Effect s.toCore f c fs) (hok : Counts s.toCore f) (e : ℕ) :
    (fs.map (endWeight e)).sum = 0 := by
  refine List.sum_eq_zero fun x hx => ?_
  obtain ⟨g, hg, rfl⟩ := List.mem_map.mp hx
  cases g with
  | setStatus e' status =>
    exfalso
    cases heff.setStatus_mem hg with
    | @construct blocking =>
      cases heff with
      | built he => exact absurd (hok he) (by decide)
      | skipped | noticed | registered => simp at hg
    | fail hi hd hb => exact absurd hi (not_lt.mpr hok)
    | @push q ready o htaken hst =>
      cases heff with
      | throttled => simp at hg
      | pushed => simp at hg
      | took ht hs =>
        rw [hok ht] at hs
        cases hs
  | _ => rfl

/-- Every finished event is erased or stays in the list. -/
lemma countP_scan (event : ℕ → Event) (outOfOrder : Bool) (ready : Option ℕ) (first : Bool)
    (traversed : ℕ) (es : List ℕ) :
    es.countP (fun e => decide ((event e).status ≤ complete)) =
      (scan event outOfOrder ready first traversed es).kept.countP
          (fun e => decide ((event e).status ≤ complete)) +
        (scan event outOfOrder ready first traversed es).removed.length := by
  fun_induction scan event outOfOrder ready first traversed es <;>
    grind [Scan.stop, Scan.keep, Scan.remove, Scan.push, queued, complete]

/-- Every complete event is erased or stays in the list. -/
lemma countP_cleanLoop (event : ℕ → Event) (outOfOrder : Bool) (es : List ℕ) :
    es.countP (fun e => decide ((event e).status ≤ complete)) =
      (cleanLoop event outOfOrder es).1.countP (fun e => decide ((event e).status ≤ complete)) +
        (cleanLoop event outOfOrder es).2 := by
  fun_induction cleanLoop event outOfOrder es <;> grind

/-- The finished events in the list of a queue depend on the list and the record alone. -/
lemma finishedIn_congr {c c' : Core} {q : ℕ} (hq : (c'.queue q).events = (c.queue q).events)
    (hfin : c'.finished = c.finished) : finishedIn c' q = finishedIn c q := by
  rw [finishedIn, finishedIn, hq, hfin]

/-- An event that a list of a queue names counts by its status. -/
lemma AccountsOk.finishedIn_eq (h : AccountsOk s) (q : ℕ) {es : List ℕ}
    (hes : es ⊆ (s.queue q).events) :
    es.countP (fun e => decide (e ∈ s.finished)) =
      es.countP fun e => decide ((s.event e).status ≤ complete) := by
  refine List.countP_congr fun e he => ?_
  rw [decide_eq_true_iff, decide_eq_true_iff]
  exact h.mem_finished_iff (hes he)

/-- A command that ends is one more finished event in the list of its queue. -/
lemma AccountsOk.finishedIn_setStatusHelper (h : AccountsOk s) {e : ℕ} {status : ℤ}
    (hf : Runs s.threads (.setStatus e status)) (q : ℕ) :
    finishedIn (setStatusHelper s.toCore e status) q =
      finishedIn s.toCore q + if (s.event e).parent = some q then 1 else 0 := by
  have hfok := h.valid.wellformed.frames _ hf
  have hfin : (setStatusHelper s.toCore e status).finished = e :: s.finished := by
    rw [setStatusHelper, if_pos hfok.2]
  have hqueue : ((setStatusHelper s.toCore e status).queue q) = s.queue q := rfl
  rw [finishedIn, finishedIn, hqueue, hfin]
  split
  · rename_i hp
    obtain ⟨hk, hst, hnot⟩ := h.started_of_setStatus hf (by rw [hp]; rfl)
    have hmem : e ∈ (s.queue q).events := by
      rcases h.order.gone e (h.valid.devices.started e hst).2 q hp with hin | hover
      · exact hin
      · rcases hover with hcon | ⟨hinst, -⟩
        · exact absurd hcon hnot
        · exact absurd hk ((Kind.isInstantaneous_iff _).mp hinst)
    refine (countP_remove (h.valid.wellformed.queues.nodup q) hmem ?_ ?_ ?_).symm
    · exact decide_eq_true List.mem_cons_self
    · exact decide_eq_false hnot
    · intro x hne
      rw [decide_eq_decide, List.mem_cons, or_iff_right hne]
  · rename_i hp
    refine List.countP_congr fun x hx => ?_
    rw [decide_eq_true_iff, decide_eq_true_iff, List.mem_cons]
    refine or_iff_right ?_
    rintro rfl
    exact hp (h.valid.wellformed.queues.listed q x hx).2.2.1

/-- In a critical section in which nothing goes wrong the finished events in the list of a queue, the
counter of completed events and the calls that are due change by the same number. -/
lemma AccountsOk.counted_thread (h : AccountsOk s) (hf : Runs s.threads f)
    (heff : Effect s.toCore f c fs) (hok : Counts s.toCore f) (q : ℕ) :
    (c.queue q).numCompleted + ((fs.map (countWeight s.toCore q)).sum : ℕ) + finishedIn s.toCore q =
      (s.queue q).numCompleted + countWeight s.toCore q f + finishedIn c q := by
  have hfok := h.valid.wellformed.frames f hf
  have hsurplus := h.surplus_eq_zero hf hok q
  have hkeep : (c.queue q).events = (s.queue q).events → c.finished = s.finished →
      finishedIn c q = finishedIn s.toCore q := finishedIn_congr
  have hcompleted : ∀ (e : ℕ) (status : ℤ),
      ((setStatusHelper s.toCore e status).queue q).numCompleted = (s.queue q).numCompleted :=
    fun _ _ => rfl
  cases heff
  case completed e hp =>
    rw [h.finishedIn_setStatusHelper hf, hcompleted]
    simp only [countWeight, List.map_cons, List.map_nil, List.sum_cons, List.sum_nil]
    grind
  case failed e status hs =>
    rw [h.finishedIn_setStatusHelper hf, hcompleted]
    simp only [countWeight, List.map_cons, List.map_nil, List.sum_cons, List.sum_nil]
    grind
  case set e status hs hp =>
    have hnone := (hp (le_antisymm hfok.2 hs)).2
    rw [h.finishedIn_setStatusHelper hf, hcompleted, hnone]
    simp [countWeight]
  case began e =>
    rw [hkeep rfl rfl, hcompleted]
    simp [countWeight]
  case throttled q' ready oneCompleted ht =>
    have hevents : ((s.toCore.setQueue q' ((s.queue q').count oneCompleted)).queue q).events =
        (s.queue q).events := by
      simp only [Core.setQueue, Function.update_apply]
      split
      · rename_i heq
        rw [heq, (Queue.count_outOfOrder_device _ _).2.2]
      · rfl
    rw [hkeep hevents rfl]
    simp only [countWeight, List.map_nil, List.sum_nil]
    by_cases hq : q' = q
    · subst hq
      simp only [Core.setQueue, Function.update_self, (Queue.count_numOnDevice _ _).2, true_and]
      grind
    · simp only [Core.setQueue, Function.update_of_ne (Ne.symm hq), hq, false_and]
      grind
  case pushed q' ready oneCompleted ht hs =>
    simp only [countWeight, List.map_nil, List.sum_nil]
    by_cases hq : q' = q
    · subst hq
      have hscan := countP_scan s.event (s.queue q').outOfOrder ready true 0 (s.queue q').events
      have hkept : (s.scan q' ready).kept ⊆ (s.queue q').events :=
        (kept_sublist_scan _ _ _ _ _ _).subset
      rw [← Core.scan, ← h.finishedIn_eq q' (List.Subset.refl _), ← h.finishedIn_eq q' hkept] at hscan
      simp only [finishedIn, Core.applyScan, Function.update_self, (Queue.count_numOnDevice _ _).2,
        true_and]
      grind
    · simp only [finishedIn, Core.applyScan, Function.update_of_ne (Ne.symm hq), hq, false_and]
      grind
  case took q' e ready oneCompleted ht hs =>
    rw [hok ht] at hs
    cases hs
  case appended e q' blocking hq' =>
    have hlog : e ∉ s.queuedLog :=
      h.valid.wellformed.queues.not_mem_queuedLog hf (by simp [entryWeight])
    have hnot : e ∉ s.finished := by
      intro hfin
      have hends := h.ends e hfok.1 hfok.2.2
      have hpos := List.count_pos_iff.mpr hfin
      have hplaces : 0 < places s.toCore e + total (workerWeight e) s.threads := by
        rw [places]
        omega
      exact hlog (h.valid.devices.started e (h.valid.command_of_places hfok.1 hplaces).2).2
    have hsum : (((Frame.push q' none false :: if blocking = true then [.wait e] else []).map
        (countWeight s.toCore q)).sum : ℕ) = 0 := by
      cases blocking <;> simp [countWeight]
    rw [hsum]
    by_cases hq : q' = q
    · subst hq
      simp only [finishedIn, Core.setQueue, countWeight, Function.update_self, List.countP_append]
      simp [hnot]
      rfl
    · simp only [finishedIn, Core.setQueue, countWeight, Function.update_of_ne (Ne.symm hq)]
      rfl
  case cleaned q' =>
    simp only [countWeight, List.map_nil, List.sum_nil, cleanEvents]
    split
    · simp
    · by_cases hq : q' = q
      · subst hq
        have hclean := countP_cleanLoop s.event (s.queue q').outOfOrder (s.queue q').events
        rw [← h.finishedIn_eq q' (List.Subset.refl _),
          ← h.finishedIn_eq q' (cleanLoop_sublist _ _ _).subset] at hclean
        simp only [finishedIn, Core.setQueue, Function.update_self]
        grind
      · simp only [finishedIn, Core.setQueue, Function.update_of_ne (Ne.symm hq)]
        rfl
  case notifiedReady e i n d q' pushed hi hd hb hq' hw =>
    rw [hkeep rfl rfl, List.map_append, List.sum_append, sum_releaseFrames]
    simp only [surplus, hd] at hsurplus
    simp only [countWeight, List.map_cons, List.map_nil, List.sum_cons, List.sum_nil,
      removeWaitEvent, Core.setEvent]
    grind
  case notified e i n d pushed hi hd hb hw =>
    rw [hkeep rfl rfl, List.map_append, List.sum_append, sum_releaseFrames]
    simp only [countWeight, List.map_cons, List.map_nil, List.sum_cons, List.sum_nil,
      removeWaitEvent, Core.setEvent]
    grind
  case notifiedAll e i n q' pushed hi hq' =>
    cases pushed with
    | true => simp [countWeight]
    | false =>
      simp [countWeight]
      grind
  case notifiedUser e i n pushed hi hq' =>
    simp only [countWeight, List.map_nil, List.sum_nil]
    grind
  case propagated e i n d hi hd hb => exact absurd hi (not_lt.mpr hok)
  case propagatedAll e i n q' hi hq' =>
    simp only [countWeight, List.map_cons, List.map_nil, List.sum_cons, List.sum_nil]
    grind
  case propagatedUser e i n hi hq' =>
    simp only [countWeight, List.map_nil, List.sum_nil]
    grind
  case built e failed blocking he =>
    rw [hkeep rfl rfl]
    cases failed <;> simp [countWeight, Core.setEvent]
  case registered e w ws failed blocking he hw =>
    rw [hkeep rfl rfl]
    simp [countWeight, nextWait, addDependentEvent, Core.setEvent]
  all_goals
    rw [hkeep rfl rfl]
    simp [countWeight, newEvent, nextWait, Core.setEvent]

/-- Steps of threads in which nothing goes wrong keep it. -/
lemma AccountsOk.ends_thread (h : AccountsOk s) (ht : s.threads[t]? = some (f :: rest))
    (heff : Effect s.toCore f c fs) (hok : Counts s.toCore f) :
    ∀ e < c.numEvents, (c.event e).parent.isSome →
      total (endWeight e) (advance s.threads t fs) + c.finished.count e = c.ended.count e := by
  have hf := (next_of_getElem? ht).runs
  have hfok := h.valid.wellformed.frames f hf
  have hle := heff.le
  intro e he hp
  have htot := total_advance (endWeight e) fs ht
  rw [sum_endWeight_eq_zero heff hok] at htot
  rw [heff.executing.1]
  rcases lt_or_ge e s.numEvents with hold | hnew
  · rw [hle.parent e hold] at hp
    have hends := h.ends e hold hp
    have hfin := heff.count_finished hfok e
    omega
  · -- nothing is known of an event that is created
    have hzero : total (endWeight e) s.threads = 0 := by
      by_contra hpos
      obtain ⟨g, hg, hw⟩ := exists_runs_of_total_pos (Nat.pos_of_ne_zero hpos)
      have hgok := h.valid.wellformed.frames g hg
      cases g with
      | setStatus e' status =>
        simp only [endWeight] at hw
        split at hw
        · rename_i heq
          exact absurd hgok.1 (not_lt.mpr (heq ▸ hnew))
        · exact absurd hw (lt_irrefl 0)
      | _ => exact absurd hw (lt_irrefl 0)
    have hfin : c.finished.count e = 0 := by
      rw [List.count_eq_zero]
      intro hin
      rcases heff.finished hin with hin' | ⟨status, rfl, -⟩
      · exact absurd (h.order.past e hin').1 (not_lt.mpr hnew)
      · cases heff <;> exact absurd he (not_lt.mpr hnew)
    have hended : s.ended.count e = 0 := by
      rw [List.count_eq_zero]
      exact fun hin => absurd (h.valid.devices.ended e hin) (not_lt.mpr hnew)
    omega

/-- The end of an event of a queue is not taken back. -/
lemma AccountsOk.settled_thread (h : AccountsOk s) (hf : Runs s.threads f)
    (heff : Effect s.toCore f c fs) :
    ∀ e ∈ c.finished, (c.event e).parent.isSome → (c.event e).status ≤ complete := by
  have hfok := h.valid.wellformed.frames f hf
  have hle := heff.le
  intro e he hp
  rcases heff.finished he with hold | ⟨status, rfl, hs⟩
  · obtain ⟨hlt, hnq⟩ := h.order.past e hold
    rw [hle.parent e hlt] at hp
    rcases heff.status hlt with hsame | hset
    · rw [hsame]
      exact h.settled e hold hp
    · generalize (c.event e).status = status at hset
      cases hset with
      | setStatus => exact hfok.2
      | begin =>
        -- the command has ended, so that no worker has it
        have hends := h.ends e hlt hp
        have hcount := List.count_pos_iff.mpr hold
        have hwork := hf.weight_le (workerWeight e)
        simp only [workerWeight, if_true] at hwork
        have htoken := h.valid.devices.token e hlt
        have hone : s.started.count e ≤ 1 := List.nodup_iff_count_le_one.mp h.valid.devices.nodup e
        rw [places, starts] at htoken
        split at htoken <;> omega
      | push hpush =>
        exact absurd (mem_started_scan (List.mem_append.mpr (Or.inl hpush))).2.1 hnq
  · rw [heff.status_setStatus]
    exact hs

/-- A new thread that counts nothing keeps it, if it sets no end but those of commands that have just
ended. -/
lemma AccountsOk.spawn (h : AccountsOk s) {frames : List Frame}
    (hvalid : Valid (State.spawn ⟨c, s.threads⟩ frames)) (horder : OrderOk c)
    (hev : c.event = s.event) (hnum : c.numEvents = s.numEvents) (hq : c.queue = s.queue)
    (hfin : c.finished = s.finished) (hst : c.started = s.started)
    (hw : ∀ q, (frames.map (countWeight c q)).sum = 0)
    (hends : ∀ e < s.numEvents, (s.event e).parent.isSome →
      (frames.map (endWeight e)).sum + s.ended.count e = c.ended.count e) :
    AccountsOk (State.spawn ⟨c, s.threads⟩ frames) := by
  have hdev : ∀ q, onDevice c q = onDevice s.toCore q := fun q =>
    onDevice_congr hst hfin (fun e _ => by rw [hev]) q
  have hin : ∀ q, finishedIn c q = finishedIn s.toCore q := fun q =>
    finishedIn_congr (by rw [hq]) hfin
  have hdue : ∀ q, dueCounts (State.spawn ⟨c, s.threads⟩ frames) q = dueCounts s q := by
    intro q
    have hsame : total (countWeight c q) s.threads = total (countWeight s.toCore q) s.threads := by
      refine total_congr fun g _ => ?_
      cases g <;> simp only [countWeight, hev]
    simp only [dueCounts, State.spawn, total_append, hw q, Nat.add_zero, hsame]
  refine ⟨hvalid, horder, fun e he hp => ?_, fun e he hp => ?_, fun q => ?_, fun q => ?_⟩
  · simp only [State.spawn, hnum, hev, hfin, total_append] at he hp ⊢
    have hold := h.ends e he hp
    have hnew := hends e he hp
    omega
  · simp only [State.spawn, hfin, hev] at he hp ⊢
    exact h.settled e he hp
  · rw [hdue]
    simp only [State.spawn, hdev, hq]
    exact h.balanced q
  · rw [hdue]
    simp only [State.spawn, hin, hq]
    exact h.counted q

/-- A new user event keeps it. -/
lemma AccountsOk.createUserEvent (h : AccountsOk s)
    (hvalid : Valid { s with toCore := newEvent s.toCore .user none [] submitted true })
    (horder : OrderOk (newEvent s.toCore .user none [] submitted true))
    (hbal : ∀ q, (s.queue q).numOnDevice =
      (onDevice (newEvent s.toCore .user none [] submitted true) q +
        dueCounts { s with toCore := newEvent s.toCore .user none [] submitted true } q : ℕ)) :
    AccountsOk { s with toCore := newEvent s.toCore .user none [] submitted true } := by
  have hle := Core.le_newEvent s.toCore .user none [] submitted true
  have hold : ∀ e < s.numEvents,
      (newEvent s.toCore .user none [] submitted true).event e = s.event e :=
    fun e he => Function.update_of_ne (Nat.ne_of_lt he) _ _
  have hnew : (newEvent s.toCore .user none [] submitted true).event s.numEvents =
      ⟨.user, none, [], [], submitted, [], [], true⟩ := Function.update_self _ _ _
  refine ⟨hvalid, horder, fun e he hp => ?_, fun e he hp => ?_, hbal, fun q => ?_⟩
  · rcases Nat.lt_or_eq_of_le (Nat.lt_succ_iff.mp he) with hlt | rfl
    · simp only [hold e hlt] at hp
      exact h.ends e hlt hp
    · simp only [hnew] at hp
      cases hp
  · have hlt := (h.order.past e he).1
    simp only [hold e hlt] at hp ⊢
    exact h.settled e he hp
  · have hdue : dueCounts { s with toCore := newEvent s.toCore .user none [] submitted true } q =
        dueCounts s q := by
      refine total_congr fun g hg => ?_
      exact countWeight_congr hle (h.valid.wellformed.frames g hg) q
    rw [hdue]
    exact h.counted q

/-- A step in which nothing goes wrong keeps it. -/
lemma AccountsOk.step {s s' : State} {a : Action} (h : AccountsOk s) (hok : CountsStep s a)
    (hstep : step s a = some s') : AccountsOk s' := by
  have hm := move_of_step hstep
  have hle := hm.le
  have hbal : ∀ q, stepSurplus s q a = 0 → (s'.queue q).numOnDevice =
      (onDevice s'.toCore q + dueCounts s' q : ℕ) := by
    intro q hzero
    have hbalance := hm.balance h.valid h.order q
    rw [hzero, h.balanced q] at hbalance
    push_cast at hbalance ⊢
    omega
  have hvalid := h.valid.step hstep
  have horder := h.order.move h.valid hm
  cases hm with
  | @thread t f rest fs c ht heff =>
    have hf := (next_of_getElem? ht).runs
    have hcounts : Counts s.toCore f := hok f (by rw [ht]; rfl)
    refine ⟨hvalid, horder, h.ends_thread ht heff hcounts, h.settled_thread hf heff, fun q => ?_,
      fun q => ?_⟩
    · refine hbal q ?_
      simp only [stepSurplus, ht]
      exact h.surplus_eq_zero hf hcounts q
    · have hcount := h.counted_thread hf heff hcounts q
      have hold := h.counted q
      have htot := total_advance (countWeight s.toCore q) fs ht
      have hdue : dueCounts ⟨c, advance s.threads t fs⟩ q =
          total (countWeight s.toCore q) (advance s.threads t fs) := heff.dueCounts_eq h.valid ht q
      rw [hdue]
      rw [dueCounts] at hold
      change (c.queue q).numCompleted + _ = ((finishedIn c q : ℕ) : ℤ)
      omega
  | createUserEvent => exact h.createUserEvent hvalid horder fun q => hbal q rfl
  | @setUserEventStatus e status he hk hs hsub =>
    refine h.spawn hvalid horder rfl rfl rfl rfl rfl (fun q => by simp [countWeight])
      fun e' he' hp => ?_
    have hne : e ≠ e' := by
      rintro rfl
      rw [(h.valid.wellformed.events.user e he).mp hk] at hp
      cases hp
    simp [endWeight, hne]
  | @endCommand e status he hs =>
    refine h.spawn (c := { s.toCore with
      executing := s.executing.erase e, ended := e :: s.ended }) hvalid horder rfl rfl rfl rfl rfl
      (fun q => by simp [countWeight]) fun e' he' hp => ?_
    simp only [List.map_cons, List.map_nil, List.sum_cons, List.sum_nil, endWeight, List.count_cons,
      beq_iff_eq]
    omega
  | giveUp ht =>
    refine ⟨hvalid, horder, fun e' he' hp => ?_, h.settled, fun q => hbal q rfl, fun q => ?_⟩
    · have htot := total_advance (endWeight e') [] ht
      have hold := h.ends e' he' hp
      simp only [endWeight, List.map_nil, List.sum_nil, Nat.add_zero] at htot
      simp only [htot]
      exact hold
    · have htot := total_advance (countWeight s.toCore q) [] ht
      have hold := h.counted q
      simp only [countWeight, List.map_nil, List.sum_nil, Nat.add_zero] at htot
      rw [dueCounts] at hold ⊢
      simp only [htot]
      exact hold
  | enqueue | flush | finish =>
    exact h.spawn hvalid horder rfl rfl rfl rfl rfl (fun q => by simp [countWeight])
      fun e' he' hp => by simp [endWeight]
  | @dispatch dev e es hdev =>
    exact h.spawn (c := { s.toCore with device := Function.update s.device dev es }) hvalid horder
      rfl rfl rfl rfl rfl (fun q => by simp [countWeight]) fun e' he' hp => by simp [endWeight]

end Clean

/-- It holds before the first call. -/
lemma accountsOk_init (outOfOrder : ℕ → Bool) (device : ℕ → ℕ) :
    AccountsOk (init outOfOrder device) := by
  refine ⟨valid_init _ _, orderOk_init _ _, ?_, ?_, ?_, ?_⟩ <;>
    simp [init, onDevice, dueCounts, finishedIn, total]

/-! ### Quiescent states -/

/-- No call is in progress. -/
def Quiescent (s : State) : Prop := ∀ frames ∈ s.threads, frames = []

instance (s : State) : Decidable (Quiescent s) :=
  inferInstanceAs (Decidable (∀ frames ∈ s.threads, frames = []))

/-- The counters of a queue are right: one is the number of its events that were handed to the device and
have not finished, the other the number of finished events in its list. -/
structure Accounted (s : State) (q : ℕ) : Prop where
  onDevice : (s.queue q).numOnDevice =
    (s.started.countP fun e => decide ((s.event e).parent = some q ∧ complete < (s.event e).status) : ℕ)
  completed : (s.queue q).numCompleted =
    ((s.queue q).events.countP fun e => decide ((s.event e).status ≤ complete) : ℕ)

instance (s : State) (q : ℕ) : Decidable (Accounted s q) :=
  decidable_of_iff (_ ∧ _) ⟨fun h => ⟨h.1, h.2⟩, fun h => ⟨h.1, h.2⟩⟩

/-- Without calls in progress nothing is due. -/
lemma Quiescent.dueCounts_eq {s : State} (h : Quiescent s) (q : ℕ) : dueCounts s q = 0 := by
  by_contra hpos
  obtain ⟨f, ⟨stack, hmem, hf⟩, -⟩ := exists_runs_of_total_pos (Nat.pos_of_ne_zero hpos)
  rw [h stack hmem] at hf
  cases hf

/-- Two commands in one queue, the second of which waits for the first; both are executed. -/
def waitInTurn : List Action :=
  [.enqueue 0 .command [] false, .thread 0, .thread 0, .thread 0, .thread 0,
    .enqueue 0 .command [0] false, .thread 1, .thread 1, .thread 1, .thread 1, .thread 1, .thread 1,
    .dispatch 0, .thread 2, .thread 2, .endCommand 0 0, .thread 3, .thread 3, .thread 3, .thread 3,
    .thread 3]

/-- A command waits for a user event that fails. -/
def failedUser : List Action :=
  [.createUserEvent, .enqueue 0 .command [0] false, .thread 0, .thread 0, .thread 0, .thread 0,
    .thread 0, .thread 0, .setUserEventStatus 0 (-1), .thread 1, .thread 1, .thread 1, .thread 1,
    .thread 1, .thread 1]

end TiOpenCL.CommandQueue
