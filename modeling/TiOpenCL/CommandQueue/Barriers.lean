import TiOpenCL.CommandQueue.Order

/-!
# Barriers

A traversal takes a barrier only as the first unfinished event of its list, and goes past a marker, a
barrier or a `WaitForEvents` event only when that has finished.  The list of a queue says less than
the record of what was queued: an instantaneous event leaves it before it is complete, and an event
whose wait list has failed leaves it whatever stands before it.  So a barrier holds the later events
back until the earlier ones are over, unless it has failed itself.
-/

namespace TiOpenCL.CommandQueue

open Machine

/-! ### What a traversal goes past -/

/-- Going over an event starts nothing. -/
@[simp] lemma Scan.started_keep (e : ℕ) (sc : Scan) : (sc.keep e).started = sc.started := rfl

/-- Erasing an event starts nothing. -/
@[simp] lemma Scan.started_remove (e : ℕ) (sc : Scan) : (sc.remove e).started = sc.started := rfl

/-- Pushing an event starts it. -/
@[simp] lemma Scan.started_push (e : ℕ) (sc : Scan) : (sc.push e).started = e :: sc.started := rfl

/-- The end of a traversal starts nothing. -/
@[simp] lemma Scan.started_stop (es : List ℕ) : (Scan.stop es).started = [] := rfl

/-- A traversal may start the first event after it has passed the second one. -/
def Passed (event : ℕ → Event) (outOfOrder : Bool) (e b : ℕ) : Prop :=
  ((event b).kind.holdsBack = true → (event b).status ≠ queued) ∧
    (outOfOrder = false ∨ (event e).kind = .barrier → (event b).status ≤ complete)

/-- What stands before a started event if the traversal has gone over an event that stays. -/
lemma passed_cons {event : ℕ → Event} {outOfOrder first : Bool} {es : List ℕ} {e b : ℕ}
    (hb : (event b).kind.holdsBack = true → (event b).status ≠ queued)
    (ih : (outOfOrder = false ∨ (event e).kind = .barrier → false = true) ∧
      ∃ l₁ l₂, es = l₁ ++ e :: l₂ ∧ ∀ x ∈ l₁, Passed event outOfOrder e x) :
    (outOfOrder = false ∨ (event e).kind = .barrier → first = true) ∧
      ∃ l₁ l₂, b :: es = l₁ ++ e :: l₂ ∧ ∀ x ∈ l₁, Passed event outOfOrder e x := by
  obtain ⟨hno, l₁, l₂, rfl, hl⟩ := ih
  refine ⟨fun hor => absurd (hno hor) (by decide), b :: l₁, l₂, rfl, ?_⟩
  rintro x (_ | ⟨_, hx⟩)
  · exact ⟨hb, fun hor => absurd (hno hor) (by decide)⟩
  · exact hl x hx

/-- What stands before an event that a traversal starts. -/
lemma passed_of_mem_started {event : ℕ → Event} {outOfOrder : Bool} {ready : Option ℕ}
    {first : Bool} {traversed : ℕ} {es : List ℕ} {e : ℕ}
    (h : e ∈ (scan event outOfOrder ready first traversed es).started) :
    (outOfOrder = false ∨ (event e).kind = .barrier → first = true) ∧
      ∃ l₁ l₂, es = l₁ ++ e :: l₂ ∧ ∀ b ∈ l₁, Passed event outOfOrder e b := by
  fun_induction scan event outOfOrder ready first traversed es with
  | case1 => simp at h
  | case2 first traversed b es hs ih =>
    obtain ⟨hfirst, l₁, l₂, rfl, hl⟩ := ih h
    refine ⟨hfirst, b :: l₁, l₂, rfl, ?_⟩
    rintro x (_ | ⟨_, hx⟩)
    · exact ⟨fun _ => ne_of_lt (lt_of_le_of_lt hs (by decide)), fun _ => hs⟩
    · exact hl x hx
  | case3 | case4 | case5 | case6 | case8 => simp at h
  | case7 first traversed b es _ _ _ _ hs _ ih => exact passed_cons (fun _ => hs) (ih h)
  | case9 first traversed b es _ _ _ _ _ _ hk ih =>
    exact passed_cons (fun hhold => absurd hhold hk) (ih h)
  | case10 first traversed b es _ _ hin hbar =>
    obtain rfl : e = b := by simpa [Scan.started] using h
    exact ⟨by grind, [], es, rfl, by simp⟩
  | case11 first traversed b es _ _ hin hbar =>
    obtain rfl : e = b := by simpa using h
    exact ⟨by grind, [], es, rfl, by simp⟩
  | case12 first traversed b es _ _ hin hbar _ _ hinst _ ih =>
    rw [Scan.started_push, List.mem_cons] at h
    rcases h with rfl | hrest
    · exact ⟨by grind, [], es, rfl, by simp⟩
    · refine passed_cons (fun hhold => ?_) (ih hrest)
      exact absurd hhold (by revert hinst; cases (event b).kind <;> decide)

/-! ### Barriers in every state -/

/-- What holds of the markers, barriers and `WaitForEvents` events in every state of every run. -/
structure BarriersOk (s : State) : Prop where
  valid : Valid s
  order : OrderOk s.toCore
  status : ∀ e < s.numEvents, (s.event e).kind.holdsBack = true →
    (s.event e).status = queued ∨ (s.event e).status < 0 ∨ e ∈ s.started
  asked : ∀ e status, Runs s.threads (.setStatus e status) → (s.event e).kind.holdsBack = true →
    status < 0 ∨ e ∈ s.started
  barrier : ∀ b ∈ s.started, (s.event b).kind = .barrier →
    ∀ e, QueuedBefore s.toCore e b → Over s.toCore e

/-- What stands before an event that a traversal starts, in the record of what was queued. -/
lemma BarriersOk.passed_or_over {s : State} (h : BarriersOk s) {q e b : ℕ} {ready : Option ℕ}
    (he : e ∈ (s.scan q ready).started) (hb : QueuedBefore s.toCore b e) :
    Passed s.event (s.queue q).outOfOrder e b ∨ Over s.toCore b := by
  obtain ⟨hpair, hpar⟩ := hb
  have hmem := (mem_started_scan he).1
  have hq := (h.valid.wellformed.queues.listed q e hmem).2.2.1
  rcases h.order.gone b (hpair.subset (by simp)) q (hpar.trans hq) with hin | hover
  · obtain ⟨-, l₁, l₂, heq, hl⟩ := passed_of_mem_started he
    have hpair' := pair_sublist_of_sublist h.valid.queuedLog_nodup (h.order.sublist q) hpair hin hmem
    have hnodup := h.valid.wellformed.queues.nodup q
    rw [heq] at hpair' hnodup
    exact Or.inl (hl b (mem_of_pair_sublist hnodup hpair'))
  · exact Or.inr hover

/-- A step of a thread keeps the statuses of markers and barriers in order. -/
lemma BarriersOk.status_thread {s : State} {c : Core} {f : Frame} {fs : List Frame}
    (h : BarriersOk s) (hf : Runs s.threads f) (heff : Effect s.toCore f c fs) :
    ∀ e < c.numEvents, (c.event e).kind.holdsBack = true →
      (c.event e).status = queued ∨ (c.event e).status < 0 ∨ e ∈ c.started := by
  intro e he hk
  by_cases hlt : e < s.numEvents
  · rw [heff.le.kind e hlt] at hk
    rcases heff.status hlt with hsame | hset
    · rw [hsame]
      exact (h.status e hlt hk).imp_right fun hor => hor.imp_right (heff.le.started.subset ·)
    · generalize (c.event e).status = status at hset
      cases hset with
      | setStatus =>
        exact Or.inr ((h.asked e status hf hk).imp_right (heff.le.started.subset ·))
      | begin =>
        have hcmd := (h.valid.command_of_worker (e := e) hf (by simp [workerWeight])).1
        rw [hcmd] at hk
        exact absurd hk (by decide)
      | @push q ready o hp =>
        have hcmd := (kind_of_scan s.event (s.queue q).outOfOrder ready true 0 _).1 e hp
        rw [hcmd] at hk
        exact absurd hk (by decide)
  · exact Or.inl (heff.status_new (not_lt.mp hlt) he)

/-- Only started markers and barriers are set to `Complete`. -/
lemma BarriersOk.asked_move {s s' : State} {a : Action} (h : BarriersOk s) (hm : Move s a s') :
    ∀ e status, Runs s'.threads (.setStatus e status) → (s'.event e).kind.holdsBack = true →
      status < 0 ∨ e ∈ s'.started := by
  intro e status hr hk
  have hst := hm.le.started.subset
  rcases hm.asks hr with hold | hask
  · rw [hm.le.kind e (h.valid.wellformed.frames _ hold).1] at hk
    exact (h.asked e status hold hk).imp_right (hst ·)
  · cases hask with
    | thread _ _ hend =>
      cases hend with
      | construct | fail => exact Or.inl (by decide)
      | push _ hstart => exact Or.inr hstart
    | user he huser =>
      rw [hm.le.kind e he, huser] at hk
      exact absurd hk (by decide)
    | command he =>
      have hcmd := (h.valid.command_of_executing he).1
      rw [hm.le.kind e (h.valid.devices.executing e he), hcmd] at hk
      exact absurd hk (by decide)

/-- A traversal takes a barrier only when what was queued before it is over. -/
lemma BarriersOk.over_of_barrier {s : State} (h : BarriersOk s) {q e b : ℕ} {ready : Option ℕ}
    (hb : b ∈ (s.scan q ready).started) (hk : (s.event b).kind = .barrier)
    (he : QueuedBefore s.toCore e b) : Over s.toCore e := by
  rcases h.passed_or_over hb he with hpass | hover
  · have hlt := h.valid.lt_of_mem_queuedLog he.mem.1
    exact Or.inl (h.valid.wellformed.events.reached e hlt (hpass.2 (Or.inr hk)))
  · exact hover

/-- A traversal starts an event only when every marker, barrier and `WaitForEvents` event before it
has failed or was taken. -/
lemma BarriersOk.failed_or_started {s : State} (h : BarriersOk s) {q e b : ℕ} {ready : Option ℕ}
    (he : e ∈ (s.scan q ready).started) (hk : (s.event b).kind.holdsBack = true)
    (hb : QueuedBefore s.toCore b e) : (s.event b).status < 0 ∨ b ∈ s.started := by
  have hlt := h.valid.lt_of_mem_queuedLog hb.mem.1
  have hne : (s.event b).status ≠ queued ∨ b ∈ s.started := by
    rcases h.passed_or_over he hb with hpass | hfin | ⟨-, hst⟩
    · exact Or.inl (hpass.1 hk)
    · exact Or.inl (h.order.past b hfin).2
    · exact Or.inr hst
  rcases h.status b hlt hk with hqueued | hor
  · exact Or.inr (hne.resolve_left fun hno => hno hqueued)
  · exact hor

/-- Every step keeps it. -/
lemma BarriersOk.step {s s' : State} {a : Action} (h : BarriersOk s) (hstep : step s a = some s') :
    BarriersOk s' := by
  have hm := move_of_step hstep
  have hv := h.valid.step hstep
  refine ⟨hv, h.order.move h.valid hm, ?_, h.asked_move hm, ?_⟩
  · rcases hm.effect_or_same with ⟨t, f, rest, fs, ht, -, heff, -⟩ | hsame
    · exact h.status_thread (next_of_getElem? ht).runs heff
    · intro e he hk
      by_cases hlt : e < s.numEvents
      · rw [hsame.event e hlt] at hk ⊢
        rw [hsame.started]
        exact h.status e hlt hk
      · rw [hsame.fresh e (not_lt.mp hlt) he] at hk
        exact absurd hk (by decide)
  · intro b hb hk e he
    have hover : b ∈ s.queuedLog → (QueuedBefore s.toCore e b → Over s.toCore e) →
        Over s'.toCore e := by
      intro hin himp
      have hbefore := he.of_le h.valid hv hm.le hin
      have hlt := h.valid.lt_of_mem_queuedLog hbefore.mem.1
      exact (himp hbefore).mono hlt hm.le
    have hold : b ∈ s.started → Over s'.toCore e := by
      intro hin
      obtain ⟨hlt, hlog⟩ := h.valid.devices.started b hin
      rw [hm.le.kind b hlt] at hk
      exact hover hlog (h.barrier b hin hk e)
    rcases hm.started with hsame | ⟨t, q, ready, o, rest, -, -, happ⟩
    · exact hold (hsame ▸ hb)
    · rcases List.mem_append.mp (happ ▸ hb) with hin | hnew
      · exact hold hin
      · obtain ⟨hlt, -, -, hlog⟩ := h.valid.wellformed.queues.listed q b (mem_started_scan hnew).1
        rw [hm.le.kind b hlt] at hk
        exact hover hlog (h.over_of_barrier hnew hk)

/-- It holds before the first call. -/
lemma barriersOk_init (outOfOrder : ℕ → Bool) (device : ℕ → ℕ) :
    BarriersOk (init outOfOrder device) := by
  refine ⟨valid_init outOfOrder device, orderOk_init outOfOrder device, ?_, ?_, ?_⟩ <;>
    simp [init, Runs]

/-- It holds after every run. -/
lemma barriersOk_run {outOfOrder : ℕ → Bool} {device : ℕ → ℕ} {as : List Action} {s : State}
    (h : run step (init outOfOrder device) as = some s) : BarriersOk s :=
  invariant_of_run (fun _ _ _ hI hst => BarriersOk.step hI hst) h (barriersOk_init outOfOrder device)

/-- After any run, what was queued before a barrier that is complete is over.  And whatever the next
step starts, every marker, barrier and `WaitForEvents` event that was queued before it has failed, or
its wait list has finished and, if it is a barrier, what was queued before it is over. -/
theorem barriers_hold_back {outOfOrder : ℕ → Bool} {device : ℕ → ℕ} {as : List Action} {s : State}
    (hrun : run step (init outOfOrder device) as = some s) :
    (∀ b < s.numEvents, (s.event b).kind = .barrier → (s.event b).status = complete →
      ∀ e, QueuedBefore s.toCore e b → Over s.toCore e) ∧
    ∀ a s', step s a = some s' → ∀ e ∈ s'.started, e ∉ s.started →
      ∀ b, QueuedBefore s.toCore b e → (s.event b).kind.holdsBack = true →
        (s.event b).status < 0 ∨ (∀ w ∈ (s.event b).waitList, w ∈ s.finished) ∧
          ((s.event b).kind = .barrier → ∀ e', QueuedBefore s.toCore e' b → Over s.toCore e') := by
  have hok := barriersOk_run hrun
  constructor
  · intro b hb hk hs e he
    have hst : b ∈ s.started := by
      rcases hok.status b hb (by rw [hk]; rfl) with hq | hneg | hst
      · rw [hs] at hq
        exact absurd hq (by decide)
      · rw [hs] at hneg
        exact absurd hneg (by decide)
      · exact hst
    exact hok.barrier b hst hk e he
  · intro a s' hstep e he hnot b hb hk
    have hnew : ∃ q ready, e ∈ (s.scan q ready).started := by
      rcases (move_of_step hstep).started with hsame | ⟨t, q, ready, o, rest, -, -, happ⟩
      · exact absurd (hsame ▸ he) hnot
      · exact ⟨q, ready, (List.mem_append.mp (happ ▸ he)).resolve_left hnot⟩
    obtain ⟨q, ready, hscan⟩ := hnew
    refine (hok.failed_or_started hscan hk hb).imp_right fun hst => ⟨?_, ?_⟩
    · exact hok.order.waited b hst
    · exact hok.barrier b hst

/-- A marker that a thread has taken and not completed, and a barrier that another thread queues and
completes meanwhile. -/
def takenMarker : List Action :=
  [.enqueue 0 .marker [] false, .thread 0, .thread 0, .thread 0, .thread 0,
    .enqueue 0 .barrier [] false, .thread 1, .thread 1, .thread 1, .thread 1, .thread 1]

/-- A command on the device, a barrier that waits for two user events, a command behind it, and the
failure of the first user event up to the push of the queue. -/
def failedBarrier : List Action :=
  [.createUserEvent, .createUserEvent,
    .enqueue 0 .command [] false, .thread 0, .thread 0, .thread 0, .thread 0,
    .enqueue 0 .barrier [0, 1] false, .thread 1, .thread 1, .thread 1, .thread 1, .thread 1,
    .thread 1, .thread 1, .thread 1,
    .enqueue 0 .command [] false, .thread 2, .thread 2, .thread 2, .thread 2,
    .setUserEventStatus 0 (-1), .thread 3, .thread 3, .thread 3, .thread 3]

/-- The barrier of the first run completes before the marker that was queued before it.  In the
second run the next step starts the command behind the barrier while the command before the barrier
is on the device and one of the events that the barrier waits for is outstanding. -/
theorem not_barriers_hold_back :
    (∃ s, run step (init (fun _ => true) fun _ => 0) takenMarker = some s ∧
      (s.event 1).kind = .barrier ∧ (s.event 1).status = complete ∧ QueuedBefore s.toCore 0 1 ∧
      0 ∉ s.finished) ∧
    ∃ s s', run step (init (fun _ => true) fun _ => 0) failedBarrier = some s ∧
      step s (.thread 3) = some s' ∧ 4 ∈ s'.started ∧ 4 ∉ s.started ∧
      (s.event 4).kind = .command ∧ QueuedBefore s.toCore 3 4 ∧ (s.event 3).kind = .barrier ∧
      QueuedBefore s.toCore 2 3 ∧ 2 ∉ s'.finished ∧ 1 ∈ (s.event 3).waitList ∧
      1 ∉ s'.finished := by
  constructor
  · have hsome : ((run step (init (fun _ => true) fun _ => 0) takenMarker).map fun s =>
        decide ((s.event 1).kind = .barrier ∧ (s.event 1).status = complete ∧
          QueuedBefore s.toCore 0 1 ∧ 0 ∉ s.finished)) = some true := by
      decide
    obtain ⟨s, hs, hdec⟩ := Option.map_eq_some_iff.mp hsome
    exact ⟨s, hs, of_decide_eq_true hdec⟩
  · have hsome : ((run step (init (fun _ => true) fun _ => 0) failedBarrier).bind fun s =>
        (step s (.thread 3)).map fun s' =>
          decide (4 ∈ s'.started ∧ 4 ∉ s.started ∧ (s.event 4).kind = .command ∧
            QueuedBefore s.toCore 3 4 ∧ (s.event 3).kind = .barrier ∧ QueuedBefore s.toCore 2 3 ∧
            2 ∉ s'.finished ∧ 1 ∈ (s.event 3).waitList ∧ 1 ∉ s'.finished)) = some true := by
      decide
    obtain ⟨s, hs, hmap⟩ := Option.bind_eq_some_iff.mp hsome
    obtain ⟨s', hs', hdec⟩ := Option.map_eq_some_iff.mp hmap
    exact ⟨s, s', hs, hs', of_decide_eq_true hdec⟩

/-- After the second run the claims of the theorem hold, the barrier having failed. -/
theorem barriers_hold_back_failedBarrier :
    ∃ s, run step (init (fun _ => true) fun _ => 0) failedBarrier = some s ∧
      (s.event 3).status < 0 ∧
      (∀ b < s.numEvents, (s.event b).kind = .barrier → (s.event b).status = complete →
        ∀ e, QueuedBefore s.toCore e b → Over s.toCore e) ∧
      ∀ a s', step s a = some s' → ∀ e ∈ s'.started, e ∉ s.started →
        ∀ b, QueuedBefore s.toCore b e → (s.event b).kind.holdsBack = true →
          (s.event b).status < 0 ∨ (∀ w ∈ (s.event b).waitList, w ∈ s.finished) ∧
            ((s.event b).kind = .barrier →
              ∀ e', QueuedBefore s.toCore e' b → Over s.toCore e') := by
  have hsome : ((run step (init (fun _ => true) fun _ => 0) failedBarrier).map fun s =>
      decide ((s.event 3).status < 0)) = some true := by
    decide
  obtain ⟨s, hs, hdec⟩ := Option.map_eq_some_iff.mp hsome
  exact ⟨s, hs, of_decide_eq_true hdec, barriers_hold_back hs⟩

end TiOpenCL.CommandQueue
