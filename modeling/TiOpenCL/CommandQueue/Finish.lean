import TiOpenCL.CommandQueue.InOrder
import TiOpenCL.CommandQueue.Wakeups

/-!
# What the end of a wait means

`CommandQueue::finish` waits for an empty list, and an event may leave the list before its end is set.
`finish_returns` says what has happened to the events of the queue when it returns.  A command that is
`Complete` was executed to its end, once, and after its wait list (`executed_once`).  If the application
makes its calls one after another, a queue is left with events only if it waits for a user event that
the application has not set (`waits_for_user_event`), so that no `finish` hangs on the queues alone.
-/

namespace TiOpenCL.CommandQueue

open Machine

/-! ### The end of a wait for a queue -/

/-- What is known of the events in every state of every run. -/
lemma unstartedOk_run {outOfOrder : ℕ → Bool} {device : ℕ → ℕ} {as : List Action} {s : State}
    (h : run step (init outOfOrder device) as = some s) : UnstartedOk s :=
  invariant_of_run (fun _ _ _ hI hst => UnstartedOk.step hI hst) h (unstartedOk_init _ _)

/-- A command that is waited for with `finish`, which returns after the command was executed. -/
def finishOne : List Action :=
  .enqueue 0 .command [] false :: List.replicate 4 (.thread 0) ++
    [.finish 0, .thread 1, .dispatch 0, .thread 2, .thread 2, .endCommand 0 0, .thread 3, .thread 3,
      .thread 3]

/-- What holds of the commands that have ended well. -/
structure CompletedOk (s : State) : Prop where
  valid : Valid s
  order : OrderOk s.toCore
  asked : ∀ e, Runs s.threads (.setStatus e complete) → (s.event e).kind = .command → e ∈ s.ended
  ended : ∀ e < s.numEvents, (s.event e).kind = .command → (s.event e).status = complete → e ∈ s.ended

section Completed

variable {s s' : State} {c : Core} {a : Action} {f : Frame} {fs : List Frame}

/-- What a traversal takes was in the list. -/
lemma mem_events_of_taken {c : Core} {q e : ℕ} {ready : Option ℕ}
    (h : (c.scan q ready).taken = some e) : e ∈ (c.queue q).events := by
  have hstarted : e ∈ (c.scan q ready).started :=
    List.mem_append.mpr (Or.inr (by rw [h]; exact List.mem_singleton_self e))
  exact (mem_started_scan hstarted).1

/-- Only the end of a command on its device asks for its completion. -/
lemma CompletedOk.asked_move (h : CompletedOk s) (hm : Move s a s') {e : ℕ}
    (hr : Runs s'.threads (.setStatus e complete)) (hk : (s'.event e).kind = .command) :
    e ∈ s'.ended := by
  rcases hm.asks hr with hold | hask
  · rw [hm.le.kind e (h.valid.wellformed.frames _ hold).1] at hk
    exact hm.le.ended (h.asked e hold hk)
  · generalize hc : complete = status at hask
    cases hask with
    | thread ht hf hend =>
      cases hend with
      | construct | fail => exact absurd hc (by decide)
      | push htaken =>
        have hlt := (h.valid.wellformed.queues.listed _ e (mem_events_of_taken htaken)).1
        rw [hm.le.kind e hlt] at hk
        exact absurd hk ((Kind.isInstantaneous_iff _).mp (isInstantaneous_of_taken htaken))
    | user he huser =>
      rw [hm.le.kind e he, huser] at hk
      cases hk
    | command he =>
      cases hm
      exact List.mem_cons_self

/-- A critical section makes a command complete only after its end on the device. -/
lemma CompletedOk.ended_thread (h : CompletedOk s) (hf : Runs s.threads f)
    (heff : Effect s.toCore f c fs) {e : ℕ} (he : e < c.numEvents)
    (hk : (c.event e).kind = .command) (hs : (c.event e).status = complete) : e ∈ c.ended := by
  rw [heff.executing.1]
  rcases lt_or_ge e s.numEvents with hlt | hge
  · rw [heff.le.kind e hlt] at hk
    rcases heff.status hlt with hsame | hset
    · rw [hsame] at hs
      exact h.ended e hlt hk hs
    · rw [hs] at hset
      generalize hc : complete = status at hset
      cases hset with
      | setStatus =>
        subst hc
        exact h.asked e hf hk
      | begin | push => exact absurd hc (by decide)
  · rw [heff.status_new hge he] at hs
    exact absurd hs (by decide)

/-- Every step keeps it. -/
lemma CompletedOk.step (h : CompletedOk s) (hstep : step s a = some s') : CompletedOk s' := by
  have hm := move_of_step hstep
  refine ⟨h.valid.step hstep, h.order.move h.valid hm, fun e hr hk => h.asked_move hm hr hk, ?_⟩
  cases hm with
  | thread ht hf => exact fun e he hk hs => h.ended_thread (next_of_getElem? ht).runs hf he hk hs
  | createUserEvent =>
    intro e he hk hs
    rcases lt_or_ge e s.numEvents with hlt | hge
    · simp only [newEvent, Core.setEvent, Function.update_of_ne (Nat.ne_of_lt hlt)] at hk hs
      exact h.ended e hlt hk hs
    · obtain rfl := Nat.le_antisymm (Nat.lt_succ_iff.mp he) hge
      simp [newEvent, Core.setEvent] at hk
  | endCommand => exact fun e he hk hs => List.mem_cons_of_mem _ (h.ended e he hk hs)
  | _ => exact h.ended

end Completed

/-- It holds before the first call. -/
lemma completedOk_init (outOfOrder : ℕ → Bool) (device : ℕ → ℕ) :
    CompletedOk (init outOfOrder device) := by
  refine ⟨valid_init outOfOrder device, orderOk_init outOfOrder device, ?_, ?_⟩ <;> simp [init, Runs]

/-- In every state of every run a command was given to its device at most once, it has ended there at most
as often, and if it is `Complete` it has ended there, exactly once, after its whole wait list had
finished. -/
theorem executed_once {outOfOrder : ℕ → Bool} {device : ℕ → ℕ} {as : List Action} {s : State} {e : ℕ}
    (hrun : run step (init outOfOrder device) as = some s) (he : e < s.numEvents)
    (hk : (s.event e).kind = .command) :
    s.started.count e ≤ 1 ∧ s.executing.count e + s.ended.count e ≤ s.started.count e ∧
      ((s.event e).status = complete →
        s.ended.count e = 1 ∧ ∀ w ∈ (s.event e).waitList, w ∈ s.finished) := by
  have h : CompletedOk s :=
    invariant_of_run (fun _ _ _ hI hst => CompletedOk.step hI hst) hrun (completedOk_init _ _)
  have hone : s.started.count e ≤ 1 := List.nodup_iff_count_le_one.mp h.valid.devices.nodup e
  have htoken := h.valid.devices.token e he
  rw [places, starts, if_pos hk] at htoken
  have hplaces : s.executing.count e + s.ended.count e ≤ s.started.count e := by omega
  refine ⟨hone, hplaces, fun hs => ?_⟩
  have hpos := List.count_pos_iff.mpr (h.ended e he hk hs)
  refine ⟨by omega, fun w hw => ?_⟩
  exact h.order.waited e (List.count_pos_iff.mp (by omega)) w hw

/-- In the run above the command has ended on its device once. -/
theorem executed_once_finishOne :
    ∃ s, run step (init (fun _ => false) fun _ => 0) finishOne = some s ∧ s.ended.count 0 = 1 := by
  have hsome : (run step (init (fun _ => false) fun _ => 0) finishOne).map (fun s =>
      decide (0 < s.numEvents ∧ (s.event 0).kind = .command ∧ (s.event 0).status = complete)) =
        some true := by
    decide
  obtain ⟨s, hs, hdec⟩ := Option.map_eq_some_iff.mp hsome
  obtain ⟨hlt, hk, hstatus⟩ := of_decide_eq_true hdec
  exact ⟨s, hs, ((executed_once hs hlt hk).2.2 hstatus).1⟩

/-! ### Nothing but the application holds a queue up -/

/-- The frames of an enqueue call up to the end of `push_back`. -/
def Frame.enqueues : Frame → Bool
  | .check .. | .construct .. | .queueEvent .. => true
  | _ => false

/-- An enqueue call starts after the one before has appended its event, and none is given up. -/
def OneAfterAnother (s : State) : Action → Prop
  | .enqueue .. => ∀ stack ∈ s.threads, ∀ f ∈ stack, f.enqueues = false
  | .giveUp _ => False
  | _ => True

instance (s : State) : (a : Action) → Decidable (OneAfterAnother s a)
  | .enqueue .. => inferInstanceAs (Decidable (∀ stack ∈ s.threads, ∀ f ∈ stack, f.enqueues = false))
  | .giveUp _ => isFalse id
  | .createUserEvent | .setUserEventStatus .. | .flush _ | .finish _ | .dispatch _ | .endCommand ..
  | .thread _ => isTrue trivial

/-- The enqueue calls that have not appended their events. -/
def enqueueWeight (f : Frame) : ℕ := if f.enqueues then 1 else 0

/-- What holds of the order of the events if the calls come one after another. -/
structure SequentialOk (s : State) : Prop where
  wake : WakeOk s
  older : ∀ e < s.numEvents, ∀ w ∈ (s.event e).waitList, w < e
  sorted : s.queuedLog.Pairwise (· < ·)
  single : total enqueueWeight s.threads ≤ 1
  last : ∀ e f, Runs s.threads f → entryWeight e f = 1 → ∀ x ∈ s.queuedLog, x < e
  appended : ∀ e < s.numEvents, (s.event e).kind ≠ .user →
    e ∈ s.queuedLog ∨ ∃ f, Runs s.threads f ∧ entryWeight e f = 1

section Sequential

variable {s s' : State} {c c' : Core} {a : Action} {f : Frame} {fs : List Frame}

/-- A critical section goes on with the enqueue call that it belongs to. -/
lemma Effect.enqueues (h : Effect c f c' fs) :
    (fs.map enqueueWeight).sum ≤ enqueueWeight f := by
  cases h
  case built failed blocking _ => cases failed <;> simp [enqueueWeight, Frame.enqueues]
  case appended blocking _ => cases blocking <;> simp [enqueueWeight, Frame.enqueues]
  case notifiedReady | notified | propagated =>
    rw [releaseFrames]
    split <;> simp [enqueueWeight, Frame.enqueues]
  case notifiedAll pushed _ _ => cases pushed <;> simp [enqueueWeight, Frame.enqueues]
  all_goals simp [enqueueWeight, Frame.enqueues]

/-- The calls that will append an event are enqueue calls. -/
lemma enqueueWeight_of_entryWeight {e : ℕ} (h : entryWeight e f = 1) : enqueueWeight f = 1 := by
  cases f <;> simp_all [entryWeight, enqueueWeight, Frame.enqueues]

/-- A frame that will append an event comes from one that would, or with a new event. -/
lemma Effect.entry_of_mem (h : Effect c f c' fs) {e : ℕ} {g : Frame} (hg : g ∈ fs)
    (hw : entryWeight e g = 1) : entryWeight e f = 1 ∨ e = c.numEvents := by
  by_contra hno
  obtain ⟨hf, hnew⟩ := not_or.mp hno
  have hzero : entryWeight e f = 0 := by
    cases f <;> simp_all [entryWeight]
  have hentries := h.entries e
  have hcount : c.queuedLog.count e ≤ c'.queuedLog.count e := h.le.queuedLog.sublist.count_le e
  have hone : entryWeight e g ≤ (fs.map (entryWeight e)).sum :=
    List.single_le_sum (fun _ _ => Nat.zero_le _) _ (List.mem_map_of_mem hg)
  rw [hzero, if_neg hnew] at hentries
  omega

/-- A frame that will append an event leaves one that will, or appends it. -/
lemma Effect.entry_goes_on (h : Effect c f c' fs) {e : ℕ} (hw : entryWeight e f = 1) :
    (∃ g ∈ fs, entryWeight e g = 1) ∨ e ∈ c'.queuedLog := by
  cases h
  case built failed blocking _ => cases failed <;> simp_all [entryWeight]
  case appended e' q blocking _ =>
    right
    by_contra hnot
    refine absurd hw ?_
    rw [entryWeight, if_neg]
    · exact zero_ne_one
    · rintro rfl
      exact hnot (by simp)
  all_goals simp_all [entryWeight]

/-- A critical section that creates an event is the end of the check of a wait list. -/
lemma Effect.new (h : Effect c f c' fs) {e : ℕ} (he : c.numEvents ≤ e) (he' : e < c'.numEvents) :
    ∃ q kind waitList blocking, f = .check q kind waitList [] blocking ∧ e = c.numEvents ∧
      (c'.event e).waitList = waitList ∧ fs = [.construct e false blocking] := by
  cases h
  case created q kind waitList blocking =>
    obtain rfl := Nat.le_antisymm (Nat.lt_succ_iff.mp he') he
    exact ⟨q, kind, waitList, blocking, rfl, rfl, by simp [newEvent, Core.setEvent], rfl⟩
  case cleaned =>
    rw [cleanEvents] at he'
    split at he' <;> exact absurd he' (not_lt.mpr he)
  all_goals exact absurd he' (not_lt.mpr he)

/-- A step of a thread leaves at most one enqueue call on its way. -/
lemma SequentialOk.single_thread (h : SequentialOk s) {t : ℕ} {rest : List Frame}
    (ht : s.threads[t]? = some (f :: rest)) (heff : Effect s.toCore f c fs) :
    total enqueueWeight (advance s.threads t fs) ≤ 1 := by
  have htotal := total_advance enqueueWeight fs ht
  have hsum := heff.enqueues
  have hsingle := h.single
  omega

/-- A step of a thread keeps the record in the order of creation. -/
lemma SequentialOk.sorted_thread (h : SequentialOk s) (hf : Runs s.threads f)
    (heff : Effect s.toCore f c fs) : c.queuedLog.Pairwise (· < ·) := by
  rcases heff.queuedLog with hsame | ⟨e, q, blocking, rfl, -, hlog, -⟩
  · rw [hsame]
    exact h.sorted
  · rw [hlog]
    refine List.pairwise_append.mpr ⟨h.sorted, List.pairwise_singleton _ _, fun x hx y hy => ?_⟩
    obtain rfl := List.mem_singleton.mp hy
    exact h.last y _ hf (if_pos rfl) x hx

/-- After a step of a thread, an event that is yet to be appended is younger than those that were. -/
lemma SequentialOk.last_thread (h : SequentialOk s) {t : ℕ} {rest : List Frame}
    (ht : s.threads[t]? = some (f :: rest)) (heff : Effect s.toCore f c fs) {e x : ℕ} {g : Frame}
    (hg : Runs (advance s.threads t fs) g) (hw : entryWeight e g = 1) (hx : x ∈ c.queuedLog) :
    x < e := by
  have hf := (next_of_getElem? ht).runs
  rcases heff.queuedLog with hsame | ⟨e', q, blocking, rfl, -, -, -⟩
  · rw [hsame] at hx
    rcases runs_advance hg with hnew | hold
    · rcases heff.entry_of_mem hnew hw with hwf | rfl
      · exact h.last e f hf hwf x hx
      · exact h.wake.valid.lt_of_mem_queuedLog hx
    · exact h.last e g hold hw x hx
  · -- the call that has appended its event was the only one
    have hsum : (fs.map enqueueWeight).sum = 0 := by
      cases heff
      cases blocking <;> rfl
    have htotal := total_advance enqueueWeight fs ht
    have hweight : enqueueWeight (.queueEvent e' blocking) = 1 := rfl
    have hle := hg.weight_le enqueueWeight
    rw [enqueueWeight_of_entryWeight hw] at hle
    have hsingle := h.single
    omega

/-- After a step of a thread every event but a user event was appended or is yet to be. -/
lemma SequentialOk.appended_thread (h : SequentialOk s) {t : ℕ} {rest : List Frame}
    (ht : s.threads[t]? = some (f :: rest)) (heff : Effect s.toCore f c fs) {e : ℕ}
    (he : e < c.numEvents) (hk : (c.event e).kind ≠ .user) :
    e ∈ c.queuedLog ∨ ∃ g, Runs (advance s.threads t fs) g ∧ entryWeight e g = 1 := by
  rcases lt_or_ge e s.numEvents with hlt | hge
  · rw [heff.le.kind e hlt] at hk
    rcases h.appended e hlt hk with hlog | ⟨g, hg, hw⟩
    · exact Or.inl (heff.le.queuedLog.subset hlog)
    · rcases runs_of_runs fs ht hg with rfl | hstay
      · rcases heff.entry_goes_on hw with ⟨g', hg', hw'⟩ | hlog
        · exact Or.inr ⟨g', runs_advance_of_mem ht hg', hw'⟩
        · exact Or.inl hlog
      · exact Or.inr ⟨g, hstay, hw⟩
  · obtain ⟨q, kind, waitList, blocking, rfl, rfl, -, rfl⟩ := heff.new hge he
    exact Or.inr ⟨_, runs_advance_of_mem ht (List.mem_singleton_self _), if_pos rfl⟩

/-- A step that is no critical section leaves at most one enqueue call on its way, and every frame. -/
lemma SequentialOk.keeps_move (h : SequentialOk s) (hm : Move s a s') (hok : OneAfterAnother s a)
    (ha : ∀ t, a ≠ .thread t) :
    total enqueueWeight s'.threads ≤ 1 ∧ ∀ g, Runs s.threads g → Runs s'.threads g := by
  have happend : ∀ stack g, Runs s.threads g → Runs (s.threads ++ [stack]) g := by
    rintro stack g ⟨st, hmem, hg⟩
    exact ⟨st, List.mem_append_left _ hmem, hg⟩
  have hzero : ∀ stack : List Frame, (stack.map enqueueWeight).sum = 0 →
      total enqueueWeight (s.threads ++ [stack]) ≤ 1 := by
    intro stack hsum
    rw [total_append, hsum]
    exact h.single
  cases hm with
  | createUserEvent => exact ⟨h.single, fun g hg => hg⟩
  | enqueue hk hw =>
    refine ⟨?_, happend _⟩
    have hnone : total enqueueWeight s.threads = 0 := by
      by_contra hne
      obtain ⟨g, ⟨stack, hstack, hg⟩, hpos⟩ := exists_runs_of_total_pos (Nat.pos_of_ne_zero hne)
      rw [enqueueWeight, hok stack hstack g hg] at hpos
      exact absurd hpos (by decide)
    rw [State.spawn, total_append, hnone]
    exact le_rfl
  | thread => exact absurd rfl (ha _)
  | giveUp => exact hok.elim
  | _ => exact ⟨hzero _ rfl, happend _⟩

/-- Every step of an application that makes its calls one after another keeps it. -/
lemma SequentialOk.step (h : SequentialOk s) (hok : OneAfterAnother s a)
    (hstep : step s a = some s') : SequentialOk s' := by
  have hm := move_of_step hstep
  have hwake := h.wake.step hstep
  rcases hm.effect_or_keeps with ⟨t, f, rest, fs, ht, -, heff, hthreads⟩ | ⟨ha, hsame, -⟩
  · have hf := (next_of_getElem? ht).runs
    refine ⟨hwake, fun e he w hw => ?_, h.sorted_thread hf heff, ?_, ?_, ?_⟩
    · rcases lt_or_ge e s.numEvents with hlt | hge
      · rw [heff.le.waitList e hlt] at hw
        exact h.older e hlt w hw
      · obtain ⟨q, kind, waitList, blocking, rfl, rfl, hlist, -⟩ := heff.new hge he
        rw [hlist] at hw
        exact (h.wake.valid.wellformed.frames _ hf).2.1 w hw
    · rw [hthreads]
      exact h.single_thread ht heff
    · rw [hthreads]
      exact fun e g hg hw x hx => h.last_thread ht heff hg hw hx
    · rw [hthreads]
      exact fun e he hk => h.appended_thread ht heff he hk
  · obtain ⟨hsingle, hruns⟩ := h.keeps_move hm hok ha
    refine ⟨hwake, fun e he w hw => ?_, ?_, hsingle, fun e g hg hw x hx => ?_, fun e he hk => ?_⟩
    · rcases lt_or_ge e s.numEvents with hlt | hge
      · rw [hsame.event e hlt] at hw
        exact h.older e hlt w hw
      · rw [hsame.fresh e hge he] at hw
        cases hw
    · rw [hsame.queuedLog]
      exact h.sorted
    · rw [hsame.queuedLog] at hx
      rcases hm.runs hg with hold | hspawn | ⟨t, _, _, _, -, rfl, -⟩
      · exact h.last e g hold hw x hx
      · cases hspawn <;> exact absurd hw (by simp [entryWeight])
      · exact absurd rfl (ha t)
    · rcases lt_or_ge e s.numEvents with hlt | hge
      · rw [hsame.event e hlt] at hk
        rw [hsame.queuedLog]
        refine (h.appended e hlt hk).imp_right ?_
        rintro ⟨g, hg, hw⟩
        exact ⟨g, hruns g hg, hw⟩
      · rw [hsame.fresh e hge he] at hk
        exact absurd rfl hk

end Sequential

/-- It holds before the first call. -/
lemma sequentialOk_init (outOfOrder : ℕ → Bool) (device : ℕ → ℕ) :
    SequentialOk (init outOfOrder device) := by
  refine ⟨wakeOk_init outOfOrder device, ?_, ?_, ?_, ?_, ?_⟩ <;> simp [init, total, Runs]

/-- Whatever was started from a queue at rest has ended. -/
lemma WakeOk.ended_of_started {s : State} {q e : ℕ} (h : WakeOk s) (hrest : AtRest s q)
    (hp : (s.event e).parent = some q) (hst : e ∈ s.started) : (s.event e).status ≤ complete := by
  have hdone : Done s.toCore e := by
    by_cases hk : (s.event e).kind = .command
    · refine Or.inl ?_
      by_contra hnot
      exact hrest.not_inFlight h.valid ⟨e, hst, hk, hp, hnot⟩
    · exact Or.inr ⟨hst, hk⟩
  refine (h.ends e hdone).resolve_right ?_
  rintro ⟨status, hrun⟩
  exact hrest.not_wakes hrun hp

/-- An event of a queue at rest has ended, or is in the list of the queue. -/
lemma WakeOk.ended_or_mem {s : State} {q e : ℕ} (h : WakeOk s) (hrest : AtRest s q)
    (he : e ∈ s.queuedLog) (hp : (s.event e).parent = some q) :
    (s.event e).status ≤ complete ∨ e ∈ (s.queue q).events := by
  rcases h.order.gone e he q hp with hin | hfin | ⟨-, hst⟩
  · exact Or.inr hin
  · obtain ⟨hlt, hne⟩ := h.order.past e hfin
    rcases h.status e hlt (by rw [hp]; rfl) with hq | hle | ⟨-, hst⟩
    · exact absurd hq hne
    · exact Or.inl hle
    · exact Or.inl (h.ended_of_started hrest hp hst)
  · exact Or.inl (h.ended_of_started hrest hp hst)

/-- The first event of a queue at rest waits for an event that has not ended. -/
lemma WakeOk.head_waits {s : State} {q e : ℕ} {es : List ℕ} (h : WakeOk s) (hrest : AtRest s q)
    (he : (s.queue q).events = e :: es) :
    ∃ w ∈ (s.event e).waitList, complete < (s.event w).status := by
  obtain ⟨hlt, -, hp, -⟩ := h.valid.wellformed.queues.listed q e (by rw [he]; simp)
  have hsettled := h.settled hrest
  rw [he] at hsettled
  obtain ⟨hopen, hcut | ⟨-, hfirst⟩ | ⟨hne, -⟩ | ⟨-, hwait, -⟩⟩ := hsettled
  · exact absurd hcut (Nat.not_lt_zero _)
  · cases hfirst
  · rcases h.status e hlt (by rw [hp]; rfl) with hq | hle | ⟨-, hst⟩
    · exact absurd hq hne
    · exact absurd hle (not_le.mpr hopen)
    · exact absurd (h.ended_of_started hrest hp hst) (not_le.mpr hopen)
  · obtain ⟨w, hw⟩ := List.exists_mem_of_ne_nil _ hwait
    exact ⟨w, h.waits.listed e hlt hw, h.awaited hrest hlt hw⟩

/-- When nothing goes on in any queue of an application that makes its calls one after another, and some
queue is not empty, the first event of a queue waits for a user event whose status was not set. -/
theorem waits_for_user_event {outOfOrder : ℕ → Bool} {device : ℕ → ℕ} {as : List Action} {s : State}
    {q : ℕ} (hok : RunOk step OneAfterAnother (init outOfOrder device) as)
    (hrun : run step (init outOfOrder device) as = some s) (hrest : ∀ q, AtRest s q)
    (hq : (s.queue q).events ≠ []) :
    ∃ q' e u, (s.queue q').events.head? = some e ∧ u ∈ (s.event e).waitList ∧
      (s.event u).kind = .user ∧ complete < (s.event u).status := by
  have h : SequentialOk s := invariant_of_runOk (fun _ _ _ hI hok hst => SequentialOk.step hI hok hst)
    hok hrun (sequentialOk_init _ _)
  -- the oldest event that is in a list
  have hex : ∃ e q, e ∈ (s.queue q).events := by
    obtain ⟨e, he⟩ := List.exists_mem_of_ne_nil _ hq
    exact ⟨e, q, he⟩
  classical
  obtain ⟨q', hmem⟩ := Nat.find_spec hex
  have hmin : ∀ e q, e ∈ (s.queue q).events → Nat.find hex ≤ e := fun e q he => Nat.find_min' hex ⟨q, he⟩
  generalize Nat.find hex = e at hmem hmin
  obtain ⟨x, es, hev⟩ := List.exists_cons_of_ne_nil (List.ne_nil_of_mem hmem)
  have hx : x = e := by
    have hxe := hmin x q' (by rw [hev]; exact List.mem_cons_self)
    have hsorted := h.sorted.sublist (h.wake.order.sublist q')
    rw [hev] at hmem hsorted
    rcases List.mem_cons.mp hmem with rfl | htail
    · rfl
    · have hlt := List.rel_of_pairwise_cons hsorted htail
      omega
  subst hx
  obtain ⟨u, hu, hopen⟩ := h.wake.head_waits (hrest q') hev
  refine ⟨q', x, u, by rw [hev]; rfl, hu, ?_, hopen⟩
  by_contra hk
  -- an event of a queue would be in its list, and older
  obtain ⟨hlt, -⟩ := h.wake.valid.wellformed.queues.listed q' x hmem
  have hux := h.older x hlt u hu
  have hlt' := hux.trans hlt
  rcases h.appended u hlt' hk with hlog | ⟨f, ⟨stack, hstack, hf⟩, hw⟩
  · cases hp : (s.event u).parent with
    | none => exact hk ((h.wake.valid.wellformed.events.user u hlt').mpr hp)
    | some p =>
      rcases h.wake.ended_or_mem (hrest p) hlog hp with hle | hin
      · exact absurd hle (not_le.mpr hopen)
      · exact absurd (hmin u p hin) (not_le.mpr hux)
  · have hasleep := (hrest q').asleep stack hstack f hf
    cases f <;> simp_all [Frame.asleep, entryWeight]

/-- No step changes the device of a queue. -/
lemma device_run {outOfOrder : ℕ → Bool} {device : ℕ → ℕ} {as : List Action} {s : State}
    (h : run step (init outOfOrder device) as = some s) (q : ℕ) : (s.queue q).device = device q := by
  refine invariant_of_run (I := fun s => (s.queue q).device = device q) ?_ h rfl
  exact fun _ _ _ hI hst => ((move_of_step hst).le.device q).trans hI

/-- A command that waits for a user event, and a call of `finish`. -/
def finishWaits : List Action :=
  .createUserEvent :: .enqueue 0 .command [0] false :: List.replicate 6 (.thread 0) ++
    [.finish 0, .thread 1]

/-- In this run nothing goes on, and `finish` waits for the user event. -/
theorem waits_for_user_event_finishWaits :
    ∃ s, run step (init (fun _ => false) fun _ => 0) finishWaits = some s ∧
      (s.queue 0).events = [1] ∧ ∃ q e u, (s.queue q).events.head? = some e ∧
        u ∈ (s.event e).waitList ∧ (s.event u).kind = .user ∧ complete < (s.event u).status := by
  have hsome : (run step (init (fun _ => false) fun _ => 0) finishWaits).map (fun s =>
      decide (AtRest s 0 ∧ (s.queue 0).events = [1])) = some true := by
    decide
  obtain ⟨s, hs, hdec⟩ := Option.map_eq_some_iff.mp hsome
  obtain ⟨hrest, hevents⟩ := of_decide_eq_true hdec
  have hall : ∀ q, AtRest s q := by
    refine fun q => ⟨hrest.asleep, ?_, hrest.executing⟩
    rw [device_run hs q, ← device_run hs 0]
    exact hrest.device
  exact ⟨s, hs, hevents, waits_for_user_event (q := 0) (by decide) hs hall (by simp [hevents])⟩

end TiOpenCL.CommandQueue
