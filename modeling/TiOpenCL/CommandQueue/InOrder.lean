import TiOpenCL.CommandQueue.Accounting
import TiOpenCL.CommandQueue.Barriers

/-!
# Queues in order

A traversal of a queue in order starts an event only when everything before it in the list has ended.  For
a command to end means that its device is done with it, or that it has failed without being started, as
long as no status is set for a command that is on its device (`Spares`).  `Event::setStatus` does that: it
removes a failed event from the wait events of a dependent one and sets the error of the latter in two
steps, between which another thread may start it.
-/

namespace TiOpenCL.CommandQueue

open Machine

/-! ### Events that were not started -/

/-- What holds of the events that were not started in every state of every run: they are queued, or the error
of an event that they wait for was passed on to them. -/
structure UnstartedOk (s : State) : Prop where
  valid : Valid s
  order : OrderOk s.toCore
  status : ∀ e < s.numEvents, (s.event e).kind ≠ .user → e ∉ s.started →
    (s.event e).status = queued ∨ (s.event e).status = errorInWaitList
  asked : ∀ e status, Runs s.threads (.setStatus e status) → (s.event e).kind ≠ .user →
    status = errorInWaitList ∨ e ∈ s.started

section Unstarted

variable {s s' : State} {c : Core} {a : Action} {f : Frame} {fs : List Frame}

/-- A step of a thread leaves an event that was not started queued or failed. -/
lemma UnstartedOk.status_thread (h : UnstartedOk s) (hf : Runs s.threads f)
    (heff : Effect s.toCore f c fs) {e : ℕ} (he : e < c.numEvents) (hk : (c.event e).kind ≠ .user)
    (hnot : e ∉ c.started) :
    (c.event e).status = queued ∨ (c.event e).status = errorInWaitList := by
  rcases lt_or_ge e s.numEvents with hlt | hge
  · rw [heff.le.kind e hlt] at hk
    have hnot' : e ∉ s.started := fun hin => hnot (heff.le.started.subset hin)
    rcases heff.status hlt with hsame | hset
    · rw [hsame]
      exact h.status e hlt hk hnot'
    · generalize hs : (c.event e).status = status at hset
      cases hset with
      | setStatus => exact Or.inr ((h.asked e status hf hk).resolve_right hnot')
      | begin =>
        exact absurd (h.valid.command_of_worker (e := e) hf (by simp [workerWeight])).2 hnot'
      | @push q ready o hp =>
        have hmem : e ∈ (s.scan q ready).started := List.mem_append_left _ hp
        rcases heff.started with hsame | ⟨q', ready', o', heq, happ, -⟩
        · left
          cases heff with
          | throttled =>
            simp only [Core.setQueue] at hs
            rw [← hs]
            exact (mem_started_scan hmem).2.1
          | pushed => exact absurd (List.mem_append_right _ hmem) hnot
          | took => exact absurd (List.mem_append_right _ hmem) hnot
        · cases heq
          rw [happ] at hnot
          exact absurd (List.mem_append_right _ hmem) hnot
  · exact Or.inl (heff.status_new hge he)

/-- Only the end of a started event is anything but the error of an event that it waits for. -/
lemma UnstartedOk.asked_move (h : UnstartedOk s) (hm : Move s a s') {e : ℕ} {status : ℤ}
    (hr : Runs s'.threads (.setStatus e status)) (hk : (s'.event e).kind ≠ .user) :
    status = errorInWaitList ∨ e ∈ s'.started := by
  have hst := hm.le.started.subset
  rcases hm.asks hr with hold | hask
  · rw [hm.le.kind e (h.valid.wellformed.frames _ hold).1] at hk
    exact (h.asked e status hold hk).imp_right (hst ·)
  · cases hask with
    | thread _ _ hend =>
      cases hend with
      | construct | fail => exact Or.inl rfl
      | push _ hstart => exact Or.inr hstart
    | user he huser =>
      rw [hm.le.kind e he] at hk
      exact absurd huser hk
    | command he => exact Or.inr (hst (h.valid.command_of_executing he).2)

/-- Every step keeps it. -/
lemma UnstartedOk.step (h : UnstartedOk s) (hstep : step s a = some s') : UnstartedOk s' := by
  have hm := move_of_step hstep
  refine ⟨h.valid.step hstep, h.order.move h.valid hm, ?_, fun e status hr hk => h.asked_move hm hr hk⟩
  rcases hm.effect_or_same with ⟨t, f, rest, fs, ht, -, heff, -⟩ | hsame
  · exact fun e he hk hnot => h.status_thread (next_of_getElem? ht).runs heff he hk hnot
  · intro e he hk hnot
    rcases lt_or_ge e s.numEvents with hlt | hge
    · rw [hsame.event e hlt] at hk ⊢
      rw [hsame.started] at hnot
      exact h.status e hlt hk hnot
    · rw [hsame.fresh e hge he] at hk
      exact absurd rfl hk

end Unstarted

/-- It holds before the first call. -/
lemma unstartedOk_init (outOfOrder : ℕ → Bool) (device : ℕ → ℕ) :
    UnstartedOk (init outOfOrder device) := by
  refine ⟨valid_init outOfOrder device, orderOk_init outOfOrder device, ?_, ?_⟩ <;> simp [init, Runs]

/-- An event that has ended without being started has the error of an event that it waits for. -/
lemma UnstartedOk.failed {s : State} (h : UnstartedOk s) {e : ℕ} (hfin : e ∈ s.finished)
    (hk : (s.event e).kind ≠ .user) (hnot : e ∉ s.started) : (s.event e).status = errorInWaitList := by
  obtain ⟨hlt, hne⟩ := h.order.past e hfin
  exact (h.status e hlt hk hnot).resolve_left hne

/-! ### Commands in order -/

/-- A critical section does not set the status of a command of a queue in order that was handed to its
device and has not ended there. -/
def Spares (c : Core) : Frame → Prop
  | .setStatus e _ =>
    (c.event e).kind = .command → (∀ q ∈ (c.event e).parent, (c.queue q).outOfOrder = false) →
      e ∈ c.started → e ∈ c.ended
  | _ => True

instance (c : Core) : (f : Frame) → Decidable (Spares c f)
  | .setStatus e _ => inferInstanceAs (Decidable ((c.event e).kind = .command →
      (∀ q ∈ (c.event e).parent, (c.queue q).outOfOrder = false) → e ∈ c.started → e ∈ c.ended))
  | .check .. | .construct .. | .queueEvent .. | .notify .. | .fail .. | .push .. | .clean _
  | .release _ | .begin _ | .execute _ | .wait _ | .waitEmpty _ => isTrue trivial

/-- A step that does not set the status of such a command. -/
def SparesStep (s : State) : Action → Prop
  | .thread t => ∀ f ∈ s.threads[t]?.bind List.head?, Spares s.toCore f
  | _ => True

instance (s : State) : (a : Action) → Decidable (SparesStep s a)
  | .thread t => inferInstanceAs (Decidable (∀ f ∈ s.threads[t]?.bind List.head?, Spares s.toCore f))
  | .createUserEvent | .enqueue .. | .setUserEventStatus .. | .flush _ | .finish _ | .dispatch _
  | .endCommand .. | .giveUp _ => isTrue trivial

/-- What holds of the queues in order in such runs: a started command has not finished before it has ended,
and what was queued before a started event is over. -/
structure InOrderOk (s : State) : Prop where
  unstarted : UnstartedOk s
  barriers : BarriersOk s
  spared : ∀ e ∈ s.started, (s.event e).kind = .command →
    (∀ q ∈ (s.event e).parent, (s.queue q).outOfOrder = false) → e ∈ s.finished → e ∈ s.ended
  before : ∀ e ∈ s.started, ∀ q, (s.event e).parent = some q → (s.queue q).outOfOrder = false →
    ∀ b, QueuedBefore s.toCore b e → Over s.toCore b

section InOrder

variable {s s' : State} {c : Core} {a : Action} {f : Frame} {fs : List Frame}

/-- A critical section that spares the commands on their devices leaves them unfinished. -/
lemma InOrderOk.spared_thread (h : InOrderOk s) (heff : Effect s.toCore f c fs)
    (hok : Spares s.toCore f) {e : ℕ} (he : e ∈ c.started) (hk : (c.event e).kind = .command)
    (hq : ∀ q ∈ (c.event e).parent, (c.queue q).outOfOrder = false) (hfin : e ∈ c.finished) :
    e ∈ c.ended := by
  have hv := h.unstarted.valid
  rw [heff.executing.1]
  have hold : e ∈ s.started → e ∈ s.ended := by
    intro hin
    have hlt := (hv.devices.started e hin).1
    rw [heff.le.kind e hlt] at hk
    have hq' : ∀ q ∈ (s.event e).parent, (s.queue q).outOfOrder = false := by
      intro q hp
      rw [← heff.le.outOfOrder q]
      exact hq q ((heff.le.parent e hlt).trans hp)
    rcases heff.finished hfin with hfin' | ⟨status, rfl, -⟩
    · exact h.spared e hin hk hq' hfin'
    · exact hok hk hq' hin
  rcases heff.started with hsame | ⟨q, ready, o, rfl, happ, -⟩
  · exact hold (hsame ▸ he)
  · rcases List.mem_append.mp (happ ▸ he) with hin | hnew
    · exact hold hin
    · -- what is started now was queued, so that it has not finished
      rcases heff.finished hfin with hfin' | ⟨status, hcon, -⟩
      · exact absurd (mem_started_scan hnew).2.1 (h.unstarted.order.past e hfin').2
      · cases hcon

/-- A traversal of a queue in order starts an event only when what was queued before it is over. -/
lemma InOrderOk.over_of_started (h : InOrderOk s) {q e b : ℕ} {ready : Option ℕ}
    (he : e ∈ (s.scan q ready).started) (hq : (s.queue q).outOfOrder = false)
    (hb : QueuedBefore s.toCore b e) : Over s.toCore b := by
  rcases h.barriers.passed_or_over he hb with hpass | hover
  · have hlt := h.unstarted.valid.lt_of_mem_queuedLog hb.mem.1
    exact Or.inl (h.unstarted.valid.wellformed.events.reached b hlt (hpass.2 (Or.inl hq)))
  · exact hover

/-- What was queued before an event that a step starts, or has been started before, is over. -/
lemma InOrderOk.before_move (h : InOrderOk s) (hm : Move s a s') (hv' : Valid s') {e q b : ℕ}
    (he : e ∈ s'.started) (hp : (s'.event e).parent = some q) (hq : (s'.queue q).outOfOrder = false)
    (hb : QueuedBefore s'.toCore b e) : Over s'.toCore b := by
  have hv := h.unstarted.valid
  rw [hm.le.outOfOrder q] at hq
  have hover : e ∈ s.queuedLog → (QueuedBefore s.toCore b e → Over s.toCore b) →
      Over s'.toCore b := by
    intro hin himp
    have hbefore := hb.of_le hv hv' hm.le hin
    have hlt := hv.lt_of_mem_queuedLog hbefore.mem.1
    exact (himp hbefore).mono hlt hm.le
  have hold : e ∈ s.started → Over s'.toCore b := by
    intro hin
    obtain ⟨hlt, hlog⟩ := hv.devices.started e hin
    rw [hm.le.parent e hlt] at hp
    exact hover hlog (h.before e hin q hp hq b)
  rcases hm.started with hsame | ⟨t, q', ready, o, rest, -, -, happ⟩
  · exact hold (hsame ▸ he)
  · rcases List.mem_append.mp (happ ▸ he) with hin | hnew
    · exact hold hin
    · obtain ⟨hlt, -, hp', hlog⟩ := hv.wellformed.queues.listed q' e (mem_started_scan hnew).1
      rw [hm.le.parent e hlt, hp'] at hp
      obtain rfl := Option.some.inj hp
      exact hover hlog (h.over_of_started hnew hq)

/-- A step that spares the commands on their devices keeps it. -/
lemma InOrderOk.step (h : InOrderOk s) (hok : SparesStep s a) (hstep : step s a = some s') :
    InOrderOk s' := by
  have hm := move_of_step hstep
  have hunstarted := h.unstarted.step hstep
  refine ⟨hunstarted, h.barriers.step hstep, ?_, fun e he q hp hq b hb =>
    h.before_move hm hunstarted.valid he hp hq hb⟩
  cases hm with
  | @thread t f rest fs c ht heff =>
    have hspares : Spares s.toCore f := hok f (by rw [ht]; rfl)
    exact fun e he hk hq hfin => h.spared_thread heff hspares he hk hq hfin
  | createUserEvent =>
    intro e he hk hq hfin
    have hlt := (h.unstarted.valid.devices.started e he).1
    simp only [newEvent, Core.setEvent, Function.update_of_ne (Nat.ne_of_lt hlt)] at hk hq
    exact h.spared e he hk hq hfin
  | endCommand =>
    intro e he hk hq hfin
    exact List.mem_cons_of_mem _ (h.spared e he hk hq hfin)
  | _ => exact h.spared

end InOrder

/-- It holds before the first call. -/
lemma inOrderOk_init (outOfOrder : ℕ → Bool) (device : ℕ → ℕ) : InOrderOk (init outOfOrder device) := by
  refine ⟨unstartedOk_init _ _, barriersOk_init _ _, ?_, ?_⟩ <;> simp [init]

/-- A command of a queue was handed to its device and has not ended there. -/
def OnDevice (c : Core) (q e : ℕ) : Prop :=
  e ∈ c.started ∧ (c.event e).kind = .command ∧ (c.event e).parent = some q ∧ e ∉ c.ended

instance (c : Core) (q e : ℕ) : Decidable (OnDevice c q e) :=
  inferInstanceAs (Decidable (_ ∧ _ ∧ _ ∧ _))

/-- The order of the commands of a queue: at most one of them is on the device, and whenever one has been
handed over, every command that was queued before it has ended on the device, or has failed without being
handed over. -/
structure InOrder (c : Core) (q : ℕ) : Prop where
  one : ∀ a b, OnDevice c q a → OnDevice c q b → a = b
  before : ∀ e ∈ c.started, (c.event e).kind = .command → (c.event e).parent = some q →
    ∀ b, QueuedBefore c b e → (c.event b).kind = .command →
      b ∈ c.ended ∨ b ∉ c.started ∧ (c.event b).status < 0

/-- A command that waits for a user event and one behind it.  The user event fails; between the two steps
of the thread that passes the error on, the application flushes the queue. -/
def flushedInBetween : List Action :=
  .createUserEvent :: .enqueue 0 .command [0] false :: List.replicate 6 (.thread 0) ++
    .enqueue 0 .command [] false :: List.replicate 4 (.thread 1) ++
    [.setUserEventStatus 0 (-1), .thread 2, .thread 2, .flush 0, .thread 3, .thread 2, .thread 2,
      .thread 2]

/-- Two commands, one after the other, the first of which is done with. -/
def oneByOne : List Action :=
  .enqueue 0 .command [] false :: List.replicate 4 (.thread 0) ++
    .enqueue 0 .command [] false :: List.replicate 4 (.thread 1) ++
    [.dispatch 0, .thread 2, .thread 2, .endCommand 0 0, .thread 3, .thread 3, .thread 3]

end TiOpenCL.CommandQueue
