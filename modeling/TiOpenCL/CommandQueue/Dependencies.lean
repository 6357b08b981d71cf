import TiOpenCL.CommandQueue.Lifecycle

/-!
# No event starts before its wait list has finished

Registration and completion race: an event may be registered with one event of its wait list while
another one completes, and a completed event is taken out of the lists of its dependent events one
by one.  In every state of every run an event of a wait list has finished, is still in
`p_wait_events`, or has not been come to by the constructor (`EventsOk.waits`).  A traversal starts
only events of its queue with nothing in `p_wait_events`, and these are constructed.
-/

namespace TiOpenCL.CommandQueue

open Machine

/-- What holds in every state of every run. -/
structure Valid (s : State) : Prop where
  wellformed : Wellformed s
  devices : DevicesOk s

/-- It holds before the first call. -/
lemma valid_init (outOfOrder : ℕ → Bool) (device : ℕ → ℕ) : Valid (init outOfOrder device) := by
  refine ⟨⟨⟨?_, ?_, ?_, ?_, ?_, ?_, ?_⟩, ⟨?_, ?_, ?_, ?_⟩, ?_⟩, ⟨?_, ?_, ?_, ?_, ?_, ?_, ?_⟩⟩ <;>
    simp [init, total, Runs]

/-- Every step keeps it. -/
lemma Valid.step {s s' : State} {a : Action} (h : Valid s) (hstep : step s a = some s') :
    Valid s' := by
  have hm := move_of_step hstep
  have hdev : ∀ dev, ∀ e ∈ s.device dev, e < s.numEvents := fun dev e he =>
    (h.devices.listed dev e he).1
  exact ⟨h.wellformed.move hdev h.devices.executing hm, h.devices.move h.wellformed hm⟩

/-- It holds after every run. -/
lemma valid_run {outOfOrder : ℕ → Bool} {device : ℕ → ℕ} {as : List Action} {s : State}
    (h : run step (init outOfOrder device) as = some s) : Valid s :=
  invariant_of_run (fun _ _ _ hI hst => Valid.step hI hst) h (valid_init outOfOrder device)

/-- The events that a step starts: those of the traversal of a queue, if the step is one. -/
lemma Move.started {s s' : State} {a : Action} (hm : Move s a s') :
    s'.started = s.started ∨ ∃ t q ready oneCompleted rest,
      s.threads[t]? = some (.push q ready oneCompleted :: rest) ∧ a = .thread t ∧
      s'.started = s.started ++ (s.scan q ready).started := by
  cases hm with
  | thread ht hf =>
    rcases hf.started with hsame | ⟨q, ready, o, rfl, happ, -⟩
    · exact Or.inl hsame
    · exact Or.inr ⟨_, q, ready, o, _, ht, rfl, happ⟩
  | _ => exact Or.inl rfl

/-- What an event of a queue waited for has finished if nothing is left in its list. -/
lemma Valid.waits_finished {s : State} (h : Valid s) {q e w : ℕ} (he : e ∈ (s.queue q).events)
    (hempty : (s.event e).waitEvents = []) (hw : w ∈ (s.event e).waitList) : w ∈ s.finished := by
  obtain ⟨hlt, hb, -, -⟩ := h.wellformed.queues.listed q e he
  have hunreg := h.wellformed.events.built e hlt hb
  rcases h.wellformed.events.waits e hlt w hw with hfin | hwait | hreg
  · exact hfin
  · rw [hempty] at hwait
    cases hwait
  · rw [hunreg] at hreg
    cases hreg

/-- After any run, whatever the next step starts, by giving it to its device or by taking it as
instantaneous, has a wait list of events that have all reached `Complete` or an error. -/
theorem started_after_waits {outOfOrder : ℕ → Bool} {device : ℕ → ℕ} {as : List Action}
    {a : Action} {s s' : State} (hrun : run step (init outOfOrder device) as = some s)
    (hstep : step s a = some s') :
    ∃ new, s'.started = s.started ++ new ∧
      ∀ e ∈ new, ∀ w ∈ (s.event e).waitList, w ∈ s.finished := by
  have hvalid := valid_run hrun
  rcases (move_of_step hstep).started with hsame | ⟨t, q, ready, o, rest, -, -, happ⟩
  · exact ⟨[], by rw [hsame, List.append_nil], fun e he => nomatch he⟩
  · refine ⟨(s.scan q ready).started, happ, fun e he w hw => ?_⟩
    obtain ⟨hmem, -, hempty⟩ := mem_started_scan he
    exact hvalid.waits_finished hmem hempty hw

/-- A user event, a command that waits for it twice, and the completion of the user event up to the
push of the command. -/
def waitTwice : List Action :=
  [.createUserEvent, .enqueue 0 .command [0, 0] false, .thread 0, .thread 0, .thread 0, .thread 0,
    .thread 0, .thread 0, .setUserEventStatus 0 0, .thread 1, .thread 1, .thread 0]

/-- In this run the last step starts the command, whose wait list has finished. -/
theorem started_after_waits_waitTwice :
    ∃ s s', run step (init (fun _ => true) fun _ => 0) waitTwice = some s ∧
      step s (.thread 1) = some s' ∧ s'.started = [1] ∧
      ∃ new, s'.started = s.started ++ new ∧
        ∀ e ∈ new, ∀ w ∈ (s.event e).waitList, w ∈ s.finished := by
  have hsome : ((run step (init (fun _ => true) fun _ => 0) waitTwice).bind fun s =>
      (step s (.thread 1)).map fun s' => s'.started) = some [1] := by
    decide
  obtain ⟨s, hs, hmap⟩ := Option.bind_eq_some_iff.mp hsome
  obtain ⟨s', hs', hst⟩ := Option.map_eq_some_iff.mp hmap
  exact ⟨s, s', hs, hs', hst, started_after_waits hs hs'⟩

end TiOpenCL.CommandQueue
