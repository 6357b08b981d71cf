import TiOpenCL.CommandQueue.Basic

/-!
# What a step of the queues does

`Effect` lists the critical sections with what each of them finds, does and leaves to do, and
`effect_of_runFrame` says that there are no others.  `Move` does the same for the steps of the
machine.  The invariants of the other modules are case analyses over the two.
-/

namespace TiOpenCL.CommandQueue

open Machine

/-- A critical section: the frame that runs, the core before and after it, and the frames that are
left. -/
inductive Effect (c : Core) : Frame → Core → List Frame → Prop where
  | rejected {q : ℕ} {kind : Kind} {waitList ws : List ℕ} {w : ℕ} {blocking : Bool}
      (hw : (c.event w).status < 0) :
      Effect c (.check q kind waitList (w :: ws) blocking) c []
  | checked {q : ℕ} {kind : Kind} {waitList ws : List ℕ} {w : ℕ} {blocking : Bool}
      (hw : 0 ≤ (c.event w).status) :
      Effect c (.check q kind waitList (w :: ws) blocking) c [.check q kind waitList ws blocking]
  | created {q : ℕ} {kind : Kind} {waitList : List ℕ} {blocking : Bool} :
      Effect c (.check q kind waitList [] blocking)
        (newEvent c kind (some q) waitList queued false) [.construct c.numEvents false blocking]
  | skipped {e w : ℕ} {ws : List ℕ} {failed blocking : Bool}
      (he : (c.event e).unregistered = w :: ws) (hw : (c.event w).status = complete) :
      Effect c (.construct e failed blocking) (nextWait c e) [.construct e failed blocking]
  | noticed {e w : ℕ} {ws : List ℕ} {failed blocking : Bool}
      (he : (c.event e).unregistered = w :: ws) (hw : (c.event w).status < 0) :
      Effect c (.construct e failed blocking) (nextWait c e) [.construct e true blocking]
  | registered {e w : ℕ} {ws : List ℕ} {failed blocking : Bool}
      (he : (c.event e).unregistered = w :: ws) (hw : 0 < (c.event w).status) :
      Effect c (.construct e failed blocking) (addDependentEvent (nextWait c e) w e)
        [.construct e failed blocking]
  | built {e : ℕ} {failed blocking : Bool} (he : (c.event e).unregistered = []) :
      Effect c (.construct e failed blocking) (c.setEvent e { c.event e with built := true })
        ((if failed then [.setStatus e errorInWaitList] else []) ++ [.queueEvent e blocking])
  | appended {e q : ℕ} {blocking : Bool} (hq : (c.event e).parent = some q) :
      Effect c (.queueEvent e blocking)
        { c.setQueue q { c.queue q with events := (c.queue q).events ++ [e] } with
          queuedLog := c.queuedLog ++ [e] }
        (.push q none false :: if blocking then [.wait e] else [])
  | completed {e : ℕ} (hp : (c.event e).kind = .user ∨ (c.event e).parent.isSome) :
      Effect c (.setStatus e complete) (setStatusHelper c e complete)
        [.notify e 0 (c.event e).dependents.length false]
  | failed {e : ℕ} {status : ℤ} (hs : status < 0) :
      Effect c (.setStatus e status) (setStatusHelper c e status)
        [.fail e 0 (c.event e).dependents.length]
  | set {e : ℕ} {status : ℤ} (hs : 0 ≤ status)
      (hp : status = complete → (c.event e).kind ≠ .user ∧ (c.event e).parent = none) :
      Effect c (.setStatus e status) (setStatusHelper c e status) []
  | notifiedReady {e i n d q : ℕ} {pushed : Bool} (hi : i < n)
      (hd : (c.event e).dependents[i]? = some d) (hb : (c.event d).built = true)
      (hq : (c.event d).parent = some q) (hw : (c.event d).waitEvents.filter (· ≠ e) = []) :
      Effect c (.notify e i n pushed) (removeWaitEvent c d e)
        (releaseFrames c e ++ [.push q (some d) (decide ((c.event e).parent = some q)),
          .notify e (i + 1) n (pushed || decide ((c.event e).parent = some q))])
  | notified {e i n d : ℕ} {pushed : Bool} (hi : i < n)
      (hd : (c.event e).dependents[i]? = some d) (hb : (c.event d).built = true)
      (hw : (c.event d).parent = none ∨ (c.event d).waitEvents.filter (· ≠ e) ≠ []) :
      Effect c (.notify e i n pushed) (removeWaitEvent c d e)
        (releaseFrames c e ++ [.notify e (i + 1) n pushed])
  | notifiedAll {e i n q : ℕ} {pushed : Bool} (hi : n ≤ i) (hq : (c.event e).parent = some q) :
      Effect c (.notify e i n pushed) c (if pushed then [] else [.push q none true])
  | notifiedUser {e i n : ℕ} {pushed : Bool} (hi : n ≤ i) (hq : (c.event e).parent = none) :
      Effect c (.notify e i n pushed) c []
  | propagated {e i n d : ℕ} (hi : i < n) (hd : (c.event e).dependents[i]? = some d)
      (hb : (c.event d).built = true) :
      Effect c (.fail e i n) (removeWaitEvent c d e)
        (releaseFrames c e ++ [.setStatus d errorInWaitList, .fail e (i + 1) n])
  | propagatedAll {e i n q : ℕ} (hi : n ≤ i) (hq : (c.event e).parent = some q) :
      Effect c (.fail e i n) c [.push q none true]
  | propagatedUser {e i n : ℕ} (hi : n ≤ i) (hq : (c.event e).parent = none) :
      Effect c (.fail e i n) c []
  | throttled {q : ℕ} {ready : Option ℕ} {oneCompleted : Bool}
      (ht : Throttled c ((c.queue q).count oneCompleted) ready) :
      Effect c (.push q ready oneCompleted) (c.setQueue q ((c.queue q).count oneCompleted)) []
  | pushed {q : ℕ} {ready : Option ℕ} {oneCompleted : Bool}
      (ht : ¬Throttled c ((c.queue q).count oneCompleted) ready)
      (hs : (c.scan q ready).taken = none) :
      Effect c (.push q ready oneCompleted)
        (c.applyScan q ((c.queue q).count oneCompleted) (c.scan q ready)) []
  | took {q e : ℕ} {ready : Option ℕ} {oneCompleted : Bool}
      (ht : ¬Throttled c ((c.queue q).count oneCompleted) ready)
      (hs : (c.scan q ready).taken = some e) :
      Effect c (.push q ready oneCompleted)
        (c.applyScan q ((c.queue q).count oneCompleted) (c.scan q ready))
        [.setStatus e complete, .release e]
  | cleaned {q : ℕ} : Effect c (.clean q) (cleanEvents c q) []
  | released {e : ℕ} : Effect c (.release e) c []
  | began {e : ℕ} : Effect c (.begin e) (setStatusHelper c e running) [.execute e]
  | executed {e : ℕ} : Effect c (.execute e) { c with executing := e :: c.executing } []
  | waited {e : ℕ} (he : (c.event e).status ≤ complete) : Effect c (.wait e) c [.release e]
  | emptied {q : ℕ} (hq : (c.queue q).events = []) : Effect c (.waitEmpty q) c []

/-- The wait events after one is removed. -/
@[simp] lemma removeWaitEvent_event_self (c : Core) (d w : ℕ) :
    (removeWaitEvent c d w).event d =
      { c.event d with waitEvents := (c.event d).waitEvents.filter (· ≠ w) } := by
  simp [removeWaitEvent, Core.setEvent]

/-- Every critical section is one of the list. -/
lemma effect_of_runFrame {c c' : Core} {f : Frame} {fs : List Frame}
    (h : runFrame c f = some (c', fs)) : Effect c f c' fs := by
  cases f with
  | check q kind waitList rest blocking =>
    cases rest with
    | nil =>
      cases h
      exact .created
    | cons w ws =>
      simp only [runFrame] at h
      split at h
      · rename_i hw
        cases h
        exact .rejected hw
      · rename_i hw
        cases h
        exact .checked (not_lt.mp hw)
  | construct e failed blocking =>
    simp only [runFrame] at h
    split at h
    · rename_i w ws he
      split at h
      · rename_i hw
        cases h
        exact .skipped he hw
      · rename_i hw
        split at h
        · rename_i hneg
          cases h
          exact .noticed he hneg
        · rename_i hneg
          cases h
          exact .registered he (lt_of_le_of_ne (not_lt.mp hneg) (Ne.symm hw))
    · rename_i he
      cases h
      exact .built he
  | queueEvent e blocking =>
    simp only [runFrame] at h
    split at h
    · rename_i q hq
      cases h
      exact .appended hq
    · cases h
  | setStatus e status =>
    simp only [runFrame, Option.some.injEq, Prod.mk.injEq] at h
    obtain ⟨rfl, rfl⟩ := h
    split
    · rename_i hs
      obtain ⟨rfl, hp⟩ := hs
      exact .completed hp
    · rename_i hs
      split
      · rename_i hneg
        exact .failed hneg
      · rename_i hneg
        refine .set (not_lt.mp hneg) fun heq => ?_
        have hnot : ¬((c.event e).kind = .user ∨ (c.event e).parent.isSome = true) :=
          fun hp => hs ⟨heq, hp⟩
        rw [not_or, Bool.not_eq_true, Option.isSome_eq_false_iff, Option.isNone_iff_eq_none] at hnot
        exact hnot
  | notify e i n pushed =>
    simp only [runFrame] at h
    split at h
    · rename_i hi
      simp only [notifyStep, removeWaitEvent_event_self] at h
      split at h
      · rename_i d hd
        split at h
        · rename_i hb
          split at h
          · rename_i q hq
            split at h
            · rename_i hw
              cases h
              exact .notifiedReady hi hd hb hq hw
            · rename_i hw
              cases h
              exact .notified hi hd hb (Or.inr hw)
          · rename_i hq
            cases h
            exact .notified hi hd hb (Or.inl hq)
        · cases h
      · cases h
    · rename_i hi
      split at h
      · rename_i q hq
        cases h
        exact .notifiedAll (not_lt.mp hi) hq
      · rename_i hq
        cases h
        exact .notifiedUser (not_lt.mp hi) hq
  | fail e i n =>
    simp only [runFrame] at h
    split at h
    · rename_i hi
      simp only [failStep] at h
      split at h
      · rename_i d hd
        split at h
        · rename_i hb
          cases h
          exact .propagated hi hd hb
        · cases h
      · cases h
    · rename_i hi
      split at h
      · rename_i q hq
        cases h
        exact .propagatedAll (not_lt.mp hi) hq
      · rename_i hq
        cases h
        exact .propagatedUser (not_lt.mp hi) hq
  | push q ready oneCompleted =>
    simp only [runFrame, Option.some.injEq, Prod.mk.injEq] at h
    obtain ⟨rfl, rfl⟩ := h
    simp only [pushEventsOnDevice]
    split
    · rename_i ht
      exact .throttled ht
    · rename_i ht
      cases hs : (c.scan q ready).taken with
      | none => exact .pushed ht hs
      | some e => exact .took ht hs
  | clean q =>
    cases h
    exact .cleaned
  | release e =>
    cases h
    exact .released
  | begin e =>
    cases h
    exact .began
  | execute e =>
    cases h
    exact .executed
  | wait e =>
    simp only [runFrame] at h
    split at h
    · rename_i he
      cases h
      exact .waited he
    · cases h
  | waitEmpty q =>
    simp only [runFrame] at h
    split at h
    · rename_i hq
      cases h
      exact .emptied hq
    · cases h

/-- A step of the machine. -/
inductive Move (s : State) : Action → State → Prop where
  | createUserEvent :
      Move s .createUserEvent { s with toCore := newEvent s.toCore .user none [] submitted true }
  | enqueue {q : ℕ} {kind : Kind} {waitList : List ℕ} {blocking : Bool} (hk : kind ≠ .user)
      (hw : ∀ w ∈ waitList, w < s.numEvents ∧ (s.event w).built = true) :
      Move s (.enqueue q kind waitList blocking)
        (s.spawn [.check q kind waitList waitList blocking])
  | setUserEventStatus {e : ℕ} {status : ℤ} (he : e < s.numEvents)
      (hk : (s.event e).kind = .user) (hs : status ≤ complete)
      (hsub : (s.event e).status = submitted) :
      Move s (.setUserEventStatus e status) (s.spawn [.setStatus e status])
  | flush {q : ℕ} : Move s (.flush q) (s.spawn [.push q none false])
  | finish {q : ℕ} : Move s (.finish q) (s.spawn [.clean q, .waitEmpty q])
  | dispatch {dev e : ℕ} {es : List ℕ} (hdev : s.device dev = e :: es) :
      Move s (.dispatch dev)
        ({ s with device := Function.update s.device dev es }.spawn [.begin e])
  | endCommand {e : ℕ} {status : ℤ} (he : e ∈ s.executing) (hs : status ≤ complete) :
      Move s (.endCommand e status)
        ({ s with executing := s.executing.erase e, ended := e :: s.ended }.spawn
          [.setStatus e status])
  | thread {t : ℕ} {f : Frame} {rest fs : List Frame} {c : Core}
      (ht : s.threads[t]? = some (f :: rest)) (hf : Effect s.toCore f c fs) :
      Move s (.thread t) ⟨c, advance s.threads t fs⟩
  | giveUp {t e : ℕ} {blocking : Bool} {rest : List Frame}
      (ht : s.threads[t]? = some (.queueEvent e blocking :: rest)) :
      Move s (.giveUp t) { s with threads := advance s.threads t [] }

/-- Every step is one of the list. -/
lemma move_of_step {s s' : State} {a : Action} (h : step s a = some s') : Move s a s' := by
  cases a with
  | createUserEvent =>
    cases h
    exact .createUserEvent
  | enqueue q kind waitList blocking =>
    simp only [step] at h
    split at h
    · rename_i hok
      cases h
      exact .enqueue hok.1 hok.2
    · cases h
  | setUserEventStatus e status =>
    simp only [step] at h
    split at h
    · rename_i hok
      cases h
      exact .setUserEventStatus hok.1 hok.2.1 hok.2.2.1 hok.2.2.2
    · cases h
  | flush q =>
    cases h
    exact .flush
  | finish q =>
    cases h
    exact .finish
  | dispatch dev =>
    simp only [step] at h
    split at h
    · rename_i e es hdev
      cases h
      exact .dispatch hdev
    · cases h
  | endCommand e status =>
    simp only [step] at h
    split at h
    · rename_i hok
      cases h
      exact .endCommand hok.1 hok.2
    · cases h
  | thread t =>
    simp only [step] at h
    split at h
    · rename_i f rest ht
      rw [Option.map_eq_some_iff] at h
      obtain ⟨⟨c, fs⟩, hrun, rfl⟩ := h
      exact .thread ht (effect_of_runFrame hrun)
    · cases h
  | giveUp t =>
    simp only [step] at h
    split at h
    · rename_i e blocking rest ht
      cases h
      exact .giveUp ht
    · cases h

/-! ### Traversals -/

/-- The events that a traversal starts: those it gives to the device and the instantaneous one. -/
def Scan.started (s : Scan) : List ℕ := s.pushed ++ s.taken.toList

/-- An event that a traversal starts is a queued one with nothing left to wait for. -/
lemma mem_started_scan {event : ℕ → Event} {outOfOrder : Bool} {ready : Option ℕ} {first : Bool}
    {traversed : ℕ} {es : List ℕ} {e : ℕ}
    (h : e ∈ (scan event outOfOrder ready first traversed es).started) :
    e ∈ es ∧ (event e).status = queued ∧ (event e).waitEvents = [] := by
  fun_induction scan event outOfOrder ready first traversed es <;>
    grind [Scan.started, Scan.stop, Scan.keep, Scan.remove, Scan.push]

/-- A traversal leaves a part of the list. -/
lemma kept_sublist_scan (event : ℕ → Event) (outOfOrder : Bool) (ready : Option ℕ) (first : Bool)
    (traversed : ℕ) (es : List ℕ) :
    (scan event outOfOrder ready first traversed es).kept.Sublist es := by
  fun_induction scan event outOfOrder ready first traversed es <;>
    simp_all [Scan.stop, Scan.keep, Scan.remove, Scan.push, List.Sublist.cons]

/-- Cleaning leaves a part of the list. -/
lemma cleanLoop_sublist (event : ℕ → Event) (outOfOrder : Bool) (es : List ℕ) :
    (cleanLoop event outOfOrder es).1.Sublist es := by
  fun_induction cleanLoop event outOfOrder es <;> simp_all [List.Sublist.cons]

/-! ### What no step takes back -/

/-- What is fixed once and for all: the events with their types, queues and wait lists, and the
record of what has happened. -/
structure Core.Le (c c' : Core) : Prop where
  num : c.numEvents ≤ c'.numEvents
  kind : ∀ e < c.numEvents, (c'.event e).kind = (c.event e).kind
  parent : ∀ e < c.numEvents, (c'.event e).parent = (c.event e).parent
  waitList : ∀ e < c.numEvents, (c'.event e).waitList = (c.event e).waitList
  built : ∀ e < c.numEvents, (c.event e).built = true → (c'.event e).built = true
  dependents : ∀ e < c.numEvents, (c.event e).dependents <+: (c'.event e).dependents
  outOfOrder : ∀ q, (c'.queue q).outOfOrder = (c.queue q).outOfOrder
  device : ∀ q, (c'.queue q).device = (c.queue q).device
  finished : c.finished ⊆ c'.finished
  ended : c.ended ⊆ c'.ended
  started : c.started <+: c'.started
  queuedLog : c.queuedLog <+: c'.queuedLog

/-- Nothing has happened. -/
lemma Core.Le.refl (c : Core) : c.Le c :=
  ⟨le_rfl, fun _ _ => rfl, fun _ _ => rfl, fun _ _ => rfl, fun _ _ h => h,
    fun _ _ => List.prefix_refl _, fun _ => rfl, fun _ => rfl, fun _ h => h, fun _ h => h,
    List.prefix_refl _, List.prefix_refl _⟩

/-- A change of one event that keeps what is fixed. -/
lemma Core.le_setEvent (c : Core) (e : ℕ) {x : Event} (hk : x.kind = (c.event e).kind)
    (hp : x.parent = (c.event e).parent) (hw : x.waitList = (c.event e).waitList)
    (hb : (c.event e).built = true → x.built = true)
    (hd : (c.event e).dependents <+: x.dependents) : c.Le (c.setEvent e x) := by
  refine { Core.Le.refl c with
    kind := ?_, parent := ?_, waitList := ?_, built := ?_, dependents := ?_ }
  all_goals
    intro e' _
    by_cases he : e' = e
    · subst he
      simpa [Core.setEvent]
    · simp [Core.setEvent, he]

/-- A new event does not touch the others. -/
lemma Core.le_newEvent (c : Core) (kind : Kind) (parent : Option ℕ) (waitList : List ℕ)
    (status : ℤ) (built : Bool) : c.Le (newEvent c kind parent waitList status built) := by
  refine { Core.Le.refl c with
    num := ?_, kind := ?_, parent := ?_, waitList := ?_, built := ?_, dependents := ?_ }
  · exact Nat.le_succ _
  all_goals
    intro e he
    simp [newEvent, Core.setEvent, Nat.ne_of_lt he]

/-- One thing after the other. -/
lemma Core.Le.trans {c c' c'' : Core} (h : c.Le c') (h' : c'.Le c'') : c.Le c'' where
  num := h.num.trans h'.num
  kind e he := (h'.kind e (he.trans_le h.num)).trans (h.kind e he)
  parent e he := (h'.parent e (he.trans_le h.num)).trans (h.parent e he)
  waitList e he := (h'.waitList e (he.trans_le h.num)).trans (h.waitList e he)
  built e he hb := h'.built e (he.trans_le h.num) (h.built e he hb)
  dependents e he := (h.dependents e he).trans (h'.dependents e (he.trans_le h.num))
  outOfOrder q := (h'.outOfOrder q).trans (h.outOfOrder q)
  device q := (h'.device q).trans (h.device q)
  finished := List.Subset.trans h.finished h'.finished
  ended := List.Subset.trans h.ended h'.ended
  started := h.started.trans h'.started
  queuedLog := h.queuedLog.trans h'.queuedLog

/-- A change of a queue keeps its properties and its device. -/
lemma Core.le_setQueue (c : Core) (q : ℕ) {x : Queue} (ho : x.outOfOrder = (c.queue q).outOfOrder)
    (hd : x.device = (c.queue q).device) : c.Le (c.setQueue q x) := by
  refine { Core.Le.refl c with outOfOrder := ?_, device := ?_ }
  all_goals
    intro q'
    by_cases hq : q' = q
    · subst hq
      simpa [Core.setQueue]
    · simp [Core.setQueue, hq]

/-- Counting keeps the properties and the device of a queue. -/
lemma Queue.count_outOfOrder_device (x : Queue) (oneCompleted : Bool) :
    (x.count oneCompleted).outOfOrder = x.outOfOrder ∧
      (x.count oneCompleted).device = x.device ∧ (x.count oneCompleted).events = x.events := by
  cases oneCompleted <;> exact ⟨rfl, rfl, rfl⟩

/-- A traversal keeps what is fixed. -/
lemma Core.le_applyScan (c : Core) (q : ℕ) {x : Queue} (sc : Scan)
    (ho : x.outOfOrder = (c.queue q).outOfOrder) (hd : x.device = (c.queue q).device) :
    c.Le (c.applyScan q x sc) := by
  have hsame : ∀ e, ((c.applyScan q x sc).event e).kind = (c.event e).kind ∧
      ((c.applyScan q x sc).event e).parent = (c.event e).parent ∧
      ((c.applyScan q x sc).event e).waitList = (c.event e).waitList ∧
      ((c.applyScan q x sc).event e).built = (c.event e).built ∧
      ((c.applyScan q x sc).event e).dependents = (c.event e).dependents := by
    intro e
    simp only [Core.applyScan]
    split <;> exact ⟨rfl, rfl, rfl, rfl, rfl⟩
  have hqueue := Core.le_setQueue c q (x := { x with
    events := sc.kept
    numOnDevice := x.numOnDevice + sc.pushed.length + sc.taken.toList.length
    numCompleted := x.numCompleted - sc.removed.length }) ho hd
  exact { Core.Le.refl c with
    outOfOrder := hqueue.outOfOrder
    device := hqueue.device
    kind := fun e _ => (hsame e).1
    parent := fun e _ => (hsame e).2.1
    waitList := fun e _ => (hsame e).2.2.1
    built := fun e _ hb => (hsame e).2.2.2.1.trans hb
    dependents := fun e _ => (hsame e).2.2.2.2 ▸ List.prefix_refl _
    started := List.prefix_append _ _ }

/-- A step of the constructor keeps what is fixed. -/
lemma Core.le_nextWait (c : Core) (e : ℕ) : c.Le (nextWait c e) :=
  Core.le_setEvent c e rfl rfl rfl (fun hb => hb) (List.prefix_refl _)

/-- A registration keeps what is fixed. -/
lemma Core.le_addDependentEvent (c : Core) (w e : ℕ) : c.Le (addDependentEvent c w e) := by
  have hle : c.Le (c.setEvent w { c.event w with dependents := (c.event w).dependents ++ [e] }) :=
    Core.le_setEvent c w rfl rfl rfl (fun hb => hb) (List.prefix_append _ _)
  exact hle.trans (Core.le_setEvent _ e rfl rfl rfl (fun hb => hb) (List.prefix_refl _))

/-- A status keeps what is fixed. -/
lemma Core.le_setStatusHelper (c : Core) (e : ℕ) (status : ℤ) :
    c.Le (setStatusHelper c e status) := by
  have h : c.Le (c.setEvent e { c.event e with status := status }) :=
    Core.le_setEvent c e rfl rfl rfl (fun hb => hb) (List.prefix_refl _)
  refine { h with finished := fun x hx => ?_ }
  simp only [setStatusHelper]
  split
  · exact List.mem_cons_of_mem _ hx
  · exact hx

/-- A critical section keeps what is fixed. -/
lemma Effect.le {c c' : Core} {f : Frame} {fs : List Frame} (h : Effect c f c' fs) : c.Le c' := by
  cases h with
  | created => exact Core.le_newEvent c _ _ _ _ _
  | skipped | noticed => exact Core.le_nextWait c _
  | registered => exact (Core.le_nextWait c _).trans (Core.le_addDependentEvent _ _ _)
  | built => exact Core.le_setEvent c _ rfl rfl rfl (fun _ => rfl) (List.prefix_refl _)
  | @appended e q _ _ =>
    have hqueue : c.Le (c.setQueue q { c.queue q with events := (c.queue q).events ++ [e] }) :=
      Core.le_setQueue c q rfl rfl
    exact { hqueue with queuedLog := List.prefix_append _ _ }
  | completed | failed | set | began => exact Core.le_setStatusHelper c _ _
  | notifiedReady | notified | propagated =>
    exact Core.le_setEvent c _ rfl rfl rfl (fun hb => hb) (List.prefix_refl _)
  | throttled =>
    exact Core.le_setQueue c _ (Queue.count_outOfOrder_device _ _).1
      (Queue.count_outOfOrder_device _ _).2.1
  | pushed | took =>
    exact Core.le_applyScan c _ _ (Queue.count_outOfOrder_device _ _).1
      (Queue.count_outOfOrder_device _ _).2.1
  | cleaned =>
    simp only [cleanEvents]
    split
    · exact Core.Le.refl c
    · exact Core.le_setQueue c _ rfl rfl
  | executed => exact { Core.Le.refl c with }
  | _ => exact Core.Le.refl c

/-- A step keeps what is fixed. -/
lemma Move.le {s s' : State} {a : Action} (h : Move s a s') : s.Le s'.toCore := by
  cases h with
  | createUserEvent => exact Core.le_newEvent s.toCore _ _ _ _ _
  | endCommand => exact { Core.Le.refl s.toCore with ended := fun x hx => List.mem_cons_of_mem _ hx }
  | thread _ hf => exact hf.le
  | dispatch => exact { Core.Le.refl s.toCore with }
  | _ => exact Core.Le.refl s.toCore

end TiOpenCL.CommandQueue
