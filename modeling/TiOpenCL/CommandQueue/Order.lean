import TiOpenCL.CommandQueue.Dependencies

/-!
# The order of the events of a queue

What changes the status of an event, what takes an event out of the list of its queue and what asks
for the end of an event, each said once for all steps.  The list of a queue keeps the order in which
its events were queued, and an event that is no longer in it has finished, or is an instantaneous one
that was taken (`OrderOk`).
-/

namespace TiOpenCL.CommandQueue

open Machine

/-! ### One element before another -/

section Before

variable {α : Type*}

/-- In a list without repetitions two elements stand in one order only. -/
lemma not_pair_sublist_swap {l : List α} {a b : α} (hl : l.Nodup) (hab : [a, b].Sublist l) :
    ¬[b, a].Sublist l := by
  intro hba
  induction l with
  | nil => cases hab
  | cons x l ih =>
    obtain ⟨hx, hnodup⟩ := List.nodup_cons.mp hl
    have hmem : ∀ {y z : α}, [y, z].Sublist (x :: l) → z ∈ l := by
      intro y z hyz
      cases hyz with
      | cons _ hrest => exact hrest.subset (by simp)
      | cons_cons _ hrest => exact List.singleton_sublist.mp hrest
    have ha := hmem hba
    have hb := hmem hab
    cases hab with
    | cons_cons _ _ => exact hx ha
    | cons _ hab' =>
      cases hba with
      | cons_cons _ _ => exact hx hb
      | cons _ hba' => exact ih hnodup hab' hba'

/-- What stands before an element of the first part of a list does so in that part. -/
lemma pair_sublist_of_append {l m : List α} {a b : α} (hlm : (l ++ m).Nodup)
    (h : [a, b].Sublist (l ++ m)) (hb : b ∈ l) : [a, b].Sublist l := by
  have hm : b ∉ m := fun hmem => List.disjoint_of_nodup_append hlm hb hmem
  obtain ⟨l₁, l₂, heq, h₁, h₂⟩ := List.sublist_append_iff.mp h
  rcases List.eq_nil_or_concat l₂ with rfl | ⟨l₃, x, rfl⟩
  · rw [List.append_nil] at heq
    exact heq ▸ h₁
  · rw [List.concat_eq_append] at heq h₂
    have hpair : [a] ++ [b] = l₁ ++ l₃ ++ [x] := by
      rw [List.append_assoc]
      exact heq
    obtain ⟨-, hbx⟩ := List.append_inj' hpair rfl
    rw [List.singleton_inj.mp hbx] at hm
    exact absurd (h₂.subset (by simp)) hm

/-- What stands before an element of a list stands in the part before it. -/
lemma mem_of_pair_sublist {l m : List α} {a b : α} (hl : (l ++ b :: m).Nodup)
    (h : [a, b].Sublist (l ++ b :: m)) : a ∈ l := by
  have hpair : [a, b].Sublist (l ++ [b]) := by
    refine pair_sublist_of_append (m := m) ?_ ?_ (by simp)
    · rw [List.append_assoc]
      exact hl
    · rw [List.append_assoc]
      exact h
  obtain ⟨l₁, l₂, heq, h₁, h₂⟩ := List.sublist_append_iff.mp hpair
  rcases List.sublist_singleton.mp h₂ with rfl | rfl
  · rw [List.append_nil] at heq
    have hb : b ∈ l := h₁.subset (heq ▸ by simp)
    exact absurd List.mem_cons_self (List.disjoint_of_nodup_append hl hb)
  · have heq' : [a] ++ [b] = l₁ ++ [b] := heq
    obtain rfl : [a] = l₁ := List.append_cancel_right heq'
    exact List.singleton_sublist.mp h₁

/-- Of two elements of a list one stands before the other. -/
lemma pair_sublist_or {l : List α} {a b : α} (ha : a ∈ l) (hb : b ∈ l) (hne : a ≠ b) :
    [a, b].Sublist l ∨ [b, a].Sublist l := by
  induction l with
  | nil => cases ha
  | cons x l ih =>
    rcases List.mem_cons.mp ha with rfl | ha'
    · rcases List.mem_cons.mp hb with rfl | hb'
      · exact absurd rfl hne
      · exact Or.inl (List.Sublist.cons_cons _ (List.singleton_sublist.mpr hb'))
    · rcases List.mem_cons.mp hb with rfl | hb'
      · exact Or.inr (List.Sublist.cons_cons _ (List.singleton_sublist.mpr ha'))
      · exact (ih ha' hb').imp (fun h => h.cons x) fun h => h.cons x

/-- Two elements of a part of a list stand in it as they stand in the list. -/
lemma pair_sublist_of_sublist {l m : List α} {a b : α} (hm : m.Nodup) (h : l.Sublist m)
    (hab : [a, b].Sublist m) (ha : a ∈ l) (hb : b ∈ l) : [a, b].Sublist l := by
  have hne : a ≠ b := by
    rintro rfl
    exact not_pair_sublist_swap hm hab hab
  rcases pair_sublist_or ha hb hne with hpair | hswap
  · exact hpair
  · exact absurd (hswap.trans h) (not_pair_sublist_swap hm hab)

end Before

/-! ### What changes a status -/

/-- What sets the status of an event. -/
inductive StatusSet (c : Core) (e : ℕ) : Frame → ℤ → Prop where
  | setStatus {status : ℤ} : StatusSet c e (.setStatus e status) status
  | begin : StatusSet c e (.begin e) running
  | push {q : ℕ} {ready : Option ℕ} {oneCompleted : Bool} (h : e ∈ (c.scan q ready).pushed) :
      StatusSet c e (.push q ready oneCompleted) submitted

/-- A critical section leaves the status of an event as it is, or sets it. -/
lemma Effect.status {c c' : Core} {f : Frame} {fs : List Frame} (h : Effect c f c' fs) {e : ℕ}
    (he : e < c.numEvents) :
    (c'.event e).status = (c.event e).status ∨ StatusSet c e f (c'.event e).status := by
  cases h
  case completed e' _ | failed e' _ _ | set e' _ _ _ =>
    by_cases heq : e = e'
    · subst heq
      right
      simp only [setStatusHelper, Core.setEvent, Function.update_self]
      exact .setStatus
    · left
      simp [setStatusHelper, Core.setEvent, heq]
  case began e' =>
    by_cases heq : e = e'
    · subst heq
      right
      simp only [setStatusHelper, Core.setEvent, Function.update_self]
      exact .begin
    · left
      simp [setStatusHelper, Core.setEvent, heq]
  case pushed q ready o _ _ | took q _ ready o _ _ =>
    by_cases hmem : e ∈ (c.scan q ready).pushed
    · right
      simp only [Core.applyScan, if_pos hmem]
      exact .push hmem
    · left
      simp only [Core.applyScan, if_neg hmem]
  case created =>
    left
    simp [newEvent, Core.setEvent, Nat.ne_of_lt he]
  case skipped | noticed | built | notifiedReady | notified | propagated =>
    left
    simp only [nextWait, removeWaitEvent, Core.setEvent, Function.update_apply]
    split
    · rename_i heq
      rw [heq]
    · rfl
  case registered =>
    left
    rw [addDependentEvent_nextWait_event]
  case cleaned =>
    left
    rw [cleanEvents]
    split <;> rfl
  all_goals exact Or.inl rfl

/-- An event has finished after a critical section if it had before, or if its end is set. -/
lemma Effect.finished {c c' : Core} {f : Frame} {fs : List Frame} (h : Effect c f c' fs) {e : ℕ}
    (he : e ∈ c'.finished) :
    e ∈ c.finished ∨ ∃ status, f = .setStatus e status ∧ status ≤ complete := by
  cases h
  case completed e' _ =>
    simp only [setStatusHelper, le_refl, if_true, List.mem_cons] at he
    rcases he with rfl | hold
    · exact Or.inr ⟨complete, rfl, le_rfl⟩
    · exact Or.inl hold
  case failed e' status hs | set e' status hs _ =>
    simp only [setStatusHelper] at he
    split at he
    · rename_i hle
      rcases List.mem_cons.mp he with rfl | hold
      · exact Or.inr ⟨status, rfl, hle⟩
      · exact Or.inl hold
    · exact Or.inl he
  case began e' => exact Or.inl he
  case cleaned =>
    rw [cleanEvents] at he
    split at he <;> exact Or.inl he
  all_goals exact Or.inl he

/-- An event that a critical section creates is queued by and by. -/
lemma Effect.status_new {c c' : Core} {f : Frame} {fs : List Frame} (h : Effect c f c' fs) {e : ℕ}
    (he : c.numEvents ≤ e) (he' : e < c'.numEvents) : (c'.event e).status = queued := by
  cases h
  case created =>
    obtain rfl := Nat.le_antisymm (Nat.lt_succ_iff.mp he') he
    simp [newEvent, Core.setEvent]
  case cleaned =>
    rw [cleanEvents] at he'
    split at he' <;> exact absurd he' (not_lt.mpr he)
  all_goals exact absurd he' (not_lt.mpr he)

/-- What asks for the end of an event. -/
inductive EndAsked (c c' : Core) (e : ℕ) : Frame → ℤ → Prop where
  | construct {blocking : Bool} : EndAsked c c' e (.construct e true blocking) errorInWaitList
  | fail {e' i n : ℕ} (hi : i < n) (hd : (c.event e').dependents[i]? = some e)
      (hb : (c.event e).built = true) : EndAsked c c' e (.fail e' i n) errorInWaitList
  | push {q : ℕ} {ready : Option ℕ} {oneCompleted : Bool} (h : (c.scan q ready).taken = some e)
      (hst : e ∈ c'.started) : EndAsked c c' e (.push q ready oneCompleted) complete

/-- A call of `setStatus` that a critical section leaves to do. -/
lemma Effect.setStatus_mem {c c' : Core} {f : Frame} {fs : List Frame} (h : Effect c f c' fs)
    {e : ℕ} {status : ℤ} (hg : Frame.setStatus e status ∈ fs) : EndAsked c c' e f status := by
  cases h
  case built e' failed blocking _ =>
    cases failed with
    | false => simp at hg
    | true =>
      simp only [if_true, List.singleton_append, List.mem_cons, Frame.setStatus.injEq,
        reduceCtorEq, List.not_mem_nil, or_false] at hg
      obtain ⟨rfl, rfl⟩ := hg
      exact .construct
  case appended blocking _ => cases blocking <;> simp at hg
  case notifiedReady | notified =>
    simp only [releaseFrames] at hg
    split at hg <;> simp at hg
  case notifiedAll pushed _ _ => cases pushed <;> simp at hg
  case propagated e' i n d hi hd hb =>
    have heq : e = d ∧ status = errorInWaitList := by
      simp only [releaseFrames] at hg
      split at hg <;> simpa using hg
    obtain ⟨rfl, rfl⟩ := heq
    exact .fail hi hd hb
  case took hs =>
    simp only [List.mem_cons, Frame.setStatus.injEq, reduceCtorEq, List.not_mem_nil,
      or_false] at hg
    obtain ⟨rfl, rfl⟩ := hg
    exact .push hs (by simp [Core.applyScan, hs])
  all_goals simp at hg

/-! ### What takes an event out of its list -/

/-- A traversal leaves an event in the list unless the event has finished or is taken. -/
lemma mem_kept_scan (event : ℕ → Event) (outOfOrder : Bool) (ready : Option ℕ) (first : Bool)
    (traversed : ℕ) {es : List ℕ} {e : ℕ} (he : e ∈ es) :
    e ∈ (scan event outOfOrder ready first traversed es).kept ∨ (event e).status ≤ complete ∨
      (scan event outOfOrder ready first traversed es).taken = some e := by
  fun_induction scan event outOfOrder ready first traversed es <;>
    grind [Scan.stop, Scan.keep, Scan.remove, Scan.push]

/-- Cleaning leaves an event in the list unless it is complete. -/
lemma mem_cleanLoop (event : ℕ → Event) (outOfOrder : Bool) {es : List ℕ} {e : ℕ} (he : e ∈ es) :
    e ∈ (cleanLoop event outOfOrder es).1 ∨ (event e).status = complete := by
  fun_induction cleanLoop event outOfOrder es <;> grind

/-- A critical section takes an event out of the list of its queue when it has finished, or as the
instantaneous event of a traversal. -/
lemma Effect.gone {c c' : Core} {f : Frame} {fs : List Frame} (h : Effect c f c' fs) {q e : ℕ}
    (he : e ∈ (c.queue q).events) :
    e ∈ (c'.queue q).events ∨ (c.event e).status ≤ complete ∨
      ∃ ready oneCompleted, f = .push q ready oneCompleted ∧ (c.scan q ready).taken = some e ∧
        e ∈ c'.started := by
  cases h
  case appended e' q' blocking _ =>
    by_cases hq : q = q'
    · subst hq
      simp only [Core.setQueue, Function.update_self]
      exact Or.inl (List.mem_append_left _ he)
    · simp only [Core.setQueue, Function.update_of_ne hq]
      exact Or.inl he
  case throttled q' ready o _ =>
    by_cases hq : q = q'
    · subst hq
      simp only [Core.setQueue, Function.update_self, (Queue.count_outOfOrder_device _ _).2.2]
      exact Or.inl he
    · simp only [Core.setQueue, Function.update_of_ne hq]
      exact Or.inl he
  case pushed q' ready o _ _ | took q' _ ready o _ _ =>
    by_cases hq : q = q'
    · subst hq
      simp only [Core.applyScan, Function.update_self]
      rcases mem_kept_scan c.event (c.queue q).outOfOrder ready true 0 he with hk | hs | ht
      · exact Or.inl hk
      · exact Or.inr (Or.inl hs)
      · refine Or.inr (Or.inr ⟨ready, o, rfl, ht, ?_⟩)
        rw [← Core.scan] at ht
        simp [ht]
    · simp only [Core.applyScan, Function.update_of_ne hq]
      exact Or.inl he
  case cleaned q' =>
    rw [cleanEvents]
    split
    · exact Or.inl he
    · by_cases hq : q = q'
      · subst hq
        simp only [Core.setQueue, Function.update_self]
        exact (mem_cleanLoop c.event _ he).imp_right fun hs => Or.inl hs.le
      · simp only [Core.setQueue, Function.update_of_ne hq]
        exact Or.inl he
  all_goals exact Or.inl he

/-! ### Steps of the machine -/

/-- Two cores with the same lists and record, and the same events as far as the first one goes. -/
structure Core.Same (c c' : Core) : Prop where
  num : c.numEvents ≤ c'.numEvents
  event : ∀ e < c.numEvents, c'.event e = c.event e
  queue : c'.queue = c.queue
  started : c'.started = c.started
  finished : c'.finished = c.finished
  queuedLog : c'.queuedLog = c.queuedLog
  fresh : ∀ e, c.numEvents ≤ e → e < c'.numEvents →
    c'.event e = ⟨.user, none, [], [], submitted, [], [], true⟩

/-- A step is a critical section of a thread, or leaves events, lists and record alone. -/
lemma Move.effect_or_same {s s' : State} {a : Action} (hm : Move s a s') :
    (∃ t f rest fs, s.threads[t]? = some (f :: rest) ∧ a = .thread t ∧
      Effect s.toCore f s'.toCore fs ∧ s'.threads = advance s.threads t fs) ∨
      s.Same s'.toCore := by
  cases hm with
  | thread ht hf => exact Or.inl ⟨_, _, _, _, ht, rfl, hf, rfl⟩
  | createUserEvent =>
    refine Or.inr ⟨Nat.le_succ _, fun e he => ?_, rfl, rfl, rfl, rfl, fun e hge hlt => ?_⟩
    · exact Function.update_of_ne (Nat.ne_of_lt he) _ _
    · obtain rfl := Nat.le_antisymm (Nat.lt_succ_iff.mp hlt) hge
      exact Function.update_self _ _ _
  | _ =>
    exact Or.inr ⟨le_rfl, fun _ _ => rfl, rfl, rfl, rfl, rfl,
      fun e hge hlt => absurd hlt (not_lt.mpr hge)⟩

/-- The first frames of the threads that the actions start. -/
inductive Spawns (s : State) : Action → Frame → Prop where
  | check {q : ℕ} {kind : Kind} {waitList : List ℕ} {blocking : Bool} (hk : kind ≠ .user)
      (hw : ∀ w ∈ waitList, w < s.numEvents ∧ (s.event w).built = true) :
      Spawns s (.enqueue q kind waitList blocking) (.check q kind waitList waitList blocking)
  | user {e : ℕ} {status : ℤ} (he : e < s.numEvents) (hk : (s.event e).kind = .user)
      (hs : status ≤ complete) (hsub : (s.event e).status = submitted) :
      Spawns s (.setUserEventStatus e status) (.setStatus e status)
  | push {q : ℕ} : Spawns s (.flush q) (.push q none false)
  | clean {q : ℕ} : Spawns s (.finish q) (.clean q)
  | waitEmpty {q : ℕ} : Spawns s (.finish q) (.waitEmpty q)
  | begin {dev e : ℕ} (he : e ∈ s.device dev) : Spawns s (.dispatch dev) (.begin e)
  | command {e : ℕ} {status : ℤ} (he : e ∈ s.executing) (hs : status ≤ complete) :
      Spawns s (.endCommand e status) (.setStatus e status)

/-- A frame after a step was there before, begins a new thread, or is left by the critical section
that ran. -/
lemma Move.runs {s s' : State} {a : Action} (hm : Move s a s') {g : Frame}
    (h : Runs s'.threads g) :
    Runs s.threads g ∨ Spawns s a g ∨ ∃ t f rest fs, s.threads[t]? = some (f :: rest) ∧
      a = .thread t ∧ Effect s.toCore f s'.toCore fs ∧ g ∈ fs := by
  cases hm with
  | createUserEvent => exact Or.inl h
  | enqueue hk hw =>
    rcases runs_append h with hnew | hold
    · obtain rfl := List.mem_singleton.mp hnew
      exact Or.inr (Or.inl (.check hk hw))
    · exact Or.inl hold
  | setUserEventStatus he hk hs hsub =>
    rcases runs_append h with hnew | hold
    · obtain rfl := List.mem_singleton.mp hnew
      exact Or.inr (Or.inl (.user he hk hs hsub))
    · exact Or.inl hold
  | flush =>
    rcases runs_append h with hnew | hold
    · obtain rfl := List.mem_singleton.mp hnew
      exact Or.inr (Or.inl .push)
    · exact Or.inl hold
  | finish =>
    rcases runs_append h with hnew | hold
    · rcases List.mem_pair.mp hnew with rfl | rfl
      · exact Or.inr (Or.inl .clean)
      · exact Or.inr (Or.inl .waitEmpty)
    · exact Or.inl hold
  | @dispatch dev e es hdev =>
    rcases runs_append h with hnew | hold
    · obtain rfl := List.mem_singleton.mp hnew
      have he : e ∈ s.device dev := by
        rw [hdev]
        exact List.mem_cons_self
      exact Or.inr (Or.inl (.begin he))
    · exact Or.inl hold
  | endCommand he hs =>
    rcases runs_append h with hnew | hold
    · obtain rfl := List.mem_singleton.mp hnew
      exact Or.inr (Or.inl (.command he hs))
    · exact Or.inl hold
  | thread ht hf =>
    rcases runs_advance h with hnew | hold
    · exact Or.inr (Or.inr ⟨_, _, _, _, ht, rfl, hf, hnew⟩)
    · exact Or.inl hold
  | giveUp ht =>
    rcases runs_advance h with hnew | hold
    · cases hnew
    · exact Or.inl hold

/-- What brings a call of `setStatus` about. -/
inductive Asks (s s' : State) (e : ℕ) : Action → ℤ → Prop where
  | thread {t : ℕ} {f : Frame} {rest fs : List Frame} {status : ℤ}
      (ht : s.threads[t]? = some (f :: rest)) (hf : Effect s.toCore f s'.toCore fs)
      (h : EndAsked s.toCore s'.toCore e f status) : Asks s s' e (.thread t) status
  | user {status : ℤ} (he : e < s.numEvents) (hk : (s.event e).kind = .user)
      (hs : status ≤ complete) (hsub : (s.event e).status = submitted) :
      Asks s s' e (.setUserEventStatus e status) status
  | command {status : ℤ} (he : e ∈ s.executing) (hs : status ≤ complete) :
      Asks s s' e (.endCommand e status) status

/-- A call of `setStatus` after a step was there before, or the step brought it about. -/
lemma Move.asks {s s' : State} {a : Action} (hm : Move s a s') {e : ℕ} {status : ℤ}
    (h : Runs s'.threads (.setStatus e status)) :
    Runs s.threads (.setStatus e status) ∨ Asks s s' e a status := by
  rcases hm.runs h with hold | hspawn | ⟨t, f, rest, fs, ht, rfl, heff, hnew⟩
  · exact Or.inl hold
  · cases hspawn with
    | user he hk hs hsub => exact Or.inr (.user he hk hs hsub)
    | command he hs => exact Or.inr (.command he hs)
  · exact Or.inr (.thread ht heff (heff.setStatus_mem hnew))

/-! ### The lists keep the order -/

/-- One event was queued before another one of the same queue. -/
def QueuedBefore (c : Core) (e e' : ℕ) : Prop :=
  [e, e'].Sublist c.queuedLog ∧ (c.event e).parent = (c.event e').parent

instance (c : Core) (e e' : ℕ) : Decidable (QueuedBefore c e e') :=
  inferInstanceAs (Decidable (_ ∧ _))

/-- Both of them were queued. -/
lemma QueuedBefore.mem {c : Core} {e e' : ℕ} (h : QueuedBefore c e e') :
    e ∈ c.queuedLog ∧ e' ∈ c.queuedLog :=
  ⟨h.1.subset (by simp), h.1.subset (by simp)⟩

/-- An event is over: it has finished, or is an instantaneous one that was taken. -/
def Over (c : Core) (e : ℕ) : Prop :=
  e ∈ c.finished ∨ (c.event e).kind.isInstantaneous = true ∧ e ∈ c.started

/-- What holds of the order of the queues. -/
structure OrderOk (c : Core) : Prop where
  sublist : ∀ q, (c.queue q).events.Sublist c.queuedLog
  gone : ∀ e ∈ c.queuedLog, ∀ q, (c.event e).parent = some q → e ∈ (c.queue q).events ∨ Over c e
  past : ∀ e ∈ c.finished, e < c.numEvents ∧ (c.event e).status ≠ queued
  waited : ∀ e ∈ c.started, ∀ w ∈ (c.event e).waitList, w ∈ c.finished

/-- The events that were queued are there. -/
lemma Valid.lt_of_mem_queuedLog {s : State} (h : Valid s) {e : ℕ} (he : e ∈ s.queuedLog) :
    e < s.numEvents := by
  by_contra hlt
  have hfresh := h.wellformed.queues.fresh e (not_lt.mp hlt)
  have hpos := List.count_pos_iff.mpr he
  omega

/-- No event is queued twice. -/
lemma Valid.queuedLog_nodup {s : State} (h : Valid s) : s.queuedLog.Nodup := by
  rw [List.nodup_iff_count_le_one]
  intro e
  have honce := h.wellformed.queues.once e
  omega

/-- What has a place on a device is a command that was started. -/
lemma Valid.command_of_places {s : State} (h : Valid s) {e : ℕ} (he : e < s.numEvents)
    (hp : 0 < places s.toCore e + total (workerWeight e) s.threads) :
    (s.event e).kind = .command ∧ e ∈ s.started := by
  rw [h.devices.token e he, starts] at hp
  split at hp
  · rename_i hk
    exact ⟨hk, List.count_pos_iff.mp hp⟩
  · exact absurd hp (lt_irrefl 0)

/-- A worker has a command that was started. -/
lemma Valid.command_of_worker {s : State} (h : Valid s) {e : ℕ} {f : Frame}
    (hf : Runs s.threads f) (hw : workerWeight e f = 1) :
    (s.event e).kind = .command ∧ e ∈ s.started := by
  have he : e < s.numEvents := by
    have hok := h.wellformed.frames f hf
    cases f <;> grind [workerWeight, FrameOk]
  have hle := hf.weight_le (workerWeight e)
  exact h.command_of_places he (by omega)

/-- What is executed is a command that was started. -/
lemma Valid.command_of_executing {s : State} (h : Valid s) {e : ℕ} (he : e ∈ s.executing) :
    (s.event e).kind = .command ∧ e ∈ s.started := by
  have hpos := List.count_pos_iff.mpr he
  refine h.command_of_places (h.devices.executing e he) ?_
  rw [places]
  omega

/-- What was queued before a queued event was so before the step too. -/
lemma QueuedBefore.of_le {s s' : State} (hv : Valid s) (hv' : Valid s') (hle : s.Le s'.toCore)
    {e e' : ℕ} (he' : e' ∈ s.queuedLog) (h : QueuedBefore s'.toCore e e') :
    QueuedBefore s.toCore e e' := by
  obtain ⟨hpair, hpar⟩ := h
  obtain ⟨new, hnew⟩ := hle.queuedLog
  have hnodup := hv'.queuedLog_nodup
  rw [← hnew] at hpair hnodup
  have hpair' := pair_sublist_of_append hnodup hpair he'
  have he : e ∈ s.queuedLog := hpair'.subset (by simp)
  rw [hle.parent e (hv.lt_of_mem_queuedLog he), hle.parent e' (hv.lt_of_mem_queuedLog he')] at hpar
  exact ⟨hpair', hpar⟩

/-- Something that is over stays so. -/
lemma Over.mono {c c' : Core} {e : ℕ} (h : Over c e) (he : e < c.numEvents) (hle : c.Le c') :
    Over c' e := by
  refine h.imp (fun hfin => hle.finished hfin) fun ⟨hk, hst⟩ => ⟨?_, hle.started.subset hst⟩
  rw [hle.kind e he]
  exact hk

/-- Only a command is not instantaneous. -/
lemma Kind.isInstantaneous_iff (k : Kind) : k.isInstantaneous = true ↔ k ≠ .command := by
  cases k <;> decide

/-- What a critical section appends to the record of the queued events. -/
lemma Effect.queuedLog {c c' : Core} {f : Frame} {fs : List Frame} (h : Effect c f c' fs) :
    c'.queuedLog = c.queuedLog ∨ ∃ e q blocking, f = .queueEvent e blocking ∧
      (c.event e).parent = some q ∧ c'.queuedLog = c.queuedLog ++ [e] ∧
      e ∈ (c'.queue q).events := by
  cases h
  case appended e q blocking hq =>
    exact Or.inr ⟨e, q, blocking, rfl, hq, rfl, by simp [Core.setQueue]⟩
  case cleaned =>
    rw [cleanEvents]
    split <;> exact Or.inl rfl
  all_goals exact Or.inl rfl

/-- The status after a call of `setStatus`. -/
lemma Effect.status_setStatus {c c' : Core} {e : ℕ} {status : ℤ} {fs : List Frame}
    (h : Effect c (.setStatus e status) c' fs) : (c'.event e).status = status := by
  cases h <;> simp [setStatusHelper, Core.setEvent]

/-- What a traversal takes is instantaneous. -/
lemma isInstantaneous_of_taken {c : Core} {q e : ℕ} {ready : Option ℕ}
    (h : (c.scan q ready).taken = some e) : (c.event e).kind.isInstantaneous = true :=
  (Kind.isInstantaneous_iff _).mpr ((kind_of_scan c.event _ ready true 0 _).2 e h)

/-- An event that was in the list of its queue before a critical section is in it afterwards, or is
over. -/
lemma Effect.mem_or_over {c c' : Core} {f : Frame} {fs : List Frame} (h : Effect c f c' fs)
    (hok : EventsOk c) {q e : ℕ} (hlt : e < c.numEvents) (he : e ∈ (c.queue q).events) :
    e ∈ (c'.queue q).events ∨ Over c' e := by
  rcases h.gone he with hin | hs | ⟨ready, o, -, ht, hst⟩
  · exact Or.inl hin
  · exact Or.inr (Or.inl (h.le.finished (hok.reached e hlt hs)))
  · refine Or.inr (Or.inr ⟨?_, hst⟩)
    rw [h.le.kind e hlt]
    exact isInstantaneous_of_taken ht

/-- A critical section keeps the order. -/
lemma OrderOk.thread {s : State} {c : Core} {f : Frame} {fs : List Frame} (h : OrderOk s.toCore)
    (hv : Valid s) (hf : Runs s.threads f) (heff : Effect s.toCore f c fs) : OrderOk c := by
  have hle := heff.le
  have hfok := hv.wellformed.frames f hf
  constructor
  · intro q
    rcases heff.events q with hsub | ⟨e, blocking, -, -, hev, hlog⟩
    · exact (hsub.trans (h.sublist q)).trans hle.queuedLog.sublist
    · rw [hev, hlog]
      exact (h.sublist q).append (List.Sublist.refl _)
  · intro e he q hq
    have hold : e ∈ s.queuedLog → e ∈ (c.queue q).events ∨ Over c e := by
      intro hin
      have hlt := hv.lt_of_mem_queuedLog hin
      rw [hle.parent e hlt] at hq
      rcases h.gone e hin q hq with hmem | hover
      · exact heff.mem_or_over hv.wellformed.events hlt hmem
      · exact Or.inr (hover.mono hlt hle)
    rcases heff.queuedLog with hsame | ⟨e', q', blocking, rfl, hq', hlog, hmem⟩
    · exact hold (hsame ▸ he)
    · rcases List.mem_append.mp (hlog ▸ he) with hin | hnew
      · exact hold hin
      · rw [List.mem_singleton] at hnew
        subst hnew
        rw [hle.parent e hfok.1, hq'] at hq
        obtain rfl := Option.some.inj hq
        exact Or.inl hmem
  · intro e he
    rcases heff.finished he with hold | ⟨status, rfl, hs⟩
    · obtain ⟨hlt, hne⟩ := h.past e hold
      exact ⟨hlt.trans_le hle.num, heff.status_ne_queued hfok hlt hne⟩
    · refine ⟨hfok.1.trans_le hle.num, ?_⟩
      rw [heff.status_setStatus]
      exact ne_of_lt (lt_of_le_of_lt hs (by decide))
  · intro e he w hw
    rcases heff.started with hsame | ⟨q, ready, o, -, happ, -⟩
    · have hin : e ∈ s.started := hsame ▸ he
      rw [hle.waitList e (hv.devices.started e hin).1] at hw
      exact hle.finished (h.waited e hin w hw)
    · rcases List.mem_append.mp (happ ▸ he) with hin | hnew
      · rw [hle.waitList e (hv.devices.started e hin).1] at hw
        exact hle.finished (h.waited e hin w hw)
      · obtain ⟨hmem, -, hempty⟩ := mem_started_scan hnew
        rw [hle.waitList e (hv.wellformed.queues.listed q e hmem).1] at hw
        exact hle.finished (hv.waits_finished hmem hempty hw)

/-- A step that leaves events, lists and record alone keeps the order. -/
lemma OrderOk.same {s : State} {c : Core} (h : OrderOk s.toCore) (hv : Valid s) (hs : s.Same c) :
    OrderOk c := by
  constructor
  · intro q
    rw [hs.queue, hs.queuedLog]
    exact h.sublist q
  · intro e he q hq
    rw [hs.queuedLog] at he
    rw [hs.event e (hv.lt_of_mem_queuedLog he)] at hq
    rw [hs.queue, Over, hs.finished, hs.started, hs.event e (hv.lt_of_mem_queuedLog he)]
    exact h.gone e he q hq
  · intro e he
    rw [hs.finished] at he
    obtain ⟨hlt, hne⟩ := h.past e he
    rw [hs.event e hlt]
    exact ⟨hlt.trans_le hs.num, hne⟩
  · intro e he w hw
    rw [hs.started] at he
    rw [hs.event e (hv.devices.started e he).1] at hw
    rw [hs.finished]
    exact h.waited e he w hw

/-- Every step keeps the order. -/
lemma OrderOk.move {s s' : State} {a : Action} (h : OrderOk s.toCore) (hv : Valid s)
    (hm : Move s a s') : OrderOk s'.toCore := by
  rcases hm.effect_or_same with ⟨t, f, rest, fs, ht, -, heff, -⟩ | hsame
  · exact h.thread hv (next_of_getElem? ht).runs heff
  · exact h.same hv hsame

/-- Before the first call nothing is out of order. -/
lemma orderOk_init (outOfOrder : ℕ → Bool) (device : ℕ → ℕ) :
    OrderOk (init outOfOrder device).toCore := by
  constructor <;> simp [init]

end TiOpenCL.CommandQueue
