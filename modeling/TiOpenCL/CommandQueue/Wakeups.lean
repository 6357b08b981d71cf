import TiOpenCL.CommandQueue.Accounting
import TiOpenCL.CommandQueue.Waiting

/-!
# No wake-up is lost

A traversal of a queue is skipped while its device is busy, cut off after a number of events, and stopped
early at an event that is known to be ready.  In every state of every run a queue is settled, that is, one
more traversal would do nothing, or some call is bound to traverse it, or one of its commands is on the
device, whose end will (`WakeOk.awake`).  So when nothing is going on, a finished event, or one that could
be pushed, is left in a queue only behind what cuts a traversal off (`nothing_stuck`).
-/

namespace TiOpenCL.CommandQueue

open Machine

/-! ### Settled queues -/

/-- A traversal of the rest of the list of a queue would do nothing. -/
def Settled (event : ℕ → Event) (outOfOrder : Bool) : Bool → ℕ → List ℕ → Prop
  | _, _, [] => True
  | first, traversed, e :: es =>
    complete < (event e).status ∧
      (pushEventsThreshold < traversed ∨
        (outOfOrder = false ∨ (event e).kind = .barrier) ∧ first = false ∨
        (event e).status ≠ queued ∧ Settled event outOfOrder false (traversed + 1) es ∨
        (event e).status = queued ∧ (event e).waitEvents ≠ [] ∧
          ((event e).kind.holdsBack = true ∨ Settled event outOfOrder false (traversed + 1) es))

/-- A traversal that starts nothing leaves a settled list, unless it stops at an event that is known to be
ready and was started before. -/
lemma settled_kept {event : ℕ → Event} {outOfOrder : Bool} {ready : Option ℕ} {first : Bool}
    {traversed : ℕ} {es : List ℕ}
    (hpushed : (scan event outOfOrder ready first traversed es).pushed = [])
    (htaken : (scan event outOfOrder ready first traversed es).taken = none) :
    Settled event outOfOrder first traversed (scan event outOfOrder ready first traversed es).kept ∨
      ∃ e ∈ es, complete < (event e).status ∧ (event e).status ≠ queued := by
  fun_induction scan event outOfOrder ready first traversed es with
  | case1 => exact Or.inl trivial
  | case2 first traversed e es hs ih =>
    refine (ih hpushed htaken).imp_right ?_
    rintro ⟨x, hx, hrest⟩
    exact ⟨x, List.mem_cons_of_mem e hx, hrest⟩
  | case3 first traversed e es hs hcut => exact Or.inl ⟨not_le.mp hs, Or.inl hcut.2⟩
  | case4 first traversed e es hs _ hstop =>
    have hboth : outOfOrder = false ∧ first = false := by simpa using hstop
    exact Or.inl ⟨not_le.mp hs, Or.inr (Or.inl ⟨Or.inl hboth.1, hboth.2⟩)⟩
  | case5 first traversed e es hs _ _ hstop =>
    exact Or.inl ⟨not_le.mp hs, Or.inr (Or.inl ⟨Or.inr hstop.1, hstop.2⟩)⟩
  | case6 first traversed e es hs _ _ _ hne _ => exact Or.inr ⟨e, List.mem_cons_self, not_le.mp hs, hne⟩
  | case7 first traversed e es hs _ _ _ hne _ ih =>
    rcases ih hpushed htaken with hrest | ⟨x, hx, hrest⟩
    · exact Or.inl ⟨not_le.mp hs, Or.inr (Or.inr (Or.inl ⟨hne, hrest⟩))⟩
    · exact Or.inr ⟨x, List.mem_cons_of_mem e hx, hrest⟩
  | case8 first traversed e es hs _ _ _ hq hw hk =>
    exact Or.inl ⟨not_le.mp hs, Or.inr (Or.inr (Or.inr ⟨not_not.mp hq, hw, Or.inl hk⟩))⟩
  | case9 first traversed e es hs _ _ _ hq hw _ ih =>
    rcases ih hpushed htaken with hrest | ⟨x, hx, hrest⟩
    · exact Or.inl ⟨not_le.mp hs, Or.inr (Or.inr (Or.inr ⟨not_not.mp hq, hw, Or.inr hrest⟩))⟩
    · exact Or.inr ⟨x, List.mem_cons_of_mem e hx, hrest⟩
  | case10 => cases htaken
  | case11 | case12 => simp [Scan.push] at hpushed

/-- What a traversal looks at: an event that stays as it is, or one that was started and goes on. -/
structure SameForScan (x x' : Event) : Prop where
  kind : x'.kind = x.kind
  waits : x'.waitEvents = [] ↔ x.waitEvents = []
  status : x'.status = x.status ∨ complete < x'.status ∧ x'.status ≠ queued ∧ x.status ≠ queued

/-- An event that stays as it is. -/
lemma SameForScan.refl (x : Event) : SameForScan x x := ⟨rfl, Iff.rfl, Or.inl rfl⟩

/-- A queue stays settled while its events stay as they are for a traversal. -/
lemma Settled.congr {event event' : ℕ → Event} {outOfOrder first : Bool} {traversed : ℕ} {es : List ℕ}
    (h : Settled event outOfOrder first traversed es) (hsame : ∀ e ∈ es, SameForScan (event e) (event' e)) :
    Settled event' outOfOrder first traversed es := by
  induction es generalizing first traversed with
  | nil => trivial
  | cons e es ih =>
    obtain ⟨hlt, halt⟩ := h
    obtain ⟨hk, hw, hs⟩ := hsame e List.mem_cons_self
    have hrest : Settled event outOfOrder false (traversed + 1) es →
        Settled event' outOfOrder false (traversed + 1) es := fun hset =>
      ih hset fun x hx => hsame x (List.mem_cons_of_mem e hx)
    have hlt' : complete < (event' e).status := by
      rcases hs with heq | ⟨hgt, -⟩
      · rw [heq]
        exact hlt
      · exact hgt
    refine ⟨hlt', ?_⟩
    rw [hk]
    rcases halt with hcut | hstop | ⟨hne, hset⟩ | ⟨hq, hwait, hor⟩
    · exact Or.inl hcut
    · exact Or.inr (Or.inl hstop)
    · have hne' : (event' e).status ≠ queued := by
        rcases hs with heq | ⟨-, hne', -⟩
        · rw [heq]
          exact hne
        · exact hne'
      exact Or.inr (Or.inr (Or.inl ⟨hne', hrest hset⟩))
    · rcases hs with heq | ⟨-, -, hne⟩
      · refine Or.inr (Or.inr (Or.inr ⟨heq.trans hq, fun hnil => hwait (hw.mp hnil), ?_⟩))
        exact hor.imp_right hrest
      · exact absurd hq hne

/-- Cleaning leaves a settled queue settled. -/
lemma Settled.cleanLoop {event : ℕ → Event} {outOfOrder first : Bool} {traversed : ℕ} {es : List ℕ}
    (h : Settled event outOfOrder first traversed es) :
    Settled event outOfOrder first traversed (cleanLoop event outOfOrder es).1 := by
  induction es generalizing first traversed with
  | nil => trivial
  | cons e es ih =>
    obtain ⟨hlt, halt⟩ := h
    rw [CommandQueue.cleanLoop, if_neg (ne_of_gt hlt)]
    split
    · exact ⟨hlt, halt⟩
    · refine ⟨hlt, ?_⟩
      rcases halt with hcut | hstop | ⟨hne, hset⟩ | ⟨hq, hwait, hor⟩
      · exact Or.inl hcut
      · exact Or.inr (Or.inl hstop)
      · exact Or.inr (Or.inr (Or.inl ⟨hne, ih hset⟩))
      · exact Or.inr (Or.inr (Or.inr ⟨hq, hwait, hor.imp_right ih⟩))

/-! ### Who will traverse a queue -/

/-- A call that is bound to traverse a queue. -/
def Wakes (c : Core) (q : ℕ) : Frame → Prop
  | .setStatus e _ | .fail e _ _ => (c.event e).parent = some q
  | .notify e _ _ pushed => pushed = false ∧ (c.event e).parent = some q
  | .push q' _ _ => q' = q
  | _ => False

/-- A command of a queue is on its device. -/
def InFlight (c : Core) (q : ℕ) : Prop :=
  ∃ e ∈ c.started, (c.event e).kind = .command ∧ (c.event e).parent = some q ∧ e ∉ c.ended

/-- A queue is settled, or will be traversed. -/
def Awake (s : State) (q : ℕ) : Prop :=
  Settled s.event (s.queue q).outOfOrder true 0 (s.queue q).events ∨ InFlight s.toCore q ∨
    ∃ f, Runs s.threads f ∧ Wakes s.toCore q f

/-- A command that its device is done with, or an instantaneous event that was taken. -/
def Done (c : Core) (e : ℕ) : Prop :=
  e ∈ c.ended ∨ e ∈ c.started ∧ (c.event e).kind ≠ .command

/-- What holds of the wake-ups in every state of every run. -/
structure WakeOk (s : State) : Prop where
  valid : Valid s
  order : OrderOk s.toCore
  waits : WaitsOk s
  status : ∀ e < s.numEvents, (s.event e).parent.isSome →
    (s.event e).status = queued ∨ (s.event e).status ≤ complete ∨
      (s.event e).kind = .command ∧ e ∈ s.started
  ends : ∀ e, Done s.toCore e →
    (s.event e).status ≤ complete ∨ ∃ status, Runs s.threads (.setStatus e status)
  counter : ∀ q, (s.queue q).numOnDevice ≤ (onDevice s.toCore q + dueCounts s q : ℕ)
  awake : ∀ q, Awake s q

/-- A call that will count a completed event of a queue will traverse it. -/
lemma wakes_of_countWeight {c : Core} {q : ℕ} {f : Frame} (h : 0 < countWeight c q f) :
    Wakes c q f := by
  cases f <;> grind [countWeight, Wakes]

/-- The queues of the events that a frame names do not change. -/
lemma Wakes.mono {c c' : Core} (hle : c.Le c') {q : ℕ} {f : Frame} (hf : FrameOk c f)
    (h : Wakes c q f) : Wakes c' q f := by
  cases f with
  | setStatus e | fail e => exact (hle.parent e hf.1).trans h
  | notify e => exact ⟨h.1, (hle.parent e hf.1).trans h.2⟩
  | push => exact h
  | _ => exact h.elim

/-- A call that is bound to traverse a queue does so, or leaves another one to do it. -/
lemma Effect.wakes {c c' : Core} {f : Frame} {fs : List Frame} (h : Effect c f c' fs)
    (hok : EventsOk c) (hf : FrameOk c f) {q : ℕ} (hw : Wakes c q f) :
    (∃ ready oneCompleted, f = .push q ready oneCompleted) ∨ ∃ g ∈ fs, Wakes c' q g := by
  have hle := h.le
  cases h
  case completed e hp =>
    exact Or.inr ⟨_, List.mem_singleton_self _, rfl, (hle.parent e hf.1).trans hw⟩
  case failed e status hs =>
    exact Or.inr ⟨_, List.mem_singleton_self _, (hle.parent e hf.1).trans hw⟩
  case set e status hs hp =>
    obtain ⟨hk, hnone⟩ := hp (le_antisymm hf.2 hs)
    exact absurd ((hok.user e hf.1).mpr hnone) hk
  case notifiedReady e i n d q' pushed hi hd hb hq hnil =>
    obtain ⟨rfl, hpar⟩ := hw
    by_cases hown : (c.event e).parent = some q'
    · obtain rfl : q' = q := Option.some.inj (hown.symm.trans hpar)
      exact Or.inr ⟨_, List.mem_append_right _ List.mem_cons_self, rfl⟩
    · refine Or.inr ⟨_, List.mem_append_right _ (List.mem_cons_of_mem _ List.mem_cons_self), ?_⟩
      exact ⟨by simp [hown], (hle.parent e hf.1).trans hpar⟩
  case notified e i n d pushed hi hd hb hor =>
    exact Or.inr ⟨_, List.mem_append_right _ List.mem_cons_self, hw.1, (hle.parent e hf.1).trans hw.2⟩
  case notifiedAll e i n q' pushed hi hq =>
    obtain ⟨rfl, hpar⟩ := hw
    exact Or.inr ⟨_, List.mem_singleton_self _, Option.some.inj (hq.symm.trans hpar)⟩
  case notifiedUser e i n pushed hi hq =>
    rw [hw.2] at hq
    cases hq
  case propagated e i n d hi hd hb =>
    exact Or.inr ⟨_, List.mem_append_right _ (List.mem_cons_of_mem _ List.mem_cons_self),
      (hle.parent e hf.1).trans hw⟩
  case propagatedAll e i n q' hi hq =>
    exact Or.inr ⟨_, List.mem_singleton_self _, Option.some.inj (hq.symm.trans hw)⟩
  case propagatedUser e i n hi hq =>
    rw [Wakes, hq] at hw
    cases hw
  case throttled q' ready o _ | pushed q' ready o _ _ | took q' _ ready o _ _ =>
    obtain rfl : q' = q := hw
    exact Or.inl ⟨ready, o, rfl⟩
  all_goals exact hw.elim

/-! ### Critical sections -/

section Steps

variable {s s' : State} {c : Core} {a : Action} {f : Frame} {fs rest : List Frame} {t q : ℕ}

/-- An event of a queue was not touched, or changed in the same way for a traversal, if no call is left that
is bound to traverse the queue. -/
lemma Effect.sameForScan (heff : Effect s.toCore f c fs) (hv : Valid s) (hf : Runs s.threads f)
    (hpush : ∀ ready oneCompleted, f ≠ .push q ready oneCompleted)
    (hno : ∀ g ∈ fs, ¬Wakes c q g) {e : ℕ} (he : e ∈ (s.queue q).events) :
    SameForScan (s.event e) (c.event e) := by
  obtain ⟨hlt, hb, hp, hlog⟩ := hv.wellformed.queues.listed q e he
  have hfok := hv.wellformed.frames f hf
  have hpar : ∀ {x}, x = e → (c.event x).parent = some q := by
    rintro x rfl
    exact (heff.le.parent x hlt).trans hp
  refine ⟨heff.le.kind e hlt, ?_, ?_⟩
  · cases heff
    case notifiedReady x i n d q' pushed hi hd hbd hq hnil =>
      by_cases hde : d = e
      · obtain rfl : q' = q := Option.some.inj (hq.symm.trans (hde ▸ hp))
        exact absurd rfl (hno (.push q' (some d) _) (List.mem_append_right _ List.mem_cons_self))
      · simp [removeWaitEvent, Core.setEvent, Function.update_of_ne (Ne.symm hde)]
    case notified x i n d pushed hi hd hbd hor =>
      by_cases hde : d = e
      · subst hde
        rw [removeWaitEvent_event_self]
        refine ⟨fun hnil => ?_, fun hnil => by simp [hnil]⟩
        rcases hor with hnone | hne
        · rw [hp] at hnone
          cases hnone
        · exact absurd hnil hne
      · simp [removeWaitEvent, Core.setEvent, Function.update_of_ne (Ne.symm hde)]
    case propagated x i n d hi hd hbd =>
      by_cases hde : d = e
      · exact absurd (hpar hde) (hno (.setStatus d errorInWaitList)
          (List.mem_append_right _ List.mem_cons_self))
      · simp [removeWaitEvent, Core.setEvent, Function.update_of_ne (Ne.symm hde)]
    case registered x w ws failed blocking hun hw =>
      rw [addDependentEvent_nextWait_event]
      have hne : e ≠ x := by
        rintro rfl
        exact hv.wellformed.queues.not_mem_queuedLog hf (by simp [entryWeight]) hlog
      simp [hne]
    case created => simp [newEvent, Core.setEvent, Nat.ne_of_lt hlt]
    case pushed | took =>
      simp only [Core.applyScan]
      split <;> exact Iff.rfl
    case cleaned =>
      rw [cleanEvents]
      split <;> exact Iff.rfl
    case skipped | noticed | built | completed | failed | set | began =>
      simp only [nextWait, setStatusHelper, Core.setEvent, Function.update_apply]
      split
      · rename_i heq
        rw [heq]
      · exact Iff.rfl
    all_goals exact Iff.rfl
  · rcases heff.status hlt with hsame | hset
    · exact Or.inl hsame
    · generalize hst : (c.event e).status = status at hset
      cases hset with
      | setStatus =>
        exfalso
        rcases heff.wakes hv.wellformed.events hfok hp with ⟨_, _, hcon⟩ | ⟨g, hg, hw⟩
        · cases hcon
        · exact hno g hg hw
      | begin =>
        have hstarted := (hv.command_of_worker (e := e) hf (by simp [workerWeight])).2
        exact Or.inr ⟨by decide, by decide, hv.devices.fresh q e he hstarted⟩
      | @push q' ready o hp' =>
        have hmem := (mem_started_scan (List.mem_append.mpr (Or.inl hp'))).1
        have hq' := (hv.wellformed.queues.listed q' e hmem).2.2.1
        obtain rfl : q' = q := Option.some.inj (hq'.symm.trans hp)
        exact absurd rfl (hpush ready o)

/-- The list of a queue after a critical section that is no traversal of it. -/
lemma Effect.events_of_ne_push (heff : Effect s.toCore f c fs)
    (hpush : ∀ ready oneCompleted, f ≠ .push q ready oneCompleted) (hno : ∀ g ∈ fs, ¬Wakes c q g) :
    (c.queue q).events = (s.queue q).events ∨ c.event = s.event ∧
      (c.queue q).events = (cleanLoop s.event (s.queue q).outOfOrder (s.queue q).events).1 := by
  cases heff
  case appended e q' blocking hq =>
    by_cases hqq : q = q'
    · subst hqq
      exact absurd rfl (hno (.push q none false) List.mem_cons_self)
    · simp [Core.setQueue, hqq]
  case throttled q' ready o ht | pushed q' ready o ht hs | took q' e ready o ht hs =>
    have hqq : q ≠ q' := by
      rintro rfl
      exact hpush ready o rfl
    simp [Core.setQueue, Core.applyScan, hqq]
  case cleaned q' =>
    rw [cleanEvents]
    split
    · exact Or.inl rfl
    · by_cases hqq : q = q'
      · subst hqq
        exact Or.inr ⟨rfl, by simp [Core.setQueue]⟩
      · simp [Core.setQueue, hqq]
  all_goals exact Or.inl rfl

/-- A settled queue stays so if no call is left that is bound to traverse it. -/
lemma Settled.effect (h : Settled s.event (s.queue q).outOfOrder true 0 (s.queue q).events)
    (heff : Effect s.toCore f c fs) (hv : Valid s) (hf : Runs s.threads f)
    (hpush : ∀ ready oneCompleted, f ≠ .push q ready oneCompleted) (hno : ∀ g ∈ fs, ¬Wakes c q g) :
    Settled c.event (c.queue q).outOfOrder true 0 (c.queue q).events := by
  rw [heff.le.outOfOrder q]
  rcases heff.events_of_ne_push hpush hno with hsame | ⟨hevent, hclean⟩
  · rw [hsame]
    exact h.congr fun e he => heff.sameForScan hv hf hpush hno he
  · rw [hevent, hclean]
    exact h.cleanLoop

/-- What a traversal gives to the device is a command. -/
lemma command_of_pushed {c : Core} {e : ℕ} {ready : Option ℕ} (h : e ∈ (c.scan q ready).pushed) :
    (c.event e).kind = .command :=
  (kind_of_scan c.event _ ready true 0 _).1 e h

/-- A command that is done with is not in the hands of a worker. -/
lemma Valid.not_done_of_worker (hv : Valid s) (hf : Runs s.threads f) {e : ℕ}
    (hw : workerWeight e f = 1) : ¬Done s.toCore e := by
  obtain ⟨hk, hst⟩ := hv.command_of_worker hf hw
  rintro (hended | ⟨-, hne⟩)
  · have htoken := hv.devices.token e (hv.devices.ended e hended)
    have hone : s.started.count e ≤ 1 := List.nodup_iff_count_le_one.mp hv.devices.nodup e
    have hpos := List.count_pos_iff.mpr hended
    have hle := hf.weight_le (workerWeight e)
    rw [starts, if_pos hk, places] at htoken
    omega
  · exact hne hk

/-- What is done was started. -/
lemma Valid.started_of_done (hv : Valid s) {e : ℕ} (h : Done s.toCore e) : e ∈ s.started := by
  rcases h with hended | ⟨hst, -⟩
  · have hpos := List.count_pos_iff.mpr hended
    refine (hv.command_of_places (hv.devices.ended e hended) ?_).2
    rw [places]
    omega
  · exact hst

/-- What is done after a critical section was so before, or is the instantaneous event of a traversal. -/
lemma Effect.done (heff : Effect s.toCore f c fs) (hv : Valid s) {e : ℕ} (h : Done c e) :
    Done s.toCore e ∨ ∃ status, .setStatus e status ∈ fs := by
  rcases h with hended | ⟨hst, hk⟩
  · exact Or.inl (Or.inl (heff.executing.1 ▸ hended))
  · have hold : e ∈ s.started → Done s.toCore e := by
      intro hin
      refine Or.inr ⟨hin, ?_⟩
      rw [← heff.le.kind e (hv.devices.started e hin).1]
      exact hk
    cases heff
    case pushed q' ready o ht hs | took q' e' ready o ht hs =>
      have hst' : e ∈ s.started ++ (s.scan q' ready).started := hst
      rcases List.mem_append.mp hst' with hin | hnew
      · exact Or.inl (hold hin)
      · rcases List.mem_append.mp hnew with hpush | htake
        · refine absurd (command_of_pushed hpush) ?_
          have hlt := (hv.wellformed.queues.listed q' e (mem_started_scan hnew).1).1
          have hle := Core.le_applyScan s.toCore q' (s.scan q' ready)
            (Queue.count_outOfOrder_device (s.queue q') o).1
            (Queue.count_outOfOrder_device (s.queue q') o).2.1
          rw [← hle.kind e hlt]
          exact hk
        · rw [hs] at htake
          simp_all
    case cleaned =>
      rw [cleanEvents] at hst
      split at hst <;> exact Or.inl (hold hst)
    all_goals exact Or.inl (hold hst)

/-- Whoever is done has ended, or is about to. -/
lemma WakeOk.ends_thread (h : WakeOk s) (ht : s.threads[t]? = some (f :: rest))
    (heff : Effect s.toCore f c fs) {e : ℕ} (hdone : Done c e) :
    (c.event e).status ≤ complete ∨ ∃ status, Runs (advance s.threads t fs) (.setStatus e status) := by
  have hf := (next_of_getElem? ht).runs
  have hfok := h.valid.wellformed.frames f hf
  rcases heff.done h.valid hdone with hold | ⟨status, hnew⟩
  · have hst := h.valid.started_of_done hold
    obtain ⟨hlt, -⟩ := h.valid.devices.started e hst
    rcases h.ends e hold with hle | ⟨status, hrun⟩
    · left
      rcases heff.status hlt with hsame | hset
      · rw [hsame]
        exact hle
      · generalize hs : (c.event e).status = status at hset
        cases hset with
        | setStatus => exact hfok.2
        | begin => exact absurd hold (h.valid.not_done_of_worker hf (by simp [workerWeight]))
        | push hp =>
          have hqueued := (mem_started_scan (List.mem_append.mpr (Or.inl hp))).2.1
          rw [hqueued] at hle
          exact absurd hle (by decide)
    · rcases runs_of_runs fs ht hrun with rfl | hstay
      · rw [heff.status_setStatus]
        exact Or.inl hfok.2
      · exact Or.inr ⟨status, hstay⟩
  · exact Or.inr ⟨status, runs_advance_of_mem ht hnew⟩

/-- An event of a queue is queued, has ended, or is a command that was started. -/
lemma WakeOk.status_thread (h : WakeOk s) (hf : Runs s.threads f) (heff : Effect s.toCore f c fs) {e : ℕ}
    (he : e < c.numEvents) (hp : (c.event e).parent.isSome) :
    (c.event e).status = queued ∨ (c.event e).status ≤ complete ∨
      (c.event e).kind = .command ∧ e ∈ c.started := by
  have hfok := h.valid.wellformed.frames f hf
  rcases lt_or_ge e s.numEvents with hlt | hge
  · rw [heff.le.kind e hlt]
    have hstarted : (s.event e).kind = .command ∧ e ∈ s.started →
        (s.event e).kind = .command ∧ e ∈ c.started :=
      fun hin => ⟨hin.1, heff.le.started.subset hin.2⟩
    rcases heff.status hlt with hsame | hset
    · rw [hsame]
      rw [heff.le.parent e hlt] at hp
      exact (h.status e hlt hp).imp_right fun hor => hor.imp_right hstarted
    · generalize hs : (c.event e).status = status at hset
      cases hset with
      | setStatus => exact Or.inr (Or.inl hfok.2)
      | begin =>
        exact Or.inr (Or.inr (hstarted (h.valid.command_of_worker hf (by simp [workerWeight]))))
      | @push q' ready o hp' =>
        refine Or.inr (Or.inr ⟨command_of_pushed hp', ?_⟩)
        have hmem : e ∈ s.started ++ (s.scan q' ready).started :=
          List.mem_append_right _ (List.mem_append_left _ hp')
        cases heff with
        | throttled ht =>
          simp only [Core.setQueue] at hs
          rw [(mem_started_scan (List.mem_append_left _ hp')).2.1] at hs
          exact absurd hs (by decide)
        | pushed | took => exact hmem
  · exact Or.inl (heff.status_new hge he)

/-! ### Traversals -/

/-- A started event of a queue that has not finished is on its device, or its end is about to be set. -/
lemma WakeOk.wakes_of_onDevice (h : WakeOk s) (hpos : 0 < onDevice s.toCore q) :
    InFlight s.toCore q ∨ ∃ e status, (s.event e).parent = some q ∧
      Runs s.threads (.setStatus e status) := by
  obtain ⟨e, hst, hdec⟩ := List.countP_pos_iff.mp hpos
  obtain ⟨hp, hnot⟩ := of_decide_eq_true hdec
  have hlt := (h.valid.devices.started e hst).1
  have hends : Done s.toCore e → ∃ status, Runs s.threads (.setStatus e status) := fun hdone =>
    (h.ends e hdone).resolve_left fun hle => hnot (h.valid.wellformed.events.reached e hlt hle)
  by_cases hk : (s.event e).kind = .command
  · by_cases hended : e ∈ s.ended
    · obtain ⟨status, hrun⟩ := hends (Or.inl hended)
      exact Or.inr ⟨e, status, hp, hrun⟩
    · exact Or.inl ⟨e, hst, hk, hp, hended⟩
  · obtain ⟨status, hrun⟩ := hends (Or.inr ⟨hst, hk⟩)
    exact Or.inr ⟨e, status, hp, hrun⟩

/-- An event in the list of a queue that was started and has not ended is on its device, or its end is
about to be set. -/
lemma WakeOk.wakes_of_running (h : WakeOk s) {e : ℕ} (he : e ∈ (s.queue q).events)
    (hlt : complete < (s.event e).status) (hne : (s.event e).status ≠ queued) :
    InFlight s.toCore q ∨ ∃ e status, (s.event e).parent = some q ∧
      Runs s.threads (.setStatus e status) := by
  obtain ⟨hnum, -, hp, -⟩ := h.valid.wellformed.queues.listed q e he
  rcases h.status e hnum (by rw [hp]; rfl) with hq | hle | ⟨hk, hst⟩
  · exact absurd hq hne
  · exact absurd hle (not_le.mpr hlt)
  · by_cases hended : e ∈ s.ended
    · obtain ⟨status, hrun⟩ := (h.ends e (Or.inl hended)).resolve_left (not_le.mpr hlt)
      exact Or.inr ⟨e, status, hp, hrun⟩
    · exact Or.inl ⟨e, hst, hk, hp, hended⟩

/-- A command on the device stays there while a thread takes a step. -/
lemma InFlight.thread (h : InFlight s.toCore q) (hv : Valid s) (heff : Effect s.toCore f c fs) :
    InFlight c q := by
  obtain ⟨e, hst, hk, hp, hended⟩ := h
  have hlt := (hv.devices.started e hst).1
  refine ⟨e, heff.le.started.subset hst, (heff.le.kind e hlt).trans hk,
    (heff.le.parent e hlt).trans hp, ?_⟩
  rw [heff.executing.1]
  exact hended

/-- What is on the device, or about to be set, before a traversal is so after it. -/
lemma Awake.of_push (hv : Valid s) {ready : Option ℕ} {oneCompleted : Bool}
    (ht : s.threads[t]? = some (.push q ready oneCompleted :: rest))
    (heff : Effect s.toCore (.push q ready oneCompleted) c fs)
    (h : InFlight s.toCore q ∨ ∃ e status, (s.event e).parent = some q ∧
      Runs s.threads (.setStatus e status)) : Awake ⟨c, advance s.threads t fs⟩ q := by
  rcases h with hfly | ⟨e, status, hp, hrun⟩
  · exact Or.inr (Or.inl (hfly.thread hv heff))
  · have hlt := (hv.wellformed.frames _ hrun).1
    refine Or.inr (Or.inr ⟨.setStatus e status, ?_, (heff.le.parent e hlt).trans hp⟩)
    rcases runs_of_runs fs ht hrun with heq | hstay
    · cases heq
    · exact hstay

/-- A queue that is not traversed because its device has enough to work on will be traversed. -/
lemma WakeOk.awake_throttled (h : WakeOk s) {ready : Option ℕ} {oneCompleted : Bool}
    (ht : s.threads[t]? = some (.push q ready oneCompleted :: rest))
    (hthrottled : Throttled s.toCore ((s.queue q).count oneCompleted) ready) :
    Awake ⟨s.toCore.setQueue q ((s.queue q).count oneCompleted), advance s.threads t []⟩ q := by
  have heff : Effect s.toCore (.push q ready oneCompleted) _ _ := .throttled hthrottled
  obtain ⟨-, -, hnum, -⟩ := hthrottled
  rw [(Queue.count_numOnDevice _ _).1] at hnum
  have hcounter := h.counter q
  have htot := total_advance (countWeight s.toCore q) [] ht
  simp only [countWeight, true_and, List.map_nil, List.sum_nil] at htot
  by_cases hpos : 0 < onDevice s.toCore q
  · exact Awake.of_push h.valid ht heff (h.wakes_of_onDevice hpos)
  · -- nothing of the queue is on the device, so that another call is due
    rw [dueCounts] at hcounter
    have hdue : 0 < total (countWeight s.toCore q) (advance s.threads t []) := by
      cases oneCompleted <;> simp_all <;> omega
    obtain ⟨g, hg, hweight⟩ := exists_runs_of_total_pos hdue
    refine Or.inr (Or.inr ⟨g, hg, ?_⟩)
    rcases runs_advance hg with hnew | hold
    · cases hnew
    · exact (wakes_of_countWeight hweight).mono heff.le (h.valid.wellformed.frames g hold)

/-- After a traversal its queue is settled, or will be traversed again. -/
lemma WakeOk.awake_scan (h : WakeOk s) {ready : Option ℕ} {oneCompleted : Bool}
    (ht : s.threads[t]? = some (.push q ready oneCompleted :: rest))
    (heff : Effect s.toCore (.push q ready oneCompleted) c fs)
    (hc : c = s.toCore.applyScan q ((s.queue q).count oneCompleted) (s.scan q ready))
    (htaken : (s.scan q ready).taken = none) : Awake ⟨c, advance s.threads t fs⟩ q := by
  by_cases hpushed : (s.scan q ready).pushed = []
  · rcases settled_kept hpushed htaken with hsettled | ⟨e, he, hlt, hne⟩
    · left
      have hevent : c.event = s.event := by
        rw [hc]
        funext e
        simp [Core.applyScan, hpushed]
      have hevents : (c.queue q).events = (s.scan q ready).kept := by
        rw [hc]
        simp [Core.applyScan]
      have hout : (c.queue q).outOfOrder = (s.queue q).outOfOrder := heff.le.outOfOrder q
      simp only [hevent, hevents, hout]
      exact hsettled
    · exact Awake.of_push h.valid ht heff (h.wakes_of_running he hlt hne)
  · -- what was given to the device is on it
    obtain ⟨e, he⟩ := List.exists_mem_of_ne_nil _ hpushed
    have hmem : e ∈ (s.scan q ready).started := List.mem_append_left _ he
    obtain ⟨hin, hqueued, -⟩ := mem_started_scan hmem
    obtain ⟨hlt, -, hp, -⟩ := h.valid.wellformed.queues.listed q e hin
    refine Or.inr (Or.inl ⟨e, ?_, ?_, (heff.le.parent e hlt).trans hp, ?_⟩)
    · rw [hc]
      exact List.mem_append_right _ hmem
    · exact (heff.le.kind e hlt).trans (command_of_pushed he)
    · rw [heff.executing.1]
      exact fun hended =>
        h.valid.devices.fresh q e hin (h.valid.started_of_done (Or.inl hended)) hqueued

/-- A critical section leaves every queue settled, or bound to be traversed. -/
lemma WakeOk.awake_thread (h : WakeOk s) (ht : s.threads[t]? = some (f :: rest))
    (heff : Effect s.toCore f c fs) (q : ℕ) : Awake ⟨c, advance s.threads t fs⟩ q := by
  have hf := (next_of_getElem? ht).runs
  by_cases hpush : ∃ ready oneCompleted, f = .push q ready oneCompleted
  · obtain ⟨ready, oneCompleted, rfl⟩ := hpush
    cases heff with
    | throttled hthrottled => exact h.awake_throttled ht hthrottled
    | pushed hnot hs => exact h.awake_scan ht (.pushed hnot hs) rfl hs
    | @took _ e _ _ hnot hs =>
      have hin := (mem_started_scan (List.mem_append_right (s.scan q ready).pushed
        (by rw [← Core.scan, hs]; exact List.mem_singleton_self e))).1
      obtain ⟨hlt, -, hp, -⟩ := h.valid.wellformed.queues.listed q e hin
      refine Or.inr (Or.inr ⟨_, runs_advance_of_mem ht List.mem_cons_self, ?_⟩)
      have heff : Effect s.toCore (.push q ready oneCompleted) _ _ := .took hnot hs
      exact (heff.le.parent e hlt).trans hp
  · have hpush' : ∀ ready oneCompleted, f ≠ .push q ready oneCompleted :=
      fun ready oneCompleted heq => hpush ⟨ready, oneCompleted, heq⟩
    by_cases hno : ∀ g ∈ fs, ¬Wakes c q g
    · rcases h.awake q with hsettled | hfly | ⟨g, hg, hw⟩
      · exact Or.inl (hsettled.effect heff h.valid hf hpush' hno)
      · exact Or.inr (Or.inl (hfly.thread h.valid heff))
      · have hgok := h.valid.wellformed.frames g hg
        rcases runs_of_runs fs ht hg with rfl | hstay
        · rcases heff.wakes h.valid.wellformed.events hgok hw with hcon | ⟨g', hg', hw'⟩
          · exact absurd hcon hpush
          · exact absurd hw' (hno g' hg')
        · exact Or.inr (Or.inr ⟨g, hstay, hw.mono heff.le hgok⟩)
    · push Not at hno
      obtain ⟨g, hg, hw⟩ := hno
      exact Or.inr (Or.inr ⟨g, runs_advance_of_mem ht hg, hw⟩)

/-! ### Steps of the machine -/

/-- What is done after a step that is no critical section was so before, or its end is about to be set. -/
lemma Move.done (hm : Move s a s') (hsame : s.Same s'.toCore) (hv : Valid s) {e : ℕ}
    (h : Done s'.toCore e) : Done s.toCore e ∨ ∃ status, Runs s'.threads (.setStatus e status) := by
  have hold : e ∈ s'.ended → e ∈ s.ended ∨ ∃ status, Runs s'.threads (.setStatus e status) := by
    intro hended
    cases hm with
    | @endCommand x status hx hs =>
      rcases List.mem_cons.mp hended with rfl | hin
      · exact Or.inr ⟨status, _, List.mem_append_right _ (List.mem_singleton_self _),
          List.mem_singleton_self _⟩
      · exact Or.inl hin
    | thread ht hf => exact Or.inl (hf.executing.1 ▸ hended)
    | _ => exact Or.inl hended
  rcases h with hended | ⟨hst, hk⟩
  · exact (hold hended).imp_left Or.inl
  · rw [hsame.started] at hst
    rw [hsame.event e (hv.devices.started e hst).1] at hk
    exact Or.inl (Or.inr ⟨hst, hk⟩)

/-- A command on the device stays there, or its end is about to be set. -/
lemma InFlight.move (h : InFlight s.toCore q) (hm : Move s a s') (hsame : s.Same s'.toCore)
    (hv : Valid s) : InFlight s'.toCore q ∨ ∃ e status, (s'.event e).parent = some q ∧
      Runs s'.threads (.setStatus e status) := by
  obtain ⟨e, hst, hk, hp, hnot⟩ := h
  have hlt := (hv.devices.started e hst).1
  have hp' : (s'.event e).parent = some q := (hm.le.parent e hlt).trans hp
  by_cases hended : e ∈ s'.ended
  · rcases hm.done hsame hv (Or.inl hended) with (hcon | ⟨-, hne⟩) | ⟨status, hrun⟩
    · exact absurd hcon hnot
    · exact absurd hk hne
    · exact Or.inr ⟨e, status, hp', hrun⟩
  · exact Or.inl ⟨e, hm.le.started.subset hst, (hm.le.kind e hlt).trans hk, hp', hended⟩

/-- A step that is no critical section leaves every queue settled, or bound to be traversed. -/
lemma Awake.same (h : Awake s q) (hm : Move s a s') (hsame : s.Same s'.toCore) (hv : Valid s)
    (hruns : ∀ g, (∀ e blocking, g ≠ .queueEvent e blocking) → Runs s.threads g → Runs s'.threads g) :
    Awake s' q := by
  rcases h with hsettled | hfly | ⟨g, hg, hw⟩
  · left
    rw [hsame.queue]
    refine hsettled.congr fun e he => ?_
    rw [hsame.event e (hv.wellformed.queues.listed q e he).1]
    exact SameForScan.refl _
  · rcases hfly.move hm hsame hv with hfly' | ⟨e, status, hp, hrun⟩
    · exact Or.inr (Or.inl hfly')
    · exact Or.inr (Or.inr ⟨_, hrun, hp⟩)
  · refine Or.inr (Or.inr ⟨g, hruns g ?_ hg, hw.mono hm.le (hv.wellformed.frames g hg)⟩)
    rintro e blocking rfl
    exact hw

/-- Every step keeps the wake-ups. -/
lemma WakeOk.step (h : WakeOk s) (hstep : step s a = some s') : WakeOk s' := by
  have hm := move_of_step hstep
  have hcounter : ∀ q, (s'.queue q).numOnDevice ≤ (onDevice s'.toCore q + dueCounts s' q : ℕ) := by
    intro q
    have hbal := hm.balance h.valid h.order q
    have hold := h.counter q
    omega
  rcases hm.effect_or_keeps with ⟨t, f, rest, fs, ht, -, heff, hthreads⟩ | ⟨-, hsame, hruns⟩
  · have hf := (next_of_getElem? ht).runs
    refine ⟨h.valid.step hstep, h.order.move h.valid hm, h.waits.move h.valid hm, fun e he hp => ?_,
      fun e hdone => ?_, hcounter, fun q => ?_⟩
    · exact h.status_thread hf heff he hp
    · rw [hthreads]
      exact h.ends_thread ht heff hdone
    · have hawake := h.awake_thread ht heff q
      rw [← hthreads] at hawake
      exact hawake
  · refine ⟨h.valid.step hstep, h.order.move h.valid hm, h.waits.move h.valid hm, fun e he hp => ?_,
      fun e hdone => ?_, hcounter, fun q => (h.awake q).same hm hsame h.valid hruns⟩
    · rcases lt_or_ge e s.numEvents with hlt | hge
      · rw [hsame.event e hlt] at hp ⊢
        rw [hsame.started]
        exact h.status e hlt hp
      · rw [hsame.fresh e hge he] at hp
        cases hp
    · rcases hm.done hsame h.valid hdone with hold | hnew
      · have hlt := (h.valid.devices.started e (h.valid.started_of_done hold)).1
        rw [hsame.event e hlt]
        refine (h.ends e hold).imp_right ?_
        rintro ⟨status, hrun⟩
        exact ⟨status, hruns _ (by simp) hrun⟩
      · exact Or.inr hnew

end Steps

/-- Before the first call there is nothing to wake. -/
lemma wakeOk_init (outOfOrder : ℕ → Bool) (device : ℕ → ℕ) : WakeOk (init outOfOrder device) := by
  refine ⟨valid_init _ _, orderOk_init _ _, waitsOk_init _ _, ?_, ?_, fun q => Int.natCast_nonneg _,
    fun q => Or.inl trivial⟩ <;> simp [init, Done]

/-- The wake-ups are in order after every run. -/
lemma wakeOk_run {outOfOrder : ℕ → Bool} {device : ℕ → ℕ} {as : List Action} {s : State}
    (h : run step (init outOfOrder device) as = some s) : WakeOk s :=
  invariant_of_run (fun _ _ _ hI hst => WakeOk.step hI hst) h (wakeOk_init outOfOrder device)

/-! ### Queues at rest -/

/-- A frame of a thread that sleeps. -/
def Frame.asleep : Frame → Bool
  | .wait _ | .waitEmpty _ => true
  | _ => false

/-- Nothing goes on: all threads have returned or sleep, and the device of the queue has nothing to do. -/
structure AtRest (s : State) (q : ℕ) : Prop where
  asleep : ∀ stack ∈ s.threads, ∀ f ∈ stack, f.asleep = true
  device : s.device (s.queue q).device = []
  executing : s.executing = []

instance (s : State) (q : ℕ) : Decidable (AtRest s q) :=
  decidable_of_iff ((∀ stack ∈ s.threads, ∀ f ∈ stack, f.asleep = true) ∧
    s.device (s.queue q).device = [] ∧ s.executing = [])
    ⟨fun h => ⟨h.1, h.2.1, h.2.2⟩, fun h => ⟨h.1, h.2, h.3⟩⟩

/-- An event is queued, and all events of its wait list have ended. -/
def Ready (c : Core) (e : ℕ) : Prop :=
  (c.event e).status = queued ∧ ∀ w ∈ (c.event e).waitList, (c.event w).status ≤ complete

instance (c : Core) (e : ℕ) : Decidable (Ready c e) := inferInstanceAs (Decidable (_ ∧ _))

/-- The events of a list that have not ended. -/
def unfinished (event : ℕ → Event) (es : List ℕ) : ℕ :=
  es.countP fun e => decide (complete < (event e).status)

/-- What keeps a traversal from an event: a marker, a barrier or a `WaitForEvents` event before it that has
not ended; another event that has not ended, if events are taken in order or if it is a barrier itself; or
as many of them as a traversal goes past. -/
def HeldBack (c : Core) (q : ℕ) (before : List ℕ) (e : ℕ) : Prop :=
  (∃ b ∈ before, (c.event b).kind.holdsBack = true ∧ complete < (c.event b).status) ∨
  ((c.queue q).outOfOrder = false ∨ (c.event e).kind = .barrier ∧ complete < (c.event e).status) ∧
    2 ≤ unfinished c.event (before ++ [e]) ∨
  pushEventsThreshold + 2 ≤ unfinished c.event (before ++ [e])

/-- One more event that has not ended. -/
lemma unfinished_cons {event : ℕ → Event} {b : ℕ} (es : List ℕ) (hb : complete < (event b).status) :
    unfinished event (b :: es) = unfinished event es + 1 := by
  rw [unfinished, List.countP_cons, if_pos (decide_eq_true hb)]
  rfl

/-- What a settled list says of an event that has ended, or that is queued with nothing left to wait for. -/
lemma Settled.heldBack {event : ℕ → Event} {outOfOrder first : Bool} {traversed e : ℕ}
    {before after : List ℕ} (h : Settled event outOfOrder first traversed (before ++ e :: after))
    (he : (event e).status ≤ complete ∨ (event e).status = queued ∧ (event e).waitEvents = []) :
    (∃ b ∈ before, (event b).kind.holdsBack = true ∧ complete < (event b).status) ∨
    (outOfOrder = false ∨ (event e).kind = .barrier ∧ complete < (event e).status) ∧
      (if first = true then 2 else 1) ≤ unfinished event (before ++ [e]) ∨
    pushEventsThreshold + 2 ≤ traversed + unfinished event (before ++ [e]) := by
  induction before generalizing first traversed with
  | nil =>
    obtain ⟨hlt, halt⟩ := h
    obtain ⟨hqueued, hnil⟩ := he.resolve_left (not_le.mpr hlt)
    have hone : unfinished event ([] ++ [e]) = 1 := unfinished_cons [] hlt
    rw [hone]
    rcases halt with hcut | ⟨hor, rfl⟩ | ⟨hne, -⟩ | ⟨-, hwait, -⟩
    · exact Or.inr (Or.inr (by omega))
    · exact Or.inr (Or.inl ⟨hor.imp_right fun hk => ⟨hk, hlt⟩, le_rfl⟩)
    · exact absurd hqueued hne
    · exact absurd hnil hwait
  | cons b before ih =>
    obtain ⟨hlt, halt⟩ := h
    have hcons : unfinished event (b :: before ++ [e]) = unfinished event (before ++ [e]) + 1 :=
      unfinished_cons (before ++ [e]) hlt
    rw [hcons]
    have hrest : Settled event outOfOrder false (traversed + 1) (before ++ e :: after) →
        (∃ x ∈ b :: before, (event x).kind.holdsBack = true ∧ complete < (event x).status) ∨
        (outOfOrder = false ∨ (event e).kind = .barrier ∧ complete < (event e).status) ∧
          (if first = true then 2 else 1) ≤ unfinished event (before ++ [e]) + 1 ∨
        pushEventsThreshold + 2 ≤ traversed + (unfinished event (before ++ [e]) + 1) := by
      intro hset
      rcases ih hset with ⟨x, hx, hheld⟩ | ⟨hor, hcount⟩ | hcut
      · exact Or.inl ⟨x, List.mem_cons_of_mem b hx, hheld⟩
      · refine Or.inr (Or.inl ⟨hor, ?_⟩)
        rw [if_neg Bool.false_ne_true] at hcount
        split <;> omega
      · exact Or.inr (Or.inr (by omega))
    rcases halt with hcut | ⟨hor, rfl⟩ | ⟨-, hset⟩ | ⟨-, -, hk | hset⟩
    · exact Or.inr (Or.inr (by omega))
    · rcases hor with hin | hbar
      · exact Or.inr (Or.inl ⟨Or.inl hin, Nat.le_add_left 1 _⟩)
      · exact Or.inl ⟨b, List.mem_cons_self, by rw [hbar]; rfl, hlt⟩
    · exact hrest hset
    · exact Or.inl ⟨b, List.mem_cons_self, hk, hlt⟩
    · exact hrest hset

/-- A call that sleeps will not traverse a queue. -/
lemma AtRest.not_wakes {s : State} {q : ℕ} (h : AtRest s q) {f : Frame} (hf : Runs s.threads f) :
    ¬Wakes s.toCore q f := by
  obtain ⟨stack, hstack, hmem⟩ := hf
  have hasleep := h.asleep stack hstack f hmem
  cases f <;> simp_all [Frame.asleep, Wakes]

/-- Nothing is on the device of a queue at rest. -/
lemma AtRest.not_inFlight {s : State} {q : ℕ} (h : AtRest s q) (hv : Valid s) :
    ¬InFlight s.toCore q := by
  rintro ⟨e, hst, hk, hp, hended⟩
  have htoken := hv.devices.token e (hv.devices.started e hst).1
  have hpos := List.count_pos_iff.mpr hst
  have hwork : total (workerWeight e) s.threads = 0 := by
    by_contra hne
    obtain ⟨f, ⟨stack, hstack, hmem⟩, hw⟩ := exists_runs_of_total_pos (Nat.pos_of_ne_zero hne)
    have hasleep := h.asleep stack hstack f hmem
    cases f <;> simp_all [Frame.asleep, workerWeight]
  have hlist : deviceList s.toCore e = [] := by
    rw [deviceList, hp]
    exact h.device
  rw [starts, if_pos hk, places, hlist, h.executing, List.count_eq_zero_of_not_mem hended, hwork] at htoken
  simp only [List.count_nil] at htoken
  omega

/-- A queue at rest is settled. -/
lemma WakeOk.settled {s : State} {q : ℕ} (h : WakeOk s) (hrest : AtRest s q) :
    Settled s.event (s.queue q).outOfOrder true 0 (s.queue q).events := by
  rcases h.awake q with hsettled | hfly | ⟨f, hf, hw⟩
  · exact hsettled
  · exact absurd hfly (hrest.not_inFlight h.valid)
  · exact absurd hw (hrest.not_wakes hf)

/-- At rest an event that is still waited for has not ended. -/
lemma WakeOk.awaited {s : State} {q : ℕ} (h : WakeOk s) (hrest : AtRest s q) {d w : ℕ}
    (hd : d < s.numEvents) (hw : w ∈ (s.event d).waitEvents) : complete < (s.event w).status := by
  rcases h.waits.awaited d hd w hw with ⟨hlt, -⟩ | ⟨i, n, j, -, -, -, hrun⟩
  · exact hlt
  · exfalso
    rcases hrun with ⟨stack, hstack, hmem⟩ | ⟨pushed, stack, hstack, hmem⟩
    · exact absurd (hrest.asleep stack hstack _ hmem) (by simp [Frame.asleep])
    · exact absurd (hrest.asleep stack hstack _ hmem) (by simp [Frame.asleep])

/-- At rest an event that is ready has nothing left to wait for. -/
lemma WakeOk.waitEvents_eq_nil {s : State} {q e : ℕ} (h : WakeOk s) (hrest : AtRest s q)
    (he : e < s.numEvents) (hready : Ready s.toCore e) : (s.event e).waitEvents = [] := by
  rw [List.eq_nil_iff_forall_not_mem]
  intro w hw
  have hle := hready.2 w (h.waits.listed e he hw)
  exact absurd hle (not_le.mpr (h.awaited hrest he hw))

/-- At rest a ready event of a queue is in its list. -/
lemma WakeOk.mem_events {s : State} {q e : ℕ} (h : WakeOk s) (hrest : AtRest s q)
    (he : e ∈ s.queuedLog) (hp : (s.event e).parent = some q) (hready : Ready s.toCore e) :
    e ∈ (s.queue q).events := by
  rcases h.order.gone e he q hp with hin | hfin | ⟨hk, hst⟩
  · exact hin
  · exact absurd hready.1 (h.order.past e hfin).2
  · exfalso
    rcases h.ends e (Or.inr ⟨hst, (Kind.isInstantaneous_iff _).mp hk⟩) with hle | ⟨status, hrun⟩
    · rw [hready.1] at hle
      exact absurd hle (by decide)
    · exact hrest.not_wakes hrun hp

/-- Whenever nothing goes on, an event in the list of a queue that has ended or is ready is held back; every
event of the queue that is ready is in the list; and the first event of the list waits for an event that has
not ended. -/
theorem nothing_stuck {outOfOrder : ℕ → Bool} {device : ℕ → ℕ} {as : List Action} {s : State} {q : ℕ}
    (hrun : run step (init outOfOrder device) as = some s) (hrest : AtRest s q) :
    (∀ before e after, (s.queue q).events = before ++ e :: after →
      (s.event e).status ≤ complete ∨ Ready s.toCore e → HeldBack s.toCore q before e) ∧
    (∀ e ∈ s.queuedLog, (s.event e).parent = some q → Ready s.toCore e → e ∈ (s.queue q).events) ∧
    ∀ e ∈ (s.queue q).events.head?, complete < (s.event e).status ∧
      ∃ w ∈ (s.event e).waitList, complete < (s.event w).status := by
  have h := wakeOk_run hrun
  have hheld : ∀ before e after, (s.queue q).events = before ++ e :: after →
      (s.event e).status ≤ complete ∨ Ready s.toCore e → HeldBack s.toCore q before e := by
    intro before e after heq hor
    have hsettled := h.settled hrest
    have hlt := (h.valid.wellformed.queues.listed q e (by rw [heq]; simp)).1
    rw [heq] at hsettled
    have hcases := hsettled.heldBack (hor.imp_right fun hready =>
      ⟨hready.1, h.waitEvents_eq_nil hrest hlt hready⟩)
    rw [if_pos rfl, Nat.zero_add] at hcases
    exact hcases
  refine ⟨hheld, fun e he hp hready => h.mem_events hrest he hp hready, fun e he => ?_⟩
  obtain ⟨es, heq⟩ : ∃ es, (s.queue q).events = e :: es := by
    cases hev : (s.queue q).events with
    | nil => simp [hev] at he
    | cons x es => exact ⟨es, by simp_all⟩
  have hmem : e ∈ (s.queue q).events := by
    rw [heq]
    exact List.mem_cons_self
  have hnot : ¬((s.event e).status ≤ complete ∨ Ready s.toCore e) := by
    intro hor
    have hone : unfinished s.event ([] ++ [e]) ≤ 1 := List.countP_le_length
    rcases hheld [] e es heq hor with ⟨b, hb, -⟩ | ⟨-, htwo⟩ | hmany
    · cases hb
    · omega
    · exact absurd (hmany.trans hone) (by decide)
  rw [not_or, not_le] at hnot
  refine ⟨hnot.1, ?_⟩
  by_contra hno
  push Not at hno
  refine hnot.2 ⟨?_, hno⟩
  by_contra hne
  rcases h.wakes_of_running hmem hnot.1 hne with hfly | ⟨x, status, hp, hr⟩
  · exact hrest.not_inFlight h.valid hfly
  · exact hrest.not_wakes hr hp

/-- Three commands that wait for a user event each, the last of which fails. -/
def thirdFails : List Action :=
  [.createUserEvent, .createUserEvent, .createUserEvent] ++
    ([0, 1, 2].flatMap fun t => .enqueue 0 .command [t] false :: List.replicate 6 (.thread t)) ++
    .setUserEventStatus 2 (-1) :: List.replicate 6 (.thread 3)

/-- A command that waits for a user event, and a barrier that waits for nothing. -/
def secondBarrier : List Action :=
  .createUserEvent :: .enqueue 0 .command [0] false :: List.replicate 6 (.thread 0) ++
    .enqueue 0 .barrier [] false :: List.replicate 4 (.thread 1)

/-- Commands that wait for a user event, and one that waits for nothing. -/
def manyWait (n : ℕ) : List Action :=
  .createUserEvent ::
    ((List.range n).flatMap fun t => .enqueue 0 .command [0] false :: List.replicate 6 (.thread t)) ++
    .enqueue 0 .command [] false :: List.replicate 4 (.thread n)

/-- In the first run, on a queue in order, nothing goes on and a failed event is in the list; in the second
run a barrier that is ready, behind a command; in the third run a command that is ready, behind as many
others as a traversal goes past. -/
theorem not_nothing_stuck :
    (∃ s, run step (init (fun _ => false) fun _ => 0) thirdFails = some s ∧ AtRest s 0 ∧
      5 ∈ (s.queue 0).events ∧ (s.event 5).status = errorInWaitList) ∧
    (∃ s, run step (init (fun _ => true) fun _ => 0) secondBarrier = some s ∧ AtRest s 0 ∧
      (s.queue 0).events = [1, 2] ∧ (s.event 1).kind = .command ∧ Ready s.toCore 2) ∧
    ∃ s, run step (init (fun _ => true) fun _ => 0) (manyWait 65) = some s ∧ AtRest s 0 ∧
      66 ∈ (s.queue 0).events ∧ Ready s.toCore 66 ∧
      ∀ e ∈ (s.queue 0).events, (s.event e).kind = .command := by
  refine ⟨?_, ?_, ?_⟩
  · have hsome : (run step (init (fun _ => false) fun _ => 0) thirdFails).map (fun s =>
        decide (AtRest s 0 ∧ 5 ∈ (s.queue 0).events ∧ (s.event 5).status = errorInWaitList)) =
          some true := by
      decide +kernel
    obtain ⟨s, hs, hdec⟩ := Option.map_eq_some_iff.mp hsome
    exact ⟨s, hs, of_decide_eq_true hdec⟩
  · have hsome : (run step (init (fun _ => true) fun _ => 0) secondBarrier).map (fun s =>
        decide (AtRest s 0 ∧ (s.queue 0).events = [1, 2] ∧ (s.event 1).kind = .command ∧
          Ready s.toCore 2)) = some true := by
      decide +kernel
    obtain ⟨s, hs, hdec⟩ := Option.map_eq_some_iff.mp hsome
    exact ⟨s, hs, of_decide_eq_true hdec⟩
  · have hsome : (run step (init (fun _ => true) fun _ => 0) (manyWait 65)).map (fun s =>
        decide (AtRest s 0 ∧ 66 ∈ (s.queue 0).events ∧ Ready s.toCore 66 ∧
          ∀ e ∈ (s.queue 0).events, (s.event e).kind = .command)) = some true := by
      decide +kernel
    obtain ⟨s, hs, hdec⟩ := Option.map_eq_some_iff.mp hsome
    exact ⟨s, hs, of_decide_eq_true hdec⟩

/-- After the first run the failed event is held back, and the first event waits for a user event. -/
theorem nothing_stuck_thirdFails :
    ∃ s, run step (init (fun _ => false) fun _ => 0) thirdFails = some s ∧ AtRest s 0 ∧
      HeldBack s.toCore 0 [3, 4] 5 ∧ ∃ w ∈ (s.event 3).waitList, complete < (s.event w).status := by
  have hsome : (run step (init (fun _ => false) fun _ => 0) thirdFails).map (fun s =>
      decide (AtRest s 0 ∧ (s.queue 0).events = [3, 4] ++ 5 :: [] ∧ (s.event 5).status ≤ complete)) =
        some true := by
    decide +kernel
  obtain ⟨s, hs, hdec⟩ := Option.map_eq_some_iff.mp hsome
  obtain ⟨hrest, hevents, hend⟩ := of_decide_eq_true hdec
  obtain ⟨hheld, -, hfirst⟩ := nothing_stuck hs hrest
  exact ⟨s, hs, hrest, hheld [3, 4] 5 [] hevents (Or.inl hend), (hfirst 3 (by rw [hevents]; rfl)).2⟩

end TiOpenCL.CommandQueue
