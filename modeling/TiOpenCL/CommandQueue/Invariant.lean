import TiOpenCL.CommandQueue.Steps

/-!
# What holds of the queues in every state

`Wellformed` collects what every step keeps, whatever the threads do: the events that the lists and
the frames name exist, an event is appended to its queue once, and every event of a wait list has
finished, is still waited for or is yet to be registered.
-/

namespace TiOpenCL.CommandQueue

open Machine

/-- The events that a frame names exist and are as far as the frame supposes. -/
def FrameOk (c : Core) : Frame → Prop
  | .check _ kind waitList rest _ =>
    kind ≠ .user ∧ (∀ w ∈ waitList, w < c.numEvents) ∧ rest ⊆ waitList
  | .construct e _ _ => e < c.numEvents ∧ (c.event e).parent.isSome
  | .queueEvent e _ => e < c.numEvents ∧ (c.event e).built = true ∧ (c.event e).parent.isSome
  | .setStatus e status => e < c.numEvents ∧ status ≤ complete
  | .notify e _ n _ | .fail e _ n =>
    e < c.numEvents ∧ e ∈ c.finished ∧ n ≤ (c.event e).dependents.length
  | .push _ ready _ => ∀ d, ready = some d → d < c.numEvents
  | .begin e | .execute e | .release e | .wait e => e < c.numEvents
  | .clean _ | .waitEmpty _ => True

/-- A frame stays all right. -/
lemma FrameOk.mono {c c' : Core} {f : Frame} (h : FrameOk c f) (hle : c.Le c') : FrameOk c' f := by
  cases f with
  | check => exact ⟨h.1, fun w hw => (h.2.1 w hw).trans_le hle.num, h.2.2⟩
  | construct e => exact ⟨h.1.trans_le hle.num, by rw [hle.parent e h.1]; exact h.2⟩
  | queueEvent e =>
    exact ⟨h.1.trans_le hle.num, hle.built e h.1 h.2.1, by rw [hle.parent e h.1]; exact h.2.2⟩
  | setStatus e => exact ⟨h.1.trans_le hle.num, h.2⟩
  | notify e | fail e =>
    exact ⟨h.1.trans_le hle.num, hle.finished h.2.1,
      h.2.2.trans (hle.dependents e h.1).length_le⟩
  | push => exact fun d hd => (h d hd).trans_le hle.num
  | begin | execute | release | wait => exact Nat.lt_of_lt_of_le h hle.num
  | clean | waitEmpty => trivial

/-- What holds of the events by themselves. -/
structure EventsOk (c : Core) : Prop where
  waitList : ∀ e < c.numEvents, ∀ w ∈ (c.event e).waitList, w < c.numEvents
  unregistered : ∀ e < c.numEvents, (c.event e).unregistered ⊆ (c.event e).waitList
  dependents : ∀ e < c.numEvents, ∀ d ∈ (c.event e).dependents, d < c.numEvents
  built : ∀ e < c.numEvents, (c.event e).built = true → (c.event e).unregistered = []
  user : ∀ e < c.numEvents, (c.event e).kind = .user ↔ (c.event e).parent = none
  reached : ∀ e < c.numEvents, (c.event e).status ≤ complete → e ∈ c.finished
  waits : ∀ e < c.numEvents, ∀ w ∈ (c.event e).waitList,
    w ∈ c.finished ∨ w ∈ (c.event e).waitEvents ∨ w ∈ (c.event e).unregistered

/-- What a critical section may do to an event that exists. -/
structure EventKept (c c' : Core) (e : ℕ) : Prop where
  kind : (c'.event e).kind = (c.event e).kind
  parent : (c'.event e).parent = (c.event e).parent
  waitList : (c'.event e).waitList = (c.event e).waitList
  unregistered : (c'.event e).unregistered ⊆ (c.event e).unregistered
  dependents : ∀ d ∈ (c'.event e).dependents, d ∈ (c.event e).dependents ∨ d < c.numEvents
  built : (c'.event e).built = true → (c'.event e).unregistered = []
  reached : (c'.event e).status ≤ complete → e ∈ c'.finished
  waits : ∀ w ∈ (c.event e).waitList,
    w ∈ c'.finished ∨ w ∈ (c'.event e).waitEvents ∨ w ∈ (c'.event e).unregistered

/-- An event that stays as it is. -/
lemma EventsOk.eventKept {c c' : Core} {e : ℕ} (h : EventsOk c) (he : e < c.numEvents)
    (hev : c'.event e = c.event e) (hfin : c.finished ⊆ c'.finished) : EventKept c c' e where
  kind := by rw [hev]
  parent := by rw [hev]
  waitList := by rw [hev]
  unregistered := by rw [hev]; exact List.Subset.refl _
  dependents d hd := by rw [hev] at hd; exact Or.inl hd
  built hb := by rw [hev] at hb ⊢; exact h.built e he hb
  reached hs := by rw [hev] at hs; exact hfin (h.reached e he hs)
  waits w hw := by rw [hev]; exact (h.waits e he w hw).imp_left fun hmem => hfin hmem

/-- The events are in order if no event was changed in another way. -/
lemma EventsOk.of_kept {c c' : Core} (h : EventsOk c) (hnum : c'.numEvents = c.numEvents)
    (hk : ∀ e < c.numEvents, EventKept c c' e) : EventsOk c' := by
  constructor
  all_goals rw [hnum]
  · intro e he w hw
    rw [(hk e he).waitList] at hw
    exact h.waitList e he w hw
  · intro e he
    rw [(hk e he).waitList]
    exact List.Subset.trans (hk e he).unregistered (h.unregistered e he)
  · intro e he d hd
    rcases (hk e he).dependents d hd with hold | hlt
    · exact h.dependents e he d hold
    · exact hlt
  · exact fun e he => (hk e he).built
  · intro e he
    rw [(hk e he).kind, (hk e he).parent]
    exact h.user e he
  · exact fun e he => (hk e he).reached
  · intro e he w hw
    rw [(hk e he).waitList] at hw
    exact (hk e he).waits w hw

/-- The events are in order if one event was changed, and that in the allowed way. -/
lemma EventsOk.setEvent {c c' : Core} {e : ℕ} (h : EventsOk c) (hnum : c'.numEvents = c.numEvents)
    (hev : ∀ e', e' ≠ e → c'.event e' = c.event e') (hfin : c.finished ⊆ c'.finished)
    (hk : EventKept c c' e) : EventsOk c' := by
  refine h.of_kept hnum fun e' he' => ?_
  by_cases heq : e' = e
  · rw [heq]
    exact hk
  · exact h.eventKept he' (hev e' heq) hfin

/-- A status is set, and the event counts as finished if it is `Complete` or an error. -/
lemma EventsOk.setStatusHelper {c : Core} {e : ℕ} {status : ℤ} (h : EventsOk c)
    (he : e < c.numEvents) : EventsOk (CommandQueue.setStatusHelper c e status) := by
  have hfin : c.finished ⊆ (CommandQueue.setStatusHelper c e status).finished := by
    simp only [CommandQueue.setStatusHelper]
    split
    · exact List.subset_cons_self _ _
    · exact List.Subset.refl _
  have hself : (CommandQueue.setStatusHelper c e status).event e =
      { c.event e with status := status } := by
    simp [CommandQueue.setStatusHelper, Core.setEvent]
  refine h.setEvent rfl (fun e' hne => Function.update_of_ne hne _ _) hfin ?_
  constructor
  case reached =>
    intro hs
    rw [hself] at hs
    rw [CommandQueue.setStatusHelper, if_pos hs]
    exact List.mem_cons_self
  all_goals rw [hself]
  · exact List.Subset.refl _
  · exact fun d hd => Or.inl hd
  · exact h.built e he
  · exact fun w hw => (h.waits e he w hw).imp_left fun hmem => hfin hmem

/-- A finished event is no longer waited for. -/
lemma EventsOk.removeWaitEvent {c : Core} {d w : ℕ} (h : EventsOk c) (hd : d < c.numEvents)
    (hw : w ∈ c.finished) : EventsOk (CommandQueue.removeWaitEvent c d w) := by
  refine h.setEvent rfl (fun e' hne => Function.update_of_ne hne _ _) (List.Subset.refl _) ?_
  constructor
  all_goals rw [removeWaitEvent_event_self]
  · exact List.Subset.refl _
  · exact fun d' hd' => Or.inl hd'
  · exact h.built d hd
  · exact h.reached d hd
  · intro v hv
    rcases h.waits d hd v hv with hfin | hwait | hun
    · exact Or.inl hfin
    · by_cases hvw : v = w
      · rw [hvw]
        exact Or.inl hw
      · exact Or.inr (Or.inl (List.mem_filter.mpr ⟨hwait, decide_eq_true hvw⟩))
    · exact Or.inr (Or.inr hun)

/-- The constructor passes over an event that has finished. -/
lemma EventsOk.nextWait {c : Core} {e w : ℕ} {ws : List ℕ} (h : EventsOk c) (he : e < c.numEvents)
    (hun : (c.event e).unregistered = w :: ws) (hw : w ∈ c.finished) :
    EventsOk (CommandQueue.nextWait c e) := by
  have hself : (CommandQueue.nextWait c e).event e = { c.event e with unregistered := ws } := by
    simp [CommandQueue.nextWait, Core.setEvent, hun]
  refine h.setEvent rfl (fun e' hne => Function.update_of_ne hne _ _) (List.Subset.refl _) ?_
  constructor
  all_goals rw [hself]
  · rw [hun]
    exact List.subset_cons_self _ _
  · exact fun d' hd' => Or.inl hd'
  · intro hb
    rw [h.built e he hb] at hun
    cases hun
  · exact h.reached e he
  · intro v hv
    rcases h.waits e he v hv with hfin | hwait | hun'
    · exact Or.inl hfin
    · exact Or.inr (Or.inl hwait)
    · rw [hun] at hun'
      rcases List.mem_cons.mp hun' with rfl | hrest
      · exact Or.inl hw
      · exact Or.inr (Or.inr hrest)

/-- The events after the constructor has registered one with an event of its wait list. -/
lemma addDependentEvent_nextWait_event (c : Core) (w e x : ℕ) :
    (addDependentEvent (CommandQueue.nextWait c e) w e).event x =
      { c.event x with
        unregistered := if x = e then (c.event x).unregistered.tail else (c.event x).unregistered
        dependents := if x = w then (c.event x).dependents ++ [e] else (c.event x).dependents
        waitEvents := if x = e then (c.event x).waitEvents ++ [w] else (c.event x).waitEvents } := by
  simp only [addDependentEvent, CommandQueue.nextWait, Core.setEvent, Function.update_apply]
  by_cases hxe : x = e
  · subst hxe
    by_cases hxw : x = w
    · simp [hxw]
    · simp [hxw]
  · by_cases hxw : x = w
    · subst hxw
      simp [hxe]
    · simp [hxe, hxw]

/-- The constructor registers the event with one of its wait list. -/
lemma EventsOk.addDependentEvent {c : Core} {e w : ℕ} {ws : List ℕ} (h : EventsOk c)
    (he : e < c.numEvents) (hun : (c.event e).unregistered = w :: ws) :
    EventsOk (CommandQueue.addDependentEvent (CommandQueue.nextWait c e) w e) := by
  refine h.of_kept rfl fun x hx => ?_
  constructor
  all_goals rw [addDependentEvent_nextWait_event]
  · dsimp only
    split_ifs
    · exact (List.tail_sublist _).subset
    · exact List.Subset.refl _
  · intro d hd
    dsimp only at hd
    split_ifs at hd
    · rcases List.mem_append.mp hd with hold | hnew
      · exact Or.inl hold
      · rw [List.mem_singleton] at hnew
        rw [hnew]
        exact Or.inr he
    · exact Or.inl hd
  · intro hb
    have hnil := h.built x hx hb
    dsimp only
    rw [hnil, List.tail_nil, ite_self]
  · exact h.reached x hx
  · intro v hv
    rcases h.waits x hx v hv with hfin | hwait | hun'
    · exact Or.inl hfin
    · refine Or.inr (Or.inl ?_)
      dsimp only
      split_ifs
      · exact List.mem_append_left _ hwait
      · exact hwait
    · right
      dsimp only
      by_cases hxe : x = e
      · subst hxe
        rw [hun] at hun' ⊢
        rw [if_pos rfl, if_pos rfl]
        rcases List.mem_cons.mp hun' with rfl | hrest
        · exact Or.inl (List.mem_append_right _ (List.mem_singleton_self v))
        · exact Or.inr hrest
      · rw [if_neg hxe, if_neg hxe]
        exact Or.inr hun'

/-- A new event. -/
lemma EventsOk.newEvent {c : Core} {kind : Kind} {parent : Option ℕ} {waitList : List ℕ} {status : ℤ}
    {built : Bool} (h : EventsOk c) (hw : ∀ w ∈ waitList, w < c.numEvents)
    (hb : built = true → waitList = []) (huser : kind = .user ↔ parent = none)
    (hs : complete < status) :
    EventsOk (CommandQueue.newEvent c kind parent waitList status built) := by
  have hnew : (CommandQueue.newEvent c kind parent waitList status built).event c.numEvents =
      ⟨kind, parent, waitList, waitList, status, [], [], built⟩ := Function.update_self _ _ _
  have hold : ∀ e < c.numEvents,
      (CommandQueue.newEvent c kind parent waitList status built).event e = c.event e :=
    fun e he => Function.update_of_ne (Nat.ne_of_lt he) _ _
  have hcase : ∀ e, e < (CommandQueue.newEvent c kind parent waitList status built).numEvents →
      e < c.numEvents ∨ e = c.numEvents := fun e he => Nat.lt_or_eq_of_le (Nat.lt_succ_iff.mp he)
  have hlt : ∀ {e}, e < c.numEvents →
      e < (CommandQueue.newEvent c kind parent waitList status built).numEvents :=
    fun he => Nat.lt_succ_of_lt he
  constructor
  all_goals
    intro e he
    rcases hcase e he with hlt' | rfl
  · rw [hold e hlt']
    exact fun w hw => hlt (h.waitList e hlt' w hw)
  · rw [hnew]
    exact fun w hw' => hlt (hw w hw')
  · rw [hold e hlt']
    exact h.unregistered e hlt'
  · rw [hnew]
    exact List.Subset.refl _
  · rw [hold e hlt']
    exact fun d hd => hlt (h.dependents e hlt' d hd)
  · rw [hnew]
    exact fun d hd => by cases hd
  · rw [hold e hlt']
    exact h.built e hlt'
  · rw [hnew]
    exact hb
  · rw [hold e hlt']
    exact h.user e hlt'
  · rw [hnew]
    exact huser
  · rw [hold e hlt']
    exact h.reached e hlt'
  · rw [hnew]
    exact fun hle => absurd hle (not_le.mpr hs)
  · rw [hold e hlt']
    exact h.waits e hlt'
  · rw [hnew]
    exact fun w hw' => Or.inr (Or.inr hw')

/-- What a traversal pushes is submitted. -/
lemma EventsOk.applyScan {c : Core} {q : ℕ} {x : Queue} {sc : Scan} (h : EventsOk c) :
    EventsOk (c.applyScan q x sc) := by
  refine h.of_kept rfl fun e he => ?_
  by_cases hp : e ∈ sc.pushed
  · have hself : (c.applyScan q x sc).event e = { c.event e with status := submitted } := if_pos hp
    constructor
    all_goals rw [hself]
    · exact List.Subset.refl _
    · exact fun d hd => Or.inl hd
    · exact h.built e he
    · exact fun hs => absurd hs (show ¬submitted ≤ complete by decide)
    · exact h.waits e he
  · exact h.eventKept he (if_neg hp) (List.Subset.refl _)

/-- Critical sections keep the events in order. -/
lemma EventsOk.effect {c c' : Core} {f : Frame} {fs : List Frame} (h : EventsOk c)
    (hf : FrameOk c f) (heff : Effect c f c' fs) : EventsOk c' := by
  cases heff
  case created =>
    refine h.newEvent hf.2.1 (fun hb => by cases hb) ?_ (by decide)
    exact ⟨fun hk => absurd hk hf.1, fun hn => by cases hn⟩
  case skipped e w ws _ _ he hw =>
    have hwait := h.unregistered e hf.1 (he ▸ List.mem_cons_self)
    exact h.nextWait hf.1 he (h.reached w (h.waitList e hf.1 w hwait) hw.le)
  case noticed e w ws _ _ he hw =>
    have hwait := h.unregistered e hf.1 (he ▸ List.mem_cons_self)
    exact h.nextWait hf.1 he (h.reached w (h.waitList e hf.1 w hwait) (le_of_lt hw))
  case registered he _ => exact h.addDependentEvent hf.1 he
  case built e _ _ he =>
    refine h.setEvent rfl (fun e' hne => Function.update_of_ne hne _ _) (List.Subset.refl _) ?_
    have hself : (c.setEvent e { c.event e with built := true }).event e =
        { c.event e with built := true } := Function.update_self _ _ _
    constructor
    all_goals rw [hself]
    · exact List.Subset.refl _
    · exact fun d hd => Or.inl hd
    · exact fun _ => he
    · exact h.reached e hf.1
    · exact h.waits e hf.1
  case completed | failed | set => exact h.setStatusHelper hf.1
  case began => exact h.setStatusHelper hf
  case notifiedReady e _ _ d _ _ _ hd _ _ _ | notified e _ _ d _ _ hd _ _ | propagated e _ _ d _ hd _ =>
    exact h.removeWaitEvent (h.dependents e hf.1 d (List.mem_of_getElem? hd)) hf.2.1
  case pushed | took => exact h.applyScan
  case cleaned =>
    rw [cleanEvents]
    split
    · exact h
    · exact ⟨h.1, h.2, h.3, h.4, h.5, h.6, h.7⟩
  case appended | throttled | executed => exact ⟨h.1, h.2, h.3, h.4, h.5, h.6, h.7⟩
  all_goals exact h

/-- The frames that a critical section leaves are all right. -/
lemma Effect.frameOk {c c' : Core} {f : Frame} {fs : List Frame} (heff : Effect c f c' fs)
    (h : EventsOk c) (hl : ∀ q, ∀ e ∈ (c.queue q).events, e < c.numEvents) (hf : FrameOk c f) :
    ∀ g ∈ fs, FrameOk c' g := by
  have hle := heff.le
  intro g hg
  cases heff
  case rejected | throttled | pushed | cleaned | released | executed | emptied | set | notifiedUser |
      propagatedUser => cases hg
  case checked =>
    rw [List.mem_singleton] at hg
    subst hg
    exact ⟨hf.1, hf.2.1, fun x hx => hf.2.2 (List.mem_cons_of_mem _ hx)⟩
  case created =>
    rw [List.mem_singleton] at hg
    subst hg
    simp [FrameOk, newEvent, Core.setEvent]
  case skipped | noticed | registered =>
    rw [List.mem_singleton] at hg
    subst hg
    exact FrameOk.mono (f := .construct _ _ _) hf hle
  case built e failed blocking he =>
    have hpar := hle.parent e hf.1
    have hnum : e < (c.setEvent e { c.event e with built := true }).numEvents := hf.1
    rcases List.mem_append.mp hg with hset | htail
    · have hset : g = .setStatus e errorInWaitList := by grind
      subst hset
      exact ⟨hnum, by decide⟩
    · rw [List.mem_singleton] at htail
      subst htail
      exact ⟨hnum, by simp [Core.setEvent], by rw [hpar]; exact hf.2⟩
  case appended e q blocking hq =>
    rcases List.mem_cons.mp hg with rfl | hwait
    · intro d hd
      cases hd
    · obtain rfl : g = .wait e := by grind
      exact hf.1
  case completed =>
    rw [List.mem_singleton] at hg
    subst hg
    exact ⟨hf.1, by simp [setStatusHelper], (hle.dependents _ hf.1).length_le⟩
  case failed status hs =>
    rw [List.mem_singleton] at hg
    subst hg
    exact ⟨hf.1, by simp [setStatusHelper, hf.2], (hle.dependents _ hf.1).length_le⟩
  case notifiedReady e i n d q pushed hi hd _ _ _ =>
    have hdnum := h.dependents e hf.1 d (List.mem_of_getElem? hd)
    rcases List.mem_append.mp hg with hrel | htail
    · obtain rfl : g = .release e := by grind [releaseFrames]
      exact hf.1
    · rcases List.mem_pair.mp htail with rfl | rfl
      · exact fun d' hd' => by cases hd'; exact hdnum
      · exact FrameOk.mono (f := .notify e (i + 1) n _) hf hle
  case notified e i n d pushed hi hd _ _ =>
    rcases List.mem_append.mp hg with hrel | htail
    · obtain rfl : g = .release e := by grind [releaseFrames]
      exact hf.1
    · rw [List.mem_singleton] at htail
      subst htail
      exact FrameOk.mono (f := .notify e (i + 1) n _) hf hle
  case propagated e i n d hi hd _ =>
    have hdnum := h.dependents e hf.1 d (List.mem_of_getElem? hd)
    rcases List.mem_append.mp hg with hrel | htail
    · obtain rfl : g = .release e := by grind [releaseFrames]
      exact hf.1
    · rcases List.mem_pair.mp htail with rfl | rfl
      · exact ⟨hdnum, by decide⟩
      · exact FrameOk.mono (f := .fail e (i + 1) n) hf hle
  case notifiedAll | propagatedAll => grind [FrameOk]
  case took q e ready oneCompleted ht hs =>
    have hmem : e ∈ (c.queue q).events :=
      (mem_started_scan (List.mem_append.mpr (Or.inr (by rw [← Core.scan, hs]; simp)))).1
    have he := hl q e hmem
    grind [FrameOk, Core.applyScan]
  case began =>
    rw [List.mem_singleton] at hg
    subst hg
    exact hf
  case waited =>
    rw [List.mem_singleton] at hg
    subst hg
    exact hf

/-! ### The lists of the queues -/

/-- The calls that will append an event to its queue. -/
def entryWeight (e : ℕ) : Frame → ℕ
  | .construct e' _ _ | .queueEvent e' _ => if e' = e then 1 else 0
  | _ => 0

/-- What holds of the lists of the queues. -/
structure QueuesOk (s : State) : Prop where
  listed : ∀ q, ∀ e ∈ (s.queue q).events,
    e < s.numEvents ∧ (s.event e).built = true ∧ (s.event e).parent = some q ∧ e ∈ s.queuedLog
  nodup : ∀ q, (s.queue q).events.Nodup
  once : ∀ e, total (entryWeight e) s.threads + s.queuedLog.count e ≤ 1
  fresh : ∀ e, s.numEvents ≤ e → total (entryWeight e) s.threads + s.queuedLog.count e = 0

/-- A critical section passes the right to append an event on; a new one comes with a new event. -/
lemma Effect.entries {c c' : Core} {f : Frame} {fs : List Frame} (h : Effect c f c' fs) (e : ℕ) :
    (fs.map (entryWeight e)).sum + c'.queuedLog.count e ≤
      entryWeight e f + c.queuedLog.count e +
        if e = c.numEvents then c'.numEvents - c.numEvents else 0 := by
  cases h
  case created => grind [entryWeight, newEvent, Core.setEvent]
  case built failed blocking _ => cases failed <;> simp [entryWeight, Core.setEvent]
  case appended => grind [entryWeight, Core.setQueue]
  case notifiedReady | notified | propagated =>
    simp only [releaseFrames, removeWaitEvent, Core.setEvent]
    split <;> simp [entryWeight]
  case notifiedAll pushed _ _ => cases pushed <;> simp [entryWeight]
  case cleaned =>
    rw [cleanEvents]
    split <;> simp [entryWeight, Core.setQueue]
  all_goals
    simp [entryWeight, nextWait, addDependentEvent, setStatusHelper, Core.applyScan, Core.setEvent,
      Core.setQueue]

/-- The list of a queue after a critical section: a part of the one before, or one with the event
that is appended. -/
lemma Effect.events {c c' : Core} {f : Frame} {fs : List Frame} (h : Effect c f c' fs) (q : ℕ) :
    (c'.queue q).events.Sublist (c.queue q).events ∨
      ∃ e blocking, f = .queueEvent e blocking ∧ (c.event e).parent = some q ∧
        (c'.queue q).events = (c.queue q).events ++ [e] ∧ c'.queuedLog = c.queuedLog ++ [e] := by
  cases h
  case appended e q' blocking hq =>
    by_cases hqq : q = q'
    · subst hqq
      exact Or.inr ⟨e, blocking, rfl, hq, by simp [Core.setQueue], rfl⟩
    · exact Or.inl (by simp [Core.setQueue, hqq])
  case throttled q' ready oneCompleted _ =>
    refine Or.inl ?_
    by_cases hqq : q = q'
    · subst hqq
      cases oneCompleted <;> simp [Core.setQueue, Queue.count]
    · simp [Core.setQueue, hqq]
  case pushed q' ready oneCompleted _ _ | took q' _ ready oneCompleted _ _ =>
    refine Or.inl ?_
    by_cases hqq : q = q'
    · subst hqq
      simp only [Core.applyScan, Function.update_self, Core.scan]
      exact kept_sublist_scan _ _ _ _ _ _
    · simp [Core.applyScan, hqq]
  case cleaned q' =>
    refine Or.inl ?_
    rw [cleanEvents]
    split
    · exact List.Sublist.refl _
    · by_cases hqq : q = q'
      · subst hqq
        simp only [Core.setQueue, Function.update_self]
        exact cleanLoop_sublist _ _ _
      · simp [Core.setQueue, hqq]
  all_goals exact Or.inl (List.Sublist.refl _)

/-- What holds in every state. -/
structure Wellformed (s : State) : Prop where
  events : EventsOk s.toCore
  queues : QueuesOk s
  frames : ∀ f, Runs s.threads f → FrameOk s.toCore f

/-- An event that is about to be appended is in no list. -/
lemma QueuesOk.not_mem_queuedLog {s : State} (h : QueuesOk s) {e : ℕ} {f : Frame}
    (hf : Runs s.threads f) (hw : entryWeight e f = 1) : e ∉ s.queuedLog := by
  intro hmem
  have hcount := List.count_pos_iff.mpr hmem
  have hle := hf.weight_le (entryWeight e)
  have honce := h.once e
  omega

/-- A step of a thread keeps the lists in order. -/
lemma QueuesOk.thread {s : State} {c : Core} {f : Frame} {rest fs : List Frame} {t : ℕ}
    (h : QueuesOk s) (hf : FrameOk s.toCore f) (ht : s.threads[t]? = some (f :: rest))
    (heff : Effect s.toCore f c fs) : QueuesOk ⟨c, advance s.threads t fs⟩ := by
  have hle := heff.le
  have hcount : ∀ e, total (entryWeight e) (advance s.threads t fs) + c.queuedLog.count e ≤
      total (entryWeight e) s.threads + s.queuedLog.count e +
        if e = s.numEvents then c.numEvents - s.numEvents else 0 := by
    intro e
    have htot := total_advance (entryWeight e) fs ht
    have hent := heff.entries e
    omega
  have hnum : c.numEvents ≤ s.numEvents + 1 := by
    cases heff <;> grind [newEvent, nextWait, addDependentEvent, setStatusHelper, removeWaitEvent,
      Core.applyScan, Core.setEvent, Core.setQueue, cleanEvents]
  constructor
  · intro q e he
    have hold : e ∈ (s.queue q).events → e < c.numEvents ∧ (c.event e).built = true ∧
        (c.event e).parent = some q ∧ e ∈ c.queuedLog := by
      intro hmem
      obtain ⟨hlt, hb, hp, hlog⟩ := h.listed q e hmem
      exact ⟨hlt.trans_le hle.num, hle.built e hlt hb, (hle.parent e hlt).trans hp,
        hle.queuedLog.subset hlog⟩
    rcases heff.events q with hsub | ⟨e', blocking, rfl, hp, hev, hlog⟩
    · exact hold (hsub.subset he)
    · rw [hev] at he
      rcases List.mem_append.mp he with hmem | hnew
      · exact hold hmem
      · rw [List.mem_singleton] at hnew
        subst hnew
        exact ⟨hf.1.trans_le hle.num, hle.built e hf.1 hf.2.1, (hle.parent e hf.1).trans hp,
          by rw [hlog]; simp⟩
  · intro q
    rcases heff.events q with hsub | ⟨e', blocking, rfl, hp, hev, hlog⟩
    · exact (h.nodup q).sublist hsub
    · have hnot := h.not_mem_queuedLog (e := e') (next_of_getElem? ht).runs (by simp [entryWeight])
      rw [hev, List.nodup_append]
      refine ⟨h.nodup q, List.nodup_singleton _, fun x hx y hy => ?_⟩
      rw [List.mem_singleton] at hy
      subst hy
      rintro rfl
      exact hnot (h.listed q x hx).2.2.2
  · intro e
    have hc := hcount e
    have honce := h.once e
    have hfresh := h.fresh e
    by_cases he : e = s.numEvents
    · have := hfresh he.ge
      rw [if_pos he] at hc
      exact hc.trans (by omega)
    · rw [if_neg he] at hc
      exact hc.trans (by omega)
  · intro e he
    have hc := hcount e
    have hfresh := h.fresh e (hle.num.trans he)
    by_cases heq : e = s.numEvents
    · rw [if_pos heq] at hc
      have hnew : c.numEvents ≤ e := he
      exact Nat.le_zero.mp (hc.trans (by omega))
    · rw [if_neg heq] at hc
      exact Nat.le_zero.mp (hc.trans (by omega))

/-- A new thread whose frames append nothing keeps the lists in order. -/
lemma QueuesOk.spawn {s : State} {c : Core} {frames : List Frame} (h : QueuesOk s)
    (hw : ∀ e, (frames.map (entryWeight e)).sum = 0) (hq : c.queue = s.queue)
    (hlog : c.queuedLog = s.queuedLog) (hle : s.Le c) :
    QueuesOk (State.spawn ⟨c, s.threads⟩ frames) := by
  constructor
  · intro q e he
    rw [State.spawn] at he
    simp only [hq] at he
    obtain ⟨hlt, hb, hp, hmem⟩ := h.listed q e he
    exact ⟨hlt.trans_le hle.num, hle.built e hlt hb, (hle.parent e hlt).trans hp,
      hle.queuedLog.subset hmem⟩
  · intro q
    simp only [State.spawn, hq]
    exact h.nodup q
  · intro e
    simp only [State.spawn, hlog, total_append, hw e]
    exact h.once e
  · intro e he
    simp only [State.spawn, hlog, total_append, hw e]
    exact h.fresh e (hle.num.trans he)

/-- A new event keeps the events in order. -/
lemma EventsOk.newUser {c : Core} (h : EventsOk c) :
    EventsOk (CommandQueue.newEvent c .user none [] submitted true) :=
  h.newEvent (fun w hw => by cases hw) (fun _ => rfl) (by simp) (by decide)

/-- A new thread with frames that are all right, after a change of the core that does not concern
the events and the lists. -/
lemma Wellformed.spawn {s : State} {c : Core} {frames : List Frame} (h : Wellformed s)
    (hev : EventsOk c) (hw : ∀ e, (frames.map (entryWeight e)).sum = 0)
    (hq : c.queue = s.queue) (hlog : c.queuedLog = s.queuedLog) (hle : s.Le c)
    (hframes : ∀ f ∈ frames, FrameOk c f) : Wellformed (State.spawn ⟨c, s.threads⟩ frames) where
  events := hev
  queues := h.queues.spawn hw hq hlog hle
  frames f hf := by
    rcases runs_append hf with hnew | hold
    · exact hframes f hnew
    · exact (h.frames f hold).mono hle

/-- Every step keeps the state well formed. -/
theorem Wellformed.move {s s' : State} {a : Action} (h : Wellformed s)
    (hdev : ∀ dev, ∀ e ∈ s.device dev, e < s.numEvents) (hexec : ∀ e ∈ s.executing, e < s.numEvents)
    (hm : Move s a s') : Wellformed s' := by
  cases hm with
  | createUserEvent =>
    have hle := Core.le_newEvent s.toCore .user none [] submitted true
    refine ⟨h.events.newUser, ⟨?_, h.queues.nodup, h.queues.once, ?_⟩, ?_⟩
    · intro q e he
      obtain ⟨hlt, hb, hp, hmem⟩ := h.queues.listed q e he
      exact ⟨hlt.trans_le hle.num, hle.built e hlt hb, (hle.parent e hlt).trans hp, hmem⟩
    · exact fun e he => h.queues.fresh e (hle.num.trans he)
    · exact fun f hf => (h.frames f hf).mono hle
  | enqueue hk hw =>
    refine h.spawn h.events (by simp [entryWeight]) rfl rfl (Core.Le.refl _) ?_
    simp only [List.mem_singleton, forall_eq]
    exact ⟨hk, fun w hmem => (hw w hmem).1, fun _ hx => hx⟩
  | setUserEventStatus he hk hs hsub =>
    refine h.spawn h.events (by simp [entryWeight]) rfl rfl (Core.Le.refl _) ?_
    simp only [List.mem_singleton, forall_eq]
    exact ⟨he, hs⟩
  | flush =>
    refine h.spawn h.events (by simp [entryWeight]) rfl rfl (Core.Le.refl _) ?_
    simp [FrameOk]
  | finish =>
    refine h.spawn h.events (by simp [entryWeight]) rfl rfl (Core.Le.refl _) ?_
    simp [FrameOk]
  | @dispatch dev e es hd =>
    refine h.spawn (c := { s.toCore with device := Function.update s.device dev es }) ?_
      (by simp [entryWeight]) rfl rfl { Core.Le.refl s.toCore with } ?_
    · exact { h.events with }
    · simp only [List.mem_singleton, forall_eq]
      exact hdev dev e (by rw [hd]; simp)
  | @endCommand e status he hs =>
    refine h.spawn (c := { s.toCore with
        executing := s.executing.erase e, ended := e :: s.ended }) ?_
      (by simp [entryWeight]) rfl rfl
      { Core.Le.refl s.toCore with ended := fun x hx => List.mem_cons_of_mem _ hx } ?_
    · exact { h.events with }
    · simp only [List.mem_singleton, forall_eq]
      exact ⟨hexec e he, hs⟩
  | thread ht hf =>
    have hfok := h.frames _ (next_of_getElem? ht).runs
    refine ⟨h.events.effect hfok hf, h.queues.thread hfok ht hf, fun g hg => ?_⟩
    rcases runs_advance hg with hnew | hold
    · exact hf.frameOk h.events (fun q e he => (h.queues.listed q e he).1) hfok g hnew
    · exact (h.frames g hold).mono hf.le
  | giveUp ht =>
    refine ⟨h.events, ⟨h.queues.listed, h.queues.nodup, ?_, ?_⟩, ?_⟩
    · intro e'
      have htot := total_advance (entryWeight e') [] ht
      have honce := h.queues.once e'
      exact le_trans (Nat.add_le_add_right (Nat.le.intro htot) _) honce
    · intro e' he'
      have htot := total_advance (entryWeight e') [] ht
      have hfresh := h.queues.fresh e' he'
      exact Nat.le_zero.mp ((Nat.add_le_add_right (Nat.le.intro htot) _).trans hfresh.le)
    · intro g hg
      rcases runs_advance hg with hnew | hold
      · cases hnew
      · exact h.frames g hold

end TiOpenCL.CommandQueue
