import TiOpenCL.CommandQueue.Order

/-!
# What an event waits for

The constructor enters an event in the dependent events of one of its wait list and that one in
`p_wait_events`.  When the awaited event ends, `Event::setStatus` loops over its dependent events and takes
it out of their lists.  In every state an event that is still waited for has not ended and knows the event
that waits, or such a loop is on the way to it (`WaitsOk.awaited`).
-/

namespace TiOpenCL.CommandQueue

open Machine

/-! ### Wait events and dependent events -/

/-- A dependent event after a critical section was one before, or is just registered. -/
lemma Effect.dependents {c c' : Core} {f : Frame} {fs : List Frame} (h : Effect c f c' fs)
    {w d : ℕ} (hw : w < c.numEvents) (hd : d ∈ (c'.event w).dependents) :
    d ∈ (c.event w).dependents ∨ ∃ failed blocking ws, f = .construct d failed blocking ∧
      (c.event d).unregistered = w :: ws := by
  cases h
  case registered e v ws failed blocking hun hv =>
    rw [addDependentEvent_nextWait_event] at hd
    by_cases hwv : w = v
    · subst hwv
      rw [if_pos rfl, List.mem_append, List.mem_singleton] at hd
      rcases hd with hold | rfl
      · exact Or.inl hold
      · exact Or.inr ⟨failed, blocking, ws, rfl, hun⟩
    · rw [if_neg hwv] at hd
      exact Or.inl hd
  case created =>
    rw [newEvent] at hd
    simp only [Core.setEvent, Function.update_of_ne (Nat.ne_of_lt hw)] at hd
    exact Or.inl hd
  case pushed | took =>
    simp only [Core.applyScan] at hd
    split at hd <;> exact Or.inl hd
  case cleaned =>
    rw [cleanEvents] at hd
    split at hd <;> exact Or.inl hd
  case skipped | noticed | built | completed | failed | set | notifiedReady | notified | propagated |
      began =>
    simp only [nextWait, setStatusHelper, removeWaitEvent, Core.setEvent,
      Function.update_apply] at hd
    split at hd
    · rename_i heq
      exact Or.inl (heq ▸ hd)
    · exact Or.inl hd
  all_goals exact Or.inl hd

/-- A wait event after a critical section was one before, or is just registered. -/
lemma Effect.waitEvents {c c' : Core} {f : Frame} {fs : List Frame} (h : Effect c f c' fs)
    {d w : ℕ} (hd : d < c.numEvents) (hw : w ∈ (c'.event d).waitEvents) :
    w ∈ (c.event d).waitEvents ∨ (∃ failed blocking ws, f = .construct d failed blocking ∧
      (c.event d).unregistered = w :: ws) ∧ complete < (c'.event w).status ∧
        d ∈ (c'.event w).dependents := by
  cases h
  case registered e v ws failed blocking hun hv =>
    simp only [addDependentEvent_nextWait_event] at hw ⊢
    by_cases hde : d = e
    · subst hde
      rw [if_pos rfl, List.mem_append, List.mem_singleton] at hw
      rcases hw with hold | rfl
      · exact Or.inl hold
      · refine Or.inr ⟨⟨failed, blocking, ws, rfl, hun⟩, hv, ?_⟩
        rw [if_pos rfl]
        exact List.mem_append_right _ (List.mem_singleton_self d)
    · rw [if_neg hde] at hw
      exact Or.inl hw
  case created =>
    rw [newEvent] at hw
    simp only [Core.setEvent, Function.update_of_ne (Nat.ne_of_lt hd)] at hw
    exact Or.inl hw
  case pushed | took =>
    simp only [Core.applyScan] at hw
    split at hw <;> exact Or.inl hw
  case cleaned =>
    rw [cleanEvents] at hw
    split at hw <;> exact Or.inl hw
  case notifiedReady | notified | propagated =>
    simp only [removeWaitEvent, Core.setEvent, Function.update_apply] at hw
    split at hw
    · rename_i heq
      exact Or.inl (heq ▸ (List.mem_filter.mp hw).1)
    · exact Or.inl hw
  case skipped | noticed | built | completed | failed | set | began =>
    simp only [nextWait, setStatusHelper, Core.setEvent, Function.update_apply] at hw
    split at hw
    · rename_i heq
      exact Or.inl (heq ▸ hw)
    · exact Or.inl hw
  all_goals exact Or.inl hw

/-- An event that a critical section creates. -/
lemma Effect.created_event {c c' : Core} {f : Frame} {fs : List Frame} (h : Effect c f c' fs)
    (hf : FrameOk c f) {e : ℕ} (he : c.numEvents ≤ e) (he' : e < c'.numEvents) :
    ∃ kind q waitList blocking, kind ≠ .user ∧ .construct e false blocking ∈ fs ∧
      c'.event e = ⟨kind, some q, waitList, waitList, queued, [], [], false⟩ := by
  cases h
  case created q kind waitList blocking =>
    obtain rfl := Nat.le_antisymm (Nat.lt_succ_iff.mp he') he
    exact ⟨kind, q, waitList, blocking, hf.1, List.mem_singleton_self _, Function.update_self _ _ _⟩
  case cleaned =>
    rw [cleanEvents] at he'
    split at he' <;> exact absurd he' (not_lt.mpr he)
  all_goals exact absurd he' (not_lt.mpr he)

/-- It waits for nothing yet, and nothing depends on it. -/
lemma Effect.waits_new {c c' : Core} {f : Frame} {fs : List Frame} (h : Effect c f c' fs)
    (hf : FrameOk c f) {e : ℕ} (he : c.numEvents ≤ e) (he' : e < c'.numEvents) :
    (c'.event e).waitEvents = [] ∧ (c'.event e).dependents = [] := by
  obtain ⟨kind, q, waitList, blocking, -, -, heq⟩ := h.created_event hf he he'
  rw [heq]
  exact ⟨rfl, rfl⟩

/-- The constructor goes on to an event of the wait list, or has it still before it. -/
lemma Effect.unregistered {c c' : Core} {f : Frame} {fs : List Frame} (h : Effect c f c' fs) {d w : ℕ}
    (hd : d < c.numEvents) (hw : w ∈ (c.event d).unregistered) :
    w ∈ (c'.event d).unregistered ∨ ∃ failed blocking, f = .construct d failed blocking ∧
      ((c.event w).status = complete ∨ .construct d true blocking ∈ fs ∨ w ∈ (c'.event d).waitEvents) := by
  have hnext : ∀ {e v ws}, (c.event e).unregistered = v :: ws → d = e → w ≠ v →
      w ∈ (c.event e).unregistered.tail := by
    rintro e v ws hun rfl hne
    rw [hun] at hw ⊢
    exact (List.mem_cons.mp hw).resolve_left hne
  cases h
  case skipped e v ws failed blocking hun hv | noticed e v ws failed blocking hun hv =>
    by_cases hde : d = e
    · by_cases hwv : w = v
      · subst hde hwv
        refine Or.inr ⟨failed, blocking, rfl, ?_⟩
        first
          | exact Or.inl hv
          | exact Or.inr (Or.inl (List.mem_singleton_self _))
      · left
        rw [nextWait, hde]
        simp only [Core.setEvent, Function.update_self]
        exact hnext hun hde hwv
    · left
      simp only [nextWait, Core.setEvent, Function.update_of_ne hde]
      exact hw
  case registered e v ws failed blocking hun hv =>
    rw [addDependentEvent_nextWait_event]
    by_cases hde : d = e
    · by_cases hwv : w = v
      · subst hde hwv
        refine Or.inr ⟨failed, blocking, rfl, Or.inr (Or.inr ?_)⟩
        dsimp only
        rw [if_pos rfl]
        exact List.mem_append_right _ (List.mem_singleton_self w)
      · left
        dsimp only
        rw [if_pos hde, hde]
        exact hnext hun hde hwv
    · left
      dsimp only
      rw [if_neg hde]
      exact hw
  case created =>
    left
    rw [newEvent]
    simp only [Core.setEvent, Function.update_of_ne (Nat.ne_of_lt hd)]
    exact hw
  case pushed | took =>
    left
    simp only [Core.applyScan]
    split <;> exact hw
  case cleaned =>
    left
    rw [cleanEvents]
    split <;> exact hw
  case built | completed | failed | set | notifiedReady | notified | propagated | began =>
    left
    simp only [setStatusHelper, removeWaitEvent, Core.setEvent, Function.update_apply]
    split
    · rename_i heq
      exact heq ▸ hw
    · exact hw
  all_goals exact Or.inl hw

/-- A wait event stays one until the loop over its dependent events removes it. -/
lemma Effect.waitEvents_kept {c c' : Core} {f : Frame} {fs : List Frame} (h : Effect c f c' fs)
    {d w : ℕ} (hd : d < c.numEvents) (hw : w ∈ (c.event d).waitEvents) :
    w ∈ (c'.event d).waitEvents ∨ (∃ i n pushed, f = .notify w i n pushed) ∨
      (∃ i n, f = .fail w i n) ∧ .setStatus d errorInWaitList ∈ fs := by
  cases h
  case notifiedReady e i n d' q pushed _ _ _ _ _ | notified e i n d' pushed _ _ _ _ =>
    by_cases hwe : w = e
    · exact Or.inr (Or.inl ⟨i, n, pushed, by rw [hwe]⟩)
    · left
      simp only [removeWaitEvent, Core.setEvent, Function.update_apply]
      split
      · rename_i hdd
        exact List.mem_filter.mpr ⟨hdd ▸ hw, decide_eq_true hwe⟩
      · exact hw
  case propagated e i n d' hi hdep hb =>
    by_cases hdd : d = d'
    · subst hdd
      by_cases hwe : w = e
      · subst hwe
        exact Or.inr (Or.inr ⟨⟨i, n, rfl⟩, List.mem_append_right _ List.mem_cons_self⟩)
      · left
        rw [removeWaitEvent_event_self]
        exact List.mem_filter.mpr ⟨hw, decide_eq_true hwe⟩
    · left
      simp only [removeWaitEvent, Core.setEvent, Function.update_of_ne hdd]
      exact hw
  case registered =>
    left
    rw [addDependentEvent_nextWait_event]
    dsimp only
    split
    · exact List.mem_append_left _ hw
    · exact hw
  case created =>
    left
    rw [newEvent]
    simp only [Core.setEvent, Function.update_of_ne (Nat.ne_of_lt hd)]
    exact hw
  case pushed | took =>
    left
    simp only [Core.applyScan]
    split <;> exact hw
  case cleaned =>
    left
    rw [cleanEvents]
    split <;> exact hw
  case skipped | noticed | built | completed | failed | set | began =>
    left
    simp only [nextWait, setStatusHelper, Core.setEvent, Function.update_apply]
    split
    · rename_i heq
      exact heq ▸ hw
    · exact hw
  all_goals exact Or.inl hw

/-! ### The loops over dependent events -/

/-- The end of an event is followed by a loop over its dependent events. -/
lemma Effect.loop_of_setStatus {c c' : Core} {e : ℕ} {status : ℤ} {fs : List Frame}
    (h : Effect c (.setStatus e status) c' fs) (hok : EventsOk c)
    (hf : FrameOk c (.setStatus e status)) :
    .fail e 0 (c.event e).dependents.length ∈ fs ∨
      .notify e 0 (c.event e).dependents.length false ∈ fs := by
  cases h with
  | completed => exact Or.inr (List.mem_singleton_self _)
  | failed => exact Or.inl (List.mem_singleton_self _)
  | set hs hp =>
    obtain ⟨hk, hnone⟩ := hp (le_antisymm hf.2 hs)
    exact absurd ((hok.user e hf.1).mpr hnone) hk

/-- The loops over the dependent events of an event follow its end. -/
lemma Effect.loop_mem {c c' : Core} {f g : Frame} {fs : List Frame} (h : Effect c f c' fs)
    (hg : g ∈ fs) {w i n : ℕ} :
    (∀ pushed, g = .notify w i n pushed →
      f = .setStatus w complete ∨ ∃ i' pushed', f = .notify w i' n pushed') ∧
    (g = .fail w i n → (∃ status, f = .setStatus w status ∧ status < 0) ∨ ∃ i', f = .fail w i' n) := by
  cases h
  case failed e status hs =>
    obtain rfl := List.mem_singleton.mp hg
    refine ⟨fun pushed heq => (by cases heq), fun heq => ?_⟩
    cases heq
    exact Or.inl ⟨status, rfl, hs⟩
  case built failed blocking _ => cases failed <;> grind
  case appended blocking _ => cases blocking <;> grind
  case notifiedReady | notified | propagated =>
    simp only [releaseFrames] at hg
    split at hg <;> grind
  case notifiedAll pushed _ _ => cases pushed <;> grind
  all_goals grind

/-- A step of the loop over the dependent events of a completed event takes it out of the list of the next
one. -/
lemma Effect.notify_next {c c' : Core} {w i n d j : ℕ} {pushed : Bool} {fs : List Frame}
    (h : Effect c (.notify w i n pushed) c' fs) (hij : i ≤ j) (hjn : j < n)
    (hd : (c.event w).dependents[j]? = some d) (hw : w ∈ (c'.event d).waitEvents) :
    i + 1 ≤ j ∧ ∃ pushed', .notify w (i + 1) n pushed' ∈ fs := by
  have hne : ∀ d', (c.event w).dependents[i]? = some d' → c' = removeWaitEvent c d' w → i ≠ j := by
    rintro d' hd' rfl rfl
    obtain rfl := Option.some.inj (hd.symm.trans hd')
    rw [removeWaitEvent_event_self] at hw
    exact of_decide_eq_true (List.mem_filter.mp hw).2 rfl
  cases h with
  | notifiedReady hi hd' hb hq hnil =>
    exact ⟨lt_of_le_of_ne hij (hne _ hd' rfl), _,
      List.mem_append_right _ (List.mem_cons_of_mem _ List.mem_cons_self)⟩
  | notified hi hd' hb hor =>
    exact ⟨lt_of_le_of_ne hij (hne _ hd' rfl), _, List.mem_append_right _ List.mem_cons_self⟩
  | notifiedAll hi | notifiedUser hi => exact absurd (hi.trans hij) (not_le.mpr hjn)

/-- A step of the loop over the dependent events of a failed event takes it out of the list of the next
one. -/
lemma Effect.fail_next {c c' : Core} {w i n d j : ℕ} {fs : List Frame}
    (h : Effect c (.fail w i n) c' fs) (hij : i ≤ j) (hjn : j < n)
    (hd : (c.event w).dependents[j]? = some d) (hw : w ∈ (c'.event d).waitEvents) :
    i + 1 ≤ j ∧ .fail w (i + 1) n ∈ fs := by
  cases h with
  | @propagated _ _ _ d' hi hd' hb =>
    refine ⟨lt_of_le_of_ne hij ?_, by simp⟩
    rintro rfl
    obtain rfl := Option.some.inj (hd.symm.trans hd')
    rw [removeWaitEvent_event_self] at hw
    exact of_decide_eq_true (List.mem_filter.mp hw).2 rfl
  | propagatedAll hi | propagatedUser hi => exact absurd (hi.trans hij) (not_le.mpr hjn)

/-- A step is a critical section of a thread, or leaves events, lists and record alone, and keeps all frames
but those of calls that are given up. -/
lemma Move.effect_or_keeps {s s' : State} {a : Action} (hm : Move s a s') :
    (∃ t f rest fs, s.threads[t]? = some (f :: rest) ∧ a = .thread t ∧
      Effect s.toCore f s'.toCore fs ∧ s'.threads = advance s.threads t fs) ∨
      (∀ t, a ≠ .thread t) ∧ s.Same s'.toCore ∧
        ∀ g, (∀ e blocking, g ≠ .queueEvent e blocking) → Runs s.threads g → Runs s'.threads g := by
  have happend : ∀ stack g, Runs s.threads g → Runs (s.threads ++ [stack]) g := by
    rintro stack g ⟨st, hmem, hg⟩
    exact ⟨st, List.mem_append_left _ hmem, hg⟩
  rcases hm.effect_or_same with hthread | hsame
  · exact Or.inl hthread
  · cases hm with
    | createUserEvent => exact Or.inr ⟨by simp, hsame, fun g _ h => h⟩
    | thread ht hf => exact Or.inl ⟨_, _, _, _, ht, rfl, hf, rfl⟩
    | giveUp ht =>
      refine Or.inr ⟨by simp, hsame, fun g hg h => ?_⟩
      rcases runs_of_runs [] ht h with rfl | hrest
      · exact absurd rfl (hg _ _)
      · exact hrest
    | _ => exact Or.inr ⟨by simp, hsame, fun g _ h => happend _ g h⟩

/-! ### Waiting in every state -/

/-- A loop over the dependent events of an event is on the way to another one. -/
def LoopTo (s : State) (w d : ℕ) : Prop :=
  ∃ i n j, i ≤ j ∧ j < n ∧ (s.event w).dependents[j]? = some d ∧
    (Runs s.threads (.fail w i n) ∨ ∃ pushed, Runs s.threads (.notify w i n pushed))

/-- What holds of the events that are waited for in every state of every run. -/
structure WaitsOk (s : State) : Prop where
  listed : ∀ d < s.numEvents, (s.event d).waitEvents ⊆ (s.event d).waitList
  dependent : ∀ w < s.numEvents, ∀ d ∈ (s.event w).dependents, w ∈ (s.event d).waitList
  awaited : ∀ d < s.numEvents, ∀ w ∈ (s.event d).waitEvents,
    complete < (s.event w).status ∧ d ∈ (s.event w).dependents ∨ LoopTo s w d

section Steps

variable {s s' : State} {c : Core} {a : Action} {f : Frame} {fs rest : List Frame} {t : ℕ}

/-- An index of the dependent events of an event stays what it is. -/
lemma Core.Le.dependents_getElem? {c c' : Core} (h : c.Le c') {w d j : ℕ} (hw : w < c.numEvents)
    (hd : (c.event w).dependents[j]? = some d) : (c'.event w).dependents[j]? = some d := by
  obtain ⟨new, hnew⟩ := h.dependents w hw
  rw [← hnew, List.getElem?_append_left (List.getElem?_eq_some_iff.mp hd).1]
  exact hd

/-- A critical section leaves a loop on its way, unless it removes the wait event. -/
lemma LoopTo.thread (ht : s.threads[t]? = some (f :: rest))
    (heff : Effect s.toCore f c fs) {w d : ℕ} (hw : w < s.numEvents) (h : LoopTo s w d)
    (hmem : w ∈ (c.event d).waitEvents) : LoopTo ⟨c, advance s.threads t fs⟩ w d := by
  obtain ⟨i, n, j, hij, hjn, hd, hrun⟩ := h
  have hd' := heff.le.dependents_getElem? hw hd
  rcases hrun with hfail | ⟨pushed, hnotify⟩
  · rcases runs_of_runs fs ht hfail with rfl | hstay
    · obtain ⟨hlt, hnext⟩ := heff.fail_next hij hjn hd hmem
      exact ⟨i + 1, n, j, hlt, hjn, hd', Or.inl (runs_advance_of_mem ht hnext)⟩
    · exact ⟨i, n, j, hij, hjn, hd', Or.inl hstay⟩
  · rcases runs_of_runs fs ht hnotify with rfl | hstay
    · obtain ⟨hlt, pushed', hnext⟩ := heff.notify_next hij hjn hd hmem
      exact ⟨i + 1, n, j, hlt, hjn, hd', Or.inr ⟨pushed', runs_advance_of_mem ht hnext⟩⟩
    · exact ⟨i, n, j, hij, hjn, hd', Or.inr ⟨pushed, hstay⟩⟩

/-- A critical section keeps what is known of a wait event. -/
lemma WaitsOk.awaited_thread (h : WaitsOk s) (hv : Valid s) (ht : s.threads[t]? = some (f :: rest))
    (heff : Effect s.toCore f c fs) {d w : ℕ} (hd : d < s.numEvents)
    (hold : w ∈ (s.event d).waitEvents) (hmem : w ∈ (c.event d).waitEvents) :
    complete < (c.event w).status ∧ d ∈ (c.event w).dependents ∨
      LoopTo ⟨c, advance s.threads t fs⟩ w d := by
  have hw := hv.wellformed.events.waitList d hd w (h.listed d hd hold)
  rcases h.awaited d hd w hold with ⟨hlt, hdep⟩ | hloop
  · have hdep' := (heff.le.dependents w hw).subset hdep
    rcases heff.status hw with hsame | hset
    · rw [hsame]
      exact Or.inl ⟨hlt, hdep'⟩
    · generalize hst : (c.event w).status = status at hset
      cases hset with
      | setStatus =>
        have hfok := hv.wellformed.frames _ (next_of_getElem? ht).runs
        obtain ⟨j, hj⟩ := List.mem_iff_getElem?.mp hdep
        have hjn := (List.getElem?_eq_some_iff.mp hj).1
        refine Or.inr ⟨0, _, j, Nat.zero_le j, hjn, heff.le.dependents_getElem? hw hj, ?_⟩
        rcases heff.loop_of_setStatus hv.wellformed.events hfok with hfail | hnotify
        · exact Or.inl (runs_advance_of_mem ht hfail)
        · exact Or.inr ⟨false, runs_advance_of_mem ht hnotify⟩
      | begin => exact Or.inl ⟨by decide, hdep'⟩
      | push => exact Or.inl ⟨by decide, hdep'⟩
  · exact Or.inr (hloop.thread ht heff hw hmem)

/-- A step of a thread keeps it. -/
lemma WaitsOk.thread (h : WaitsOk s) (hv : Valid s) (ht : s.threads[t]? = some (f :: rest))
    (heff : Effect s.toCore f c fs) : WaitsOk ⟨c, advance s.threads t fs⟩ := by
  have hle := heff.le
  have hfok := hv.wellformed.frames _ (next_of_getElem? ht).runs
  have hnew : ∀ {d failed blocking w ws}, f = .construct d failed blocking →
      (s.event d).unregistered = w :: ws → d < s.numEvents ∧ w ∈ (s.event d).waitList := by
    rintro d failed blocking w ws rfl hun
    exact ⟨hfok.1, hv.wellformed.events.unregistered d hfok.1 (hun ▸ List.mem_cons_self)⟩
  constructor
  · intro d hd w hw
    rcases lt_or_ge d s.numEvents with hlt | hge
    · rw [hle.waitList d hlt]
      rcases heff.waitEvents hlt hw with hold | ⟨⟨failed, blocking, ws, hf, hun⟩, -⟩
      · exact h.listed d hlt hold
      · exact (hnew hf hun).2
    · rw [(heff.waits_new hfok hge hd).1] at hw
      cases hw
  · intro w hw d hd
    rcases lt_or_ge w s.numEvents with hlt | hge
    · rcases heff.dependents hlt hd with hold | ⟨failed, blocking, ws, hf, hun⟩
      · rw [hle.waitList d (hv.wellformed.events.dependents w hlt d hold)]
        exact h.dependent w hlt d hold
      · obtain ⟨hdlt, hmem⟩ := hnew hf hun
        rw [hle.waitList d hdlt]
        exact hmem
    · rw [(heff.waits_new hfok hge hw).2] at hd
      cases hd
  · intro d hd w hw
    rcases lt_or_ge d s.numEvents with hlt | hge
    · rcases heff.waitEvents hlt hw with hold | ⟨-, hnow⟩
      · exact h.awaited_thread hv ht heff hlt hold hw
      · exact Or.inl hnow
    · rw [(heff.waits_new hfok hge hd).1] at hw
      cases hw

/-- A step that leaves events and lists alone keeps it. -/
lemma WaitsOk.same (h : WaitsOk s) (hv : Valid s) (hsame : s.Same s'.toCore)
    (hruns : ∀ g, (∀ e blocking, g ≠ .queueEvent e blocking) → Runs s.threads g → Runs s'.threads g) :
    WaitsOk s' := by
  have hnew : ∀ {e}, e < s'.numEvents → s.numEvents ≤ e →
      (s'.event e).waitEvents = [] ∧ (s'.event e).dependents = [] := by
    intro e he hge
    rw [hsame.fresh e hge he]
    exact ⟨rfl, rfl⟩
  constructor
  · intro d hd w hw
    rcases lt_or_ge d s.numEvents with hlt | hge
    · rw [hsame.event d hlt] at hw ⊢
      exact h.listed d hlt hw
    · rw [(hnew hd hge).1] at hw
      cases hw
  · intro w hw d hd
    rcases lt_or_ge w s.numEvents with hlt | hge
    · rw [hsame.event w hlt] at hd
      rw [hsame.event d (hv.wellformed.events.dependents w hlt d hd)]
      exact h.dependent w hlt d hd
    · rw [(hnew hw hge).2] at hd
      cases hd
  · intro d hd w hw
    rcases lt_or_ge d s.numEvents with hlt | hge
    · rw [hsame.event d hlt] at hw
      have hwlt := hv.wellformed.events.waitList d hlt w (h.listed d hlt hw)
      rw [LoopTo, hsame.event w hwlt]
      refine (h.awaited d hlt w hw).imp_right ?_
      rintro ⟨i, n, j, hij, hjn, hdep, hrun⟩
      refine ⟨i, n, j, hij, hjn, hdep, hrun.imp (fun hf => ?_) ?_⟩
      · exact hruns _ (by simp) hf
      · rintro ⟨pushed, hf⟩
        exact ⟨pushed, hruns _ (by simp) hf⟩
    · rw [(hnew hd hge).1] at hw
      cases hw

/-- Every step keeps it. -/
lemma WaitsOk.move (h : WaitsOk s) (hv : Valid s) (hm : Move s a s') : WaitsOk s' := by
  rcases hm.effect_or_keeps with ⟨t, f, rest, fs, ht, -, heff, hthreads⟩ | ⟨-, hsame, hruns⟩
  · have hstate := h.thread hv ht heff
    rw [← hthreads] at hstate
    exact hstate
  · exact h.same hv hsame hruns

/-- Nothing is waited for before the first call. -/
lemma waitsOk_init (outOfOrder : ℕ → Bool) (device : ℕ → ℕ) : WaitsOk (init outOfOrder device) := by
  constructor <;> simp [init]

end Steps

end TiOpenCL.CommandQueue
