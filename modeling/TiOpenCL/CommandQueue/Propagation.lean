import Mathlib.Logic.Relation
import TiOpenCL.CommandQueue.InOrder
import TiOpenCL.CommandQueue.Wakeups

/-!
# Errors are passed on

When an event fails, `Event::setStatus` walks over its dependent events, removes it from their wait events
and sets their error in a second step.  A run is clean if no traversal meets an event in between, when
nothing but the pending error tells that it is not ready, and if no two calls set the status of one user
event (`CleanStep`).  In a clean run an event ends once (`CleanOk.once`), a started event waited for
completed events only (`CleanOk.completed`), and what waits for a failed event will fail
(`CleanOk.doomed`).
-/

namespace TiOpenCL.CommandQueue

open Machine

/-! ### Clean steps -/

/-- How many calls are about to set the status of an event. -/
def pendingEnds (s : State) (e : ℕ) : ℕ := total (endWeight e) s.threads

instance (event : ℕ → Event) (outOfOrder : Bool) (e b : ℕ) : Decidable (Passed event outOfOrder e b) :=
  inferInstanceAs (Decidable (_ ∧ _))

/-- A traversal that comes as far as an event starts it, and the events before it let it pass. -/
def Startable (c : Core) (q e : ℕ) : Prop :=
  (c.event e).status = queued ∧ (c.event e).waitEvents = [] ∧
    ∀ b ∈ (c.queue q).events.takeWhile (· ≠ e), Passed c.event (c.queue q).outOfOrder e b

instance (c : Core) (q e : ℕ) : Decidable (Startable c q e) := inferInstanceAs (Decidable (_ ∧ _ ∧ _))

/-- A critical section that is no traversal of a queue with an event that looks ready while its error is
still to be set. -/
def Clean (s : State) : Frame → Prop
  | .push q ready oneCompleted => ¬Throttled s.toCore ((s.queue q).count oneCompleted) ready →
      ∀ e ∈ (s.queue q).events, Startable s.toCore q e → pendingEnds s e = 0
  | _ => True

instance (s : State) : (f : Frame) → Decidable (Clean s f)
  | .push q ready oneCompleted => inferInstanceAs (Decidable
      (¬Throttled s.toCore ((s.queue q).count oneCompleted) ready →
        ∀ e ∈ (s.queue q).events, Startable s.toCore q e → pendingEnds s e = 0))
  | .check .. | .construct .. | .queueEvent .. | .setStatus .. | .notify .. | .fail .. | .clean _
  | .release _ | .begin _ | .execute _ | .wait _ | .waitEmpty _ => isTrue trivial

/-- A step that is clean, and does not set a user event whose status another call is about to set. -/
def CleanStep (s : State) : Action → Prop
  | .thread t => ∀ f ∈ s.threads[t]?.bind List.head?, Clean s f
  | .setUserEventStatus e _ => pendingEnds s e = 0
  | _ => True

instance (s : State) : (a : Action) → Decidable (CleanStep s a)
  | .thread t => inferInstanceAs (Decidable (∀ f ∈ s.threads[t]?.bind List.head?, Clean s f))
  | .setUserEventStatus e _ => inferInstanceAs (Decidable (pendingEnds s e = 0))
  | .createUserEvent | .enqueue .. | .flush _ | .finish _ | .dispatch _ | .endCommand .. | .giveUp _ =>
    isTrue trivial

/-- What a traversal starts is startable. -/
lemma startable_of_mem_started {c : Core} {q e : ℕ} {ready : Option ℕ}
    (h : e ∈ (c.scan q ready).started) : Startable c q e := by
  obtain ⟨-, hqueued, hnil⟩ := mem_started_scan h
  obtain ⟨-, l₁, l₂, heq, hpass⟩ := passed_of_mem_started h
  refine ⟨hqueued, hnil, fun b hb => hpass b ?_⟩
  rw [heq, List.takeWhile_append] at hb
  split at hb
  · simpa using hb
  · exact (List.takeWhile_sublist _).subset hb

/-! ### What holds in clean runs -/

/-- How often an event may end: a command as often as it has ended on its device, any other one once. -/
def allowedEnds (c : Core) (e : ℕ) : ℕ := if (c.event e).kind = .command then c.ended.count e else 1

/-- The error of an event is set, or will be. -/
def Doomed (s : State) (d : ℕ) : Prop :=
  (s.event d).status = errorInWaitList ∨ Runs s.threads (.setStatus d errorInWaitList) ∨
    ∃ blocking, Runs s.threads (.construct d true blocking)

/-- What holds in every state of a clean run. -/
structure CleanOk (s : State) : Prop where
  unstarted : UnstartedOk s
  waits : WaitsOk s
  user : ∀ e < s.numEvents, (s.event e).kind = .user → (s.event e).waitList = []
  unbuilt : ∀ e < s.numEvents, (s.event e).built = false →
    ∃ failed blocking, Runs s.threads (.construct e failed blocking)
  settled : ∀ e ∈ s.finished, (s.event e).status ≤ complete
  once : ∀ e < s.numEvents, (s.event e).kind = .user ∨ e ∈ s.started →
    pendingEnds s e + s.finished.count e ≤ allowedEnds s.toCore e
  notifies : ∀ w i n pushed, Runs s.threads (.notify w i n pushed) → (s.event w).status = complete
  fails : ∀ w i n, Runs s.threads (.fail w i n) → (s.event w).status < 0
  completed : ∀ e ∈ s.started, ∀ w ∈ (s.event e).waitList, (s.event w).status = complete
  doomed : ∀ d < s.numEvents, ∀ w ∈ (s.event d).waitList, (s.event w).status < 0 →
    w ∈ (s.event d).unregistered ∨ w ∈ (s.event d).waitEvents ∨ Doomed s d

section Steps

variable {s s' : State} {c : Core} {a : Action} {f : Frame} {fs rest : List Frame} {t : ℕ}

/-- An event may end once. -/
lemma Valid.allowedEnds_le_one (hv : Valid s) {e : ℕ} (he : e < s.numEvents) :
    allowedEnds s.toCore e ≤ 1 := by
  rw [allowedEnds]
  split
  · rename_i hk
    have htoken := hv.devices.token e he
    have hone : s.started.count e ≤ 1 := List.nodup_iff_count_le_one.mp hv.devices.nodup e
    rw [starts, if_pos hk, places] at htoken
    omega
  · exact le_rfl

/-- A command with a place on its device that has not ended may not end. -/
lemma CleanOk.not_finished (h : CleanOk s) {e : ℕ} (he : e ∈ s.started) (hk : (s.event e).kind = .command)
    (hended : e ∉ s.ended) : pendingEnds s e = 0 ∧ e ∉ s.finished := by
  have honce := h.once e (h.unstarted.valid.devices.started e he).1 (Or.inr he)
  rw [allowedEnds, if_pos hk, List.count_eq_zero_of_not_mem hended] at honce
  exact ⟨by omega, fun hfin => by have := List.count_pos_iff.mpr hfin; omega⟩

/-- The status of an event that has ended does not change. -/
lemma CleanOk.status_thread (h : CleanOk s) (hf : Runs s.threads f) (heff : Effect s.toCore f c fs) {e : ℕ}
    (he : e < s.numEvents) (hle : (s.event e).status ≤ complete) :
    (c.event e).status = (s.event e).status := by
  have hv := h.unstarted.valid
  have hfin := hv.wellformed.events.reached e he hle
  rcases heff.status he with hsame | hset
  · exact hsame
  · generalize (c.event e).status = status at hset
    cases hset with
    | setStatus =>
      have hweight := hf.weight_le (endWeight e)
      simp only [endWeight, if_true] at hweight
      have hcount := List.count_pos_iff.mpr hfin
      have hnot : ¬((s.event e).kind = .user ∨ e ∈ s.started) := by
        intro hor
        have honce := h.once e he hor
        have hone := hv.allowedEnds_le_one he
        rw [pendingEnds] at honce
        omega
      obtain ⟨hk, hst⟩ := not_or.mp hnot
      rw [(h.unstarted.asked e status hf hk).resolve_right hst, h.unstarted.failed hfin hk hst]
    | begin =>
      -- a worker has a command that has not ended
      exfalso
      obtain ⟨hk, hst⟩ := hv.command_of_worker (e := e) hf (by simp [workerWeight])
      have hnot := hv.not_done_of_worker (e := e) hf (by simp [workerWeight])
      exact (h.not_finished hst hk fun hended => hnot (Or.inl hended)).2 hfin
    | push hp =>
      rw [(mem_started_scan (List.mem_append.mpr (Or.inl hp))).2.1] at hle
      exact absurd hle (by decide)

/-! ### Events that end once -/

/-- An event with an error to pass on, or a user event, is not asked to end by a critical section that has
started nothing. -/
lemma CleanOk.not_asked (h : CleanOk s) (hf : Runs s.threads f) (heff : Effect s.toCore f c fs) {e : ℕ}
    (hor : (s.event e).kind = .user ∨ e ∈ s.started) (status : ℤ) : .setStatus e status ∉ fs := by
  have hv := h.unstarted.valid
  have hfok := hv.wellformed.frames f hf
  intro hg
  cases heff.setStatus_mem hg with
  | @construct blocking =>
    rcases hor with hk | hst
    · have hnone := (hv.wellformed.events.user e hfok.1).mp hk
      have hsome := hfok.2
      rw [hnone] at hsome
      cases hsome
    · exact hv.wellformed.queues.not_mem_queuedLog hf (by simp [entryWeight])
        (hv.devices.started e hst).2
  | @fail w i n hi hd hb =>
    have hw := h.waits.dependent w hfok.1 e (List.mem_of_getElem? hd)
    rcases hor with hk | hst
    · have hlt := hv.wellformed.events.dependents w hfok.1 e (List.mem_of_getElem? hd)
      rw [h.user e hlt hk] at hw
      cases hw
    · have hneg := h.fails w i n hf
      rw [h.completed e hst w hw] at hneg
      exact absurd hneg (by decide)
  | push htaken _ =>
    have hmem := mem_started_scan (List.mem_append_right (scan _ _ _ _ _ _).pushed
      (by rw [← Core.scan, htaken]; exact List.mem_singleton_self e))
    rcases hor with hk | hst
    · obtain ⟨hlt, -, hp, -⟩ := hv.wellformed.queues.listed _ e hmem.1
      rw [(hv.wellformed.events.user e hlt).mp hk] at hp
      cases hp
    · exact hv.devices.fresh _ e hmem.1 hst hmem.2.1

/-- No call is left that ends an event that is not asked to end. -/
lemma sum_endWeight_of_not_mem {e : ℕ} (h : ∀ status, .setStatus e status ∉ fs) :
    (fs.map (endWeight e)).sum = 0 := by
  refine List.sum_eq_zero fun x hx => ?_
  obtain ⟨g, hg, rfl⟩ := List.mem_map.mp hx
  cases g with
  | setStatus e' status =>
    refine if_neg ?_
    rintro rfl
    exact h status hg
  | _ => rfl

/-- A traversal that starts an event is not skipped. -/
lemma Effect.not_throttled {q e : ℕ} {ready : Option ℕ} {oneCompleted : Bool}
    (heff : Effect s.toCore (.push q ready oneCompleted) c fs)
    (hst : c.started = s.started ++ (s.scan q ready).started) (he : e ∈ (s.scan q ready).started) :
    ¬Throttled s.toCore ((s.queue q).count oneCompleted) ready := by
  cases heff with
  | throttled =>
    have hnil : (s.scan q ready).started = [] := List.self_eq_append_right.mp hst
    rw [hnil] at he
    cases he
  | pushed hnot | took hnot => exact hnot

/-- An event that a traversal starts is asked to end only if it may. -/
lemma Effect.allowedEnds_of_started {q e : ℕ} {ready : Option ℕ} {oneCompleted : Bool}
    (heff : Effect s.toCore (.push q ready oneCompleted) c fs)
    (hst : c.started = s.started ++ (s.scan q ready).started) (he : e ∈ (s.scan q ready).started) :
    (fs.map (endWeight e)).sum ≤ allowedEnds s.toCore e := by
  have hnot := heff.not_throttled hst he
  cases heff with
  | throttled hthrottled => exact absurd hthrottled hnot
  | pushed => exact Nat.zero_le _
  | @took _ x _ _ _ hs =>
    simp only [List.map_cons, List.map_nil, List.sum_cons, List.sum_nil, endWeight]
    by_cases hxe : x = e
    · subst hxe
      have hk : (s.event x).kind ≠ .command := (kind_of_scan s.event _ ready true 0 _).2 x hs
      rw [allowedEnds, if_neg hk, if_pos rfl]
      exact le_refl 1
    · rw [if_neg hxe]
      exact Nat.zero_le _

/-- A clean critical section lets an event end once. -/
lemma CleanOk.once_thread (h : CleanOk s) (ht : s.threads[t]? = some (f :: rest))
    (heff : Effect s.toCore f c fs) (hok : Clean s f) {e : ℕ} (he : e < c.numEvents)
    (hor : (c.event e).kind = .user ∨ e ∈ c.started) :
    pendingEnds ⟨c, advance s.threads t fs⟩ e + c.finished.count e ≤ allowedEnds c e := by
  have hv := h.unstarted.valid
  have hf := (next_of_getElem? ht).runs
  have hfok := hv.wellformed.frames f hf
  have htot : pendingEnds ⟨c, advance s.threads t fs⟩ e + endWeight e f =
      pendingEnds s e + (fs.map (endWeight e)).sum := total_advance (endWeight e) fs ht
  have hcount := heff.count_finished hfok e
  rcases lt_or_ge e s.numEvents with hlt | hge
  · have hallowed : allowedEnds c e = allowedEnds s.toCore e := by
      rw [allowedEnds, allowedEnds, heff.le.kind e hlt, heff.executing.1]
    have hold : (s.event e).kind = .user ∨ e ∈ s.started →
        pendingEnds ⟨c, advance s.threads t fs⟩ e + c.finished.count e ≤ allowedEnds s.toCore e := by
      intro hin
      have honce := h.once e hlt hin
      have hsum := sum_endWeight_of_not_mem (h.not_asked hf heff hin)
      omega
    rw [hallowed]
    rw [heff.le.kind e hlt] at hor
    rcases hor with hk | hst
    · exact hold (Or.inl hk)
    · rcases heff.started with hsame | ⟨q, ready, o, rfl, happ, -⟩
      · exact hold (Or.inr (hsame ▸ hst))
      · rcases List.mem_append.mp (happ ▸ hst) with hin | hnew
        · exact hold (Or.inr hin)
        · obtain ⟨hmem, hqueued, -⟩ := mem_started_scan hnew
          have hzero := hok (heff.not_throttled happ hnew) e hmem (startable_of_mem_started hnew)
          have hfin : s.finished.count e = 0 :=
            List.count_eq_zero_of_not_mem fun hin => (h.unstarted.order.past e hin).2 hqueued
          have hle := heff.allowedEnds_of_started happ hnew
          omega
  · exfalso
    obtain ⟨kind, q, waitList, blocking, hk, -, heq⟩ := heff.created_event hfok hge he
    rw [heq] at hor
    rcases hor with hcon | hst
    · exact hk hcon
    · rcases heff.started with hsame | ⟨q', ready, o, -, happ, -⟩
      · exact absurd (hv.devices.started e (hsame ▸ hst)).1 (not_lt.mpr hge)
      · rcases List.mem_append.mp (happ ▸ hst) with hin | hnew
        · exact absurd (hv.devices.started e hin).1 (not_lt.mpr hge)
        · exact absurd (hv.wellformed.queues.listed q' e (mem_started_scan hnew).1).1 (not_lt.mpr hge)

/-! ### What a started event waited for -/

/-- An event that a clean traversal starts waited for events that are complete. -/
lemma CleanOk.completed_of_started (h : CleanOk s) {q e : ℕ} {ready : Option ℕ}
    (he : e ∈ (s.scan q ready).started) (hzero : pendingEnds s e = 0) {w : ℕ}
    (hw : w ∈ (s.event e).waitList) : (s.event w).status = complete := by
  have hv := h.unstarted.valid
  obtain ⟨hmem, hqueued, hnil⟩ := mem_started_scan he
  obtain ⟨hlt, hb, -, hlog⟩ := hv.wellformed.queues.listed q e hmem
  refine le_antisymm (h.settled w (hv.waits_finished hmem hnil hw)) (not_lt.mp fun hneg => ?_)
  rcases h.doomed e hlt w hw hneg with hun | hwait | hstatus | hrun | ⟨blocking, hrun⟩
  · rw [hv.wellformed.events.built e hlt hb] at hun
    cases hun
  · rw [hnil] at hwait
    cases hwait
  · rw [hqueued] at hstatus
    exact absurd hstatus (by decide)
  · have hweight := hrun.weight_le (endWeight e)
    simp only [endWeight, if_true] at hweight
    rw [pendingEnds] at hzero
    omega
  · exact hv.wellformed.queues.not_mem_queuedLog hrun (by simp [entryWeight]) hlog

/-- A clean critical section keeps what is known of the started events. -/
lemma CleanOk.completed_thread (h : CleanOk s) (hf : Runs s.threads f) (heff : Effect s.toCore f c fs)
    (hok : Clean s f) {e w : ℕ} (he : e ∈ c.started) (hw : w ∈ (c.event e).waitList) :
    (c.event w).status = complete := by
  have hv := h.unstarted.valid
  have hkeep : ∀ {w}, w < s.numEvents → (s.event w).status = complete →
      (c.event w).status = complete := fun hlt hs => (h.status_thread hf heff hlt hs.le).trans hs
  have hold : e ∈ s.started → (c.event w).status = complete := by
    intro hin
    have hlt := (hv.devices.started e hin).1
    rw [heff.le.waitList e hlt] at hw
    exact hkeep (hv.wellformed.events.waitList e hlt w hw) (h.completed e hin w hw)
  rcases heff.started with hsame | ⟨q, ready, o, rfl, happ, -⟩
  · exact hold (hsame ▸ he)
  · rcases List.mem_append.mp (happ ▸ he) with hin | hnew
    · exact hold hin
    · have hmem := (mem_started_scan hnew).1
      have hlt := (hv.wellformed.queues.listed q e hmem).1
      rw [heff.le.waitList e hlt] at hw
      have hzero := hok (heff.not_throttled happ hnew) e hmem (startable_of_mem_started hnew)
      exact hkeep (hv.wellformed.events.waitList e hlt w hw) (h.completed_of_started hnew hzero hw)

/-! ### What waits for a failed event -/

/-- The error of an event that will fail stays to be set. -/
lemma CleanOk.doomed_kept (h : CleanOk s) (ht : s.threads[t]? = some (f :: rest))
    (heff : Effect s.toCore f c fs) {d : ℕ} (hd : d < s.numEvents) (hdoomed : Doomed s d) :
    Doomed ⟨c, advance s.threads t fs⟩ d := by
  have hf := (next_of_getElem? ht).runs
  rcases hdoomed with hstatus | hrun | ⟨blocking, hrun⟩
  · have hle : (s.event d).status ≤ complete := by
      rw [hstatus]
      decide
    exact Or.inl ((h.status_thread hf heff hd hle).trans hstatus)
  · rcases runs_of_runs fs ht hrun with rfl | hstay
    · exact Or.inl heff.status_setStatus
    · exact Or.inr (Or.inl hstay)
  · rcases runs_of_runs fs ht hrun with rfl | hstay
    · have hnext : .construct d true blocking ∈ fs ∨ .setStatus d errorInWaitList ∈ fs := by
        cases heff with
        | built => exact Or.inr List.mem_cons_self
        | skipped | noticed | registered => exact Or.inl (List.mem_singleton_self _)
      rcases hnext with hnext | hnext
      · exact Or.inr (Or.inr ⟨blocking, runs_advance_of_mem ht hnext⟩)
      · exact Or.inr (Or.inl (runs_advance_of_mem ht hnext))
    · exact Or.inr (Or.inr ⟨blocking, hstay⟩)

/-- Before an event fails, what will wait for it waits for it. -/
lemma CleanOk.doomed_or_waits (h : CleanOk s) {d w : ℕ} (hd : d < s.numEvents)
    (hw : w ∈ (s.event d).waitList) (hne : (s.event w).status ≠ complete) :
    w ∈ (s.event d).unregistered ∨ w ∈ (s.event d).waitEvents ∨ Doomed s d := by
  rcases h.unstarted.valid.wellformed.events.waits d hd w hw with hfin | hwait | hun
  · exact h.doomed d hd w hw (lt_of_le_of_ne (h.settled w hfin) hne)
  · exact Or.inr (Or.inl hwait)
  · exact Or.inl hun

/-- A clean critical section keeps what is known of the events that wait for a failed one. -/
lemma CleanOk.doomed_thread (h : CleanOk s) (ht : s.threads[t]? = some (f :: rest))
    (heff : Effect s.toCore f c fs) {d w : ℕ} (hd : d < c.numEvents) (hw : w ∈ (c.event d).waitList)
    (hneg : (c.event w).status < 0) :
    w ∈ (c.event d).unregistered ∨ w ∈ (c.event d).waitEvents ∨
      Doomed ⟨c, advance s.threads t fs⟩ d := by
  have hv := h.unstarted.valid
  have hf := (next_of_getElem? ht).runs
  have hfok := hv.wellformed.frames f hf
  rcases lt_or_ge d s.numEvents with hlt | hge
  · rw [heff.le.waitList d hlt] at hw
    have hwlt := hv.wellformed.events.waitList d hlt w hw
    have hne : (s.event w).status ≠ complete := by
      intro hs
      rw [h.status_thread hf heff hwlt hs.le, hs] at hneg
      exact absurd hneg (by decide)
    rcases h.doomed_or_waits hlt hw hne with hun | hwait | hdoomed
    · rcases heff.unregistered hlt hun with hstay | ⟨failed, blocking, rfl, hs | hnext | hwait⟩
      · exact Or.inl hstay
      · exact absurd hs hne
      · exact Or.inr (Or.inr (Or.inr (Or.inr ⟨blocking, runs_advance_of_mem ht hnext⟩)))
      · exact Or.inr (Or.inl hwait)
    · rcases heff.waitEvents_kept hlt hwait with hstay | ⟨i, n, pushed, rfl⟩ | ⟨-, hnext⟩
      · exact Or.inr (Or.inl hstay)
      · exact absurd (h.notifies w i n pushed hf) hne
      · exact Or.inr (Or.inr (Or.inr (Or.inl (runs_advance_of_mem ht hnext))))
    · exact Or.inr (Or.inr (h.doomed_kept ht heff hlt hdoomed))
  · obtain ⟨kind, q, waitList, blocking, -, -, heq⟩ := heff.created_event hfok hge hd
    rw [heq] at hw ⊢
    exact Or.inl hw

/-! ### Steps -/

/-- The loops over the dependent events of an event go with its status. -/
lemma CleanOk.loop_thread (h : CleanOk s) (ht : s.threads[t]? = some (f :: rest))
    (heff : Effect s.toCore f c fs) {w i n : ℕ} :
    (∀ pushed, Runs (advance s.threads t fs) (.notify w i n pushed) → (c.event w).status = complete) ∧
      (Runs (advance s.threads t fs) (.fail w i n) → (c.event w).status < 0) := by
  have hv := h.unstarted.valid
  have hf := (next_of_getElem? ht).runs
  have hfok := hv.wellformed.frames f hf
  have hnotify : ∀ {i n pushed}, Runs s.threads (.notify w i n pushed) →
      (c.event w).status = complete := by
    intro i n pushed hrun
    have hs := h.notifies w i n pushed hrun
    exact (h.status_thread hf heff (hv.wellformed.frames _ hrun).1 hs.le).trans hs
  have hfail : ∀ {i n}, Runs s.threads (.fail w i n) → (c.event w).status < 0 := by
    intro i n hrun
    have hs := h.fails w i n hrun
    rw [h.status_thread hf heff (hv.wellformed.frames _ hrun).1 (le_of_lt hs)]
    exact hs
  refine ⟨fun pushed hrun => ?_, fun hrun => ?_⟩
  · rcases runs_advance hrun with hnew | hold
    · rcases (heff.loop_mem hnew).1 pushed rfl with rfl | ⟨i', pushed', rfl⟩
      · exact heff.status_setStatus
      · exact hnotify hf
    · exact hnotify hold
  · rcases runs_advance hrun with hnew | hold
    · rcases (heff.loop_mem hnew).2 rfl with ⟨status, rfl, hneg⟩ | ⟨i', rfl⟩
      · rw [heff.status_setStatus]
        exact hneg
      · exact hfail hf
    · exact hfail hold

/-- An event under construction has its constructor. -/
lemma CleanOk.unbuilt_thread (h : CleanOk s) (ht : s.threads[t]? = some (f :: rest))
    (heff : Effect s.toCore f c fs) {e : ℕ} (he : e < c.numEvents) (hb : (c.event e).built = false) :
    ∃ failed blocking, Runs (advance s.threads t fs) (.construct e failed blocking) := by
  have hf := (next_of_getElem? ht).runs
  rcases lt_or_ge e s.numEvents with hlt | hge
  · have hb' : (s.event e).built = false := by
      by_contra hcon
      rw [heff.le.built e hlt (Bool.not_eq_false _ ▸ hcon)] at hb
      cases hb
    obtain ⟨failed, blocking, hrun⟩ := h.unbuilt e hlt hb'
    rcases runs_of_runs fs ht hrun with rfl | hstay
    · cases heff with
      | built => simp [Core.setEvent] at hb
      | noticed => exact ⟨true, blocking, runs_advance_of_mem ht (List.mem_singleton_self _)⟩
      | skipped | registered =>
        exact ⟨failed, blocking, runs_advance_of_mem ht (List.mem_singleton_self _)⟩
    · exact ⟨failed, blocking, hstay⟩
  · obtain ⟨kind, q, waitList, blocking, -, hnew, -⟩ :=
      heff.created_event (h.unstarted.valid.wellformed.frames f hf) hge he
    exact ⟨false, blocking, runs_advance_of_mem ht hnew⟩

/-- A clean critical section keeps it. -/
lemma CleanOk.thread (h : CleanOk s) (hunstarted : UnstartedOk ⟨c, advance s.threads t fs⟩)
    (ht : s.threads[t]? = some (f :: rest)) (heff : Effect s.toCore f c fs) (hok : Clean s f) :
    CleanOk ⟨c, advance s.threads t fs⟩ := by
  have hv := h.unstarted.valid
  have hf := (next_of_getElem? ht).runs
  have hfok := hv.wellformed.frames f hf
  refine ⟨hunstarted, h.waits.thread hv ht heff, fun e he hk => ?_, fun e he hb => ?_, fun e hfin => ?_,
    fun e he hor => ?_, fun w i n pushed hrun => ?_, fun w i n hrun => ?_, fun e he w hw => ?_,
    fun d hd w hw hneg => ?_⟩
  · rcases lt_or_ge e s.numEvents with hlt | hge
    · rw [heff.le.kind e hlt] at hk
      rw [heff.le.waitList e hlt]
      exact h.user e hlt hk
    · obtain ⟨kind, q, waitList, blocking, hne, -, heq⟩ := heff.created_event hfok hge he
      rw [heq] at hk
      exact absurd hk hne
  · exact h.unbuilt_thread ht heff he hb
  · rcases heff.finished hfin with hold | ⟨status, rfl, hs⟩
    · have hle := h.settled e hold
      rw [h.status_thread hf heff (h.unstarted.order.past e hold).1 hle]
      exact hle
    · rw [heff.status_setStatus]
      exact hs
  · exact h.once_thread ht heff hok he hor
  · exact (h.loop_thread ht heff).1 pushed hrun
  · exact (h.loop_thread ht heff).2 hrun
  · exact h.completed_thread hf heff hok he hw
  · exact h.doomed_thread ht heff hd hw hneg

/-- A new thread asks for the ends that its frames stand for. -/
lemma pendingEnds_spawn (c : Core) (frames : List Frame) (e : ℕ) :
    pendingEnds (State.spawn ⟨c, s.threads⟩ frames) e =
      pendingEnds s e + (frames.map (endWeight e)).sum :=
  total_append _ _ _

/-- An event that does not exist is not asked to end. -/
lemma Valid.pendingEnds_eq_zero (hv : Valid s) {e : ℕ} (he : s.numEvents ≤ e) : pendingEnds s e = 0 := by
  by_contra hne
  obtain ⟨g, hg, hw⟩ := exists_runs_of_total_pos (Nat.pos_of_ne_zero hne)
  have hgok := hv.wellformed.frames g hg
  cases g with
  | setStatus e' status =>
    simp only [endWeight] at hw
    split at hw
    · rename_i heq
      exact absurd hgok.1 (not_lt.mpr (heq ▸ he))
    · exact absurd hw (lt_irrefl 0)
  | _ => exact absurd hw (lt_irrefl 0)

/-- A clean step that is no critical section lets an event end once. -/
lemma CleanOk.once_same (h : CleanOk s) (hm : Move s a s') (hok : CleanStep s a)
    (hne : ∀ t, a ≠ .thread t) (hsame : s.Same s'.toCore) {e : ℕ} (he : e < s'.numEvents)
    (hor : (s'.event e).kind = .user ∨ e ∈ s'.started) :
    pendingEnds s' e + s'.finished.count e ≤ allowedEnds s'.toCore e := by
  have hv := h.unstarted.valid
  rcases lt_or_ge e s.numEvents with hlt | hge
  · rw [hsame.event e hlt, hsame.started] at hor
    rw [hsame.finished, allowedEnds, hsame.event e hlt]
    have honce := h.once e hlt hor
    rw [allowedEnds] at honce
    cases hm with
    | createUserEvent => exact honce
    | @thread t => exact absurd rfl (hne t)
    | giveUp ht =>
      have htot := total_advance (endWeight e) [] ht
      simp only [endWeight, List.map_nil, List.sum_nil, Nat.add_zero] at htot
      simp only [pendingEnds, htot] at honce ⊢
      exact honce
    | @setUserEventStatus x status hx hk hs hsub =>
      rw [pendingEnds_spawn]
      by_cases hxe : x = e
      · subst hxe
        have hzero : pendingEnds s x = 0 := hok
        have hfin : s.finished.count x = 0 := by
          refine List.count_eq_zero_of_not_mem fun hin => ?_
          have hle := h.settled x hin
          rw [hsub] at hle
          exact absurd hle (by decide)
        rw [hzero, hfin, if_neg (by rw [hk]; decide)]
        simp [endWeight]
      · simp only [endWeight, List.map_cons, List.map_nil, List.sum_cons, List.sum_nil, if_neg hxe]
        exact honce
    | @endCommand x status hx hs =>
      rw [pendingEnds_spawn (s := s) { s.toCore with
        executing := s.executing.erase x, ended := x :: s.ended }]
      simp only [endWeight, List.map_cons, List.map_nil, List.sum_cons, List.sum_nil, State.spawn,
        List.count_cons, beq_iff_eq]
      by_cases hxe : x = e
      · subst hxe
        have hk := (hv.command_of_executing hx).1
        rw [if_pos hk] at honce ⊢
        rw [if_pos rfl]
        omega
      · rw [if_neg hxe]
        exact honce
    | enqueue | flush | finish =>
      rw [pendingEnds_spawn]
      simp only [endWeight, List.map_cons, List.map_nil, List.sum_cons, List.sum_nil, State.spawn]
      exact honce
    | @dispatch dev x es hdev =>
      rw [pendingEnds_spawn (s := s) { s.toCore with device := Function.update s.device dev es }]
      simp only [endWeight, List.map_cons, List.map_nil, List.sum_cons, List.sum_nil, State.spawn]
      exact honce
  · -- a new user event
    have hfin : s'.finished.count e = 0 := by
      rw [hsame.finished]
      exact List.count_eq_zero_of_not_mem fun hin =>
        absurd (h.unstarted.order.past e hin).1 (not_lt.mpr hge)
    have hthreads : pendingEnds s' e = pendingEnds s e := by
      cases hm with
      | createUserEvent => rfl
      | @thread t => exact absurd rfl (hne t)
      | _ => exact absurd he (not_lt.mpr hge)
    rw [hthreads, hv.pendingEnds_eq_zero hge, hfin]
    exact Nat.zero_le _

/-- A clean step that is no critical section keeps it. -/
lemma CleanOk.same (h : CleanOk s) (hunstarted : UnstartedOk s') (hm : Move s a s') (hok : CleanStep s a)
    (hne : ∀ t, a ≠ .thread t) (hsame : s.Same s'.toCore)
    (hruns : ∀ g, (∀ e blocking, g ≠ .queueEvent e blocking) → Runs s.threads g → Runs s'.threads g) :
    CleanOk s' := by
  have hv := h.unstarted.valid
  have hloop : ∀ {g}, (∀ f : Frame, Spawns s a f → g ≠ f) → Runs s'.threads g → Runs s.threads g := by
    intro g hspawn hrun
    rcases hm.runs hrun with hold | hnew | ⟨t, _, _, _, _, hcon, _⟩
    · exact hold
    · exact absurd rfl (hspawn g hnew)
    · exact absurd hcon (hne t)
  refine ⟨hunstarted, h.waits.same hv hsame hruns, fun e he hk => ?_, fun e he hb => ?_,
    fun e hfin => ?_, fun e he hor => h.once_same hm hok hne hsame he hor, fun w i n pushed hrun => ?_,
    fun w i n hrun => ?_, fun e he w hw => ?_, fun d hd w hw hneg => ?_⟩
  · rcases lt_or_ge e s.numEvents with hlt | hge
    · rw [hsame.event e hlt] at hk ⊢
      exact h.user e hlt hk
    · rw [hsame.fresh e hge he]
  · rcases lt_or_ge e s.numEvents with hlt | hge
    · rw [hsame.event e hlt] at hb
      obtain ⟨failed, blocking, hrun⟩ := h.unbuilt e hlt hb
      exact ⟨failed, blocking, hruns _ (by simp) hrun⟩
    · rw [hsame.fresh e hge he] at hb
      cases hb
  · rw [hsame.finished] at hfin
    rw [hsame.event e (h.unstarted.order.past e hfin).1]
    exact h.settled e hfin
  · have hold := hloop (by rintro f (_ | _) heq <;> cases heq) hrun
    rw [hsame.event w (hv.wellformed.frames _ hold).1]
    exact h.notifies w i n pushed hold
  · have hold := hloop (by rintro f (_ | _) heq <;> cases heq) hrun
    rw [hsame.event w (hv.wellformed.frames _ hold).1]
    exact h.fails w i n hold
  · rw [hsame.started] at he
    have hlt := (hv.devices.started e he).1
    rw [hsame.event e hlt] at hw
    rw [hsame.event w (hv.wellformed.events.waitList e hlt w hw)]
    exact h.completed e he w hw
  · rcases lt_or_ge d s.numEvents with hlt | hge
    · rw [Doomed, hsame.event d hlt]
      rw [hsame.event d hlt] at hw
      rw [hsame.event w (hv.wellformed.events.waitList d hlt w hw)] at hneg
      refine (h.doomed d hlt w hw hneg).imp_right fun hor => hor.imp_right ?_
      rintro (hstatus | hrun | ⟨blocking, hrun⟩)
      · exact Or.inl hstatus
      · exact Or.inr (Or.inl (hruns _ (by simp) hrun))
      · exact Or.inr (Or.inr ⟨blocking, hruns _ (by simp) hrun⟩)
    · rw [hsame.fresh d hge hd] at hw
      cases hw

/-- In a clean step the status of an event that has ended does not change. -/
lemma CleanOk.status_step (h : CleanOk s) (hstep : step s a = some s') {e : ℕ} (he : e < s.numEvents)
    (hle : (s.event e).status ≤ complete) : (s'.event e).status = (s.event e).status := by
  rcases (move_of_step hstep).effect_or_same with ⟨t, f, rest, fs, ht, -, heff, -⟩ | hsame
  · exact h.status_thread (next_of_getElem? ht).runs heff he hle
  · rw [hsame.event e he]

/-- A clean step keeps it. -/
lemma CleanOk.step (h : CleanOk s) (hok : CleanStep s a) (hstep : step s a = some s') : CleanOk s' := by
  have hm := move_of_step hstep
  have hunstarted := h.unstarted.step hstep
  rcases hm.effect_or_keeps with ⟨t, f, rest, fs, ht, rfl, heff, hthreads⟩ | ⟨hne, hsame, hruns⟩
  · have hs : s' = ⟨s'.toCore, advance s.threads t fs⟩ := by rw [← hthreads]
    rw [hs] at hunstarted ⊢
    exact h.thread hunstarted ht heff (hok f (by rw [ht]; rfl))
  · exact h.same hunstarted hm hok hne hsame hruns

end Steps

/-- It holds before the first call. -/
lemma cleanOk_init (outOfOrder : ℕ → Bool) (device : ℕ → ℕ) : CleanOk (init outOfOrder device) := by
  refine ⟨unstartedOk_init _ _, waitsOk_init _ _, ?_, ?_, ?_, ?_, ?_, ?_, ?_, ?_⟩ <;> simp [init, Runs]

/-! ### Errors of wait lists -/

/-- One event waits for another one. -/
def WaitsFor (c : Core) (w d : ℕ) : Prop := d < c.numEvents ∧ w ∈ (c.event d).waitList

/-- All calls have returned or sleep. -/
def Idle (s : State) : Prop := ∀ stack ∈ s.threads, ∀ f ∈ stack, f.asleep = true

instance (s : State) : Decidable (Idle s) :=
  inferInstanceAs (Decidable (∀ stack ∈ s.threads, ∀ f ∈ stack, f.asleep = true))

/-- A call that is not asleep is none that an idle state has. -/
lemma Idle.not_runs {s : State} (h : Idle s) {f : Frame} (hf : f.asleep = false) : ¬Runs s.threads f := by
  rintro ⟨stack, hstack, hmem⟩
  rw [h stack hstack f hmem] at hf
  cases hf

/-- What waits for an event that is not complete was not started, and is no user event. -/
lemma CleanOk.not_started {s : State} (h : CleanOk s) {w d : ℕ} (hwd : WaitsFor s.toCore w d)
    (hw : (s.event w).status ≠ complete) : d ∉ s.started ∧ (s.event d).kind ≠ .user := by
  refine ⟨fun hst => hw (h.completed d hst w hwd.2), fun hk => ?_⟩
  have hmem := hwd.2
  rw [h.user d hwd.1 hk] at hmem
  cases hmem

/-- When nothing goes on, what waits for a failed event has the error for it. -/
lemma CleanOk.failed_of_idle {s : State} (h : CleanOk s) (hidle : Idle s) {w d : ℕ}
    (hwd : WaitsFor s.toCore w d) (hw : (s.event w).status < 0) :
    (s.event d).status = errorInWaitList := by
  obtain ⟨hlt, hmem⟩ := hwd
  rcases h.doomed d hlt w hmem hw with hun | hwait | hstatus | hrun | ⟨blocking, hrun⟩
  · have hb : (s.event d).built = false := by
      by_contra hcon
      rw [h.unstarted.valid.wellformed.events.built d hlt (Bool.not_eq_false _ ▸ hcon)] at hun
      cases hun
    obtain ⟨failed, blocking, hrun⟩ := h.unbuilt d hlt hb
    exact absurd hrun (hidle.not_runs rfl)
  · rcases h.waits.awaited d hlt w hwait with ⟨hgt, -⟩ | ⟨i, n, j, -, -, -, hfail | ⟨pushed, hnotify⟩⟩
    · exact absurd hw (not_lt.mpr (le_of_lt hgt))
    · exact absurd hfail (hidle.not_runs rfl)
    · exact absurd hnotify (hidle.not_runs rfl)
  · exact hstatus
  · exact absurd hrun (hidle.not_runs rfl)
  · exact absurd hrun (hidle.not_runs rfl)

/-- In every clean run, what was created with a failed event in its wait list, directly or by way of other
events, is not handed over and not taken; when nothing goes on it has the error for that; and no failed
event changes its status later on. -/
theorem errors_passed_on {outOfOrder : ℕ → Bool} {device : ℕ → ℕ} {as : List Action} {s : State}
    (hok : RunOk step CleanStep (init outOfOrder device) as)
    (hrun : run step (init outOfOrder device) as = some s) :
    (∀ w d, Relation.TransGen (WaitsFor s.toCore) w d → (s.event w).status < 0 →
      d ∉ s.started ∧ (Idle s → (s.event d).status = errorInWaitList)) ∧
    ∀ as' s', RunOk step CleanStep s as' → run step s as' = some s' → ∀ e < s.numEvents,
      (s.event e).status < 0 → (s'.event e).status = (s.event e).status := by
  have h : CleanOk s := invariant_of_runOk (fun _ _ _ hI hok' hst => CleanOk.step hI hok' hst)
    hok hrun (cleanOk_init outOfOrder device)
  refine ⟨fun w d hwd hw => ?_, fun as' s' hok' hrun' e he hneg => ?_⟩
  · have hall : d ∉ s.started ∧ (s.event d).kind ≠ .user ∧
        (Idle s → (s.event d).status = errorInWaitList) := by
      induction hwd with
      | single hwd =>
        have hne : (s.event w).status ≠ complete := ne_of_lt hw
        obtain ⟨hst, hk⟩ := h.not_started hwd hne
        exact ⟨hst, hk, fun hidle => h.failed_of_idle hidle hwd hw⟩
      | @tail x d hwx hxd ih =>
        obtain ⟨hst, hk, herror⟩ := ih
        have hx : x < s.numEvents :=
          h.unstarted.valid.wellformed.events.waitList d hxd.1 x hxd.2
        have hne : (s.event x).status ≠ complete := by
          intro hs
          rcases h.unstarted.status x hx hk hst with hq | hfailed
          · rw [hs] at hq
            exact absurd hq (by decide)
          · rw [hs] at hfailed
            exact absurd hfailed (by decide)
        obtain ⟨hst', hk'⟩ := h.not_started hxd hne
        refine ⟨hst', hk', fun hidle => h.failed_of_idle hidle hxd ?_⟩
        rw [herror hidle]
        decide
    exact ⟨hall.1, hall.2.2⟩
  · have hkeep : CleanOk s' ∧ e < s'.numEvents ∧ (s'.event e).status = (s.event e).status := by
      refine invariant_of_runOk (I := fun x => CleanOk x ∧ e < x.numEvents ∧
        (x.event e).status = (s.event e).status) ?_ hok' hrun' ⟨h, he, rfl⟩
      rintro x a x' ⟨hx, hlt, hs⟩ hclean hst
      have hle : (x.event e).status ≤ complete := by
        rw [hs]
        exact le_of_lt hneg
      exact ⟨hx.step hclean hst, hlt.trans_le (move_of_step hst).le.num,
        (hx.status_step hst hlt hle).trans hs⟩
    exact hkeep.2.2

/-- A command that waits for a user event, one of another queue that waits for the first one, and the failure
of the user event. -/
def chainFails : List Action :=
  .createUserEvent :: .enqueue 0 .command [0] false :: List.replicate 6 (.thread 0) ++
    .enqueue 1 .command [1] false :: List.replicate 6 (.thread 1) ++
    .setUserEventStatus 0 (-1) :: List.replicate 11 (.thread 2)

/-- A command that waits for a user event.  The user event fails, and the application flushes the queue before
the error is passed on. -/
def startedInBetween : List Action :=
  .createUserEvent :: .enqueue 0 .command [0] false :: List.replicate 6 (.thread 0) ++
    [.setUserEventStatus 0 (-1), .thread 1, .thread 1, .flush 0, .thread 2, .thread 1]

/-- The device executes the command. -/
def completedLater : List Action :=
  [.thread 1, .thread 1, .thread 1, .dispatch 0, .thread 3, .thread 3, .endCommand 1 0, .thread 4,
    .thread 4, .thread 4]

/-- In the second run the command is on the device when it gets the error, and is complete in the end. -/
theorem not_errors_passed_on :
    ∃ s s', run step (init (fun _ => true) fun _ => 0) startedInBetween = some s ∧
      run step s completedLater = some s' ∧ WaitsFor s.toCore 0 1 ∧ (s.event 0).status = -1 ∧
      (s.event 1).status = errorInWaitList ∧ 1 ∈ s.started ∧ Idle s' ∧ (s'.event 0).status = -1 ∧
      (s'.event 1).status = complete := by
  have hsome : ((run step (init (fun _ => true) fun _ => 0) startedInBetween).bind fun s =>
      (run step s completedLater).map fun s' =>
        decide (1 < s.numEvents ∧ 0 ∈ (s.event 1).waitList ∧ (s.event 0).status = -1 ∧
          (s.event 1).status = errorInWaitList ∧ 1 ∈ s.started ∧ Idle s' ∧ (s'.event 0).status = -1 ∧
          (s'.event 1).status = complete)) = some true := by
    decide
  obtain ⟨s, hs, hmap⟩ := Option.bind_eq_some_iff.mp hsome
  obtain ⟨s', hs', hdec⟩ := Option.map_eq_some_iff.mp hmap
  obtain ⟨hlt, hmem, hrest⟩ := of_decide_eq_true hdec
  exact ⟨s, s', hs, hs', ⟨hlt, hmem⟩, hrest⟩

/-- In the first run, which is clean, the second command gets the error by way of the first one, and keeps
it. -/
theorem errors_passed_on_chainFails :
    ∃ s, run step (init (fun _ => true) fun _ => 0) chainFails = some s ∧
      (2 ∉ s.started ∧ (s.event 2).status = errorInWaitList) ∧
      ∀ as' s', RunOk step CleanStep s as' → run step s as' = some s' →
        (s'.event 2).status = (s.event 2).status := by
  have hsome : (run step (init (fun _ => true) fun _ => 0) chainFails).map (fun s =>
      decide (2 < s.numEvents ∧ 0 ∈ (s.event 1).waitList ∧ 1 ∈ (s.event 2).waitList ∧
        (s.event 0).status < 0 ∧ Idle s)) = some true := by
    decide
  obtain ⟨s, hs, hdec⟩ := Option.map_eq_some_iff.mp hsome
  obtain ⟨hlt, hone, htwo, hneg, hidle⟩ := of_decide_eq_true hdec
  obtain ⟨hpassed, hkept⟩ := errors_passed_on (by decide) hs
  have hchain : Relation.TransGen (WaitsFor s.toCore) 0 2 :=
    (Relation.TransGen.single ⟨by omega, hone⟩).tail ⟨hlt, htwo⟩
  obtain ⟨hnot, herror⟩ := hpassed 0 2 hchain hneg
  have hstatus := herror hidle
  refine ⟨s, hs, ⟨hnot, hstatus⟩, fun as' s' hok' hrun' => hkept as' s' hok' hrun' 2 hlt ?_⟩
  rw [hstatus]
  decide

end TiOpenCL.CommandQueue
