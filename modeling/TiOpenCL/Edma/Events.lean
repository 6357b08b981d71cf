import TiOpenCL.Edma.Pool
import TiOpenCL.Library.Machine

/-!
# The events of a kernel

The events that a kernel has not waited for are entries of the pool.  As long as the pool is never freed
under such an event, they have channels of their own, the entry that is taken without a search is free, and
no channel is used after it was freed (`exclusive_of_run`).  `free_edma_channel_pool` does not wait: after
it, an event that is still out refers to an entry that can be given away again, and to a channel that is
gone (`not_exclusive`).
-/

namespace TiOpenCL

namespace Edma

open Machine

variable {n : ℕ} {Handle : Type} [DecidableEq Handle]

/-! ### Sequences of calls -/

/-- A core, and the events of the pool that were returned and not waited for. -/
structure State (n : ℕ) (Handle : Type) where
  core : Core n Handle
  unwaited : List (Fin n)

/-- An event can be used: it is null, `memcpy_event`, or one that was returned and not waited for. -/
def State.EventOk (st : State n Handle) (event : Option (EventPtr n)) : Prop :=
  ∀ i, event = some (.pool i) → i ∈ st.unwaited

/-- The channel manager returns a channel that is not allocated, or none. -/
def State.Fresh (st : State n Handle) (answer : Option Handle) : Prop :=
  ∀ x ∈ answer, x ∉ allocated st.core.calls

/-- The events that were not waited for after a copy returned one. -/
def returned (unwaited : List (Fin n)) (event : Option (EventPtr n)) : EventPtr n → List (Fin n)
  | .memcpyEvent => unwaited
  | .pool i => if event = some (.pool i) then unwaited else i :: unwaited

/-- The events that were not waited for after a wait. -/
def State.wait (st : State n Handle) (event : Option (EventPtr n)) : State n Handle :=
  ⟨st.core.copyWait event, st.unwaited.filter fun i => event ≠ some (.pool i)⟩

/-- The state after a copy. -/
def State.copy (st : State n Handle) (answer : Option Handle) (c : Copy n) : State n Handle :=
  ⟨(st.core.copy answer c).1, returned st.unwaited c.event (st.core.copy answer c).2⟩

/-- A call. -/
inductive Action (n : ℕ) (Handle : Type) where
  | copy (c : Copy n) (answer : Option Handle)
  | wait (event : Option (EventPtr n))
  | waitAndFree
  | freePool

/-- A call of `free_edma_channel_pool`. -/
def Action.freesPool : Action n Handle → Bool
  | .freePool => true
  | _ => false

instance (st : State n Handle) (event : Option (EventPtr n)) : Decidable (st.EventOk event) :=
  inferInstanceAs (Decidable (∀ i, event = some (.pool i) → i ∈ st.unwaited))

instance (st : State n Handle) (answer : Option Handle) : Decidable (st.Fresh answer) :=
  inferInstanceAs (Decidable (∀ x ∈ answer, x ∉ allocated st.core.calls))

/-- A call, where `channels` is `EdmaMgr_channels`. -/
def step (channels : List Handle) (st : State n Handle) : Action n Handle → Option (State n Handle)
  | .copy c answer => if st.EventOk c.event ∧ st.Fresh answer then some (st.copy answer c) else none
  | .wait event => if st.EventOk event then some (st.wait event) else none
  | .waitAndFree => some ⟨st.core.waitAndFreeEdmaChannels channels, []⟩
  | .freePool => some ⟨st.core.freeEdmaChannelPool, st.unwaited⟩

/-- The events have channels of their own, the entry that is taken first is available, and only allocated
channels were used. -/
structure Exclusive (st : State n Handle) : Prop where
  channels : (st.unwaited.map fun i => (st.core.pool i).channel).Nodup
  available : ∀ i, st.core.available = some i → (st.core.pool i).status = .available
  uses : UsesAllocated st.core.calls

/-- The pool is not freed while an event is out. -/
def Waited (st : State n Handle) (a : Action n Handle) : Prop := a.freesPool = true → st.unwaited = []

instance (st : State n Handle) (a : Action n Handle) : Decidable (Waited st a) :=
  inferInstanceAs (Decidable (a.freesPool = true → st.unwaited = []))

/-! ### The invariant -/

/-- The events that were not waited for are entries in use, each one once. -/
structure EventsOk (st : State n Handle) : Prop where
  ok : PoolOk st.core
  nodup : st.unwaited.Nodup
  inUse : ∀ i ∈ st.unwaited, (st.core.pool i).status = .inUse

namespace EventsOk

variable {st : State n Handle}

/-- An entry in use has a channel. -/
lemma heldOf (h : EventsOk st) {i : Fin n} (hi : i ∈ st.unwaited) : st.core.Held i := by
  rw [Core.Held, h.inUse i hi]
  decide

/-- The events have channels of their own. -/
lemma exclusive (h : EventsOk st) : Exclusive st := by
  refine ⟨?_, h.ok.available, h.ok.uses⟩
  refine h.nodup.map_on fun i hi j hj heq => ?_
  exact h.ok.distinct i j (h.heldOf hi) (h.heldOf hj) heq

/-- A copy. -/
lemma copy (h : EventsOk st) {c : Copy n} {answer : Option Handle} (hevent : st.EventOk c.event)
    (hfresh : st.Fresh answer) : EventsOk (st.copy answer c) := by
  have hspec := CopySpec.copy h.ok c (fun i hi => h.inUse i (hevent i hi)) hfresh
  have hold : ∀ i ∈ st.unwaited, ((st.core.copy answer c).1.pool i).status = .inUse :=
    fun i hi => hspec.inUse i (h.inUse i hi)
  cases hret : (st.core.copy answer c).2 with
  | memcpyEvent =>
    refine ⟨hspec.ok, ?_, ?_⟩ <;> simp only [State.copy, hret, returned]
    · exact h.nodup
    · exact hold
  | pool i =>
    by_cases hgiven : c.event = some (.pool i)
    · refine ⟨hspec.ok, ?_, ?_⟩ <;> simp only [State.copy, hret, returned, if_pos hgiven]
      · exact h.nodup
      · exact hold
    · -- The entry was not in use, so it is none of the events that are out.
      have hnew := (hspec.new i (congrArg some hret)).resolve_left hgiven
      refine ⟨hspec.ok, ?_, ?_⟩ <;> simp only [State.copy, hret, returned, if_neg hgiven]
      · exact List.nodup_cons.mpr ⟨fun hi => hnew (h.inUse i hi), h.nodup⟩
      · intro j hj
        rcases List.mem_cons.mp hj with rfl | hmem
        · exact hspec.taken j (congrArg some hret)
        · exact hold j hmem

/-- A wait. -/
lemma wait (h : EventsOk st) {event : Option (EventPtr n)} (hevent : st.EventOk event) :
    EventsOk (st.wait event) := by
  rcases event with _ | ⟨i⟩ | _
  · refine ⟨h.ok, h.nodup.filter _, fun i hi => ?_⟩
    exact h.inUse i (List.mem_of_mem_filter hi)
  · have hi := h.inUse i (hevent i rfl)
    refine ⟨h.ok.copyWait hi, h.nodup.filter _, fun j hj => ?_⟩
    obtain ⟨hmem, hne⟩ := List.mem_filter.mp hj
    have hji : j ≠ i := fun heq => by simp [heq] at hne
    have hpool : (st.wait (some (.pool i))).core.pool j = st.core.pool j := by
      simp only [State.wait, Core.copyWait, if_neg (h.ok.notMemcpy i)]
      exact Core.setSlot_of_ne _ hji _
    rw [hpool]
    exact h.inUse j hmem
  · refine ⟨h.ok, h.nodup.filter _, fun i hi => ?_⟩
    exact h.inUse i (List.mem_of_mem_filter hi)

end EventsOk

/-- The invariant of the calls: no channel of a kernel is in the table. -/
def Invariant (st : State n Handle) : Prop := EventsOk st ∧ st.core.intra = []

/-- A call that frees the pool only if no event is out keeps the invariant. -/
lemma invariant_step {channels : List Handle} {st st' : State n Handle} {a : Action n Handle}
    (h : Invariant st) (hwaited : Waited st a) (hstep : step channels st a = some st') : Invariant st' := by
  obtain ⟨hevents, hintra⟩ := h
  cases a with
  | copy c answer =>
    simp only [step] at hstep
    split_ifs at hstep with hok
    obtain rfl : st.copy answer c = st' := Option.some.inj hstep
    have hspec := CopySpec.copy hevents.ok c (fun i hi => hevents.inUse i (hok.1 i hi)) hok.2
    exact ⟨hevents.copy hok.1 hok.2, hspec.intra.trans hintra⟩
  | wait event =>
    simp only [step] at hstep
    split_ifs at hstep with hok
    obtain rfl : st.wait event = st' := Option.some.inj hstep
    refine ⟨hevents.wait hok, ?_⟩
    refine Eq.trans ?_ hintra
    unfold State.wait Core.copyWait
    split
    · rfl
    · rfl
    · split_ifs <;> rfl
  | waitAndFree =>
    obtain rfl : (⟨st.core.waitAndFreeEdmaChannels channels, []⟩ : State n Handle) = st' :=
      Option.some.inj hstep
    refine ⟨⟨?_, List.nodup_nil, by simp⟩, rfl⟩
    show PoolOk (st.core.waitAndFreeEdmaChannels channels)
    rw [Core.waitAndFreeEdmaChannels_eq, hintra]
    exact (hevents.ok.waitLoops channels).of_intra []
  | freePool =>
    obtain rfl : (⟨st.core.freeEdmaChannelPool, st.unwaited⟩ : State n Handle) = st' := Option.some.inj hstep
    have hnone : st.unwaited = [] := hwaited rfl
    refine ⟨⟨hevents.ok.freeEdmaChannelPool, hevents.nodup, fun i hi => ?_⟩, ?_⟩
    · rw [hnone] at hi
      exact absurd hi List.not_mem_nil
    · exact (Core.freeEdmaChannelPool_intra st.core).trans hintra

/-- In every run from the startup on that frees the pool only if no event is out, the events have channels
of their own and no channel is used after it was freed. -/
theorem exclusive_of_run [NeZero n] {channels : List Handle} {answers : Fin n → Option Handle}
    (hdistinct : Distinct answers) {contents : Contents} {core : Core n Handle}
    (hstart : Core.initializeEdmaChannelPool answers contents = some core) {as : List (Action n Handle)}
    (hwaited : RunOk (step channels) Waited ⟨core, []⟩ as) {st : State n Handle}
    (hrun : run (step channels) ⟨core, []⟩ as = some st) : Exclusive st := by
  obtain ⟨hok, hintra⟩ := poolOk_startUp hdistinct hstart
  have hfirst : Invariant (⟨core, []⟩ : State n Handle) := ⟨⟨hok, List.nodup_nil, by simp⟩, hintra⟩
  have hlast : Invariant st :=
    invariant_of_runOk (fun _ _ _ h hok hstep => invariant_step h hok hstep) hwaited hrun hfirst
  exact hlast.1.exclusive

/-- A copy of 4096 bytes. -/
def sampleCopy : Copy 16 := .copy1D1D none ⟨.globalMem, 0x80000000#32⟩ ⟨.localMem, 0x00800000#32⟩ 0x1000#32

/-- The channels that the startup gets. -/
def sampleAnswers (i : Fin 16) : Option ℕ := some i.val

/-- The pool after the startup. -/
def samplePool : Option (Core 16 ℕ) := Core.initializeEdmaChannelPool sampleAnswers fun _ _ => 0

/-- The state after some calls. -/
def sampleRun (as : List (Action 16 ℕ)) : Option (State 16 ℕ) :=
  samplePool.bind fun core => run (step (List.range 16)) ⟨core, []⟩ as

/-- No call frees the pool while an event is out. -/
def sampleWaited (as : List (Action 16 ℕ)) : Bool :=
  (samplePool.map fun core => decide (RunOk (step (List.range 16)) Waited ⟨core, []⟩ as)).getD false

/-- The pool is freed after the kernel waited, and used again. -/
def sampleCalls : List (Action 16 ℕ) :=
  [.copy sampleCopy none, .copy sampleCopy none, .waitAndFree, .freePool, .copy sampleCopy (some 7)]

/-- The pool is freed before the kernel waited. -/
def freedCalls : List (Action 16 ℕ) := [.copy sampleCopy none, .freePool, .copy sampleCopy (some 7)]

/-- The startup gets different channels. -/
lemma sampleAnswers_distinct : Distinct sampleAnswers := by
  intro i j x hi hj
  exact Fin.ext (Option.some.inj (hi.trans hj.symm))

/-- Two copies, the cleanup, the pool is freed, and another copy. -/
theorem exclusive_sample : ∃ st, sampleRun sampleCalls = some st ∧ Exclusive st := by
  cases hpool : samplePool with
  | none => exact absurd (congrArg Option.isSome hpool) (by decide)
  | some core =>
    have hwaited : sampleWaited sampleCalls = true := by decide +kernel
    have hsome : (sampleRun sampleCalls).isSome = true := by decide +kernel
    rw [sampleWaited, hpool, Option.map_some, Option.getD_some] at hwaited
    obtain ⟨st, hst⟩ := Option.isSome_iff_exists.mp hsome
    refine ⟨st, hst, ?_⟩
    rw [sampleRun, hpool, Option.bind_some] at hst
    have hok : RunOk (step (List.range 16)) Waited ⟨core, []⟩ sampleCalls := of_decide_eq_true hwaited
    exact exclusive_of_run sampleAnswers_distinct hpool hok hst

/-- A copy, the pool is freed, and another copy: the two events are the same entry. -/
theorem not_exclusive :
    ¬∀ (core : Core 16 ℕ) (as : List (Action 16 ℕ)) (st : State 16 ℕ),
      samplePool = some core → run (step (List.range 16)) ⟨core, []⟩ as = some st → Exclusive st := by
  intro h
  have hunwaited : (sampleRun freedCalls).map (fun st => st.unwaited.map Fin.val) = some [0, 0] := by
    decide
  obtain ⟨st, hst, hevents⟩ := Option.map_eq_some_iff.mp hunwaited
  obtain ⟨core, hcore, hrun⟩ := Option.bind_eq_some_iff.mp hst
  have hnodup := (h core freedCalls st hcore hrun).channels
  cases hlist : st.unwaited with
  | nil => rw [hlist] at hevents; simp at hevents
  | cons i l =>
    cases l with
    | nil => rw [hlist] at hevents; simp at hevents
    | cons j l =>
      rw [hlist] at hevents hnodup
      simp only [List.map_cons, List.cons.injEq, List.map_eq_nil_iff] at hevents
      obtain rfl : i = j := Fin.ext (hevents.1.trans hevents.2.1.symm)
      simp at hnodup

end Edma

end TiOpenCL
