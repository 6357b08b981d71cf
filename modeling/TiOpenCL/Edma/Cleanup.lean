import TiOpenCL.Edma.Events

/-!
# Cleaning up after a kernel

A kernel allocates channels of its own with `__ocl_EdmaMgr_alloc_intrakernel`, which enters them in a
table; `wait_and_free_edma_channels` frees the channels of the table if the kernel is killed.  The table has
room for all channels but one, and is not changed when a channel is freed, so the same channel can be
entered again, or can go into the pool in the meantime.  The cleanup is right exactly if the channels
that the kernel still has are among the first that it got, and none of these belongs to the pool
(`cleanedUp_iff`).
-/

namespace TiOpenCL

namespace Edma

open Machine

variable {n : ℕ} {Handle : Type} [DecidableEq Handle]

/-! ### Calls of a kernel -/

/-- A call of a kernel. -/
inductive KernelCall (n : ℕ) (Handle : Type) where
  | copy (c : Copy n) (answer : Option Handle)
  | wait (event : Option (EventPtr n))
  | allocIntrakernel (answer : Option Handle)
  | free (h : Handle)

/-- A core that runs a kernel. -/
structure Kernel (n : ℕ) (Handle : Type) extends State n Handle where
  /-- The channels that the kernel allocated and did not free. -/
  owned : List Handle
  /-- The channels that it got, in order. -/
  got : List Handle

/-- A kernel starts: `reset_intra_kernel_edma_channels`. -/
def Kernel.start (core : Core n Handle) : Kernel n Handle :=
  ⟨⟨core.resetIntraKernelEdmaChannels, []⟩, [], []⟩

/-- The kernel allocates a channel. -/
def Kernel.alloc (k : Kernel n Handle) (answer : Option Handle) : Kernel n Handle :=
  ⟨⟨k.core.allocIntrakernel answer, k.unwaited⟩, answer.toList ++ k.owned, k.got ++ answer.toList⟩

/-- The kernel frees a channel. -/
def Kernel.free (k : Kernel n Handle) (h : Handle) : Kernel n Handle :=
  ⟨⟨k.core.free h, k.unwaited⟩, k.owned.filter (· ≠ h), k.got⟩

/-- A call of a kernel; it frees channels that it allocated. -/
def kernelStep (k : Kernel n Handle) : KernelCall n Handle → Option (Kernel n Handle)
  | .copy c answer =>
    if k.EventOk c.event ∧ k.Fresh answer then some { k with toState := k.copy answer c } else none
  | .wait event => if k.EventOk event then some { k with toState := k.wait event } else none
  | .allocIntrakernel answer => if k.Fresh answer then some (k.alloc answer) else none
  | .free h => if h ∈ k.owned then some (k.free h) else none

/-- `wait_and_free_edma_channels` frees all channels of the kernel, and the channels of the pool are still
allocated. -/
def Kernel.CleanedUp (channels : List Handle) (k : Kernel n Handle) : Prop :=
  (∀ h ∈ k.owned, h ∉ allocated (k.core.waitAndFreeEdmaChannels channels).calls) ∧
    ∀ i, (k.core.pool i).status ≠ .notAllocated →
      ∀ h ∈ (k.core.pool i).channel, h ∈ allocated (k.core.waitAndFreeEdmaChannels channels).calls

instance (channels : List Handle) (k : Kernel n Handle) : Decidable (k.CleanedUp channels) :=
  inferInstanceAs (Decidable (_ ∧ _))

/-- The channels that the kernel got first, as many as the table has room for. -/
def Kernel.recorded (k : Kernel n Handle) : List Handle := k.got.take (n - 1)

/-- The channels that the kernel still has are among the first, and none of these is in the pool. -/
def Kernel.Recorded (k : Kernel n Handle) : Prop :=
  (∀ h ∈ k.owned, h ∈ k.recorded) ∧
    ∀ h ∈ k.recorded, ∀ i, (k.core.pool i).status ≠ .notAllocated → (k.core.pool i).channel ≠ some h

/-! ### The table of channels -/

/-- What the kernel, the pool and the channel manager know about channels. -/
structure KernelOk (k : Kernel n Handle) : Prop where
  events : EventsOk k.toState
  /-- The table has the channels that the kernel got first. -/
  table : k.core.intra = k.recorded
  /-- The channels of the kernel are allocated. -/
  owned : ∀ h ∈ k.owned, h ∈ allocated k.core.calls
  /-- They are not in the pool. -/
  apart : ∀ h ∈ k.owned, ∀ i, k.core.Held i → (k.core.pool i).channel ≠ some h

omit [DecidableEq Handle] in
/-- One more channel in a table with room for `m`. -/
lemma take_append_singleton (l : List Handle) (x : Handle) (m : ℕ) :
    (l ++ [x]).take m = if (l.take m).length < m then l.take m ++ [x] else l.take m := by
  rw [List.length_take]
  rcases Nat.lt_or_ge l.length m with hlt | hge
  · have hle : (l ++ [x]).length ≤ m := by
      rw [List.length_append, List.length_singleton]
      exact hlt
    rw [if_pos (by omega), List.take_of_length_le hlt.le, List.take_of_length_le hle]
  · rw [if_neg (by omega), List.take_append_of_le_length hge]

omit [DecidableEq Handle] in
/-- The table after the kernel allocates a channel. -/
lemma allocIntrakernel_eq (s : Core n Handle) (x : Handle) :
    s.allocIntrakernel (some x) = { s.issue (.alloc (some x)) with
      intra := if s.intra.length < n - 1 then s.intra ++ [x] else s.intra } := by
  have hintra : (s.issue (.alloc (some x))).intra = s.intra := rfl
  simp only [Core.allocIntrakernel, hintra]
  by_cases hroom : s.intra.length < n - 1
  · rw [if_pos hroom, if_pos hroom]
  · rw [if_neg hroom, if_neg hroom]
    rfl

namespace KernelOk

variable {k k' : Kernel n Handle}

/-- A kernel starts. -/
lemma start {core : Core n Handle} (h : PoolOk core) : KernelOk (Kernel.start core) :=
  ⟨⟨h.of_intra [], List.nodup_nil, by simp [Kernel.start]⟩, by simp [Kernel.start, Kernel.recorded,
    Core.resetIntraKernelEdmaChannels], by simp [Kernel.start], by simp [Kernel.start]⟩

/-- A copy. -/
lemma copy (h : KernelOk k) {c : Copy n} {answer : Option Handle} (hevent : k.EventOk c.event)
    (hfresh : k.Fresh answer) : KernelOk { k with toState := k.copy answer c } := by
  have hspec := CopySpec.copy h.events.ok c (fun i hi => h.events.inUse i (hevent i hi)) hfresh
  refine ⟨h.events.copy hevent hfresh, hspec.intra.trans h.table, fun x hx => ?_, fun x hx i hi hchannel => ?_⟩
  · exact hspec.allocated x (h.owned x hx)
  · rcases hspec.channels i x hi hchannel with ⟨hheld, hold⟩ | hnew
    · exact h.apart x hx i hheld hold
    · exact hfresh x hnew (h.owned x hx)

/-- A wait. -/
lemma wait (h : KernelOk k) {event : Option (EventPtr n)} (hevent : k.EventOk event) :
    KernelOk { k with toState := k.wait event } := by
  rcases event with _ | ⟨i⟩ | _
  · exact ⟨h.events.wait hevent, h.table, h.owned, h.apart⟩
  · have hinUse := h.events.inUse i (hevent i rfl)
    have hheld := h.events.heldOf (hevent i rfl)
    have hcore : (k.wait (some (.pool i))).core =
        { (k.core.issue (.wait (k.core.pool i).channel)).setStatus i .available with available := some i } := by
      rw [State.wait, Core.copyWait, if_neg (h.events.ok.notMemcpy i)]
    refine ⟨h.events.wait hevent, ?_, fun x hx => ?_, fun x hx j hj => ?_⟩
    · show (k.wait (some (.pool i))).core.intra = _
      rw [hcore]
      exact h.table
    · show x ∈ allocated (k.wait (some (.pool i))).core.calls
      rw [hcore]
      exact h.owned x hx
    · show ((k.wait (some (.pool i))).core.pool j).channel ≠ some x
      have hj' : (k.wait (some (.pool i))).core.Held j := hj
      rw [hcore] at hj' ⊢
      rcases eq_or_ne j i with rfl | hne
      · show ((Core.setStatus _ j .available).pool j).channel ≠ some x
        rw [Core.setStatus, Core.setSlot_self]
        exact h.apart x hx j hheld
      · have hpool : ((k.core.issue (.wait (k.core.pool i).channel)).setStatus i .available).pool j =
            k.core.pool j := Core.setSlot_of_ne _ hne _
        have hstatus : (((k.core.issue (.wait (k.core.pool i).channel)).setStatus i .available).pool j).status ≠
            .notAllocated := hj'
        rw [hpool] at hstatus
        show (((k.core.issue (.wait (k.core.pool i).channel)).setStatus i .available).pool j).channel ≠ some x
        rw [hpool]
        exact h.apart x hx j hstatus
  · exact ⟨h.events.wait hevent, h.table, h.owned, h.apart⟩

/-- The kernel allocates a channel. -/
lemma alloc (h : KernelOk k) {answer : Option Handle} (hfresh : k.Fresh answer) : KernelOk (k.alloc answer) := by
  cases answer with
  | none =>
    have hcall : PoolOk (k.core.issue (.alloc none)) := h.events.ok.issue (fun _ => rfl) (by simp [Call.uses])
    refine ⟨⟨hcall, h.events.nodup, h.events.inUse⟩, ?_, h.owned, h.apart⟩
    rw [Kernel.recorded, Kernel.alloc, Option.toList_none, List.append_nil]
    exact h.table
  | some x =>
    have hcall : PoolOk (k.core.issue (.alloc (some x))) := by
      refine ⟨h.events.ok.notMemcpy, fun i hi => ?_, h.events.ok.distinct, h.events.ok.available,
        by simp [Call.uses], h.events.ok.uses⟩
      obtain ⟨y, hy, hchannel⟩ := h.events.ok.held i hi
      exact ⟨y, List.mem_cons_of_mem _ hy, hchannel⟩
    -- The table grows if there is room; everything else is as after the call.
    have hcore : k.core.allocIntrakernel (some x) =
        { k.core.issue (.alloc (some x)) with intra := (k.got ++ [x]).take (n - 1) } := by
      rw [take_append_singleton, ← Kernel.recorded, ← h.table, allocIntrakernel_eq]
    have hlast : (k.alloc (some x)).core =
        { k.core.issue (.alloc (some x)) with intra := (k.got ++ [x]).take (n - 1) } := hcore
    refine ⟨⟨?_, h.events.nodup, ?_⟩, ?_, fun y hy => ?_, fun y hy i hi => ?_⟩
    · rw [hlast]
      exact hcall.of_intra _
    · rw [hlast]
      exact h.events.inUse
    · rw [hlast]
      rfl
    · rw [hlast]
      rcases List.mem_cons.mp hy with rfl | hold
      · exact List.mem_cons_self
      · exact List.mem_cons_of_mem _ (h.owned y hold)
    · rw [hlast] at hi ⊢
      rcases List.mem_cons.mp hy with rfl | hold
      · exact fun hchannel => hfresh y rfl (h.events.ok.channel_mem hi hchannel)
      · exact h.apart y hold i hi

/-- The kernel frees a channel. -/
lemma free (h : KernelOk k) {x : Handle} (hx : x ∈ k.owned) : KernelOk (k.free x) := by
  have hcall : PoolOk (k.core.issue (.free (some x))) := by
    refine ⟨h.events.ok.notMemcpy, fun i hi => ?_, h.events.ok.distinct, h.events.ok.available, fun y hy => ?_,
      h.events.ok.uses⟩
    · obtain ⟨y, hy, hchannel⟩ := h.events.ok.held i hi
      refine ⟨y, List.mem_filter.mpr ⟨hy, ?_⟩, hchannel⟩
      have hyx : y ≠ x := fun heq => h.apart x hx i hi (heq ▸ hchannel)
      simpa using hyx
    · obtain rfl : x = y := Option.some.inj hy
      exact h.owned x hx
  refine ⟨⟨hcall, h.events.nodup, h.events.inUse⟩, h.table, fun y hy => ?_, fun y hy => ?_⟩
  · obtain ⟨hmem, hne⟩ := List.mem_filter.mp hy
    exact List.mem_filter.mpr ⟨h.owned y hmem, hne⟩
  · exact h.apart y (List.mem_of_mem_filter hy)

/-- A call of a kernel. -/
lemma step (h : KernelOk k) {a : KernelCall n Handle} (hstep : kernelStep k a = some k') : KernelOk k' := by
  cases a with
  | copy c answer =>
    simp only [kernelStep] at hstep
    split_ifs at hstep with hok
    obtain rfl := Option.some.inj hstep
    exact h.copy hok.1 hok.2
  | wait event =>
    simp only [kernelStep] at hstep
    split_ifs at hstep with hok
    obtain rfl := Option.some.inj hstep
    exact h.wait hok
  | allocIntrakernel answer =>
    simp only [kernelStep] at hstep
    split_ifs at hstep with hok
    obtain rfl := Option.some.inj hstep
    exact h.alloc hok
  | free x =>
    simp only [kernelStep] at hstep
    split_ifs at hstep with hok
    obtain rfl := Option.some.inj hstep
    exact h.free hok

end KernelOk

/-! ### The cleanup -/

/-- Waiting frees nothing. -/
lemma waitLoops_allocated (channels : List Handle) (s : Core n Handle) :
    allocated (s.waitLoops channels).calls = allocated s.calls := by
  refine Core.waitLoops_induction (P := fun t => allocated t.calls = allocated s.calls) rfl
    (fun t i ht => ?_) fun t x ht => ?_
  · refine Eq.trans ?_ ht
    unfold Core.waitSlot Core.copyWait
    dsimp only
    split_ifs <;> rfl
  · refine Eq.trans ?_ ht
    unfold Core.waitPending
    split_ifs <;> rfl

/-- The loop that frees the channels of the table. -/
lemma mem_allocated_freeIntra (l : List Handle) (s : Core n Handle) (h : Handle) :
    h ∈ allocated (l.foldl Core.freeIntra s).calls ↔ h ∈ allocated s.calls ∧ h ∉ l := by
  induction l generalizing s with
  | nil => simp
  | cons x l ih =>
    rw [List.foldl_cons, ih]
    have hstep : h ∈ allocated (s.freeIntra x).calls ↔ h ∈ allocated s.calls ∧ h ≠ x := by
      unfold Core.freeIntra
      split_ifs with hx
      · show h ∈ (allocated s.calls).filter (· ≠ x) ↔ _
        simp
      · exact ⟨fun hmem => ⟨hmem, fun heq => hx (heq ▸ hmem)⟩, And.left⟩
    rw [hstep, List.mem_cons, not_or]
    exact and_assoc

/-- The channels that are allocated after the cleanup. -/
lemma mem_allocated_waitAndFree (channels : List Handle) (s : Core n Handle) (h : Handle) :
    h ∈ allocated (s.waitAndFreeEdmaChannels channels).calls ↔ h ∈ allocated s.calls ∧ h ∉ s.intra := by
  rw [Core.waitAndFreeEdmaChannels_eq, ← waitLoops_allocated channels s]
  exact mem_allocated_freeIntra s.intra _ h

/-- After any calls of a kernel, the cleanup frees the channels of the kernel and none of the pool if and
only if the channels that the kernel still has are among the first that it got, and none of these is in the
pool. -/
theorem cleanedUp_iff {core : Core n Handle} (hcore : PoolOk core) (channels : List Handle)
    {as : List (KernelCall n Handle)} {k : Kernel n Handle}
    (hrun : run kernelStep (Kernel.start core) as = some k) : k.CleanedUp channels ↔ k.Recorded := by
  have hok : KernelOk k :=
    invariant_of_run (fun _ _ _ h hstep => h.step hstep) hrun (KernelOk.start hcore)
  constructor
  · rintro ⟨hfreed, hkept⟩
    refine ⟨fun h hh => ?_, fun h hh i hi hchannel => ?_⟩
    · have hgone := hfreed h hh
      rw [mem_allocated_waitAndFree, hok.table, not_and_not_right] at hgone
      exact hgone (hok.owned h hh)
    · have hstill := hkept i hi h hchannel
      rw [mem_allocated_waitAndFree, hok.table] at hstill
      exact hstill.2 hh
  · rintro ⟨hfirst, hapart⟩
    refine ⟨fun h hh => ?_, fun i hi h hchannel => ?_⟩
    · rw [mem_allocated_waitAndFree, hok.table]
      exact fun hstill => hstill.2 (hfirst h hh)
    · rw [mem_allocated_waitAndFree, hok.table]
      exact ⟨hok.events.ok.channel_mem hi hchannel, fun hh => hapart h hh i hi hchannel⟩

/-- The state of a kernel after some calls. -/
def sampleKernel (as : List (KernelCall 16 ℕ)) : Option (Kernel 16 ℕ) :=
  samplePool.bind fun core => run kernelStep (Kernel.start core) as

/-- The kernel gets a channel twice, and the pool grows. -/
def ownCalls : List (KernelCall 16 ℕ) :=
  [.allocIntrakernel (some 7), .free 7, .allocIntrakernel (some 7), .copy sampleCopy none,
    .copy sampleCopy none, .copy sampleCopy none, .copy sampleCopy none, .copy sampleCopy (some 9)]

/-- The channel that the kernel freed goes into the pool. -/
def reissuedCalls : List (KernelCall 16 ℕ) :=
  [.allocIntrakernel (some 7), .free 7, .copy sampleCopy none, .copy sampleCopy none, .copy sampleCopy none,
    .copy sampleCopy none, .copy sampleCopy (some 7)]

/-- The pool after the startup agrees with the channel manager. -/
lemma poolOk_sample {core : Core 16 ℕ} (h : samplePool = some core) : PoolOk core :=
  (poolOk_startUp sampleAnswers_distinct h).1

/-- A channel that is got twice by the kernel is freed, the fifth channel of the pool is not. -/
theorem cleanedUp_own : ∃ k, sampleKernel ownCalls = some k ∧
    (k.CleanedUp (List.range 16) ↔ k.Recorded) := by
  cases hrun : sampleKernel ownCalls with
  | none => exact absurd (congrArg Option.isSome hrun) (by decide)
  | some k =>
    obtain ⟨core, hcore, hcalls⟩ := Option.bind_eq_some_iff.mp hrun
    exact ⟨k, rfl, cleanedUp_iff (poolOk_sample hcore) (List.range 16) hcalls⟩

/-- The cleanup frees a channel of the pool that the kernel had before. -/
theorem not_cleanedUp :
    ¬∀ (core : Core 16 ℕ) (as : List (KernelCall 16 ℕ)) (k : Kernel 16 ℕ), samplePool = some core →
      run kernelStep (Kernel.start core) as = some k → k.CleanedUp (List.range 16) := by
  intro h
  have hcleaned : (sampleKernel reissuedCalls).map (fun k => decide (k.CleanedUp (List.range 16))) =
      some false := by decide +kernel
  obtain ⟨k, hrun, hfalse⟩ := Option.map_eq_some_iff.mp hcleaned
  obtain ⟨core, hcore, hcalls⟩ := Option.bind_eq_some_iff.mp hrun
  exact of_decide_eq_false hfalse (h core reissuedCalls k hcore hcalls)

end Edma

end TiOpenCL
