import TiOpenCL.Kernels.Dispatch

/-!
# What a dispatch gives back

A dispatch that fails after a request to the heaps was served keeps the block: `free_tmp_bufs` is called
when a kernel completes, and a kernel that was not started does not complete.  A dispatch that succeeds
records its blocks, and `free_tmp_bufs` releases exactly these, unless the `alloca` area is in local memory
at an address that is not recognised as one.
-/

namespace TiOpenCL

namespace Kernels

open HeapManager SharedMemory LocalMemory

/-! ### Dispatches that fail -/

namespace Dispatch

/-- The requests behind the `alloca` area fail before one of them is served: the first temporary buffer is
refused, or there is none, and the mapping fails, or there are no arguments in memory, or there is no room
for them. -/
def RestFailsFirst (d : Dispatch) (hs : Heaps) (bufs64 : List (ℕ × ℕ)) : Prop :=
  match d.tmpBufs with
  | b :: _ => RefusesGlobal hs b.size
  | [] => (mappingError d.mpaxDefaultRes bufs64).isSome ∨ d.argsInMemSize = 0 ∨
      RefusesShared hs d.argsInMemSize

/-- `p_64bit_bufs` with an `alloca` area in local memory. -/
def bufsBehind (d : Dispatch) (localScratch : ℕ) : List (ℕ × ℕ) :=
  if d.wgAlloca = 0 ∨ localScratch < 0xFFFFFFFF then d.bufs64
  else d.bufs64 ++ [(localScratch, d.chipAlloca)]

/-- A dispatch that fails does so before a block is taken: the local buffers do not fit, or the `alloca`
area is refused, or there is none in shared memory and the requests behind it fail first. -/
def FailsFirst (d : Dispatch) (hs : Heaps) : Prop :=
  match allocateAndAssignLocalBuffers d.layout with
  | .error _ => True
  | .ok (_, localScratch, remaining) =>
    if remaining < d.wgAlloca then RefusesShared hs d.chipAlloca
    else d.wgAlloca ≠ 0 ∧ localScratch = 0 ∨ d.RestFailsFirst hs (d.bufsBehind localScratch)

end Dispatch

section Failing

variable {d : Dispatch} {G : List Grant} {p q : Progress} {pid : ℕ} {e : DispatchError}

/-- A block that was taken stays taken. -/
lemma granted_ne_nil (h : Grows d.device.cfg G p q) {g : Grant} (hg : g ∈ p.granted) :
    q.granted ≠ [] :=
  List.ne_nil_of_mem (h.suffix.subset hg)

/-- The name of a kernel leaves nothing else behind. -/
lemma debugKernelDispatch_error (he : debugKernelDispatch d p = .error e q) : q = p := by
  unfold debugKernelDispatch at he
  split at he
  · exact (EStateM.Result.error.inj he).2.symm
  · cases he

/-- A temporary buffer that gets a block takes it. -/
lemma takeTmp_granted (b : TmpBuf) {r : Grant × Heaps} (haddr : r.1.addr ≠ 0) :
    (p.takeTmp b r).granted = r.1 :: p.granted := by
  obtain ⟨bufs64, heq⟩ :=
    Progress.extend_eq { p.take r with tmpAddrs := p.tmpAddrs ++ [r.1.addr] } r.1.addr b.size
  rw [Progress.takeTmp, heq]
  simp only [Progress.take, if_neg haddr]

/-- An `alloca` area that gets a block takes it. -/
lemma takeAlloca_granted (size : ℕ) {r : Grant × Heaps} (haddr : r.1.addr ≠ 0) :
    (p.takeAlloca size r).granted = r.1 :: p.granted := by
  obtain ⟨bufs64, heq⟩ :=
    Progress.extend_eq { p.take r with wgAllocaStart := r.1.addr } r.1.addr size
  rw [Progress.takeAlloca, heq]
  simp only [Progress.take, if_neg haddr]

/-- If nothing was taken before, a failure of the steps behind the `alloca` area leaves nothing taken
exactly if it comes first. -/
lemma runRest_error (h : Held d.device.cfg p.heaps (p.granted ++ G)) (hp : p.granted = [])
    (he : runRest d pid p = .error e q) :
    q.granted = [] ↔ d.RestFailsFirst p.heaps p.bufs64 := by
  unfold Dispatch.RestFailsFirst
  unfold runRest at he
  cases hbufs : d.tmpBufs with
  | cons b bs =>
    rw [hbufs] at he
    obtain ⟨r, hr, hcases⟩ := held_allocateTemp h d.device.pos pid b
    have hstep := allocateTempGlobal_cons pid hr bs
    simp only
    rcases hcases with ⟨haddr, -, hserved, hheld⟩ | ⟨haddr, hrefused, -⟩
    · -- the block that was taken is still taken at the end
      rw [if_neg haddr] at hstep
      rw [bind_congr_state hstep] at he
      have htake := Grows.takeTmp b (Grows.take (G := G) h (Or.inl ⟨haddr, hheld⟩))
      have hgrown := growing_rest (d := d) pid bs G _ htake.held
      rw [he] at hgrown
      have hmem : r.1 ∈ (p.takeTmp b r).granted := by
        rw [takeTmp_granted b haddr]
        exact List.mem_cons_self
      exact ⟨fun hnil => absurd hnil (granted_ne_nil hgrown hmem), fun href => absurd href hserved⟩
    · rw [if_pos haddr] at hstep
      rw [bind_of_error hstep] at he
      obtain ⟨-, rfl⟩ := EStateM.Result.error.inj he
      simp only [Progress.take, if_pos haddr, hp, hrefused]
  | nil =>
    rw [hbufs] at he
    have hstep : allocateTempGlobal pid [] p = .ok () p := rfl
    rw [bind_of_ok hstep] at he
    simp only
    cases hmap : mappingError d.mpaxDefaultRes p.bufs64 with
    | some e' =>
      have hstep : setupExtendedMemoryMappings d.mpaxDefaultRes p = .error e' p := by
        simp only [setupExtendedMemoryMappings, hmap]
      rw [bind_of_error hstep] at he
      obtain ⟨-, rfl⟩ := EStateM.Result.error.inj he
      simp only [hp, Option.isSome_some, true_or]
    | none =>
      have hstep : setupExtendedMemoryMappings d.mpaxDefaultRes p = .ok () p := by
        simp only [setupExtendedMemoryMappings, hmap]
      rw [bind_of_ok hstep] at he
      simp only [Option.isSome_none, Bool.false_eq_true, false_or]
      by_cases hsize : d.argsInMemSize = 0
      · have hstep : setupStackBasedArguments d pid p = .ok () p := if_pos hsize
        rw [bind_of_ok hstep] at he
        simp only [debugKernelDispatch_error he, hp, hsize, true_or]
      · have hshared := held_allocateShared h d.device.pos pid (Nat.pos_of_ne_zero hsize)
          (argsInMemSize_lt d)
        have hstep := setupStackBasedArguments_some (p := p) pid hsize rfl
        simp only [hsize, false_or]
        rcases hshared with ⟨haddr, -, hserved, -⟩ | ⟨haddr, hrefused, -⟩
        · rw [if_neg haddr] at hstep
          rw [bind_of_ok hstep] at he
          have hq := debugKernelDispatch_error he
          simp [hq, Progress.take, haddr, hserved]
        · rw [if_pos haddr] at hstep
          rw [bind_of_error hstep] at he
          obtain ⟨-, rfl⟩ := EStateM.Result.error.inj he
          simp only [Progress.take, if_pos haddr, hp, hrefused]

/-- A dispatch that fails leaves nothing taken exactly if it fails first. -/
lemma run_error {hs : Heaps} (h : Held d.device.cfg hs G) (hok : d.AllocaOk)
    (he : run d pid (d.start hs) = .error e q) : q.granted = [] ↔ d.FailsFirst hs := by
  unfold Dispatch.FailsFirst
  unfold run at he
  cases hy : allocateAndAssignLocalBuffers d.layout with
  | error e' =>
    rw [hy] at he
    obtain ⟨-, rfl⟩ := EStateM.Result.error.inj he
    simp only [Dispatch.start]
  | ok y =>
    obtain ⟨regions, localScratch, remaining⟩ := y
    rw [hy] at he
    simp only at he ⊢
    rcases lt_or_ge remaining d.wgAlloca with hroom | hroom
    · have hchip : d.chipAlloca ≠ 0 := hok _ (by rw [hy]; rfl) hroom
      have hshared := held_allocateShared h d.device.pos pid (Nat.pos_of_ne_zero hchip)
        (chipAlloca_lt d)
      generalize hr : allocateShared pid d.chipAlloca hs = r at hshared
      have hstep := initKernelRuntimeVariables_shared (p := d.start hs) pid localScratch hroom hr
      rw [if_pos hroom]
      rcases hshared with ⟨haddr, -, hserved, hheld⟩ | ⟨haddr, hrefused, -⟩
      · rw [if_neg haddr] at hstep
        rw [bind_of_ok hstep] at he
        have htake := Grows.takeAlloca d.chipAlloca
          (Grows.take (p := d.start hs) (G := G) h (Or.inl ⟨haddr, hheld⟩))
        have hgrown := growing_runRest (d := d) pid G _ htake.held
        rw [he] at hgrown
        have hmem : r.1 ∈ ((d.start hs).takeAlloca d.chipAlloca r).granted := by
          rw [takeAlloca_granted d.chipAlloca haddr]
          exact List.mem_cons_self
        exact ⟨fun hnil => absurd hnil (granted_ne_nil hgrown hmem), fun href => absurd href hserved⟩
      · rw [if_pos haddr] at hstep
        rw [bind_of_error hstep] at he
        obtain ⟨-, rfl⟩ := EStateM.Result.error.inj he
        simp only [Progress.take, if_pos haddr, Dispatch.start, hrefused]
    · rw [if_neg (not_lt.mpr hroom)]
      by_cases hnone : d.wgAlloca = 0
      · have hstep := initKernelRuntimeVariables_none (p := d.start hs) pid remaining localScratch
          hnone
        rw [bind_of_ok hstep] at he
        rw [runRest_error (G := G) h rfl he]
        simp only [hnone, ne_eq, not_true_eq_false, false_and, false_or, Dispatch.bufsBehind, true_or,
          if_true, Dispatch.start]
      · have hstep := initKernelRuntimeVariables_local (p := d.start hs) pid localScratch hnone hroom
        by_cases hzero : localScratch = 0
        · rw [if_pos hzero] at hstep
          rw [bind_of_error hstep] at he
          obtain ⟨-, rfl⟩ := EStateM.Result.error.inj he
          simp [Dispatch.start, hnone, hzero]
        · rw [if_neg hzero] at hstep
          rw [bind_of_ok hstep] at he
          have hsame : (Progress.extend { d.start hs with wgAllocaStart := localScratch } localScratch
              d.chipAlloca) = ⟨hs, localScratch, d.bufsBehind localScratch, [], 0, []⟩ := by
            unfold Progress.extend Dispatch.bufsBehind
            simp only [hnone, false_or]
            split <;> rfl
          rw [hsame] at he
          rw [runRest_error (G := G) h rfl he]
          simp only [hzero, and_false, false_or]

/-- A dispatch leaves the heaps as they were exactly if nothing is taken: a block that is taken was not
allocated before, and is afterwards. -/
lemma heaps_eq_iff (pid : ℕ) {hs : Heaps} (hc : ∀ id, Configured (d.device.cfg id) (hs id)) (hok : d.AllocaOk) :
    (finalState (run d pid (d.start hs))).heaps = hs ↔
      (finalState (run d pid (d.start hs))).granted = [] := by
  constructor
  · intro heq
    rw [List.eq_nil_iff_forall_not_mem]
    intro g hg
    have hall := growing_run pid hok [] (d.start hs) ⟨hc, List.nodup_nil, by simp [Dispatch.start]⟩
    obtain ⟨entry, hentry⟩ := hall.held.allocated g (by simpa using hg)
    rw [heq] at hentry
    -- the block is allocated before the dispatch, so that a caller may hold it
    have hheld : Held d.device.cfg hs [g] := by
      refine ⟨hc, List.nodup_singleton g, fun g' hg' => ?_⟩
      obtain rfl := List.mem_singleton.mp hg'
      exact ⟨entry, hentry⟩
    have hgrown := growing_run pid hok [g] (d.start hs) hheld
    exact (List.nodup_append.mp hgrown.held.nodup).2.2 g hg g (List.mem_singleton_self g) rfl
  · intro hnil
    have hall := growing_run pid hok [] (d.start hs) ⟨hc, List.nodup_nil, by simp [Dispatch.start]⟩
    exact hall.idle hnil

end Failing


/-! ### Dispatches that succeed -/

/-- What the event records of the blocks that were taken: those for the `alloca` area, for the arguments
and for the temporary buffers. -/
structure Recorded (p : Progress) (start : ℕ) (alloca args tmps : List Grant) : Prop where
  start_eq : p.wgAllocaStart = start
  granted_perm : p.granted.Perm (alloca ++ args ++ tmps)
  argsCalls_eq : argsCalls p.argsOnStackAddr = args.map fun g => (.freeMSMCorGlobal, g.addr)
  tmpAddrs_eq : p.tmpAddrs = tmps.map Grant.addr
  global : ∀ g ∈ tmps, g.heap ≠ .msmcHeap

section Success

variable {d : Dispatch} {G : List Grant} {p q : Progress} {pid start : ℕ} {alloca args tmps : List Grant}

/-- The buffers to be mapped are not released. -/
lemma Recorded.extend (h : Recorded p start alloca args tmps) (addr size : ℕ) :
    Recorded (p.extend addr size) start alloca args tmps := by
  obtain ⟨bufs64, heq⟩ := p.extend_eq addr size
  rw [heq]
  exact ⟨h.start_eq, h.granted_perm, h.argsCalls_eq, h.tmpAddrs_eq, h.global⟩

/-- The temporary buffers are recorded in their order. -/
lemma Recorded.allocateTempGlobal (bs : List TmpBuf) :
    ∀ {p : Progress} {tmps : List Grant}, Recorded p start alloca [] tmps →
      Held d.device.cfg p.heaps (p.granted ++ G) →
      Kernels.allocateTempGlobal pid bs p = .ok () q →
      ∃ tmps', Recorded q start alloca [] tmps' := by
  induction bs with
  | nil =>
    intro p tmps h _ hq
    obtain rfl := (EStateM.Result.ok.inj hq).2
    exact ⟨tmps, h⟩
  | cons b bs ih =>
    intro p tmps h hheld hq
    obtain ⟨r, hr, hcases⟩ := held_allocateTemp hheld d.device.pos pid b
    rw [allocateTempGlobal_cons pid hr] at hq
    rcases hcases with ⟨haddr, hheap, -, hheld'⟩ | ⟨haddr, -, -⟩
    · rw [if_neg haddr] at hq
      have htake := Grows.takeTmp b (Grows.take (G := G) hheld (Or.inl ⟨haddr, hheld'⟩))
      have hnext : Recorded (p.takeTmp b r) start alloca [] (tmps ++ [r.1]) := by
        refine Recorded.extend (p := { p.take r with tmpAddrs := p.tmpAddrs ++ [r.1.addr] })
          ⟨h.start_eq, ?_, h.argsCalls_eq, ?_, ?_⟩ _ _
        · simp only [Progress.take, if_neg haddr]
          calc r.1 :: p.granted
            _ |>.Perm (r.1 :: (alloca ++ [] ++ tmps)) := h.granted_perm.cons _
            _ |>.Perm (alloca ++ [] ++ tmps ++ [r.1]) := (List.perm_append_singleton _ _).symm
            _ = alloca ++ [] ++ (tmps ++ [r.1]) := List.append_assoc _ _ _
        · simp only [h.tmpAddrs_eq, List.map_append, List.map_cons, List.map_nil]
        · intro g hg
          rcases List.mem_append.mp hg with hg | hg
          · exact h.global g hg
          · obtain rfl := List.mem_singleton.mp hg
            exact hheap
      exact ih hnext htake.held hq
    · rw [if_pos haddr] at hq
      cases hq

/-- The address of a block on chip or of the first DDR heap has 32 bits, is not zero and is not an address
of local memory. -/
lemma shared_addr {hs : Heaps} {g : Grant} (h : Held d.device.cfg hs (g :: G))
    (hid : g.heap ≠ .ddrHeap2) :
    g.addr % 2 ^ 32 = g.addr ∧ 0 < g.addr ∧ addrIsL2 d.layout.l2 g.addr = false := by
  obtain ⟨e, he⟩ := h.allocated g List.mem_cons_self
  have hcov := (h.configured g.heap).covers he
  have hmod : g.addr % 2 ^ 32 = g.addr := by
    refine Nat.mod_eq_of_lt ?_
    have hreach := d.device.reach32 g.heap hid
    have hlt : g.addr < (d.device.cfg g.heap).startAddr + (d.device.cfg g.heap).length := hcov.2
    omega
  refine ⟨hmod, ?_, ?_⟩
  · have hle : (d.device.cfg g.heap).startAddr ≤ g.addr := hcov.1
    have := d.device.pos g.heap
    omega
  · rw [addrIsL2, hmod, Bool.and_eq_false_iff, decide_eq_false_iff_not, decide_eq_false_iff_not]
    by_contra hcon
    rw [not_or, not_not, not_not] at hcon
    exact d.device.offChip g.heap hid g.addr ⟨hcov, hcon⟩

/-- The arguments in memory are recorded. -/
lemma Recorded.setupStackBasedArguments (h : Recorded p start alloca [] tmps)
    (hheld : Held d.device.cfg p.heaps (p.granted ++ G))
    (hq : Kernels.setupStackBasedArguments d pid p = .ok () q) :
    ∃ args, Recorded q start alloca args tmps := by
  by_cases hsize : d.argsInMemSize = 0
  · rw [Kernels.setupStackBasedArguments, if_pos hsize] at hq
    obtain rfl := (EStateM.Result.ok.inj hq).2
    exact ⟨[], h⟩
  · have hshared := held_allocateShared hheld d.device.pos pid (Nat.pos_of_ne_zero hsize)
      (argsInMemSize_lt d)
    generalize hr : allocateShared pid d.argsInMemSize p.heaps = r at hshared
    rw [setupStackBasedArguments_some pid hsize hr] at hq
    rcases hshared with ⟨haddr, hid, -, hheld'⟩ | ⟨haddr, -, -⟩
    · rw [if_neg haddr] at hq
      obtain rfl := (EStateM.Result.ok.inj hq).2
      obtain ⟨hmod, hpos, -⟩ := shared_addr hheld' hid
      refine ⟨[r.1], h.start_eq, ?_, ?_, h.tmpAddrs_eq, h.global⟩
      · simp only [Progress.take, if_neg haddr]
        calc r.1 :: p.granted
          _ |>.Perm (r.1 :: (alloca ++ [] ++ tmps)) := h.granted_perm.cons _
          _ = r.1 :: (alloca ++ tmps) := by rw [List.append_nil]
          _ |>.Perm (alloca ++ r.1 :: tmps) := List.perm_middle.symm
          _ = alloca ++ [r.1] ++ tmps := (List.append_assoc alloca [r.1] tmps).symm
      · simp only [hmod, argsCalls, if_pos hpos, List.map_cons, List.map_nil]
    · rw [if_pos haddr] at hq
      cases hq

/-- The mapping succeeds without a change. -/
lemma setupExtendedMemoryMappings_ok {res : Option (MmapConstants × Resources)}
    (h : setupExtendedMemoryMappings res p = .ok () q) : q = p := by
  unfold setupExtendedMemoryMappings at h
  split at h
  · exact (EStateM.Result.ok.inj h).2.symm
  · cases h

/-- The name of a kernel changes nothing. -/
lemma debugKernelDispatch_ok (h : debugKernelDispatch d p = .ok () q) : q = p := by
  unfold debugKernelDispatch at h
  split at h
  · cases h
  · exact (EStateM.Result.ok.inj h).2.symm

/-- The steps behind the `alloca` area record what they take. -/
lemma Recorded.runRest (h : Recorded p start alloca [] [])
    (hheld : Held d.device.cfg p.heaps (p.granted ++ G)) (hq : Kernels.runRest d pid p = .ok () q) :
    ∃ args tmps, Recorded q start alloca args tmps := by
  obtain ⟨⟨⟩, p₁, htemp, hrest⟩ := bind_eq_ok hq
  obtain ⟨⟨⟩, p₂, hmap, hrest⟩ := bind_eq_ok hrest
  obtain ⟨⟨⟩, p₃, hstack, hdebug⟩ := bind_eq_ok hrest
  have hgrown := growing_allocateTempGlobal (d := d) pid d.tmpBufs G p hheld
  rw [htemp] at hgrown
  obtain ⟨tmps, hrec⟩ := h.allocateTempGlobal d.tmpBufs hheld htemp
  obtain rfl := setupExtendedMemoryMappings_ok hmap
  obtain ⟨args, hrec'⟩ := hrec.setupStackBasedArguments hgrown.held hstack
  obtain rfl := debugKernelDispatch_ok hdebug
  exact ⟨args, tmps, hrec'⟩

/-- Where an `alloca` area is put in local memory, `addr_is_l2` tells it from the heaps. -/
def Dispatch.ScratchInL2 (d : Dispatch) : Prop :=
  ∀ y ∈ (allocateAndAssignLocalBuffers d.layout).toOption,
    d.wgAlloca ≠ 0 → d.wgAlloca ≤ y.2.2 → addrIsL2 d.layout.l2 y.2.1 = true

instance (d : Dispatch) : Decidable d.ScratchInL2 := by
  unfold Dispatch.ScratchInL2
  infer_instance

/-- A dispatch that succeeds records what it took; the `alloca` area is released with the other blocks,
or it is in local memory at an address that is not taken for one. -/
lemma run_ok {hs : Heaps} (h : Held d.device.cfg hs G) (hok : d.AllocaOk)
    (hq : run d pid (d.start hs) = .ok () q) :
    ∃ start alloca args tmps, Recorded q start alloca args tmps ∧
      (d.ScratchInL2 → allocaCalls d.layout.l2 start =
        alloca.map fun g => (.freeMSMCorGlobal, g.addr)) ∧
      (¬ d.ScratchInL2 → alloca = [] ∧ allocaCalls d.layout.l2 start ≠ []) := by
  have hnone : Recorded (d.start hs) 0 [] [] [] := ⟨rfl, .nil, rfl, rfl, by simp⟩
  unfold run at hq
  cases hy : allocateAndAssignLocalBuffers d.layout with
  | error e =>
    rw [hy] at hq
    cases hq
  | ok y =>
    obtain ⟨regions, localScratch, remaining⟩ := y
    rw [hy] at hq
    obtain ⟨⟨⟩, p, halloca, hrest⟩ := bind_eq_ok hq
    have hscratch : d.ScratchInL2 ↔
        (d.wgAlloca ≠ 0 → d.wgAlloca ≤ remaining → addrIsL2 d.layout.l2 localScratch = true) := by
      simp [Dispatch.ScratchInL2, hy, Except.toOption]
    have hchip : remaining < d.wgAlloca → d.chipAlloca ≠ 0 := hok _ (by rw [hy]; rfl)
    have hgrown := growing_initKernelRuntimeVariables pid localScratch hchip G (d.start hs) h
    rw [halloca] at hgrown
    by_cases hzero : d.wgAlloca = 0
    · rw [initKernelRuntimeVariables_none pid remaining localScratch hzero] at halloca
      obtain rfl := (EStateM.Result.ok.inj halloca).2
      obtain ⟨args, tmps, hrec⟩ := hnone.runRest hgrown.held hrest
      refine ⟨0, [], args, tmps, hrec, fun _ => rfl, fun hnot => ?_⟩
      exact absurd (hscratch.mpr fun hne => absurd hzero hne) hnot
    rcases le_or_gt d.wgAlloca remaining with hroom | hroom
    · rw [initKernelRuntimeVariables_local pid localScratch hzero hroom] at halloca
      split at halloca
      · cases halloca
      · next hpos =>
        obtain rfl := (EStateM.Result.ok.inj halloca).2
        have hfirst : Recorded { d.start hs with wgAllocaStart := localScratch } localScratch [] [] [] :=
          ⟨rfl, .nil, rfl, rfl, by simp⟩
        have hlocal := hfirst.extend localScratch d.chipAlloca
        obtain ⟨args, tmps, hrec⟩ := hlocal.runRest hgrown.held hrest
        refine ⟨localScratch, [], args, tmps, hrec, fun hin => ?_, fun hnot => ⟨rfl, ?_⟩⟩
        · have hl2 := hscratch.mp hin hzero hroom
          simp [allocaCalls, hl2]
        · have hl2 : addrIsL2 d.layout.l2 localScratch = false := by
            by_contra hcon
            exact hnot (hscratch.mpr fun _ _ => Bool.eq_true_of_not_eq_false hcon)
          simp [allocaCalls, hl2, Nat.pos_of_ne_zero hpos]
    · have hshared := held_allocateShared h d.device.pos pid (Nat.pos_of_ne_zero (hchip hroom))
        (chipAlloca_lt d)
      generalize hr : allocateShared pid d.chipAlloca hs = r at hshared
      rw [initKernelRuntimeVariables_shared (p := d.start hs) pid localScratch hroom hr] at halloca
      rcases hshared with ⟨haddr, hid, -, hheld⟩ | ⟨haddr, -, -⟩
      · rw [if_neg haddr] at halloca
        obtain rfl := (EStateM.Result.ok.inj halloca).2
        obtain ⟨-, hpos, hl2⟩ := shared_addr hheld hid
        have hblock : Recorded ((d.start hs).takeAlloca d.chipAlloca r) r.1.addr [r.1] [] [] := by
          refine Recorded.extend (p := { (d.start hs).take r with wgAllocaStart := r.1.addr })
            ⟨rfl, ?_, rfl, rfl, by simp⟩ _ _
          simp [Progress.take, haddr, Dispatch.start]
        obtain ⟨args, tmps, hrec⟩ := hblock.runRest hgrown.held hrest
        refine ⟨r.1.addr, [r.1], args, tmps, hrec, fun _ => ?_, fun hnot => ?_⟩
        · simp [allocaCalls, hpos, hl2]
        · exact absurd (hscratch.mpr fun _ hle => absurd hle (not_le.mpr hroom)) hnot
      · rw [if_pos haddr] at halloca
        cases halloca

end Success

/-! ### Scratch memory -/

/-- The local buffers leave the cursor in local memory, with the rest of it behind the cursor. -/
lemma assignLocalBuffers_cursor (l2 : L2Extent) (sizes : List ℕ) :
    ∀ {c rem c' rem' : ℕ} {regions : List Region}, l2.start ≤ c → c + rem = l2.start + l2.size →
      assignLocalBuffers sizes c rem = .ok (regions, c', rem') →
      l2.start ≤ c' ∧ c' + rem' = l2.start + l2.size := by
  induction sizes with
  | nil =>
    intro c rem c' rem' regions hc hsum h
    obtain ⟨-, hrest⟩ := Prod.mk.inj (Except.ok.inj h)
    obtain ⟨rfl, rfl⟩ := Prod.mk.inj hrest
    exact ⟨hc, hsum⟩
  | cons size sizes ih =>
    intro c rem c' rem' regions hc hsum h
    have hfits := l2.fits
    rw [assignLocalBuffers] at h
    generalize KernelArgs.roundup (size % 2 ^ 32) 128 = rounded at h
    split at h
    · cases h
    · next hroom =>
      rw [wadd_eq (by omega), wsub_eq (not_lt.mp hroom) (by omega)] at h
      split at h
      · cases h
      · next regions' rest hrest =>
        obtain ⟨c₂, rem₂⟩ := rest
        obtain ⟨-, heq⟩ := Prod.mk.inj (Except.ok.inj h)
        obtain ⟨rfl, rfl⟩ := Prod.mk.inj heq
        exact ih (by omega) (by omega) hrest

/-- If the section of the program and the static local buffers are in local memory, so is an `alloca` area
that is put there. -/
theorem scratchInL2_of_static (d : Dispatch)
    (hstart : d.layout.l2.start ≤ d.layout.memL2.addr + d.layout.memL2.size)
    (hend : d.layout.memL2.addr + d.layout.memL2.size + blocks d.layout.staticSize ≤
      d.layout.l2.start + d.layout.l2.size) : d.ScratchInL2 := by
  intro y hy hne hroom
  have hfits := d.layout.l2.fits
  have hsection := d.layout.memL2.fits
  have hstatic : KernelArgs.roundup d.layout.staticSize 128 = blocks d.layout.staticSize :=
    roundup_eq_blocks (by have := (le_blocks d.layout.staticSize).1; omega)
  obtain ⟨regions, localScratch, remaining⟩ := y
  have hok : allocateAndAssignLocalBuffers d.layout = .ok (regions, localScratch, remaining) := by
    cases hr : allocateAndAssignLocalBuffers d.layout with
    | error e => simp [hr, Except.toOption] at hy
    | ok y => simpa [hr, Except.toOption] using hy
  unfold allocateAndAssignLocalBuffers localsInKernelExtent at hok
  simp only [hstatic] at hok
  rw [wadd_eq (a := d.layout.memL2.addr) hsection, wadd_eq (by omega),
    wsub_eq (b := d.layout.l2.start) (by omega) (by omega), wsub_eq (by omega) (by omega)] at hok
  obtain ⟨hle, hsum⟩ := assignLocalBuffers_cursor d.layout.l2 d.layout.localBufs
    (by omega) (by omega) hok
  change d.wgAlloca ≤ remaining at hroom
  change addrIsL2 d.layout.l2 localScratch = true
  rw [addrIsL2, Nat.mod_eq_of_lt (by omega), Bool.and_eq_true, decide_eq_true_eq, decide_eq_true_eq]
  exact ⟨hle, by omega⟩

/-! ### Releases -/

/-- The calls release the blocks of some grants in their heaps, and no other block. -/
lemma releaseAll_spec {l2 : L2Extent} (m : DeviceMemory l2) {G : List Grant} {pastEnd : ℕ → PastEnd}
    (l : List (FreeCall × Grant)) :
    ∀ {hs : Heaps}, Held m.cfg hs (l.map Prod.snd ++ G) → (∀ c ∈ l, c.1.Matches c.2.heap) →
      ReleasesOk pastEnd (l.map fun c => (c.1, c.2.addr)) hs →
      (releaseAll pastEnd (l.map fun c => (c.1, c.2.addr)) hs).1 =
          l.map (fun c => .released c.2.heap 0) ∧
        Held m.cfg (releaseAll pastEnd (l.map fun c => (c.1, c.2.addr)) hs).2 G ∧
        ∀ id addr e,
          (addr, e) ∈ ((releaseAll pastEnd (l.map fun c => (c.1, c.2.addr)) hs).2 id).allocList.entries ↔
            (addr, e) ∈ (hs id).allocList.entries ∧ ⟨addr, id⟩ ∉ l.map Prod.snd := by
  induction l with
  | nil =>
    intro hs h _ _
    exact ⟨rfl, h, fun id addr e => by simp [releaseAll]⟩
  | cons c l ih =>
    intro hs h hmatch hok
    obtain ⟨hfree, hrest⟩ := hok
    have hcall := h.call_eq m.fits m.disjoint (List.mem_cons_self : c.2 ∈ c.2 :: (l.map Prod.snd ++ G))
      (hmatch c List.mem_cons_self) (pastEnd (l.map fun c => (c.1, c.2.addr)).length)
    simp only [hcall] at hrest
    obtain ⟨hdone, hheld⟩ := Held.freeIn (G := l.map Prod.snd ++ G) h (hfree c.2.heap)
    obtain ⟨hall, hfinal, hmem⟩ :=
      ih hheld (fun c' hc' => hmatch c' (List.mem_cons_of_mem c hc')) hrest
    simp only [List.map_cons, releaseAll, hcall]
    refine ⟨?_, hfinal, fun id addr e => ?_⟩
    · rw [hdone, hall]
    · rw [hmem id addr e, List.mem_cons, not_or, ← and_assoc]
      refine and_congr_left fun _ => ?_
      by_cases hid : id = c.2.heap
      · subst hid
        simp only [SharedMemory.freeIn, Function.update_self]
        rw [mem_free_allocList]
        refine and_congr_right fun _ => not_congr ?_
        constructor
        · rintro rfl
          rfl
        · intro heq
          exact congrArg Grant.addr heq
      · simp only [SharedMemory.freeIn, Function.update_of_ne hid]
        refine ⟨fun he => ⟨he, fun heq => hid (congrArg Grant.heap heq)⟩, fun he => he.1⟩

/-- `free_tmp_bufs` releases exactly the blocks that were taken: every one of its calls matches one of
them, and in every later state in which callers still hold the blocks each is given back to its heap once,
and no other block is. -/
structure ReleasesExactly (d : Dispatch) (p : Progress) : Prop where
  /-- The calls are those of the blocks. -/
  calls : ∃ l : List (FreeCall × Grant), (l.map Prod.snd).Perm p.granted ∧
    freeCalls d.layout.l2 p = l.map (fun c => (c.1, c.2.addr)) ∧ ∀ c ∈ l, c.1.Matches c.2.heap
  /-- The calls succeed in the heaps of the blocks, and the other blocks stay allocated. -/
  released : ∀ hs G pastEnd, Held d.device.cfg hs (p.granted ++ G) →
    ReleasesOk pastEnd (freeCalls d.layout.l2 p) hs →
      (∃ gs : List Grant, gs.Perm p.granted ∧
        (freeTmpBufs d.layout.l2 pastEnd p hs).1 = gs.map fun g => .released g.heap 0) ∧
      Held d.device.cfg (freeTmpBufs d.layout.l2 pastEnd p hs).2 G ∧
      ∀ id addr e,
        (addr, e) ∈ ((freeTmpBufs d.layout.l2 pastEnd p hs).2 id).allocList.entries ↔
          (addr, e) ∈ (hs id).allocList.entries ∧ ⟨addr, id⟩ ∉ p.granted

/-- Calls that are those of the blocks release exactly the blocks. -/
lemma releasesExactly_of_calls {d : Dispatch} {p : Progress} {l : List (FreeCall × Grant)}
    (hperm : (l.map Prod.snd).Perm p.granted)
    (hcalls : freeCalls d.layout.l2 p = l.map (fun c => (c.1, c.2.addr)))
    (hmatch : ∀ c ∈ l, c.1.Matches c.2.heap) : ReleasesExactly d p where
  calls := ⟨l, hperm, hcalls, hmatch⟩
  released hs G pastEnd hheld hok := by
    rw [hcalls] at hok
    obtain ⟨hall, hfinal, hmem⟩ := releaseAll_spec d.device l
      (hheld.perm (hperm.symm.append_right G)) hmatch hok
    rw [freeTmpBufs, hcalls]
    refine ⟨⟨l.map Prod.snd, hperm, ?_⟩, hfinal, fun id addr e => ?_⟩
    · rw [hall, List.map_map]
      rfl
    · rw [hmem id addr e, hperm.mem_iff]

/-- The calls for what an event records. -/
lemma Recorded.freeCalls_eq (l2 : L2Extent) {p : Progress} {start : ℕ} {alloca args tmps : List Grant}
    (h : Recorded p start alloca args tmps) :
    freeCalls l2 p = allocaCalls l2 start ++
      (args.map (fun g => (FreeCall.freeMSMCorGlobal, g)) ++
        tmps.map fun g => (FreeCall.freeGlobal, g)).map fun c => (c.1, c.2.addr) := by
  rw [freeCalls, h.start_eq, h.argsCalls_eq, h.tmpAddrs_eq, List.append_assoc, List.map_append,
    List.map_map, List.map_map, List.map_map]
  rfl

/-- A dispatch that succeeds releases exactly the blocks it took, unless its `alloca` area is in local
memory at an address that `addr_is_l2` does not know. -/
lemma releasesExactly_iff {d : Dispatch} {pid : ℕ} {hs : Heaps} {G : List Grant} {p : Progress}
    (h : Held d.device.cfg hs G) (hok : d.AllocaOk) (hq : run d pid (d.start hs) = .ok () p) :
    ReleasesExactly d p ↔ d.ScratchInL2 := by
  obtain ⟨start, alloca, args, tmps, hrec, hin, hout⟩ := run_ok h hok hq
  have hcalls := hrec.freeCalls_eq d.layout.l2
  constructor
  · intro hrel
    by_contra hnot
    -- one call more than there are blocks
    obtain ⟨hnil, hne⟩ := hout hnot
    obtain ⟨l, hperm, heq, -⟩ := hrel.calls
    have hlen : (freeCalls d.layout.l2 p).length = p.granted.length := by
      rw [heq, List.length_map, ← hperm.length_eq, List.length_map]
    have hpos := List.length_pos_iff.mpr hne
    have hgranted := hrec.granted_perm.length_eq
    rw [hcalls] at hlen
    simp only [hnil, List.length_append, List.length_map, List.length_nil] at hlen hgranted
    omega
  · intro hscratch
    rw [hin hscratch] at hcalls
    refine releasesExactly_of_calls (l := alloca.map (fun g => (FreeCall.freeMSMCorGlobal, g)) ++
      (args.map (fun g => (FreeCall.freeMSMCorGlobal, g)) ++
        tmps.map fun g => (FreeCall.freeGlobal, g))) ?_ ?_ ?_
    · rw [List.map_append, List.map_append, List.map_map, List.map_map, List.map_map,
        ← List.append_assoc]
      simpa only [Function.comp_def, List.map_id'] using hrec.granted_perm.symm
    · simp only [hcalls, List.map_append, List.map_map, Function.comp_def]
    · intro c hc
      rcases List.mem_append.mp hc with hc | hc
      · obtain ⟨g, -, rfl⟩ := List.mem_map.mp hc
        trivial
      · rcases List.mem_append.mp hc with hc | hc
        · obtain ⟨g, -, rfl⟩ := List.mem_map.mp hc
          trivial
        · obtain ⟨g, hg, rfl⟩ := List.mem_map.mp hc
          exact hrec.global g hg

/-! ### The dispatch -/

/-- A dispatch that fails leaves the heaps as they were exactly if it fails before a request to the heaps
is served, and a dispatch that succeeds is followed by the release of exactly its blocks if and only if an
`alloca` area in local memory is at an address that `addr_is_l2` knows. -/
theorem dispatch_leaks_nothing_iff (d : Dispatch) (pid : ℕ) (hs : Heaps)
    (hc : ∀ id, Configured (d.device.cfg id) (hs id)) (hok : d.AllocaOk) :
    (∀ e p, handleEventDispatch d pid hs = (some e, p) → (p.heaps = hs ↔ d.FailsFirst hs)) ∧
      ∀ p, handleEventDispatch d pid hs = (none, p) → (ReleasesExactly d p ↔ d.ScratchInL2) := by
  have hheld : Held d.device.cfg hs [] := ⟨hc, List.nodup_nil, by simp⟩
  have hsame := heaps_eq_iff pid hc hok
  unfold handleEventDispatch
  cases hrun : run d pid (d.start hs) with
  | error e p =>
    rw [hrun] at hsame
    refine ⟨fun e' p' heq => ?_, fun p' heq => ?_⟩
    · obtain rfl : p = p' := congrArg Prod.snd heq
      exact hsame.trans (run_error hheld hok hrun)
    · cases congrArg Prod.fst heq
  | ok a p =>
    refine ⟨fun e' p' heq => ?_, fun p' heq => ?_⟩
    · cases congrArg Prod.fst heq
    · obtain rfl : p = p' := congrArg Prod.snd heq
      exact releasesExactly_iff hheld hok hrun

/-- A dispatch leaks nothing. -/
def LeaksNothing (d : Dispatch) (pid : ℕ) (hs : Heaps) : Prop :=
  (∀ e p, handleEventDispatch d pid hs = (some e, p) → p.heaps = hs) ∧
    ∀ p, handleEventDispatch d pid hs = (none, p) → ReleasesExactly d p

/-- The layout of a kernel with a local buffer on a device with 1 MiB of local memory and 8 cores, whose
work groups allocate some bytes. -/
def sampleLayout (wiAllocaSize : ℕ) : LocalMemory.Request where
  l2 := ⟨0x00800000, 0x100000, by decide⟩
  memL2 := ⟨0x00800000, 0x20000, by decide⟩
  builtIn := false
  kernelLocalSize := ⟨100, by decide⟩
  localBufs := [1000]
  wiAllocaSize := wiAllocaSize
  localSize := (64, 1, 1)
  dspCores := 8
  allocateMSMC _ := 0
  allocateGlobal _ := 0

/-- The sample heaps of 32-bit addresses are not in local memory. -/
lemma sampleConfig_offChip (id : HeapId) (hid : id ≠ .ddrHeap2) :
    Block.Disjoint ((Provider.sampleConfig id).startAddr, (Provider.sampleConfig id).length)
      (0x00800000, 0x100000) := by
  intro x
  cases id with
  | msmcHeap =>
    simp only [Provider.sampleConfig, Block.Covers]
    omega
  | ddrHeap1 =>
    simp only [Provider.sampleConfig, Block.Covers]
    omega
  | ddrHeap2 => exact absurd rfl hid

/-- The sample heaps are the heaps of the device. -/
def sampleDevice (wiAllocaSize : ℕ) : DeviceMemory (sampleLayout wiAllocaSize).l2 where
  cfg := Provider.sampleConfig
  disjoint := Provider.sampleConfig_disjoint
  pos id := by cases id <;> simp [Provider.sampleConfig]
  fits id := by cases id <;> simp [Provider.sampleConfig]
  reach32 id hid := by cases id <;> simp_all [Provider.sampleConfig]
  offChip := sampleConfig_offChip

/-- A dispatch with `alloca` areas, temporary buffers and arguments in memory. -/
def sampleDispatch (wiAllocaSize : ℕ) (tmpBufs : List TmpBuf) : Dispatch where
  layout := sampleLayout wiAllocaSize
  device := sampleDevice wiAllocaSize
  tmpBufs := tmpBufs
  bufs64 := []
  mpaxDefaultRes := none
  argsOnStackSize := 40
  argrefOffset := 0
  debugFails := false

/-- The heaps of the sample before a dispatch. -/
lemma configured_sample (wiAllocaSize : ℕ) (tmpBufs : List TmpBuf) (id : HeapId) :
    Configured ((sampleDispatch wiAllocaSize tmpBufs).device.cfg id)
      ((Provider.init Provider.sampleConfig).heaps id) :=
  ⟨wellTiled_config (Provider.sampleConfig id) ((sampleDevice wiAllocaSize).fits id).le, rfl⟩

/-- A dispatch with a small temporary buffer and one that no heap has room for. -/
def refusedDispatch : Dispatch :=
  sampleDispatch 0 [⟨64, by decide, by decide⟩, ⟨2 ^ 40, by decide, by decide⟩]

/-- A dispatch with blocks for the `alloca` areas, for a temporary buffer and for the arguments. -/
def servedDispatch : Dispatch := sampleDispatch 20000 [⟨64, by decide, by decide⟩]

/-- A dispatch whose second temporary buffer is refused keeps the block of the first. -/
theorem not_leaksNothing_second_refused :
    ¬ LeaksNothing refusedDispatch 7 (Provider.init Provider.sampleConfig).heaps := by
  intro hall
  have hfails : (handleEventDispatch refusedDispatch 7
      (Provider.init Provider.sampleConfig).heaps).1 = some .memObjectAllocationFailure := by
    decide
  have hkept : ((handleEventDispatch refusedDispatch 7
      (Provider.init Provider.sampleConfig).heaps).2.heaps .ddrHeap1).allocList.entries.length = 1 := by
    decide
  have hsame : (handleEventDispatch refusedDispatch 7 (Provider.init Provider.sampleConfig).heaps).2.heaps =
      (Provider.init Provider.sampleConfig).heaps := hall.1 _ _ (Prod.ext hfails rfl)
  rw [hsame] at hkept
  exact absurd hkept (by decide)

/-- A dispatch that takes blocks on chip and in DDR is followed by the release of exactly these. -/
theorem releasesExactly_servedDispatch : ∃ p,
    handleEventDispatch servedDispatch 7 (Provider.init Provider.sampleConfig).heaps = (none, p) ∧
      p.granted.length = 3 ∧ ReleasesExactly servedDispatch p := by
  have hok : (handleEventDispatch servedDispatch 7
      (Provider.init Provider.sampleConfig).heaps).1 = none := by
    decide
  refine ⟨_, Prod.ext hok rfl, by decide, ?_⟩
  exact ((dispatch_leaks_nothing_iff servedDispatch 7 _ (configured_sample _ _)
    (by decide)).2 _ (Prod.ext hok rfl)).mpr (by decide)

/-- `alloca` areas whose size wraps around to zero get the address of the block for the arguments too, so
that `free_tmp_bufs` releases this address twice. -/
theorem zero_alloca_shares_address :
    ¬ (sampleDispatch (2 ^ 23) []).AllocaOk ∧
      (handleEventDispatch (sampleDispatch (2 ^ 23) []) 7
        (Provider.init Provider.sampleConfig).heaps).2.granted =
          [⟨0x0C000000, .msmcHeap⟩, ⟨0x0C000000, .msmcHeap⟩] := by
  constructor
  · decide
  · decide

end Kernels

end TiOpenCL
