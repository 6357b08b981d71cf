import TiOpenCL.KernelArgs.LocalMemory
import TiOpenCL.Mpax.Resource
import TiOpenCL.SharedMemory.Matching

/-!
# What a dispatch takes from the heaps

`DSPKernelEvent::run` lays out local memory, takes a block of shared memory for the `alloca` areas that
do not fit in it, a block of DDR for every temporary buffer, maps extended memory, and takes a block for
the arguments in memory.  Every step may return an error, and `HandleEventDispatch` then sets the status
of the event.  The blocks are released by `free_tmp_bufs` only, which is called when the kernel completes.

The grants in the progress of a dispatch are not known to the code: they are what the releases are
compared with.  No step gives a block back (`growing_run`).
-/

namespace TiOpenCL

namespace Kernels

open HeapManager SharedMemory LocalMemory

/-! ### The device and the event -/

/-- The heaps of a device: their ranges are apart, and the heap on chip and the first DDR heap have
addresses of 32 bits, which are not addresses of local memory. -/
structure DeviceMemory (l2 : L2Extent) where
  /-- The configuration of the heaps. -/
  cfg : HeapId → Config 64
  disjoint : ∀ i j, i ≠ j →
    Block.Disjoint ((cfg i).startAddr, (cfg i).length) ((cfg j).startAddr, (cfg j).length)
  pos : ∀ id, 0 < (cfg id).startAddr
  fits : ∀ id, (cfg id).startAddr + (cfg id).length < 2 ^ 64
  reach32 : ∀ id, id ≠ .ddrHeap2 → (cfg id).startAddr + (cfg id).length ≤ 2 ^ 32
  offChip : ∀ id, id ≠ .ddrHeap2 →
    Block.Disjoint ((cfg id).startAddr, (cfg id).length) (l2.start, l2.size)

/-- A buffer in host memory that the kernel sees a temporary copy of. -/
structure TmpBuf where
  /-- The size of the buffer. -/
  size : ℕ
  /-- The constructor of `Buffer` refuses a size of zero. -/
  pos : 0 < size
  /-- The buffer is in the address space of the host. -/
  lt : size < 2 ^ 63

/-- What `run` reads of a kernel event and of its device. -/
structure Dispatch where
  /-- What the layout of local memory depends on. -/
  layout : LocalMemory.Request
  /-- The heaps of the device. -/
  device : DeviceMemory layout.l2
  /-- The buffers of `p_hostptr_tmpbufs`. -/
  tmpBufs : List TmpBuf
  /-- `p_64bit_bufs` after the constructor: addresses and sizes. -/
  bufs64 : List (ℕ × ℕ)
  /-- The default MPAX resources of the device, for a device that has them. -/
  mpaxDefaultRes : Option (MmapConstants × Resources)
  /-- `args_on_stack_size`. -/
  argsOnStackSize : ℕ
  /-- `argref_offset`. -/
  argrefOffset : ℕ
  /-- Does the host have no memory for the name of a kernel that is debugged? -/
  debugFails : Bool

/-- The errors of `run`. -/
inductive DispatchError
  | memObjectAllocationFailure
  | outOfResources
  | outOfHostMemory
  /-- The mapping of extended memory does not return. -/
  | mapping (e : HeapError)
  /-- `AllocateGlobal` divides by a size of zero. -/
  | divisionByZero
  deriving DecidableEq

/-- The error of a step of the layout of local memory. -/
def DispatchError.ofLayout : LocalMemory.Error → DispatchError
  | .memObjectAllocationFailure => .memObjectAllocationFailure
  | .outOfResources => .outOfResources

/-- The state of a dispatch: the heaps, what the event records, and the blocks that were taken. -/
structure Progress where
  /-- The heaps. -/
  heaps : Heaps
  /-- `p_WG_alloca_start`. -/
  wgAllocaStart : ℕ
  /-- `p_64bit_bufs`. -/
  bufs64 : List (ℕ × ℕ)
  /-- The addresses of `p_hostptr_tmpbufs`. -/
  tmpAddrs : List ℕ
  /-- `args_on_stack_addr`. -/
  argsOnStackAddr : ℕ
  /-- The blocks that were taken. -/
  granted : List Grant

/-- A step of a dispatch. -/
abbrev DispatchM := EStateM DispatchError Progress

/-- The state before `run`. -/
def Dispatch.start (d : Dispatch) (hs : Heaps) : Progress := ⟨hs, 0, d.bufs64, [], 0, []⟩

/-- The progress after a call of `AllocateMSMC` or `AllocateGlobal`. -/
def Progress.take (p : Progress) (r : Grant × Heaps) : Progress :=
  { p with heaps := r.2, granted := if r.1.addr = 0 then p.granted else r.1 :: p.granted }

/-- A block of addresses of more than 32 bits is added to `p_64bit_bufs`. -/
def Progress.extend (p : Progress) (addr size : ℕ) : Progress :=
  if addr < 0xFFFFFFFF then p else { p with bufs64 := p.bufs64 ++ [(addr, size)] }

/-- Adding a block changes `p_64bit_bufs` only. -/
lemma Progress.extend_eq (p : Progress) (addr size : ℕ) : ∃ bufs64 : List (ℕ × ℕ),
    p.extend addr size = { p with bufs64 := bufs64 } := by
  unfold Progress.extend
  split
  · exact ⟨p.bufs64, rfl⟩
  · exact ⟨p.bufs64 ++ [(addr, size)], rfl⟩

/-- The progress after a temporary buffer has got its block. -/
def Progress.takeTmp (p : Progress) (b : TmpBuf) (r : Grant × Heaps) : Progress :=
  { p.take r with tmpAddrs := p.tmpAddrs ++ [r.1.addr] }.extend r.1.addr b.size

/-- The progress after an `alloca` area in shared memory has got its block. -/
def Progress.takeAlloca (p : Progress) (size : ℕ) (r : Grant × Heaps) : Progress :=
  { p.take r with wgAllocaStart := r.1.addr }.extend r.1.addr size

/-! ### The steps of `run` -/

/-- A block on chip, or else one of 32-bit addresses. -/
def allocateShared (pid size : ℕ) (hs : Heaps) : Grant × Heaps :=
  let r := allocateMSMC hs pid size
  if r.1.addr = 0 then (allocateGlobal r.2 pid size true).getD r else r

/-- The size of the `alloca` area of a work group, in 32 bits. -/
def Dispatch.wgAlloca (d : Dispatch) : ℕ := d.layout.wgAllocaSize % 2 ^ 32

/-- `chip_alloca_size`: the size of the `alloca` areas of all cores. -/
def Dispatch.chipAlloca (d : Dispatch) : ℕ := wmul 32 d.wgAlloca d.layout.dspCores

/-- The part of `init_kernel_runtime_variables` that places the `alloca` area. -/
def initKernelRuntimeVariables (d : Dispatch) (pid remaining localScratch : ℕ) : DispatchM Unit :=
  fun p =>
    if d.wgAlloca = 0 then .ok () p
    else
      let q :=
        if d.wgAlloca ≤ remaining then { p with wgAllocaStart := localScratch }
        else
          let r := allocateShared pid d.chipAlloca p.heaps
          { p.take r with wgAllocaStart := r.1.addr }
      if q.wgAllocaStart = 0 then .error .outOfResources q
      else .ok () (q.extend q.wgAllocaStart d.chipAlloca)

/-- `allocate_temp_global` -/
def allocateTempGlobal (pid : ℕ) : List TmpBuf → DispatchM Unit
  | [] => fun p => .ok () p
  | b :: bs => fun p =>
    match allocateGlobal p.heaps pid b.size false with
    | none => .error .divisionByZero p
    | some r =>
      if r.1.addr = 0 then .error .memObjectAllocationFailure (p.take r)
      else
        allocateTempGlobal pid bs (p.takeTmp b r)

/-- The error of the mapping of `p_64bit_bufs`, which is made in a copy of the default resources. -/
def mappingError (res : Option (MmapConstants × Resources)) (bufs64 : List (ℕ × ℕ)) :
    Option DispatchError :=
  match res with
  | none => none
  | some (c, r) =>
    if bufs64 = [] then none
    else
      match Heap.resourceAlloc c (bufs64.map fun b => ⟨b.1, b.2 % 2 ^ 32, 0⟩) r with
      | .error e => some (.mapping e)
      | .ok (none, _) => some .outOfResources
      | .ok (some _, _) => none

/-- `setup_extended_memory_mappings` -/
def setupExtendedMemoryMappings (res : Option (MmapConstants × Resources)) : DispatchM Unit := fun p =>
  match mappingError res p.bufs64 with
  | none => .ok () p
  | some e => .error e p

/-- `args_in_mem_size`. -/
def Dispatch.argsInMemSize (d : Dispatch) : ℕ :=
  wadd 32 (KernelArgs.roundup d.argsOnStackSize 128) d.argrefOffset

/-- `setup_stack_based_arguments` -/
def setupStackBasedArguments (d : Dispatch) (pid : ℕ) : DispatchM Unit := fun p =>
  if d.argsInMemSize = 0 then .ok () p
  else
    let r := allocateShared pid d.argsInMemSize p.heaps
    if r.1.addr = 0 then .error .outOfResources (p.take r)
    else .ok () { p.take r with argsOnStackAddr := r.1.addr % 2 ^ 32 }

/-- `debug_kernel_dispatch` -/
def debugKernelDispatch (d : Dispatch) : DispatchM Unit := fun p =>
  if d.debugFails then .error .outOfHostMemory p else .ok () p

/-- The steps of `run` behind the layout of local memory that follow the `alloca` area. -/
def runRest (d : Dispatch) (pid : ℕ) : DispatchM Unit := do
  allocateTempGlobal pid d.tmpBufs
  setupExtendedMemoryMappings d.mpaxDefaultRes
  setupStackBasedArguments d pid
  debugKernelDispatch d

/-- `DSPKernelEvent::run` up to the mail to the device. -/
def run (d : Dispatch) (pid : ℕ) : DispatchM Unit :=
  match allocateAndAssignLocalBuffers d.layout with
  | .error e => throw (.ofLayout e)
  | .ok (_, localScratch, remaining) => do
    initKernelRuntimeVariables d pid remaining localScratch
    runRest d pid

/-- `HandleEventDispatch` for a kernel: the error that the status of the event is set to, if `run` fails,
and what has been taken. -/
def handleEventDispatch (d : Dispatch) (pid : ℕ) (hs : Heaps) : Option DispatchError × Progress :=
  match run d pid (d.start hs) with
  | .ok _ p => (none, p)
  | .error e p => (some e, p)

/-! ### `free_tmp_bufs` -/

/-- `addr_is_l2`; its parameter has 32 bits. -/
def addrIsL2 (l2 : L2Extent) (addr : ℕ) : Bool :=
  decide (l2.start ≤ addr % 2 ^ 32) && decide (addr % 2 ^ 32 < l2.start + l2.size)

/-- The release of the `alloca` area. -/
def allocaCalls (l2 : L2Extent) (wgAllocaStart : ℕ) : List (FreeCall × ℕ) :=
  if 0 < wgAllocaStart ∧ addrIsL2 l2 wgAllocaStart = false then
    [(.freeMSMCorGlobal, wgAllocaStart)]
  else []

/-- The release of the arguments in memory. -/
def argsCalls (argsOnStackAddr : ℕ) : List (FreeCall × ℕ) :=
  if 0 < argsOnStackAddr then [(.freeMSMCorGlobal, argsOnStackAddr)] else []

/-- The calls of `free_tmp_bufs`, in their order. -/
def freeCalls (l2 : L2Extent) (p : Progress) : List (FreeCall × ℕ) :=
  allocaCalls l2 p.wgAllocaStart ++ argsCalls p.argsOnStackAddr ++
    p.tmpAddrs.map fun addr => (.freeGlobal, addr)

/-- The calls are made one after the other. -/
def releaseAll (pastEnd : ℕ → PastEnd) : List (FreeCall × ℕ) → Heaps → List Freed × Heaps
  | [], hs => ([], hs)
  | c :: cs, hs =>
    let r := c.1.call hs (pastEnd cs.length) c.2
    let rest := releaseAll pastEnd cs r.2
    (r.1 :: rest.1, rest.2)

/-- `free_tmp_bufs` -/
def freeTmpBufs (l2 : L2Extent) (pastEnd : ℕ → PastEnd) (p : Progress) (hs : Heaps) :
    List Freed × Heaps :=
  releaseAll pastEnd (freeCalls l2 p) hs

/-- No read past the end of a free list looks like a neighbour of a block that is released. -/
def ReleasesOk (pastEnd : ℕ → PastEnd) : List (FreeCall × ℕ) → Heaps → Prop
  | [], _ => True
  | c :: cs, hs => (∀ id, (hs id).FreeOk (pastEnd cs.length) c.2) ∧
    ReleasesOk pastEnd cs (c.1.call hs (pastEnd cs.length) c.2).2

/-- The request of the layout of local memory, with the heaps as they are. -/
def Dispatch.request (d : Dispatch) (pid : ℕ) (hs : Heaps) : LocalMemory.Request :=
  { d.layout with
    allocateMSMC := fun size => (allocateMSMC hs pid size).1.addr
    allocateGlobal := fun size => (mallocIn (allocateMSMC hs pid size).2 pid .ddrHeap1 size).1.addr }

/-- The first address of an `alloca` area. -/
def allocaStart : Alloca → ℕ
  | .none => 0
  | .inL2 region => region.start
  | .shared start _ => start

/-- The `alloca` area is where the layout of local memory puts it, and the same requests fail. -/
lemma initKernelRuntimeVariables_layout (d : Dispatch) (pid remaining localScratch : ℕ) {p : Progress}
    (hp : p.wgAllocaStart = 0) :
    (LocalMemory.initKernelRuntimeVariables (d.request pid p.heaps) remaining localScratch).map
        (fun r => allocaStart r.1) =
      match initKernelRuntimeVariables d pid remaining localScratch p with
      | .ok _ q => .ok q.wgAllocaStart
      | .error _ _ => .error .outOfResources := by
  have hextend : ∀ (q : Progress) (addr size : ℕ), (q.extend addr size).wgAllocaStart =
      q.wgAllocaStart := by
    intro q addr size
    unfold Progress.extend
    split <;> rfl
  have hsize : (d.request pid p.heaps).wgAllocaSize % 2 ^ 32 = d.wgAlloca := rfl
  have hcores : (d.request pid p.heaps).dspCores = d.layout.dspCores := rfl
  unfold LocalMemory.initKernelRuntimeVariables initKernelRuntimeVariables
  simp only [hsize, hcores]
  by_cases hnone : d.wgAlloca = 0
  · simp only [if_pos hnone, Except.map, allocaStart, hp]
  · simp only [if_neg hnone]
    by_cases hroom : d.wgAlloca ≤ remaining
    · simp only [if_pos hroom]
      by_cases hzero : localScratch = 0
      · simp only [if_pos hzero, Except.map]
      · simp only [if_neg hzero, Except.map, allocaStart, hextend]
    · have hstart : (allocateShared pid d.chipAlloca p.heaps).1.addr =
          if (allocateMSMC p.heaps pid d.chipAlloca).1.addr = 0 then
            (mallocIn (allocateMSMC p.heaps pid d.chipAlloca).2 pid .ddrHeap1 d.chipAlloca).1.addr
          else (allocateMSMC p.heaps pid d.chipAlloca).1.addr := by
        by_cases hmsmc : (allocateMSMC p.heaps pid d.chipAlloca).1.addr = 0
        · simp only [allocateShared, if_pos hmsmc, SharedMemory.allocateGlobal, if_true,
            Option.getD_some]
        · simp only [allocateShared, if_neg hmsmc]
      have hmsmc : (d.request pid p.heaps).allocateMSMC =
          fun size => (allocateMSMC p.heaps pid size).1.addr := rfl
      have hglobal : (d.request pid p.heaps).allocateGlobal = fun size =>
          (mallocIn (allocateMSMC p.heaps pid size).2 pid .ddrHeap1 size).1.addr := rfl
      simp only [if_neg hroom, hstart, hmsmc, hglobal]
      rw [← Dispatch.chipAlloca]
      generalize (if (allocateMSMC p.heaps pid d.chipAlloca).1.addr = 0 then _ else _) = start
      by_cases hzero : start = 0
      · simp only [if_pos hzero, Except.map]
      · simp only [if_neg hzero, Except.map, allocaStart, hextend]

/-! ### Requests to the heaps -/

/-- Neither the heap on chip nor the first DDR heap has room. -/
def RefusesShared (hs : Heaps) (size : ℕ) : Prop :=
  ¬ (hs .msmcHeap).Serves size ∧ ¬ (hs .ddrHeap1).Serves size

/-- No DDR heap has room. -/
def RefusesGlobal (hs : Heaps) (size : ℕ) : Prop :=
  ¬ (hs .ddrHeap1).Serves size ∧ ¬ (hs .ddrHeap2).Serves size

section Requests

variable {cfg : HeapId → Config 64} {hs : Heaps} {G : List Grant} {size : ℕ}

/-- The heaps handle every size but zero of a block in the address space of the host. -/
lemma mallocOk_of_configured {id : HeapId} (h : Configured (cfg id) (hs id)) (hpos : 0 < size)
    (hlt : size < 2 ^ 63) : (hs id).MallocOk size := by
  rcases h.powBlock with hzero | ⟨k, hk, hblock⟩
  · refine Or.inr ?_
    by_contra hne
    obtain ⟨kv, hkv⟩ := List.exists_mem_of_ne_nil _ hne
    have hrange := h.tiled.free_range hkv
    omega
  · refine Or.inl ⟨hpos, ?_⟩
    have hle : 2 ^ k ≤ 2 ^ 63 := Nat.pow_le_pow_right (by norm_num) (by omega)
    rw [hblock]
    omega

/-- `malloc` returns zero exactly if its search finds no block. -/
lemma mallocIn_addr_eq_zero_iff (h : Held cfg hs G) (hpos : ∀ id, 0 < (cfg id).startAddr) (pid : ℕ)
    {id : HeapId} (hok : (hs id).MallocOk size) :
    (mallocIn hs pid id size).1.addr = 0 ↔ ¬ (hs id).Serves size := by
  have hc := h.configured id
  unfold SharedMemory.mallocIn
  cases hm : (hs id).malloc size pid true with
  | none =>
    simp only [malloc] at hm
    split at hm <;> simp at hm
  | some r =>
    obtain ⟨addr, heap⟩ := r
    have hc' : Configured (cfg id) heap :=
      ⟨wellTiled_malloc hc.tiled hc.powBlock hok hm, (malloc_settings hm).trans hc.settings⟩
    rcases malloc_cases hm with ⟨hserves, kv, hkv, p, hplace, rfl, rfl⟩ | ⟨hnot, rfl, rfl⟩
    · have hmem : (p.availAddr, ⟨(hs id).roundSize size, pid⟩) ∈
          ((hs id).occupy p ((hs id).roundSize size) pid).allocList.entries :=
        OrderedMap.mem_insert.mpr (Or.inl rfl)
      have hcov : (cfg id).startAddr ≤ p.availAddr := (hc'.covers hmem).1
      have := hpos id
      simp only [hserves, not_true_eq_false, iff_false]
      omega
    · simp only [hnot, not_false_eq_true]

/-- A request for shared memory returns a block on chip or of the first DDR heap, or zero if both
refuse it. -/
lemma held_allocateShared (h : Held cfg hs G) (hpos : ∀ id, 0 < (cfg id).startAddr) (pid : ℕ)
    (hsize : 0 < size) (hlt : size < 2 ^ 63) :
    let r := allocateShared pid size hs
    r.1.addr ≠ 0 ∧ r.1.heap ≠ .ddrHeap2 ∧ ¬ RefusesShared hs size ∧ Held cfg r.2 (r.1 :: G) ∨
      r.1.addr = 0 ∧ RefusesShared hs size ∧ r.2 = hs := by
  have hok : ∀ id, (hs id).MallocOk size :=
    fun id => mallocOk_of_configured (h.configured id) hsize hlt
  obtain ⟨hid, hmsmc⟩ := h.mallocIn hpos pid (hok .msmcHeap)
  have hzero := mallocIn_addr_eq_zero_iff h hpos pid (hok .msmcHeap)
  have hshared : allocateShared pid size hs =
      if (mallocIn hs pid .msmcHeap size).1.addr = 0 then
        mallocIn (mallocIn hs pid .msmcHeap size).2 pid .ddrHeap1 size
      else mallocIn hs pid .msmcHeap size := rfl
  rcases hmsmc with ⟨haddr, hheld⟩ | ⟨haddr, heq, -⟩
  · rw [if_neg haddr] at hshared
    rw [hshared]
    refine Or.inl ⟨haddr, by simp [hid], ?_, hheld⟩
    exact fun hr => haddr (hzero.mpr hr.1)
  · -- the heaps are as before the first attempt
    rw [if_pos haddr, heq] at hshared
    rw [hshared]
    obtain ⟨hid1, hddr⟩ := h.mallocIn hpos pid (hok .ddrHeap1)
    have hzero1 := mallocIn_addr_eq_zero_iff h hpos pid (hok .ddrHeap1)
    rcases hddr with ⟨haddr1, hheld1⟩ | ⟨haddr1, heq1, -⟩
    · refine Or.inl ⟨haddr1, by simp [hid1], ?_, hheld1⟩
      exact fun hr => haddr1 (hzero1.mpr hr.2)
    · exact Or.inr ⟨haddr1, ⟨hzero.mp haddr, hzero1.mp haddr1⟩, heq1⟩

/-- `AllocateGlobal` without preference returns zero exactly if both DDR heaps refuse the request. -/
lemma allocateGlobal_addr_eq_zero_iff (h : Held cfg hs G) (hpos : ∀ id, 0 < (cfg id).startAddr)
    (pid : ℕ) (hsize : 0 < size) (hlt : size < 2 ^ 63) {r : Grant × Heaps}
    (hr : allocateGlobal hs pid size false = some r) : r.1.addr = 0 ↔ RefusesGlobal hs size := by
  have hok : ∀ id, (hs id).MallocOk size :=
    fun id => mallocOk_of_configured (h.configured id) hsize hlt
  have hzero1 := mallocIn_addr_eq_zero_iff h hpos pid (hok .ddrHeap1)
  have hzero2 := mallocIn_addr_eq_zero_iff h hpos pid (hok .ddrHeap2)
  obtain ⟨-, hcases1⟩ := h.mallocIn hpos pid (hok .ddrHeap1)
  obtain ⟨-, hcases2⟩ := h.mallocIn hpos pid (hok .ddrHeap2)
  have hsame : ∀ id, ((mallocIn hs pid id size).1.addr ≠ 0 ∧
        Held cfg (mallocIn hs pid id size).2 ((mallocIn hs pid id size).1 :: G) ∨
      (mallocIn hs pid id size).1.addr = 0 ∧ (mallocIn hs pid id size).2 = hs ∧
        ¬ (hs id).Fits size) →
      (mallocIn hs pid id size).1.addr = 0 → (mallocIn hs pid id size).2 = hs := by
    rintro id (⟨hne, -⟩ | ⟨-, heq, -⟩) haddr
    · exact absurd haddr hne
    · exact heq
  simp only [SharedMemory.allocateGlobal, Bool.false_eq_true, if_false,
    if_neg (show size ≠ 0 by omega), Option.some.injEq] at hr
  -- the attempt in the first heap that depends on its largest block
  generalize hfirst : (if fractionPersistentForBuffer < (hs .ddrHeap1).maxBlockSize / size then
    mallocIn hs pid .ddrHeap1 size else (⟨0, .ddrHeap1⟩, hs)) = first at hr
  have hfirst' : first.1.addr ≠ 0 ∧ (hs .ddrHeap1).Serves size ∨ first.1.addr = 0 ∧ first.2 = hs := by
    subst hfirst
    split
    · by_cases haddr : (mallocIn hs pid .ddrHeap1 size).1.addr = 0
      · exact Or.inr ⟨haddr, hsame _ hcases1 haddr⟩
      · exact Or.inl ⟨haddr, not_not.mp fun hnot => haddr (hzero1.mpr hnot)⟩
    · exact Or.inr ⟨rfl, rfl⟩
  rcases hfirst' with ⟨haddr, hserves⟩ | ⟨haddr, heq⟩
  · simp only [if_neg haddr] at hr
    subst hr
    exact ⟨fun h0 => absurd h0 haddr, fun href => absurd hserves href.1⟩
  · simp only [if_pos haddr, heq] at hr
    by_cases haddr2 : (mallocIn hs pid .ddrHeap2 size).1.addr = 0
    · rw [if_pos haddr2, hsame _ hcases2 haddr2] at hr
      subst hr
      rw [hzero1, RefusesGlobal]
      exact ⟨fun hnot => ⟨hnot, hzero2.mp haddr2⟩, fun href => href.1⟩
    · rw [if_neg haddr2] at hr
      subst hr
      exact ⟨fun h0 => absurd h0 haddr2, fun href => absurd (hzero2.mpr href.2) haddr2⟩

/-- A request for a temporary buffer returns a block of a DDR heap, or zero if both refuse it. -/
lemma held_allocateTemp (h : Held cfg hs G) (hpos : ∀ id, 0 < (cfg id).startAddr) (pid : ℕ)
    (b : TmpBuf) :
    ∃ r, allocateGlobal hs pid b.size false = some r ∧
      (r.1.addr ≠ 0 ∧ r.1.heap ≠ .msmcHeap ∧ ¬ RefusesGlobal hs b.size ∧ Held cfg r.2 (r.1 :: G) ∨
        r.1.addr = 0 ∧ RefusesGlobal hs b.size ∧ r.2 = hs) := by
  have hok : ∀ id, (hs id).MallocOk b.size :=
    fun id => mallocOk_of_configured (h.configured id) b.pos b.lt
  obtain ⟨g, hs', heq, hcases⟩ := h.allocateGlobal hpos pid
    (show AllocOk hs b.size false from ⟨fun _ => b.pos, hok _, fun _ => hok _⟩)
  have hzero := allocateGlobal_addr_eq_zero_iff h hpos pid b.pos b.lt heq
  refine ⟨(g, hs'), heq, ?_⟩
  rcases hcases with ⟨haddr, hheap, hheld⟩ | ⟨haddr, hhs, -⟩
  · exact Or.inl ⟨haddr, hheap, fun href => haddr (hzero.mpr href), hheld⟩
  · exact Or.inr ⟨haddr, hzero.mp haddr, hhs⟩

end Requests

/-! ### What has been taken -/

/-- The state at the end of a step, with or without an error. -/
def finalState {α : Type} : EStateM.Result DispatchError Progress α → Progress
  | .ok _ p => p
  | .error _ p => p

/-- Blocks are taken and none is given back: the callers hold what they held and what was taken, and the
heaps are as they were if nothing was. -/
structure Grows (cfg : HeapId → Config 64) (G : List Grant) (p q : Progress) : Prop where
  held : Held cfg q.heaps (q.granted ++ G)
  suffix : p.granted <:+ q.granted
  idle : q.granted = p.granted → q.heaps = p.heaps

/-- A step only takes blocks. -/
def Growing (cfg : HeapId → Config 64) {α : Type} (x : DispatchM α) : Prop :=
  ∀ G p, Held cfg p.heaps (p.granted ++ G) → Grows cfg G p (finalState (x p))

section Growth

variable {cfg : HeapId → Config 64} {G : List Grant} {p q r : Progress} {α β : Type}
  {x : DispatchM α} {f : α → DispatchM β}

lemma Grows.refl (h : Held cfg p.heaps (p.granted ++ G)) : Grows cfg G p p :=
  ⟨h, List.suffix_rfl, fun _ => rfl⟩

lemma Grows.trans (h : Grows cfg G p q) (h' : Grows cfg G q r) : Grows cfg G p r where
  held := h'.held
  suffix := h.suffix.trans h'.suffix
  idle heq := by
    have hq : q.granted = p.granted := by
      refine List.IsSuffix.eq_of_length_le ?_ ?_
      · exact heq ▸ h'.suffix
      · exact h.suffix.length_le
    rw [h'.idle (heq.trans hq.symm), h.idle hq]

/-- What a request returns is taken. -/
lemma Grows.take (h : Held cfg p.heaps (p.granted ++ G)) {r : Grant × Heaps}
    (hr : r.1.addr ≠ 0 ∧ Held cfg r.2 (r.1 :: (p.granted ++ G)) ∨ r.1.addr = 0 ∧ r.2 = p.heaps) :
    Grows cfg G p (p.take r) := by
  rcases hr with ⟨haddr, hheld⟩ | ⟨haddr, heq⟩
  · refine ⟨?_, ?_, ?_⟩
    · simpa only [Progress.take, if_neg haddr, List.cons_append] using hheld
    · simp only [Progress.take, if_neg haddr]
      exact List.suffix_cons _ _
    · simp only [Progress.take, if_neg haddr]
      exact fun hcon => absurd hcon (List.cons_ne_self _ _)
  · refine ⟨?_, ?_, fun _ => heq⟩
    · simpa only [Progress.take, if_pos haddr, heq] using h
    · simp only [Progress.take, if_pos haddr]
      exact List.suffix_rfl

/-- Only the heaps and the blocks matter. -/
lemma Grows.congr (h : Grows cfg G p q) (hheaps : r.heaps = q.heaps) (hgranted : r.granted = q.granted) :
    Grows cfg G p r where
  held := by
    rw [hheaps, hgranted]
    exact h.held
  suffix := hgranted ▸ h.suffix
  idle heq := by
    rw [hheaps]
    exact h.idle (hgranted ▸ heq)

lemma Grows.extend (h : Grows cfg G p q) (addr size : ℕ) : Grows cfg G p (q.extend addr size) := by
  obtain ⟨bufs64, heq⟩ := q.extend_eq addr size
  rw [heq]
  exact h.congr rfl rfl

lemma Grows.takeTmp (b : TmpBuf) {t : Grant × Heaps} (h : Grows cfg G p (p.take t)) :
    Grows cfg G p (p.takeTmp b t) :=
  Grows.extend (h.congr (r := { p.take t with tmpAddrs := p.tmpAddrs ++ [t.1.addr] }) rfl rfl) _ _

lemma Grows.takeAlloca (size : ℕ) {t : Grant × Heaps} (h : Grows cfg G p (p.take t)) :
    Grows cfg G p (p.takeAlloca size t) :=
  Grows.extend (h.congr (r := { p.take t with wgAllocaStart := t.1.addr }) rfl rfl) _ _

/-- A step that succeeds is followed by the rest. -/
lemma bind_of_ok {a : α} (h : x p = .ok a q) : (x >>= f) p = f a q := by
  change EStateM.bind x f p = f a q
  rw [EStateM.bind, h]

/-- A step that fails ends the dispatch. -/
lemma bind_of_error {e : DispatchError} (h : x p = .error e q) : (x >>= f) p = .error e q := by
  change EStateM.bind x f p = .error e q
  rw [EStateM.bind, h]

/-- Two first steps with one result are followed by the same rest. -/
lemma bind_congr_state {x' : DispatchM α} (h : x p = x' q) : (x >>= f) p = (x' >>= f) q := by
  change EStateM.bind x f p = EStateM.bind x' f q
  rw [EStateM.bind, EStateM.bind, h]

/-- A dispatch that succeeds has succeeded in its first step and in the rest. -/
lemma bind_eq_ok {b : β} (h : (x >>= f) p = .ok b r) : ∃ a q, x p = .ok a q ∧ f a q = .ok b r := by
  cases hx : x p with
  | ok a q => exact ⟨a, q, rfl, (bind_of_ok hx).symm.trans h⟩
  | error e q =>
    rw [bind_of_error hx] at h
    cases h

/-- Steps one after the other only take blocks. -/
lemma Growing.bind (hx : Growing cfg x) (hf : ∀ a, Growing cfg (f a)) : Growing cfg (x >>= f) := by
  intro G p h
  have hfirst := hx G p h
  cases hr : x p with
  | ok a q =>
    rw [hr] at hfirst
    rw [bind_of_ok hr]
    exact hfirst.trans (hf a G q hfirst.held)
  | error e q =>
    rw [hr] at hfirst
    rw [bind_of_error hr]
    exact hfirst

end Growth

/-! ### What the steps take -/

namespace Dispatch

/-- The `alloca` areas have a size that is not zero, if they are in shared memory: the product with the
number of cores has 32 bits. -/
def AllocaOk (d : Dispatch) : Prop :=
  ∀ y ∈ (allocateAndAssignLocalBuffers d.layout).toOption, y.2.2 < d.wgAlloca → d.chipAlloca ≠ 0

instance (d : Dispatch) : Decidable d.AllocaOk := by
  unfold AllocaOk
  infer_instance

end Dispatch

section Steps

variable {d : Dispatch} {G : List Grant} {p : Progress} (pid : ℕ)

lemma chipAlloca_lt (d : Dispatch) : d.chipAlloca < 2 ^ 63 :=
  lt_of_lt_of_le (Nat.mod_lt _ (by norm_num)) (by norm_num)

lemma argsInMemSize_lt (d : Dispatch) : d.argsInMemSize < 2 ^ 63 :=
  lt_of_lt_of_le (Nat.mod_lt _ (by norm_num)) (by norm_num)

/-- A kernel without `alloca` area takes nothing for it. -/
lemma initKernelRuntimeVariables_none (remaining localScratch : ℕ) (h : d.wgAlloca = 0) :
    initKernelRuntimeVariables d pid remaining localScratch p = .ok () p := by
  rw [initKernelRuntimeVariables, if_pos h]

/-- An area in local memory takes nothing from the heaps. -/
lemma initKernelRuntimeVariables_local {remaining : ℕ} (localScratch : ℕ) (h : d.wgAlloca ≠ 0)
    (hroom : d.wgAlloca ≤ remaining) :
    initKernelRuntimeVariables d pid remaining localScratch p =
      if localScratch = 0 then .error .outOfResources { p with wgAllocaStart := localScratch }
      else .ok () ({ p with wgAllocaStart := localScratch }.extend localScratch d.chipAlloca) := by
  rw [initKernelRuntimeVariables, if_neg h]
  simp only [if_pos hroom]

/-- An area in shared memory is taken from the heaps, or the dispatch fails. -/
lemma initKernelRuntimeVariables_shared {remaining : ℕ} (localScratch : ℕ) (hroom : remaining < d.wgAlloca)
    {r : Grant × Heaps} (hr : allocateShared pid d.chipAlloca p.heaps = r) :
    initKernelRuntimeVariables d pid remaining localScratch p =
      if r.1.addr = 0 then .error .outOfResources { p.take r with wgAllocaStart := r.1.addr }
      else .ok () (p.takeAlloca d.chipAlloca r) := by
  rw [initKernelRuntimeVariables, if_neg (by omega)]
  simp only [if_neg (not_le.mpr hroom), hr, Progress.takeAlloca]

/-- The step of the `alloca` area only takes blocks. -/
lemma growing_initKernelRuntimeVariables {remaining : ℕ} (localScratch : ℕ)
    (hok : remaining < d.wgAlloca → d.chipAlloca ≠ 0) :
    Growing d.device.cfg (initKernelRuntimeVariables d pid remaining localScratch) := by
  intro G p h
  by_cases hnone : d.wgAlloca = 0
  · rw [initKernelRuntimeVariables_none pid remaining localScratch hnone]
    exact Grows.refl h
  rcases le_or_gt d.wgAlloca remaining with hroom | hroom
  · have hsame : Grows d.device.cfg G p { p with wgAllocaStart := localScratch } :=
      ⟨h, List.suffix_rfl, fun _ => rfl⟩
    rw [initKernelRuntimeVariables_local pid localScratch hnone hroom]
    split
    · exact hsame
    · exact hsame.extend _ _
  · have hshared := held_allocateShared h d.device.pos pid (Nat.pos_of_ne_zero (hok hroom))
      (chipAlloca_lt d)
    have htake := Grows.take h (hshared.imp (fun hc => ⟨hc.1, hc.2.2.2⟩) fun hc => ⟨hc.1, hc.2.2⟩)
    rw [initKernelRuntimeVariables_shared pid localScratch hroom rfl]
    split
    · exact ⟨htake.held, htake.suffix, htake.idle⟩
    · exact Grows.takeAlloca _ htake

/-- A temporary buffer that the heaps refuse ends the dispatch; another one is taken. -/
lemma allocateTempGlobal_cons {b : TmpBuf} {r : Grant × Heaps}
    (hr : allocateGlobal p.heaps pid b.size false = some r) (bs : List TmpBuf) :
    allocateTempGlobal pid (b :: bs) p =
      if r.1.addr = 0 then .error .memObjectAllocationFailure (p.take r)
      else allocateTempGlobal pid bs (p.takeTmp b r) := by
  simp only [allocateTempGlobal, hr]

/-- The temporary buffers only take blocks. -/
lemma growing_allocateTempGlobal (bs : List TmpBuf) :
    Growing d.device.cfg (allocateTempGlobal pid bs) := by
  induction bs with
  | nil => exact fun G p h => Grows.refl h
  | cons b bs ih =>
    intro G p h
    obtain ⟨r, hr, hcases⟩ := held_allocateTemp h d.device.pos pid b
    have htake := Grows.take h (hcases.imp (fun hc => ⟨hc.1, hc.2.2.2⟩) fun hc => ⟨hc.1, hc.2.2⟩)
    rw [allocateTempGlobal_cons pid hr]
    split
    · exact htake
    · have hkept := Grows.takeTmp b htake
      exact hkept.trans (ih G _ hkept.held)

/-- The mapping takes nothing from the heaps. -/
lemma growing_setupExtendedMemoryMappings (res : Option (MmapConstants × Resources)) :
    Growing d.device.cfg (setupExtendedMemoryMappings res) := by
  intro G p h
  unfold setupExtendedMemoryMappings
  split
  · exact Grows.refl h
  · exact Grows.refl h

/-- Arguments in memory take a block, or the dispatch fails. -/
lemma setupStackBasedArguments_some (hsize : d.argsInMemSize ≠ 0) {r : Grant × Heaps}
    (hr : allocateShared pid d.argsInMemSize p.heaps = r) :
    setupStackBasedArguments d pid p =
      if r.1.addr = 0 then .error .outOfResources (p.take r)
      else .ok () { p.take r with argsOnStackAddr := r.1.addr % 2 ^ 32 } := by
  simp only [setupStackBasedArguments, if_neg hsize, hr]

/-- The arguments in memory only take blocks. -/
lemma growing_setupStackBasedArguments :
    Growing d.device.cfg (setupStackBasedArguments d pid) := by
  intro G p h
  by_cases hsize : d.argsInMemSize = 0
  · rw [setupStackBasedArguments, if_pos hsize]
    exact Grows.refl h
  · have hshared := held_allocateShared h d.device.pos pid (Nat.pos_of_ne_zero hsize)
      (argsInMemSize_lt d)
    have htake := Grows.take h (hshared.imp (fun hc => ⟨hc.1, hc.2.2.2⟩) fun hc => ⟨hc.1, hc.2.2⟩)
    rw [setupStackBasedArguments_some pid hsize rfl]
    split
    · exact htake
    · exact ⟨htake.held, htake.suffix, htake.idle⟩

/-- The name of a kernel takes nothing from the heaps. -/
lemma growing_debugKernelDispatch : Growing d.device.cfg (debugKernelDispatch d) := by
  intro G p h
  unfold debugKernelDispatch
  split
  · exact Grows.refl h
  · exact Grows.refl h

/-- The steps from some temporary buffers on only take blocks. -/
lemma growing_rest (bs : List TmpBuf) :
    Growing d.device.cfg (do
      allocateTempGlobal pid bs
      setupExtendedMemoryMappings d.mpaxDefaultRes
      setupStackBasedArguments d pid
      debugKernelDispatch d) :=
  (growing_allocateTempGlobal pid bs).bind fun _ =>
    (growing_setupExtendedMemoryMappings _).bind fun _ =>
      (growing_setupStackBasedArguments pid).bind fun _ => growing_debugKernelDispatch

/-- The steps behind the `alloca` area only take blocks. -/
lemma growing_runRest : Growing d.device.cfg (runRest d pid) := growing_rest pid d.tmpBufs

/-- A dispatch only takes blocks. -/
lemma growing_run (hok : d.AllocaOk) : Growing d.device.cfg (run d pid) := by
  unfold run
  cases hy : allocateAndAssignLocalBuffers d.layout with
  | error e => exact fun G p h => Grows.refl h
  | ok y =>
    have hchip := hok y (by rw [hy]; rfl)
    exact (growing_initKernelRuntimeVariables pid _ hchip).bind fun _ => growing_runRest pid

end Steps

end Kernels

end TiOpenCL
