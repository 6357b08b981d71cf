import TiOpenCL.Mpax.Heap

/-!
# The MPAX resource manager

`keystone_mmap_resource_init`, `keystone_mmap_resource_alloc` and `keystone_mmap_resource_free` over
the address space heaps and the table of mapping entries.
-/

namespace TiOpenCL

/-- `keystone_mmap_mapping_t`. -/
structure Mapping where
  /-- Index of the XMC register, negative for an entry that is not configured. -/
  xmcIdx : ℤ
  /-- Index of the SES register. -/
  sesIdx : ℤ
  /-- Physical address of the window. -/
  raddr : ℕ
  /-- Virtual address of the window. -/
  baddr : ℕ
  /-- Logarithm of the size of the window, zero for an entry that is not used. -/
  segsizePower2 : ℕ
  /-- Protection of the window. -/
  prot : ℕ
  deriving DecidableEq

/-- `keystone_mmap_resources_t`. -/
structure Resources where
  /-- The mapping table. -/
  mapping : List Mapping
  /-- The element bank of the heaps. -/
  heap : Bank
  /-- The number of heaps; the first elements of the bank are their roots. -/
  numHeaps : ℕ

/-- A buffer to be mapped: its physical address, its length and its protection. -/
structure PhysBuf where
  physAddr : ℕ
  length : ℕ
  prot : ℕ
  deriving DecidableEq

namespace Heap

variable (c : MmapConstants)

/-! ### `keystone_mmap_resource_init` -/

/-- The table after the loops that pair the registers. -/
def pairRegs (regs : List (ℕ × ℕ)) : List Mapping :=
  regs.map (fun r => ⟨r.1, r.2, 0, 0, 0, 0⟩) ++
    List.replicate (c.maxNumMaps - regs.length) ⟨-1, -1, 0, 0, 0, 0⟩

/-- The bank with the first elements claimed as roots. -/
def claimRoots (numHeaps : ℕ) : Bank := fun i =>
  if i < numHeaps then { HeapElement.zero with inUse := true } else .zero

/-- The loop over the heaps from index `i` on; `none` if one is not aligned. -/
def initHeaps : ℕ → List (ℕ × ℕ) → Bank → Except HeapError (Option Bank)
  | _, [], bank => .ok (some bank)
  | i, (base, size) :: heaps, bank =>
    if base &&& (2 ^ c.heapAlignLog - 1) ≠ 0 ∨ size &&& (2 ^ c.heapAlignLog - 1) ≠ 0 then .ok none
    else do
      let bank ← heapInit c bank i base size
      initHeaps (i + 1) heaps bank

/-- `keystone_mmap_resource_init`; `none` for `KEYSTONE_MMAP_RESOURCE_INIT_ERROR`. -/
def resourceInit (regs heaps : List (ℕ × ℕ)) : Except HeapError (Option Resources) :=
  if c.maxNumMaps < regs.length then .ok none
  else do
    let res ← initHeaps c 0 heaps (claimRoots heaps.length)
    .ok (res.map fun bank => ⟨pairRegs c regs, bank, heaps.length⟩)

/-! ### `keystone_mmap_resource_free` -/

/-- The loop that frees an address in the first heap from index `i` on that has it. -/
def freeInHeaps (addr : ℕ) : ℕ → ℕ → Bank → Except HeapError (Bool × Bank)
  | 0, _, bank => .ok (false, bank)
  | n + 1, i, bank => do
    let (ret, bank) ← heapFree c (heapFuel c) bank i addr
    if 0 < ret then .ok (true, bank) else freeInHeaps addr n (i + 1) bank

/-- The beginning or the end of a buffer is within the window of a mapping. -/
def Mapping.Meets (m : Mapping) (virt len : ℕ) : Prop :=
  m.baddr ≤ virt ∧ virt < wadd 32 m.baddr (2 ^ m.segsizePower2 % 2 ^ 32) ∨
    m.baddr < wadd 32 virt len ∧ wadd 32 virt len ≤ wadd 32 m.baddr (2 ^ m.segsizePower2 % 2 ^ 32)

instance (m : Mapping) (virt len : ℕ) : Decidable (Mapping.Meets m virt len) :=
  inferInstanceAs (Decidable (_ ∨ _))

/-- The mapping after it is reset. -/
def Mapping.reset (m : Mapping) : Mapping :=
  { m with raddr := 0, baddr := 0, segsizePower2 := 0, prot := 0 }

/-- `keystone_mmap_resource_free`; the flag is set on success. -/
def resourceFree : List (ℕ × ℕ) → Resources → Except HeapError (Bool × Resources)
  | [], r => .ok (true, r)
  | (virt, len) :: bufs, r => do
    let (found, bank) ← freeInHeaps c virt r.numHeaps 0 r.heap
    let r := { r with heap := bank }
    if found then
      let numUnmap := r.mapping.countP fun m => Mapping.Meets m virt len
      let mapping := r.mapping.map fun m => if Mapping.Meets m virt len then Mapping.reset m else m
      let r := { r with mapping := mapping }
      if numUnmap = 0 ∨ 2 < numUnmap then .ok (false, r) else resourceFree bufs r
    else .ok (false, r)

/-! ### `keystone_mmap_resource_alloc` -/

/-- `KEYSTONE_MMAP_MIN_LENGTH`. -/
def minLength : ℕ := 0x1000

/-- `KEYSTONE_MMAP_LENGTH_THRESHOLD`. -/
def lengthThreshold : ℕ := 0x1000000

/-- The windows of a buffer: their physical address, the size of each and their number. -/
structure Windows where
  alignedPhy : ℕ
  alignedLen : ℕ
  numMappings : ℕ
  deriving DecidableEq

/-- The part of the loop body that enforces the alignment. -/
def alignBuf (phys len : ℕ) : Windows :=
  let last := wsub 64 (wadd 64 phys len) 1
  let alignedLen := max minLength (power2Ceil ((phys ^^^ last) % 2 ^ 32))
  let alignedPhy := phys &&& wnot 64 (alignedLen - 1)
  if lengthThreshold < alignedLen ∧ 1 < alignedLen / len then
    let alignedPhy := wadd 64 alignedPhy (alignedLen / 2)
    let alignedLen := wsub 64 alignedPhy phys % 2 ^ 32
    let alignedLen := max alignedLen (wsub 64 (wadd 64 phys len) alignedPhy) % 2 ^ 32
    let alignedLen := power2Ceil alignedLen
    let alignedLen := max minLength alignedLen
    ⟨wsub 64 alignedPhy alignedLen, alignedLen, 2⟩
  else ⟨alignedPhy, alignedLen, 1⟩

/-- The loop that allocates address space in the first heap from index `i` on that has it: the
address and the heap. -/
def allocInHeaps (size prot : ℕ) : ℕ → ℕ → Bank → Except HeapError (Option (ℕ × ℕ) × Bank)
  | 0, _, bank => .ok (none, bank)
  | n + 1, i, bank => do
    let (addr, bank) ← heapAlloc c size prot (heapFuel c) bank i
    if addr ≠ 0 then .ok (some (addr, i), bank) else allocInHeaps size prot n (i + 1) bank

/-- The loop that takes the logarithm of the size of a window. -/
def log2Loop : ℕ → ℕ → ℕ → ℕ
  | 0, _, seg => seg
  | n + 1, tmp, seg => if tmp = 0 then seg else log2Loop n (tmp / 2) (seg + 1)

/-- An entry of the mapping table that can be filled. -/
def Mapping.Available (m : Mapping) : Prop := 0 ≤ m.xmcIdx ∧ m.segsizePower2 = 0

instance (m : Mapping) : Decidable (Mapping.Available m) := inferInstanceAs (Decidable (_ ∧ _))

/-- Fill the first entry that is available, or `none`. -/
def fillEntry (fill : Mapping → Mapping) : List Mapping → Option (List Mapping)
  | [] => none
  | m :: ms =>
    if Mapping.Available m then some (fill m :: ms) else (fillEntry fill ms).map (m :: ·)

/-- The loop that fills the entries of the windows from index `i` on; the flag is set if there was
one for each. -/
def fillEntries (w : Windows) (virt seg prot : ℕ) : ℕ → ℕ → List Mapping → Bool × List Mapping
  | 0, _, ms => (true, ms)
  | n + 1, i, ms =>
    match fillEntry (fun m =>
        { m with
          raddr := wadd 64 w.alignedPhy (wmul 32 i w.alignedLen)
          baddr := wadd 32 virt (wmul 32 i w.alignedLen)
          segsizePower2 := seg
          prot := prot }) ms with
    | some ms => fillEntries w virt seg prot n (i + 1) ms
    | none => (false, ms)

/-- The rest of the loop body, for windows of `2 ^ seg` bytes each. -/
def allocWindows (w : Windows) (seg : ℕ) (b : PhysBuf) (r : Resources) :
    Except HeapError (Option ℕ × Resources) := do
  let (res, bank) ← allocInHeaps c (wmul 32 w.numMappings w.alignedLen) b.prot r.numHeaps 0 r.heap
  match res with
  | none => .ok (none, { r with heap := bank })
  | some (virt, heapIdx) =>
    let (filled, mapping) := fillEntries w virt seg b.prot w.numMappings 0 r.mapping
    if filled then
      .ok (some (wadd 32 virt (wsub 64 b.physAddr w.alignedPhy % 2 ^ 32)), ⟨mapping, bank, r.numHeaps⟩)
    else do
      let (_, bank) ← heapFree c (heapFuel c) bank heapIdx virt
      .ok (none, ⟨mapping, bank, r.numHeaps⟩)

/-- One buffer: its virtual address, or `none` if a resource is missing. -/
def allocBuf (b : PhysBuf) (r : Resources) : Except HeapError (Option ℕ × Resources) :=
  let w := alignBuf b.physAddr b.length
  allocWindows c w (log2Loop 32 (w.alignedLen - 1) 0) b r

/-- The loop over the buffers: the virtual addresses so far, and whether all were mapped. -/
def allocBufs : List PhysBuf → Resources → Except HeapError (Bool × List ℕ × Resources)
  | [], r => .ok (true, [], r)
  | b :: bs, r => do
    let (virt, r) ← allocBuf c b r
    match virt with
    | none => .ok (false, [], r)
    | some virt => do
      let (ok, virts, r) ← allocBufs bs r
      .ok (ok, virt :: virts, r)

/-- `keystone_mmap_resource_alloc`: the virtual addresses of the buffers, or `none` for
`KEYSTONE_MMAP_RESOURCE_ALLOC_ERROR`. -/
def resourceAlloc (bufs : List PhysBuf) (r : Resources) :
    Except HeapError (Option (List ℕ) × Resources) := do
  let (ok, virts, r) ← allocBufs c bufs r
  if ok then .ok (some virts, r)
  else do
    let (_, r) ← resourceFree c (virts.zip (bufs.map PhysBuf.length)) r
    .ok (none, r)

end Heap

end TiOpenCL
