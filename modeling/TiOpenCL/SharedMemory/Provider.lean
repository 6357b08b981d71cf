import TiOpenCL.HeapManager.Fits
import TiOpenCL.Library.Machine

/-!
# The shared memory provider

`SharedMemoryProvider` of `shared_memory_provider.cpp` hands out blocks of three heaps, one on chip
and two in DDR, and does not record which heap an address came from: the functions that free it look
for the heap whose range contains the address.

A grant is an address together with the heap that `malloc` was called on.  The heap is not known to
the code; it is what the theorems compare the choice of the free functions with.
-/

namespace TiOpenCL

namespace HeapManager

variable {w : ℕ}

/-- `contains`: the address lies in the range of the heap. -/
def contains (h : HeapManager w) (addr : ℕ) : Bool :=
  decide (h.startAddr ≤ addr) && decide (addr < wadd w h.startAddr h.length)

/-- The size that `max_block_size` returns: that of the largest free block. -/
def maxBlockSize (h : HeapManager w) : ℕ :=
  if h.length < h.minBlockSize then 0
  else h.freeList.entries.foldl (fun size kv => if size ≤ kv.2 then kv.2 else size) 0

end HeapManager

namespace SharedMemory

open HeapManager

/-- The heaps of the heap policy. -/
inductive HeapId where
  | msmcHeap
  | ddrHeap1
  | ddrHeap2
  deriving DecidableEq

/-- The heap managers of the heap policy: both policies have 64-bit heaps. -/
abbrev Heaps := HeapId → HeapManager 64

/-- An address and the heap whose `malloc` returned it. -/
structure Grant where
  /-- The address; zero if there was no block. -/
  addr : ℕ
  /-- The heap. -/
  heap : HeapId
  deriving DecidableEq

/-- What a function that frees an address does. -/
inductive Freed where
  /-- It calls `free` of a heap, which returns the status. -/
  | released (heap : HeapId) (status : ℤ)
  /-- It reports the fatal error `InvalidPointerToFree` under its name. -/
  | invalidPointerToFree (addr : ℕ) (function : String)
  /-- It reports the warning `InvalidPointerToClFree`. -/
  | invalidPointerToClFree (ptr : ℕ)
  deriving DecidableEq

/-! ### Allocation -/

/-- `malloc(size, true)` of one of the heaps. -/
def mallocIn (hs : Heaps) (pid : ℕ) (id : HeapId) (size : ℕ) : Grant × Heaps :=
  match (hs id).malloc size pid true with
  | some (addr, h) => (⟨addr, id⟩, Function.update hs id h)
  | none => (⟨0, id⟩, hs)

/-- `AllocateMSMC` -/
def allocateMSMC (hs : Heaps) (pid size : ℕ) : Grant × Heaps := mallocIn hs pid .msmcHeap size

/-- `FRACTION_PERSISTENT_FOR_BUFFER` -/
def fractionPersistentForBuffer : ℕ := 8

/-- `AllocateGlobal`; `none` is the division of the largest free block size by a size of zero. -/
def allocateGlobal (hs : Heaps) (pid size : ℕ) (prefer32bit : Bool) : Option (Grant × Heaps) :=
  if prefer32bit then some (mallocIn hs pid .ddrHeap1 size)
  else if size = 0 then none
  else
    let size64 := (hs .ddrHeap1).maxBlockSize
    let r := if fractionPersistentForBuffer < size64 / size then mallocIn hs pid .ddrHeap1 size
      else (⟨0, .ddrHeap1⟩, hs)
    let r := if r.1.addr = 0 then mallocIn r.2 pid .ddrHeap2 size else r
    let r := if r.1.addr = 0 then mallocIn r.2 pid .ddrHeap1 size else r
    some r

/-! ### Release -/

/-- `free` of one of the heaps. -/
def freeIn (hs : Heaps) (pastEnd : PastEnd) (id : HeapId) (addr : ℕ) : Freed × Heaps :=
  (.released id ((hs id).free pastEnd addr).1, Function.update hs id ((hs id).free pastEnd addr).2)

/-- `FreeMSMC` -/
def freeMSMC (hs : Heaps) (pastEnd : PastEnd) (addr : ℕ) : Freed × Heaps :=
  freeIn hs pastEnd .msmcHeap addr

/-- `FreeGlobal` -/
def freeGlobal (hs : Heaps) (pastEnd : PastEnd) (addr : ℕ) : Freed × Heaps :=
  if (hs .ddrHeap1).contains addr then freeIn hs pastEnd .ddrHeap1 addr
  else if (hs .ddrHeap2).contains addr then freeIn hs pastEnd .ddrHeap2 addr
  else (.invalidPointerToFree addr "FreeGlobal", hs)

/-- `FreeMSMCorGlobal` -/
def freeMSMCorGlobal (hs : Heaps) (pastEnd : PastEnd) (addr : ℕ) : Freed × Heaps :=
  if (hs .msmcHeap).contains addr then freeMSMC hs pastEnd addr
  else if (hs .ddrHeap1).contains addr || (hs .ddrHeap2).contains addr then
    freeGlobal hs pastEnd addr
  else (.invalidPointerToFree addr "FreeMSMCorGlobal", hs)

/-- The functions that free an address. -/
inductive FreeCall where
  | freeMSMC
  | freeGlobal
  | freeMSMCorGlobal
  deriving DecidableEq

/-- A call of one of the functions that free an address. -/
def FreeCall.call : FreeCall → Heaps → PastEnd → ℕ → Freed × Heaps
  | .freeMSMC => SharedMemory.freeMSMC
  | .freeGlobal => SharedMemory.freeGlobal
  | .freeMSMCorGlobal => SharedMemory.freeMSMCorGlobal

/-- The function that frees an address matches the one that returned it. -/
def FreeCall.Matches : FreeCall → HeapId → Prop
  | .freeMSMC, id => id = .msmcHeap
  | .freeGlobal, id => id ≠ .msmcHeap
  | .freeMSMCorGlobal, _ => True

instance (f : FreeCall) (id : HeapId) : Decidable (f.Matches id) := by
  cases f <;> unfold FreeCall.Matches <;> infer_instance

/-! ### Memory mapped to the host -/

/-- An entry of `clMalloc_mapping_`. -/
structure ClMapping where
  /-- The physical address, with the heap it came from. -/
  grant : Grant
  /-- The size of the request. -/
  size : ℕ
  /-- Whether the location is `ONCHIP`. -/
  onChip : Bool
  deriving DecidableEq

/-- The provider: its heaps, the mapping of `clMalloc`, and the grants that its callers have not
freed yet. -/
structure Provider where
  /-- The heaps. -/
  heaps : Heaps
  /-- `clMalloc_mapping_` -/
  mapping : OrderedMap ℕ ClMapping
  /-- What `AllocateMSMC` and `AllocateGlobal` have returned to callers. -/
  live : List Grant

/-- The allocation of `clMalloc`. -/
def clAllocate (hs : Heaps) (pid size : ℕ) (onChip : Bool) : Option (Grant × Heaps) :=
  if onChip then some (allocateMSMC hs pid size) else allocateGlobal hs pid size false

/-- The release of `clMalloc` and of `clFree`. -/
def clRelease (hs : Heaps) (pastEnd : PastEnd) (onChip : Bool) (addr : ℕ) : Freed × Heaps :=
  if onChip then freeMSMC hs pastEnd addr else freeGlobal hs pastEnd addr

namespace Provider

/-- `clMalloc`: the host address, or zero; `none` is the division of `AllocateGlobal`.  Whether the
memory can be mapped, and where, is decided by the operating system. -/
def clMalloc (s : Provider) (pid size : ℕ) (onChip : Bool) (mapped : Option ℕ) (pastEnd : PastEnd) :
    Option (ℕ × Provider) :=
  (clAllocate s.heaps pid size onChip).map fun r =>
    if r.1.addr = 0 then (0, { s with heaps := r.2 })
    else
      match mapped with
      | some host =>
        (host, { s with heaps := r.2, mapping := s.mapping.insert host ⟨r.1, size, onChip⟩ })
      | none => (0, { s with heaps := (clRelease r.2 pastEnd onChip r.1.addr).2 })

/-- `clFree` -/
def clFree (s : Provider) (pastEnd : PastEnd) (ptr : ℕ) : Freed × Provider :=
  match s.mapping.find? ptr with
  | some m =>
    let r := clRelease s.heaps pastEnd m.onChip m.grant.addr
    (r.1, { s with heaps := r.2, mapping := s.mapping.erase ptr })
  | none => (.invalidPointerToClFree ptr, s)

/-! ### Runs -/

/-- The calls of the clients of the provider. -/
inductive Action where
  | allocateMSMC (size : ℕ)
  | allocateGlobal (size : ℕ) (prefer32bit : Bool)
  | free (f : FreeCall) (g : Grant) (pastEnd : PastEnd)
  | clMalloc (size : ℕ) (onChip : Bool) (mapped : Option ℕ) (pastEnd : PastEnd)
  | clFree (ptr : ℕ) (pastEnd : PastEnd)

/-- The provider after a grant has been returned to a caller. -/
def keep (s : Provider) (r : Grant × Heaps) : Provider :=
  { s with heaps := r.2, live := if r.1.addr = 0 then s.live else r.1 :: s.live }

/-- One call.  Callers free what they were given and have not freed yet, with a matching
function. -/
def step (pid : ℕ) (s : Provider) : Action → Option Provider
  | .allocateMSMC size => some (s.keep (SharedMemory.allocateMSMC s.heaps pid size))
  | .allocateGlobal size prefer32bit =>
    (SharedMemory.allocateGlobal s.heaps pid size prefer32bit).map s.keep
  | .free f g pastEnd =>
    if g ∈ s.live ∧ f.Matches g.heap then
      some { s with heaps := (f.call s.heaps pastEnd g.addr).2, live := s.live.erase g }
    else none
  | .clMalloc size onChip mapped pastEnd => (s.clMalloc pid size onChip mapped pastEnd).map Prod.snd
  | .clFree ptr pastEnd => some (s.clFree pastEnd ptr).2

/-- The provider after its constructor has configured the heaps. -/
def init (cfg : HeapId → Config 64) : Provider := ⟨fun id => (cfg id).heap, .empty, []⟩

end Provider

end SharedMemory

end TiOpenCL
