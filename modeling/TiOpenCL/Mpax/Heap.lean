import Mathlib.Data.Nat.Bitwise
import Mathlib.Logic.Function.Basic
import TiOpenCL.Library.Words

/-!
# The address space heaps of the MPAX resource manager

`heap_alloc`, `heap_free`, `heap_reserve` and `heap_init`: every heap is a binary tree of power of two
blocks, kept in a bank of elements that refer to each other by index, with index zero for no child.
The recursion takes fuel; running out of it is told apart from running out of elements.
-/

namespace TiOpenCL

/-- The constants of the mapping library that the heaps use. -/
structure MmapConstants where
  /-- `KEYSTONE_MMAP_MAX_NUM_HEAP_ELEMS`. -/
  maxNumHeapElems : ℕ
  /-- `KEYSTONE_MMAP_MAX_NUM_MAPS`. -/
  maxNumMaps : ℕ
  /-- `KEYSTONE_MMAP_HEAP_ALIGN` is two to this power. -/
  heapAlignLog : ℕ
  /-- `KEYSTONE_MMAP_PROT_NOCACHE`. -/
  protNoCache : ℕ
  /-- `KEYSTONE_MMAP_PROT_NONE`. -/
  protNone : ℕ
  /-- Heaps are aligned to more than two bytes. -/
  heapAlignLog_ge : 2 ≤ heapAlignLog
  heapAlignLog_lt : heapAlignLog < 32

/-- `keystone_mmap_heap_element_t`. -/
structure HeapElement where
  /-- Start of the block. -/
  baseAddr : ℕ
  /-- Size of the block. -/
  length : ℕ
  /-- Number of allocations in the block. -/
  allocated : ℤ
  /-- Protection of the allocations. -/
  prot : ℕ
  /-- Whether the element is taken from the bank. -/
  inUse : Bool
  /-- Index of the lower half, or zero. -/
  subElem0 : ℕ
  /-- Index of the upper half, or zero. -/
  subElem1 : ℕ
  deriving DecidableEq

/-- The element after `memset` with zero. -/
def HeapElement.zero : HeapElement := ⟨0, 0, 0, 0, false, 0, 0⟩

/-- The element bank. -/
abbrev Bank := ℕ → HeapElement

/-- Why a heap operation has no result. -/
inductive HeapError
  /-- An element was asked for and the bank has none left. -/
  | noElement
  /-- The fuel of the recursion ran out. -/
  | outOfFuel
  deriving DecidableEq

namespace Heap

variable (c : MmapConstants)

/-- The loop of `power2_ceil` on the decremented argument. -/
def power2CeilLoop : ℕ → ℕ → ℕ → ℕ
  | 0, _, out => out
  | n + 1, inp, out => if inp = 0 then out else power2CeilLoop n (inp / 2) (wmul 32 out 2)

/-- `power2_ceil` on 32-bit words. -/
def power2Ceil (inp : ℕ) : ℕ := power2CeilLoop 32 (wsub 32 inp 1) 1

/-- `get_heap_element`: the first element that is not in use. -/
def getHeapElement (bank : Bank) : Except HeapError (ℕ × Bank) :=
  match (List.range c.maxNumHeapElems).find? fun i => !(bank i).inUse with
  | some i => .ok (i, Function.update bank i { bank i with inUse := true })
  | none => .error .noElement

/-- `free_heap_element`. -/
def freeHeapElement (bank : Bank) (i : ℕ) : Bank := Function.update bank i .zero

/-- `heap_split_elem`. -/
def heapSplitElem (bank : Bank) (idx : ℕ) : Except HeapError Bank :=
  if (bank idx).subElem0 = 0 then do
    let subSize := (bank idx).length / 2
    let (i, bank) ← getHeapElement c bank
    let bank := Function.update bank idx { bank idx with subElem0 := i }
    let bank := Function.update bank i
      { bank i with baseAddr := (bank idx).baseAddr, length := subSize }
    let (j, bank) ← getHeapElement c bank
    let bank := Function.update bank idx { bank idx with subElem1 := j }
    let bank := Function.update bank j
      { bank j with baseAddr := wadd 32 (bank idx).baseAddr subSize, length := subSize }
    .ok bank
  else .ok bank

/-- The last address of an element, in 32-bit arithmetic. -/
def lastAddr (e : HeapElement) : ℕ := wsub 32 (wadd 32 e.baseAddr e.length) 1

/-- The element contains an address. -/
def Contains (e : HeapElement) (addr : ℕ) : Prop := e.baseAddr ≤ addr ∧ addr ≤ lastAddr e

instance (e : HeapElement) (addr : ℕ) : Decidable (Contains e addr) :=
  inferInstanceAs (Decidable (e.baseAddr ≤ addr ∧ addr ≤ lastAddr e))

/-- An element takes over the count of one of its halves. -/
def addCount (bank : Bank) (idx sub : ℕ) : Bank :=
  Function.update bank idx
    { bank idx with allocated := (bank idx).allocated + (bank sub).allocated }

/-- The calls of `heap_reserve` on the halves of an element. -/
def reserveHalves (reserve : Bank → ℕ → ℕ → ℕ → Except HeapError (ℕ × Bank)) (bank : Bank)
    (idx addr size : ℕ) : Except HeapError (ℕ × Bank) := do
  let (r0, bank) ← reserve bank (bank idx).subElem0 addr size
  let (addr, size, bank) := if 0 < r0 then
      (wadd 32 addr r0, wsub 32 size r0, addCount bank idx (bank idx).subElem0)
    else (addr, size, bank)
  let (r1, bank) ← reserve bank (bank idx).subElem1 addr size
  let bank := if 0 < r1 then addCount bank idx (bank idx).subElem1 else bank
  .ok (wadd 32 r0 r1, bank)

/-- `heap_reserve`: the size that was reserved. -/
def heapReserve : ℕ → Bank → ℕ → ℕ → ℕ → Except HeapError (ℕ × Bank)
  | 0, _, _, _, _ => .error .outOfFuel
  | fuel + 1, bank, idx, addr, size =>
    if size = 0 then .ok (0, bank)
    else if (bank idx).baseAddr = addr ∧ (bank idx).length ≤ size then
      .ok ((bank idx).length, Function.update bank idx { bank idx with allocated := 1 })
    else if Contains (bank idx) addr then do
      let bank ← heapSplitElem c bank idx
      reserveHalves (heapReserve fuel) bank idx addr size
    else .ok (0, bank)

/-- The count and the protection of an element after an allocation below it. -/
def bump (e : HeapElement) (prot : ℕ) : HeapElement :=
  { e with
    allocated := e.allocated + 1
    prot := if e.length ≤ 0x1000000 then prot &&& c.protNoCache else e.prot }

/-- The calls of `heap_alloc` on the halves of an element, the upper one only if the lower one
gives zero. -/
def allocHalves (alloc : Bank → ℕ → Except HeapError (ℕ × Bank)) (prot : ℕ) (bank : Bank) (idx : ℕ) :
    Except HeapError (ℕ × Bank) := do
  let (a0, bank) ← alloc bank (bank idx).subElem0
  if a0 ≠ 0 then .ok (a0, Function.update bank idx (bump c (bank idx) prot))
  else do
    let (a1, bank) ← alloc bank (bank idx).subElem1
    if a1 ≠ 0 then .ok (a1, Function.update bank idx (bump c (bank idx) prot))
    else .ok (0, bank)

/-- `heap_alloc`: the address of the block, or zero. -/
@[simp] def heapAlloc (size prot : ℕ) : ℕ → Bank → ℕ → Except HeapError (ℕ × Bank)
  | 0, _, _ => .error .outOfFuel
  | fuel + 1, bank, idx =>
    if (bank idx).length ≤ 0x1000000 ∧ 0 < (bank idx).allocated ∧
        prot &&& c.protNoCache ≠ (bank idx).prot &&& c.protNoCache then .ok (0, bank)
    else if size = (bank idx).length then
      if (bank idx).allocated = 0 then
        .ok ((bank idx).baseAddr, Function.update bank idx
          { bank idx with
            allocated := (bank idx).allocated + 1
            prot := prot })
      else .ok (0, bank)
    else if size < (bank idx).length ∧ ((bank idx).subElem0 ≠ 0 ∨ (bank idx).allocated = 0) then do
      let bank ← heapSplitElem c bank idx
      allocHalves c (heapAlloc size prot fuel) prot bank idx
    else .ok (0, bank)

/-- What `heap_free` does to an element after a call on one of its halves. -/
def settle (bank : Bank) (idx ret : ℕ) : Bank :=
  if (bank idx).allocated - ret = 0 then
    Function.update
      (freeHeapElement (freeHeapElement bank (bank idx).subElem0) (bank idx).subElem1) idx
      { bank idx with
        allocated := 0
        subElem0 := 0
        subElem1 := 0
        prot := c.protNone }
  else Function.update bank idx { bank idx with allocated := (bank idx).allocated - ret }

/-- `heap_free`: one if a leaf contains the address, else zero. -/
@[simp] def heapFree : ℕ → Bank → ℕ → ℕ → Except HeapError (ℕ × Bank)
  | 0, _, _, _ => .error .outOfFuel
  | fuel + 1, bank, idx, addr =>
    if (bank idx).subElem0 = 0 then
      if Contains (bank idx) addr then
        .ok (1, Function.update bank idx
          { bank idx with
            allocated := (bank idx).allocated - 1
            prot := c.protNone })
      else .ok (0, bank)
    else do
      let sub := bank (bank idx).subElem1
      let (ret, bank) ← heapFree fuel bank
        (if sub.baseAddr &&& addr = sub.baseAddr then (bank idx).subElem1
          else (bank idx).subElem0) addr
      .ok (ret, settle c bank idx ret)

/-- Enough fuel for the depth of a heap and for the size of the bank. -/
def heapFuel : ℕ := c.maxNumHeapElems + 34

/-- `heap_init`. -/
def heapInit (bank : Bank) (idx addr size : ℕ) : Except HeapError Bank := do
  let normSize := power2Ceil (addr ^^^ wsub 32 (wadd 32 addr size) 1)
  let baseAddr := addr &&& wnot 32 (wsub 32 normSize 1)
  let bank := Function.update bank idx
    { bank idx with baseAddr := baseAddr, length := normSize }
  let (_, bank) ← heapReserve c (heapFuel c) bank idx baseAddr (wsub 32 addr baseAddr)
  let (_, bank) ← heapReserve c (heapFuel c) bank idx (wadd 32 addr size)
    (wsub 32 (wadd 32 baseAddr normSize) (wadd 32 addr size))
  .ok bank

end Heap

end TiOpenCL
