import TiOpenCL.Library.OrderedMap
import TiOpenCL.Library.Tiling
import TiOpenCL.Library.Words

/-!
# The out-of-line heap manager

`HeapManager<Address, Length, Scope>` of `heap_manager.h`, for an `Address` and a `Length` of `w`
bits (the runtime instantiates it at 32 and at 64 bits).  The control structures are two ordered
maps, the free blocks and the allocated blocks by address, and a running total of free bytes.

`free` reads the entries next to the freed block through the iterators `after_block` and
`prior_block` without asking whether they are past the end.  What such a read returns is not
determined by the map, so it is an argument of the model (`PastEnd`).
-/

namespace TiOpenCL

/-- The value of an allocated block: its length and the process that allocated it
(`Scope::alloc_entry`; the single-process scope stores no pid and reads it as zero). -/
structure AllocEntry where
  /-- `Scope::length` -/
  length : ℕ
  /-- `Scope::pid` -/
  pid : ℕ
  deriving DecidableEq

/-- The key and the size that a read through the past-the-end iterator of the free list returns. -/
structure PastEnd where
  /-- The word read as the address of the block. -/
  key : ℕ
  /-- The word read as the size of the block. -/
  size : ℕ
  deriving DecidableEq

/-- The members of `HeapManager`. -/
structure HeapManager (w : ℕ) where
  /-- `free_list_` -/
  freeList : OrderedMap ℕ ℕ
  /-- `alloc_list_` -/
  allocList : OrderedMap ℕ AllocEntry
  /-- `start_addr_` -/
  startAddr : ℕ
  /-- `length_` -/
  length : ℕ
  /-- `min_block_size_` -/
  minBlockSize : ℕ
  /-- `available_` -/
  available : ℕ
  /-- `addrs_need_pow2_size_alignment_` -/
  addrsNeedPow2SizeAlignment : Bool
  /-- `max_pow2_size_alignment_` -/
  maxPow2SizeAlignment : ℕ

namespace HeapManager

/-! ### Rounding -/

/-- `roundup`: round a word up to a multiple of a power of two. -/
def roundup (w val pow2 : ℕ) : ℕ := wsub w (wadd w val pow2) 1 &&& wnot w (wsub w pow2 1)

/-- The loop of `next_power_of_two`: `for (i = 1; i < bits_in_T; i <<= 1) k = k | k >> i`.  The
shift doubles from one, so `w` rounds are more than the loop makes. -/
def smearBits (w : ℕ) : ℕ → ℕ → ℕ → ℕ
  | 0, _, k => k
  | rounds + 1, i, k => if i < w then smearBits w rounds (2 * i) (k ||| k >>> i) else k

/-- `next_power_of_two`: round a word up to the next power of two. -/
def nextPowerOfTwo (w k : ℕ) : ℕ :=
  if k = 0 then 1 else wadd w (smearBits w w 1 (wsub w k 1)) 1

variable {w : ℕ}

/-- `min_block_size`: the size of a request rounded to the block size. -/
def roundSize (h : HeapManager w) (size : ℕ) : ℕ := roundup w size h.minBlockSize

/-! ### Construction -/

/-- A heap manager as the constructors leave it. -/
def constructed : HeapManager w where
  freeList := .empty
  allocList := .empty
  startAddr := 0
  length := 0
  minBlockSize := 0
  available := 0
  addrsNeedPow2SizeAlignment := false
  maxPow2SizeAlignment := 0

/-- `configure`: set the range and the block size of a heap that has none yet. -/
def configure (h : HeapManager w) (startAddr length minBlockSize : ℕ) : HeapManager w :=
  if h.length = 0 ∧ 0 < length then
    { h with
      length := length
      available := length
      startAddr := startAddr
      minBlockSize := minBlockSize
      freeList := h.freeList.insert startAddr length }
  else h

/-- `set_additional_alignment_requirements`: ask for addresses aligned to the power of two of the
block size, up to a maximum alignment. -/
def setAdditionalAlignmentRequirements (h : HeapManager w) (maxPow2SizeAlignment : ℕ) :
    HeapManager w :=
  if h.addrsNeedPow2SizeAlignment = false ∧ h.allocList.entries = [] then
    { h with
      addrsNeedPow2SizeAlignment := true
      maxPow2SizeAlignment := maxPow2SizeAlignment }
  else h

/-! ### Allocation -/

/-- The alignment `malloc` uses for a request of the given rounded size. -/
def alignment (h : HeapManager w) (size : ℕ) : ℕ :=
  if h.addrsNeedPow2SizeAlignment then
    if h.maxPow2SizeAlignment ≤ size then h.maxPow2SizeAlignment else nextPowerOfTwo w size
  else h.minBlockSize

/-- Where `malloc` places a request inside a free block. -/
structure Placement where
  /-- The free block. -/
  block : ℕ
  /-- `align_gap`, the bytes of the block in front of the aligned address. -/
  alignGap : ℕ
  /-- `avail_addr`, the aligned address. -/
  availAddr : ℕ
  /-- `avail_size`, the bytes of the block from the aligned address on. -/
  availSize : ℕ

/-- The body of the search loop of `malloc` up to its `continue`. -/
def place (w align size : ℕ) (kv : ℕ × ℕ) : Option Placement :=
  let alignAddr := roundup w kv.1 align
  let alignGap := wsub w alignAddr kv.1
  let availSize := if alignGap < kv.2 then kv.2 - alignGap else 0
  if availSize < size then none else some ⟨kv.1, alignGap, alignAddr, availSize⟩

/-- The free list after a placement has been taken out of its block. -/
def carve (free : OrderedMap ℕ ℕ) (w : ℕ) (p : Placement) (size : ℕ) : OrderedMap ℕ ℕ :=
  let front := if p.alignGap ≠ 0 then free.insert p.block p.alignGap else free.erase p.block
  if size < p.availSize then front.insert (wadd w p.availAddr size) (p.availSize - size) else front

/-- The heap after a placement has been taken for a request of the given rounded size. -/
def occupy (h : HeapManager w) (p : Placement) (size pid : ℕ) : HeapManager w :=
  { h with
    freeList := carve h.freeList w p size
    allocList := h.allocList.insert p.availAddr ⟨size, pid⟩
    available := wsub w h.available size }

/-- `malloc`: the address, or zero when no free block is large enough and the caller allows
failure; `none` is the `exit(EXIT_FAILURE)` of a caller that does not. -/
def malloc (h : HeapManager w) (size pid : ℕ) (allowFail : Bool) : Option (ℕ × HeapManager w) :=
  let size := h.roundSize size
  match h.freeList.entries.findSome? (place w (h.alignment size) size) with
  | some p => some (p.availAddr, h.occupy p size pid)
  | none => if allowFail then some (0, h) else none

/-! ### Release -/

/-- `after_block`: the first free block that does not start below the address, if there is one. -/
def afterBlock (free : OrderedMap ℕ ℕ) (addr : ℕ) : Option (ℕ × ℕ) := (free.lowerBound addr).head?

/-- `prior_block`: the last free block that starts below the address; where there is none the
iterator stays on `after_block`. -/
def priorBlock (free : OrderedMap ℕ ℕ) (addr : ℕ) : Option (ℕ × ℕ) :=
  if free.before addr = [] then afterBlock free addr else (free.before addr).getLast?

/-- The key and the size read through an iterator of the free list. -/
def readBlock (pastEnd : PastEnd) (it : Option (ℕ × ℕ)) : ℕ × ℕ :=
  it.getD (pastEnd.key, pastEnd.size)

/-- The free list after a block has been returned to it.  A merge through the past-the-end
iterator writes to memory that is not an entry of the map: the entries stay as they are. -/
def mergeBlock (w : ℕ) (free : OrderedMap ℕ ℕ) (pastEnd : PastEnd) (addr size : ℕ) :
    OrderedMap ℕ ℕ :=
  let after := afterBlock free addr
  let prior := priorBlock free addr
  let p := readBlock pastEnd prior
  let a := readBlock pastEnd after
  let canMergePrior := wadd w p.1 p.2 = addr
  let canMergeAfter := wadd w addr size = a.1
  let size := if canMergeAfter then wadd w size a.2 else size
  let free :=
    if canMergePrior then
      match prior with
      | some q => free.insert q.1 (wadd w q.2 size)
      | none => free
    else free.insert addr size
  if canMergeAfter then
    match after with
    | some q => free.erase q.1
    | none => free
  else free

/-- `free`: return an allocated block to the free list; `-1` when the address is not allocated. -/
def free (h : HeapManager w) (pastEnd : PastEnd) (addr : ℕ) : ℤ × HeapManager w :=
  match h.allocList.find? addr with
  | none => (-1, h)
  | some e =>
    (0, { h with
      allocList := h.allocList.erase addr
      available := wadd w h.available e.length
      freeList := mergeBlock w h.freeList pastEnd addr e.length })

/-- The addresses `free_all_pid` collects: those of the blocks allocated by the process. -/
def needFree (h : HeapManager w) (pid : ℕ) : List ℕ :=
  (h.allocList.entries.filter fun e => decide (e.2.pid = pid)).map Prod.fst

/-- The calls of `free` that `free_all_pid` makes after its scan. -/
def freeEach (h : HeapManager w) (frees : List (ℕ × PastEnd)) : HeapManager w :=
  frees.foldl (fun h f => (h.free f.2 f.1).2) h

/-! ### Operations -/

/-- A call of the heap manager.  `free_all_pid` walks an unordered set, so the order in which it
frees the addresses it has collected is part of the call. -/
inductive Op where
  | malloc (size pid : ℕ) (allowFail : Bool)
  | free (addr : ℕ) (pastEnd : PastEnd)
  | freeAllPid (pid : ℕ) (frees : List (ℕ × PastEnd))

/-- The heap after a call, if the call returns. -/
def step (h : HeapManager w) : Op → Option (HeapManager w)
  | .malloc size pid allowFail => (h.malloc size pid allowFail).map Prod.snd
  | .free addr pastEnd => some (h.free pastEnd addr).2
  | .freeAllPid pid frees =>
    if (frees.map Prod.fst).Perm (h.needFree pid) then some (h.freeEach frees) else none

/-- The heap after a sequence of calls, if they all return. -/
def run (h : HeapManager w) (ops : List Op) : Option (HeapManager w) := ops.foldlM step h

/-- The parameters of a heap: its range, a block size that is a power of two and, if the heap has
additional alignment requirements, a maximum alignment that is one too. -/
structure Config (w : ℕ) where
  /-- First address of the range. -/
  startAddr : ℕ
  /-- Number of bytes of the range. -/
  length : ℕ
  /-- Logarithm of the block size. -/
  blockLog : ℕ
  /-- Logarithm of the maximum alignment of a heap with additional alignment requirements. -/
  maxAlignLog : Option ℕ
  startAddr_lt : startAddr < 2 ^ w
  length_lt : length < 2 ^ w
  blockLog_lt : blockLog < w
  maxAlignLog_lt : ∀ k ∈ maxAlignLog, k < w

/-- The heap after `configure` and, where asked for, the additional alignment requirements. -/
def Config.heap (cfg : Config w) : HeapManager w :=
  let h := (constructed : HeapManager w).configure cfg.startAddr cfg.length (2 ^ cfg.blockLog)
  match cfg.maxAlignLog with
  | none => h
  | some k => h.setAdditionalAlignmentRequirements (2 ^ k)

/-- All blocks of the heap, free and allocated. -/
def blocks (h : HeapManager w) : List Block :=
  h.freeList.entries ++ h.allocList.entries.map fun e => (e.1, e.2.length)

end HeapManager

end TiOpenCL
