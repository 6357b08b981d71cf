import Mathlib.Data.Set.Lattice
import Mathlib.Order.CompletePartialOrder
import TiOpenCL.Library.ByteMoves
import TiOpenCL.Transfers.BufferRect

/-!
# Transfers and the memory behind the buffers

The bytes of a buffer are in host memory (`CL_MEM_USE_HOST_PTR`) or on the device, and
`HandleEventDispatch` has a branch for either, with its own arithmetic of addresses.  A transfer is
compared with the bytes that it selects: those of the buffers by their number, and those of the host
by their address.  On both paths every sequence of transfers does the selected moves and no others,
except that a read or a write of a buffer in host memory leaves out its offset.
-/

namespace TiOpenCL

namespace Storage

open ByteMoves BufferRect

variable {w : ℕ}

/-! ### Buffers and where they are -/

/-- A buffer or a sub-buffer. -/
structure Buffer (w : ℕ) extends MemObject w where
  /-- The buffer itself or, for a sub-buffer, its parent. -/
  root : ℕ
  /-- The offset of a sub-buffer in its parent; zero for a buffer. -/
  offset : BitVec w

/-- The two memories. -/
inductive Space
  | host
  | device
  deriving DecidableEq

/-- A pointer of the host, or an address of the device. -/
abbrev Address := Space × BitVec 64

/-- Where the buffers of given sizes are. -/
structure Layout (size : ℕ → BitVec w) where
  /-- `CL_MEM_USE_HOST_PTR`. -/
  useHostPtr : ℕ → Bool
  /-- The host pointer of the buffer, or its address on the device. -/
  base : ℕ → BitVec 64
  inside : ∀ b, (base b).toNat + (size b).toNat ≤ 2 ^ 64
  apart : ∀ b b', b ≠ b' → useHostPtr b = useHostPtr b' →
    (base b).toNat + (size b).toNat ≤ (base b').toNat ∨
      (base b').toNat + (size b').toNat ≤ (base b).toNat

/-- A pointer moved on. -/
def offsetBy (p : Address) (n : BitVec 64) : Address := (p.1, p.2 + n)

section Layout

variable {size : ℕ → BitVec w}

/-- `MemObject::host_ptr`. -/
def Layout.hostPtr (L : Layout size) (x : Buffer w) : Address :=
  (.host, L.base x.root + x.offset.setWidth 64)

/-- `DSPBuffer::data`. -/
def Layout.data (L : Layout size) (x : Buffer w) : Address :=
  (.device, L.base x.root + x.offset.setWidth 64)

end Layout

/-! ### The constructors -/

/-- What the constructors of all events read. -/
structure Enqueue where
  /-- The error of the constructor of `Event`, if it reports one. -/
  eventError : Option Error
  /-- The context of the command queue. -/
  context : ℕ

/-- `BufferEvent`. -/
def checkBuffer (q : Enqueue) (buffer : Option (MemObject w)) : Except Error (MemObject w) :=
  match q.eventError with
  | some error => .error error
  | none =>
    match buffer with
    | none => .error .invalidMemObject
    | some buffer =>
      if buffer.context ≠ q.context then .error .invalidContext
      else if !buffer.subBufferAligned then .error .misalignedSubBufferOffset
      else if !buffer.allocates then .error .memObjectAllocationFailure
      else .ok buffer

/-- The checks of the rectangular transfers are the same. -/
lemma bufferEvent_eq_checkBuffer (r : Request w) :
    bufferEvent r = checkBuffer ⟨r.eventError, r.context⟩ r.source := rfl

/-- `ReadWriteBufferEvent`. -/
def readWriteBufferEvent (q : Enqueue) (buffer : Option (MemObject w)) (offset cb : BitVec w)
    (ptr : BitVec 64) : Except Error (MemObject w) := do
  let buffer ← checkBuffer q buffer
  if ptr = 0 then .error .invalidValue
  else if buffer.size < offset + cb then .error .invalidValue
  else .ok buffer

/-- `ReadBufferEvent`. -/
def readBufferEvent (q : Enqueue) (buffer : Option (MemObject w)) (offset cb : BitVec w)
    (ptr : BitVec 64) : Except Error Unit := do
  let buffer ← readWriteBufferEvent q buffer offset cb ptr
  if buffer.hostWriteOnly || buffer.hostNoAccess then .error .invalidOperation else .ok ()

/-- `WriteBufferEvent`. -/
def writeBufferEvent (q : Enqueue) (buffer : Option (MemObject w)) (offset cb : BitVec w)
    (ptr : BitVec 64) : Except Error Unit := do
  let buffer ← readWriteBufferEvent q buffer offset cb ptr
  if buffer.hostReadOnly || buffer.hostNoAccess then .error .invalidOperation else .ok ()

/-- `FillBufferEvent`. -/
def fillBufferEvent (q : Enqueue) (buffer : Option (MemObject w)) (pattern : List (BitVec 8))
    (offset cb : BitVec w) : Except Error Unit := do
  let buffer ← checkBuffer q buffer
  if buffer.size < offset + cb then .error .invalidValue
  else if pattern.length ∉ [1, 2, 4, 8, 16, 32, 64, 128] then .error .invalidValue
  else if offset.toNat % pattern.length ≠ 0 ∨ cb.toNat % pattern.length ≠ 0 then .error .invalidValue
  else .ok ()

/-- `CopyBufferEvent`. -/
def copyBufferEvent (q : Enqueue) (source destination : Option (MemObject w))
    (srcOffset dstOffset cb : BitVec w) : Except Error Unit := do
  let source ← checkBuffer q source
  match destination with
  | none => .error .invalidMemObject
  | some destination =>
    if source.size < srcOffset + cb ∨ destination.size < dstOffset + cb then .error .invalidValue
    else if source.handle = destination.handle ∧
        (srcOffset < dstOffset ∧ dstOffset < srcOffset + cb ∨
          dstOffset < srcOffset ∧ srcOffset < dstOffset + cb) then .error .memCopyOverlap
    else if !destination.subBufferAligned then .error .misalignedSubBufferOffset
    else if !destination.allocates then .error .memObjectAllocationFailure
    else .ok ()

/-- The checks on the buffer return it. -/
lemma checkBuffer_ok {q : Enqueue} {x y : MemObject w} (h : checkBuffer q (some x) = .ok y) : x = y := by
  unfold checkBuffer at h
  grind

/-- What the constructor of a copy has checked. -/
lemma copyBufferEvent_ok {q : Enqueue} {x y : MemObject w} {srcOffset dstOffset cb : BitVec w}
    (h : copyBufferEvent q (some x) (some y) srcOffset dstOffset cb = .ok ()) :
    ¬x.size < srcOffset + cb ∧ ¬y.size < dstOffset + cb ∧
      (x.handle = y.handle → ¬(srcOffset < dstOffset ∧ dstOffset < srcOffset + cb) ∧
        ¬(dstOffset < srcOffset ∧ srcOffset < dstOffset + cb)) := by
  obtain ⟨source, hsource, h⟩ := bind_eq_ok h
  obtain rfl := checkBuffer_ok hsource
  simp only at h
  split_ifs at h with hbounds htest
  rw [not_or] at hbounds
  refine ⟨hbounds.1, hbounds.2, fun hsame => ?_⟩
  rw [← not_or]
  exact fun hover => htest ⟨hsame, hover⟩

/-- An event of a transfer. -/
inductive Event (w : ℕ)
  | readBuffer (buffer : Buffer w) (offset cb : BitVec w) (ptr : BitVec 64)
  | writeBuffer (buffer : Buffer w) (offset cb : BitVec w) (ptr : BitVec 64)
  | fillBuffer (buffer : Buffer w) (pattern : List (BitVec 8)) (offset cb : BitVec w)
  | copyBuffer (source destination : Buffer w) (srcOffset dstOffset cb : BitVec w)
  | readBufferRect (buffer : Buffer w) (ptr : BitVec 64) (rect : Rect w)
  | writeBufferRect (buffer : Buffer w) (ptr : BitVec 64) (rect : Rect w)
  | copyBufferRect (source destination : Buffer w) (rect : Rect w)

/-- An event that its constructor accepts. -/
def Event.Accepted : Event w → Prop
  | .readBuffer x offset cb ptr =>
    ∃ q, readBufferEvent q (some x.toMemObject) offset cb ptr = .ok ()
  | .writeBuffer x offset cb ptr =>
    ∃ q, writeBufferEvent q (some x.toMemObject) offset cb ptr = .ok ()
  | .fillBuffer x pattern offset cb =>
    ∃ q, fillBufferEvent q (some x.toMemObject) pattern offset cb = .ok ()
  | .copyBuffer x y srcOffset dstOffset cb =>
    ∃ q, copyBufferEvent q (some x.toMemObject) (some y.toMemObject) srcOffset dstOffset cb = .ok ()
  | .readBufferRect x _ e => ∃ r, r.source = some x.toMemObject ∧ construct .read r = .ok e
  | .writeBufferRect x _ e => ∃ r, r.source = some x.toMemObject ∧ construct .write r = .ok e
  | .copyBufferRect x y e =>
    ∃ r, r.source = some x.toMemObject ∧ r.destination = some y.toMemObject ∧
      construct .copy r = .ok e

/-! ### The transfers of the worker -/

/-- The moves of `memcpy`, and those of `ReadFromShmem` and `WriteToShmem`. -/
def memcpy (dst src : Address) (n : ℕ) : List (Move Address (BitVec 8)) :=
  (List.range n).map fun i =>
    ⟨offsetBy dst (BitVec.ofNat 64 i), .cell (offsetBy src (BitVec.ofNat 64 i))⟩

/-- The moves of `memset`. -/
def memset (dst : Address) (b : BitVec 8) (n : ℕ) : List (Move Address (BitVec 8)) :=
  (List.range n).map fun i => ⟨offsetBy dst (BitVec.ofNat 64 i), .value b⟩

/-- The moves of `memcpy` from a pattern. -/
def memcpyPattern (dst : Address) (pattern : List (BitVec 8)) : List (Move Address (BitVec 8)) :=
  (List.range pattern.length).map fun j =>
    ⟨offsetBy dst (BitVec.ofNat 64 j), .value (pattern.getD j 0)⟩

/-- The loops over the slices and the rows of two boxes. -/
def copyRows (dst src : Address) (dstBox srcBox : Box w) : List (Move Address (BitVec 8)) :=
  ((dstBox.rowAddresses dst.2).zip (srcBox.rowAddresses src.2)).flatMap fun rows =>
    memcpy (dst.1, rows.1) (src.1, rows.2) (srcBox.region 0).toNat

/-- The box of an event in the host memory. -/
def hostBox (e : Rect w) : Box w := ⟨e.dstOrigin, e.region, e.dstRowPitch, e.dstSlicePitch, 0⟩

section Worker

variable {size : ℕ → BitVec w}

/-- `HandleEventDispatch`; what `Map` returns is the mapped address itself. -/
def Layout.dispatch (L : Layout size) : Event w → List (Move Address (BitVec 8))
  | .readBuffer x offset cb ptr =>
    if L.useHostPtr x.root then memcpy (.host, ptr) (L.hostPtr x) cb.toNat
    else memcpy (.host, ptr) (offsetBy (L.data x) (offset.setWidth 64)) cb.toNat
  | .writeBuffer x offset cb ptr =>
    if L.useHostPtr x.root then memcpy (L.hostPtr x) (.host, ptr) cb.toNat
    else memcpy (offsetBy (L.data x) (offset.setWidth 64)) (.host, ptr) cb.toNat
  | .fillBuffer x pattern offset cb =>
    let pdst :=
      if L.useHostPtr x.root then offsetBy (L.hostPtr x) (offset.setWidth 64)
      else offsetBy (L.data x) (offset.setWidth 64)
    if pattern.length = 1 then memset pdst (pattern.getD 0 0) cb.toNat
    else (List.range (cb.toNat / pattern.length)).flatMap fun i =>
      memcpyPattern (offsetBy pdst (BitVec.ofNat 64 (i * pattern.length))) pattern
  | .copyBuffer x y srcOffset dstOffset cb =>
    let psrc :=
      if L.useHostPtr x.root then offsetBy (L.hostPtr x) (srcOffset.setWidth 64)
      else offsetBy (L.data x) (srcOffset.setWidth 64)
    let pdst :=
      if L.useHostPtr y.root then offsetBy (L.hostPtr y) (dstOffset.setWidth 64)
      else offsetBy (L.data y) (dstOffset.setWidth 64)
    memcpy pdst psrc cb.toNat
  | .readBufferRect x ptr e =>
    let buf := if L.useHostPtr x.root then L.hostPtr x else L.data x
    copyRows (.host, ptr) buf (hostBox e) (e.srcBox x.toMemObject)
  | .writeBufferRect x ptr e =>
    let buf := if L.useHostPtr x.root then L.hostPtr x else L.data x
    copyRows buf (.host, ptr) (e.srcBox x.toMemObject) (hostBox e)
  | .copyBufferRect x y e =>
    let src := if L.useHostPtr x.root then L.hostPtr x else L.data x
    let dst := if L.useHostPtr y.root then L.hostPtr y else L.data y
    copyRows dst src (e.dstBox y.toMemObject) (e.srcBox x.toMemObject)

/-- The two memories after a sequence of transfers. -/
def Layout.run (L : Layout size) (events : List (Event w)) (m : Address → BitVec 8) :
    Address → BitVec 8 :=
  moveAll m (events.flatMap L.dispatch)

end Worker

/-! ### The bytes that a transfer selects -/

/-- A byte of the host or of a buffer. -/
inductive Loc
  | app (a : BitVec 64)
  | byte (buffer i : ℕ)
  deriving DecidableEq

/-- A byte behind a host pointer. -/
def hostByte (ptr : BitVec 64) (i : ℕ) : Loc := .app (ptr + BitVec.ofNat 64 i)

/-- A byte of a buffer or a sub-buffer. -/
def bufferByte (x : Buffer w) (i : ℕ) : Loc := .byte x.root (x.offset.toNat + i)

/-- The bytes of a range, one after the other. -/
def copied (n : ℕ) (dst src : ℕ → Loc) : List (Move Loc (BitVec 8)) :=
  (List.range n).map fun i => ⟨dst i, .cell (src i)⟩

/-- The bytes of a box, slice after slice and row after row. -/
def copiedBox (dst src : ℕ → Loc) (dstBox srcBox : Box w) : List (Move Loc (BitVec 8)) :=
  (List.range (srcBox.region 2).toNat).flatMap fun z =>
    (List.range (srcBox.region 1).toNat).flatMap fun y =>
      (List.range (srcBox.region 0).toNat).map fun x =>
        ⟨dst (dstBox.index x y z), .cell (src (srcBox.index x y z))⟩

/-- The bytes that a transfer moves, by its offsets, its origins, its region and its pitches. -/
def Event.selected : Event w → List (Move Loc (BitVec 8))
  | .readBuffer x offset cb ptr =>
    copied cb.toNat (hostByte ptr) fun i => bufferByte x (offset.toNat + i)
  | .writeBuffer x offset cb ptr =>
    copied cb.toNat (fun i => bufferByte x (offset.toNat + i)) (hostByte ptr)
  | .fillBuffer x pattern offset cb =>
    (List.range cb.toNat).map fun i =>
      ⟨bufferByte x (offset.toNat + i), .value (pattern.getD (i % pattern.length) 0)⟩
  | .copyBuffer x y srcOffset dstOffset cb =>
    copied cb.toNat (fun i => bufferByte y (dstOffset.toNat + i))
      fun i => bufferByte x (srcOffset.toNat + i)
  | .readBufferRect x ptr e =>
    copiedBox (hostByte ptr) (bufferByte x) (hostBox e) (e.srcBox x.toMemObject)
  | .writeBufferRect x ptr e =>
    copiedBox (bufferByte x) (hostByte ptr) (e.srcBox x.toMemObject) (hostBox e)
  | .copyBufferRect x y e =>
    copiedBox (bufferByte y) (bufferByte x) (e.dstBox y.toMemObject) (e.srcBox x.toMemObject)

/-! ### Where a byte is -/

section Names

variable {size : ℕ → BitVec w}

/-- The memory of a buffer. -/
def Layout.space (L : Layout size) (b : ℕ) : Space := if L.useHostPtr b then .host else .device

/-- Where a byte is. -/
def Layout.address (L : Layout size) : Loc → Address
  | .app a => (.host, a)
  | .byte b i => (L.space b, L.base b + BitVec.ofNat 64 i)

/-- An address of the host outside of the buffers. -/
def Layout.Free (L : Layout size) (a : BitVec 64) : Prop :=
  ∀ b, L.useHostPtr b = true →
    a.toNat < (L.base b).toNat ∨ (L.base b).toNat + (size b).toNat ≤ a.toNat

/-- The bytes that the layout keeps apart. -/
def Layout.locs (L : Layout size) : Set Loc := fun l =>
  match l with
  | .app a => L.Free a
  | .byte b i => i < (size b).toNat

variable {L : Layout size}

/-- The address of a byte of a buffer, without wrap-around. -/
lemma Layout.toNat_base_add {b i : ℕ} (hi : i < (size b).toNat) :
    (L.base b + BitVec.ofNat 64 i).toNat = (L.base b).toNat + i := by
  have hin := L.inside b
  rw [BitVec.toNat_add, BitVec.toNat_ofNat, Nat.add_mod_mod, Nat.mod_eq_of_lt (by omega)]

/-- No two bytes are at one address. -/
lemma Layout.injOn_address : Set.InjOn L.address L.locs := by
  intro l hl l' hl' heq
  cases l with
  | app a =>
    cases l' with
    | app a' =>
      obtain ⟨-, rfl⟩ := Prod.mk.inj heq
      rfl
    | byte b i =>
      obtain ⟨hspace, rfl⟩ := Prod.mk.inj heq
      have hhost : L.useHostPtr b = true := by
        by_contra hn
        rw [Layout.space, if_neg hn] at hspace
        cases hspace
      have hfree := hl b hhost
      have hi : i < (size b).toNat := hl'
      rw [Layout.toNat_base_add hi] at hfree
      omega
  | byte b i =>
    have hi : i < (size b).toNat := hl
    cases l' with
    | app a =>
      obtain ⟨hspace, rfl⟩ := Prod.mk.inj heq
      have hhost : L.useHostPtr b = true := by
        by_contra hn
        rw [Layout.space, if_neg hn] at hspace
        cases hspace
      have hfree := hl' b hhost
      rw [Layout.toNat_base_add hi] at hfree
      omega
    | byte b' i' =>
      have hi' : i' < (size b').toNat := hl'
      obtain ⟨hspace, haddr⟩ := Prod.mk.inj heq
      have hnat := congrArg BitVec.toNat haddr
      rw [Layout.toNat_base_add hi, Layout.toNat_base_add hi'] at hnat
      by_cases hbb : b = b'
      · subst hbb
        obtain rfl : i = i' := by omega
        rfl
      · have hsame : L.useHostPtr b = L.useHostPtr b' := by
          unfold Layout.space at hspace
          cases hb : L.useHostPtr b <;> cases hb' : L.useHostPtr b' <;> simp [hb, hb'] at hspace ⊢
        have happart := L.apart b b' hbb hsame
        omega

/-! ### The pointers of the worker -/

/-- A word as an address. -/
lemma ofNat_toNat_word (x : BitVec w) : BitVec.ofNat 64 x.toNat = x.setWidth 64 := by
  apply BitVec.eq_of_toNat_eq
  rw [BitVec.toNat_ofNat, BitVec.toNat_setWidth]

/-- The pointer to a buffer, on the path of its memory. -/
lemma Layout.address_bufferByte (L : Layout size) (x : Buffer w) (i : ℕ) :
    L.address (bufferByte x i) =
      offsetBy (if L.useHostPtr x.root then L.hostPtr x else L.data x) (BitVec.ofNat 64 i) := by
  have haddr : L.base x.root + BitVec.ofNat 64 (x.offset.toNat + i) =
      L.base x.root + x.offset.setWidth 64 + BitVec.ofNat 64 i := by
    rw [BitVec.ofNat_add, ofNat_toNat_word, BitVec.add_assoc]
  simp only [bufferByte, Layout.address, Layout.space, haddr]
  split
  · rfl
  · rfl

/-- A pointer into a buffer. -/
lemma Layout.address_bufferByte_add (L : Layout size) (x : Buffer w) (offset : BitVec w) (i : ℕ) :
    L.address (bufferByte x (offset.toNat + i)) =
      offsetBy (if L.useHostPtr x.root then offsetBy (L.hostPtr x) (offset.setWidth 64)
        else offsetBy (L.data x) (offset.setWidth 64)) (BitVec.ofNat 64 i) := by
  rw [L.address_bufferByte, BitVec.ofNat_add, ofNat_toNat_word]
  split
  · simp only [offsetBy, BitVec.add_assoc]
  · simp only [offsetBy, BitVec.add_assoc]

/-- A pointer of the host. -/
lemma Layout.address_hostByte (L : Layout size) (ptr : BitVec 64) (i : ℕ) :
    L.address (hostByte ptr i) = offsetBy (.host, ptr) (BitVec.ofNat 64 i) := rfl

/-- `memcpy` does the moves of a range. -/
lemma memcpy_eq {L : Layout size} {p q : Address} {dst src : ℕ → Loc} (n : ℕ)
    (hd : ∀ i, L.address (dst i) = offsetBy p (BitVec.ofNat 64 i))
    (hs : ∀ i, L.address (src i) = offsetBy q (BitVec.ofNat 64 i)) :
    memcpy p q n = (copied n dst src).map (Move.map L.address) := by
  rw [memcpy, copied, List.map_map]
  refine List.map_congr_left fun i _ => ?_
  simp only [Function.comp_apply, Move.map, Source.map, hd, hs]

/-! ### The rows of a box -/

/-- A cursor after some steps of one pitch. -/
lemma iterate_pitch (pitch : BitVec w) (a : BitVec 64) (n : ℕ) :
    (· + pitch.setWidth 64)^[n] a = a + BitVec.ofNat 64 (n * pitch.toNat) := by
  apply BitVec.eq_of_toNat_eq
  rw [toNat_iterate_add, BitVec.toNat_add, BitVec.toNat_ofNat, BitVec.toNat_setWidth, Nat.add_mod_mod,
    Nat.add_mod, Nat.mul_mod_mod, ← Nat.add_mod]

/-- The first byte of a row, and the others. -/
lemma index_eq (b : Box w) (x y z : ℕ) : b.index x y z = b.index 0 y z + x := rfl

/-- The cursor of the worker is at the first byte of each row, unless the offset wraps around. -/
lemma rowAddresses_eq {b : Box w} (hb : b.index 0 0 0 < 2 ^ w) (data : BitVec 64) :
    b.rowAddresses data = ((List.range (b.region 2).toNat) ×ˢ (List.range (b.region 1).toNat)).map
      fun q => data + BitVec.ofNat 64 (b.index 0 q.2 q.1) := by
  have hoffset : (b.origin 2 * b.slicePitch + b.origin 1 * b.rowPitch + b.origin 0).toNat =
      b.index 0 0 0 := by
    simp only [BitVec.toNat_add, BitVec.toNat_mul]
    rw [← Nat.add_mod, Nat.mod_add_mod]
    exact Nat.mod_eq_of_lt hb
  simp only [Box.rowAddresses, SProd.sprod, List.product, List.map_flatMap, List.map_map,
    ← List.range_map_iterate, List.flatMap_map]
  refine List.flatMap_congr fun z _ => List.map_congr_left fun y _ => ?_
  have hindex : b.index 0 y z =
      b.index 0 0 0 + z * b.slicePitch.toNat + y * b.rowPitch.toNat := by
    unfold Box.index
    ring
  rw [iterate_pitch, iterate_pitch, ← ofNat_toNat_word, hoffset]
  simp only [Function.comp_apply, hindex, BitVec.ofNat_add, BitVec.add_assoc]

/-- The loops over slices and rows do the moves of a box. -/
lemma copyRows_eq {L : Layout size} {p q : Address} {dst src : ℕ → Loc} {dstBox srcBox : Box w}
    (hd : ∀ i, L.address (dst i) = offsetBy p (BitVec.ofNat 64 i))
    (hs : ∀ i, L.address (src i) = offsetBy q (BitVec.ofNat 64 i))
    (hregion : dstBox.region = srcBox.region) (hdst : dstBox.index 0 0 0 < 2 ^ w)
    (hsrc : srcBox.index 0 0 0 < 2 ^ w) :
    copyRows p q dstBox srcBox = (copiedBox dst src dstBox srcBox).map (Move.map L.address) := by
  rw [copyRows, rowAddresses_eq hdst, rowAddresses_eq hsrc, hregion, List.zip_map', List.flatMap_map]
  simp only [copiedBox, SProd.sprod, List.product, List.flatMap_assoc, List.flatMap_map,
    List.map_flatMap]
  refine List.flatMap_congr fun z _ => List.flatMap_congr fun y _ => ?_
  rw [memcpy, List.map_map]
  refine List.map_congr_left fun x _ => ?_
  simp only [Function.comp_apply, Move.map, Source.map, hd, hs, offsetBy, index_eq _ x y z,
    BitVec.ofNat_add, BitVec.add_assoc]

/-! ### The pattern of a fill -/

/-- Some rounds of a pattern, byte by byte. -/
lemma map_range_mul {α : Type*} (f : ℕ → α) (n k : ℕ) :
    (List.range (n * k)).map f = (List.range n).flatMap fun i =>
      (List.range k).map fun j => f (i * k + j) := by
  induction n with
  | zero => simp
  | succ n ih =>
    rw [Nat.succ_mul, List.range_add, List.map_append, ih, List.range_succ, List.flatMap_append,
      List.map_map]
    simp [Function.comp_def]

/-! ### One transfer -/

/-- A sub-buffer lies inside its parent. -/
def Buffer.Inside (size : ℕ → BitVec w) (x : Buffer w) : Prop :=
  x.offset.toNat + x.size.toNat ≤ (size x.root).toNat

/-- The condition on a transfer: it stays inside its buffers, its bytes of the host are outside of
them, the counters of its loops do not overflow, and a read or a write of a buffer in host memory has
no offset. -/
def Layout.Ok (L : Layout size) : Event w → Prop
  | .readBuffer x offset cb ptr | .writeBuffer x offset cb ptr =>
    x.Inside size ∧ offset.toNat + cb.toNat ≤ x.size.toNat ∧
      (∀ i < cb.toNat, L.Free (ptr + BitVec.ofNat 64 i)) ∧
      (L.useHostPtr x.root = true → offset = 0 ∨ cb = 0)
  | .fillBuffer x pattern offset cb =>
    x.Inside size ∧ offset.toNat + cb.toNat ≤ x.size.toNat ∧ cb.toNat / pattern.length ≤ 2 ^ 31
  | .copyBuffer x y srcOffset dstOffset cb =>
    x.Inside size ∧ y.Inside size ∧ srcOffset.toNat + cb.toNat ≤ x.size.toNat ∧
      dstOffset.toNat + cb.toNat ≤ y.size.toNat
  | .readBufferRect x ptr e | .writeBufferRect x ptr e =>
    x.Inside size ∧ (e.srcBox x.toMemObject).extent ≤ x.size.toNat ∧ (hostBox e).extent ≤ 2 ^ w ∧
      (∀ i j k, i < (e.region 0).toNat → j < (e.region 1).toNat → k < (e.region 2).toNat →
        L.Free (ptr + BitVec.ofNat 64 ((hostBox e).index i j k))) ∧
      (e.region 1).toNat < 2 ^ 32 ∧ (e.region 2).toNat < 2 ^ 32
  | .copyBufferRect x y e =>
    x.Inside size ∧ y.Inside size ∧ (e.srcBox x.toMemObject).extent ≤ x.size.toNat ∧
      (e.dstBox y.toMemObject).extent ≤ y.size.toNat

instance (size : ℕ → BitVec w) (x : Buffer w) : Decidable (x.Inside size) :=
  inferInstanceAs (Decidable (_ ≤ _))

/-- A byte of a buffer. -/
lemma Buffer.Inside.mem_locs {x : Buffer w} (h : x.Inside size) {i : ℕ} (hi : i < x.size.toNat) :
    bufferByte x i ∈ L.locs := by
  have hin : x.offset.toNat + x.size.toNat ≤ (size x.root).toNat := h
  show x.offset.toNat + i < (size x.root).toNat
  omega

/-- The moves of a range stay among the bytes of the layout. -/
lemma within_copied {n : ℕ} {dst src : ℕ → Loc} (hd : ∀ i < n, dst i ∈ L.locs)
    (hs : ∀ i < n, src i ∈ L.locs) : ∀ v ∈ copied n dst src, v.Within L.locs := by
  intro v hv
  obtain ⟨i, hi, rfl⟩ := List.mem_map.mp hv
  rw [List.mem_range] at hi
  refine ⟨hd i hi, fun a ha => ?_⟩
  rw [List.mem_singleton.mp ha]
  exact hs i hi

/-- The moves of a box stay among the bytes of the layout. -/
lemma within_copiedBox {dst src : ℕ → Loc} {dstBox srcBox : Box w}
    (hd : ∀ i j k, i < (srcBox.region 0).toNat → j < (srcBox.region 1).toNat →
      k < (srcBox.region 2).toNat → dst (dstBox.index i j k) ∈ L.locs)
    (hs : ∀ i j k, i < (srcBox.region 0).toNat → j < (srcBox.region 1).toNat →
      k < (srcBox.region 2).toNat → src (srcBox.index i j k) ∈ L.locs) :
    ∀ v ∈ copiedBox dst src dstBox srcBox, v.Within L.locs := by
  intro v hv
  obtain ⟨k, hk, hv⟩ := List.mem_flatMap.mp hv
  obtain ⟨j, hj, hv⟩ := List.mem_flatMap.mp hv
  obtain ⟨i, hi, rfl⟩ := List.mem_map.mp hv
  rw [List.mem_range] at hi hj hk
  refine ⟨hd i j k hi hj hk, fun a ha => ?_⟩
  rw [List.mem_singleton.mp ha]
  exact hs i j k hi hj hk

/-- What the constructor of a fill checks of the pattern. -/
lemma dvd_of_fillBufferEvent {q : Enqueue} {buffer : Option (MemObject w)} {pattern : List (BitVec 8)}
    {offset cb : BitVec w} (h : fillBufferEvent q buffer pattern offset cb = .ok ()) :
    pattern.length ∣ cb.toNat := by
  obtain ⟨x, -, h⟩ := bind_eq_ok h
  split_ifs at h with _ _ hmod
  exact Nat.dvd_of_mod_eq_zero (not_not.mp fun hne => hmod (Or.inr hne))

/-- A box of a rectangular event starts inside the words, and its bytes are below its extent. -/
lemma index_zero_lt {b : Box w} (hregion : ∀ i, b.region i ≠ 0) (h : b.extent ≤ 2 ^ w) :
    b.index 0 0 0 < 2 ^ w :=
  (b.index_lt_extent (toNat_pos (hregion 0)) (toNat_pos (hregion 1)) (toNat_pos (hregion 2))).trans_le h

/-- The worker does the moves that a fill selects. -/
lemma dispatch_fillBuffer {x : Buffer w} {pattern : List (BitVec 8)} {offset cb : BitVec w}
    (hdvd : pattern.length ∣ cb.toNat) :
    L.dispatch (.fillBuffer x pattern offset cb) =
      (Event.fillBuffer x pattern offset cb).selected.map (Move.map L.address) := by
  have haddr := L.address_bufferByte_add x offset
  simp only [Layout.dispatch, Event.selected]
  generalize (if L.useHostPtr x.root then offsetBy (L.hostPtr x) (offset.setWidth 64)
    else offsetBy (L.data x) (offset.setWidth 64)) = pdst at haddr ⊢
  rw [List.map_map]
  split
  · next hone =>
    rw [memset]
    refine List.map_congr_left fun i _ => ?_
    simp only [Function.comp_apply, Move.map, Source.map, haddr, hone, Nat.mod_one]
  · obtain ⟨n, hn⟩ := hdvd
    rcases Nat.eq_zero_or_pos pattern.length with hzero | hpos
    · simp [hn, hzero]
    · rw [hn, Nat.mul_div_cancel_left n hpos, Nat.mul_comm, map_range_mul]
      refine List.flatMap_congr fun i _ => ?_
      rw [memcpyPattern]
      refine List.map_congr_left fun j hj => ?_
      rw [List.mem_range] at hj
      simp only [Function.comp_apply, Move.map, Source.map, haddr, offsetBy, BitVec.ofNat_add,
        BitVec.add_assoc, Nat.mul_add_mod_self_right, Nat.mod_eq_of_lt hj]

/-- The pointers of a read or a write that has no offset on the path that leaves it out. -/
lemma Layout.address_of_offset_zero {x : Buffer w} {offset : BitVec w}
    (h : L.useHostPtr x.root = true → offset = 0) (i : ℕ) :
    L.address (bufferByte x (offset.toNat + i)) =
      offsetBy (if L.useHostPtr x.root then L.hostPtr x
        else offsetBy (L.data x) (offset.setWidth 64)) (BitVec.ofNat 64 i) := by
  rw [L.address_bufferByte_add]
  split
  · next hhost =>
    rw [h hhost]
    simp [offsetBy]
  · rfl

/-- The worker does the moves that a read or a write selects. -/
lemma dispatch_readBuffer {x : Buffer w} {offset cb : BitVec w} {ptr : BitVec 64}
    (h : L.useHostPtr x.root = true → offset = 0 ∨ cb = 0) :
    L.dispatch (.readBuffer x offset cb ptr) =
        (Event.readBuffer x offset cb ptr).selected.map (Move.map L.address) ∧
      L.dispatch (.writeBuffer x offset cb ptr) =
        (Event.writeBuffer x offset cb ptr).selected.map (Move.map L.address) := by
  by_cases hcb : cb = 0
  · subst hcb
    simp [Layout.dispatch, Event.selected, copied, memcpy]
  · have haddr := fun i => L.address_of_offset_zero (fun hhost => (h hhost).resolve_right hcb) i
    constructor
    · rw [Event.selected, ← memcpy_eq cb.toNat (L.address_hostByte ptr) haddr, Layout.dispatch]
      split
      · rfl
      · rfl
    · rw [Event.selected, ← memcpy_eq cb.toNat haddr (L.address_hostByte ptr), Layout.dispatch]
      split
      · rfl
      · rfl

/-- No extent of an accepted box is zero. -/
lemma region_ne_zero {c : Command} {r : Request w} {e : Rect w} (h : construct c r = .ok e) :
    ∀ i, e.region i ≠ 0 := by
  obtain ⟨rfl, hregion, -⟩ := construct_ok h
  exact hregion

/-- The bytes of a box inside a buffer. -/
lemma Buffer.Inside.mem_locs_box {x : Buffer w} (h : x.Inside size) {b : Box w}
    (hb : b.extent ≤ x.size.toNat) {i j k : ℕ} (hi : i < (b.region 0).toNat)
    (hj : j < (b.region 1).toNat) (hk : k < (b.region 2).toNat) :
    bufferByte x (b.index i j k) ∈ L.locs :=
  h.mem_locs ((b.index_lt_extent hi hj hk).trans_le hb)

/-- Every transfer that meets its condition does the moves that it selects, and they stay among the
bytes of the layout. -/
lemma Layout.Ok.dispatch_eq {e : Event w} (hok : L.Ok e) (hacc : e.Accepted) :
    L.dispatch e = e.selected.map (Move.map L.address) ∧ ∀ v ∈ e.selected, v.Within L.locs := by
  cases e with
  | readBuffer x offset cb ptr =>
    obtain ⟨hin, hle, hfree, hoffset⟩ := hok
    exact ⟨(dispatch_readBuffer hoffset).1,
      within_copied hfree fun i hi => hin.mem_locs (by omega)⟩
  | writeBuffer x offset cb ptr =>
    obtain ⟨hin, hle, hfree, hoffset⟩ := hok
    exact ⟨(dispatch_readBuffer hoffset).2,
      within_copied (fun i hi => hin.mem_locs (by omega)) hfree⟩
  | fillBuffer x pattern offset cb =>
    obtain ⟨hin, hle, -⟩ := hok
    obtain ⟨q, hq⟩ := hacc
    refine ⟨dispatch_fillBuffer (dvd_of_fillBufferEvent hq), fun v hv => ?_⟩
    obtain ⟨i, hi, rfl⟩ := List.mem_map.mp hv
    rw [List.mem_range] at hi
    exact ⟨hin.mem_locs (by omega), fun a ha => by cases ha⟩
  | copyBuffer x y srcOffset dstOffset cb =>
    obtain ⟨hx, hy, hsrc, hdst⟩ := hok
    refine ⟨memcpy_eq cb.toNat (L.address_bufferByte_add y dstOffset)
      (L.address_bufferByte_add x srcOffset), ?_⟩
    exact within_copied (fun i hi => hy.mem_locs (by omega)) fun i hi => hx.mem_locs (by omega)
  | readBufferRect x ptr e =>
    obtain ⟨hin, hext, hhost, hfree, -⟩ := hok
    obtain ⟨r, -, hr⟩ := hacc
    have hregion := region_ne_zero hr
    have hword : (e.srcBox x.toMemObject).extent ≤ 2 ^ w := hext.trans x.size.isLt.le
    refine ⟨copyRows_eq (L.address_hostByte ptr) (L.address_bufferByte x) rfl
      (index_zero_lt hregion hhost) (index_zero_lt hregion hword), ?_⟩
    exact within_copiedBox hfree fun i j k hi hj hk => hin.mem_locs_box hext hi hj hk
  | writeBufferRect x ptr e =>
    obtain ⟨hin, hext, hhost, hfree, -⟩ := hok
    obtain ⟨r, -, hr⟩ := hacc
    have hregion := region_ne_zero hr
    have hword : (e.srcBox x.toMemObject).extent ≤ 2 ^ w := hext.trans x.size.isLt.le
    refine ⟨copyRows_eq (L.address_bufferByte x) (L.address_hostByte ptr) rfl
      (index_zero_lt hregion hword) (index_zero_lt hregion hhost), ?_⟩
    exact within_copiedBox (fun i j k hi hj hk => hin.mem_locs_box hext hi hj hk) hfree
  | copyBufferRect x y e =>
    obtain ⟨hx, hy, hsrc, hdst⟩ := hok
    obtain ⟨r, -, -, hr⟩ := hacc
    have hregion := region_ne_zero hr
    have hsrcWord : (e.srcBox x.toMemObject).extent ≤ 2 ^ w := hsrc.trans x.size.isLt.le
    have hdstWord : (e.dstBox y.toMemObject).extent ≤ 2 ^ w := hdst.trans y.size.isLt.le
    refine ⟨copyRows_eq (L.address_bufferByte y) (L.address_bufferByte x) rfl
      (index_zero_lt hregion hdstWord) (index_zero_lt hregion hsrcWord), ?_⟩
    exact within_copiedBox (fun i j k hi hj hk => hy.mem_locs_box hdst hi hj hk)
      fun i j k hi hj hk => hx.mem_locs_box hsrc hi hj hk

/-! ### Sequences of transfers -/

/-- The two memories hold the bytes of the host and of the buffers. -/
def Layout.Holds (L : Layout size) (contents : Loc → BitVec 8) (m : Address → BitVec 8) : Prop :=
  Agree L.address L.locs contents m

/-- A sequence of transfers does the moves that they select. -/
lemma Layout.Holds.run {contents : Loc → BitVec 8} {m : Address → BitVec 8} {events : List (Event w)}
    (h : L.Holds contents m) (hacc : ∀ e ∈ events, e.Accepted) (hok : ∀ e ∈ events, L.Ok e) :
    L.Holds (moveAll contents (events.flatMap Event.selected)) (L.run events m) := by
  have hmoves : events.flatMap L.dispatch =
      (events.flatMap Event.selected).map (Move.map L.address) := by
    rw [List.map_flatMap]
    exact List.flatMap_congr fun e he => ((hok e he).dispatch_eq (hacc e he)).1
  rw [Layout.run, hmoves]
  refine h.moveAll Layout.injOn_address fun v hv => ?_
  obtain ⟨e, he, hv⟩ := List.mem_flatMap.mp hv
  exact ((hok e he).dispatch_eq (hacc e he)).2 v hv

end Names

/-! ### Two buffers of 16 bytes -/

/-- The sizes of two buffers. -/
def twoSizes (b : ℕ) : BitVec 32 := if b < 2 then 16 else 0

/-- The two buffers at fixed addresses; the first one may be in host memory. -/
def twoBuffers (host : Bool) : Layout twoSizes where
  useHostPtr b := host && b == 0
  base b := if b = 0 then 0x1000 else if b = 1 then 0x2000 else 0
  inside b := by
    unfold twoSizes
    split_ifs <;> simp
  apart b b' hne _ := by
    unfold twoSizes
    split_ifs <;> simp <;> omega

/-- The two memories before the transfers: the last byte of every address. -/
def bytes (p : Address) : BitVec 8 := p.2.setWidth 8

/-- The contents of the buffers and of the host then. -/
def sampleContents : Loc → BitVec 8
  | .app a => a.setWidth 8
  | .byte _ i => BitVec.ofNat 8 i

/-- The contents are the same wherever the buffers are. -/
lemma holds_sampleContents (host : Bool) : (twoBuffers host).Holds sampleContents bytes := by
  intro l _
  cases l with
  | app a => rfl
  | byte b i =>
    show ((twoBuffers host).base b + BitVec.ofNat 64 i).setWidth 8 = BitVec.ofNat 8 i
    have hbase : ((twoBuffers host).base b).setWidth 8 = 0#8 := by
      simp only [twoBuffers]
      split_ifs <;> rfl
    rw [BitVec.setWidth_add _ _ (by decide), hbase, BitVec.zero_add, BitVec.setWidth_ofNat_of_le (by decide)]

/-- One of the two buffers. -/
def buffer (b : ℕ) : Buffer 32 := { buffer16 with handle := b, root := b, offset := 0 }

/-- Every second pair of bytes of a buffer. -/
def pairsOf (b : ℕ) : Request 32 := { evenPairs with source := some (buffer b).toMemObject }

/-- A write, a copy between the buffers, a fill and a rectangular read. -/
def sampleEvents : List (Event 32) :=
  [.writeBuffer (buffer 0) 0 8 0x310, .copyBuffer (buffer 0) (buffer 1) 0 4 8,
    .fillBuffer (buffer 1) [0xaa, 0xbb] 2 4, .readBufferRect (buffer 1) 0x400 (pairsOf 1).rect]

/-- The transfers are accepted. -/
lemma accepted_sampleEvents : ∀ e ∈ sampleEvents, e.Accepted := by
  have hrect : construct .read (pairsOf 1) = .ok (pairsOf 1).rect := by
    unfold construct readBufferRectEvent readWriteBufferRectEvent readWriteCopyBufferRectEvent
    simp only [inBytes_one]
    rfl
  simp only [sampleEvents, List.forall_mem_cons]
  exact ⟨⟨⟨none, 0⟩, rfl⟩, ⟨⟨none, 0⟩, rfl⟩, ⟨⟨none, 0⟩, rfl⟩, ⟨pairsOf 1, rfl, hrect⟩, by simp⟩

/-- An address below both buffers. -/
lemma free_of_lt (host : Bool) {a : BitVec 64} {i : ℕ} (h : a.toNat + i < 0x1000) :
    (twoBuffers host).Free (a + BitVec.ofNat 64 i) := by
  intro b _
  rw [BitVec.toNat_add, BitVec.toNat_ofNat, Nat.add_mod_mod, Nat.mod_eq_of_lt (by omega)]
  simp only [twoBuffers, twoSizes]
  split_ifs <;> simp <;> omega

/-- The transfers meet their conditions wherever the buffers are. -/
lemma ok_sampleEvents (host : Bool) : ∀ e ∈ sampleEvents, (twoBuffers host).Ok e := by
  simp only [sampleEvents, List.forall_mem_cons]
  refine ⟨⟨by decide, by decide, fun i hi => free_of_lt host ?_, fun _ => Or.inl rfl⟩,
    ⟨by decide, by decide, by decide, by decide⟩, ⟨by decide, by decide, by decide⟩,
    ⟨by decide, by decide, by decide, fun i j k hi hj hk => free_of_lt host ?_, by decide, by decide⟩,
    by simp⟩
  · have hi8 : i < 8 := hi
    show 0x310 + i < 0x1000
    omega
  · have hlt := (hostBox (pairsOf 1).rect).index_lt_extent hi hj hk
    have hext : (hostBox (pairsOf 1).rect).extent = 8 := by decide
    show 0x400 + _ < 0x1000
    omega

end Storage

end TiOpenCL
