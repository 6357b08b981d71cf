import Mathlib.Data.BitVec
import Mathlib.Data.Fin.VecNotation
import Mathlib.Data.List.Iterate
import Mathlib.Tactic.Ring

/-!
# Rectangular transfers

`ReadBufferRectEvent`, `WriteBufferRectEvent` and `CopyBufferRectEvent` take a box in a buffer, given
by an origin, a region, a row pitch and a slice pitch.  The constructors check the box one dimension
at a time, in the wrapping arithmetic of `size_t`, while a transfer adds the contributions of the
three dimensions.  A box that is accepted stays inside its buffer if and only if the end of the last
row of its last slice does, computed without wrap-around.
-/

namespace TiOpenCL

namespace BufferRect

variable {w : ℕ}

/-- There is a first dimension: the numerals of `Fin 3` below refer to this. -/
scoped instance neZero_three : NeZero 3 := ⟨by decide⟩

/-- The errors that the constructors report. -/
inductive Error
  | invalidValue
  | invalidMemObject
  | invalidContext
  | invalidEventWaitList
  | invalidOperation
  | misalignedSubBufferOffset
  | memObjectAllocationFailure
  | memCopyOverlap
  deriving DecidableEq

/-- What the constructors read of a memory object. -/
structure MemObject (w : ℕ) where
  /-- The identity of the object. -/
  handle : ℕ
  /-- The size in bytes. -/
  size : BitVec w
  /-- The context that the object belongs to. -/
  context : ℕ
  /-- The result of `isSubBufferAligned` on the device of the queue. -/
  subBufferAligned : Bool
  /-- The result of `allocate` on the device of the queue. -/
  allocates : Bool
  /-- `CL_MEM_HOST_READ_ONLY`. -/
  hostReadOnly : Bool
  /-- `CL_MEM_HOST_WRITE_ONLY`. -/
  hostWriteOnly : Bool
  /-- `CL_MEM_HOST_NO_ACCESS`. -/
  hostNoAccess : Bool
  deriving DecidableEq

/-- The arguments of the constructors. -/
structure Request (w : ℕ) where
  /-- The error of the constructor of `Event`, if it reports one. -/
  eventError : Option Error
  /-- The context of the command queue. -/
  context : ℕ
  /-- The source, or the buffer that is read or written; null is `none`. -/
  source : Option (MemObject w)
  /-- The destination of a copy. -/
  destination : Option (MemObject w)
  /-- Is the host pointer of a read or a write other than null? -/
  ptr : Bool
  /-- The origin in the source; null stands for the origin of the buffer. -/
  srcOrigin : Option (Fin 3 → BitVec w)
  /-- The origin in the destination, or in the host memory. -/
  dstOrigin : Option (Fin 3 → BitVec w)
  /-- The extent of the box. -/
  region : Fin 3 → BitVec w
  /-- The distance of two rows of the source; zero stands for rows without a gap. -/
  srcRowPitch : BitVec w
  /-- The distance of two slices of the source; zero stands for slices without a gap. -/
  srcSlicePitch : BitVec w
  /-- The distance of two rows of the destination. -/
  dstRowPitch : BitVec w
  /-- The distance of two slices of the destination. -/
  dstSlicePitch : BitVec w

/-- What an event keeps of its arguments. -/
structure Rect (w : ℕ) where
  /-- `p_src_origin`. -/
  srcOrigin : Fin 3 → BitVec w
  /-- `p_dst_origin`. -/
  dstOrigin : Fin 3 → BitVec w
  /-- `p_region`. -/
  region : Fin 3 → BitVec w
  /-- `p_src_row_pitch`. -/
  srcRowPitch : BitVec w
  /-- `p_src_slice_pitch`. -/
  srcSlicePitch : BitVec w
  /-- `p_dst_row_pitch`. -/
  dstRowPitch : BitVec w
  /-- `p_dst_slice_pitch`. -/
  dstSlicePitch : BitVec w
  deriving DecidableEq

/-! ### The constructors -/

/-- `BufferEvent`: the checks on the buffer itself. -/
def bufferEvent (r : Request w) : Except Error (MemObject w) :=
  match r.eventError with
  | some error => .error error
  | none =>
    match r.source with
    | none => .error .invalidMemObject
    | some buffer =>
      if buffer.context ≠ r.context then .error .invalidContext
      else if !buffer.subBufferAligned then .error .misalignedSubBufferOffset
      else if !buffer.allocates then .error .memObjectAllocationFailure
      else .ok buffer

/-- The first element of a vector in bytes. -/
def inBytes (v : Fin 3 → BitVec w) (bytesPerElement : BitVec w) : Fin 3 → BitVec w :=
  Function.update v 0 (v 0 * bytesPerElement)

/-- One of the four pitches: a pitch of zero is replaced by the one without a gap. -/
def checkPitch (pitch packed : BitVec w) : Except Error (BitVec w) :=
  if pitch = 0 then .ok packed
  else if pitch < packed then .error .invalidValue
  else .ok pitch

/-- `ReadWriteCopyBufferRectEvent`. -/
def readWriteCopyBufferRectEvent (r : Request w) (bytesPerElement : BitVec w) :
    Except Error (MemObject w × Rect w) := do
  let source ← bufferEvent r
  if ∃ i, r.region i = 0 then .error .invalidValue else
  let region := inBytes r.region bytesPerElement
  let srcRowPitch ← checkPitch r.srcRowPitch (region 0)
  let srcSlicePitch ← checkPitch r.srcSlicePitch (region 1 * srcRowPitch)
  let dstRowPitch ← checkPitch r.dstRowPitch (region 0)
  let dstSlicePitch ← checkPitch r.dstSlicePitch (region 1 * dstRowPitch)
  .ok (source,
    { srcOrigin := inBytes (r.srcOrigin.getD 0) bytesPerElement
      dstOrigin := inBytes (r.dstOrigin.getD 0) bytesPerElement
      region, srcRowPitch, srcSlicePitch, dstRowPitch, dstSlicePitch })

/-- A box in a buffer. -/
structure Box (w : ℕ) where
  /-- The origin of the box. -/
  origin : Fin 3 → BitVec w
  /-- The extent of the box. -/
  region : Fin 3 → BitVec w
  /-- The distance of two rows. -/
  rowPitch : BitVec w
  /-- The distance of two slices. -/
  slicePitch : BitVec w
  /-- The size of the buffer. -/
  size : BitVec w
  deriving DecidableEq

/-- The test of the constructors: each dimension for itself, in wrapping arithmetic. -/
def Box.OutOfBounds (b : Box w) : Prop :=
  b.size < b.origin 0 + b.region 0 ∨
    b.size < (b.origin 1 + b.region 1) * b.rowPitch ∨
    b.size < (b.origin 2 + b.region 2) * b.slicePitch

instance (b : Box w) : Decidable b.OutOfBounds :=
  inferInstanceAs (Decidable (_ ∨ _))

/-- The box of an event in its source. -/
def Rect.srcBox (e : Rect w) (source : MemObject w) : Box w :=
  ⟨e.srcOrigin, e.region, e.srcRowPitch, e.srcSlicePitch, source.size⟩

/-- The box of an event in its destination. -/
def Rect.dstBox (e : Rect w) (destination : MemObject w) : Box w :=
  ⟨e.dstOrigin, e.region, e.dstRowPitch, e.dstSlicePitch, destination.size⟩

/-- Do the two boxes of a copy overlap in a dimension? -/
def Rect.Overlaps (e : Rect w) (i : Fin 3) : Prop :=
  e.dstOrigin i < e.srcOrigin i ∧ e.srcOrigin i < e.dstOrigin i + e.region i ∨
    e.srcOrigin i < e.dstOrigin i ∧ e.dstOrigin i < e.srcOrigin i + e.region i

instance (e : Rect w) (i : Fin 3) : Decidable (e.Overlaps i) :=
  inferInstanceAs (Decidable (_ ∨ _))

/-- `CopyBufferRectEvent`. -/
def copyBufferRectEvent (r : Request w) : Except Error (Rect w) := do
  let (source, e) ← readWriteCopyBufferRectEvent r 1
  match r.destination with
  | none => .error .invalidMemObject
  | some destination =>
    if (e.srcBox source).OutOfBounds then .error .invalidValue
    else if (e.dstBox destination).OutOfBounds then .error .invalidValue
    else if source.handle = destination.handle ∧ ∀ i, e.Overlaps i then .error .memCopyOverlap
    else if !destination.subBufferAligned then .error .misalignedSubBufferOffset
    else if !destination.allocates then .error .memObjectAllocationFailure
    else .ok e

/-- `ReadWriteBufferRectEvent`. -/
def readWriteBufferRectEvent (r : Request w) (bytesPerElement : BitVec w) :
    Except Error (MemObject w × Rect w) := do
  let (buffer, e) ← readWriteCopyBufferRectEvent r bytesPerElement
  if !r.ptr then .error .invalidValue
  else if (e.srcBox buffer).OutOfBounds then .error .invalidValue
  else .ok (buffer, e)

/-- `ReadBufferRectEvent`. -/
def readBufferRectEvent (r : Request w) : Except Error (Rect w) := do
  let (buffer, e) ← readWriteBufferRectEvent r 1
  if buffer.hostWriteOnly || buffer.hostNoAccess then .error .invalidOperation else .ok e

/-- `WriteBufferRectEvent`. -/
def writeBufferRectEvent (r : Request w) : Except Error (Rect w) := do
  let (buffer, e) ← readWriteBufferRectEvent r 1
  if buffer.hostReadOnly || buffer.hostNoAccess then .error .invalidOperation else .ok e

/-- The three commands. -/
inductive Command
  | read
  | write
  | copy
  deriving DecidableEq

/-- The constructor of a command. -/
def construct : Command → Request w → Except Error (Rect w)
  | .read => readBufferRectEvent
  | .write => writeBufferRectEvent
  | .copy => copyBufferRectEvent

/-! ### Bytes of a box -/

/-- The index of a byte of the box in the buffer, without wrap-around. -/
def Box.index (b : Box w) (x y z : ℕ) : ℕ :=
  ((b.origin 2).toNat + z) * b.slicePitch.toNat + ((b.origin 1).toNat + y) * b.rowPitch.toNat +
    (b.origin 0).toNat + x

/-- Every byte of the box is a byte of the buffer. -/
def Box.InBounds (b : Box w) : Prop :=
  ∀ x y z, x < (b.region 0).toNat → y < (b.region 1).toNat → z < (b.region 2).toNat →
    b.index x y z < b.size.toNat

/-- The end of the last row of the last slice, without wrap-around. -/
def Box.extent (b : Box w) : ℕ :=
  ((b.origin 2).toNat + (b.region 2).toNat - 1) * b.slicePitch.toNat +
    ((b.origin 1).toNat + (b.region 1).toNat - 1) * b.rowPitch.toNat +
    ((b.origin 0).toNat + (b.region 0).toNat)

/-- The arguments of a request with the pitches that stand for zero. -/
def Request.rect (r : Request w) : Rect w :=
  let packed (pitch gapless : BitVec w) := if pitch = 0 then gapless else pitch
  { srcOrigin := r.srcOrigin.getD 0
    dstOrigin := r.dstOrigin.getD 0
    region := r.region
    srcRowPitch := packed r.srcRowPitch (r.region 0)
    srcSlicePitch := packed r.srcSlicePitch (r.region 1 * packed r.srcRowPitch (r.region 0))
    dstRowPitch := packed r.dstRowPitch (r.region 0)
    dstSlicePitch := packed r.dstSlicePitch (r.region 1 * packed r.dstRowPitch (r.region 0)) }

/-- The boxes that a transfer accesses; the host memory of a read or a write has no size. -/
def accessed (r : Request w) (e : Rect w) : Command → List (Box w)
  | .read => r.source.toList.map e.srcBox
  | .write => r.source.toList.map e.srcBox
  | .copy => r.source.toList.map e.srcBox ++ r.destination.toList.map e.dstBox

/-- A word other than zero is positive. -/
theorem toNat_pos {x : BitVec w} (h : x ≠ 0) : 0 < x.toNat :=
  Nat.pos_of_ne_zero fun hx => h (BitVec.eq_of_toNat_eq (by simpa using hx))

/-- A byte of the box is at most the last one. -/
theorem Box.index_lt_extent (b : Box w) {x y z : ℕ} (hx : x < (b.region 0).toNat)
    (hy : y < (b.region 1).toNat) (hz : z < (b.region 2).toNat) : b.index x y z < b.extent := by
  have hslice : ((b.origin 2).toNat + z) * b.slicePitch.toNat ≤
      ((b.origin 2).toNat + (b.region 2).toNat - 1) * b.slicePitch.toNat :=
    Nat.mul_le_mul_right _ (by omega)
  have hrow : ((b.origin 1).toNat + y) * b.rowPitch.toNat ≤
      ((b.origin 1).toNat + (b.region 1).toNat - 1) * b.rowPitch.toNat :=
    Nat.mul_le_mul_right _ (by omega)
  unfold Box.index Box.extent
  omega

/-- The last byte of a box is a byte of it. -/
theorem Box.index_last (b : Box w) (hb : ∀ i, b.region i ≠ 0) :
    b.index ((b.region 0).toNat - 1) ((b.region 1).toNat - 1) ((b.region 2).toNat - 1) + 1 =
      b.extent := by
  have h0 := toNat_pos (hb 0)
  have h1 : (b.origin 1).toNat + ((b.region 1).toNat - 1) =
      (b.origin 1).toNat + (b.region 1).toNat - 1 := (Nat.add_sub_assoc (toNat_pos (hb 1)) _).symm
  have h2 : (b.origin 2).toNat + ((b.region 2).toNat - 1) =
      (b.origin 2).toNat + (b.region 2).toNat - 1 := (Nat.add_sub_assoc (toNat_pos (hb 2)) _).symm
  unfold Box.index Box.extent
  rw [h1, h2]
  omega

/-- A box is inside its buffer if and only if the end of its last row is. -/
theorem Box.inBounds_iff (b : Box w) (hb : ∀ i, b.region i ≠ 0) :
    b.InBounds ↔ b.extent ≤ b.size.toNat := by
  have hpos : ∀ i, 0 < (b.region i).toNat := fun i => toNat_pos (hb i)
  constructor
  · intro h
    have hlast := h _ _ _ (Nat.sub_lt (hpos 0) one_pos) (Nat.sub_lt (hpos 1) one_pos)
      (Nat.sub_lt (hpos 2) one_pos)
    rw [← b.index_last hb]
    exact hlast
  · intro h x y z hx hy hz
    exact lt_of_lt_of_le (b.index_lt_extent hx hy hz) h

/-! ### What the constructors accept -/

/-- A pitch that is accepted is the given one, or the one without a gap. -/
theorem eq_of_checkPitch {pitch packed p : BitVec w} (h : checkPitch pitch packed = .ok p) :
    p = if pitch = 0 then packed else pitch := by
  unfold checkPitch at h
  split at h
  · next hz => rw [if_pos hz]; exact (Except.ok.inj h).symm
  · next hz =>
    rw [if_neg hz]
    split at h
    · cases h
    · exact (Except.ok.inj h).symm

/-- A result of a sequence of two computations. -/
theorem bind_eq_ok {α β : Type} {m : Except Error α} {f : α → Except Error β} {b : β}
    (h : m >>= f = .ok b) : ∃ a, m = .ok a ∧ f a = .ok b := by
  cases m with
  | error e => cases h
  | ok a => exact ⟨a, rfl, h⟩

@[simp] theorem inBytes_one (v : Fin 3 → BitVec w) : inBytes v 1 = v := by
  simp [inBytes]

/-- The buffer of an event is the one of the request. -/
theorem bufferEvent_ok {r : Request w} {source : MemObject w} (h : bufferEvent r = .ok source) :
    r.source = some source := by
  unfold bufferEvent at h
  grind

/-- What the common constructor keeps if it reports no error. -/
theorem readWriteCopyBufferRectEvent_ok {r : Request w} {source : MemObject w} {e : Rect w}
    (h : readWriteCopyBufferRectEvent r 1 = .ok (source, e)) :
    r.source = some source ∧ (∀ i, r.region i ≠ 0) ∧ e = r.rect := by
  obtain ⟨buffer, hbuffer, h⟩ := bind_eq_ok h
  split at h
  · cases h
  · next hregion =>
    obtain ⟨srcRow, hsrcRow, h⟩ := bind_eq_ok h
    obtain ⟨srcSlice, hsrcSlice, h⟩ := bind_eq_ok h
    obtain ⟨dstRow, hdstRow, h⟩ := bind_eq_ok h
    obtain ⟨dstSlice, hdstSlice, h⟩ := bind_eq_ok h
    obtain ⟨rfl, rfl⟩ := Prod.mk.inj (Except.ok.inj h)
    refine ⟨bufferEvent_ok hbuffer, fun i hi => hregion ⟨i, hi⟩, ?_⟩
    simp only [inBytes_one] at hsrcRow hsrcSlice hdstRow hdstSlice
    simp only [Request.rect, inBytes_one, eq_of_checkPitch hsrcRow, eq_of_checkPitch hsrcSlice,
      eq_of_checkPitch hdstRow, eq_of_checkPitch hdstSlice]

/-- What the constructor of a read or a write keeps if it reports no error. -/
theorem readWriteBufferRectEvent_ok {r : Request w} {source : MemObject w} {e : Rect w}
    (h : readWriteBufferRectEvent r 1 = .ok (source, e)) :
    r.source = some source ∧ (∀ i, r.region i ≠ 0) ∧ e = r.rect ∧
      ¬ (e.srcBox source).OutOfBounds := by
  obtain ⟨⟨buffer, e'⟩, hbase, h⟩ := bind_eq_ok h
  obtain ⟨hsource, hregion, rfl⟩ := readWriteCopyBufferRectEvent_ok hbase
  simp only at h
  split at h
  · cases h
  · split at h
    · cases h
    · next hbounds =>
      obtain ⟨rfl, rfl⟩ := Prod.mk.inj (Except.ok.inj h)
      exact ⟨hsource, hregion, rfl, hbounds⟩

/-- What a constructor keeps if it reports no error. -/
theorem construct_ok {c : Command} {r : Request w} {e : Rect w} (h : construct c r = .ok e) :
    e = r.rect ∧ (∀ i, r.region i ≠ 0) ∧ ∀ b ∈ accessed r e c, ¬ b.OutOfBounds := by
  cases c with
  | read =>
    obtain ⟨⟨buffer, e'⟩, hbase, h⟩ := bind_eq_ok h
    obtain ⟨hsource, hregion, rfl, hbounds⟩ := readWriteBufferRectEvent_ok hbase
    simp only at h
    split at h
    · cases h
    · obtain rfl := Except.ok.inj h
      simpa [accessed, hsource] using ⟨hregion, hbounds⟩
  | write =>
    obtain ⟨⟨buffer, e'⟩, hbase, h⟩ := bind_eq_ok h
    obtain ⟨hsource, hregion, rfl, hbounds⟩ := readWriteBufferRectEvent_ok hbase
    simp only at h
    split at h
    · cases h
    · obtain rfl := Except.ok.inj h
      simpa [accessed, hsource] using ⟨hregion, hbounds⟩
  | copy =>
    obtain ⟨⟨source, e'⟩, hbase, h⟩ := bind_eq_ok h
    obtain ⟨hsource, hregion, rfl⟩ := readWriteCopyBufferRectEvent_ok hbase
    simp only at h
    split at h
    · cases h
    · next destination hdestination =>
      split at h
      · cases h
      · next hsrc =>
        split at h
        · cases h
        · next hdst =>
          split at h
          · cases h
          · split at h
            · cases h
            · split at h
              · cases h
              · obtain rfl := Except.ok.inj h
                simpa [accessed, hsource, hdestination] using ⟨hregion, hsrc, hdst⟩

/-- The region of a box that is accessed is the one of the request. -/
theorem region_of_mem_accessed {c : Command} {r : Request w} {e : Rect w} {b : Box w}
    (hb : b ∈ accessed r e c) : b.region = e.region := by
  cases c <;> simp only [accessed, List.mem_append, List.mem_map] at hb
  · obtain ⟨m, -, rfl⟩ := hb
    rfl
  · obtain ⟨m, -, rfl⟩ := hb
    rfl
  · obtain ⟨m, -, rfl⟩ | ⟨m, -, rfl⟩ := hb <;> rfl

/-- A buffer of 16 bytes. -/
def buffer16 : MemObject 32 := ⟨0, 16, 0, true, true, false, false, false⟩

/-- Four rows of two bytes, every second pair of bytes of a buffer of 16. -/
def evenPairs : Request 32 :=
  { eventError := none, context := 0, source := some buffer16, destination := none, ptr := true,
    srcOrigin := some ![2, 0, 0], dstOrigin := none, region := ![2, 4, 1], srcRowPitch := 4,
    srcSlicePitch := 0, dstRowPitch := 0, dstSlicePitch := 0 }

/-- The request is accepted. -/
theorem construct_evenPairs : construct .read evenPairs = .ok evenPairs.rect := by
  unfold construct readBufferRectEvent readWriteBufferRectEvent readWriteCopyBufferRectEvent
  simp only [inBytes_one]
  rfl

/-- Four rows of four bytes that start at the twelfth byte of a buffer of 16. -/
def lateRows : Request 32 :=
  { evenPairs with srcOrigin := some ![12, 0, 0], region := ![4, 4, 1], srcRowPitch := 0 }

/-- The request is accepted. -/
theorem construct_lateRows : construct .read lateRows = .ok lateRows.rect := by
  unfold construct readBufferRectEvent readWriteBufferRectEvent readWriteCopyBufferRectEvent
  simp only [inBytes_one]
  rfl

/-- No row of the box reaches into the next row, no slice into the next slice, and the end of the last
slice is a word. -/
structure Box.Straight (b : Box w) : Prop where
  row : (b.origin 0).toNat + (b.region 0).toNat ≤ b.rowPitch.toNat
  slice : ((b.origin 1).toNat + (b.region 1).toNat) * b.rowPitch.toNat ≤ b.slicePitch.toNat
  word : ((b.origin 2).toNat + (b.region 2).toNat) * b.slicePitch.toNat < 2 ^ w

/-- The three tests are enough for a box that does not cross rows and slices. -/
theorem Box.Straight.inBounds {b : Box w} (hb : b.Straight) (hregion : ∀ i, b.region i ≠ 0)
    (h : ¬ b.OutOfBounds) : b.InBounds := by
  rw [b.inBounds_iff hregion]
  have h1 := toNat_pos (hregion 1)
  have h2 := toNat_pos (hregion 2)
  have hlast : ((b.origin 2).toNat + (b.region 2).toNat) * b.slicePitch.toNat ≤ b.size.toNat := by
    have hslice : ¬ b.size < (b.origin 2 + b.region 2) * b.slicePitch := fun hs => h (.inr (.inr hs))
    rw [BitVec.lt_def, BitVec.toNat_mul, BitVec.toNat_add, Nat.mod_mul_mod,
      Nat.mod_eq_of_lt hb.word] at hslice
    exact not_lt.1 hslice
  have hrows : ((b.origin 1).toNat + (b.region 1).toNat - 1) * b.rowPitch.toNat + b.rowPitch.toNat =
      ((b.origin 1).toNat + (b.region 1).toNat) * b.rowPitch.toNat := by
    rw [← Nat.succ_mul]
    congr 1
    omega
  have hslices : ((b.origin 2).toNat + (b.region 2).toNat - 1) * b.slicePitch.toNat +
      b.slicePitch.toNat = ((b.origin 2).toNat + (b.region 2).toNat) * b.slicePitch.toNat := by
    rw [← Nat.succ_mul]
    congr 1
    omega
  have hrow := hb.row
  have hslice := hb.slice
  unfold Box.extent
  omega

/-! ### The transfer -/

/-- The addresses of the rows that the loops over slices and rows copy, from the address of the
buffer on. -/
def Box.rowAddresses (b : Box w) (data : BitVec 64) : List (BitVec 64) :=
  let start := data +
    (b.origin 2 * b.slicePitch + b.origin 1 * b.rowPitch + b.origin 0).setWidth 64
  (List.iterate (· + b.slicePitch.setWidth 64) start (b.region 2).toNat).flatMap fun slice =>
    List.iterate (· + b.rowPitch.setWidth 64) slice (b.region 1).toNat

/-- Where a cursor stands after some steps of one pitch. -/
theorem toNat_iterate_add (p a : BitVec 64) (n : ℕ) :
    ((· + p)^[n] a).toNat = (a.toNat + n * p.toNat) % 2 ^ 64 := by
  induction n with
  | zero => simpa using (Nat.mod_eq_of_lt a.isLt).symm
  | succ n ih =>
    rw [Function.iterate_succ_apply', BitVec.toNat_add, ih, Nat.mod_add_mod, Nat.add_assoc,
      ← Nat.succ_mul]

/-- A transfer of a box that is inside its buffer accesses no byte outside it. -/
theorem Box.InBounds.rowAddresses_inside {b : Box w} (hb : b.InBounds) (hw : w ≤ 64)
    (hx : b.region 0 ≠ 0) {data : BitVec 64} (hdata : data.toNat + b.size.toNat ≤ 2 ^ 64)
    {row : BitVec 64} (hrow : row ∈ b.rowAddresses data) :
    data.toNat ≤ row.toNat ∧ row.toNat + (b.region 0).toNat ≤ data.toNat + b.size.toNat := by
  simp only [Box.rowAddresses, List.mem_flatMap, List.mem_iterate] at hrow
  obtain ⟨slice, ⟨z, hz, rfl⟩, y, hy, rfl⟩ := hrow
  have hxpos := toNat_pos hx
  have hlast := hb ((b.region 0).toNat - 1) y z (by omega) hy hz
  have hsum : b.index ((b.region 0).toNat - 1) y z =
      ((b.origin 2).toNat * b.slicePitch.toNat + (b.origin 1).toNat * b.rowPitch.toNat +
        (b.origin 0).toNat) + z * b.slicePitch.toNat + y * b.rowPitch.toNat +
        ((b.region 0).toNat - 1) := by
    unfold Box.index
    ring
  -- The offset of the origin is below the size, so that it did not wrap around.
  have hoffset : (b.origin 2 * b.slicePitch + b.origin 1 * b.rowPitch + b.origin 0).toNat =
      (b.origin 2).toNat * b.slicePitch.toNat + (b.origin 1).toNat * b.rowPitch.toNat +
        (b.origin 0).toNat := by
    have hword := b.size.isLt
    simp only [BitVec.toNat_add, BitVec.toNat_mul]
    rw [← Nat.add_mod, Nat.mod_add_mod, Nat.mod_eq_of_lt (by omega)]
  have hpow : 2 ^ w ≤ 2 ^ 64 := Nat.pow_le_pow_right (by norm_num) hw
  have haddress : (((· + b.rowPitch.setWidth 64)^[y])
      ((· + b.slicePitch.setWidth 64)^[z] (data + BitVec.setWidth 64
        (b.origin 2 * b.slicePitch + b.origin 1 * b.rowPitch + b.origin 0)))).toNat =
      data.toNat + (b.index ((b.region 0).toNat - 1) y z - ((b.region 0).toNat - 1)) := by
    rw [toNat_iterate_add, toNat_iterate_add, BitVec.toNat_add, BitVec.toNat_setWidth_of_le hw,
      BitVec.toNat_setWidth_of_le hw, BitVec.toNat_setWidth_of_le hw, hoffset, Nat.mod_add_mod,
      Nat.add_assoc, Nat.mod_add_mod, Nat.mod_eq_of_lt (by omega)]
    omega
  rw [haddress]
  omega

end BufferRect

end TiOpenCL
