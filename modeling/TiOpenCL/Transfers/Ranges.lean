import TiOpenCL.Transfers.Storage

/-!
# Linear ranges of buffers and sub-buffers

`ReadWriteBufferEvent`, `FillBufferEvent`, `MapBufferEvent`, `CopyBufferEvent` and `SubBuffer` compare
`offset + cb` with the size of the buffer, in the wrapping arithmetic of `size_t`.  A range that is
accepted is inside its buffer if and only if the sum does not wrap around, and then its bytes are inside
the memory of the buffer, or of the parent of a sub-buffer.
-/

namespace TiOpenCL

namespace Storage

open BufferRect

variable {w : ℕ}

/-! ### Flags -/

/-- A bit of a set of flags. -/
def flag (i : ℕ) : BitVec 64 := BitVec.ofNat 64 (2 ^ i)

/-- `CL_MEM_READ_WRITE`. -/
def memReadWrite : BitVec 64 := flag 0

/-- `CL_MEM_WRITE_ONLY`. -/
def memWriteOnly : BitVec 64 := flag 1

/-- `CL_MEM_READ_ONLY`. -/
def memReadOnly : BitVec 64 := flag 2

/-- `CL_MEM_USE_HOST_PTR`. -/
def memUseHostPtr : BitVec 64 := flag 3

/-- `CL_MEM_ALLOC_HOST_PTR`. -/
def memAllocHostPtr : BitVec 64 := flag 4

/-- `CL_MEM_COPY_HOST_PTR`. -/
def memCopyHostPtr : BitVec 64 := flag 5

/-- `CL_MEM_HOST_WRITE_ONLY`. -/
def memHostWriteOnly : BitVec 64 := flag 7

/-- `CL_MEM_HOST_READ_ONLY`. -/
def memHostReadOnly : BitVec 64 := flag 8

/-- `CL_MEM_HOST_NO_ACCESS`. -/
def memHostNoAccess : BitVec 64 := flag 9

/-- `CL_MEM_USE_MSMC_TI`. -/
def memUseMsmcTi : BitVec 64 := flag 20

/-- `CL_MAP_READ`. -/
def mapRead : BitVec 64 := flag 0

/-- `CL_MAP_WRITE`. -/
def mapWrite : BitVec 64 := flag 1

/-- `CL_MAP_WRITE_INVALIDATE_REGION`. -/
def mapWriteInvalidateRegion : BitVec 64 := flag 2

/-- Is one of the flags of a mask set? -/
def anySet (flags mask : BitVec 64) : Bool := flags &&& mask != 0

/-! ### The constructors -/

/-- `MapBufferEvent`. -/
def mapBufferEvent (q : Enqueue) (buffer : Option (MemObject w)) (offset cb : BitVec w)
    (mapFlags : BitVec 64) : Except Error Unit := do
  let buffer ← checkBuffer q buffer
  if anySet mapFlags (~~~(mapRead ||| mapWrite ||| mapWriteInvalidateRegion)) then .error .invalidValue
  else if buffer.size < offset + cb then .error .invalidValue
  else if anySet mapFlags mapRead && (buffer.hostWriteOnly || buffer.hostNoAccess) ||
      anySet mapFlags mapWrite && (buffer.hostReadOnly || buffer.hostNoAccess) ||
      anySet mapFlags mapWriteInvalidateRegion && (buffer.hostReadOnly || buffer.hostNoAccess) then
    .error .invalidOperation
  else .ok ()

/-- The errors of the constructors of memory objects. -/
inductive MemError
  | invalidValue
  | invalidHostPtr
  | invalidBufferSize
  deriving DecidableEq

/-- All flags of a memory object. -/
def allFlags : BitVec 64 :=
  memReadWrite ||| memWriteOnly ||| memReadOnly ||| memUseHostPtr ||| memAllocHostPtr |||
    memCopyHostPtr ||| memHostWriteOnly ||| memHostReadOnly ||| memHostNoAccess ||| memUseMsmcTi

/-- `MemObject`: the error that the constructor reports, if any. -/
def memObject (flags : BitVec 64) (hostPtr : Bool) : Option MemError :=
  if anySet flags (~~~allFlags) then some .invalidValue
  else if anySet flags memAllocHostPtr && anySet flags memUseHostPtr then some .invalidValue
  else if anySet flags memCopyHostPtr && anySet flags memUseHostPtr then some .invalidValue
  else if anySet flags memHostWriteOnly && anySet flags memHostReadOnly then some .invalidValue
  else if anySet flags memHostWriteOnly && anySet flags memHostNoAccess then some .invalidValue
  else if anySet flags memHostReadOnly && anySet flags memHostNoAccess then some .invalidValue
  else if anySet flags (memUseHostPtr ||| memCopyHostPtr) && !hostPtr then some .invalidHostPtr
  else if !anySet flags (memUseHostPtr ||| memCopyHostPtr) && hostPtr then some .invalidHostPtr
  else none

/-- The flags that a sub-buffer takes over from its parent. -/
def inheritFlags (parentFlags flags : BitVec 64) : BitVec 64 :=
  let access := memReadWrite ||| memReadOnly ||| memWriteOnly
  let hostPtr := memUseHostPtr ||| memAllocHostPtr ||| memCopyHostPtr
  let hostAccess := memHostReadOnly ||| memHostWriteOnly ||| memHostNoAccess
  let flags := if anySet flags access then flags else flags ||| parentFlags &&& access
  let flags := flags ||| parentFlags &&& hostPtr
  if anySet flags hostAccess then flags else flags ||| parentFlags &&& hostAccess

/-- `SubBuffer`: the flags of the sub-buffer, unless an error is reported.  The constructor of
`MemObject` runs first, and its error is reported if no check of `SubBuffer` fails. -/
def subBuffer (parentSize : BitVec w) (parentFlags : BitVec 64) (offset size : BitVec w)
    (flags : BitVec 64) : Except MemError (BitVec 64) :=
  if size = 0 then .error .invalidBufferSize
  else if parentSize < offset + size then .error .invalidBufferSize
  else if anySet flags (memAllocHostPtr ||| memUseHostPtr ||| memCopyHostPtr) then .error .invalidValue
  else if anySet parentFlags memWriteOnly && anySet flags (memReadWrite ||| memReadOnly) then
    .error .invalidValue
  else if anySet parentFlags memReadOnly && anySet flags (memReadWrite ||| memWriteOnly) then
    .error .invalidValue
  else
    match memObject flags false with
    | some error => .error error
    | none => .ok (inheritFlags parentFlags flags)

/-! ### Commands on ranges -/

/-- The commands on linear ranges. -/
inductive LinearCommand (w : ℕ)
  | read (buffer : Buffer w) (offset cb : BitVec w) (ptr : BitVec 64)
  | write (buffer : Buffer w) (offset cb : BitVec w) (ptr : BitVec 64)
  | fill (buffer : Buffer w) (pattern : List (BitVec 8)) (offset cb : BitVec w)
  | map (buffer : Buffer w) (offset cb : BitVec w) (mapFlags : BitVec 64)
  | copy (source destination : Buffer w) (srcOffset dstOffset cb : BitVec w)

/-- The constructor accepts the command. -/
def LinearCommand.Accepted (q : Enqueue) : LinearCommand w → Prop
  | .read x offset cb ptr => readBufferEvent q (some x.toMemObject) offset cb ptr = .ok ()
  | .write x offset cb ptr => writeBufferEvent q (some x.toMemObject) offset cb ptr = .ok ()
  | .fill x pattern offset cb => fillBufferEvent q (some x.toMemObject) pattern offset cb = .ok ()
  | .map x offset cb mapFlags => mapBufferEvent q (some x.toMemObject) offset cb mapFlags = .ok ()
  | .copy x y srcOffset dstOffset cb =>
    copyBufferEvent q (some x.toMemObject) (some y.toMemObject) srcOffset dstOffset cb = .ok ()

/-- A range of a buffer. -/
structure Range (w : ℕ) where
  buffer : Buffer w
  offset : BitVec w
  cb : BitVec w

/-- The ranges of a command. -/
def LinearCommand.ranges : LinearCommand w → List (Range w)
  | .read x offset cb _ => [⟨x, offset, cb⟩]
  | .write x offset cb _ => [⟨x, offset, cb⟩]
  | .fill x _ offset cb => [⟨x, offset, cb⟩]
  | .map x offset cb _ => [⟨x, offset, cb⟩]
  | .copy x y srcOffset dstOffset cb => [⟨x, srcOffset, cb⟩, ⟨y, dstOffset, cb⟩]

/-- The end of the range, without wrap-around, is in the buffer. -/
def Range.InRange (r : Range w) : Prop := r.offset.toNat + r.cb.toNat ≤ r.buffer.size.toNat

/-- The end of the range is a word. -/
def Range.Fits (r : Range w) : Prop := r.offset.toNat + r.cb.toNat < 2 ^ w

/-- What the constructors compare. -/
def Range.Checked (r : Range w) : Prop := ¬r.buffer.size < r.offset + r.cb

/-- A range that has been checked is inside its buffer if and only if its end is a word. -/
lemma Range.Checked.inRange_iff {r : Range w} (h : r.Checked) : r.InRange ↔ r.Fits := by
  constructor
  · intro hin
    exact hin.trans_lt r.buffer.size.isLt
  · intro hfit
    have hle : ¬r.buffer.size < r.offset + r.cb := h
    rw [BitVec.lt_def, BitVec.toNat_add, Nat.mod_eq_of_lt hfit] at hle
    exact not_lt.mp hle

/-- The constructors check every range of a command. -/
lemma LinearCommand.Accepted.checked {q : Enqueue} {c : LinearCommand w} (h : c.Accepted q) :
    ∀ r ∈ c.ranges, r.Checked := by
  have hrw : ∀ {x : Buffer w} {offset cb : BitVec w} {ptr : BitVec 64} {y : MemObject w},
      readWriteBufferEvent q (some x.toMemObject) offset cb ptr = .ok y →
      (⟨x, offset, cb⟩ : Range w).Checked := by
    intro x offset cb ptr y h
    obtain ⟨buffer, hbuffer, h⟩ := bind_eq_ok h
    obtain rfl := checkBuffer_ok hbuffer
    split_ifs at h with _ hbounds
    exact hbounds
  cases c with
  | read x offset cb ptr =>
    obtain ⟨buffer, hbuffer, -⟩ := bind_eq_ok h
    exact List.forall_mem_singleton.mpr (hrw hbuffer)
  | write x offset cb ptr =>
    obtain ⟨buffer, hbuffer, -⟩ := bind_eq_ok h
    exact List.forall_mem_singleton.mpr (hrw hbuffer)
  | fill x pattern offset cb =>
    obtain ⟨buffer, hbuffer, h⟩ := bind_eq_ok h
    obtain rfl := checkBuffer_ok hbuffer
    split_ifs at h with hbounds
    exact List.forall_mem_singleton.mpr hbounds
  | map x offset cb mapFlags =>
    obtain ⟨buffer, hbuffer, h⟩ := bind_eq_ok h
    obtain rfl := checkBuffer_ok hbuffer
    split_ifs at h with _ hbounds
    exact List.forall_mem_singleton.mpr hbounds
  | copy x y srcOffset dstOffset cb =>
    obtain ⟨hsrc, hdst, -⟩ := copyBufferEvent_ok h
    exact List.forall_mem_cons.mpr ⟨hsrc, List.forall_mem_singleton.mpr hdst⟩

/-! ### Sub-buffers -/

/-- The constructor of `SubBuffer` accepts the sub-buffer of a parent of the given size. -/
def Buffer.IsSubBuffer (size : ℕ → BitVec w) (x : Buffer w) : Prop :=
  ∃ parentFlags flags f, subBuffer (size x.root) parentFlags x.offset x.size flags = .ok f

/-- A buffer with its own memory, or a sub-buffer. -/
def Buffer.Created (size : ℕ → BitVec w) (x : Buffer w) : Prop :=
  x.offset = 0 ∧ x.size = size x.root ∨ x.IsSubBuffer size

/-- The end of a sub-buffer in its parent is a word. -/
def Buffer.Fits (x : Buffer w) : Prop := x.offset.toNat + x.size.toNat < 2 ^ w

/-- What the constructor of a sub-buffer compares. -/
lemma Buffer.IsSubBuffer.checked {size : ℕ → BitVec w} {x : Buffer w} (h : x.IsSubBuffer size) :
    x.size ≠ 0 ∧ ¬size x.root < x.offset + x.size := by
  obtain ⟨parentFlags, flags, f, h⟩ := h
  unfold subBuffer at h
  split_ifs at h with hzero hbounds
  exact ⟨hzero, hbounds⟩

/-- A sub-buffer that is accepted is inside its parent if and only if its end is a word. -/
lemma Buffer.IsSubBuffer.inside_iff {size : ℕ → BitVec w} {x : Buffer w} (h : x.IsSubBuffer size) :
    x.Inside size ↔ x.Fits := by
  constructor
  · intro hin
    exact lt_of_le_of_lt hin (size x.root).isLt
  · intro hfit
    have hbounds := h.checked.2
    rw [BitVec.lt_def, BitVec.toNat_add, Nat.mod_eq_of_lt hfit] at hbounds
    exact not_lt.mp hbounds

/-- The same for buffers and sub-buffers. -/
lemma Buffer.Created.inside_iff {size : ℕ → BitVec w} {x : Buffer w} (h : x.Created size) :
    x.Inside size ↔ x.Fits := by
  rcases h with ⟨hoffset, hsize⟩ | hsub
  · have hin : x.Inside size := by
      show x.offset.toNat + x.size.toNat ≤ _
      rw [hoffset, hsize]
      simp
    exact iff_of_true hin (lt_of_le_of_lt hin (size x.root).isLt)
  · exact hsub.inside_iff

/-! ### Bytes in the memory of the parent -/

section Memory

variable {size : ℕ → BitVec w}

/-- An address is in the memory of a buffer. -/
def Layout.Holding (L : Layout size) (b : ℕ) (a : BitVec 64) : Prop :=
  (L.base b).toNat ≤ a.toNat ∧ a.toNat < (L.base b).toNat + (size b).toNat

/-- The bytes of a range of a buffer or a sub-buffer, by `MemObject::host_ptr` and `DSPBuffer::data`,
are in the memory of the buffer or the parent. -/
def Layout.Translates (L : Layout size) (x : Buffer w) (offset cb : BitVec w) : Prop :=
  ∀ p ∈ [L.hostPtr x, L.data x], ∀ i < cb.toNat,
    L.Holding x.root (offsetBy (offsetBy p (offset.setWidth 64)) (BitVec.ofNat 64 i)).2

/-- Where a byte of a range is. -/
lemma Layout.pointer_add (L : Layout size) (x : Buffer w) (offset : BitVec w) (i : ℕ) :
    L.base x.root + x.offset.setWidth 64 + offset.setWidth 64 + BitVec.ofNat 64 i =
      L.base x.root + BitVec.ofNat 64 (x.offset.toNat + offset.toNat + i) := by
  rw [BitVec.ofNat_add, BitVec.ofNat_add, ofNat_toNat_word, ofNat_toNat_word]
  simp only [BitVec.add_assoc]

/-- A byte below the size of a buffer is in its memory. -/
lemma Layout.holding_of_lt (L : Layout size) {b i : ℕ} (hi : i < (size b).toNat) :
    L.Holding b (L.base b + BitVec.ofNat 64 i) := by
  rw [Layout.Holding, Layout.toNat_base_add hi]
  omega

/-- A byte behind the end of a buffer, less than the address space away, is not in its memory. -/
lemma Layout.not_holding (L : Layout size) {b i : ℕ} (hi : (size b).toNat ≤ i) (hlt : i < 2 ^ 64) :
    ¬L.Holding b (L.base b + BitVec.ofNat 64 i) := by
  have hin := L.inside b
  rintro ⟨hlo, hhi⟩
  rw [BitVec.toNat_add, BitVec.toNat_ofNat, Nat.mod_eq_of_lt hlt] at hlo hhi
  rcases Nat.lt_or_ge ((L.base b).toNat + i) (2 ^ 64) with hsum | hsum
  · rw [Nat.mod_eq_of_lt hsum] at hhi
    omega
  · rw [Nat.mod_eq_sub_mod hsum, Nat.mod_eq_of_lt (by omega)] at hlo
    omega

/-- A range inside a sub-buffer that is inside its parent is in the memory of the parent. -/
lemma Layout.translates_of_inside (L : Layout size) {r : Range w} (hin : r.buffer.Inside size)
    (hrange : r.InRange) : L.Translates r.buffer r.offset r.cb := by
  intro p hp i hi
  have hle : r.buffer.offset.toNat + r.buffer.size.toNat ≤ (size r.buffer.root).toNat := hin
  have hle' : r.offset.toNat + r.cb.toNat ≤ r.buffer.size.toNat := hrange
  have hbyte : L.Holding r.buffer.root (L.base r.buffer.root + r.buffer.offset.setWidth 64 +
      r.offset.setWidth 64 + BitVec.ofNat 64 i) := by
    rw [L.pointer_add]
    exact L.holding_of_lt (by omega)
  rcases List.mem_pair.mp hp with rfl | rfl
  · exact hbyte
  · exact hbyte

/-- All bytes of a sub-buffer are in the memory of its parent if and only if its end is a word. -/
lemma Layout.translates_subBuffer_iff (hw : w ≤ 64) (L : Layout size) {x : Buffer w}
    (hsub : x.IsSubBuffer size) : L.Translates x 0 x.size ↔ x.Fits := by
  constructor
  · intro htrans
    by_contra hwrap
    rw [Buffer.Fits, not_lt] at hwrap
    have hoffset := x.offset.isLt
    have hsize := (size x.root).isLt
    have hword : (2 : ℕ) ^ w ≤ 2 ^ 64 := Nat.pow_le_pow_right (by omega) hw
    -- The byte with the largest number that is a word.
    have hlast := htrans (L.data x) (by simp) (2 ^ w - 1 - x.offset.toNat) (by omega)
    have hzero : (0 : BitVec w).toNat = 0 := by simp
    have hbyte : (offsetBy (offsetBy (L.data x) ((0 : BitVec w).setWidth 64))
        (BitVec.ofNat 64 (2 ^ w - 1 - x.offset.toNat))).2 =
        L.base x.root + BitVec.ofNat 64 (2 ^ w - 1) := by
      have hsum : x.offset.toNat + (0 : BitVec w).toNat + (2 ^ w - 1 - x.offset.toNat) = 2 ^ w - 1 := by
        omega
      show L.base x.root + x.offset.setWidth 64 + (0 : BitVec w).setWidth 64 + _ = _
      rw [L.pointer_add, hsum]
    rw [hbyte] at hlast
    exact L.not_holding (by omega) (by omega) hlast
  · intro hfit
    exact L.translates_of_inside (r := ⟨x, 0, x.size⟩) (hsub.inside_iff.mpr hfit)
      (by simp [Range.InRange])

/-- A sub-buffer that is accepted is inside its parent, with all its bytes in the memory of the parent,
if and only if its end is a word.  The ranges of a command that is accepted are inside their buffers if
and only if their ends are words, and if the ends of their sub-buffers are words too, their bytes are in
the memory of the parents. -/
theorem linear_ranges_iff (hw : w ≤ 64) (L : Layout size) :
    (∀ x : Buffer w, x.IsSubBuffer size → (x.Inside size ∧ L.Translates x 0 x.size ↔ x.Fits)) ∧
    ∀ (q : Enqueue) (c : LinearCommand w), c.Accepted q → (∀ r ∈ c.ranges, r.buffer.Created size) →
      (∀ r ∈ c.ranges, (r.InRange ↔ r.Fits)) ∧
      ((∀ r ∈ c.ranges,
          r.InRange ∧ r.buffer.Inside size ∧ L.Translates r.buffer r.offset r.cb) ↔
        ∀ r ∈ c.ranges, r.Fits ∧ r.buffer.Fits) := by
  refine ⟨fun x hsub => ?_, fun q c hacc hcreated => ⟨fun r hr => (hacc.checked r hr).inRange_iff, ?_⟩⟩
  · rw [L.translates_subBuffer_iff hw hsub, hsub.inside_iff, and_self]
  · refine forall₂_congr fun r hr => ?_
    have hrange := (hacc.checked r hr).inRange_iff
    have hinside := (hcreated r hr).inside_iff
    constructor
    · rintro ⟨hin, hparent, -⟩
      exact ⟨hrange.mp hin, hinside.mp hparent⟩
    · rintro ⟨hfit, hparent⟩
      have hin := hrange.mpr hfit
      exact ⟨hin, hinside.mpr hparent, L.translates_of_inside (hinside.mpr hparent) hin⟩

end Memory

/-- The eight bytes from the fourth one on of the first buffer. -/
def middle : Buffer 32 := { buffer 0 with handle := 2, size := 8, offset := 4 }

/-- The sub-buffer and a map of two bytes of it are accepted, and the bytes are in the memory of the
parent. -/
theorem linear_ranges_middle :
    middle.IsSubBuffer twoSizes ∧ LinearCommand.Accepted ⟨none, 0⟩ (.map middle 2 2 mapRead) ∧
      (⟨middle, 2, 2⟩ : Range 32).InRange ∧ middle.Inside twoSizes ∧
      (twoBuffers false).Translates middle 2 2 := by
  have hsub : middle.IsSubBuffer twoSizes := ⟨memReadWrite, 0, _, rfl⟩
  have hacc : LinearCommand.Accepted ⟨none, 0⟩ (.map middle 2 2 mapRead) := rfl
  have hranges := ((linear_ranges_iff (by decide) (twoBuffers false)).2 ⟨none, 0⟩ (.map middle 2 2 mapRead)
    hacc (List.forall_mem_singleton.mpr (Or.inr hsub))).2
  have hfit : ∀ r ∈ (LinearCommand.map middle 2 2 mapRead).ranges, r.Fits ∧ r.buffer.Fits :=
    List.forall_mem_singleton.mpr ⟨by unfold Range.Fits; decide, by unfold Buffer.Fits; decide⟩
  exact ⟨hsub, hacc, hranges.mpr hfit _ (List.mem_singleton_self _)⟩

/-- A read of eight bytes from four bytes below the end of the words is accepted for a buffer of 16
bytes. -/
theorem not_linear_ranges :
    LinearCommand.Accepted ⟨none, 0⟩ (.read (buffer 0) 0xfffffffc 8 0x310) ∧
      ¬(⟨buffer 0, 0xfffffffc, 8⟩ : Range 32).InRange := by
  refine ⟨rfl, ?_⟩
  unfold Range.InRange
  decide

end Storage

end TiOpenCL
