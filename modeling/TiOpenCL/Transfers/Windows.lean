import TiOpenCL.Transfers.Storage

/-!
# The windows of a rectangular copy

The worker copies a box slice by slice, and it maps the part of a device buffer that it takes for the
slice: as many bytes as the rows of the slice have with their pitch, less the first coordinate of the
origin.  The last row of the slice ends elsewhere.  The window holds every byte of the slice, and its
size does not wrap around, if and only if no row reaches beyond its pitch and the size is a word.
-/

namespace TiOpenCL

namespace BufferRect

variable {w : ℕ}

/-- One iteration of the loop over the slices of a device buffer. -/
structure Slice (w : ℕ) where
  /-- `src_cur_slice` or `dst_cur_slice`, the address passed to `Map` and `Unmap`. -/
  start : BitVec 64
  /-- `src_slice_size` or `dst_slice_size`, the size passed to `Map` and `Unmap`. -/
  size : BitVec w
  /-- The rows that the inner loop copies. -/
  rows : ℕ
  /-- The distance of two rows. -/
  rowPitch : BitVec w
  /-- The bytes of a row. -/
  rowSize : ℕ

/-- The size of the slices: `ydim * row_pitch - origin(0)`, where `ydim` is a `cl_ulong`. -/
def Box.sliceSize (b : Box w) : BitVec w :=
  ((b.region 1).setWidth 64 * b.rowPitch.setWidth 64 - (b.origin 0).setWidth 64).setWidth w

/-- The iterations of the loop over the slices, from the address of the buffer on. -/
def Box.slices (b : Box w) (data : BitVec 64) : List (Slice w) :=
  let start := data +
    (b.origin 2 * b.slicePitch + b.origin 1 * b.rowPitch + b.origin 0).setWidth 64
  (List.iterate (· + b.slicePitch.setWidth 64) start (b.region 2).toNat).map fun slice =>
    ⟨slice, b.sliceSize, (b.region 1).toNat, b.rowPitch, (b.region 0).toNat⟩

/-- The addresses of the rows of a slice. -/
def Slice.rowAddresses (s : Slice w) : List (BitVec 64) :=
  List.iterate (· + s.rowPitch.setWidth 64) s.start s.rows

/-- The slices hold the rows of the transfer. -/
lemma Box.rowAddresses_eq_slices (b : Box w) (data : BitVec 64) :
    b.rowAddresses data = (b.slices data).flatMap Slice.rowAddresses := by
  rw [Box.slices, List.flatMap_map]
  rfl

/-- The bytes of the slice that are copied. -/
def Slice.accessed (s : Slice w) : Set ℕ :=
  fun a => ∃ y < s.rows, ∃ x < s.rowSize, a = s.start.toNat + y * s.rowPitch.toNat + x

/-- The bytes of the window that is mapped. -/
def Slice.window (s : Slice w) : Set ℕ := Set.Ico s.start.toNat (s.start.toNat + s.size.toNat)

/-- The subtraction in the size of the slices does not wrap around. -/
def Box.SizeOk (b : Box w) : Prop :=
  (b.origin 0).setWidth 64 ≤ (b.region 1).setWidth 64 * b.rowPitch.setWidth 64

/-- No row of the box reaches beyond the pitch, and the size of the slices is a word. -/
structure Box.Narrow (b : Box w) : Prop where
  row : (b.origin 0).toNat + (b.region 0).toNat ≤ b.rowPitch.toNat
  slice : (b.region 1).toNat * b.rowPitch.toNat < 2 ^ 64
  word : (b.region 1).toNat * b.rowPitch.toNat - (b.origin 0).toNat < 2 ^ w

/-- The bytes of a slice are in its window if and only if the last one is. -/
lemma Slice.accessed_subset_iff {s : Slice w} (hrows : 0 < s.rows) (hsize : 0 < s.rowSize) :
    s.accessed ⊆ s.window ↔ (s.rows - 1) * s.rowPitch.toNat + s.rowSize ≤ s.size.toNat := by
  constructor
  · intro hsub
    have hlast : s.start.toNat + (s.rows - 1) * s.rowPitch.toNat + (s.rowSize - 1) ∈ s.window :=
      hsub ⟨s.rows - 1, by omega, s.rowSize - 1, by omega, rfl⟩
    have hlt := hlast.2
    omega
  · rintro hle a ⟨y, hy, x, hx, rfl⟩
    have hrow : y * s.rowPitch.toNat ≤ (s.rows - 1) * s.rowPitch.toNat :=
      Nat.mul_le_mul_right _ (by omega)
    exact ⟨by omega, by omega⟩

/-- The size of the slices if the subtraction does not wrap around. -/
lemma Box.SizeOk.toNat_sliceSize {b : Box w} (hw : w ≤ 64) (h : b.SizeOk) :
    (b.origin 0).toNat ≤ (b.region 1).toNat * b.rowPitch.toNat % 2 ^ 64 ∧
      b.sliceSize.toNat =
        ((b.region 1).toNat * b.rowPitch.toNat % 2 ^ 64 - (b.origin 0).toNat) % 2 ^ w := by
  have hprod : ((b.region 1).setWidth 64 * b.rowPitch.setWidth 64).toNat =
      (b.region 1).toNat * b.rowPitch.toNat % 2 ^ 64 := by
    rw [BitVec.toNat_mul, BitVec.toNat_setWidth_of_le hw, BitVec.toNat_setWidth_of_le hw]
  have horigin : ((b.origin 0).setWidth 64).toNat = (b.origin 0).toNat :=
    BitVec.toNat_setWidth_of_le hw
  have hle : (b.origin 0).toNat ≤ (b.region 1).toNat * b.rowPitch.toNat % 2 ^ 64 := by
    rw [← horigin, ← hprod]
    exact BitVec.le_def.mp h
  refine ⟨hle, ?_⟩
  rw [Box.sliceSize, BitVec.toNat_setWidth, BitVec.toNat_sub_of_le h, hprod, horigin]

/-- The window of a slice covers it, and its size does not wrap around, if and only if the box is
narrow. -/
lemma Box.narrow_iff (hw : w ≤ 64) {b : Box w} (hregion : ∀ i, b.region i ≠ 0) :
    b.SizeOk ∧ ((b.region 1).toNat - 1) * b.rowPitch.toNat + (b.region 0).toNat ≤ b.sliceSize.toNat ↔
      b.Narrow := by
  have h0 := toNat_pos (hregion 0)
  have h1 := toNat_pos (hregion 1)
  have hpitch := b.rowPitch.isLt
  have hword : (2 : ℕ) ^ w ≤ 2 ^ 64 := Nat.pow_le_pow_right (by omega) hw
  have hlast : ((b.region 1).toNat - 1) * b.rowPitch.toNat + b.rowPitch.toNat =
      (b.region 1).toNat * b.rowPitch.toNat := by
    rw [← Nat.succ_mul]
    congr 1
    omega
  constructor
  · rintro ⟨hok, hcover⟩
    obtain ⟨hle, hsize⟩ := hok.toNat_sliceSize hw
    -- A size that lost a multiple of the word is smaller than the last row needs.
    have hslice : (b.region 1).toNat * b.rowPitch.toNat < 2 ^ 64 := by
      by_contra hge
      have hmod : (b.region 1).toNat * b.rowPitch.toNat % 2 ^ 64 ≤
          (b.region 1).toNat * b.rowPitch.toNat - 2 ^ 64 := by
        rw [Nat.mod_eq_sub_mod (by omega)]
        exact Nat.mod_le _ _
      have hless : b.sliceSize.toNat ≤ (b.region 1).toNat * b.rowPitch.toNat % 2 ^ 64 := by
        rw [hsize]
        exact (Nat.mod_le _ _).trans (Nat.sub_le _ _)
      omega
    rw [Nat.mod_eq_of_lt hslice] at hle hsize
    have hfit : (b.region 1).toNat * b.rowPitch.toNat - (b.origin 0).toNat < 2 ^ w := by
      by_contra hge
      have hmod : b.sliceSize.toNat ≤
          (b.region 1).toNat * b.rowPitch.toNat - (b.origin 0).toNat - 2 ^ w := by
        rw [hsize, Nat.mod_eq_sub_mod (by omega)]
        exact Nat.mod_le _ _
      omega
    rw [Nat.mod_eq_of_lt hfit] at hsize
    exact ⟨by omega, hslice, hfit⟩
  · rintro ⟨hrow, hslice, hfit⟩
    have hok : b.SizeOk := by
      show _ ≤ _
      rw [BitVec.le_def, BitVec.toNat_mul, BitVec.toNat_setWidth_of_le hw, BitVec.toNat_setWidth_of_le hw,
        BitVec.toNat_setWidth_of_le hw, Nat.mod_eq_of_lt hslice]
      omega
    refine ⟨hok, ?_⟩
    rw [(hok.toNat_sliceSize hw).2, Nat.mod_eq_of_lt hslice, Nat.mod_eq_of_lt hfit]
    omega

end BufferRect

namespace Storage

open BufferRect

variable {w : ℕ} {size : ℕ → BitVec w}

/-- The boxes of a rectangular copy in device buffers, with the addresses of the buffers; host memory
is not mapped. -/
def Layout.deviceBoxes (L : Layout size) (x y : Buffer w) (e : Rect w) : List (Box w × BitVec 64) :=
  (if L.useHostPtr x.root then [] else [(e.srcBox x.toMemObject, (L.data x).2)]) ++
    if L.useHostPtr y.root then [] else [(e.dstBox y.toMemObject, (L.data y).2)]

/-- The boxes have the region of the event. -/
lemma Layout.region_of_mem_deviceBoxes {L : Layout size} {x y : Buffer w} {e : Rect w}
    {b : Box w × BitVec 64} (hb : b ∈ L.deviceBoxes x y e) : b.1.region = e.region := by
  unfold Layout.deviceBoxes at hb
  rw [List.mem_append] at hb
  rcases hb with hb | hb
  · split at hb
    · cases hb
    · rw [List.mem_singleton.mp hb]
      rfl
  · split at hb
    · cases hb
    · rw [List.mem_singleton.mp hb]
      rfl

/-- A rectangular copy that is accepted maps in every slice what it reads and writes there, with a
window whose size does not wrap around, if and only if its boxes in device buffers are narrow. -/
theorem windows_cover_iff (hw : w ≤ 64) (L : Layout size) (x y : Buffer w) (e : Rect w)
    (hacc : (Event.copyBufferRect x y e).Accepted) :
    (∀ b ∈ L.deviceBoxes x y e, b.1.SizeOk ∧ ∀ s ∈ b.1.slices b.2, s.accessed ⊆ s.window) ↔
      ∀ b ∈ L.deviceBoxes x y e, b.1.Narrow := by
  obtain ⟨r, -, -, hr⟩ := hacc
  have hregion := region_ne_zero hr
  refine forall₂_congr fun b hb => ?_
  have hbox : ∀ i, b.1.region i ≠ 0 := by
    rw [Layout.region_of_mem_deviceBoxes hb]
    exact hregion
  rw [← Box.narrow_iff hw hbox, and_congr_right_iff]
  intro _
  -- All slices have the same shape, and there is one.
  have hslice : ∀ s ∈ b.1.slices b.2, (s.accessed ⊆ s.window ↔
      ((b.1.region 1).toNat - 1) * b.1.rowPitch.toNat + (b.1.region 0).toNat ≤ b.1.sliceSize.toNat) := by
    intro s hs
    obtain ⟨start, -, rfl⟩ := List.mem_map.mp hs
    exact Slice.accessed_subset_iff (toNat_pos (hbox 1)) (toNat_pos (hbox 0))
  have hne : b.1.slices b.2 ≠ [] := by
    have hlen : (b.1.slices b.2).length = (b.1.region 2).toNat := by
      simp only [Box.slices, List.length_map, List.length_iterate]
    intro hnil
    rw [hnil, List.length_nil] at hlen
    exact (toNat_pos (hbox 2)).ne hlen
  constructor
  · intro hcover
    obtain ⟨s, hs⟩ := List.exists_mem_of_ne_nil _ hne
    exact (hslice s hs).mp (hcover s hs)
  · intro hlast s hs
    exact (hslice s hs).mpr hlast

/-- Two rows of two bytes with a pitch of four are copied to a gapless box of another buffer. -/
def narrowCopy : Request 32 :=
  { eventError := none, context := 0, source := some (buffer 0).toMemObject,
    destination := some (buffer 1).toMemObject, ptr := false, srcOrigin := some ![2, 0, 0],
    dstOrigin := none, region := ![2, 2, 1], srcRowPitch := 4, srcSlicePitch := 0, dstRowPitch := 0,
    dstSlicePitch := 0 }

/-- Two rows of four bytes with a pitch of four that start at the third byte of a row. -/
def crossRowCopy : Request 32 := { narrowCopy with region := ![4, 2, 1] }

/-- Both requests are accepted. -/
lemma accepted_narrowCopy :
    (Event.copyBufferRect (buffer 0) (buffer 1) narrowCopy.rect).Accepted ∧
      (Event.copyBufferRect (buffer 0) (buffer 1) crossRowCopy.rect).Accepted := by
  refine ⟨⟨narrowCopy, rfl, rfl, ?_⟩, ⟨crossRowCopy, rfl, rfl, ?_⟩⟩
  all_goals
    unfold construct copyBufferRectEvent readWriteCopyBufferRectEvent
    simp only [inBytes_one]
    rfl

/-- The windows of the narrow copy hold what it reads and writes. -/
theorem windows_cover_narrowCopy :
    (Event.copyBufferRect (buffer 0) (buffer 1) narrowCopy.rect).Accepted ∧
      ∀ b ∈ (twoBuffers false).deviceBoxes (buffer 0) (buffer 1) narrowCopy.rect,
        b.1.SizeOk ∧ ∀ s ∈ b.1.slices b.2, s.accessed ⊆ s.window := by
  refine ⟨accepted_narrowCopy.1, (windows_cover_iff (by decide) (twoBuffers false) (buffer 0) (buffer 1)
    narrowCopy.rect accepted_narrowCopy.1).mpr ?_⟩
  intro b hb
  rcases List.mem_pair.mp hb with rfl | rfl
  · exact ⟨by decide, by decide, by decide⟩
  · exact ⟨by decide, by decide, by decide⟩

/-- The last two bytes of the second row are outside of the window. -/
theorem not_windows_cover :
    (Event.copyBufferRect (buffer 0) (buffer 1) crossRowCopy.rect).Accepted ∧
      ∃ b ∈ (twoBuffers false).deviceBoxes (buffer 0) (buffer 1) crossRowCopy.rect,
        ∃ s ∈ b.1.slices b.2, ¬s.accessed ⊆ s.window := by
  refine ⟨accepted_narrowCopy.2, _, List.mem_cons_self, _, List.mem_cons_self, ?_⟩
  intro hsub
  have hlast : 0x1009 ∈ Set.Ico 0x1002 (0x1002 + 6) :=
    hsub (a := 0x1009) ⟨1, by decide, 3, by decide, by decide⟩
  exact absurd hlast.2 (by decide)

end Storage

end TiOpenCL
