import Mathlib.Data.List.ProdSigma
import TiOpenCL.Transfers.Storage

/-!
# Copies inside one buffer

`CopyBufferEvent` and `CopyBufferRectEvent` reject a copy whose source and destination overlap.  The
test is made for one and the same buffer only, not for two sub-buffers of one parent, it takes equal
offsets and equal coordinates for apart, and it looks at each dimension for itself.  What the worker
reads and what it writes have no byte in common if and only if every row that is read is apart from
every row that is written.
-/

namespace TiOpenCL

namespace BufferRect

variable {w : ℕ}

/-- The start of a row of the box: the first address of the loops over slices and rows and the pitches
that they have added to it. -/
def Box.rowStart (b : Box w) (y z : ℕ) : BitVec 64 :=
  (b.origin 2 * b.slicePitch + b.origin 1 * b.rowPitch + b.origin 0).setWidth 64 +
    BitVec.ofNat 64 (z * b.slicePitch.toNat) + BitVec.ofNat 64 (y * b.rowPitch.toNat)

/-- The starts of all rows of the box. -/
def Box.rowStarts (b : Box w) : List (BitVec 64) :=
  ((List.range (b.region 2).toNat) ×ˢ (List.range (b.region 1).toNat)).map fun q => b.rowStart q.2 q.1

/-- The bytes of a box that does not cross rows and slices are words. -/
lemma Box.Straight.index_lt {b : Box w} (hb : b.Straight) {x y z : ℕ} (hx : x < (b.region 0).toNat)
    (hy : y < (b.region 1).toNat) (hz : z < (b.region 2).toNat) : b.index x y z < 2 ^ w := by
  have hrow : ((b.origin 1).toNat + y + 1) * b.rowPitch.toNat ≤ b.slicePitch.toNat :=
    (Nat.mul_le_mul_right _ (by omega)).trans hb.slice
  have hslice : ((b.origin 2).toNat + z + 1) * b.slicePitch.toNat < 2 ^ w :=
    (Nat.mul_le_mul_right _ (by omega)).trans_lt hb.word
  rw [Nat.succ_mul] at hrow hslice
  have hwidth := hb.row
  unfold Box.index
  omega

/-- The coordinates of a box that does not cross rows and slices are words. -/
lemma Box.Straight.origin_add_lt {b : Box w} (hb : b.Straight) (hregion : ∀ i, b.region i ≠ 0) (i : Fin 3) :
    (b.origin i).toNat + (b.region i).toNat < 2 ^ w := by
  have h0 := toNat_pos (hregion 0)
  have h1 := toNat_pos (hregion 1)
  have hrow : 0 < b.rowPitch.toNat := lt_of_lt_of_le (by omega) hb.row
  have hslice : 0 < b.slicePitch.toNat := lt_of_lt_of_le (Nat.mul_pos (by omega) hrow) hb.slice
  match i with
  | 0 => exact hb.row.trans_lt b.rowPitch.isLt
  | 1 => exact (Nat.le_mul_of_pos_right _ hrow).trans_lt (hb.slice.trans_lt b.slicePitch.isLt)
  | 2 => exact (Nat.le_mul_of_pos_right _ hslice).trans_lt hb.word

end BufferRect

namespace Storage

open ByteMoves BufferRect

variable {w : ℕ} {size : ℕ → BitVec w}

/-! ### What a transfer reads and writes -/

/-- The addresses that the worker reads. -/
def Layout.readAddresses (L : Layout size) (e : Event w) : Set Address :=
  fun a => ∃ v ∈ L.dispatch e, a ∈ v.src.cells

/-- The addresses that the worker writes. -/
def Layout.writtenAddresses (L : Layout size) (e : Event w) : Set Address :=
  fun a => ∃ v ∈ L.dispatch e, v.dst = a

/-- No byte is both read and written. -/
def Layout.Apart (L : Layout size) (e : Event w) : Prop :=
  Disjoint (L.readAddresses e) (L.writtenAddresses e)

/-- The pointer to a buffer on the path of its memory. -/
def Layout.pointer (L : Layout size) (x : Buffer w) : Address :=
  if L.useHostPtr x.root then L.hostPtr x else L.data x

/-- The pointer is at the offset of a sub-buffer in its parent. -/
lemma Layout.pointer_eq (L : Layout size) (x : Buffer w) :
    L.pointer x = (L.space x.root, L.base x.root + x.offset.setWidth 64) := by
  unfold Layout.pointer Layout.space
  split
  · rfl
  · rfl

/-- The addresses that are read by copies of `n` bytes. -/
lemma mem_cells_flatMap {ι : Type*} {l : List ι} {p q : ι → Address} {n : ℕ} {a : Address} :
    (∃ v ∈ l.flatMap fun k => memcpy (p k) (q k) n, a ∈ v.src.cells) ↔
      ∃ k ∈ l, ∃ i < n, a = offsetBy (q k) (BitVec.ofNat 64 i) := by
  simp only [memcpy, List.mem_flatMap, List.mem_map, List.mem_range]
  constructor
  · rintro ⟨v, ⟨k, hk, i, hi, rfl⟩, ha⟩
    exact ⟨k, hk, i, hi, List.mem_singleton.mp ha⟩
  · rintro ⟨k, hk, i, hi, rfl⟩
    exact ⟨_, ⟨k, hk, i, hi, rfl⟩, List.mem_singleton_self _⟩

/-- The addresses that are written by copies of `n` bytes. -/
lemma mem_dst_flatMap {ι : Type*} {l : List ι} {p q : ι → Address} {n : ℕ} {a : Address} :
    (∃ v ∈ l.flatMap fun k => memcpy (p k) (q k) n, v.dst = a) ↔
      ∃ k ∈ l, ∃ i < n, a = offsetBy (p k) (BitVec.ofNat 64 i) := by
  simp only [memcpy, List.mem_flatMap, List.mem_map, List.mem_range]
  constructor
  · rintro ⟨v, ⟨k, hk, i, hi, rfl⟩, rfl⟩
    exact ⟨k, hk, i, hi, rfl⟩
  · rintro ⟨k, hk, i, hi, rfl⟩
    exact ⟨_, ⟨k, hk, i, hi, rfl⟩, rfl⟩

/-- The worker copies one run. -/
lemma Layout.dispatch_copyBuffer (L : Layout size) (x y : Buffer w) (srcOffset dstOffset cb : BitVec w) :
    L.dispatch (.copyBuffer x y srcOffset dstOffset cb) =
      [()].flatMap fun _ => memcpy (offsetBy (L.pointer y) (dstOffset.setWidth 64))
        (offsetBy (L.pointer x) (srcOffset.setWidth 64)) cb.toNat := by
  unfold Layout.dispatch Layout.pointer
  simp only [List.flatMap_singleton, apply_ite (offsetBy · (srcOffset.setWidth 64)), apply_ite (offsetBy · (dstOffset.setWidth 64))]

/-! ### Rows of bytes -/

/-- The addresses of rows of `n` bytes, given by where the rows start in a buffer. -/
def rowsOf (space : Space) (base : BitVec 64) (rows : List (BitVec 64)) (n : ℕ) : Set Address :=
  fun a => ∃ row ∈ rows, ∃ i < n, a = (space, base + row + BitVec.ofNat 64 i)

/-- The distance of two addresses in one buffer does not depend on where the buffer is. -/
lemma separated_add_left {v n : ℕ} (c a b : BitVec v) :
    Separated n (c + a) (c + b) ↔ Separated n a b := by
  unfold Separated
  rw [add_sub_add_left_eq_sub, add_sub_add_left_eq_sub]

/-- Rows of one buffer have no byte in common if and only if any two of them start far enough from
each other. -/
lemma disjoint_rowsOf_iff {space : Space} {base : BitVec 64} {rows rows' : List (BitVec 64)} {n : ℕ} :
    Disjoint (rowsOf space base rows n) (rowsOf space base rows' n) ↔
      ∀ row ∈ rows, ∀ row' ∈ rows', Separated n row row' := by
  rw [Set.disjoint_left]
  constructor
  · intro hdisj row hrow row' hrow'
    rw [← separated_add_left base, separated_iff]
    intro i hi j hj heq
    exact hdisj ⟨row, hrow, i, hi, rfl⟩ ⟨row', hrow', j, hj, by rw [heq]⟩
  · rintro hsep a ⟨row, hrow, i, hi, rfl⟩ ⟨row', hrow', j, hj, heq⟩
    have hne := hsep row hrow row' hrow'
    rw [← separated_add_left base, separated_iff] at hne
    exact hne i hi j hj (Prod.mk.inj heq).2

/-- The rows that the worker copies are those of the box. -/
lemma rowAddresses_eq_map (b : Box w) (data : BitVec 64) :
    b.rowAddresses data = ((List.range (b.region 2).toNat) ×ˢ (List.range (b.region 1).toNat)).map
      fun q => data + b.rowStart q.2 q.1 := by
  simp only [Box.rowAddresses, SProd.sprod, List.product, List.map_flatMap, List.map_map,
    ← List.range_map_iterate, List.flatMap_map]
  refine List.flatMap_congr fun z _ => List.map_congr_left fun y _ => ?_
  rw [iterate_pitch, iterate_pitch]
  simp only [Function.comp_apply, Box.rowStart, BitVec.add_assoc]

/-- What a copy inside one parent reads and writes, as rows of the parent. -/
lemma Layout.addresses_copyBuffer (L : Layout size) {x y : Buffer w} (hroot : x.root = y.root)
    (srcOffset dstOffset cb : BitVec w) :
    L.readAddresses (.copyBuffer x y srcOffset dstOffset cb) =
        rowsOf (L.space x.root) (L.base x.root) [x.offset.setWidth 64 + srcOffset.setWidth 64]
          cb.toNat ∧
      L.writtenAddresses (.copyBuffer x y srcOffset dstOffset cb) =
        rowsOf (L.space x.root) (L.base x.root) [y.offset.setWidth 64 + dstOffset.setWidth 64]
          cb.toNat := by
  constructor
  · ext a
    show (∃ v ∈ L.dispatch _, _) ↔ ∃ row ∈ _, _
    rw [L.dispatch_copyBuffer, mem_cells_flatMap, L.pointer_eq]
    simp only [offsetBy, List.mem_singleton, true_and, exists_const, exists_eq_left, add_assoc]
  · ext a
    show (∃ v ∈ L.dispatch _, _) ↔ ∃ row ∈ _, _
    rw [L.dispatch_copyBuffer, mem_dst_flatMap, L.pointer_eq, ← hroot]
    simp only [offsetBy, List.mem_singleton, true_and, exists_const, exists_eq_left, add_assoc]

/-- The rows of a box in a sub-buffer, as rows of the parent. -/
def parentRows (x : Buffer w) (b : Box w) : List (BitVec 64) :=
  b.rowStarts.map (x.offset.setWidth 64 + ·)

/-- What a rectangular copy inside one parent reads and writes, as rows of the parent. -/
lemma Layout.addresses_copyBufferRect (L : Layout size) {x y : Buffer w} (hroot : x.root = y.root)
    (e : Rect w) :
    L.readAddresses (.copyBufferRect x y e) =
        rowsOf (L.space x.root) (L.base x.root) (parentRows x (e.srcBox x.toMemObject))
          (e.region 0).toNat ∧
      L.writtenAddresses (.copyBufferRect x y e) =
        rowsOf (L.space x.root) (L.base x.root) (parentRows y (e.dstBox y.toMemObject))
          (e.region 0).toNat := by
  have hmoves : L.dispatch (.copyBufferRect x y e) =
      ((List.range (e.region 2).toNat) ×ˢ (List.range (e.region 1).toNat)).flatMap fun q =>
        memcpy ((L.pointer y).1, (L.pointer y).2 + (e.dstBox y.toMemObject).rowStart q.2 q.1)
          ((L.pointer x).1, (L.pointer x).2 + (e.srcBox x.toMemObject).rowStart q.2 q.1)
          (e.region 0).toNat := by
    show copyRows (L.pointer y) (L.pointer x) _ _ = _
    rw [copyRows, rowAddresses_eq_map, rowAddresses_eq_map]
    show List.flatMap _ (List.zip (List.map _ ((List.range (e.region 2).toNat) ×ˢ
      (List.range (e.region 1).toNat))) (List.map _ ((List.range (e.region 2).toNat) ×ˢ
      (List.range (e.region 1).toNat)))) = _
    rw [List.zip_map', List.flatMap_map]
    rfl
  constructor
  · ext a
    show (∃ v ∈ L.dispatch _, _) ↔ ∃ row ∈ _, _
    rw [hmoves, mem_cells_flatMap, L.pointer_eq]
    simp only [offsetBy, parentRows, Box.rowStarts, List.map_map, List.mem_map, exists_exists_and_eq_and,
      Function.comp_apply, add_assoc]
    rfl
  · ext a
    show (∃ v ∈ L.dispatch _, _) ↔ ∃ row ∈ _, _
    rw [hmoves, mem_dst_flatMap, L.pointer_eq, ← hroot]
    simp only [offsetBy, parentRows, Box.rowStarts, List.map_map, List.mem_map, exists_exists_and_eq_and,
      Function.comp_apply, add_assoc]
    rfl

/-- A copy inside one parent reads and writes apart if and only if its two ranges start far enough
from each other. -/
lemma Layout.apart_copyBuffer_iff (L : Layout size) {x y : Buffer w} (hroot : x.root = y.root)
    (srcOffset dstOffset cb : BitVec w) :
    L.Apart (.copyBuffer x y srcOffset dstOffset cb) ↔
      Separated cb.toNat (x.offset.setWidth 64 + srcOffset.setWidth 64)
        (y.offset.setWidth 64 + dstOffset.setWidth 64) := by
  obtain ⟨hread, hwritten⟩ := L.addresses_copyBuffer hroot srcOffset dstOffset cb
  rw [Layout.Apart, hread, hwritten, disjoint_rowsOf_iff]
  simp only [List.mem_singleton, forall_eq]

/-- A rectangular copy inside one parent reads and writes apart if and only if any row that is read
and any row that is written start far enough from each other. -/
lemma Layout.apart_copyBufferRect_iff (L : Layout size) {x y : Buffer w} (hroot : x.root = y.root)
    (e : Rect w) :
    L.Apart (.copyBufferRect x y e) ↔
      ∀ j j' k k', j < (e.region 1).toNat → j' < (e.region 1).toNat → k < (e.region 2).toNat →
        k' < (e.region 2).toNat →
        Separated (e.region 0).toNat
          (x.offset.setWidth 64 + (e.srcBox x.toMemObject).rowStart j k)
          (y.offset.setWidth 64 + (e.dstBox y.toMemObject).rowStart j' k') := by
  obtain ⟨hread, hwritten⟩ := L.addresses_copyBufferRect hroot e
  rw [Layout.Apart, hread, hwritten, disjoint_rowsOf_iff]
  simp only [parentRows, Box.rowStarts, List.forall_mem_map, Prod.forall]
  constructor
  · intro hsep j j' k k' hj hj' hk hk'
    refine hsep k j ?_ k' j' ?_
    · exact List.mem_product.mpr ⟨List.mem_range.mpr hk, List.mem_range.mpr hj⟩
    · exact List.mem_product.mpr ⟨List.mem_range.mpr hk', List.mem_range.mpr hj'⟩
  · intro hsep k j hsrc k' j' hdst
    obtain ⟨hk, hj⟩ := List.mem_product.mp hsrc
    obtain ⟨hk', hj'⟩ := List.mem_product.mp hdst
    rw [List.mem_range] at hk hj hk' hj'
    exact hsep j j' k k' hj hj' hk hk'

/-! ### The test for overlaps -/

/-- Two addresses, the first one below the second. -/
lemma separated_iff_of_lt {v n : ℕ} {a b : BitVec v} (h : a.toNat < b.toNat) :
    Separated n a b ↔ n ≤ b.toNat - a.toNat ∧ b.toNat + n ≤ 2 ^ v + a.toNat := by
  have hb := b.isLt
  have hup : (b - a).toNat = b.toNat - a.toNat := BitVec.toNat_sub_of_le (BitVec.le_def.mpr h.le)
  have hdown : (a - b).toNat = 2 ^ v - b.toNat + a.toNat := by
    rw [BitVec.toNat_sub, Nat.mod_eq_of_lt (by omega)]
  rw [Separated, hup, hdown]
  omega

/-- The linear test on two offsets that differ: it finds an overlap unless the end of the lower range
wraps around. -/
lemma separated_of_test (hw : w ≤ 64) {a b cb : BitVec w} (h : a < b) (htest : ¬b < a + cb) :
    Separated cb.toNat (a.setWidth 64) (b.setWidth 64) ↔
      a.toNat + cb.toNat < 2 ^ w ∧ b.toNat + cb.toNat ≤ 2 ^ 64 + a.toNat := by
  have hlt : a.toNat < b.toNat := BitVec.lt_def.mp h
  have ha : (a.setWidth 64).toNat = a.toNat := BitVec.toNat_setWidth_of_le hw
  have hb : (b.setWidth 64).toNat = b.toNat := BitVec.toNat_setWidth_of_le hw
  rw [separated_iff_of_lt (by rw [ha, hb]; exact hlt), ha, hb, and_congr_left_iff]
  intro _
  have hword := b.isLt
  constructor
  · intro hle
    omega
  · intro hfit
    rw [BitVec.lt_def, BitVec.toNat_add, Nat.mod_eq_of_lt hfit] at htest
    omega

/-- A copy inside one buffer that is accepted reads and writes apart if and only if its offsets differ
and its ranges do not wrap around. -/
lemma Layout.apart_copyBuffer_self_iff (hw : w ≤ 64) (L : Layout size) {x : Buffer w}
    {srcOffset dstOffset cb : BitVec w} (hcb : cb ≠ 0)
    (hacc : (Event.copyBuffer x x srcOffset dstOffset cb).Accepted) :
    L.Apart (.copyBuffer x x srcOffset dstOffset cb) ↔
      srcOffset ≠ dstOffset ∧ min srcOffset.toNat dstOffset.toNat + cb.toNat < 2 ^ w ∧
        max srcOffset.toNat dstOffset.toNat + cb.toNat ≤
          2 ^ 64 + min srcOffset.toNat dstOffset.toNat := by
  obtain ⟨q, hq⟩ := hacc
  obtain ⟨hup, hdown⟩ := (copyBufferEvent_ok hq).2.2 rfl
  rw [L.apart_copyBuffer_iff rfl, separated_add_left]
  rcases Nat.lt_trichotomy srcOffset.toNat dstOffset.toNat with hlt | heq | hgt
  · have hne : srcOffset ≠ dstOffset := fun heq => hlt.ne (congrArg BitVec.toNat heq)
    rw [separated_of_test hw hlt fun hover => hup ⟨hlt, hover⟩, min_eq_left hlt.le,
      max_eq_right hlt.le]
    exact (and_iff_right hne).symm
  · obtain rfl := BitVec.eq_of_toNat_eq heq
    have hpos := toNat_pos hcb
    refine iff_of_false (fun hsep => ?_) (fun hne => hne.1 rfl)
    have hzero := hsep.1
    rw [BitVec.sub_self, BitVec.toNat_zero] at hzero
    omega
  · have hne : srcOffset ≠ dstOffset := fun heq => hgt.ne' (congrArg BitVec.toNat heq)
    have hsymm : ∀ a b : BitVec 64, Separated cb.toNat a b ↔ Separated cb.toNat b a :=
      fun a b => ⟨Separated.symm, Separated.symm⟩
    rw [hsymm, separated_of_test hw hgt fun hover => hdown ⟨hgt, hover⟩, min_eq_right hgt.le,
      max_eq_left hgt.le]
    exact (and_iff_right hne).symm

/-! ### Boxes of one shape that do not cross rows and slices -/

/-- The start of a row whose offset does not wrap around. -/
lemma rowStart_eq {b : Box w} (hb : b.index 0 0 0 < 2 ^ w) (y z : ℕ) :
    b.rowStart y z = BitVec.ofNat 64 (b.index 0 y z) := by
  have hoffset : (b.origin 2 * b.slicePitch + b.origin 1 * b.rowPitch + b.origin 0).toNat =
      b.index 0 0 0 := by
    simp only [BitVec.toNat_add, BitVec.toNat_mul]
    rw [← Nat.add_mod, Nat.mod_add_mod]
    exact Nat.mod_eq_of_lt hb
  have hindex : b.index 0 y z = b.index 0 0 0 + z * b.slicePitch.toNat + y * b.rowPitch.toNat := by
    unfold Box.index
    ring
  rw [Box.rowStart, ← ofNat_toNat_word, hoffset, hindex, BitVec.ofNat_add, BitVec.ofNat_add]

/-- A number in mixed radix has one digit of each place. -/
lemma eq_of_mixed_radix {P Q X Y Z X' Y' Z' : ℕ} (hX : X < P) (hX' : X' < P) (hY : (Y + 1) * P ≤ Q)
    (hY' : (Y' + 1) * P ≤ Q) (heq : Z * Q + Y * P + X = Z' * Q + Y' * P + X') :
    X = X' ∧ Y = Y' ∧ Z = Z' := by
  rw [Nat.succ_mul] at hY hY'
  have hlow : Y * P + X < Q := by omega
  have hlow' : Y' * P + X' < Q := by omega
  have hZ : Z = Z' := by
    have hdiv : ∀ k r, r < Q → (k * Q + r) / Q = k := fun k r hr => by
      rw [Nat.mul_comm, Nat.mul_add_div (by omega), Nat.div_eq_of_lt hr, Nat.add_zero]
    rw [← hdiv Z _ hlow, ← hdiv Z' _ hlow', ← Nat.add_assoc, ← Nat.add_assoc, heq]
  subst hZ
  have hY₀ : Y * P + X = Y' * P + X' := by omega
  have hYY : Y = Y' := by
    have hdiv : ∀ k r, r < P → (k * P + r) / P = k := fun k r hr => by
      rw [Nat.mul_comm, Nat.mul_add_div (by omega), Nat.div_eq_of_lt hr, Nat.add_zero]
    rw [← hdiv Y _ hX, ← hdiv Y' _ hX', hY₀]
  subst hYY
  exact ⟨by omega, rfl, rfl⟩

/-- The test of one dimension finds an overlap unless the coordinates are equal. -/
lemma apart_dimension_iff {e : Rect w} {i : Fin 3} (hregion : e.region i ≠ 0)
    (hsrc : (e.srcOrigin i).toNat + (e.region i).toNat < 2 ^ w)
    (hdst : (e.dstOrigin i).toNat + (e.region i).toNat < 2 ^ w) :
    e.srcOrigin i ≠ e.dstOrigin i ∧ ¬e.Overlaps i ↔
      (e.srcOrigin i).toNat + (e.region i).toNat ≤ (e.dstOrigin i).toNat ∨
        (e.dstOrigin i).toNat + (e.region i).toNat ≤ (e.srcOrigin i).toNat := by
  have hpos := toNat_pos hregion
  have hne : e.srcOrigin i ≠ e.dstOrigin i ↔ (e.srcOrigin i).toNat ≠ (e.dstOrigin i).toNat :=
    not_congr BitVec.toNat_inj.symm
  rw [hne, Rect.Overlaps, BitVec.lt_def, BitVec.lt_def, BitVec.lt_def, BitVec.lt_def, BitVec.toNat_add,
    BitVec.toNat_add, Nat.mod_eq_of_lt hsrc, Nat.mod_eq_of_lt hdst]
  omega

/-- A rectangular copy whose offsets do not wrap around reads and writes apart if and only if no byte
of one box is a byte of the other. -/
lemma Layout.apart_copyBufferRect_index_iff (hw : w ≤ 64) (L : Layout size) {x : Buffer w} {e : Rect w}
    (hregion : ∀ i, e.region i ≠ 0) (hsrc : (e.srcBox x.toMemObject).Straight)
    (hdst : (e.dstBox x.toMemObject).Straight) :
    L.Apart (.copyBufferRect x x e) ↔
      ∀ i i' j j' k k', i < (e.region 0).toNat → i' < (e.region 0).toNat → j < (e.region 1).toNat →
        j' < (e.region 1).toNat → k < (e.region 2).toNat → k' < (e.region 2).toNat →
        (e.srcBox x.toMemObject).index i j k ≠ (e.dstBox x.toMemObject).index i' j' k' := by
  have hword : (2 : ℕ) ^ w ≤ 2 ^ 64 := Nat.pow_le_pow_right (by omega) hw
  have hzero : ∀ b : Box w, b.Straight → (∀ i, b.region i ≠ 0) → b.index 0 0 0 < 2 ^ w :=
    fun b hb hr => hb.index_lt (toNat_pos (hr 0)) (toNat_pos (hr 1)) (toNat_pos (hr 2))
  have hbyte : ∀ b : Box w, b.Straight → (∀ i, b.region i ≠ 0) → ∀ i j k,
      b.rowStart j k + BitVec.ofNat 64 i = BitVec.ofNat 64 (b.index i j k) := by
    intro b hb hr i j k
    rw [rowStart_eq (hzero b hb hr), index_eq b i, BitVec.ofNat_add]
  have hinj : ∀ m n : ℕ, m < 2 ^ w → n < 2 ^ w → (BitVec.ofNat 64 m = BitVec.ofNat 64 n ↔ m = n) := by
    intro m n hm hn
    rw [← BitVec.toNat_inj, BitVec.toNat_ofNat, BitVec.toNat_ofNat,
      Nat.mod_eq_of_lt (hm.trans_le hword), Nat.mod_eq_of_lt (hn.trans_le hword)]
  rw [L.apart_copyBufferRect_iff rfl]
  simp only [separated_add_left]
  simp only [separated_iff]
  constructor
  · intro hsep i i' j j' k k' hi hi' hj hj' hk hk' heq
    refine hsep j j' k k' hj hj' hk hk' i hi i' hi' ?_
    rw [hbyte _ hsrc hregion, hbyte _ hdst hregion, heq]
  · intro hne j j' k k' hj hj' hk hk' i hi i' hi' heq
    rw [hbyte _ hsrc hregion, hbyte _ hdst hregion,
      hinj _ _ (hsrc.index_lt hi hj hk) (hdst.index_lt hi' hj' hk')] at heq
    exact hne i i' j j' k k' hi hi' hj hj' hk hk' heq

/-- A byte is in both boxes if and only if its coordinates are. -/
lemma index_eq_iff {e : Rect w} {m : MemObject w} (hrow : e.srcRowPitch = e.dstRowPitch)
    (hslice : e.srcSlicePitch = e.dstSlicePitch) (hsrc : (e.srcBox m).Straight)
    (hdst : (e.dstBox m).Straight) {i i' j j' k k' : ℕ} (hi : i < (e.region 0).toNat)
    (hi' : i' < (e.region 0).toNat) (hj : j < (e.region 1).toNat) (hj' : j' < (e.region 1).toNat) :
    (e.srcBox m).index i j k = (e.dstBox m).index i' j' k' ↔
      (e.srcOrigin 0).toNat + i = (e.dstOrigin 0).toNat + i' ∧
        (e.srcOrigin 1).toNat + j = (e.dstOrigin 1).toNat + j' ∧
        (e.srcOrigin 2).toNat + k = (e.dstOrigin 2).toNat + k' := by
  have hsrcRow : (e.srcOrigin 0).toNat + (e.region 0).toNat ≤ e.srcRowPitch.toNat := hsrc.row
  have hdstRow : (e.dstOrigin 0).toNat + (e.region 0).toNat ≤ e.dstRowPitch.toNat := hdst.row
  have hlast : ∀ o n r : ℕ, n < r → o + n + 1 ≤ o + r := by omega
  have hsrcSlice : ((e.srcOrigin 1).toNat + j + 1) * e.srcRowPitch.toNat ≤ e.srcSlicePitch.toNat :=
    (Nat.mul_le_mul_right _ (hlast _ _ _ hj)).trans hsrc.slice
  have hdstSlice : ((e.dstOrigin 1).toNat + j' + 1) * e.dstRowPitch.toNat ≤ e.dstSlicePitch.toNat :=
    (Nat.mul_le_mul_right _ (hlast _ _ _ hj')).trans hdst.slice
  rw [← hrow] at hdstRow hdstSlice
  rw [← hslice] at hdstSlice
  simp only [Box.index, Rect.srcBox, Rect.dstBox, ← hrow, ← hslice, Nat.add_assoc _ _ i,
    Nat.add_assoc _ _ i']
  constructor
  · intro heq
    exact eq_of_mixed_radix (by omega) (by omega) hsrcSlice hdstSlice (by omega)
  · rintro ⟨h0, h1, h2⟩
    rw [h1, h2]
    omega

/-- Two boxes of one shape in one buffer that do not cross rows and slices: an accepted copy reads and
writes apart if and only if the test saw them apart in a dimension in which their origins differ. -/
lemma Layout.apart_copyBufferRect_straight_iff (hw : w ≤ 64) (L : Layout size) {x : Buffer w}
    {e : Rect w} (hacc : (Event.copyBufferRect x x e).Accepted)
    (hrow : e.srcRowPitch = e.dstRowPitch) (hslice : e.srcSlicePitch = e.dstSlicePitch)
    (hsrc : (e.srcBox x.toMemObject).Straight) (hdst : (e.dstBox x.toMemObject).Straight) :
    L.Apart (.copyBufferRect x x e) ↔ ∃ i, e.srcOrigin i ≠ e.dstOrigin i ∧ ¬e.Overlaps i := by
  obtain ⟨r, -, -, hr⟩ := hacc
  have hregion := region_ne_zero hr
  have hdim := fun i => apart_dimension_iff (hregion i) (hsrc.origin_add_lt hregion i)
    (hdst.origin_add_lt hregion i)
  rw [L.apart_copyBufferRect_index_iff hw hregion hsrc hdst]
  simp only [hdim]
  constructor
  · intro hne
    by_contra hcon
    simp only [not_exists, not_or, not_le] at hcon
    -- The larger one of the two origins is in both boxes, in each dimension.
    have hboth : ∀ d, ∃ i < (e.region d).toNat, ∃ i' < (e.region d).toNat,
        (e.srcOrigin d).toNat + i = (e.dstOrigin d).toNat + i' := by
      intro d
      have hover := hcon d
      refine ⟨(e.dstOrigin d).toNat - (e.srcOrigin d).toNat, by omega,
        (e.srcOrigin d).toNat - (e.dstOrigin d).toNat, by omega, by omega⟩
    obtain ⟨i, hi, i', hi', h0⟩ := hboth 0
    obtain ⟨j, hj, j', hj', h1⟩ := hboth 1
    obtain ⟨k, hk, k', hk', h2⟩ := hboth 2
    refine hne i i' j j' k k' hi hi' hj hj' hk hk' ?_
    exact (index_eq_iff hrow hslice hsrc hdst hi hi' hj hj').mpr ⟨h0, h1, h2⟩
  · rintro ⟨d, hd⟩ i i' j j' k k' hi hi' hj hj' hk hk' heq
    obtain ⟨h0, h1, h2⟩ := (index_eq_iff hrow hslice hsrc hdst hi hi' hj hj').mp heq
    match d, hd with
    | 0, hd => omega
    | 1, hd => omega
    | 2, hd => omega

/-! ### Accepted copies -/

end Storage

end TiOpenCL
