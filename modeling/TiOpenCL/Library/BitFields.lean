import Mathlib.Data.Int.ModEq
import Mathlib.Logic.Function.Basic
import Mathlib.Tactic.Linarith

/-!
# Bit fields of words in byte addressed memory

Words of four bytes, halfwords and bytes of a memory in either byte order, and bit fields inside a
word.  A memory bit is named by its address and its place in the byte, so that a frame condition can
be stated bit by bit (`getLsbD_storeWord_of_agree`).

`insertField` is the usual read-modify-write of a field, with the mask and the value given apart: it
reads back what was put in when the value fits the mask (`extractLsb'_insertField`).
-/

namespace TiOpenCL.BitFields

/-- The order of the bytes of a word in memory. -/
inductive ByteOrder where
  | little
  | big
  deriving DecidableEq, Repr

/-- The other byte order. -/
def ByteOrder.flip : ByteOrder → ByteOrder
  | .little => .big
  | .big => .little

/-- Byte addressed memory. -/
abbrev Memory := ℕ → BitVec 8

/-- The place, counted from the low end, of the `k`-th byte of an item of `n` bytes.  The map is its
own inverse. -/
def ByteOrder.lane (o : ByteOrder) (n k : ℕ) : ℕ :=
  match o with
  | .little => k
  | .big => n - 1 - k

/-- A byte of a word, counted from the low end. -/
def byteOf {w : ℕ} (x : BitVec w) (k : ℕ) : BitVec 8 := x.extractLsb' (8 * k) 8

/-- The word of four bytes at an address. -/
def loadWord (o : ByteOrder) (m : Memory) (a : ℕ) : BitVec 32 :=
  m (a + o.lane 4 3) ++ m (a + o.lane 4 2) ++ m (a + o.lane 4 1) ++ m (a + o.lane 4 0)

/-- The halfword at an address. -/
def loadHalf (o : ByteOrder) (m : Memory) (a : ℕ) : BitVec 16 :=
  m (a + o.lane 2 1) ++ m (a + o.lane 2 0)

/-- The memory after the `n` bytes of an item are stored at an address. -/
def store {w : ℕ} (o : ByteOrder) (n : ℕ) (m : Memory) (a : ℕ) (x : BitVec w) : Memory :=
  fun b => if a ≤ b ∧ b < a + n then byteOf x (o.lane n (b - a)) else m b

/-! ### Bytes and bits -/

@[simp] lemma ByteOrder.flip_flip (o : ByteOrder) : o.flip.flip = o := by
  cases o <;> rfl

/-- A lane is one of the item's bytes. -/
lemma ByteOrder.lane_lt (o : ByteOrder) {n k : ℕ} (h : k < n) : o.lane n k < n := by
  cases o
  · exact h
  · simp only [lane]
    omega

/-- Taking the lane twice gives the byte back. -/
@[simp] lemma ByteOrder.lane_lane (o : ByteOrder) {n k : ℕ} (h : k < n) :
    o.lane n (o.lane n k) = k := by
  cases o
  · rfl
  · simp only [lane]
    omega

/-- The other order counts from the other end. -/
lemma ByteOrder.lane_flip (o : ByteOrder) {n k : ℕ} (h : k < n) :
    o.flip.lane n k = n - 1 - o.lane n k := by
  cases o
  · rfl
  · simp only [lane, flip]
    omega

/-- A bit of a byte of a word. -/
lemma getLsbD_byteOf {w : ℕ} (x : BitVec w) {k i : ℕ} (hi : i < 8) :
    (byteOf x k).getLsbD i = x.getLsbD (8 * k + i) := by
  simp [byteOf, hi]

/-- The bytes that a store reaches. -/
lemma store_apply {w : ℕ} (o : ByteOrder) {n k : ℕ} (m : Memory) (a : ℕ) (x : BitVec w)
    (hk : k < n) : store o n m a x (a + k) = byteOf x (o.lane n k) := by
  rw [store, if_pos ⟨by omega, by omega⟩, Nat.add_sub_cancel_left]

/-- The bytes that a store leaves. -/
lemma store_apply_of_not_mem {w : ℕ} (o : ByteOrder) {n b : ℕ} (m : Memory) {a : ℕ} (x : BitVec w)
    (h : ¬(a ≤ b ∧ b < a + n)) : store o n m a x b = m b :=
  if_neg h

/-- A later store of the same bytes hides the earlier one. -/
lemma store_store {w w' : ℕ} (o o' : ByteOrder) (n : ℕ) (m : Memory) (a : ℕ) (x : BitVec w)
    (y : BitVec w') : store o n (store o' n m a x) a y = store o n m a y := by
  funext b
  by_cases h : a ≤ b ∧ b < a + n
  · rw [store, if_pos h, store, if_pos h]
  · rw [store_apply_of_not_mem _ _ _ h, store_apply_of_not_mem _ _ _ h,
      store_apply_of_not_mem _ _ _ h]

/-- A bit of a word in memory. -/
lemma getLsbD_loadWord (o : ByteOrder) (m : Memory) (a : ℕ) {k i : ℕ} (hk : k < 4) (hi : i < 8) :
    (loadWord o m a).getLsbD (8 * k + i) = (m (a + o.lane 4 k)).getLsbD i := by
  unfold loadWord
  simp only [BitVec.getLsbD_append]
  rcases (by omega : k = 0 ∨ k = 1 ∨ k = 2 ∨ k = 3) with rfl | rfl | rfl | rfl
  · rw [if_pos (by omega), Nat.mul_zero, Nat.zero_add]
  · rw [if_neg (by omega), if_pos (by omega), show 8 * 1 + i - 8 = i by omega]
  · rw [if_neg (by omega), if_neg (by omega), if_pos (by omega),
      show 8 * 2 + i - 8 - 8 = i by omega]
  · rw [if_neg (by omega), if_neg (by omega), if_neg (by omega),
      show 8 * 3 + i - 8 - 8 - 8 = i by omega]

/-- A bit of a halfword in memory. -/
lemma getLsbD_loadHalf (o : ByteOrder) (m : Memory) (a : ℕ) {k i : ℕ} (hk : k < 2) (hi : i < 8) :
    (loadHalf o m a).getLsbD (8 * k + i) = (m (a + o.lane 2 k)).getLsbD i := by
  unfold loadHalf
  simp only [BitVec.getLsbD_append]
  rcases (by omega : k = 0 ∨ k = 1) with rfl | rfl
  · rw [if_pos (by omega), Nat.mul_zero, Nat.zero_add]
  · rw [if_neg (by omega), show 8 * 1 + i - 8 = i by omega]

/-- Two items agree when their bytes do. -/
lemma eq_of_bytes {n : ℕ} {x y : BitVec (8 * n)}
    (h : ∀ k < n, ∀ i < 8, x.getLsbD (8 * k + i) = y.getLsbD (8 * k + i)) : x = y := by
  refine BitVec.eq_of_getLsbD_eq fun j hj => ?_
  have hbit := h (j / 8) (by omega) (j % 8) (by omega)
  rwa [Nat.div_add_mod] at hbit

/-- A stored word is read back. -/
@[simp] lemma loadWord_store (o : ByteOrder) (m : Memory) (a : ℕ) (x : BitVec 32) :
    loadWord o (store o 4 m a x) a = x := by
  refine eq_of_bytes (n := 4) fun k hk i hi => ?_
  rw [getLsbD_loadWord o _ a hk hi, store_apply o m a x (o.lane_lt hk), o.lane_lane hk,
    getLsbD_byteOf x hi]

/-- A stored halfword is read back. -/
@[simp] lemma loadHalf_store (o : ByteOrder) (m : Memory) (a : ℕ) (x : BitVec 16) :
    loadHalf o (store o 2 m a x) a = x := by
  refine eq_of_bytes (n := 2) fun k hk i hi => ?_
  rw [getLsbD_loadHalf o _ a hk hi, store_apply o m a x (o.lane_lt hk), o.lane_lane hk,
    getLsbD_byteOf x hi]

/-- A halfword depends on its two bytes. -/
lemma loadHalf_congr (o : ByteOrder) {m m' : Memory} {a : ℕ} (h : ∀ k < 2, m (a + k) = m' (a + k)) :
    loadHalf o m a = loadHalf o m' a := by
  rw [loadHalf, loadHalf, h _ (o.lane_lt (by decide)), h _ (o.lane_lt (by decide))]

/-- Storing a word back changes the bits in which it differs from the word that was there. -/
lemma getLsbD_storeWord_of_agree (o : ByteOrder) (m : Memory) (a : ℕ) (x : BitVec 32) {b i : ℕ}
    (hi : i < 8)
    (h : a ≤ b → b < a + 4 → x.getLsbD (8 * o.lane 4 (b - a) + i) =
      (loadWord o m a).getLsbD (8 * o.lane 4 (b - a) + i)) :
    (store o 4 m a x b).getLsbD i = (m b).getLsbD i := by
  by_cases hb : a ≤ b ∧ b < a + 4
  · have hk : b - a < 4 := by omega
    rw [store, if_pos hb, getLsbD_byteOf x hi, h hb.1 hb.2,
      getLsbD_loadWord o m a (o.lane_lt hk) hi, o.lane_lane hk, Nat.add_sub_cancel' hb.1]
  · rw [store_apply_of_not_mem o m x hb]

/-! ### Reversing the bytes of a word -/

/-- The word with its bytes in the other order. -/
def swapBytes (x : BitVec 32) : BitVec 32 :=
  byteOf x 0 ++ byteOf x 1 ++ byteOf x 2 ++ byteOf x 3

/-- A bit of the swapped word. -/
lemma getLsbD_swapBytes (x : BitVec 32) {k i : ℕ} (hk : k < 4) (hi : i < 8) :
    (swapBytes x).getLsbD (8 * k + i) = x.getLsbD (8 * (3 - k) + i) := by
  have h := getLsbD_loadWord .little (fun b => byteOf x (3 - b)) 0 hk hi
  rw [← getLsbD_byteOf x hi]
  simpa [loadWord, swapBytes, ByteOrder.lane] using h

/-- A word swapped is the word read in the other order. -/
lemma swapBytes_loadWord (o : ByteOrder) (m : Memory) (a : ℕ) :
    swapBytes (loadWord o m a) = loadWord o.flip m a := by
  refine eq_of_bytes (n := 4) fun k hk i hi => ?_
  rw [getLsbD_swapBytes _ hk hi, getLsbD_loadWord o m a (by omega) hi,
    getLsbD_loadWord o.flip m a hk hi, o.lane_flip hk]
  cases o <;> simp only [ByteOrder.lane]

/-- Storing a swapped word stores the word in the other order. -/
lemma store_swapBytes (o : ByteOrder) (m : Memory) (a : ℕ) (x : BitVec 32) :
    store o 4 m a (swapBytes x) = store o.flip 4 m a x := by
  funext b
  by_cases hb : a ≤ b ∧ b < a + 4
  · obtain ⟨k, rfl⟩ := Nat.exists_eq_add_of_le hb.1
    have hk : k < 4 := by omega
    rw [store_apply o m a _ hk, store_apply o.flip m a _ hk, o.lane_flip hk]
    refine BitVec.eq_of_getLsbD_eq fun i hi => ?_
    rw [getLsbD_byteOf _ hi, getLsbD_byteOf _ hi, getLsbD_swapBytes x (o.lane_lt hk) hi]
  · rw [store_apply_of_not_mem o m _ hb, store_apply_of_not_mem o.flip m _ hb]

/-! ### Fields -/

/-- The mask of a field of `n` bits that starts at bit `s`. -/
def fieldMask (n s : ℕ) : BitVec 32 := BitVec.ofNat 32 ((2 ^ n - 1) * 2 ^ s)

/-- A word whose masked bits are cleared and then joined with a value moved to the field. -/
def insertField (n s : ℕ) (w r : BitVec 32) : BitVec 32 := (w &&& ~~~fieldMask n s) ||| (r <<< s)

/-- The bits of a mask. -/
lemma getLsbD_fieldMask {n s i : ℕ} (hi : i < 32) :
    (fieldMask n s).getLsbD i = (decide (s ≤ i) && decide (i - s < n)) := by
  rw [fieldMask, BitVec.getLsbD_ofNat, Nat.testBit_mul_two_pow, Nat.testBit_two_pow_sub_one]
  simp [hi]

/-- The bits of a word after an insertion. -/
lemma getLsbD_insertField {n s i : ℕ} (w r : BitVec 32) (hi : i < 32) :
    (insertField n s w r).getLsbD i =
      (w.getLsbD i && !(decide (s ≤ i) && decide (i - s < n)) ||
        (!decide (i < s) && r.getLsbD (i - s))) := by
  rw [insertField, BitVec.getLsbD_or, BitVec.getLsbD_and, BitVec.getLsbD_not, getLsbD_fieldMask hi,
    BitVec.getLsbD_shiftLeft, decide_eq_true hi, Bool.true_and, Bool.true_and]

/-- A value of at most `n` bits. -/
lemma getLsbD_eq_false_of_lt {n i : ℕ} {r : BitVec 32} (hr : r.toNat < 2 ^ n) (hi : n ≤ i) :
    r.getLsbD i = false := by
  rw [BitVec.getLsbD]
  exact Nat.testBit_lt_two_pow (lt_of_lt_of_le hr (Nat.pow_le_pow_right (by decide) hi))

/-- An insertion of a value that fits leaves the bits outside the field. -/
lemma getLsbD_insertField_of_outside {n s k i : ℕ} {w r : BitVec 32} (hr : r.toNat < 2 ^ k)
    (hn : n ≤ k) (hi : i < 32) (h : ¬(s ≤ i ∧ i < s + k)) :
    (insertField n s w r).getLsbD i = w.getLsbD i := by
  rw [getLsbD_insertField w r hi]
  by_cases hs : s ≤ i
  · have hk : k ≤ i - s := by omega
    rw [getLsbD_eq_false_of_lt hr hk, decide_eq_false (by omega : ¬i - s < n)]
    simp
  · rw [decide_eq_false hs, decide_eq_true (by omega : i < s)]
    simp

/-- A value that fits its field is read back. -/
lemma extractLsb'_insertField {n s : ℕ} {w r : BitVec 32} (hr : r.toNat < 2 ^ n)
    (hs : s + n ≤ 32) : ((insertField n s w r).extractLsb' s n).toNat = r.toNat := by
  have hset : (insertField n s w r).extractLsb' s n = r.setWidth n := by
    refine BitVec.eq_of_getLsbD_eq fun i hi => ?_
    rw [BitVec.getLsbD_extractLsb', getLsbD_insertField w r (by omega), BitVec.getLsbD_setWidth,
      Nat.add_sub_cancel_left]
    simp [hi]
  rw [hset, BitVec.toNat_setWidth, Nat.mod_eq_of_lt hr]

/-- A byte of a word that is masked out and moved up. -/
lemma getLsbD_maskByte_shiftLeft (x : BitVec 32) (s d : ℕ) {j : ℕ} (hj : j < 32) :
    ((x &&& fieldMask 8 s) <<< d).getLsbD j =
      (decide (s + d ≤ j ∧ j < s + d + 8) && x.getLsbD (j - d)) := by
  rw [BitVec.getLsbD_shiftLeft, BitVec.getLsbD_and, getLsbD_fieldMask (by omega : j - d < 32)]
  by_cases h : s + d ≤ j ∧ j < s + d + 8
  · rw [decide_eq_true h, decide_eq_true hj, decide_eq_false (by omega : ¬j < d),
      decide_eq_true (by omega : s ≤ j - d), decide_eq_true (by omega : j - d - s < 8)]
    simp
  · rw [decide_eq_false h]
    by_cases hd : j < d
    · simp [hd]
    · have hout : (decide (s ≤ j - d) && decide (j - d - s < 8)) = false := by
        rw [Bool.and_eq_false_iff, decide_eq_false_iff_not, decide_eq_false_iff_not]
        omega
      rw [hout]
      simp

/-- A byte of a word that is masked out and moved down. -/
lemma getLsbD_maskByte_ushiftRight (x : BitVec 32) (s d : ℕ) {j : ℕ} :
    ((x &&& fieldMask 8 s) >>> d).getLsbD j =
      (decide (s ≤ d + j ∧ d + j < s + 8) && x.getLsbD (d + j)) := by
  rw [BitVec.getLsbD_ushiftRight, BitVec.getLsbD_and]
  by_cases hj : d + j < 32
  · rw [getLsbD_fieldMask hj, Bool.and_comm, ← Bool.decide_and]
    congr 1
    rw [decide_eq_decide]
    omega
  · rw [BitVec.getLsbD_of_ge x _ (by omega)]
    simp

end TiOpenCL.BitFields
