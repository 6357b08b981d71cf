import Mathlib.Data.Nat.Basic
import Mathlib.Logic.Function.Basic
import Mathlib.Tactic.Linarith
import Mathlib.Tactic.Ring

/-!
# Bytes, words and struct layouts

Memory as a function from addresses to bytes, with little endian words of any number of bytes.  A
word that is read after a write is the word written (`readWord_writeWord_self`), or unchanged when
the two ranges are disjoint (`readWord_writeWord_of_disjoint`).

`fieldOffsets` lays out the fields of a struct by the rules of the C ABI: every field starts at the
next multiple of its alignment.
-/

namespace TiOpenCL

/-- Byte addressed memory. -/
abbrev Bytes := ℕ → Fin 256

/-- Memory that is all zero. -/
def zeroBytes : Bytes := fun _ => 0

/-- The little endian word of `n` bytes at an address. -/
@[simp] def readWord (m : Bytes) : ℕ → ℕ → ℕ
  | 0, _ => 0
  | n + 1, a => (m a).val + 256 * readWord m n (a + 1)

/-- The memory after a little endian word of `n` bytes is stored at an address. -/
@[simp] def writeWord (m : Bytes) : ℕ → ℕ → ℕ → Bytes
  | 0, _, _ => m
  | n + 1, a, v =>
    writeWord (Function.update m a ⟨v % 256, Nat.mod_lt v (by decide)⟩) n (a + 1) (v / 256)

/-! ### Reading and writing -/

/-- A word fits its bytes. -/
lemma readWord_lt (m : Bytes) (n a : ℕ) : readWord m n a < 256 ^ n := by
  induction n generalizing a with
  | zero => simp
  | succ n ih =>
    have hrest := ih (a + 1)
    have hbyte := (m a).isLt
    rw [readWord, pow_succ]
    omega

/-- A word depends on its bytes only. -/
lemma readWord_congr {m m' : Bytes} {n a : ℕ} (h : ∀ b, a ≤ b → b < a + n → m b = m' b) :
    readWord m n a = readWord m' n a := by
  induction n generalizing a with
  | zero => rfl
  | succ n ih =>
    rw [readWord, readWord, h a le_rfl (by omega)]
    rw [ih fun b hlo hhi => h b (by omega) (by omega)]

/-- A write leaves the bytes outside its range. -/
lemma writeWord_apply_of_not_mem (m : Bytes) {n a b : ℕ} (v : ℕ) (h : b < a ∨ a + n ≤ b) :
    writeWord m n a v b = m b := by
  induction n generalizing m a v with
  | zero => rfl
  | succ n ih =>
    rw [writeWord, ih _ _ (by omega), Function.update_of_ne (by omega)]

/-- A word that fits is read back. -/
lemma readWord_writeWord_self (m : Bytes) {n a v : ℕ} (hv : v < 256 ^ n) :
    readWord (writeWord m n a v) n a = v := by
  induction n generalizing m a v with
  | zero =>
    rw [pow_zero] at hv
    rw [readWord]
    omega
  | succ n ih =>
    have hdiv : v / 256 < 256 ^ n := by
      rw [pow_succ, Nat.mul_comm] at hv
      exact Nat.div_lt_of_lt_mul hv
    rw [writeWord, readWord, ih _ hdiv, writeWord_apply_of_not_mem _ _ (by omega),
      Function.update_self]
    exact Nat.mod_add_div v 256

/-- A write to other bytes does not change a word. -/
lemma readWord_writeWord_of_disjoint (m : Bytes) {n a k b : ℕ} (v : ℕ)
    (h : a + n ≤ b ∨ b + k ≤ a) : readWord (writeWord m n a v) k b = readWord m k b :=
  readWord_congr fun c hlo hhi => writeWord_apply_of_not_mem m v (by omega)

/-- A write to the low byte of a word keeps its other bytes. -/
lemma readWord_writeByte_low (m : Bytes) {n a v : ℕ} (hv : v < 256) :
    readWord (writeWord m 1 a v) (n + 1) a = v + readWord m (n + 1) a / 256 * 256 := by
  have hlow : (writeWord m 1 a v a).val = v := by
    rw [writeWord, writeWord, Function.update_self]
    exact Nat.mod_eq_of_lt hv
  have hbyte := (m a).isLt
  rw [readWord, readWord, hlow, readWord_writeWord_of_disjoint m v (Or.inl le_rfl)]
  omega

/-! ### Several stores -/

/-- A word to be stored at an offset. -/
structure Store where
  /-- Number of bytes. -/
  size : ℕ
  /-- Offset of the low byte. -/
  offset : ℕ
  /-- The word. -/
  value : ℕ

/-- Two stores touch no common byte. -/
def Store.Apart (s t : Store) : Prop := s.offset + s.size ≤ t.offset ∨ t.offset + t.size ≤ s.offset

instance (s t : Store) : Decidable (s.Apart t) :=
  inferInstanceAs (Decidable (s.offset + s.size ≤ t.offset ∨ t.offset + t.size ≤ s.offset))

/-- The memory after a list of stores. -/
def storeAll (m : Bytes) (l : List Store) : Bytes :=
  l.foldl (fun m s => writeWord m s.size s.offset s.value) m

/-- Stores to other bytes do not change a word. -/
lemma readWord_storeAll_of_apart {l : List Store} {s : Store} (h : ∀ t ∈ l, s.Apart t)
    (m : Bytes) : readWord (storeAll m l) s.size s.offset = readWord m s.size s.offset := by
  induction l generalizing m with
  | nil => rfl
  | cons t l ih =>
    rw [storeAll, List.foldl_cons, ← storeAll, ih fun t' ht => h t' (List.mem_cons_of_mem t ht)]
    have hapart := h t (by simp)
    exact readWord_writeWord_of_disjoint m _ (by unfold Store.Apart at hapart; omega)

/-- After stores that do not overlap, each of them is read back. -/
lemma readWord_storeAll {l : List Store} (hl : l.Pairwise Store.Apart) {s : Store} (hs : s ∈ l)
    (hv : s.value < 256 ^ s.size) (m : Bytes) :
    readWord (storeAll m l) s.size s.offset = s.value := by
  induction l generalizing m with
  | nil => simp at hs
  | cons t l ih =>
    obtain ⟨hfirst, hrest⟩ := List.pairwise_cons.mp hl
    rw [storeAll, List.foldl_cons, ← storeAll]
    rcases List.mem_cons.mp hs with rfl | hmem
    · rw [readWord_storeAll_of_apart hfirst, readWord_writeWord_self m hv]
    · exact ih hrest hmem _

/-- A word in two parts. -/
lemma readWord_add (m : Bytes) (n k a : ℕ) :
    readWord m (n + k) a = readWord m n a + 256 ^ n * readWord m k (a + n) := by
  induction n generalizing a with
  | zero => simp
  | succ n ih =>
    rw [Nat.add_right_comm, readWord, ih, readWord, pow_succ, Nat.add_assoc a 1 n, Nat.add_comm 1 n]
    ring

/-- A word of memory that is zero. -/
lemma readWord_zero (n a : ℕ) : readWord (fun _ => 0) n a = 0 := by
  induction n generalizing a with
  | zero => rfl
  | succ n ih => simp [ih]

/-- A store that has room behind it, in memory that was zero, is read back as a longer word. -/
lemma readWord_storeAll_of_room {l : List Store} (hl : l.Pairwise Store.Apart) {s : Store}
    (hs : s ∈ l) (hv : s.value < 256 ^ s.size) (k : ℕ)
    (hroom : ∀ t ∈ l, Store.Apart ⟨k, s.offset + s.size, 0⟩ t) :
    readWord (storeAll (fun _ => 0) l) (s.size + k) s.offset = s.value := by
  have hrest := readWord_storeAll_of_apart hroom fun _ => 0
  rw [readWord_zero] at hrest
  rw [readWord_add, readWord_storeAll hl hs hv, hrest, Nat.mul_zero, Nat.add_zero]

/-- Stores that do not overlap and end at a limit. -/
structure Packed (l : List Store) (limit : ℕ) : Prop where
  /-- No two stores overlap. -/
  apart : l.Pairwise Store.Apart
  /-- Every store ends at the limit. -/
  inside : ∀ s ∈ l, s.offset + s.size ≤ limit

/-- No store. -/
lemma Packed.nil (limit : ℕ) : Packed [] limit := ⟨List.Pairwise.nil, by simp⟩

/-- A store behind the limit moves the limit. -/
lemma Packed.append {l : List Store} {limit : ℕ} (h : Packed l limit) {s : Store}
    (hs : limit ≤ s.offset) : Packed (l ++ [s]) (s.offset + s.size) := by
  refine ⟨List.pairwise_append.2 ⟨h.apart, List.pairwise_singleton _ _, ?_⟩, ?_⟩
  · intro t ht t' ht'
    rw [List.mem_singleton] at ht'
    subst ht'
    exact Or.inl ((h.inside t ht).trans hs)
  · intro t ht
    rcases List.mem_append.1 ht with ht | ht
    · exact (h.inside t ht).trans (hs.trans (Nat.le_add_right _ _))
    · rw [List.mem_singleton.1 ht]

/-- A later limit. -/
lemma Packed.mono {l : List Store} {limit limit' : ℕ} (h : Packed l limit) (hle : limit ≤ limit') :
    Packed l limit' :=
  ⟨h.apart, fun s hs => (h.inside s hs).trans hle⟩

/-! ### Struct layouts -/

/-- A field of a struct: its size and its alignment. -/
structure Field where
  /-- Number of bytes. -/
  size : ℕ
  /-- The offset of the field is a multiple of it. -/
  align : ℕ

/-- The next multiple of an alignment. -/
def alignUp (n align : ℕ) : ℕ := (n + align - 1) / align * align

/-- The offsets of the fields of a struct and the end of the last one, from a start offset. -/
def fieldOffsets : List Field → ℕ → List ℕ × ℕ
  | [], start => ([], start)
  | f :: fs, start =>
    let offset := alignUp start f.align
    let rest := fieldOffsets fs (offset + f.size)
    (offset :: rest.1, rest.2)

/-- The offset of a field of a struct. -/
def offsetOf (fields : List Field) (i : ℕ) : ℕ := (fieldOffsets fields 0).1.getD i 0

/-- The alignment of a struct. -/
def structAlign (fields : List Field) : ℕ := (fields.map Field.align).foldl max 1

/-- The size of a struct, padded to its alignment. -/
def structSize (fields : List Field) : ℕ := alignUp (fieldOffsets fields 0).2 (structAlign fields)

/-- A struct or an array as a field of another one. -/
def structField (fields : List Field) : Field := ⟨structSize fields, structAlign fields⟩

/-- An unsigned or signed integer of `n` bytes. -/
def intField (n : ℕ) : Field := ⟨n, n⟩

/-- An array of `k` elements. -/
def arrayField (k : ℕ) (f : Field) : Field := ⟨k * f.size, f.align⟩

end TiOpenCL
