import Mathlib.Data.BitVec
import Mathlib.Data.Set.Basic
import Mathlib.Logic.Function.Basic
import Mathlib.Tactic.Linarith
import Mathlib.Tactic.Ring

/-!
# Copies of lines

A memory has spaces, and the addresses of a space are words that wrap around.  A copy of lines moves one
line of bytes after the other, at strides of its own on each side (`copyLines`).  Where lines overlap, the
last one counts (`copyLines_of_last`).

Lines that are packed on one side and strided on the other one tell strides apart: two copies of at least
two lines that are not empty do the same to every memory only if the strides are equal
(`stride_eq_of_gather`, `stride_eq_of_scatter`).
-/

namespace TiOpenCL.LineCopies

variable {σ β : Type*} {w : ℕ}

/-- A place in a memory. -/
@[ext]
structure Ptr (σ : Type*) (w : ℕ) where
  space : σ
  addr : BitVec w
  deriving DecidableEq

/-- A place some bytes further. -/
def Ptr.offset (p : Ptr σ w) (k : BitVec w) : Ptr σ w := ⟨p.space, p.addr + k⟩

/-- The bytes of every space. -/
abbrev Memory (σ : Type*) (w : ℕ) (β : Type*) := σ → BitVec w → β

/-- An address is one of `bytes` bytes from a start on. -/
def Covers (start : BitVec w) (bytes : ℕ) (a : BitVec w) : Prop := (a - start).toNat < bytes

instance (start : BitVec w) (bytes : ℕ) (a : BitVec w) : Decidable (Covers start bytes a) :=
  inferInstanceAs (Decidable (_ < _))

/-- The memory after a line of bytes is copied. -/
def copyLine [DecidableEq σ] (m : Memory σ w β) (dst src : Ptr σ w) (bytes : ℕ) : Memory σ w β :=
  Function.update m dst.space fun a =>
    if Covers dst.addr bytes a then m src.space (src.addr + (a - dst.addr)) else m dst.space a

/-- The memory after the first lines are copied, at strides `d` and `s`. -/
def copyLines [DecidableEq σ] (m : Memory σ w β) (dst src : Ptr σ w) (bytes : ℕ) (d s : BitVec w) :
    ℕ → Memory σ w β
  | 0 => m
  | k + 1 => copyLine (copyLines m dst src bytes d s k) (dst.offset (BitVec.ofNat w k * d))
      (src.offset (BitVec.ofNat w k * s)) bytes

/-! ### What is copied -/

section Lines

variable [DecidableEq σ] {m : Memory σ w β} {dst src : Ptr σ w} {bytes : ℕ} {d s : BitVec w}

/-- A copy of no bytes does nothing. -/
lemma copyLine_zero : copyLine m dst src 0 = m := by
  rw [copyLine, Function.update_eq_self_iff]
  funext a
  exact if_neg (Nat.not_lt_zero _)

/-- A copy of lines of no bytes does nothing. -/
lemma copyLines_zero_bytes (k : ℕ) : copyLines m dst src 0 d s k = m := by
  induction k with
  | zero => rfl
  | succ k ih => rw [copyLines, copyLine_zero, ih]

/-- The other spaces are kept. -/
lemma copyLines_of_ne {space : σ} (h : space ≠ dst.space) (k : ℕ) :
    copyLines m dst src bytes d s k space = m space := by
  induction k with
  | zero => rfl
  | succ k ih =>
    rw [copyLines, copyLine, Function.update_of_ne (by exact h), ih]

variable (m dst src) in
/-- A byte that a line covers is the byte of the source. -/
lemma copyLine_of_covers {a : BitVec w} (h : Covers dst.addr bytes a) :
    copyLine m dst src bytes dst.space a = m src.space (src.addr + (a - dst.addr)) := by
  rw [copyLine, Function.update_self, if_pos h]

variable (m dst src) in
/-- A byte that a line does not cover is kept. -/
lemma copyLine_of_not_covers {a : BitVec w} (h : ¬Covers dst.addr bytes a) :
    copyLine m dst src bytes dst.space a = m dst.space a := by
  rw [copyLine, Function.update_self, if_neg h]

variable (m src s) in
/-- A byte that no line covers is kept. -/
lemma copyLines_of_not_covers {a : BitVec w} {k : ℕ}
    (h : ∀ i < k, ¬Covers (dst.addr + BitVec.ofNat w i * d) bytes a) :
    copyLines m dst src bytes d s k dst.space a = m dst.space a := by
  induction k with
  | zero => rfl
  | succ k ih =>
    have hkeep := copyLine_of_not_covers (copyLines m dst src bytes d s k)
      (dst.offset (BitVec.ofNat w k * d)) (src.offset (BitVec.ofNat w k * s))
      (h k (Nat.lt_succ_self k))
    exact hkeep.trans (ih fun i hi => h i (Nat.lt_succ_of_lt hi))

/-- The last line that covers a byte is the one that counts. -/
theorem copyLines_of_last (hne : src.space ≠ dst.space) {a : BitVec w} {i k : ℕ} (hi : i < k)
    (hcov : Covers (dst.addr + BitVec.ofNat w i * d) bytes a)
    (hlast : ∀ j < k, i < j → ¬Covers (dst.addr + BitVec.ofNat w j * d) bytes a) :
    copyLines m dst src bytes d s k dst.space a =
      m src.space (src.addr + BitVec.ofNat w i * s + (a - (dst.addr + BitVec.ofNat w i * d))) := by
  induction k with
  | zero => omega
  | succ k ih =>
    rcases Nat.lt_succ_iff_lt_or_eq.mp hi with hlt | rfl
    · have hkeep := copyLine_of_not_covers (copyLines m dst src bytes d s k)
        (dst.offset (BitVec.ofNat w k * d)) (src.offset (BitVec.ofNat w k * s))
        (hlast k (Nat.lt_succ_self k) hlt)
      exact hkeep.trans (ih hlt fun j hj => hlast j (Nat.lt_succ_of_lt hj))
    · have hcopy := copyLine_of_covers (copyLines m dst src bytes d s i)
        (dst.offset (BitVec.ofNat w i * d)) (src.offset (BitVec.ofNat w i * s)) hcov
      refine hcopy.trans ?_
      show copyLines m dst src bytes d s i src.space _ = _
      rw [copyLines_of_ne hne]
      rfl

/-- The strides do not matter for at most one line. -/
lemma copyLines_le_one {k : ℕ} (hk : k ≤ 1) (d' s' : BitVec w) :
    copyLines m dst src bytes d s k = copyLines m dst src bytes d' s' k := by
  rcases Nat.le_one_iff_eq_zero_or_eq_one.mp hk with rfl | rfl
  · rfl
  · simp [copyLines, Ptr.offset]

end Lines

/-! ### Bytes of lines -/

/-- A line starts one stride after the line before. -/
lemma start_succ (start d : BitVec w) (i : ℕ) :
    start + BitVec.ofNat w (i + 1) * d = start + BitVec.ofNat w i * d + d := by
  rw [BitVec.ofNat_add, add_mul, BitVec.one_mul, add_assoc]

/-- A byte of a line is covered by it. -/
lemma covers_add {start : BitVec w} {bytes j : ℕ} (hw : bytes < 2 ^ w) (hj : j < bytes) :
    Covers start bytes (start + BitVec.ofNat w j) := by
  rw [Covers, add_sub_cancel_left, BitVec.toNat_ofNat, Nat.mod_eq_of_lt (by omega)]
  exact hj

/-- The last byte of a line is not covered by a line that starts right after it. -/
lemma not_covers_next {start : BitVec w} {bytes : ℕ} (hw : bytes < 2 ^ w) :
    ¬Covers (start + BitVec.ofNat w bytes) bytes (start + BitVec.ofNat w (bytes - 1)) := by
  rw [Covers, add_sub_add_left_eq_sub, BitVec.toNat_sub, BitVec.toNat_ofNat, BitVec.toNat_ofNat,
    Nat.mod_eq_of_lt hw, Nat.mod_eq_of_lt (by omega : bytes - 1 < 2 ^ w)]
  rcases Nat.eq_zero_or_pos bytes with rfl | hpos
  · simp
  · rw [Nat.mod_eq_of_lt (by omega)]
    omega

/-- Some byte of a line is not covered by a line that starts somewhere else. -/
lemma exists_not_covers (start : BitVec w) {d : BitVec w} {bytes : ℕ} (hw : bytes < 2 ^ w) (hpos : 0 < bytes)
    (hd : d ≠ 0) : ∃ j < bytes, ¬Covers (start + d) bytes (start + BitVec.ofNat w j) := by
  have hne : d.toNat ≠ 0 := fun h => hd (BitVec.eq_of_toNat_eq (by simpa using h))
  have hlt := d.isLt
  refine ⟨min d.toNat bytes - 1, by omega, ?_⟩
  rw [Covers, add_sub_add_left_eq_sub, BitVec.toNat_sub, BitVec.toNat_ofNat,
    Nat.mod_eq_of_lt (by omega : min d.toNat bytes - 1 < 2 ^ w), Nat.mod_eq_of_lt (by omega)]
  omega

/-- If some line covers a byte, there is a last one. -/
lemma exists_last {start : ℕ → BitVec w} {bytes k : ℕ} {a : BitVec w}
    (h : ∃ i < k, Covers (start i) bytes a) :
    ∃ i < k, Covers (start i) bytes a ∧ ∀ j < k, i < j → ¬Covers (start j) bytes a := by
  induction k with
  | zero => obtain ⟨i, hi, -⟩ := h; omega
  | succ k ih =>
    by_cases hk : Covers (start k) bytes a
    · exact ⟨k, Nat.lt_succ_self k, hk, fun j hj hkj => by omega⟩
    · obtain ⟨i, hi, hcov⟩ := h
      rcases Nat.lt_succ_iff_lt_or_eq.mp hi with hlt | rfl
      · obtain ⟨l, hl, hlcov, hlast⟩ := ih ⟨i, hlt, hcov⟩
        refine ⟨l, by omega, hlcov, fun j hj hlj => ?_⟩
        rcases Nat.lt_succ_iff_lt_or_eq.mp hj with hjk | rfl
        · exact hlast j hjk hlj
        · exact hk
      · exact absurd hcov hk

/-- Strides that agree on two neighbouring lines are equal. -/
lemma stride_eq_of_neighbours {d d' : BitVec w} {k : ℕ} (hk : 2 ≤ k)
    (hlast : BitVec.ofNat w (k - 1) * d = BitVec.ofNat w (k - 1) * d')
    (hprev : BitVec.ofNat w (k - 2) * d = BitVec.ofNat w (k - 2) * d') : d = d' := by
  obtain ⟨l, rfl⟩ := Nat.exists_eq_add_of_le hk
  have h1 : 2 + l - 1 = l + 1 := by omega
  have h2 : 2 + l - 2 = l := by omega
  rw [h1, BitVec.ofNat_add, add_mul, add_mul] at hlast
  rw [h2] at hprev
  rw [hprev] at hlast
  have hone : BitVec.ofNat w 1 * d = BitVec.ofNat w 1 * d' := add_left_cancel hlast
  simpa using hone

/-! ### Strides that do the same -/

/-- The memory with one byte that is different from the others. -/
def marked [DecidableEq σ] (p : Ptr σ w) (x y : β) : Memory σ w β :=
  fun space a => if space = p.space ∧ a = p.addr then x else y

section Strides

variable [DecidableEq σ] {dst src : Ptr σ w} {bytes k : ℕ} {s s' : BitVec w}

@[simp] lemma marked_self (p : Ptr σ w) (x y : β) : marked p x y p.space p.addr = x := if_pos ⟨rfl, rfl⟩

/-- The marked byte is the only one with its value. -/
lemma eq_of_marked {p : Ptr σ w} {x y : β} (hxy : x ≠ y) {space : σ} {a : BitVec w}
    (h : marked p x y space a = x) : space = p.space ∧ a = p.addr := by
  by_contra hne
  rw [marked, if_neg hne] at h
  exact hxy h.symm

/-- Where a line counts, the strides of the source agree on it. -/
lemma mul_eq_of_gather [Nontrivial β] (hne : src.space ≠ dst.space) {d : BitVec w}
    (h : ∀ m : Memory σ w β,
      copyLines m dst src bytes d s k = copyLines m dst src bytes d s' k)
    {i : ℕ} (hi : i < k) {a : BitVec w} (hcov : Covers (dst.addr + BitVec.ofNat w i * d) bytes a)
    (hlast : ∀ j < k, i < j → ¬Covers (dst.addr + BitVec.ofNat w j * d) bytes a) :
    BitVec.ofNat w i * s = BitVec.ofNat w i * s' := by
  obtain ⟨x, y, hxy⟩ := exists_pair_ne β
  have hm := congrFun (congrFun (h (marked ⟨src.space, src.addr + BitVec.ofNat w i * s +
    (a - (dst.addr + BitVec.ofNat w i * d))⟩ x y)) dst.space) a
  rw [copyLines_of_last hne hi hcov hlast, copyLines_of_last hne hi hcov hlast, marked_self] at hm
  have haddr := (eq_of_marked hxy hm.symm).2
  exact (add_left_cancel (add_right_cancel haddr)).symm

/-- Packed lines that are read at two strides tell them apart. -/
theorem stride_eq_of_gather [Nontrivial β] (hne : src.space ≠ dst.space) (hpos : 0 < bytes)
    (hw : bytes < 2 ^ w) (hk : 2 ≤ k)
    (h : ∀ m : Memory σ w β,
      copyLines m dst src bytes (BitVec.ofNat w bytes) s k =
        copyLines m dst src bytes (BitVec.ofNat w bytes) s' k) : s = s' := by
  apply stride_eq_of_neighbours hk
  · exact mul_eq_of_gather hne h (by omega) (covers_add hw hpos) fun j hj hlt => by omega
  · -- The last byte of the last line but one is kept by the last line.
    refine mul_eq_of_gather hne h (by omega) (covers_add hw (Nat.sub_lt hpos Nat.one_pos)) ?_
    intro j hj hlt
    obtain rfl : j = k - 2 + 1 := by omega
    rw [start_succ]
    exact not_covers_next hw

/-- Bytes of packed lines that fit the address space have addresses of their own. -/
lemma packed_inj {i i' j j' : ℕ} {start : BitVec w} (hfit : k * bytes ≤ 2 ^ w) (hi : i < k) (hi' : i' < k)
    (hj : j < bytes) (hj' : j' < bytes)
    (h : start + BitVec.ofNat w i * BitVec.ofNat w bytes + BitVec.ofNat w j =
      start + BitVec.ofNat w i' * BitVec.ofNat w bytes + BitVec.ofNat w j') : i = i' ∧ j = j' := by
  have hlt : ∀ {a b : ℕ}, a < k → b < bytes → a * bytes + b < 2 ^ w := by
    intro a b ha hb
    have hmul : (a + 1) * bytes ≤ k * bytes := Nat.mul_le_mul_right bytes ha
    rw [Nat.add_mul] at hmul
    omega
  rw [add_assoc, add_assoc] at h
  have hoff := add_left_cancel h
  rw [← BitVec.ofNat_mul, ← BitVec.ofNat_mul, ← BitVec.ofNat_add, ← BitVec.ofNat_add] at hoff
  have hnat := congrArg BitVec.toNat hoff
  rw [BitVec.toNat_ofNat, BitVec.toNat_ofNat, Nat.mod_eq_of_lt (hlt hi hj),
    Nat.mod_eq_of_lt (hlt hi' hj')] at hnat
  have hpos : 0 < bytes := by omega
  have hdiv := congrArg (· / bytes) hnat
  simp only [Nat.mul_comm _ bytes, Nat.mul_add_div hpos, Nat.div_eq_of_lt hj, Nat.div_eq_of_lt hj',
    add_zero] at hdiv
  subst hdiv
  exact ⟨rfl, by omega⟩

/-- Where a byte of a line counts, the strides of the destination agree on the line. -/
lemma mul_eq_of_scatter [Nontrivial β] (hne : src.space ≠ dst.space) (hw : bytes < 2 ^ w)
    (hfit : k * bytes ≤ 2 ^ w)
    (h : ∀ m : Memory σ w β,
      copyLines m dst src bytes s (BitVec.ofNat w bytes) k =
        copyLines m dst src bytes s' (BitVec.ofNat w bytes) k)
    {i j : ℕ} (hi : i < k) (hj : j < bytes)
    (hlast : ∀ l < k, i < l →
      ¬Covers (dst.addr + BitVec.ofNat w l * s) bytes
        (dst.addr + BitVec.ofNat w i * s + BitVec.ofNat w j)) :
    BitVec.ofNat w i * s = BitVec.ofNat w i * s' := by
  obtain ⟨x, y, hxy⟩ := exists_pair_ne β
  set a := dst.addr + BitVec.ofNat w i * s + BitVec.ofNat w j with ha
  set p : Ptr σ w := ⟨src.space, src.addr + BitVec.ofNat w i * BitVec.ofNat w bytes + BitVec.ofNat w j⟩
  have hm := congrFun (congrFun (h (marked p x y)) dst.space) a
  have hread : copyLines (marked p x y) dst src bytes s (BitVec.ofNat w bytes) k dst.space a = x := by
    rw [copyLines_of_last hne hi (covers_add hw hj) hlast, add_sub_cancel_left]
    exact marked_self p x y
  rw [hread] at hm
  -- The marked byte arrives at the same place at the other stride, so some line covers it there.
  have hcov : ∃ l < k, Covers (dst.addr + BitVec.ofNat w l * s') bytes a := by
    by_contra hnone
    have hkeep := copyLines_of_not_covers (marked p x y) src (BitVec.ofNat w bytes) fun l hl hcov => hnone ⟨l, hl, hcov⟩
    rw [hkeep] at hm
    exact hne (eq_of_marked hxy hm.symm).1.symm
  obtain ⟨l, hl, hlcov, hllast⟩ := exists_last hcov
  rw [copyLines_of_last hne hl hlcov hllast] at hm
  have haddr := (eq_of_marked hxy hm.symm).2
  -- It is the same byte of the same line.
  obtain ⟨t, ht, hback⟩ : ∃ t < bytes, a - (dst.addr + BitVec.ofNat w l * s') = BitVec.ofNat w t :=
    ⟨_, hlcov, by rw [BitVec.ofNat_toNat, BitVec.setWidth_eq]⟩
  rw [hback] at haddr
  obtain ⟨rfl, rfl⟩ := packed_inj hfit hl hi ht hj haddr
  rw [sub_eq_iff_eq_add, add_comm (BitVec.ofNat w t), ha] at hback
  exact add_left_cancel (add_right_cancel hback)

/-- Packed lines that are written at two strides tell them apart, if they fit the address space. -/
theorem stride_eq_of_scatter [Nontrivial β] (hne : src.space ≠ dst.space) (hpos : 0 < bytes)
    (hw : bytes < 2 ^ w) (hk : 2 ≤ k) (hfit : k * bytes ≤ 2 ^ w)
    (h : ∀ m : Memory σ w β,
      copyLines m dst src bytes s (BitVec.ofNat w bytes) k =
        copyLines m dst src bytes s' (BitVec.ofNat w bytes) k) : s = s' := by
  -- A stride that is not zero leaves a byte of the last line but one.
  have hprev : ∀ d d' : BitVec w, d ≠ 0 → (∀ m : Memory σ w β,
      copyLines m dst src bytes d (BitVec.ofNat w bytes) k =
        copyLines m dst src bytes d' (BitVec.ofNat w bytes) k) →
      BitVec.ofNat w (k - 2) * d = BitVec.ofNat w (k - 2) * d' := by
    intro d d' hd hsame
    obtain ⟨j, hj, hleft⟩ := exists_not_covers (dst.addr + BitVec.ofNat w (k - 2) * d) hw hpos hd
    refine mul_eq_of_scatter hne hw hfit hsame (by omega) hj fun l hl hlt => ?_
    obtain rfl : l = k - 2 + 1 := by omega
    rw [start_succ]
    exact hleft
  by_contra hdiff
  refine hdiff (stride_eq_of_neighbours hk ?_ ?_)
  · exact mul_eq_of_scatter hne hw hfit h (by omega) hpos fun l hl hlt => by omega
  · rcases ne_or_eq s 0 with hs | rfl
    · exact hprev s s' hs h
    · exact (hprev s' 0 (Ne.symm hdiff) fun m => (h m).symm).symm

end Strides

end TiOpenCL.LineCopies
