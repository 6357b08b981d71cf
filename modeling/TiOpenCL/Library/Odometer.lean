import Mathlib.Algebra.BigOperators.Group.List.Basic
import Mathlib.Algebra.BigOperators.Ring.List
import Mathlib.Data.List.Nodup
import Mathlib.Logic.Function.Basic
import Mathlib.Order.Monotone.Basic
import Mathlib.Tactic.Linarith
import Mathlib.Tactic.Ring

/-!
# Mixed radix counters

An odometer over a list of positions: `advance` adds one at the first position and carries into the
next one when a digit reaches its radix.  `digits r is n` is the state after `n` steps from zero, so
a sweep of the counter visits the numbers below `size r is` in order, and these are exactly the
digit vectors below the radices, each once (`sweep_nodup` and `mem_sweep`).  One radix may be split
into consecutive parts of nearly equal size (`splitStart`).
-/

namespace TiOpenCL

namespace Odometer

variable {ι : Type*}

section States

variable [DecidableEq ι]

/-- One step of the counter, with the carry out of the last position. -/
def advance (r : ι → ℕ) : List ι → (ι → ℕ) → Bool × (ι → ℕ)
  | [], d => (true, d)
  | i :: is, d =>
    if d i + 1 < r i then (false, Function.update d i (d i + 1))
    else advance r is (Function.update d i 0)

/-- The digits of a number, the first position being the least significant one. -/
@[simp] def digits (r : ι → ℕ) : List ι → ℕ → ι → ℕ
  | [], _ => fun _ => 0
  | i :: is, n => Function.update (digits r is (n / r i)) i (n % r i)

end States

/-- The number of states of the counter. -/
def size (r : ι → ℕ) (is : List ι) : ℕ := (is.map r).prod

/-- The number that a state stands for. -/
@[simp] def value (r : ι → ℕ) : List ι → (ι → ℕ) → ℕ
  | [], _ => 0
  | i :: is, d => d i + r i * value r is d

/-- The states of the counter from zero to the last one. -/
def sweep [DecidableEq ι] (r : ι → ℕ) (is : List ι) : List (ι → ℕ) := (List.range (size r is)).map (digits r is)

@[simp] lemma size_nil (r : ι → ℕ) : size r [] = 1 := rfl

@[simp] lemma size_cons (r : ι → ℕ) (i : ι) (is : List ι) : size r (i :: is) = r i * size r is := by
  simp [size]

/-- A counter whose radices are positive has a state. -/
lemma size_pos {r : ι → ℕ} {is : List ι} (hr : ∀ i ∈ is, 0 < r i) : 0 < size r is := by
  induction is with
  | nil => simp
  | cons i is ih =>
    rw [size_cons]
    exact Nat.mul_pos (hr i (by simp)) (ih fun j hj => hr j (List.mem_cons_of_mem i hj))

/-! ### Values -/

/-- Without digits the value is zero. -/
lemma value_eq_zero {r : ι → ℕ} {is : List ι} {d : ι → ℕ} (hd : ∀ i ∈ is, d i = 0) : value r is d = 0 := by
  induction is with
  | nil => rfl
  | cons i is ih =>
    rw [value, hd i (by simp), ih fun j hj => hd j (List.mem_cons_of_mem i hj), Nat.mul_zero]

/-- The digits of two counters, one after the other. -/
lemma value_append (r : ι → ℕ) (is js : List ι) (d : ι → ℕ) :
    value r (is ++ js) d = value r is d + size r is * value r js d := by
  induction is with
  | nil => simp
  | cons i is ih =>
    rw [List.cons_append, value, ih, value, size_cons]
    ring

/-- The value is additive in the digits. -/
lemma value_add (r : ι → ℕ) (is : List ι) (d d' : ι → ℕ) :
    value r is (fun i => d i + d' i) = value r is d + value r is d' := by
  induction is with
  | nil => rfl
  | cons i is ih =>
    rw [value, ih, value, value]
    ring

/-- A radix takes no part if the digits of the later positions are zero. -/
lemma value_congr_radices {r r' : ι → ℕ} {is : List ι} {d : ι → ℕ}
    (h : is.Pairwise fun i j => r i = r' i ∨ d j = 0) : value r is d = value r' is d := by
  induction is with
  | nil => rfl
  | cons i is ih =>
    obtain ⟨hi, his⟩ := List.pairwise_cons.mp h
    rw [value, value, ih his]
    by_cases hr : r i = r' i
    · rw [hr]
    · have hzero : value r' is d = 0 := value_eq_zero fun j hj => (hi j hj).resolve_left hr
      rw [hzero, Nat.mul_zero, Nat.mul_zero]

/-- Digits below the radices stand for a number below the size. -/
lemma value_lt {r : ι → ℕ} {is : List ι} {d : ι → ℕ} (hd : ∀ i ∈ is, d i < r i) :
    value r is d < size r is := by
  induction is with
  | nil => simp
  | cons i is ih =>
    have hrest : value r is d + 1 ≤ size r is := ih fun j hj => hd j (List.mem_cons_of_mem i hj)
    have hmul := Nat.mul_le_mul_left (r i) hrest
    have hi := hd i (by simp)
    rw [value, size_cons]
    rw [Nat.mul_add, Nat.mul_one] at hmul
    omega

variable [DecidableEq ι]

/-! ### Digits -/

/-- The counter starts at zero. -/
lemma digits_zero (r : ι → ℕ) (is : List ι) : digits r is 0 = fun _ => 0 := by
  induction is with
  | nil => rfl
  | cons i is ih => simp [ih]

/-- A position that the counter does not have keeps the digit zero. -/
lemma digits_of_not_mem (r : ι → ℕ) {is : List ι} {i : ι} (hi : i ∉ is) (n : ℕ) :
    digits r is n i = 0 := by
  induction is generalizing n with
  | nil => rfl
  | cons j is ih =>
    rw [List.mem_cons, not_or] at hi
    obtain ⟨hij, his⟩ := hi
    rw [digits, Function.update_of_ne hij, ih his]

/-- Every digit is below its radix. -/
lemma digits_lt {r : ι → ℕ} {is : List ι} (hr : ∀ i ∈ is, 0 < r i) {i : ι} (hi : i ∈ is) (n : ℕ) :
    digits r is n i < r i := by
  induction is generalizing n with
  | nil => simp at hi
  | cons j is ih =>
    rw [digits]
    by_cases hij : i = j
    · subst hij
      rw [Function.update_self]
      exact Nat.mod_lt n (hr i hi)
    · rw [Function.update_of_ne hij]
      exact ih (fun k hk => hr k (List.mem_cons_of_mem j hk)) (List.mem_of_ne_of_mem hij hi) _

/-- The value only depends on the digits of the counter. -/
lemma value_update_of_not_mem (r : ι → ℕ) {is : List ι} {i : ι} (hi : i ∉ is) (d : ι → ℕ) (a : ℕ) :
    value r is (Function.update d i a) = value r is d := by
  induction is with
  | nil => rfl
  | cons j is ih =>
    rw [List.mem_cons, not_or] at hi
    rw [value, value, Function.update_of_ne (Ne.symm hi.1), ih hi.2]

/-- A number below the size is the value of its digits. -/
lemma value_digits {r : ι → ℕ} {is : List ι} (hnd : is.Nodup) {n : ℕ} (hn : n < size r is) :
    value r is (digits r is n) = n := by
  induction is generalizing n with
  | nil =>
    rw [size_nil] at hn
    simp only [value]
    omega
  | cons i is ih =>
    obtain ⟨hi, hnd'⟩ := List.nodup_cons.mp hnd
    rw [size_cons] at hn
    rw [value, digits, Function.update_self, value_update_of_not_mem r hi,
      ih hnd' (Nat.div_lt_of_lt_mul hn), Nat.mod_add_div]

/-- Two numbers below the size with the same digits are equal. -/
lemma digits_injOn {r : ι → ℕ} {is : List ι} (hnd : is.Nodup) {n m : ℕ}
    (hn : n < size r is) (hm : m < size r is) (h : digits r is n = digits r is m) : n = m := by
  induction is generalizing n m with
  | nil =>
    rw [size_nil] at hn hm
    omega
  | cons i is ih =>
    obtain ⟨hi, hnd'⟩ := List.nodup_cons.mp hnd
    rw [size_cons] at hn hm
    have hmod : n % r i = m % r i := by simpa using congrFun h i
    have htail : digits r is (n / r i) = digits r is (m / r i) := by
      funext j
      by_cases hj : j = i
      · subst hj
        rw [digits_of_not_mem r hi, digits_of_not_mem r hi]
      · simpa [Function.update_of_ne hj] using congrFun h j
    have hdiv : n / r i = m / r i :=
      ih hnd' (Nat.div_lt_of_lt_mul hn) (Nat.div_lt_of_lt_mul hm) htail
    rw [← Nat.div_add_mod n (r i), ← Nat.div_add_mod m (r i), hmod, hdiv]

/-- Every digit vector below the radices is reached. -/
lemma exists_digits_eq {r : ι → ℕ} {is : List ι} (hnd : is.Nodup) {d : ι → ℕ}
    (hlt : ∀ i ∈ is, d i < r i) (hzero : ∀ i, i ∉ is → d i = 0) :
    ∃ n < size r is, digits r is n = d := by
  induction is generalizing d with
  | nil => exact ⟨0, by simp, by funext i; exact (hzero i (by simp)).symm⟩
  | cons i is ih =>
    obtain ⟨hi, hnd'⟩ := List.nodup_cons.mp hnd
    have hne : ∀ j ∈ is, j ≠ i := fun j hj hji => hi (hji ▸ hj)
    obtain ⟨n, hn, hd⟩ := ih hnd' (d := Function.update d i 0)
      (fun j hj => by
        rw [Function.update_of_ne (hne j hj)]
        exact hlt j (List.mem_cons_of_mem i hj))
      (fun j hj => by
        by_cases hji : j = i
        · subst hji
          exact Function.update_self ..
        · rw [Function.update_of_ne hji]
          exact hzero j (by simp [hji, hj]))
    have hdi : d i < r i := hlt i (by simp)
    refine ⟨d i + r i * n, ?_, ?_⟩
    · rw [size_cons]
      have hmul : r i * (n + 1) ≤ r i * size r is := Nat.mul_le_mul_left _ hn
      rw [Nat.mul_succ] at hmul
      omega
    · rw [digits, Nat.add_mul_div_left _ _ (by omega), Nat.div_eq_of_lt hdi, Nat.zero_add,
        Nat.add_mul_mod_self_left, Nat.mod_eq_of_lt hdi, hd, Function.update_idem,
        Function.update_eq_self]

/-! ### Steps -/

/-- A position that the counter does not have takes no part in a step. -/
lemma advance_update (r : ι → ℕ) {is : List ι} {i : ι} (hi : i ∉ is) (d : ι → ℕ) (a : ℕ) :
    advance r is (Function.update d i a) =
      ((advance r is d).1, Function.update (advance r is d).2 i a) := by
  induction is generalizing d with
  | nil => rfl
  | cons j is ih =>
    rw [List.mem_cons, not_or] at hi
    obtain ⟨hij, his⟩ := hi
    simp only [advance, Function.update_of_ne (Ne.symm hij)]
    split
    · rw [Function.update_comm hij]
    · rw [Function.update_comm hij, ih his]

/-- A step adds one, with a carry exactly at the last state. -/
lemma advance_digits {r : ι → ℕ} {is : List ι} (hnd : is.Nodup) {n : ℕ} (hn : n < size r is) :
    advance r is (digits r is n) =
      if n + 1 < size r is then (false, digits r is (n + 1)) else (true, fun _ => 0) := by
  induction is generalizing n with
  | nil =>
    rw [size_nil] at hn
    simp [advance]
  | cons i is ih =>
    obtain ⟨hi, hnd'⟩ := List.nodup_cons.mp hnd
    rw [size_cons] at hn ⊢
    have hpos : 0 < r i := Nat.pos_of_mul_pos_right (by omega : 0 < r i * size r is)
    have hdiv : n / r i < size r is := Nat.div_lt_of_lt_mul hn
    have hdm := Nat.div_add_mod n (r i)
    have hlt := Nat.mod_lt n hpos
    simp only [advance, digits, Function.update_self, Function.update_idem]
    by_cases hcarry : n % r i + 1 < r i
    · -- no carry: only the first digit moves
      have hmul : r i * (n / r i + 1) ≤ r i * size r is := Nat.mul_le_mul_left _ hdiv
      rw [Nat.mul_succ] at hmul
      rw [if_pos hcarry, if_pos (by omega)]
      have hnext : n + 1 = (n % r i + 1) + r i * (n / r i) := by omega
      rw [hnext, Nat.add_mul_div_left _ _ hpos, Nat.div_eq_of_lt hcarry, Nat.zero_add,
        Nat.add_mul_mod_self_left, Nat.mod_eq_of_lt hcarry]
    · have hnext : n + 1 = 0 + r i * (n / r i + 1) := by rw [Nat.mul_succ]; omega
      have hiff : n + 1 < r i * size r is ↔ n / r i + 1 < size r is := by
        rw [hnext, Nat.zero_add]
        exact Nat.mul_lt_mul_left hpos
      rw [if_neg hcarry, advance_update r hi, ih hnd' hdiv]
      by_cases hlast : n / r i + 1 < size r is
      · rw [if_pos hlast, if_pos (hiff.mpr hlast), hnext, Nat.add_mul_div_left _ _ hpos,
          Nat.add_mul_mod_self_left, Nat.zero_div, Nat.zero_mod, Nat.zero_add]
      · rw [if_neg hlast, if_neg (mt hiff.mp hlast)]
        simp

/-! ### Sweeps -/

/-- A sweep visits no state twice. -/
lemma sweep_nodup (r : ι → ℕ) {is : List ι} (hnd : is.Nodup) : (sweep r is).Nodup := by
  refine List.Nodup.map_on ?_ List.nodup_range
  intro n hn m hm h
  exact digits_injOn hnd (List.mem_range.mp hn) (List.mem_range.mp hm) h

/-- A sweep visits the digit vectors below the radices. -/
lemma mem_sweep {r : ι → ℕ} {is : List ι} (hnd : is.Nodup) {d : ι → ℕ} :
    d ∈ sweep r is ↔ (∀ i ∈ is, d i < r i) ∧ ∀ i, i ∉ is → d i = 0 := by
  constructor
  · intro hd
    obtain ⟨n, hn, rfl⟩ := List.mem_map.mp hd
    have hpos : ∀ i ∈ is, 0 < r i := by
      intro i hi
      by_contra hzero
      have hsize : size r is = 0 :=
        List.prod_eq_zero (List.mem_map.mpr ⟨i, hi, by omega⟩)
      rw [hsize] at hn
      simp at hn
    exact ⟨fun i hi => digits_lt hpos hi n, fun i hi => digits_of_not_mem r hi n⟩
  · rintro ⟨hlt, hzero⟩
    obtain ⟨n, hn, rfl⟩ := exists_digits_eq hnd hlt hzero
    exact List.mem_map.mpr ⟨n, List.mem_range.mpr hn, rfl⟩

/-! ### Splitting a radix -/

/-- Where part `l` starts when `R` units are split over `n` parts, the first `R % n` parts getting
one unit more than the others. -/
def splitStart (R n l : ℕ) : ℕ := l * (R / n) + min l (R % n)

@[simp] lemma splitStart_zero (R n : ℕ) : splitStart R n 0 = 0 := by simp [splitStart]

/-- The size of a part. -/
lemma splitStart_succ (R n l : ℕ) :
    splitStart R n (l + 1) = splitStart R n l + (R / n + if l < R % n then 1 else 0) := by
  rw [splitStart, splitStart, Nat.succ_mul]
  split <;> omega

/-- The parts end at `R`. -/
lemma splitStart_self (R : ℕ) {n : ℕ} (hn : 0 < n) : splitStart R n n = R := by
  have hlt := Nat.mod_lt R hn
  rw [splitStart, Nat.min_eq_right hlt.le]
  exact Nat.div_add_mod R n

/-- The parts follow each other. -/
lemma splitStart_mono (R n : ℕ) : Monotone (splitStart R n) := by
  refine monotone_nat_of_le_succ fun l => ?_
  rw [splitStart_succ]
  exact Nat.le_add_right _ _

/-- Every unit is in a part. -/
lemma exists_part {R n k : ℕ} (hn : 0 < n) (hk : k < R) :
    ∃ l < n, splitStart R n l ≤ k ∧ k < splitStart R n (l + 1) := by
  have hreach : ∀ m, k < splitStart R n m → ∃ l < m, splitStart R n l ≤ k ∧
      k < splitStart R n (l + 1) := by
    intro m
    induction m with
    | zero => simp
    | succ m ih =>
      intro hm
      by_cases hlt : k < splitStart R n m
      · obtain ⟨l, hl, hpart⟩ := ih hlt
        exact ⟨l, hl.trans (Nat.lt_succ_self m), hpart⟩
      · exact ⟨m, Nat.lt_succ_self m, Nat.le_of_not_lt hlt, hm⟩
  exact hreach n (by rwa [splitStart_self R hn])

/-- No unit is in two parts. -/
lemma part_unique {R n k l m : ℕ} (hl : splitStart R n l ≤ k) (hl' : k < splitStart R n (l + 1))
    (hm : splitStart R n m ≤ k) (hm' : k < splitStart R n (m + 1)) : l = m := by
  rcases lt_trichotomy l m with hlt | heq | hgt
  · have := splitStart_mono R n (Nat.succ_le_of_lt hlt)
    simp only [Nat.succ_eq_add_one] at this
    omega
  · exact heq
  · have := splitStart_mono R n (Nat.succ_le_of_lt hgt)
    simp only [Nat.succ_eq_add_one] at this
    omega

/-- A part is non-empty exactly when its number is below `R`. -/
lemma part_pos_iff {R n l : ℕ} (hl : l < n) :
    0 < (R / n + if l < R % n then 1 else 0) ↔ l < R := by
  by_cases hR : R < n
  · rw [Nat.div_eq_of_lt hR, Nat.mod_eq_of_lt hR]
    split <;> omega
  · have hpos : 0 < R / n := Nat.div_pos (by omega) (by omega)
    omega

/-- No part starts past the end. -/
lemma splitStart_le (R : ℕ) {n l : ℕ} (hl : l < n) : splitStart R n l ≤ R := by
  have hmono := splitStart_mono R n hl.le
  rwa [splitStart_self R (by omega)] at hmono

/-- No part ends past the end. -/
lemma splitStart_add_part_le (R : ℕ) {n l : ℕ} (hl : l < n) :
    splitStart R n l + (R / n + if l < R % n then 1 else 0) ≤ R := by
  have hmono := splitStart_mono R n (Nat.succ_le_of_lt hl)
  rwa [splitStart_self R (by omega), Nat.succ_eq_add_one, splitStart_succ] at hmono

end Odometer

end TiOpenCL
