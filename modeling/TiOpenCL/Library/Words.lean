import Mathlib.Data.Nat.Bitwise
import Mathlib.Data.Nat.Size
import Mathlib.Tactic.Linarith
import Mathlib.Tactic.Ring

/-!
# Machine words

Unsigned integers of a fixed width `w` as natural numbers below `2 ^ w`, with the operators of the
machine: addition, subtraction and multiplication wrap around, the complement is taken within the
width, and `sint` and `uint` convert to and from the signed type of the same width.  The lemmas say
what masking with a power of two does and when an operation does not wrap.
-/

namespace TiOpenCL

/-- Addition of `w`-bit words. -/
def wadd (w a b : ℕ) : ℕ := (a + b) % 2 ^ w

/-- Subtraction of `w`-bit words. -/
def wsub (w a b : ℕ) : ℕ := (a + (2 ^ w - b)) % 2 ^ w

/-- Multiplication of `w`-bit words. -/
def wmul (w a b : ℕ) : ℕ := a * b % 2 ^ w

/-- Complement of a `w`-bit word. -/
def wnot (w a : ℕ) : ℕ := 2 ^ w - 1 - a

/-- The signed integer with the bits of a `w`-bit word. -/
def sint (w a : ℕ) : ℤ :=
  if a % 2 ^ w < 2 ^ (w - 1) then ((a % 2 ^ w : ℕ) : ℤ) else ((a % 2 ^ w : ℕ) : ℤ) - 2 ^ w

/-- The `w`-bit word with the bits of a signed integer. -/
def uint (w : ℕ) (z : ℤ) : ℕ := (z % 2 ^ w).toNat

lemma wadd_lt (w a b : ℕ) : wadd w a b < 2 ^ w := Nat.mod_lt _ (by positivity)

lemma wsub_lt (w a b : ℕ) : wsub w a b < 2 ^ w := Nat.mod_lt _ (by positivity)

/-- Addition without wrap-around. -/
lemma wadd_eq {w a b : ℕ} (h : a + b < 2 ^ w) : wadd w a b = a + b := Nat.mod_eq_of_lt h

/-- Subtraction without wrap-around. -/
lemma wsub_eq {w a b : ℕ} (hb : b ≤ a) (ha : a < 2 ^ w) : wsub w a b = a - b := by
  have h : a + (2 ^ w - b) = (a - b) + 2 ^ w := by omega
  rw [wsub, h, Nat.add_mod_right, Nat.mod_eq_of_lt (by omega)]

/-- Subtraction that wraps around. -/
lemma wsub_eq_of_lt {w a b : ℕ} (hab : a < b) (hb : b < 2 ^ w) : wsub w a b = a + 2 ^ w - b := by
  rw [wsub, Nat.mod_eq_of_lt (by omega)]
  omega

/-- Multiplication without wrap-around. -/
lemma wmul_eq {w a b : ℕ} (h : a * b < 2 ^ w) : wmul w a b = a * b := Nat.mod_eq_of_lt h

/-- A word below half the range is non-negative as a signed integer. -/
lemma sint_of_lt {w a : ℕ} (hw : 0 < w) (h : a < 2 ^ (w - 1)) : sint w a = a := by
  have hle : 2 ^ (w - 1) ≤ 2 ^ w := Nat.pow_le_pow_right (by omega) (by omega)
  rw [sint, Nat.mod_eq_of_lt (by omega), if_pos h]

/-- A word in the upper half of the range is negative as a signed integer. -/
lemma sint_neg_of_le {w a : ℕ} (h : 2 ^ (w - 1) ≤ a) (ha : a < 2 ^ w) : sint w a < 0 := by
  rw [sint, Nat.mod_eq_of_lt ha, if_neg (by omega)]
  have hcast : (a : ℤ) < 2 ^ w := by exact_mod_cast ha
  omega

/-- The word of a natural number that fits. -/
lemma uint_natCast {w n : ℕ} (h : n < 2 ^ w) : uint w n = n := by
  have hcast : ((n : ℤ) % 2 ^ w) = ((n % 2 ^ w : ℕ) : ℤ) := by push_cast; rfl
  rw [uint, hcast, Int.toNat_natCast, Nat.mod_eq_of_lt h]

/-- Masking off the low `k` bits of a `w`-bit word rounds it down to a multiple of `2 ^ k`. -/
lemma and_wnot_two_pow {w k x : ℕ} (hk : k ≤ w) (hx : x < 2 ^ w) :
    x &&& wnot w (2 ^ k - 1) = x / 2 ^ k * 2 ^ k := by
  have hmask : wnot w (2 ^ k - 1) = (2 ^ (w - k) - 1) * 2 ^ k := by
    have h1 : (2 : ℕ) ^ w = 2 ^ (w - k) * 2 ^ k := by rw [← pow_add, Nat.sub_add_cancel hk]
    have h2 : 0 < (2 : ℕ) ^ k := by positivity
    rw [wnot, h1, Nat.sub_mul]
    omega
  refine Nat.eq_of_testBit_eq fun i => ?_
  rw [Nat.testBit_and, hmask, Nat.testBit_mul_two_pow, Nat.testBit_mul_two_pow,
    Nat.testBit_two_pow_sub_one, Nat.testBit_div_two_pow]
  by_cases hik : k ≤ i
  · rw [Nat.sub_add_cancel hik]
    by_cases hiw : i < w
    · simp [hik, show i - k < w - k by omega]
    · have hz : x.testBit i = false :=
        Nat.testBit_lt_two_pow (hx.trans_le (Nat.pow_le_pow_right (by omega) (by omega)))
      simp [hz]
  · simp [hik]

/-! ### The smallest aligned window of two words -/

/-- Two numbers agree above bit `k` if and only if their exclusive or is below `2 ^ k`. -/
lemma xor_lt_two_pow_iff (a b k : ℕ) : a ^^^ b < 2 ^ k ↔ a / 2 ^ k = b / 2 ^ k := by
  have hdiv : (a ^^^ b) / 2 ^ k = a / 2 ^ k ^^^ b / 2 ^ k := by
    simp only [← Nat.shiftRight_eq_div_pow, Nat.shiftRight_xor_distrib]
  rw [← Nat.div_eq_zero_iff_lt (by positivity), hdiv, Nat.xor_eq_zero_iff]

/-- If the highest bit in which two numbers differ is bit `k`, they lie in different halves of one
window of size `2 ^ (k + 1)` that is aligned to its size. -/
lemma xor_window {a b k : ℕ} (hab : a ≤ b) (hlo : 2 ^ k ≤ a ^^^ b) (hhi : a ^^^ b < 2 ^ (k + 1)) :
    a < a / 2 ^ (k + 1) * 2 ^ (k + 1) + 2 ^ k ∧ a / 2 ^ (k + 1) * 2 ^ (k + 1) + 2 ^ k ≤ b ∧
      b < a / 2 ^ (k + 1) * 2 ^ (k + 1) + 2 ^ (k + 1) := by
  have hpow : 2 ^ (k + 1) = 2 ^ k * 2 := pow_succ 2 k
  have hpos : 0 < 2 ^ k := by positivity
  have hsame : a / 2 ^ (k + 1) = b / 2 ^ (k + 1) := (xor_lt_two_pow_iff a b (k + 1)).mp hhi
  have hdiff : a / 2 ^ k ≠ b / 2 ^ k := fun h =>
    absurd ((xor_lt_two_pow_iff a b k).mpr h) (by omega)
  have hle : a / 2 ^ k ≤ b / 2 ^ k := Nat.div_le_div_right hab
  have ha : a / 2 ^ (k + 1) = a / 2 ^ k / 2 := by rw [hpow, Nat.div_div_eq_div_mul]
  have hb : b / 2 ^ (k + 1) = b / 2 ^ k / 2 := by rw [hpow, Nat.div_div_eq_div_mul]
  have hq : a / 2 ^ k = 2 * (a / 2 ^ (k + 1)) := by omega
  have hq' : b / 2 ^ k = 2 * (a / 2 ^ (k + 1)) + 1 := by omega
  have hmod := Nat.div_add_mod a (2 ^ k)
  have hmod' := Nat.div_add_mod b (2 ^ k)
  have hlt := Nat.mod_lt a hpos
  have hlt' := Nat.mod_lt b hpos
  have hbase : 2 ^ k * (a / 2 ^ k) = a / 2 ^ (k + 1) * 2 ^ (k + 1) := by rw [hq, hpow]; ring
  have hmid : 2 ^ k * (b / 2 ^ k) = a / 2 ^ (k + 1) * 2 ^ (k + 1) + 2 ^ k := by
    rw [hq', hpow]
    ring
  rw [hbase] at hmod
  rw [hmid] at hmod'
  omega

/-- A block below a multiple of its size that starts at another one ends there at the latest. -/
lemma add_le_of_dvd {a d n : ℕ} (ha : d ∣ a) (hn : d ∣ n) (h : a < n) : a + d ≤ n := by
  obtain ⟨p, rfl⟩ := ha
  obtain ⟨q, rfl⟩ := hn
  have hpq : p < q := lt_of_mul_lt_mul_left h (Nat.zero_le d)
  calc d * p + d = d * (p + 1) := by ring
    _ ≤ d * q := Nat.mul_le_mul_left d hpq

end TiOpenCL
