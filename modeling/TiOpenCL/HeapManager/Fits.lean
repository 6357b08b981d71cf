import TiOpenCL.HeapManager.Confluence

/-!
# Requests that fit

A request fits in a heap if some free block has room for its rounded size at an address with the
alignment the heap asks for.  The search of `malloc` looks at one aligned address of each free
block, the first one, so it serves every request that fits as long as the alignment is a power of
two.  That is so for the block size and the maximum alignment, and `next_power_of_two` returns one
for the sizes below the maximum alignment.
-/

namespace TiOpenCL

namespace HeapManager

/-! ### The next power of two -/

/-- The loop of `next_power_of_two` before the shift `i`: a bit is set if one of the `i` bits from
it on was set at the start. -/
def Smeared (start i k : ℕ) : Prop :=
  ∀ b, k.testBit b = true ↔ ∃ j, b ≤ j ∧ j < b + i ∧ start.testBit j = true

/-- One round doubles the distance that the bits have been moved down. -/
lemma Smeared.double {start i k : ℕ} (h : Smeared start i k) :
    Smeared start (2 * i) (k ||| k >>> i) := by
  intro b
  have hor : (k ||| k >>> i).testBit b = true ↔ k.testBit b = true ∨ k.testBit (b + i) = true := by
    rw [Nat.testBit_or, Nat.testBit_shiftRight, Bool.or_eq_true, Nat.add_comm i b]
  rw [hor, h b, h (b + i)]
  constructor
  · rintro (⟨j, h1, h2, h3⟩ | ⟨j, h1, h2, h3⟩)
    · exact ⟨j, h1, by omega, h3⟩
    · exact ⟨j, by omega, by omega, h3⟩
  · rintro ⟨j, h1, h2, h3⟩
    rcases Nat.lt_or_ge j (b + i) with hlt | hge
    · exact Or.inl ⟨j, h1, hlt, h3⟩
    · exact Or.inr ⟨j, hge, by omega, h3⟩

/-- With enough rounds the loop ends with a shift that is not below the width. -/
lemma smearBits_smeared {w start : ℕ} (rounds : ℕ) : ∀ {i k : ℕ}, Smeared start i k →
    w ≤ i * 2 ^ rounds → ∃ i', w ≤ i' ∧ Smeared start i' (smearBits w rounds i k) := by
  induction rounds with
  | zero => exact fun {i k} h hw => ⟨i, by simpa using hw, h⟩
  | succ rounds ih =>
    intro i k h hw
    unfold smearBits
    split
    · refine ih h.double ?_
      calc w ≤ i * 2 ^ (rounds + 1) := hw
        _ = 2 * i * 2 ^ rounds := by ring
    · next hge => exact ⟨i, by omega, h⟩

/-- The loop of `next_power_of_two` sets all bits below the highest one. -/
lemma smearBits_eq {w k : ℕ} (hk : k < 2 ^ w) : smearBits w w 1 k = 2 ^ k.size - 1 := by
  have hone : Smeared k 1 k := by
    intro b
    constructor
    · exact fun h => ⟨b, le_rfl, by omega, h⟩
    · rintro ⟨j, h1, h2, h3⟩
      obtain rfl : j = b := by omega
      exact h3
  obtain ⟨i, hi, hs⟩ := smearBits_smeared (w := w) w hone (by simpa using Nat.lt_two_pow_self.le)
  refine Nat.eq_of_testBit_eq fun b => Bool.eq_iff_iff.mpr ?_
  rw [hs b, Nat.testBit_two_pow_sub_one, decide_eq_true_eq, Nat.lt_size]
  constructor
  · rintro ⟨j, hbj, -, hbit⟩
    exact (Nat.pow_le_pow_right (by omega) hbj).trans (Nat.ge_two_pow_of_testBit hbit)
  · intro hle
    obtain ⟨j, hbj, hbit⟩ := Nat.exists_ge_and_testBit_of_ge_two_pow hle
    have hj : j < w := by
      by_contra hge
      have hlow := Nat.ge_two_pow_of_testBit hbit
      have hhigh : 2 ^ w ≤ 2 ^ j := Nat.pow_le_pow_right (by omega) (by omega)
      omega
    exact ⟨j, hbj, by omega, hbit⟩

/-- `next_power_of_two` of a size below a power of two is a power of two. -/
lemma nextPowerOfTwo_two_pow {w m k : ℕ} (hm : m < w) (hk : k < 2 ^ m) :
    ∃ j < w, nextPowerOfTwo w k = 2 ^ j := by
  have hmw : 2 ^ m < 2 ^ w := Nat.pow_lt_pow_right (by omega) hm
  unfold nextPowerOfTwo
  split
  · exact ⟨0, by omega, rfl⟩
  · next h0 =>
    have hpred : wsub w k 1 = k - 1 := wsub_eq (by omega) (by omega)
    have hsize : (k - 1).size ≤ m := Nat.size_le.mpr (by omega)
    have hlt : 2 ^ (k - 1).size < 2 ^ w := Nat.pow_lt_pow_right (by omega) (by omega)
    have hpos : 0 < 2 ^ (k - 1).size := by positivity
    refine ⟨(k - 1).size, by omega, ?_⟩
    rw [hpred, smearBits_eq (by omega), wadd_eq (by omega)]
    omega

variable {w : ℕ}

/-- The maximum alignment of a heap with additional alignment requirements is a power of two. -/
def PowAlign (h : HeapManager w) : Prop :=
  h.addrsNeedPow2SizeAlignment = true → ∃ m < w, h.maxPow2SizeAlignment = 2 ^ m

/-- The alignment of a request to a heap with a range is a power of two. -/
lemma alignment_two_pow {h : HeapManager w} (hp : PowBlock h) (ha : PowAlign h) (hlen : 0 < h.length)
    (size : ℕ) : ∃ j < w, h.alignment size = 2 ^ j := by
  unfold alignment
  split
  · next hneed =>
    obtain ⟨m, hm, hmax⟩ := ha hneed
    rw [hmax]
    split
    · exact ⟨m, hm, rfl⟩
    · next hlt => exact nextPowerOfTwo_two_pow hm (by omega)
  · rcases hp with hzero | hblock
    · omega
    · exact hblock

/-! ### Configured heaps -/

/-- The range of a configured heap. -/
lemma config_range (cfg : Config w) : cfg.heap.length = cfg.length ∧
    (0 < cfg.length → cfg.heap.startAddr = cfg.startAddr) := by
  have hconf : ((constructed : HeapManager w).configure cfg.startAddr cfg.length
        (2 ^ cfg.blockLog)).length = cfg.length ∧
      (0 < cfg.length → ((constructed : HeapManager w).configure cfg.startAddr cfg.length
        (2 ^ cfg.blockLog)).startAddr = cfg.startAddr) := by
    unfold configure
    split
    · exact ⟨rfl, fun _ => rfl⟩
    · next hnot =>
      have hzero : cfg.length = 0 := by
        by_contra hne
        exact hnot ⟨rfl, by omega⟩
      exact ⟨hzero.symm, fun hpos => by omega⟩
  unfold Config.heap
  cases cfg.maxAlignLog with
  | none => exact hconf
  | some k =>
    simp only [setAdditionalAlignmentRequirements]
    split <;> exact hconf

/-- The maximum alignment of a configured heap is a power of two. -/
lemma powAlign_config (cfg : Config w) : PowAlign cfg.heap := by
  have hconf : ((constructed : HeapManager w).configure cfg.startAddr cfg.length
      (2 ^ cfg.blockLog)).addrsNeedPow2SizeAlignment = false := by
    unfold configure
    split <;> rfl
  intro hneed
  unfold Config.heap at hneed ⊢
  cases hk : cfg.maxAlignLog with
  | none => simp [hk, hconf] at hneed
  | some k =>
    simp only [hk, setAdditionalAlignmentRequirements] at hneed ⊢
    split
    · exact ⟨k, cfg.maxAlignLog_lt k (by simp [hk]), rfl⟩
    · next hnot =>
      rw [if_neg hnot, hconf] at hneed
      simp at hneed

/-! ### The search of `malloc` -/

/-- Some free block has room for the rounded size of the request at an aligned address. -/
def Fits (h : HeapManager w) (size : ℕ) : Prop :=
  ∃ kv ∈ h.freeList.entries, ∃ a, kv.1 ≤ a ∧ h.alignment (h.roundSize size) ∣ a ∧
    a + h.roundSize size ≤ kv.1 + kv.2

/-- A free block with room at an aligned address has room at its first aligned address. -/
lemma place_isSome {j size a : ℕ} {kv : ℕ × ℕ} (hj : j < w) (hsize : 0 < size)
    (hkv : kv.1 + kv.2 ≤ 2 ^ w) (hle : kv.1 ≤ a) (hdvd : 2 ^ j ∣ a)
    (hroom : a + size ≤ kv.1 + kv.2) : (place w (2 ^ j) size kv).isSome := by
  have hpos : 0 < 2 ^ j := by positivity
  obtain ⟨m, rfl⟩ := hdvd
  -- the next multiple is not above the type, so the rounding does not wrap
  have hnext : 2 ^ j * m + 2 ^ j ≤ 2 ^ w := by
    obtain ⟨d, hd⟩ := pow_dvd_pow 2 hj.le
    have hlt : m < d := by
      by_contra hge
      have hmul : 2 ^ j * d ≤ 2 ^ j * m := Nat.mul_le_mul_left _ (by omega)
      omega
    calc 2 ^ j * m + 2 ^ j = 2 ^ j * (m + 1) := by ring
      _ ≤ 2 ^ j * d := Nat.mul_le_mul_left _ hlt
      _ = 2 ^ w := hd.symm
  have hround : roundup w kv.1 (2 ^ j) = (kv.1 + 2 ^ j - 1) / 2 ^ j * 2 ^ j :=
    roundup_two_pow hj (by omega)
  have hup : roundup w kv.1 (2 ^ j) ≤ 2 ^ j * m := by
    rw [hround, Nat.mul_comm (2 ^ j) m]
    refine Nat.mul_le_mul_right _ ?_
    rw [Nat.div_le_iff_le_mul_add_pred hpos]
    omega
  have hge : kv.1 ≤ roundup w kv.1 (2 ^ j) := by
    rw [hround]
    have hdiv := Nat.div_add_mod (kv.1 + 2 ^ j - 1) (2 ^ j)
    have hmod := Nat.mod_lt (kv.1 + 2 ^ j - 1) hpos
    rw [Nat.mul_comm] at hdiv
    omega
  have hgap : wsub w (roundup w kv.1 (2 ^ j)) kv.1 = roundup w kv.1 (2 ^ j) - kv.1 :=
    wsub_eq hge (roundup_lt _ _ _)
  have hshort : roundup w kv.1 (2 ^ j) - kv.1 < kv.2 := by omega
  unfold place
  simp only [hgap, if_pos hshort]
  rw [if_neg (by omega)]
  rfl

/-- `malloc` serves every request that fits. -/
lemma Fits.serves {h : HeapManager w} (ht : WellTiled h) (hp : PowBlock h) (ha : PowAlign h)
    {size : ℕ} (hok : h.MallocOk size) (hfits : h.Fits size) : h.Serves size := by
  obtain ⟨kv, hkv, a, hle, hdvd, hroom⟩ := hfits
  have hrange := ht.free_range hkv
  have hrange' := ht.range
  have hsize := hok.roundSize_pos ht hp hkv
  obtain ⟨j, hj, halign⟩ := alignment_two_pow hp ha (by omega) (h.roundSize size)
  rw [halign] at hdvd
  refine List.findSome?_isSome_iff.mpr ⟨kv, hkv, ?_⟩
  rw [halign]
  exact place_isSome hj hsize (by omega) hle hdvd hroom

end HeapManager

end TiOpenCL
