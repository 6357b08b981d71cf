import TiOpenCL.Mpax.HeapInit
import TiOpenCL.Mpax.Resource

/-!
# The windows of a buffer

`keystone_mmap_resource_alloc` maps a buffer by the smallest aligned window around its first and last
byte, or by two smaller windows around the middle of a large one.  The size of the window is the
exclusive or of the two addresses, rounded up to a power of two in 32 bits.  That is one power of two
too small if the exclusive or is a power of two itself, and it is lost if the addresses differ in bit
31 or above; in all other cases the windows contain the buffer (`alignBuf_spec`).
-/

namespace TiOpenCL

namespace Heap

variable {phys len k x y : ℕ}

/-- The windows of a buffer contain it: its first and last byte do not differ in bit 31 or above, and
not in one bit above the page offset alone. -/
def Mappable (phys len : ℕ) : Prop :=
  phys ^^^ (phys + len - 1) < 2 ^ 31 ∧ ∀ j, 12 ≤ j → phys ^^^ (phys + len - 1) ≠ 2 ^ j

instance (phys len : ℕ) : Decidable (Mappable phys len) :=
  decidable_of_iff (phys ^^^ (phys + len - 1) < 2 ^ 31 ∧
      ∀ j < 31, 12 ≤ j → phys ^^^ (phys + len - 1) ≠ 2 ^ j) <| by
    refine and_congr_right fun hlt => ⟨fun h j hj he => ?_, fun h j _ hj => h j hj⟩
    rw [he] at hlt
    exact h j ((Nat.pow_lt_pow_iff_right (by decide)).mp hlt) hj he

/-- Windows of `2 ^ k` bytes each: aligned to their size, with the buffer starting in or after the
first of them, and across the border of two windows if it can be mapped. -/
structure IsWindows (w : Windows) (phys len k : ℕ) : Prop where
  alignedLen : w.alignedLen = 2 ^ k
  le : 12 ≤ k
  num : w.numMappings = 1 ∧ k ≤ 31 ∨ w.numMappings = 2 ∧ k ≤ 30
  aligned : 2 ^ k ∣ w.alignedPhy
  start : w.alignedPhy ≤ phys
  near : phys < w.alignedPhy + 2 ^ 31
  raddr_lt : w.alignedPhy + (w.numMappings - 1) * 2 ^ k < 2 ^ 36
  middle : Mappable phys len → w.numMappings = 2 →
    phys < w.alignedPhy + 2 ^ k ∧ w.alignedPhy + 2 ^ k < phys + len

/-- The size of a window before the check for two. -/
lemma ceil_spec (hy : y < 2 ^ 32) :
    ∃ k, max minLength (power2Ceil y) = 2 ^ k ∧ 12 ≤ k ∧ k ≤ 31 ∧ (12 < k → 2 ^ (k - 1) < y) ∧
      (y ≤ 2 ^ k ∨ 2 ^ 31 < y ∧ k = 12) := by
  have hmin : minLength = 2 ^ 12 := rfl
  rcases Nat.eq_zero_or_pos y with rfl | hpos
  · exact ⟨12, by decide, le_rfl, by decide, by simp, Or.inl (Nat.zero_le _)⟩
  · rw [power2Ceil_eq hpos hy, hmin]
    have hle : y ≤ 2 ^ (y - 1).size := by
      have := Nat.lt_size_self (y - 1)
      omega
    have hlow : ∀ s, (y - 1).size = s + 1 → 2 ^ s < y := by
      intro s hs
      have : 2 ^ s ≤ y - 1 := Nat.lt_size.mp (by omega)
      omega
    have hsize : (y - 1).size ≤ 32 := Nat.size_le.mpr (by omega)
    generalize (y - 1).size = s at *
    rcases hsize.lt_or_eq with hs | rfl
    · rw [Nat.mod_eq_of_lt (Nat.pow_lt_pow_right (by decide) hs)]
      rcases Nat.lt_or_ge s 12 with h12 | h12
      · have hpow : 2 ^ s ≤ 2 ^ 12 := Nat.pow_le_pow_right (by decide) h12.le
        exact ⟨12, max_eq_left hpow, le_rfl, by decide, by simp, Or.inl (hle.trans hpow)⟩
      · have hpow : 2 ^ 12 ≤ 2 ^ s := Nat.pow_le_pow_right (by decide) h12
        refine ⟨s, max_eq_right hpow, h12, by omega, fun h => hlow (s - 1) (by omega), Or.inl hle⟩
    · exact ⟨12, by decide, le_rfl, by decide, by simp, Or.inr ⟨hlow 31 rfl, rfl⟩⟩

/-- Above `2 ^ 31` the size is lost. -/
lemma ceil_wrap (hlo : 2 ^ 31 < y) (hhi : y < 2 ^ 32) : max minLength (power2Ceil y) = 2 ^ 12 := by
  obtain ⟨k, hlen, -, hk, -, hhigh⟩ := ceil_spec hhi
  have hpow : 2 ^ k ≤ 2 ^ 31 := Nat.pow_le_pow_right (by decide) hk
  rw [hlen, (hhigh.resolve_left (by omega)).2]

/-- The last byte of a buffer, in 64-bit arithmetic. -/
lemma last_buf (hp : phys < 2 ^ 36) (hl : 1 ≤ len) (hl' : len < 2 ^ 32) :
    wadd 64 phys len = phys + len ∧ wsub 64 (phys + len) 1 = phys + len - 1 :=
  ⟨wadd_eq (by omega), wsub_eq (by omega) (by omega)⟩

/-- One window contains the buffer if and only if the exclusive or of its ends is below the size. -/
lemma one_window_iff (hl : 1 ≤ len) :
    phys + len ≤ phys / 2 ^ k * 2 ^ k + 2 ^ k ↔ phys ^^^ (phys + len - 1) < 2 ^ k := by
  have hpos : 0 < 2 ^ k := by positivity
  rw [xor_lt_two_pow_iff]
  have hlo : phys / 2 ^ k ≤ (phys + len - 1) / 2 ^ k := Nat.div_le_div_right (by omega)
  have hiff : (phys + len - 1) / 2 ^ k < phys / 2 ^ k + 1 ↔
      phys + len - 1 < (phys / 2 ^ k + 1) * 2 ^ k := Nat.div_lt_iff_lt_mul hpos
  rw [Nat.add_mul, Nat.one_mul] at hiff
  omega

/-- With one window the exclusive or of the ends is below the size if and only if the buffer is
mappable. -/
lemma xor_lt_iff_mappable (hk : k ≤ 31) (h12 : 12 ≤ k) (hx : x < 2 ^ 48)
    (hlow : 12 < k → 2 ^ (k - 1) < x % 2 ^ 32)
    (hhigh : x % 2 ^ 32 ≤ 2 ^ k ∨ 2 ^ 31 < x % 2 ^ 32 ∧ k = 12) :
    x < 2 ^ k ↔ x < 2 ^ 31 ∧ ∀ j, 12 ≤ j → x ≠ 2 ^ j := by
  have h31 : 2 ^ k ≤ 2 ^ 31 := Nat.pow_le_pow_right (by decide) hk
  constructor
  · intro hlt
    refine ⟨hlt.trans_le h31, ?_⟩
    rintro j hj rfl
    have hjk : j < k := (Nat.pow_lt_pow_iff_right (by decide : 1 < 2)).mp hlt
    have hmod : 2 ^ j % 2 ^ 32 = 2 ^ j := Nat.mod_eq_of_lt (by omega)
    have hlow' := hlow (by omega)
    rw [hmod] at hlow'
    exact absurd hlow' (Nat.not_lt.mpr (Nat.pow_le_pow_right (by decide) (by omega)))
  · rintro ⟨hlt, hne⟩
    rw [Nat.mod_eq_of_lt (by omega)] at hhigh
    have hne' := hne k h12
    omega

/-! ### Two windows -/

/-- The sizes of two windows around `mid`, given the parts of the buffer before and after it. -/
lemma ceil_half {m : ℕ} (h12 : 12 ≤ k) (hk : k ≤ 30) (hm : m ≤ 2 ^ k) :
    ∃ k', max minLength (power2Ceil m) = 2 ^ k' ∧ 12 ≤ k' ∧ k' ≤ k ∧ m ≤ 2 ^ k' := by
  have h30 : 2 ^ k ≤ 2 ^ 30 := Nat.pow_le_pow_right (by decide) hk
  obtain ⟨k', hlen, hk12, -, hlow, hhigh⟩ := ceil_spec (y := m) (by omega)
  refine ⟨k', hlen, hk12, ?_, by omega⟩
  by_contra hgt
  have hle : 2 ^ k ≤ 2 ^ (k' - 1) := Nat.pow_le_pow_right (by decide) (by omega)
  have := hlow (by omega)
  omega

/-- If the ends of a buffer differ in one bit, the buffer is longer than that power of two. -/
lemma two_pow_lt_of_xor_eq (hl : 1 ≤ len) (hx : phys ^^^ (phys + len - 1) = 2 ^ k) : 2 ^ k < len := by
  have hmod : (phys ^^^ (phys + len - 1)) % 2 ^ k =
      phys % 2 ^ k ^^^ (phys + len - 1) % 2 ^ k := Nat.xor_mod_two_pow
  rw [hx, Nat.mod_self, eq_comm, Nat.xor_eq_zero_iff] at hmod
  have hne : phys ≠ phys + len - 1 := by
    intro he
    rw [← he, Nat.xor_self] at hx
    exact absurd hx (Nat.two_pow_pos k).ne
  have hdvd : 2 ^ k ∣ phys + len - 1 - phys :=
    Nat.dvd_of_mod_eq_zero (Nat.sub_mod_eq_zero_of_mod_eq hmod.symm)
  have hle := Nat.le_of_dvd (by omega) hdvd
  omega

/-- Two windows around the middle of the window of a mappable buffer. -/
lemma two_windows (h25 : 25 ≤ k) (hk : k ≤ 31) (hl : 1 ≤ len) (hp : phys < 2 ^ 36)
    (hlen : len ≤ 2 ^ (k - 1)) (hlow : 2 ^ (k - 1) < phys ^^^ (phys + len - 1))
    (hhigh : phys ^^^ (phys + len - 1) ≤ 2 ^ k) :
    phys < phys / 2 ^ k * 2 ^ k + 2 ^ (k - 1) ∧
      phys / 2 ^ k * 2 ^ k + 2 ^ (k - 1) < phys + len ∧
      phys ^^^ (phys + len - 1) < 2 ^ k := by
  have hne : phys ^^^ (phys + len - 1) ≠ 2 ^ k := by
    intro he
    have := two_pow_lt_of_xor_eq hl he
    have : 2 ^ (k - 1) ≤ 2 ^ k := Nat.pow_le_pow_right (by decide) (by omega)
    omega
  obtain ⟨k, rfl⟩ : ∃ k', k = k' + 1 := ⟨k - 1, by omega⟩
  rw [Nat.add_sub_cancel] at *
  have hw := xor_window (show phys ≤ phys + len - 1 by omega) hlow.le (by omega)
  omega

/-- A buffer across a multiple of `2 ^ 32` starts after the middle of its window. -/
lemma middle_lt (h25 : 25 ≤ k) (hk : k ≤ 31) (hl : 1 ≤ len) (hlen : len ≤ 2 ^ (k - 1))
    (hx : 2 ^ 32 ≤ phys ^^^ (phys + len - 1)) :
    phys / 2 ^ k * 2 ^ k + 2 ^ (k - 1) < phys ∧
      phys / 2 ^ k * 2 ^ k + 2 ^ k < phys + len := by
  have hdiff : phys / 2 ^ 32 ≠ (phys + len - 1) / 2 ^ 32 := fun he =>
    absurd ((xor_lt_two_pow_iff phys (phys + len - 1) 32).mpr he) (by omega)
  have hle : phys / 2 ^ 32 ≤ (phys + len - 1) / 2 ^ 32 := Nat.div_le_div_right (by omega)
  have hpow : 2 ^ k = 2 ^ (k - 1) + 2 ^ (k - 1) := by
    obtain ⟨k, rfl⟩ : ∃ k', k = k' + 1 := ⟨k - 1, by omega⟩
    rw [Nat.add_sub_cancel]
    ring
  have hpos : 0 < 2 ^ (k - 1) := by positivity
  -- the multiple of `2 ^ 32` is one of `2 ^ k` too
  have hB : (phys / 2 ^ 32 + 1) * 2 ^ 32 ≤ phys + len - 1 :=
    (Nat.le_div_iff_mul_le (by positivity)).mp (by omega)
  have hB' : phys < (phys / 2 ^ 32 + 1) * 2 ^ 32 := by
    have := Nat.lt_div_mul_add (a := phys) (b := 2 ^ 32) (by positivity)
    omega
  have hdvd : 2 ^ k ∣ (phys / 2 ^ 32 + 1) * 2 ^ 32 := (pow_dvd_pow 2 (by omega)).mul_left _
  have hdvd' : 2 ^ k ∣ phys / 2 ^ k * 2 ^ k := Dvd.intro_left _ rfl
  have hbase : phys / 2 ^ k * 2 ^ k ≤ phys := Nat.div_mul_le_self ..
  have hbase' : phys < phys / 2 ^ k * 2 ^ k + 2 ^ k := Nat.lt_div_mul_add (by positivity)
  have hup := add_le_of_dvd hdvd' hdvd (hbase.trans_lt hB')
  generalize (phys / 2 ^ 32 + 1) * 2 ^ 32 = B at *
  omega

/-! ### The windows that are chosen -/

/-- `alignBuf` with one window. -/
lemma alignBuf_one (hp : phys < 2 ^ 36) (hl : 1 ≤ len) (hl' : len < 2 ^ 32) (hk : k ≤ 31)
    (hlen : max minLength (power2Ceil ((phys ^^^ (phys + len - 1)) % 2 ^ 32)) = 2 ^ k)
    (hone : ¬ (lengthThreshold < 2 ^ k ∧ 1 < 2 ^ k / len)) :
    alignBuf phys len = ⟨phys / 2 ^ k * 2 ^ k, 2 ^ k, 1⟩ := by
  unfold alignBuf
  simp only [(last_buf hp hl hl').1, (last_buf hp hl hl').2, hlen, if_neg hone]
  rw [and_wnot_two_pow (by omega) (by omega)]

/-- `alignBuf` with two windows. -/
lemma alignBuf_two (hp : phys < 2 ^ 36) (hl : 1 ≤ len) (hl' : len < 2 ^ 32) (hk : k ≤ 31)
    (hlen : max minLength (power2Ceil ((phys ^^^ (phys + len - 1)) % 2 ^ 32)) = 2 ^ k)
    (htwo : lengthThreshold < 2 ^ k ∧ 1 < 2 ^ k / len) {mid m : ℕ}
    (hmid : mid = phys / 2 ^ k * 2 ^ k + 2 ^ k / 2)
    (hm : m = max (wsub 64 mid phys % 2 ^ 32) (wsub 64 (phys + len) mid) % 2 ^ 32) :
    alignBuf phys len = ⟨wsub 64 mid (max minLength (power2Ceil m)), max minLength (power2Ceil m), 2⟩ := by
  have hbase : phys / 2 ^ k * 2 ^ k ≤ phys := Nat.div_mul_le_self ..
  have h31 : 2 ^ k ≤ 2 ^ 31 := Nat.pow_le_pow_right (by decide) hk
  have hadd : wadd 64 (phys / 2 ^ k * 2 ^ k) (2 ^ k / 2) = mid := by
    rw [hmid]
    exact wadd_eq (by omega)
  unfold alignBuf
  simp only [(last_buf hp hl hl').1, (last_buf hp hl hl').2, hlen, if_pos htwo]
  rw [and_wnot_two_pow (by omega) (by omega), hadd, ← hm]

/-- Two windows around `mid`. -/
lemma isWindows_two {mid : ℕ} (h12 : 12 ≤ k) (hk : k ≤ 30) (hdvd : 2 ^ k ∣ mid) (hle : 2 ^ k ≤ mid)
    (hlt : mid < 2 ^ 36) (hstart : mid ≤ phys + 2 ^ k) (hnear : phys < mid + 2 ^ 30)
    (hmid : Mappable phys len → phys < mid ∧ mid < phys + len) :
    IsWindows ⟨mid - 2 ^ k, 2 ^ k, 2⟩ phys len k where
  alignedLen := rfl
  le := h12
  num := Or.inr ⟨rfl, hk⟩
  aligned := Nat.dvd_sub hdvd (dvd_refl _)
  start := by
    show mid - 2 ^ k ≤ phys
    omega
  near := by
    have h30 : 2 ^ k ≤ 2 ^ 30 := Nat.pow_le_pow_right (by decide) hk
    show phys < mid - 2 ^ k + 2 ^ 31
    omega
  raddr_lt := by
    show mid - 2 ^ k + 1 * 2 ^ k < 2 ^ 36
    omega
  middle hm _ := by
    have := hmid hm
    show phys < mid - 2 ^ k + 2 ^ k ∧ mid - 2 ^ k + 2 ^ k < phys + len
    omega

/-- The two windows of a buffer whose ends differ in the low 32 bits only: they contain it. -/
lemma alignBuf_two_spec (hp : phys < 2 ^ 36) (hl : 1 ≤ len) (hl' : len < 2 ^ 32) (h25 : 25 ≤ k)
    (hk : k ≤ 31) (hlen : max minLength (power2Ceil ((phys ^^^ (phys + len - 1)) % 2 ^ 32)) = 2 ^ k)
    (htwo : lengthThreshold < 2 ^ k ∧ 1 < 2 ^ k / len) (hlen2 : len ≤ 2 ^ (k - 1))
    (hpow : 2 ^ k = 2 ^ (k - 1) + 2 ^ (k - 1))
    (hlow : 2 ^ (k - 1) < phys ^^^ (phys + len - 1)) (hhigh : phys ^^^ (phys + len - 1) ≤ 2 ^ k)
    (hx : phys ^^^ (phys + len - 1) < 2 ^ 32) :
    ∃ k', IsWindows (alignBuf phys len) phys len k' ∧ Mappable phys len ∧
      phys + len ≤ (alignBuf phys len).alignedPhy + (alignBuf phys len).numMappings * 2 ^ k' := by
  have h30 : 2 ^ (k - 1) ≤ 2 ^ 30 := Nat.pow_le_pow_right (by decide) (by omega)
  have hdvd : 2 ^ (k - 1) ∣ phys / 2 ^ k * 2 ^ k + 2 ^ (k - 1) :=
    ((pow_dvd_pow 2 (Nat.sub_le k 1)).mul_left _).add (dvd_refl _)
  obtain ⟨h1, h2, h3⟩ := two_windows h25 hk hl hp hlen2 hlow hhigh
  -- the last byte is below `2 ^ 36` as the first one is
  have hlast : phys + len ≤ 2 ^ 36 := by
    have := (xor_lt_two_pow_iff phys (phys + len - 1) 36).mp (by omega)
    rw [Nat.div_eq_of_lt hp, eq_comm, Nat.div_eq_zero_iff] at this
    omega
  have hmap : Mappable phys len := by
    refine ⟨by omega, fun j hj he => ?_⟩
    rw [he] at h3 hlow
    have hjk := (Nat.pow_lt_pow_iff_right (by decide : 1 < 2)).mp h3
    have hkj := (Nat.pow_lt_pow_iff_right (by decide : 1 < 2)).mp hlow
    omega
  rw [alignBuf_two hp hl hl' hk hlen htwo rfl rfl, show 2 ^ k / 2 = 2 ^ (k - 1) by omega]
  generalize phys / 2 ^ k * 2 ^ k + 2 ^ (k - 1) = mid at *
  obtain ⟨k', hlen', hk12, hkk, hmax⟩ :=
    ceil_half (k := k - 1) (m := max (mid - phys) (phys + len - mid)) (by omega) (by omega) (by omega)
  have hk' : 2 ^ k' ≤ 2 ^ (k - 1) := Nat.pow_le_pow_right (by decide) hkk
  have hmidle : 2 ^ (k - 1) ≤ mid := Nat.le_of_dvd (by omega) hdvd
  rw [wsub_eq h1.le (by omega), wsub_eq h2.le (by omega), Nat.mod_eq_of_lt (by omega),
    Nat.mod_eq_of_lt (by omega), hlen', wsub_eq (by omega) (by omega)]
  refine ⟨k', isWindows_two hk12 (by omega) ((pow_dvd_pow 2 hkk).trans hdvd) (by omega) (by omega)
    (by omega) (by omega) fun _ => ⟨h1, h2⟩, hmap, ?_⟩
  show phys + len ≤ mid - 2 ^ k' + 2 * 2 ^ k'
  omega

/-- The two windows of a buffer across a multiple of `2 ^ 32`: the difference of the middle and the
start wraps around, so they are too small. -/
lemma alignBuf_wrap_spec (hp : phys < 2 ^ 36) (hl : 1 ≤ len) (hl' : len < 2 ^ 32) (h25 : 25 ≤ k)
    (hk : k ≤ 31) (hlen : max minLength (power2Ceil ((phys ^^^ (phys + len - 1)) % 2 ^ 32)) = 2 ^ k)
    (htwo : lengthThreshold < 2 ^ k ∧ 1 < 2 ^ k / len) (hlen2 : len ≤ 2 ^ (k - 1))
    (hpow : 2 ^ k = 2 ^ (k - 1) + 2 ^ (k - 1)) (hx : 2 ^ 32 ≤ phys ^^^ (phys + len - 1)) :
    IsWindows (alignBuf phys len) phys len 12 ∧ ¬ Mappable phys len ∧
      (alignBuf phys len).alignedPhy + (alignBuf phys len).numMappings * 2 ^ 12 < phys + len := by
  have h30 : 2 ^ (k - 1) ≤ 2 ^ 30 := Nat.pow_le_pow_right (by decide) (by omega)
  have h24 : 2 ^ 24 ≤ 2 ^ (k - 1) := Nat.pow_le_pow_right (by decide) (by omega)
  have hdvd : 2 ^ (k - 1) ∣ phys / 2 ^ k * 2 ^ k + 2 ^ (k - 1) :=
    ((pow_dvd_pow 2 (Nat.sub_le k 1)).mul_left _).add (dvd_refl _)
  obtain ⟨h1, h2⟩ := middle_lt h25 hk hl hlen2 hx
  have hend : phys < phys / 2 ^ k * 2 ^ k + 2 ^ k := Nat.lt_div_mul_add (by positivity)
  have hmap : ¬ Mappable phys len := fun hm => absurd hm.1 (by omega)
  rw [alignBuf_two hp hl hl' hk hlen htwo rfl rfl, show 2 ^ k / 2 = 2 ^ (k - 1) by omega]
  have hend' : phys < phys / 2 ^ k * 2 ^ k + 2 ^ (k - 1) + 2 ^ (k - 1) := by omega
  have h2' : phys / 2 ^ k * 2 ^ k + 2 ^ (k - 1) + 2 ^ (k - 1) < phys + len := by omega
  have hmidle : 2 ^ (k - 1) ≤ phys / 2 ^ k * 2 ^ k + 2 ^ (k - 1) := Nat.le_add_left ..
  generalize phys / 2 ^ k * 2 ^ k + 2 ^ (k - 1) = mid at *
  have hwrap : wsub 64 mid phys % 2 ^ 32 = 2 ^ 32 - (phys - mid) := by
    rw [wsub_eq_of_lt h1 (by omega)]
    omega
  have hmax : max (wsub 64 mid phys % 2 ^ 32) (wsub 64 (phys + len) mid) % 2 ^ 32 =
      2 ^ 32 - (phys - mid) := by
    rw [hwrap, wsub_eq (by omega) (by omega)]
    omega
  rw [hmax, ceil_wrap (y := 2 ^ 32 - (phys - mid)) (by omega) (by omega), wsub_eq (by omega) (by omega)]
  refine ⟨isWindows_two le_rfl (by decide) ((pow_dvd_pow 2 (by omega)).trans hdvd) (by omega)
    (by omega) (by omega) (by omega) fun hm => absurd hm hmap, hmap, ?_⟩
  show mid - 2 ^ 12 + 2 * 2 ^ 12 < phys + len
  omega

/-- The windows of a buffer, and when they contain it. -/
theorem alignBuf_spec (hp : phys < 2 ^ 36) (hl : 1 ≤ len) (hl' : len < 2 ^ 32) :
    ∃ k, IsWindows (alignBuf phys len) phys len k ∧
      (phys + len ≤ (alignBuf phys len).alignedPhy + (alignBuf phys len).numMappings * 2 ^ k ↔
        Mappable phys len) := by
  have hx : phys ^^^ (phys + len - 1) < 2 ^ 48 := Nat.xor_lt_two_pow (by omega) (by omega)
  obtain ⟨k, hlen, h12, hk, hlow, hhigh⟩ :=
    ceil_spec (y := (phys ^^^ (phys + len - 1)) % 2 ^ 32) (Nat.mod_lt _ (by positivity))
  have hbase : phys / 2 ^ k * 2 ^ k ≤ phys := Nat.div_mul_le_self ..
  by_cases htwo : lengthThreshold < 2 ^ k ∧ 1 < 2 ^ k / len
  · have hthr : lengthThreshold = 2 ^ 24 := rfl
    have h25 : 25 ≤ k := (Nat.pow_lt_pow_iff_right (by decide : 1 < 2)).mp (hthr ▸ htwo.1)
    have hpow : 2 ^ k = 2 ^ (k - 1) + 2 ^ (k - 1) := by
      obtain ⟨k, rfl⟩ : ∃ k', k = k' + 1 := ⟨k - 1, by omega⟩
      rw [Nat.add_sub_cancel]
      ring
    have hlen2 : len ≤ 2 ^ (k - 1) := by
      have := (Nat.le_div_iff_mul_le hl).mp htwo.2
      omega
    rcases Nat.lt_or_ge (phys ^^^ (phys + len - 1)) (2 ^ 32) with hsmall | hbig
    · rw [Nat.mod_eq_of_lt hsmall] at hlow hhigh
      have h31 : 2 ^ k ≤ 2 ^ 31 := Nat.pow_le_pow_right (by decide) hk
      obtain ⟨k', hw, hmap, hle⟩ := alignBuf_two_spec hp hl hl' h25 hk hlen htwo hlen2 hpow
        (hlow (by omega)) (by omega) hsmall
      exact ⟨k', hw, iff_of_true hle hmap⟩
    · obtain ⟨hw, hmap, hlt⟩ := alignBuf_wrap_spec hp hl hl' h25 hk hlen htwo hlen2 hpow hbig
      exact ⟨12, hw, iff_of_false (Nat.not_le.mpr hlt) hmap⟩
  · rw [alignBuf_one hp hl hl' hk hlen htwo]
    have hend : phys < phys / 2 ^ k * 2 ^ k + 2 ^ k := Nat.lt_div_mul_add (by positivity)
    have h31 : 2 ^ k ≤ 2 ^ 31 := Nat.pow_le_pow_right (by decide) hk
    refine ⟨k, ⟨rfl, h12, Or.inl ⟨rfl, hk⟩, Dvd.intro_left _ rfl, hbase, hend.trans_le (by gcongr), ?_,
      fun _ h => absurd h (by simp)⟩, ?_⟩
    · show phys / 2 ^ k * 2 ^ k + 0 * 2 ^ k < 2 ^ 36
      omega
    · rw [Nat.one_mul, one_window_iff hl]
      exact xor_lt_iff_mappable hk h12 hx hlow hhigh

end Heap

end TiOpenCL
