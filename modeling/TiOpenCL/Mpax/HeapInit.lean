import TiOpenCL.Mpax.HeapReserve
import Mathlib.Data.Finset.Card
import Mathlib.Data.Nat.Log

/-!
# Setting up a heap

`heap_init` takes the smallest aligned window around the range of the heap and reserves the rest of
it.  The range meets both halves of the window, so what is before it lies in the lower half and what
is after it in the upper one, and every part is reserved from a free leaf.  A range across `2 ^ 31`
has no window below `2 ^ 32`: the heap is then left without a block, or the reservation splits
elements of size zero until the bank is used up.
-/

namespace TiOpenCL

namespace Heap

variable {c : MmapConstants} {bank bank' : Bank} {t t' l l' r r' : SplitTree Mark}
  {i j idx base k fuel addr size n : ℕ}

/-! ### The size of the window -/

/-- The loop doubles its result once for every bit of its argument. -/
lemma power2CeilLoop_eq {n inp out : ℕ} (hinp : inp < 2 ^ n) (hout : out < 2 ^ 32) :
    power2CeilLoop n inp out = out * 2 ^ inp.size % 2 ^ 32 := by
  have hdone : ∀ out < 2 ^ 32, out = out * 2 ^ (0 : ℕ).size % 2 ^ 32 := by
    intro out hout
    rw [Nat.size_zero, pow_zero, mul_one, Nat.mod_eq_of_lt hout]
  induction n generalizing inp out with
  | zero =>
    obtain rfl : inp = 0 := by omega
    exact hdone out hout
  | succ n ih =>
    rw [power2CeilLoop]
    split_ifs with h0
    · rw [h0]
      exact hdone out hout
    · have hbit : Nat.bit inp.bodd (inp / 2) = inp := by
        rw [← Nat.div2_val]
        exact Nat.bit_bodd_div2 inp
      have hsize : inp.size = (inp / 2).size + 1 := by
        conv_lhs => rw [← hbit]
        exact Nat.size_bit (by rwa [hbit])
      have hlt : wmul 32 out 2 < 2 ^ 32 := Nat.mod_lt _ (by norm_num)
      rw [ih (by rw [pow_succ] at hinp; omega) hlt, hsize, wmul,
        Nat.mod_mul_mod, pow_succ]
      ring_nf

/-- `power2_ceil` of a positive word. -/
lemma power2Ceil_eq {inp : ℕ} (h0 : 0 < inp) (h : inp < 2 ^ 32) :
    power2Ceil inp = 2 ^ (inp - 1).size % 2 ^ 32 := by
  rw [power2Ceil, wsub_eq h0 h, power2CeilLoop_eq (by omega) (by norm_num), Nat.one_mul]

/-- `power2_ceil` of a number between two powers of two. -/
lemma power2Ceil_of_lt {inp : ℕ} (hlo : 2 ^ k < inp) (hhi : inp ≤ 2 ^ (k + 1)) (h : inp < 2 ^ 32) :
    power2Ceil inp = 2 ^ (k + 1) % 2 ^ 32 := by
  have hsize : (inp - 1).size = k + 1 := by
    refine le_antisymm (Nat.size_le.mpr (by omega)) (Nat.lt_size.mpr (by omega))
  rw [power2Ceil_eq (by omega) h, hsize]

/-! ### Ranges without a window -/

/-- The number of elements that are not in use. -/
def unused (c : MmapConstants) (bank : Bank) : ℕ :=
  ((Finset.range c.maxNumHeapElems).filter fun i => (bank i).inUse = false).card

/-- Splitting takes elements from the bank. -/
lemma Splits.unused_lt (h : Splits c bank bank' idx i j) (hu : (bank idx).inUse = true) :
    unused c bank' < unused c bank := by
  have hx : ∀ x, (bank' x).inUse = false → (bank x).inUse = false := by
    intro x hx
    by_cases h1 : x = idx
    · subst h1
      rw [h.vertex] at hx
      simp [hu] at hx
    · by_cases h2 : x = i
      · exact h2 ▸ h.lower_fresh.1
      · by_cases h3 : x = j
        · exact h3 ▸ h.upper_fresh.1
        · rwa [h.other x h1 h2 h3] at hx
  refine Finset.card_lt_card (Finset.ssubset_iff_of_subset ?_ |>.mpr ⟨i, ?_, ?_⟩)
  · intro x
    simp only [Finset.mem_filter]
    exact fun hm => ⟨hm.1, hx x hm.2⟩
  · simpa using ⟨h.lower_fresh.2, h.lower_fresh.1⟩
  · simp [h.lower, leafElement]

/-- Reserving from an element of size zero uses up the bank. -/
lemma heapReserve_spent (hfuel : unused c bank < fuel) (hs : Stocked bank)
    (hu : (bank idx).inUse = true) (hbase : (bank idx).baseAddr = 0) (hlen : (bank idx).length = 0)
    (hsub : (bank idx).subElem0 = 0) (ha : 0 < addr) (ha' : addr < 2 ^ 32) (hsize : size ≠ 0) :
    heapReserve c fuel bank idx addr size = .error .noElement := by
  induction fuel generalizing bank idx with
  | zero => exact absurd hfuel (Nat.not_lt_zero _)
  | succ fuel ih =>
    have hlast : lastAddr (bank idx) = 2 ^ 32 - 1 := by
      rw [lastAddr, hbase, hlen]
      rfl
    have hc : Contains (bank idx) addr := ⟨by omega, by omega⟩
    rw [heapReserve, if_neg hsize, if_neg (by omega), if_pos hc]
    rcases heapSplitElem_spec c hs hu hsub with he | ⟨i, j, bank₁, he, hsp⟩
    · rw [he]
      rfl
    · have hlt := hsp.unused_lt hu
      have hi : bank₁ i = leafElement 0 0 := by rw [hsp.lower, hbase, hlen]
      have hres : heapReserve c fuel bank₁ i addr size = .error .noElement :=
        ih (by omega) (hsp.stocked hu hs) (by rw [hi]; rfl) (by rw [hi]; rfl) (by rw [hi]; rfl)
          (by rw [hi]; rfl)
      rw [he]
      simp only [bind, Except.bind, reserveHalves, hsp.vertex, hres]

/-! ### The window -/

/-- A range of bytes that is a multiple of four in place and size and lies below `2 ^ 32`. -/
structure IsRange (addr size : ℕ) : Prop where
  addr_dvd : 4 ∣ addr
  size_dvd : 4 ∣ size
  addr_lt : addr < 2 ^ 32
  le : addr + size ≤ 2 ^ 32

/-- The range of a heap, and the window that `heap_init` finds for it. -/
structure IsWindow (addr size base k : ℕ) : Prop where
  pos : 0 < k
  lt : k < 32
  aligned : 2 ^ k ∣ base
  bound : base + 2 ^ k ≤ 2 ^ 32
  lower : base ≤ addr ∧ addr ≤ base + 2 ^ (k - 1)
  upper : base + 2 ^ (k - 1) ≤ addr + size ∧ addr + size ≤ base + 2 ^ k

/-- The last address of a range; an empty range at zero ends at the last address of all. -/
lemma last_eq (h : IsRange addr size) :
    wsub 32 (wadd 32 addr size) 1 = if addr + size = 0 then 2 ^ 32 - 1 else addr + size - 1 := by
  split_ifs with h0
  · rw [wadd, h0]
    rfl
  · rcases h.le.lt_or_eq with hlt | heq
    · rw [wadd_eq hlt, wsub_eq (by omega) hlt]
    · rw [wadd, heq]
      rfl

/-- The first and the last address of a range differ in the two lowest bits. -/
lemma xor_last_mod_four (h : IsRange addr size) :
    (addr ^^^ wsub 32 (wadd 32 addr size) 1) % 4 = 3 := by
  have ha := h.addr_dvd
  have hs := h.size_dvd
  have hlast : wsub 32 (wadd 32 addr size) 1 % 4 = 3 := by
    rw [last_eq h]
    split_ifs <;> omega
  have hmod : (addr ^^^ wsub 32 (wadd 32 addr size) 1) % 2 ^ 2 =
      addr % 2 ^ 2 ^^^ wsub 32 (wadd 32 addr size) 1 % 2 ^ 2 := Nat.xor_mod_two_pow
  rw [show (4 : ℕ) = 2 ^ 2 from rfl, hmod, show (2 : ℕ) ^ 2 = 4 from rfl, hlast,
    Nat.mod_eq_zero_of_dvd ha]
  rfl

/-- A power of two does not end in two ones. -/
lemma two_pow_mod_four_ne (k : ℕ) : 2 ^ k % 4 ≠ 3 := by
  rcases k with _ | _ | k
  · decide
  · decide
  · have hdvd : 4 ∣ 2 ^ (k + 2) := ⟨2 ^ k, by ring⟩
    omega

/-- An empty range lies in the middle of its window. -/
lemma middle_of_empty {last : ℕ} (h0 : size = 0)
    (hlast : last = if addr + size = 0 then 2 ^ 32 - 1 else addr + size - 1)
    (hhi : addr ^^^ last < 2 ^ (k + 1)) (hlo : 2 ^ k ≤ addr ^^^ last) (hk : k + 1 < 32) :
    addr = addr / 2 ^ (k + 1) * 2 ^ (k + 1) + 2 ^ k := by
  have haddr : addr + size ≠ 0 := by
    intro hz
    have hle : 2 ^ (k + 1) ≤ 2 ^ 31 := Nat.pow_le_pow_right (by decide) (by omega)
    rw [if_pos hz] at hlast
    rw [show addr = 0 by omega, Nat.zero_xor] at hhi
    omega
  rw [if_neg haddr] at hlast
  have hsame := (xor_lt_two_pow_iff addr last (k + 1)).mp hhi
  rw [Nat.xor_comm] at hhi hlo
  have hw := xor_window (by omega) hlo hhi
  rw [hsame]
  omega

/-- The window of a range, or no window below `2 ^ 32`. -/
lemma window_of_range (h : IsRange addr size) :
    (∃ k, power2Ceil (addr ^^^ wsub 32 (wadd 32 addr size) 1) = 2 ^ k ∧
      IsWindow addr size (addr / 2 ^ k * 2 ^ k) k) ∨
      power2Ceil (addr ^^^ wsub 32 (wadd 32 addr size) 1) = 0 := by
  have hmod := xor_last_mod_four h
  have hlast := last_eq h
  have hwlt : wsub 32 (wadd 32 addr size) 1 < 2 ^ 32 := wsub_lt ..
  have hx : addr ^^^ wsub 32 (wadd 32 addr size) 1 < 2 ^ 32 := Nat.xor_lt_two_pow h.addr_lt hwlt
  generalize wsub 32 (wadd 32 addr size) 1 = last at *
  obtain ⟨k, hlo, hhi⟩ : ∃ k, 2 ^ k ≤ addr ^^^ last ∧ addr ^^^ last < 2 ^ (k + 1) :=
    ⟨Nat.log 2 (addr ^^^ last), Nat.pow_log_le_self 2 (by omega),
      Nat.lt_pow_succ_log_self (by decide) _⟩
  have hne : 2 ^ k ≠ addr ^^^ last := fun he => two_pow_mod_four_ne k (he ▸ hmod)
  rw [power2Ceil_of_lt (by omega) hhi.le hx]
  have hk : k < 32 := (Nat.pow_lt_pow_iff_right (by decide : 1 < 2)).mp (hlo.trans_lt hx)
  rcases (Nat.succ_le_of_lt hk).lt_or_eq with hk' | hk'
  · refine Or.inl ⟨k + 1, Nat.mod_eq_of_lt (Nat.pow_lt_pow_right (by decide) hk'), ?_⟩
    have hpow : 2 ^ (k + 1) = 2 ^ k + 2 ^ k := by ring
    have hbase : addr / 2 ^ (k + 1) * 2 ^ (k + 1) ≤ addr := Nat.div_mul_le_self ..
    have hdvd : 2 ^ (k + 1) ∣ addr / 2 ^ (k + 1) * 2 ^ (k + 1) := Dvd.intro_left _ rfl
    have hbound : addr / 2 ^ (k + 1) * 2 ^ (k + 1) + 2 ^ (k + 1) ≤ 2 ^ 32 :=
      add_le_of_dvd hdvd (pow_dvd_pow 2 hk) (hbase.trans_lt h.addr_lt)
    have hin : addr ≤ addr / 2 ^ (k + 1) * 2 ^ (k + 1) + 2 ^ k ∧
        addr / 2 ^ (k + 1) * 2 ^ (k + 1) + 2 ^ k ≤ addr + size ∧
        addr + size ≤ addr / 2 ^ (k + 1) * 2 ^ (k + 1) + 2 ^ (k + 1) := by
      by_cases h0 : size = 0
      · have hm := middle_of_empty h0 hlast hhi hlo hk'
        omega
      · rw [if_neg (by omega)] at hlast
        have hw := xor_window (by omega) hlo hhi
        omega
    exact ⟨Nat.succ_pos k, hk', hdvd, hbound, ⟨hbase, hin.1⟩, hin.2⟩
  · refine Or.inr ?_
    rw [Nat.succ_eq_add_one] at hk'
    rw [hk']
    rfl

/-! ### `heap_init` -/

/-- The element of a heap without a window. -/
structure IsSpent (e : HeapElement) : Prop where
  baseAddr : e.baseAddr = 0
  length : e.length = 0
  inUse : e.inUse = true
  subElem0 : e.subElem0 = 0
  subElem1 : e.subElem1 = 0

/-- How `heap_init` may end. -/
inductive InitOutcome (c : MmapConstants) (bank : Bank) (idx addr size : ℕ) :
    Except HeapError Bank → Prop
  /-- The bank had no element left. -/
  | noElement : InitOutcome c bank idx addr size (.error .noElement)
  /-- The window is held with exactly the excess reserved. -/
  | window {bank' : Bank} {t : SplitTree Mark} {base k : ℕ} (hw : IsWindow addr size base k)
    (holds : Holds bank' t base k) (moves : Moves c bank bank' (.leaf idx .free) t)
    (taken : t.marked .taken base k = [])
    (reserved : ∀ x, coverCount (t.marked .reserved base k) x =
      if base ≤ x ∧ x < base + 2 ^ k ∧ ¬ (addr ≤ x ∧ x < addr + size) then 1 else 0) :
    InitOutcome c bank idx addr size (.ok bank')
  /-- There is no window, and the heap has no block to give. -/
  | spent {bank' : Bank} {m : Mark} (hm : m ≠ .taken) (hel : IsSpent (bank' idx))
    (hall : (bank' idx).allocated = count (.leaf idx m))
    (moves : Moves c bank bank' (.leaf idx .free) (.leaf idx m)) :
    InitOutcome c bank idx addr size (.ok bank')

/-- The end of a window minus the end of the range, in 32-bit arithmetic. -/
lemma wsub_end {lo hi : ℕ} (h : lo ≤ hi) (hhi : hi ≤ 2 ^ 32) (hpos : 0 < lo) :
    wsub 32 (hi % 2 ^ 32) (lo % 2 ^ 32) = hi - lo := by
  rcases hhi.lt_or_eq with hlt | rfl
  · rw [Nat.mod_eq_of_lt hlt, Nat.mod_eq_of_lt (by omega), wsub_eq h hlt]
  · rcases h.lt_or_eq with hlt | rfl
    · rw [Nat.mod_self, Nat.mod_eq_of_lt hlt, wsub, Nat.zero_add, Nat.mod_eq_of_lt (by omega)]
    · rfl

/-- The tree of a window before the second reservation: its upper half has nothing reserved. -/
def UpperFree (idx : ℕ) (t : SplitTree Mark) : Prop :=
  t = .leaf idx .free ∨ ∃ l j, t = .node idx l (.leaf j .free)

/-- The reservation before the range. -/
lemma reserve_before (hfuel : k + 1 < fuel) (hv : IsVertex (bank idx) base (k + 1) 0 0 0)
    (hs : Stocked bank) (hw : IsWindow addr size base (k + 1)) :
    heapReserve c fuel bank idx base (addr - base) = .error .noElement ∨
      ∃ n bank' t, heapReserve c fuel bank idx base (addr - base) = .ok (n, bank') ∧ UpperFree idx t ∧
        Reserves c bank bank' (.leaf idx .free) t base (k + 1) base (addr - base) := by
  obtain ⟨hlo, hmid⟩ := hw.lower
  rw [Nat.add_sub_cancel] at hmid
  by_cases h0 : addr - base = 0
  · obtain ⟨fuel, rfl⟩ : ∃ f, fuel = f + 1 := Nat.exists_eq_add_one.mpr (by omega)
    rw [h0, heapReserve_zero]
    exact Or.inr ⟨0, bank, _, rfl, Or.inl rfl, Reserves.refl hv (List.nodup_singleton idx)⟩
  · rcases heapReserve_lower (c := c) hfuel hv hs hw.lt hw.bound le_rfl
      (show base + (addr - base) ≤ base + 2 ^ k by omega) (by omega) with he | ⟨bank', l', j, he, h⟩
    · exact Or.inl he
    · exact Or.inr ⟨_, bank', _, he, Or.inr ⟨l', j, rfl⟩, h⟩

/-- The reservation after the range. -/
lemma reserve_after (hfuel : k + 1 < fuel) (hs : Stocked bank) (hw : IsWindow addr size base (k + 1))
    (h : Holds bank t base (k + 1)) (hnd : t.indices.Nodup) (ht : UpperFree idx t) :
    heapReserve c fuel bank idx ((addr + size) % 2 ^ 32) (base + 2 ^ (k + 1) - (addr + size)) =
        .error .noElement ∨
      ∃ n bank' t', heapReserve c fuel bank idx ((addr + size) % 2 ^ 32)
          (base + 2 ^ (k + 1) - (addr + size)) = .ok (n, bank') ∧
        Reserves c bank bank' t t' base (k + 1) (addr + size)
          (base + 2 ^ (k + 1) - (addr + size)) := by
  obtain ⟨hmid, hhi⟩ := hw.upper
  have hbound := hw.bound
  have h31 : 2 ^ (k + 1) ≤ 2 ^ 31 := Nat.pow_le_pow_right (by decide) (Nat.lt_succ_iff.mp hw.lt)
  have hpk : 0 < 2 ^ k := by positivity
  rw [Nat.add_sub_cancel] at hmid
  by_cases h0 : base + 2 ^ (k + 1) - (addr + size) = 0
  · obtain ⟨fuel, rfl⟩ : ∃ f, fuel = f + 1 := Nat.exists_eq_add_one.mpr (by omega)
    rw [h0, heapReserve_zero]
    exact Or.inr ⟨0, bank, t, rfl, Reserves.refl h hnd⟩
  · rw [Nat.mod_eq_of_lt (by omega)]
    have hout : ReserveOutcome c bank t base (k + 1) (addr + size)
        (base + 2 ^ (k + 1) - (addr + size))
        (heapReserve c fuel bank idx (addr + size) (base + 2 ^ (k + 1) - (addr + size))) := by
      rcases ht with rfl | ⟨l, j, rfl⟩
      · have hleaf := heapReserve_leaf (c := c) hfuel h hs hw.lt hbound
          (show base ≤ addr + size by omega) (show addr + size < base + 2 ^ (k + 1) by omega)
          (show 0 < base + 2 ^ (k + 1) - (addr + size) by omega) (by omega)
        rwa [Nat.min_self] at hleaf
      · exact heapReserve_upper hfuel h hnd hs hw.lt hbound hmid (by omega) (by omega)
    generalize heapReserve c fuel bank idx (addr + size) (base + 2 ^ (k + 1) - (addr + size)) = res
      at hout
    cases hout with
    | noElement => exact Or.inl rfl
    | done h => exact Or.inr ⟨_, _, _, rfl, h⟩

/-- `heap_init` with the window worked out. -/
lemma heapInit_eq (hidx : bank idx = leafElement 0 0)
    (hnorm : power2Ceil (addr ^^^ wsub 32 (wadd 32 addr size) 1) = n)
    (hbase : addr &&& wnot 32 (wsub 32 n 1) = base) :
    heapInit c bank idx addr size =
      (heapReserve c (heapFuel c) (Function.update bank idx (leafElement base n)) idx base
        (wsub 32 addr base)).bind fun res =>
          (heapReserve c (heapFuel c) res.2 idx (wadd 32 addr size)
            (wsub 32 (wadd 32 base n) (wadd 32 addr size))).bind fun res => .ok res.2 := by
  simp only [heapInit, hnorm, hbase, hidx]
  rfl

/-- Setting the block of a root keeps the bank stocked. -/
lemma stocked_update_root (hs : Stocked bank) (idx base n : ℕ) :
    Stocked (Function.update bank idx (leafElement base n)) := by
  refine hs.of_inUse fun x => ?_
  by_cases hx : x = idx
  · exact Or.inr (by rw [hx, Function.update_self]; rfl)
  · exact Or.inl (Function.update_of_ne hx _ _)

/-- `heap_init` of a range with a window. -/
lemma heapInit_window (hs : Stocked bank) (hidx : bank idx = leafElement 0 0) (hr : IsRange addr size)
    (hnorm : power2Ceil (addr ^^^ wsub 32 (wadd 32 addr size) 1) = 2 ^ k)
    (hw : IsWindow addr size (addr / 2 ^ k * 2 ^ k) k) :
    InitOutcome c bank idx addr size (heapInit c bank idx addr size) := by
  obtain ⟨k, rfl⟩ := Nat.exists_eq_add_one.mpr hw.pos
  have hlt : 2 ^ (k + 1) < 2 ^ 32 := Nat.pow_lt_pow_right (by decide) hw.lt
  have hpos : 0 < 2 ^ (k + 1) := by positivity
  have hbase : addr &&& wnot 32 (wsub 32 (2 ^ (k + 1)) 1) = addr / 2 ^ (k + 1) * 2 ^ (k + 1) := by
    rw [wsub_eq hpos hlt, and_wnot_two_pow hw.lt.le hr.addr_lt]
  have hfuel : k + 1 < heapFuel c := by
    have := hw.lt
    simp only [heapFuel]
    omega
  rw [heapInit_eq hidx hnorm hbase]
  generalize addr / 2 ^ (k + 1) * 2 ^ (k + 1) = base at *
  have hbound := hw.bound
  have hlow := hw.lower
  have hup := hw.upper
  have hpk : 0 < 2 ^ (k + 1 - 1) := by positivity
  have hs₀ := stocked_update_root hs idx base (2 ^ (k + 1))
  have hv₀ : IsVertex (Function.update bank idx (leafElement base (2 ^ (k + 1))) idx) base (k + 1)
      0 0 0 := by
    rw [Function.update_self]
    exact ⟨rfl, rfl, rfl, rfl, rfl, rfl⟩
  have hm₀ : Moves c bank (Function.update bank idx (leafElement base (2 ^ (k + 1))))
      (.leaf idx .free) (.leaf idx .free) := Moves.update_leaf idx .free .free _
  generalize Function.update bank idx (leafElement base (2 ^ (k + 1))) = bank₀ at *
  rw [wsub_eq hlow.1 hr.addr_lt, wadd, wadd, wsub_end hup.2 hbound (by omega)]
  rcases reserve_before (c := c) hfuel hv₀ hs₀ hw with he | ⟨n, bank₁, t₁, he, hup₁, hr₁⟩
  · rw [he]
    exact .noElement
  · have hs₁ : Stocked bank₁ := hs₀.moves hr₁.moves (fun _ => hr₁.holds.inUse) fun h0 =>
      (List.mem_singleton.mp h0).symm
    rw [he, Except.bind]
    rcases reserve_after (c := c) hfuel hs₁ hw hr₁.holds hr₁.moves.nodup hup₁ with
      he' | ⟨m, bank₂, t₂, he', hr₂⟩
    · rw [he']
      exact .noElement
    · rw [he', Except.bind]
      refine .window hw hr₂.holds (hm₀.trans hs (hr₁.moves.trans hs₀ hr₂.moves)) ?_ ?_
      · rw [hr₂.taken, hr₁.taken]
        simp
      · intro x
        rw [hr₂.reserved, hr₁.reserved, SplitTree.marked_leaf, if_neg (by decide), coverCount_nil]
        split_ifs <;> omega

/-- `heap_init` of a range without a window. -/
lemma heapInit_spent (hs : Stocked bank) (hidx : bank idx = leafElement 0 0) (hr : IsRange addr size)
    (hnorm : power2Ceil (addr ^^^ wsub 32 (wadd 32 addr size) 1) = 0) :
    InitOutcome c bank idx addr size (heapInit c bank idx addr size) := by
  have hbase : addr &&& wnot 32 (wsub 32 0 1) = 0 := by
    have hmask : wnot 32 (wsub 32 0 1) = 0 := by decide
    rw [hmask, Nat.and_zero]
  rw [heapInit_eq hidx hnorm hbase]
  have hs₀ := stocked_update_root hs idx 0 0
  have hidx₀ : Function.update bank idx (leafElement 0 0) idx = leafElement 0 0 :=
    Function.update_self ..
  have hm₀ : ∀ m e, Moves c bank (Function.update (Function.update bank idx (leafElement 0 0)) idx e)
      (.leaf idx .free) (.leaf idx m) := by
    intro m e
    rw [Function.update_idem]
    exact Moves.update_leaf idx .free m e
  generalize Function.update bank idx (leafElement 0 0) = bank₀ at *
  have hzero : wsub 32 addr 0 = addr := wsub_eq (Nat.zero_le _) hr.addr_lt
  rw [hzero]
  -- the first call leaves an element of size zero
  obtain ⟨m, hm, e, he, hspent, hall⟩ : ∃ m, m ≠ Mark.taken ∧ ∃ e,
      heapReserve c (heapFuel c) bank₀ idx 0 addr = .ok (0, Function.update bank₀ idx e) ∧
        IsSpent e ∧ e.allocated = count (.leaf idx m) := by
    by_cases h0 : addr = 0
    · refine ⟨.free, by decide, leafElement 0 0, ?_, ⟨rfl, rfl, rfl, rfl, rfl⟩, rfl⟩
      rw [h0, heapFuel, heapReserve_zero, ← hidx₀, Function.update_eq_self]
    · refine ⟨.reserved, by decide, { leafElement 0 0 with allocated := 1 }, ?_,
        ⟨rfl, rfl, rfl, rfl, rfl⟩, rfl⟩
      rw [heapFuel, heapReserve, if_neg h0, hidx₀, if_pos ⟨rfl, Nat.zero_le _⟩]
      rfl
  rw [he, Except.bind]
  have hs₁ : Stocked (Function.update bank₀ idx e) := by
    refine hs₀.of_inUse fun x => ?_
    by_cases hx : x = idx
    · exact Or.inr (by rw [hx, Function.update_self]; exact hspent.inUse)
    · exact Or.inl (Function.update_of_ne hx _ _)
  have hspent₁ : IsSpent (Function.update bank₀ idx e idx) := by rwa [Function.update_self]
  have hall₁ : (Function.update bank₀ idx e idx).allocated = count (.leaf idx m) := by
    rwa [Function.update_self]
  have hm₁ := hm₀ m e
  generalize Function.update bank₀ idx e = bank₁ at *
  by_cases hend : wadd 32 addr size = 0
  · rw [hend, show wsub 32 (wadd 32 0 0) 0 = 0 from rfl, heapFuel, heapReserve_zero, Except.bind]
    exact .spent hm hspent₁ hall₁ hm₁
  · have hlt := wadd_lt 32 addr size
    have hrest : wsub 32 (wadd 32 0 0) (wadd 32 addr size) = 2 ^ 32 - wadd 32 addr size := by
      rw [show wadd 32 0 0 = 0 from rfl, wsub, Nat.zero_add, Nat.mod_eq_of_lt (by omega)]
    have hunused : unused c bank₁ < heapFuel c := by
      have hcard := Finset.card_filter_le (Finset.range c.maxNumHeapElems)
        fun i => (bank₁ i).inUse = false
      rw [Finset.card_range] at hcard
      simp only [unused, heapFuel]
      omega
    rw [hrest, heapReserve_spent hunused hs₁ hspent₁.inUse hspent₁.baseAddr hspent₁.length
      hspent₁.subElem0 (Nat.pos_of_ne_zero hend) hlt (by omega)]
    exact .noElement

/-- How `heap_init` ends. -/
theorem heapInit_outcome (c : MmapConstants) (hs : Stocked bank) (hidx : bank idx = leafElement 0 0)
    (hr : IsRange addr size) : InitOutcome c bank idx addr size (heapInit c bank idx addr size) := by
  rcases window_of_range hr with ⟨k, hnorm, hw⟩ | hnorm
  · exact heapInit_window hs hidx hr hnorm hw
  · exact heapInit_spent hs hidx hr hnorm

end Heap

end TiOpenCL
