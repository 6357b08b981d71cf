import TiOpenCL.Mpax.HeapAlloc

/-!
# Reserving the excess of a heap

`heap_reserve` of a range that starts in a free leaf reserves the part of the range that lies in the
leaf, cutting it as needed.  An element takes over the whole count of a half, not what the call added
to it, so the count comes out right only because every half that is reserved from was free before.
-/

namespace TiOpenCL

namespace Heap

variable {c : MmapConstants} {bank bank' : Bank} {t t' l l' r r' : SplitTree Mark}
  {i j idx base k fuel addr size n : ℕ}

/-- The tree `t` became `t'` and `[addr, addr + n)` is reserved in it. -/
structure Reserves (c : MmapConstants) (bank bank' : Bank) (t t' : SplitTree Mark) (base k addr n : ℕ) :
    Prop where
  holds : Holds bank' t' base k
  moves : Moves c bank bank' t t'
  taken : t'.marked .taken base k = t.marked .taken base k
  reserved : ∀ x, coverCount (t'.marked .reserved base k) x =
    coverCount (t.marked .reserved base k) x + if addr ≤ x ∧ x < addr + n then 1 else 0

/-! ### Putting reservations together -/

/-- Something is reserved below a tree in which a range is. -/
lemma Reserves.pos (h : Reserves c bank bank' t t' base k addr n) (hn : 0 < n) : 0 < count t' := by
  have hc : 0 < coverCount (t'.marked .reserved base k) addr := by
    rw [h.reserved, if_pos ⟨le_rfl, by omega⟩]
    omega
  obtain ⟨b, hb, -⟩ := List.countP_pos_iff.mp hc
  rw [count_eq_length h.holds.fits base]
  exact Nat.add_pos_left (List.length_pos_of_mem hb) _

/-- Reserving nothing. -/
lemma Reserves.refl (h : Holds bank t base k) (hnd : t.indices.Nodup) :
    Reserves c bank bank t t base k addr 0 where
  holds := h
  moves := ⟨rfl, hnd, fun _ => Or.inl, fun _ _ _ => rfl, fun _ hj hj' => absurd hj hj'⟩
  taken := rfl
  reserved x := by
    rw [if_neg (by omega), Nat.add_zero]

/-- Reserving a range and then the next one. -/
lemma Reserves.trans {bank'' : Bank} {t'' : SplitTree Mark} {m : ℕ} (hs : Stocked bank)
    (h : Reserves c bank bank' t t' base k addr n)
    (h' : Reserves c bank' bank'' t' t'' base k (addr + n) m) :
    Reserves c bank bank'' t t'' base k addr (n + m) where
  holds := h'.holds
  moves := h.moves.trans hs h'.moves
  taken := h'.taken.trans h.taken
  reserved x := by
    rw [h'.reserved, h.reserved]
    split_ifs <;> omega

/-- A whole leaf. -/
lemma reserves_leaf (hv : IsVertex (bank idx) base k n 0 0) :
    Reserves c bank (Function.update bank idx { bank idx with allocated := 1 }) (.leaf idx .free)
      (.leaf idx .reserved) base k base (2 ^ k) where
  holds := by
    simp only [Holds, Function.update_self]
    exact ⟨hv.baseAddr, hv.length, rfl, hv.inUse, hv.subElem0, hv.subElem1⟩
  moves := Moves.update_leaf idx .free .reserved _
  taken := by simp
  reserved x := by simp [coverCount_cons]

/-- The halves of a leaf that was split. -/
lemma Reserves.of_splits {bank₁ : Bank} (hs : Stocked bank) (hu : (bank idx).inUse = true)
    (hsp : Splits c bank bank₁ idx i j)
    (h : Reserves c bank₁ bank' (.node idx (.leaf i .free) (.leaf j .free)) t' base (k + 1) addr n) :
    Reserves c bank bank' (.leaf idx .free) t' base (k + 1) addr n where
  holds := h.holds
  moves := (hsp.moves hu .free).trans hs h.moves
  taken := by simpa using h.taken
  reserved x := by simpa using h.reserved x

/-- An element takes over the count of a half that had none before. -/
lemma addCount_eq {m base' k' sub0 sub1 sub : ℕ} (hsub : Holds bank t base' k') (ht : t.root = sub)
    (hv : IsVertex (bank idx) base k m sub0 sub1) :
    ∃ e, addCount bank idx sub = Function.update bank idx e ∧
      IsVertex e base k (m + count t) sub0 sub1 := by
  obtain ⟨_, _, hr⟩ := hsub.isVertex_root
  refine ⟨_, rfl, hv.baseAddr, hv.length, ?_, hv.inUse, hv.subElem0, hv.subElem1⟩
  rw [← ht, hv.allocated, hr.allocated]
  push_cast
  rfl

/-- Reserving from the free lower half of a vertex. -/
lemma Reserves.lower (hnd : (SplitTree.node idx (.leaf i .free) r).indices.Nodup)
    (hv : IsVertex (bank idx) base (k + 1) (count r) i r.root) (hne : i ≠ 0)
    (hr : Holds bank r (base + 2 ^ k) k) (hn : 0 < n)
    (h : Reserves c bank bank' (.leaf i .free) l' base k addr n) :
    Reserves c bank (addCount bank' idx i) (.node idx (.leaf i .free) r) (.node idx l' r) base (k + 1)
      addr n := by
  have hidx : bank' idx = bank idx := h.moves.frame_of_inUse hv.inUse fun hmem =>
    (List.nodup_cons.mp hnd).1 (List.mem_append_left _ hmem)
  obtain ⟨e, he, hve⟩ := addCount_eq h.holds (show l'.root = i from h.moves.root) (hidx ▸ hv)
  rw [he]
  have hpos := h.pos hn
  refine ⟨?_, h.moves.node_left hnd hv.inUse (fun _ => hr.inUse) e, ?_, ?_⟩
  · rw [Nat.add_comm (count r)] at hve
    exact h.moves.holds_left hnd hv.inUse hne hr h.holds (by omega) hve
  · simp only [SplitTree.marked_node_succ, h.taken]
  · intro x
    simp only [SplitTree.marked_node_succ, coverCount_append, h.reserved]
    omega

/-- Reserving from the free upper half of a vertex. -/
lemma Reserves.upper (hnd : (SplitTree.node idx l (.leaf j .free)).indices.Nodup)
    (hv : IsVertex (bank idx) base (k + 1) (count l) l.root j) (hne : l.root ≠ 0)
    (hl : Holds bank l base k) (hn : 0 < n)
    (h : Reserves c bank bank' (.leaf j .free) r' (base + 2 ^ k) k addr n) :
    Reserves c bank (addCount bank' idx j) (.node idx l (.leaf j .free)) (.node idx l r') base (k + 1)
      addr n := by
  have hidx : bank' idx = bank idx := h.moves.frame_of_inUse hv.inUse fun hmem =>
    (List.nodup_cons.mp hnd).1 (List.mem_append_right _ hmem)
  obtain ⟨e, he, hve⟩ := addCount_eq h.holds (show r'.root = j from h.moves.root) (hidx ▸ hv)
  rw [he]
  have hpos := h.pos hn
  refine ⟨?_, h.moves.node_right hnd hv.inUse (fun _ => hl.inUse) e, ?_, ?_⟩
  · exact h.moves.holds_right hnd hv.inUse hne hl h.holds (by omega) hve
  · simp only [SplitTree.marked_node_succ, h.taken]
  · intro x
    simp only [SplitTree.marked_node_succ, coverCount_append, h.reserved]
    omega

/-! ### The recursion -/

/-- How a reservation of `[addr, addr + n)` in the tree `t` may end. -/
inductive ReserveOutcome (c : MmapConstants) (bank : Bank) (t : SplitTree Mark) (base k addr n : ℕ) :
    Except HeapError (ℕ × Bank) → Prop
  /-- The bank had no element left. -/
  | noElement : ReserveOutcome c bank t base k addr n (.error .noElement)
  /-- The range is reserved. -/
  | done {bank' : Bank} {t' : SplitTree Mark} (h : Reserves c bank bank' t t' base k addr n) :
    ReserveOutcome c bank t base k addr n (.ok (n, bank'))

/-- A range of size zero. -/
lemma heapReserve_zero : heapReserve c (fuel + 1) bank idx addr 0 = .ok (0, bank) := by
  rw [heapReserve, if_pos rfl]

/-- A range that starts outside the element. -/
lemma heapReserve_outside {sub0 sub1 : ℕ} (hv : IsVertex (bank idx) base k n sub0 sub1)
    (hle : base + 2 ^ k ≤ 2 ^ 32) (ha : ¬ (base ≤ addr ∧ addr < base + 2 ^ k)) :
    heapReserve c (fuel + 1) bank idx addr size = .ok (0, bank) := by
  have hpos : 0 < 2 ^ k := by positivity
  have hc : ¬ Contains (bank idx) addr := fun hc => ha ((hv.contains_iff hle).mp hc)
  have hb : (bank idx).baseAddr ≠ addr := by
    rw [hv.baseAddr]
    omega
  rw [heapReserve]
  simp [hb, hc]

section Halves

variable {reserve : Bank → ℕ → ℕ → ℕ → Except HeapError (ℕ × Bank)}

/-- A range in the upper half. -/
lemma reserveHalves_upper (hnd : (SplitTree.node idx l (.leaf j .free)).indices.Nodup)
    (hv : IsVertex (bank idx) base (k + 1) (count l) l.root j) (hne : l.root ≠ 0)
    (hl : Holds bank l base k) (hn : 0 < n) (hn' : n < 2 ^ 32)
    (hlo : reserve bank l.root addr size = .ok (0, bank))
    (hup : ReserveOutcome c bank (.leaf j .free) (base + 2 ^ k) k addr n (reserve bank j addr size)) :
    ReserveOutcome c bank (.node idx l (.leaf j .free)) base (k + 1) addr n
      (reserveHalves reserve bank idx addr size) := by
  unfold reserveHalves
  rw [hv.subElem0, hlo]
  simp only [bind, Except.bind, lt_irrefl, if_false]
  rw [hv.subElem1]
  generalize reserve bank j addr size = res at hup
  cases hup with
  | noElement => exact .noElement
  | @done bank' r' h =>
    have hidx : bank' idx = bank idx := h.moves.frame_of_inUse hv.inUse fun hmem =>
      (List.nodup_cons.mp hnd).1 (List.mem_append_right _ hmem)
    simp only [hn, if_true, hidx, hv.subElem1]
    rw [wadd_eq (by omega), Nat.zero_add]
    exact .done (h.upper hnd hv hne hl hn)

/-- The call on the upper half after a reservation in the lower one. -/
lemma reserveHalves_eq (hnd : (SplitTree.node idx (.leaf i Mark.free) (.leaf j .free)).indices.Nodup)
    (hv : IsVertex (bank idx) base (k + 1) 0 i j) (hn : 0 < n) (hsize : n ≤ size)
    (hsize' : size < 2 ^ 32) (haddr : addr + n < 2 ^ 32)
    (hres : reserve bank i addr size = .ok (n, bank'))
    (h : Reserves c bank bank' (.leaf i .free) l' base k addr n) :
    reserveHalves reserve bank idx addr size =
      (reserve (addCount bank' idx i) j (addr + n) (size - n)).bind fun res =>
        .ok (wadd 32 n res.1, if 0 < res.1 then addCount res.2 idx (res.2 idx).subElem1 else res.2) := by
  have hidx : bank' idx = bank idx := h.moves.frame_of_inUse hv.inUse fun hmem =>
    (List.nodup_cons.mp hnd).1 (List.mem_append_left _ hmem)
  unfold reserveHalves
  rw [hv.subElem0, hres]
  simp only [bind, Except.bind, hn, if_true, hidx, hv.subElem0]
  rw [wadd_eq haddr, wsub_eq hsize hsize']
  simp only [addCount, Function.update_self, hidx, hv.subElem1]

/-- The lower half finds the bank without an element. -/
lemma reserveHalves_error {sub0 sub1 : ℕ} (hv : IsVertex (bank idx) base k n sub0 sub1)
    (hres : reserve bank sub0 addr size = .error .noElement) :
    reserveHalves reserve bank idx addr size = .error .noElement := by
  unfold reserveHalves
  rw [hv.subElem0, hres]
  rfl

/-- A range in the lower half. -/
lemma reserveHalves_lower (reserve : Bank → ℕ → ℕ → ℕ → Except HeapError (ℕ × Bank))
    (hnd : (SplitTree.node idx (.leaf i Mark.free) (.leaf j .free)).indices.Nodup)
    (hv : IsVertex (bank idx) base (k + 1) 0 i j) (hne : i ≠ 0)
    (hr : Holds bank (.leaf j .free) (base + 2 ^ k) k) (hn : 0 < n) (haddr : addr + n < 2 ^ 32)
    (hzero : ∀ bank idx addr, reserve bank idx addr 0 = .ok (0, bank))
    (hres : reserve bank i addr n = .ok (n, bank'))
    (h : Reserves c bank bank' (.leaf i .free) l' base k addr n) :
    reserveHalves reserve bank idx addr n = .ok (n, addCount bank' idx i) ∧
      Reserves c bank (addCount bank' idx i) (.node idx (.leaf i .free) (.leaf j .free))
        (.node idx l' (.leaf j .free)) base (k + 1) addr n := by
  constructor
  · rw [reserveHalves_eq hnd hv hn le_rfl (by omega) haddr hres h, Nat.sub_self, hzero]
    simp only [Except.bind, lt_irrefl, if_false]
    rw [wadd_eq (by omega), Nat.add_zero]
  · exact h.lower hnd hv hne hr hn

/-- A range that starts in the lower half and goes on into the upper one. -/
lemma reserveHalves_both {m : ℕ} (hs : Stocked bank)
    (hnd : (SplitTree.node idx (.leaf i Mark.free) (.leaf j .free)).indices.Nodup)
    (hv : IsVertex (bank idx) base (k + 1) 0 i j) (hne : i ≠ 0) (hne' : j ≠ 0)
    (hr : Holds bank (.leaf j .free) (base + 2 ^ k) k) (hn : 0 < n) (hm : 0 < m)
    (hsize : n ≤ size) (hsize' : size < 2 ^ 32) (haddr : addr + n < 2 ^ 32) (hnm : n + m < 2 ^ 32)
    (hres : reserve bank i addr size = .ok (n, bank'))
    (h : Reserves c bank bank' (.leaf i .free) l' base k addr n)
    (hup : ∀ bank, Stocked bank → Holds bank (.leaf j .free) (base + 2 ^ k) k →
      ReserveOutcome c bank (.leaf j .free) (base + 2 ^ k) k (addr + n) m
        (reserve bank j (addr + n) (size - n))) :
    ReserveOutcome c bank (.node idx (.leaf i .free) (.leaf j .free)) base (k + 1) addr (n + m)
      (reserveHalves reserve bank idx addr size) := by
  have hlow := h.lower hnd hv hne hr hn
  have hs' : Stocked (addCount bank' idx i) := by
    refine hs.moves hlow.moves (fun _ => hlow.holds.inUse) fun h0 => ?_
    simp only [SplitTree.indices_node, SplitTree.indices_leaf, List.cons_append, List.nil_append,
      List.mem_cons, List.not_mem_nil, or_false] at h0
    rcases h0 with h0 | h0 | h0
    · exact h0.symm
    · exact absurd h0.symm hne
    · exact absurd h0.symm hne'
  obtain ⟨hv', hpos, hne'', hl', hr'⟩ := hlow.holds
  rw [reserveHalves_eq hnd hv hn hsize hsize' haddr hres h]
  have hout := hup _ hs' hr'
  generalize reserve (addCount bank' idx i) j (addr + n) (size - n) = res at hout
  cases hout with
  | noElement => exact .noElement
  | @done bank₂ r' h₂ =>
    have hidx : bank₂ idx = addCount bank' idx i idx := h₂.moves.frame_of_inUse hv'.inUse fun hmem =>
      (List.nodup_cons.mp hlow.moves.nodup).1 (List.mem_append_right _ hmem)
    simp only [Except.bind, hm, if_true, hidx, hv'.subElem1]
    rw [wadd_eq hnm]
    exact .done (hlow.trans hs (h₂.upper hlow.moves.nodup hv' hne'' hl' hm))

end Halves

/-- A range that starts in the element and does not cover it goes down to the halves. -/
lemma heapReserve_descend {sub0 sub1 : ℕ} (hv : IsVertex (bank idx) base k n sub0 sub1)
    (hle : base + 2 ^ k ≤ 2 ^ 32) (hlo : base ≤ addr) (hhi : addr < base + 2 ^ k) (hsize : size ≠ 0)
    (hpart : ¬ (base = addr ∧ 2 ^ k ≤ size)) :
    heapReserve c (fuel + 1) bank idx addr size = (heapSplitElem c bank idx).bind fun bank =>
      reserveHalves (heapReserve c fuel) bank idx addr size := by
  rw [heapReserve, if_neg hsize, hv.baseAddr, hv.length, if_neg hpart,
    if_pos ((hv.contains_iff hle).mpr ⟨hlo, hhi⟩)]
  rfl

/-- `heap_reserve` on a free leaf that the range starts in. -/
theorem heapReserve_leaf (hfuel : k < fuel) (hv : IsVertex (bank idx) base k 0 0 0)
    (hs : Stocked bank) (hk : k < 32) (hle : base + 2 ^ k ≤ 2 ^ 32) (hlo : base ≤ addr)
    (hhi : addr < base + 2 ^ k) (hsize : 0 < size) (hsize' : size < 2 ^ 32) :
    ReserveOutcome c bank (.leaf idx .free) base k addr (min size (base + 2 ^ k - addr))
      (heapReserve c fuel bank idx addr size) := by
  induction fuel generalizing k idx base bank addr size with
  | zero => exact absurd hfuel (Nat.not_lt_zero k)
  | succ fuel ih =>
    by_cases hwhole : base = addr ∧ 2 ^ k ≤ size
    · obtain ⟨rfl, hlen⟩ := hwhole
      have hmin : min size (base + 2 ^ k - base) = 2 ^ k := by omega
      rw [heapReserve, if_neg hsize.ne', hv.baseAddr, hv.length, if_pos ⟨rfl, hlen⟩, hmin]
      exact .done (reserves_leaf hv)
    · rw [heapReserve_descend hv hle hlo hhi hsize.ne' hwhole]
      cases k with
      | zero => exact absurd ⟨by omega, by omega⟩ hwhole
      | succ k =>
        have hpow : 2 ^ (k + 1) = 2 ^ k + 2 ^ k := by ring
        have hpk : 0 < 2 ^ k := by positivity
        have h31 : 2 ^ (k + 1) ≤ 2 ^ 31 := Nat.pow_le_pow_right (by decide) (by omega)
        obtain ⟨fuel, rfl⟩ : ∃ f, fuel = f + 1 := Nat.exists_eq_add_one.mpr (by omega)
        rcases heapSplitElem_spec c hs hv.inUse hv.subElem0 with he | ⟨i, j, bank₁, he, hsp⟩
        · rw [he]
          exact .noElement
        rw [he, Except.bind]
        have hv₁ := hsp.isVertex hv
        have hnd := (hsp.moves hv.inUse .free).nodup
        have hl := hsp.holds_lower hv
        have hr := hsp.holds_upper hv hle
        have hs₁ := hsp.stocked hv.inUse hs
        obtain ⟨hi, hj⟩ := hsp.ne_zero hs
        -- it is enough to look at the vertex over the two new leaves
        suffices h : ReserveOutcome c bank₁ (.node idx (.leaf i .free) (.leaf j .free)) base (k + 1) addr
            (min size (base + 2 ^ (k + 1) - addr))
            (reserveHalves (heapReserve c (fuel + 1)) bank₁ idx addr size) by
          generalize reserveHalves (heapReserve c (fuel + 1)) bank₁ idx addr size = res at h
          cases h with
          | noElement => exact .noElement
          | done h => exact .done (h.of_splits hs hv.inUse hsp)
        by_cases hmid : base + 2 ^ k ≤ addr
        · refine reserveHalves_upper hnd hv₁ hi hl (by omega) (by omega) ?_ ?_
          · exact heapReserve_outside hl (by omega) (by omega)
          · have hmin : min size (base + 2 ^ (k + 1) - addr) =
                min size (base + 2 ^ k + 2 ^ k - addr) := by omega
            rw [hmin]
            exact ih (by omega) hr hs₁ (by omega) (by omega) hmid (by omega) hsize hsize'
        · have hout := ih (by omega) hl hs₁ (by omega) (by omega) hlo (by omega) hsize hsize'
          generalize hres : heapReserve c (fuel + 1) bank₁ i addr size = res at hout
          cases hout with
          | noElement =>
            rw [reserveHalves_error hv₁ hres]
            exact .noElement
          | done h =>
            by_cases hend : addr + size ≤ base + 2 ^ k
            · have hmin : min size (base + 2 ^ k - addr) = size := by omega
              have hmin' : min size (base + 2 ^ (k + 1) - addr) = size := by omega
              rw [hmin] at h hres
              rw [hmin']
              obtain ⟨heq, hresv⟩ := reserveHalves_lower (heapReserve c (fuel + 1)) hnd hv₁ hi hr hsize
                (by omega) (fun _ _ _ => heapReserve_zero) hres h
              rw [heq]
              exact .done hresv
            · have hmin : min size (base + 2 ^ k - addr) = base + 2 ^ k - addr := by omega
              have hmin' : min size (base + 2 ^ (k + 1) - addr) = (base + 2 ^ k - addr) +
                  min (size - (base + 2 ^ k - addr)) (2 ^ k) := by omega
              have hnext : addr + (base + 2 ^ k - addr) = base + 2 ^ k := by omega
              rw [hmin] at h hres
              rw [hmin']
              refine reserveHalves_both hs₁ hnd hv₁ hi hj hr (by omega) (by omega) (by omega) hsize'
                (by omega) (by omega) hres h fun bank₂ hs₂ hr₂ => ?_
              have hup := ih (by omega) hr₂ hs₂ (by omega) (by omega) le_rfl (by omega)
                (show 0 < size - (base + 2 ^ k - addr) by omega) (by omega)
              rw [Nat.add_sub_cancel_left] at hup
              rw [hnext]
              exact hup

/-- `heap_reserve` of a range in the lower half of a free leaf leaves the upper half free. -/
lemma heapReserve_lower (hfuel : k + 1 < fuel) (hv : IsVertex (bank idx) base (k + 1) 0 0 0)
    (hs : Stocked bank) (hk : k + 1 < 32) (hle : base + 2 ^ (k + 1) ≤ 2 ^ 32) (hlo : base ≤ addr)
    (hhi : addr + size ≤ base + 2 ^ k) (hsize : 0 < size) :
    heapReserve c fuel bank idx addr size = .error .noElement ∨
      ∃ bank' l' j, heapReserve c fuel bank idx addr size = .ok (size, bank') ∧
        Reserves c bank bank' (.leaf idx .free) (.node idx l' (.leaf j .free)) base (k + 1) addr
          size := by
  have hpow : 2 ^ (k + 1) = 2 ^ k + 2 ^ k := by ring
  have h31 : 2 ^ (k + 1) ≤ 2 ^ 31 := Nat.pow_le_pow_right (by decide) (by omega)
  obtain ⟨fuel, rfl⟩ : ∃ f, fuel = f + 2 := ⟨fuel - 2, by omega⟩
  rw [heapReserve_descend hv hle hlo (by omega) hsize.ne' (by omega)]
  rcases heapSplitElem_spec c hs hv.inUse hv.subElem0 with he | ⟨i, j, bank₁, he, hsp⟩
  · exact Or.inl (by rw [he]; rfl)
  · rw [he, Except.bind]
    have hv₁ := hsp.isVertex hv
    have hout := heapReserve_leaf (c := c) (show k < fuel + 1 by omega) (hsp.holds_lower hv)
      (hsp.stocked hv.inUse hs) (by omega) (by omega) hlo (by omega) hsize (by omega)
    have hmin : min size (base + 2 ^ k - addr) = size := by omega
    generalize hres : heapReserve c (fuel + 1) bank₁ i addr size = res at hout
    cases hout with
    | noElement => exact Or.inl (reserveHalves_error hv₁ hres)
    | @done bank' l' h =>
      rw [hmin] at h hres
      obtain ⟨heq, hresv⟩ := reserveHalves_lower (heapReserve c (fuel + 1))
        (hsp.moves hv.inUse .free).nodup hv₁ (hsp.ne_zero hs).1 (hsp.holds_upper hv hle) hsize
        (by omega) (fun _ _ _ => heapReserve_zero) hres h
      exact Or.inr ⟨_, l', j, heq, hresv.of_splits hs hv.inUse hsp⟩

/-- `heap_reserve` of a range in the free upper half of a vertex. -/
lemma heapReserve_upper (hfuel : k + 1 < fuel)
    (h : Holds bank (.node idx l (.leaf j .free)) base (k + 1))
    (hnd : (SplitTree.node idx l (.leaf j Mark.free)).indices.Nodup) (hs : Stocked bank)
    (hk : k + 1 < 32) (hle : base + 2 ^ (k + 1) ≤ 2 ^ 32) (hlo : base + 2 ^ k ≤ addr)
    (hhi : addr + size = base + 2 ^ (k + 1)) (hsize : 0 < size) :
    ReserveOutcome c bank (.node idx l (.leaf j .free)) base (k + 1) addr size
      (heapReserve c fuel bank idx addr size) := by
  have hpow : 2 ^ (k + 1) = 2 ^ k + 2 ^ k := by ring
  have hpk : 0 < 2 ^ k := by positivity
  have h31 : 2 ^ (k + 1) ≤ 2 ^ 31 := Nat.pow_le_pow_right (by decide) (by omega)
  obtain ⟨fuel, rfl⟩ : ∃ f, fuel = f + 2 := ⟨fuel - 2, by omega⟩
  obtain ⟨hv, hpos, hne, hl, hr⟩ := h
  have hsplit : heapSplitElem c bank idx = .ok bank := by simp [heapSplitElem, hv.subElem0, hne]
  obtain ⟨_, _, hvl⟩ := hl.isVertex_root
  rw [heapReserve_descend hv hle (by omega) (by omega) hsize.ne' (by omega), hsplit, Except.bind]
  refine reserveHalves_upper hnd hv hne hl hsize (by omega) ?_ ?_
  · exact heapReserve_outside hvl (by omega) (by omega)
  · have hout := heapReserve_leaf (c := c) (show k < fuel + 1 by omega) hr hs (by omega) (by omega) hlo
      (show addr < base + 2 ^ k + 2 ^ k by omega) hsize (by omega)
    have hmin : min size (base + 2 ^ k + 2 ^ k - addr) = size := by omega
    rwa [hmin] at hout

end Heap

end TiOpenCL
