import TiOpenCL.Mpax.HeapAlloc

/-!
# Freeing in one heap

`heap_free` of an address outside the window of a heap changes nothing; of an address in an allocated
block it frees that block and merges the halves above it that have nothing reserved or allocated
left.
-/

namespace TiOpenCL

namespace Heap

variable {c : MmapConstants} {bank bank' : Bank} {t t' l r : SplitTree Mark}
  {i j idx base k fuel addr : ℕ}

/-! ### The way down -/

/-- In a window aligned to its size the bits of the middle tell the upper half from the lower. -/
lemma and_middle_iff (hdvd : 2 ^ (k + 1) ∣ base) (hlo : base ≤ addr) (hhi : addr < base + 2 ^ (k + 1)) :
    (base + 2 ^ k) &&& addr = base + 2 ^ k ↔ base + 2 ^ k ≤ addr := by
  constructor
  · intro h
    exact h ▸ Nat.and_le_right
  · intro hle
    obtain ⟨q, rfl⟩ := hdvd
    have hpow : 2 ^ (k + 1) = 2 ^ k + 2 ^ k := by ring
    obtain ⟨x, rfl⟩ := Nat.exists_eq_add_of_le hle
    have hx : x < 2 ^ k := by omega
    have hmid : 2 ^ (k + 1) * q + 2 ^ k = 2 ^ k * (2 * q + 1) := by ring
    rw [hmid]
    refine Nat.eq_of_testBit_eq fun n => ?_
    rw [Nat.testBit_and, Nat.testBit_two_pow_mul_add _ hx, Nat.testBit_two_pow_mul]
    by_cases hn : n < k
    · simp [hn, Nat.not_le.mpr hn]
    · simp [hn, Nat.not_lt.mp hn]

/-- `heap_free` goes down a vertex with halves. -/
lemma heapFree_node {n sub0 sub1 : ℕ} (hv : IsVertex (bank idx) base k n sub0 sub1) (hne : sub0 ≠ 0) :
    heapFree c (fuel + 1) bank idx addr =
      (heapFree c fuel bank (if (bank sub1).baseAddr &&& addr = (bank sub1).baseAddr then sub1
        else sub0) addr).bind fun res => .ok (res.1, settle c res.2 idx res.1) := by
  rw [heapFree]
  simp [hv.subElem0, hv.subElem1, hne, bind]

/-- An address outside the window of a heap. -/
theorem heapFree_outside (hfuel : k < fuel) (h : Holds bank t base k) (hle : base + 2 ^ k ≤ 2 ^ 32)
    (ha : ¬ (base ≤ addr ∧ addr < base + 2 ^ k)) :
    heapFree c fuel bank t.root addr = .ok (0, bank) := by
  induction fuel generalizing k t base with
  | zero => exact absurd hfuel (Nat.not_lt_zero k)
  | succ fuel ih =>
    cases t with
    | leaf idx m =>
      have hv : IsVertex (bank idx) base k _ 0 0 := h
      have hc : ¬ Contains (bank idx) addr := fun hc => ha ((hv.contains_iff hle).mp hc)
      rw [SplitTree.root_leaf, heapFree]
      simp [hv.subElem0, hc]
    | node idx l r =>
      cases k with
      | zero => exact h.elim
      | succ k =>
        obtain ⟨hv, hpos, hne, hl, hr⟩ := h
        have hpow : 2 ^ (k + 1) = 2 ^ k + 2 ^ k := by ring
        have hpk : 0 < 2 ^ k := by positivity
        have hlo : heapFree c fuel bank l.root addr = .ok (0, bank) :=
          ih (by omega) hl (by omega) (by omega)
        have hup : heapFree c fuel bank r.root addr = .ok (0, bank) :=
          ih (by omega) hr (by omega) (by omega)
        have hsettle : settle c bank idx 0 = bank := by
          have hall : (bank idx).allocated ≠ 0 := by rw [hv.allocated]; omega
          simp [settle, hall]
        rw [SplitTree.root_node, heapFree_node hv hne]
        split_ifs
        · rw [hup, Except.bind, hsettle]
        · rw [hlo, Except.bind, hsettle]

/-! ### The way up -/

/-- How `heap_free` ends on an allocated block `b`. -/
structure Frees (c : MmapConstants) (bank bank' : Bank) (t t' : SplitTree Mark) (base k : ℕ)
    (b : Block) : Prop where
  holds : Holds bank' t' base k
  moves : Moves c bank bank' t t'
  count_eq : count t = count t' + 1
  taken : (t.marked .taken base k).Perm (b :: t'.marked .taken base k)
  reserved : t'.marked .reserved base k = t.marked .reserved base k

/-- The result of `settle` on an element whose count goes down to zero. -/
lemma settle_zero {n sub0 sub1 : ℕ} (hv : IsVertex (bank idx) base k (n + 1) sub0 sub1) (h0 : n = 0) :
    settle c bank idx 1 = Function.update (Function.update (Function.update bank sub0 .zero) sub1
      .zero) idx ⟨base, 2 ^ k, 0, c.protNone, true, 0, 0⟩ := by
  have hall : (bank idx).allocated - ((1 : ℕ) : ℤ) = 0 := by
    rw [hv.allocated, h0]
    rfl
  rw [settle, if_pos hall]
  simp only [freeHeapElement, hv.subElem0, hv.subElem1, hv.baseAddr, hv.length, hv.inUse]

/-- The result of `settle` on an element whose count stays positive. -/
lemma settle_pos {n sub0 sub1 : ℕ} (hv : IsVertex (bank idx) base k (n + 1) sub0 sub1) (h0 : n ≠ 0) :
    settle c bank idx 1 =
      Function.update bank idx ⟨base, 2 ^ k, n, (bank idx).prot, true, sub0, sub1⟩ := by
  have hall : (bank idx).allocated - ((1 : ℕ) : ℤ) = n := by
    rw [hv.allocated]
    push_cast
    ring
  have hne : (bank idx).allocated - ((1 : ℕ) : ℤ) ≠ 0 := by
    rw [hall]
    exact_mod_cast h0
  rw [settle, if_neg hne]
  simp only [hall, hv.subElem0, hv.subElem1, hv.baseAddr, hv.length, hv.inUse]

/-- An element with a child freed below it: its count goes down, and if nothing is left it takes
back its halves. -/
lemma settle_spec (c : MmapConstants) (hnd : (SplitTree.node idx l r).indices.Nodup)
    (hv : IsVertex (bank idx) base (k + 1) (count l + count r + 1) l.root r.root) (hne : l.root ≠ 0)
    (hl : Holds bank l base k) (hr : Holds bank r (base + 2 ^ k) k) :
    ∃ t', Holds (settle c bank idx 1) t' base (k + 1) ∧
      Moves c bank (settle c bank idx 1) (.node idx l r) t' ∧ count t' = count l + count r ∧
      t'.marked .taken base (k + 1) = (SplitTree.node idx l r).marked .taken base (k + 1) ∧
      t'.marked .reserved base (k + 1) = (SplitTree.node idx l r).marked .reserved base (k + 1) := by
  by_cases h0 : count l + count r = 0
  · have hl' := hl.eq_leaf (by omega)
    have hr' := hr.eq_leaf (by omega)
    have hind : (SplitTree.node idx l r).indices = [idx, l.root, r.root] := by
      rw [SplitTree.indices_node, hl', hr']
      rfl
    rw [settle_zero hv h0]
    refine ⟨.leaf idx .free, ?_, ⟨rfl, List.nodup_singleton idx, ?_, ?_, ?_⟩, h0.symm, ?_, ?_⟩
    · simp only [Holds, Function.update_self]
      exact ⟨rfl, rfl, rfl, rfl, rfl, rfl⟩
    · intro j hj
      rw [List.mem_singleton.mp hj]
      exact Or.inl (by simp)
    · intro j hj _
      simp only [hind, List.mem_cons, List.not_mem_nil, or_false, not_or] at hj
      simp [hj]
    · intro j hj hj'
      have hidx : j ≠ idx := fun h => hj' (List.mem_singleton.mpr h)
      simp only [hind, List.mem_cons, List.not_mem_nil, or_false, hidx, false_or] at hj
      rw [Function.update_of_ne hidx]
      by_cases hjr : j = r.root
      · rw [hjr, Function.update_self]
      · rw [Function.update_of_ne hjr, hj.resolve_right hjr, Function.update_self]
    · rw [hl', hr']
      simp
    · rw [hl', hr']
      simp
  · rw [settle_pos hv h0]
    refine ⟨.node idx l r, ?_, ⟨rfl, hnd, fun _ => Or.inl, ?_, fun _ hj hj' => absurd hj hj'⟩, rfl,
      rfl, rfl⟩
    · exact holds_node ⟨rfl, rfl, rfl, rfl, rfl, rfl⟩ (Nat.pos_of_ne_zero h0) hne hl hr
        (List.nodup_cons.mp hnd).1
    · intro j hj _
      exact Function.update_of_ne (ne_of_mem_of_not_mem List.mem_cons_self hj).symm _ _

/-- Freeing in the lower half. -/
lemma Frees.lower {l' : SplitTree Mark} {b : Block} (hs : Stocked bank)
    (hnd : (SplitTree.node idx l r).indices.Nodup)
    (hv : IsVertex (bank idx) base (k + 1) (count l + count r) l.root r.root) (hne : l.root ≠ 0)
    (hr : Holds bank r (base + 2 ^ k) k) (h : Frees c bank bank' l l' base k b) :
    ∃ t', Frees c bank (settle c bank' idx 1) (.node idx l r) t' base (k + 1) b := by
  have hd : l.indices.Disjoint r.indices := (List.nodup_append'.mp (List.nodup_cons.mp hnd).2).2.2
  have hidx : bank' idx = bank idx := h.moves.frame_of_inUse hv.inUse fun hmem =>
    (List.nodup_cons.mp hnd).1 (List.mem_append_left _ hmem)
  have hmoves := h.moves.node_left hnd hv.inUse (fun _ => hr.inUse) (bank' idx)
  rw [Function.update_eq_self] at hmoves
  have hv' : IsVertex (bank' idx) base (k + 1) (count l' + count r + 1) l'.root r.root := by
    have hcount : count l' + count r + 1 = count l + count r := by
      rw [h.count_eq]
      omega
    rw [hidx, h.moves.root, hcount]
    exact hv
  obtain ⟨t', hh, hm, hc, ht, hres⟩ := settle_spec c hmoves.nodup hv' (by rwa [h.moves.root]) h.holds
    (h.moves.holds_other hr hd)
  refine ⟨t', hh, hmoves.trans hs hm, ?_, ?_, ?_⟩
  · rw [count_node, hc, h.count_eq]
    omega
  · rw [ht, SplitTree.marked_node_succ, SplitTree.marked_node_succ]
    exact h.taken.append_right _
  · rw [hres, SplitTree.marked_node_succ, SplitTree.marked_node_succ, h.reserved]

/-- Freeing in the upper half. -/
lemma Frees.upper {r' : SplitTree Mark} {b : Block} (hs : Stocked bank)
    (hnd : (SplitTree.node idx l r).indices.Nodup)
    (hv : IsVertex (bank idx) base (k + 1) (count l + count r) l.root r.root) (hne : l.root ≠ 0)
    (hl : Holds bank l base k) (h : Frees c bank bank' r r' (base + 2 ^ k) k b) :
    ∃ t', Frees c bank (settle c bank' idx 1) (.node idx l r) t' base (k + 1) b := by
  have hd : l.indices.Disjoint r.indices := (List.nodup_append'.mp (List.nodup_cons.mp hnd).2).2.2
  have hidx : bank' idx = bank idx := h.moves.frame_of_inUse hv.inUse fun hmem =>
    (List.nodup_cons.mp hnd).1 (List.mem_append_right _ hmem)
  have hmoves := h.moves.node_right hnd hv.inUse (fun _ => hl.inUse) (bank' idx)
  rw [Function.update_eq_self] at hmoves
  have hv' : IsVertex (bank' idx) base (k + 1) (count l + count r' + 1) l.root r'.root := by
    have hcount : count l + count r' + 1 = count l + count r := by
      rw [h.count_eq]
      omega
    rw [hidx, h.moves.root, hcount]
    exact hv
  obtain ⟨t', hh, hm, hc, ht, hres⟩ := settle_spec c hmoves.nodup hv' hne
    (h.moves.holds_other hl hd.symm) h.holds
  refine ⟨t', hh, hmoves.trans hs hm, ?_, ?_, ?_⟩
  · rw [count_node, hc, h.count_eq]
    omega
  · rw [ht, SplitTree.marked_node_succ, SplitTree.marked_node_succ]
    exact (h.taken.append_left _).trans List.perm_middle
  · rw [hres, SplitTree.marked_node_succ, SplitTree.marked_node_succ, h.reserved]

/-- Freeing the block of an allocated leaf. -/
lemma frees_leaf (hv : IsVertex (bank idx) base k 1 0 0) :
    Frees c bank (Function.update bank idx
        { bank idx with
          allocated := (bank idx).allocated - 1
          prot := c.protNone }) (.leaf idx .taken) (.leaf idx .free) base k (base, 2 ^ k) where
  holds := by
    simp only [Holds, Function.update_self]
    exact ⟨hv.baseAddr, hv.length, by simp [hv.allocated], hv.inUse, hv.subElem0, hv.subElem1⟩
  moves := Moves.update_leaf idx .taken .free _
  count_eq := rfl
  taken := by simp
  reserved := by simp

/-- An address in an allocated block: `heap_free` frees that block. -/
theorem heapFree_taken (hfuel : k < fuel) (h : Holds bank t base k) (hnd : t.indices.Nodup)
    (hs : Stocked bank) (hdvd : 2 ^ k ∣ base) (hle : base + 2 ^ k ≤ 2 ^ 32) {b : Block}
    (hb : b ∈ t.marked .taken base k) (ha : b.Covers addr) :
    ∃ bank' t', heapFree c fuel bank t.root addr = .ok (1, bank') ∧
      Frees c bank bank' t t' base k b := by
  induction fuel generalizing k t base with
  | zero => exact absurd hfuel (Nat.not_lt_zero k)
  | succ fuel ih =>
    cases t with
    | leaf idx m =>
      have hv : IsVertex (bank idx) base k (count (.leaf idx m)) 0 0 := h
      rw [SplitTree.marked_leaf] at hb
      split_ifs at hb with hm
      · subst hm
        obtain rfl := List.mem_singleton.mp hb
        have hc : Contains (bank idx) addr := (hv.contains_iff hle).mpr ha
        refine ⟨_, _, ?_, frees_leaf hv⟩
        rw [SplitTree.root_leaf, heapFree]
        simp [hv.subElem0, hc]
      · exact absurd hb List.not_mem_nil
    | node idx l r =>
      cases k with
      | zero => exact h.elim
      | succ k =>
        obtain ⟨hv, hpos, hne, hl, hr⟩ := h
        have hpow : 2 ^ (k + 1) = 2 ^ k + 2 ^ k := by ring
        have hpk : 0 < 2 ^ k := by positivity
        have hdvd' : 2 ^ k ∣ base := (pow_dvd_pow 2 (Nat.le_succ k)).trans hdvd
        obtain ⟨hlnd, hrnd, -⟩ := List.nodup_append'.mp (List.nodup_cons.mp hnd).2
        obtain ⟨_, _, hvr⟩ := hr.isVertex_root
        rw [SplitTree.marked_node_succ, List.mem_append] at hb
        rw [SplitTree.root_node, heapFree_node hv hne, hvr.baseAddr]
        rcases hb with hb | hb
        · have hin := SplitTree.subset_of_mem_marked hl.fits hb
          have hbit : ¬ (base + 2 ^ k) &&& addr = base + 2 ^ k := by
            rw [and_middle_iff hdvd (by have := ha.1; omega) (by have := ha.2; omega)]
            have := ha.2
            omega
          obtain ⟨bank', l', hres, hfr⟩ := ih (by omega) hl hlnd hdvd' (by omega) hb
          obtain ⟨t', hfr'⟩ := hfr.lower hs hnd hv hne hr
          exact ⟨_, t', by rw [if_neg hbit, hres, Except.bind], hfr'⟩
        · have hin := SplitTree.subset_of_mem_marked hr.fits hb
          have hbit : (base + 2 ^ k) &&& addr = base + 2 ^ k := by
            rw [and_middle_iff hdvd (by have := ha.1; omega) (by have := ha.2; omega)]
            have := ha.1
            omega
          obtain ⟨bank', r', hres, hfr⟩ :=
            ih (by omega) hr hrnd (hdvd'.add (dvd_refl _)) (by omega) hb
          obtain ⟨t', hfr'⟩ := hfr.upper hs hnd hv hne hl
          exact ⟨_, t', by rw [if_pos hbit, hres, Except.bind], hfr'⟩

end Heap

end TiOpenCL
