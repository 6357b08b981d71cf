import TiOpenCL.Mpax.HeapTree

/-!
# Allocation in one heap

`heap_alloc` either finds the bank without an element, or returns zero and changes nothing, or turns
a free leaf of the tree into an allocated block of the requested size, cutting the leaves above it.
A failing search changes nothing because a free leaf that is large enough never fails: its lower
half is free again, down to the requested size.
-/

namespace TiOpenCL

namespace Heap

variable {c : MmapConstants} {bank bank' : Bank} {t t' : SplitTree Mark}
  {i j idx base k size prot : ℕ}

/-! ### Elements and splitting -/

/-- The element of a free leaf. -/
def leafElement (base len : ℕ) : HeapElement := ⟨base, len, 0, 0, true, 0, 0⟩

/-- A free leaf. -/
lemma holds_leafElement (h : bank i = leafElement base (2 ^ k)) :
    Holds bank (.leaf i .free) base k := by
  unfold Holds
  rw [h]
  exact ⟨rfl, rfl, rfl, rfl, rfl, rfl⟩

/-- `get_heap_element` takes an element that was not in use. -/
lemma getHeapElement_spec (c : MmapConstants) (hs : Stocked bank) :
    getHeapElement c bank = .error .noElement ∨
      ∃ i, getHeapElement c bank = .ok (i, Function.update bank i ⟨0, 0, 0, 0, true, 0, 0⟩) ∧
        (bank i).inUse = false ∧ i < c.maxNumHeapElems := by
  unfold getHeapElement
  cases hf : (List.range c.maxNumHeapElems).find? fun i => !(bank i).inUse with
  | none => exact Or.inl rfl
  | some i =>
    have hu : (bank i).inUse = false := by simpa using List.find?_some hf
    have hlt : i < c.maxNumHeapElems := List.mem_range.mp (List.mem_of_find?_eq_some hf)
    exact Or.inr ⟨i, by simp [hs.eq_zero i hu, HeapElement.zero], hu, hlt⟩

/-- What `heap_split_elem` makes of an element without halves: two new elements for its halves. -/
structure Splits (c : MmapConstants) (bank bank' : Bank) (idx i j : ℕ) : Prop where
  vertex : bank' idx = { bank idx with subElem0 := i, subElem1 := j }
  lower : bank' i = leafElement (bank idx).baseAddr ((bank idx).length / 2)
  upper : bank' j =
    leafElement (wadd 32 (bank idx).baseAddr ((bank idx).length / 2)) ((bank idx).length / 2)
  other : ∀ x, x ≠ idx → x ≠ i → x ≠ j → bank' x = bank x
  lower_fresh : (bank i).inUse = false ∧ i < c.maxNumHeapElems
  upper_fresh : (bank j).inUse = false ∧ j < c.maxNumHeapElems
  ne : i ≠ j

/-- Setting up one half of a vertex keeps the bank stocked. -/
lemma Stocked.update_half (hs : Stocked bank) {e : HeapElement} (he : e.inUse = true)
    (idx i base len : ℕ) :
    Stocked (Function.update (Function.update bank idx e) i (leafElement base len)) := by
  refine hs.of_inUse fun x => ?_
  by_cases hi : x = i
  · exact Or.inr (by simp [hi, leafElement])
  · by_cases hidx : x = idx
    · exact Or.inr (by simp [hidx ▸ hi, hidx, he])
    · exact Or.inl (by simp [hi, hidx])

/-- `heap_split_elem` on an element without halves. -/
lemma heapSplitElem_spec (c : MmapConstants) (hs : Stocked bank) (hu : (bank idx).inUse = true)
    (hsub : (bank idx).subElem0 = 0) :
    heapSplitElem c bank idx = .error .noElement ∨
      ∃ i j bank', heapSplitElem c bank idx = .ok bank' ∧ Splits c bank bank' idx i j := by
  obtain ⟨base, len, n, p, sub1, hidx⟩ :
      ∃ base len n p sub1, bank idx = ⟨base, len, n, p, true, 0, sub1⟩ := by
    refine ⟨(bank idx).baseAddr, (bank idx).length, (bank idx).allocated, (bank idx).prot,
      (bank idx).subElem1, ?_⟩
    rw [← hu, ← hsub]
  unfold heapSplitElem
  rcases getHeapElement_spec c hs with he | ⟨i, he, hi⟩
  · exact Or.inl (by simp [hidx, he, bind, Except.bind])
  · have hine : i ≠ idx := by
      rintro rfl
      simp [hidx] at hi
    -- the bank after the lower half is set up
    have he₁ : (⟨base, len, n, p, true, i, sub1⟩ : HeapElement).inUse = true := rfl
    have hs₁ := hs.update_half he₁ idx i base (len / 2)
    have hbank₁ : Function.update (Function.update (Function.update bank i ⟨0, 0, 0, 0, true, 0, 0⟩)
        idx ⟨base, len, n, p, true, i, sub1⟩) i ⟨base, len / 2, 0, 0, true, 0, 0⟩ =
        Function.update (Function.update bank idx ⟨base, len, n, p, true, i, sub1⟩) i
          (leafElement base (len / 2)) := by
      rw [Function.update_comm hine, Function.update_idem, leafElement]
    rcases getHeapElement_spec c hs₁ with he' | ⟨j, he', hj⟩
    · refine Or.inl ?_
      simp [he, hidx, hine, hine.symm, hbank₁, he', bind, Except.bind]
    · have hji : j ≠ i := by
        rintro rfl
        simp [leafElement] at hj
      have hjidx : j ≠ idx := by
        rintro rfl
        simp [hji] at hj
      rw [Function.update_of_ne hji, Function.update_of_ne hjidx] at hj
      refine Or.inr ⟨i, j, Function.update (Function.update (Function.update bank i
        (leafElement base (len / 2))) j (leafElement (wadd 32 base (len / 2)) (len / 2))) idx
        ⟨base, len, n, p, true, i, j⟩, ?_, ?_⟩
      · simp only [he, hidx, hine, hine.symm, hbank₁, he', bind, Except.bind, hjidx,
          hjidx.symm, if_true, Function.update_self, ne_eq, not_false_eq_true, Function.update_of_ne,
          Except.ok.injEq]
        funext x
        by_cases hxidx : x = idx
        · simp [hxidx, hjidx.symm]
        · by_cases hxj : x = j
          · simp [hxj, hjidx, leafElement]
          · simp [hxidx, hxj, Function.update_apply]
      · constructor
        · simp [hidx]
        · simp [hine, hji.symm, hidx]
        · simp [hjidx, hidx]
        · intro x h1 h2 h3
          simp [h1, h2, h3]
        · exact hi
        · exact hj
        · exact hji.symm

namespace Splits

variable {n : ℕ}

/-- The element over two new halves. -/
lemma isVertex (h : Splits c bank bank' idx i j) (hv : IsVertex (bank idx) base k n 0 0) :
    IsVertex (bank' idx) base k n i j := by
  rw [h.vertex]
  exact ⟨hv.baseAddr, hv.length, hv.allocated, hv.inUse, rfl, rfl⟩

/-- The lower half is a free leaf. -/
lemma holds_lower (h : Splits c bank bank' idx i j) (hv : IsVertex (bank idx) base (k + 1) n 0 0) :
    Holds bank' (.leaf i .free) base k := by
  have hhalf : 2 ^ (k + 1) / 2 = 2 ^ k := by rw [pow_succ]; omega
  refine holds_leafElement ?_
  rw [h.lower, hv.baseAddr, hv.length, hhalf]

/-- The upper half is a free leaf. -/
lemma holds_upper (h : Splits c bank bank' idx i j) (hv : IsVertex (bank idx) base (k + 1) n 0 0)
    (hle : base + 2 ^ (k + 1) ≤ 2 ^ 32) : Holds bank' (.leaf j .free) (base + 2 ^ k) k := by
  have hhalf : 2 ^ (k + 1) / 2 = 2 ^ k := by rw [pow_succ]; omega
  have hpow : 2 ^ (k + 1) = 2 ^ k + 2 ^ k := by ring
  have hpos : 0 < 2 ^ k := by positivity
  refine holds_leafElement ?_
  rw [h.upper, hv.baseAddr, hv.length, hhalf, wadd_eq (by omega)]

/-- A leaf that is split is not one of its halves. -/
lemma idx_ne (h : Splits c bank bank' idx i j) (hu : (bank idx).inUse = true) :
    idx ≠ i ∧ idx ≠ j := by
  constructor
  · rintro rfl
    exact absurd h.lower_fresh.1 (by simp [hu])
  · rintro rfl
    exact absurd h.upper_fresh.1 (by simp [hu])

/-- Splitting keeps the bank stocked. -/
lemma stocked (h : Splits c bank bank' idx i j) (hu : (bank idx).inUse = true) (hs : Stocked bank) :
    Stocked bank' := by
  refine hs.of_inUse fun x => ?_
  by_cases h1 : x = idx
  · exact Or.inr (by rw [h1, h.vertex]; exact hu)
  · by_cases h2 : x = i
    · exact Or.inr (by rw [h2, h.lower]; rfl)
    · by_cases h3 : x = j
      · exact Or.inr (by rw [h3, h.upper]; rfl)
      · exact Or.inl (h.other x h1 h2 h3)

/-- The halves of a leaf are not element zero. -/
lemma ne_zero (h : Splits c bank bank' idx i j) (hs : Stocked bank) : i ≠ 0 ∧ j ≠ 0 := by
  constructor
  · rintro rfl
    exact absurd h.lower_fresh.1 (by simp [hs.zero_inUse])
  · rintro rfl
    exact absurd h.upper_fresh.1 (by simp [hs.zero_inUse])

/-- A leaf becomes a vertex over two free leaves. -/
lemma moves (h : Splits c bank bank' idx i j) (hu : (bank idx).inUse = true) (m : Mark) :
    Moves c bank bank' (.leaf idx m) (.node idx (.leaf i .free) (.leaf j .free)) where
  root := rfl
  nodup := by simp [h.idx_ne hu, h.ne]
  fresh x hx := by
    simp only [SplitTree.indices_node, SplitTree.indices_leaf, List.cons_append, List.nil_append,
      List.mem_cons, List.not_mem_nil, or_false] at hx ⊢
    rcases hx with hx | rfl | rfl
    · exact Or.inl hx
    · exact Or.inr h.lower_fresh
    · exact Or.inr h.upper_fresh
  frame x _ hx := by
    simp only [SplitTree.indices_node, SplitTree.indices_leaf, List.cons_append, List.nil_append,
      List.mem_cons, List.not_mem_nil, or_false, not_or] at hx
    exact h.other x hx.1 hx.2.1 hx.2.2
  dropped x hx hx' := absurd (List.mem_singleton.mp hx) (by
    simp only [SplitTree.indices_node, List.mem_cons, not_or] at hx'
    exact hx'.1)

end Splits

/-! ### The search -/

/-- How a search for a block of `size` in the tree `t` may end. -/
inductive AllocOutcome (c : MmapConstants) (bank : Bank) (t : SplitTree Mark) (base k size : ℕ) :
    Except HeapError (ℕ × Bank) → Prop
  /-- The bank had no element left. -/
  | noElement : AllocOutcome c bank t base k size (.error .noElement)
  /-- Nothing was found, and nothing changed. -/
  | notFound (h : ∀ i, t = .leaf i .free → 2 ^ k < size) : AllocOutcome c bank t base k size (.ok (0, bank))
  /-- A block was allocated. -/
  | found {a : ℕ} {bank' : Bank} {t' : SplitTree Mark} (ha : a ≠ 0) (holds : Holds bank' t' base k)
    (moves : Moves c bank bank' t t') (count_eq : count t' = count t + 1)
    (taken : (t'.marked .taken base k).Perm ((a, size) :: t.marked .taken base k))
    (reserved : t'.marked .reserved base k = t.marked .reserved base k) :
    AllocOutcome c bank t base k size (.ok (a, bank'))

/-- The element above an allocation. -/
lemma IsVertex.bump {e : HeapElement} {n sub0 sub1 : ℕ} (h : IsVertex e base k n sub0 sub1) :
    IsVertex (bump c e prot) base k (n + 1) sub0 sub1 :=
  ⟨h.baseAddr, h.length, by simp [Heap.bump, h.allocated], h.inUse, h.subElem0, h.subElem1⟩

/-- An allocation in the lower half. -/
lemma AllocOutcome.lower {l r : SplitTree Mark} {a : ℕ}
    (hnd : (SplitTree.node idx l r).indices.Nodup)
    (hv : IsVertex (bank idx) base (k + 1) (count l + count r) l.root r.root) (hne : l.root ≠ 0)
    (hr : Holds bank r (base + 2 ^ k) k) (ha : a ≠ 0)
    (h : AllocOutcome c bank l base k size (.ok (a, bank'))) :
    AllocOutcome c bank (.node idx l r) base (k + 1) size
      (.ok (a, Function.update bank' idx (bump c (bank' idx) prot))) := by
  cases h with
  | notFound h => exact absurd rfl ha
  | @found _ _ l' _ holds moves count_eq taken reserved =>
    have hidx : bank' idx = bank idx := moves.frame_of_inUse hv.inUse fun hmem =>
      (List.nodup_cons.mp hnd).1 (List.mem_append_left _ hmem)
    have hcount : count l' + count r = count l + count r + 1 := by omega
    refine .found ha ?_ (moves.node_left hnd hv.inUse (fun _ => hr.inUse) _) ?_ ?_ ?_
    · refine moves.holds_left hnd hv.inUse hne hr holds (by omega) ?_
      rw [hidx, hcount]
      exact hv.bump
    · simp only [count_node]
      exact hcount
    · simp only [SplitTree.marked_node_succ]
      exact taken.append_right _
    · simp only [SplitTree.marked_node_succ, reserved]

/-- An allocation in the upper half. -/
lemma AllocOutcome.upper {l r : SplitTree Mark} {a : ℕ}
    (hnd : (SplitTree.node idx l r).indices.Nodup)
    (hv : IsVertex (bank idx) base (k + 1) (count l + count r) l.root r.root) (hne : l.root ≠ 0)
    (hl : Holds bank l base k) (ha : a ≠ 0)
    (h : AllocOutcome c bank r (base + 2 ^ k) k size (.ok (a, bank'))) :
    AllocOutcome c bank (.node idx l r) base (k + 1) size
      (.ok (a, Function.update bank' idx (bump c (bank' idx) prot))) := by
  cases h with
  | notFound h => exact absurd rfl ha
  | @found _ _ r' _ holds moves count_eq taken reserved =>
    have hidx : bank' idx = bank idx := moves.frame_of_inUse hv.inUse fun hmem =>
      (List.nodup_cons.mp hnd).1 (List.mem_append_right _ hmem)
    have hcount : count l + count r' = count l + count r + 1 := by omega
    refine .found ha ?_ (moves.node_right hnd hv.inUse (fun _ => hl.inUse) _) ?_ ?_ ?_
    · refine moves.holds_right hnd hv.inUse hne hl holds (by omega) ?_
      rw [hidx, hcount]
      exact hv.bump
    · simp only [count_node]
      exact hcount
    · simp only [SplitTree.marked_node_succ]
      exact (taken.append_left _).trans List.perm_middle
    · simp only [SplitTree.marked_node_succ, reserved]

/-- An allocation below a leaf that was split for it. -/
lemma AllocOutcome.of_splits {a : ℕ} {bank₁ : Bank} (hs : Stocked bank)
    (hu : (bank idx).inUse = true) (hsp : Splits c bank bank₁ idx i j) (ha : a ≠ 0)
    (h : AllocOutcome c bank₁ (.node idx (.leaf i .free) (.leaf j .free)) base (k + 1) size
      (.ok (a, bank'))) :
    AllocOutcome c bank (.leaf idx .free) base (k + 1) size (.ok (a, bank')) := by
  cases h with
  | notFound h => exact absurd rfl ha
  | found _ holds moves count_eq taken reserved =>
    refine .found ha holds ((hsp.moves hu .free).trans hs moves) ?_ ?_ ?_
    · simpa using count_eq
    · simpa using taken
    · simpa using reserved

/-- A smaller power of two is at most half of a power of two. -/
lemma two_pow_le_of_lt {m k : ℕ} (h : 2 ^ m < 2 ^ (k + 1)) : 2 ^ m ≤ 2 ^ k :=
  Nat.pow_le_pow_right (by decide) (Nat.lt_succ_iff.mp ((Nat.pow_lt_pow_iff_right (by decide)).mp h))

/-- A leaf that is reserved or allocated gives nothing. -/
lemma heapAlloc_leaf {n fuel : ℕ} (hv : IsVertex (bank idx) base k n 0 0) (hn : n ≠ 0) :
    heapAlloc c size prot (fuel + 1) bank idx = .ok (0, bank) := by
  have hall : (bank idx).allocated ≠ 0 := by rw [hv.allocated]; exact_mod_cast hn
  unfold heapAlloc
  simp [hv.subElem0, hall]

/-- A free leaf of the requested size is allocated. -/
lemma heapAlloc_exact {m fuel : ℕ} (hv : IsVertex (bank idx) base m 0 0 0) (hbase : base ≠ 0) :
    AllocOutcome c bank (.leaf idx .free) base m (2 ^ m)
      (heapAlloc c (2 ^ m) prot (fuel + 1) bank idx) := by
  have hstep : heapAlloc c (2 ^ m) prot (fuel + 1) bank idx =
      .ok (base, Function.update bank idx
        { bank idx with allocated := (bank idx).allocated + 1, prot := prot }) := by
    unfold heapAlloc
    simp [hv.allocated, hv.length, hv.baseAddr]
  rw [hstep]
  refine .found hbase ?_ (Moves.update_leaf idx .free .taken _) rfl ?_ rfl
  · simp only [Holds, Function.update_self]
    exact ⟨hv.baseAddr, hv.length, by simp [hv.allocated, count], hv.inUse, hv.subElem0, hv.subElem1⟩
  · simp

/-- A free leaf above the requested size is split. -/
lemma heapAlloc_cut {fuel : ℕ} (hv : IsVertex (bank idx) base k 0 0 0) (hlt : size < 2 ^ k) :
    heapAlloc c size prot (fuel + 1) bank idx =
      (heapSplitElem c bank idx).bind
        fun bank => allocHalves c (heapAlloc c size prot fuel) prot bank idx := by
  rw [heapAlloc]
  simp [hv.allocated, hv.length, hlt, hlt.ne, bind]

/-- A vertex with halves is searched if it is above the requested size and has the same
cacheability, else nothing is found. -/
lemma heapAlloc_node (c : MmapConstants) (size prot fuel : ℕ) {sub0 sub1 n : ℕ}
    (hv : IsVertex (bank idx) base k n sub0 sub1) (hn : 0 < n) (hsub : sub0 ≠ 0) :
    heapAlloc c size prot (fuel + 1) bank idx = .ok (0, bank) ∨
      heapAlloc c size prot (fuel + 1) bank idx =
        allocHalves c (heapAlloc c size prot fuel) prot bank idx := by
  have hsplit : heapSplitElem c bank idx = .ok bank := by simp [heapSplitElem, hv.subElem0, hsub]
  have hall : (bank idx).allocated ≠ 0 := by rw [hv.allocated]; omega
  rw [heapAlloc]
  split_ifs
  · exact Or.inl rfl
  · exact Or.inl rfl
  · exact Or.inr (by simp [hsplit, bind, Except.bind])
  · exact Or.inl rfl

/-- The outcome of searching the halves of a vertex. -/
lemma allocHalves_outcome {alloc : Bank → ℕ → Except HeapError (ℕ × Bank)} {l r : SplitTree Mark}
    (hnd : (SplitTree.node idx l r).indices.Nodup)
    (hv : IsVertex (bank idx) base (k + 1) (count l + count r) l.root r.root) (hne : l.root ≠ 0)
    (hl : Holds bank l base k) (hr : Holds bank r (base + 2 ^ k) k)
    (hlo : AllocOutcome c bank l base k size (alloc bank l.root))
    (hup : AllocOutcome c bank r (base + 2 ^ k) k size (alloc bank r.root)) :
    AllocOutcome c bank (.node idx l r) base (k + 1) size (allocHalves c alloc prot bank idx) := by
  unfold allocHalves
  rw [hv.subElem0]
  generalize alloc bank l.root = resl at hlo
  cases hlo with
  | noElement => exact .noElement
  | found ha holds moves count_eq taken reserved =>
    simp only [bind, Except.bind, ne_eq, ha, not_false_eq_true, if_true]
    exact AllocOutcome.lower hnd hv hne hr ha (.found ha holds moves count_eq taken reserved)
  | notFound _ =>
    simp only [bind, Except.bind, ne_eq, not_true_eq_false, if_false]
    rw [hv.subElem1]
    generalize alloc bank r.root = resr at hup
    cases hup with
    | noElement => exact .noElement
    | notFound _ => exact .notFound fun i hi => by cases hi
    | found ha holds moves count_eq taken reserved =>
      simp only [ha, not_false_eq_true, if_true]
      exact AllocOutcome.upper hnd hv hne hl ha (.found ha holds moves count_eq taken reserved)

/-- A search below a free leaf that is split for it finds its block in the lower half. -/
lemma heapAlloc_cut_outcome {alloc : Bank → ℕ → Except HeapError (ℕ × Bank)} {bank₁ : Bank}
    (hs : Stocked bank) (hv : IsVertex (bank idx) base (k + 1) 0 0 0)
    (hle : base + 2 ^ (k + 1) ≤ 2 ^ 32) (hsp : Splits c bank bank₁ idx i j) (hsize : size ≤ 2 ^ k)
    (h : AllocOutcome c bank₁ (.leaf i .free) base k size (alloc bank₁ i)) :
    AllocOutcome c bank (.leaf idx .free) base (k + 1) size (allocHalves c alloc prot bank₁ idx) := by
  have hnd := (hsp.moves hv.inUse .free).nodup
  have hv₁ := hsp.isVertex hv
  unfold allocHalves
  rw [hv₁.subElem0]
  generalize alloc bank₁ i = res at h
  cases h with
  | noElement => exact .noElement
  | notFound h => exact absurd (h i rfl) hsize.not_gt
  | found ha holds moves count_eq taken reserved =>
    simp only [bind, Except.bind, ne_eq, ha, not_false_eq_true, if_true]
    exact .of_splits hs hv.inUse hsp ha (AllocOutcome.lower hnd hv₁ (hsp.ne_zero hs).1
      (hsp.holds_upper hv hle) ha (.found ha holds moves count_eq taken reserved))

/-- How `heap_alloc` ends, for a tree in which no free leaf starts at zero. -/
theorem heapAlloc_outcome (c : MmapConstants) (prot m : ℕ) {fuel : ℕ} (hfuel : k < fuel)
    (h : Holds bank t base k) (hnd : t.indices.Nodup) (hs : Stocked bank)
    (hle : base + 2 ^ k ≤ 2 ^ 32) (h0 : ∀ b ∈ t.marked .free base k, b.1 ≠ 0) :
    AllocOutcome c bank t base k (2 ^ m) (heapAlloc c (2 ^ m) prot fuel bank t.root) := by
  induction fuel generalizing k t base bank with
  | zero => exact absurd hfuel (Nat.not_lt_zero k)
  | succ fuel ih =>
    cases t with
    | leaf idx mark =>
      have hv : IsVertex (bank idx) base k (count (.leaf idx mark)) 0 0 := h
      by_cases hmark : mark = .free
      · subst hmark
        rw [count_free] at hv
        have hbase : base ≠ 0 := h0 (base, 2 ^ k) (by simp)
        rcases lt_trichotomy (2 ^ m) (2 ^ k) with hlt | heq | hgt
        · cases k with
          | zero => exact absurd hlt (by simp)
          | succ k =>
            rw [SplitTree.root_leaf, heapAlloc_cut hv hlt]
            rcases heapSplitElem_spec c hs hv.inUse hv.subElem0 with he | ⟨i, j, bank₁, he, hsp⟩
            · rw [he]
              exact .noElement
            · rw [he]
              have hle' : base + 2 ^ k ≤ 2 ^ 32 :=
                le_trans (by gcongr <;> omega) hle
              refine heapAlloc_cut_outcome hs hv hle hsp (two_pow_le_of_lt hlt) ?_
              exact ih (Nat.lt_of_succ_lt_succ hfuel) (hsp.holds_lower hv)
                (List.nodup_singleton i) (hsp.stocked hv.inUse hs) hle' (by simpa using hbase)
        · obtain rfl := Nat.pow_right_injective (le_refl 2) heq
          exact heapAlloc_exact hv hbase
        · have hstep : heapAlloc c (2 ^ m) prot (fuel + 1) bank idx = .ok (0, bank) := by
            unfold heapAlloc
            simp [hv.allocated, hv.length, hgt.ne', hgt.not_gt]
          rw [SplitTree.root_leaf, hstep]
          exact .notFound fun _ _ => hgt
      · rw [SplitTree.root_leaf, heapAlloc_leaf hv (by cases mark <;> simp_all [count])]
        refine .notFound fun i hi => absurd ?_ hmark
        simp only [SplitTree.leaf.injEq] at hi
        exact hi.2
    | node idx l r =>
      cases k with
      | zero => exact h.elim
      | succ k =>
        obtain ⟨hv, hpos, hne, hl, hr⟩ := h
        have hpow : 2 ^ (k + 1) = 2 ^ k + 2 ^ k := by ring
        have hpk : 0 < 2 ^ k := by positivity
        obtain ⟨hlnd, hrnd, -⟩ := List.nodup_append'.mp (List.nodup_cons.mp hnd).2
        simp only [SplitTree.marked_node_succ, List.mem_append] at h0
        rw [SplitTree.root_node]
        rcases heapAlloc_node c (2 ^ m) prot fuel hv hpos hne with hstep | hstep
        · rw [hstep]
          exact .notFound fun i hi => by cases hi
        · rw [hstep]
          refine allocHalves_outcome hnd hv hne hl hr ?_ ?_
          · exact ih (by omega) hl hlnd hs (by omega) fun b hb => h0 b (Or.inl hb)
          · exact ih (by omega) hr hrnd hs (by omega) fun b hb => h0 b (Or.inr hb)

end Heap

end TiOpenCL
