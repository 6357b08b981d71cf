import TiOpenCL.Mpax.HeapAlloc

/-!
# Allocation in a heap at address zero

The leaf at address zero of such a heap is lost when it is taken: its address reads as a failure, and
the search goes on.  The counts on the way to that leaf are then too low, but they stay positive above
everything that is taken, so the blocks that are returned are still free leaves of the tree.
-/

namespace TiOpenCL

namespace Heap

variable {c : MmapConstants} {bank bank' : Bank} {t t' l l' r r' : SplitTree Mark}
  {i j idx k size prot : ℕ}

/-- The bank holds a tree over `[0, 2 ^ k)`, with counts that are only known to be positive on the way
to the leaf at zero. -/
def HoldsZero (bank : Bank) : SplitTree Mark → ℕ → Prop
  | .leaf i m, k => IsVertex (bank i) 0 k (count (.leaf i m)) 0 0
  | .node _ _ _, 0 => False
  | .node i l r, k + 1 => (∃ n, 0 < n ∧ IsVertex (bank i) 0 (k + 1) n l.root r.root) ∧ l.root ≠ 0 ∧
      HoldsZero bank l k ∧ Holds bank r (2 ^ k) k

/-- A tree with exact counts. -/
lemma Holds.holdsZero (h : Holds bank t 0 k) : HoldsZero bank t k := by
  induction t generalizing k with
  | leaf i m => exact h
  | node i l r ihl _ =>
    cases k with
    | zero => exact h.elim
    | succ k =>
      obtain ⟨hv, hpos, hne, hl, hr⟩ := h
      rw [Nat.zero_add] at hr
      exact ⟨⟨_, hpos, hv⟩, hne, ihl hl, hr⟩

namespace HoldsZero

/-- The tree cuts no block of size one. -/
lemma fits (h : HoldsZero bank t k) : t.Fits k := by
  induction t generalizing k with
  | leaf i m => trivial
  | node i l r ihl _ =>
    cases k with
    | zero => exact h.elim
    | succ k => exact ⟨Nat.succ_pos k, ihl h.2.2.1, h.2.2.2.fits⟩

/-- The vertices of the tree are in use. -/
lemma inUse (h : HoldsZero bank t k) (hj : j ∈ t.indices) : (bank j).inUse = true := by
  induction t generalizing k with
  | leaf i m =>
    rw [List.mem_singleton.mp hj]
    exact IsVertex.inUse h
  | node i l r ihl _ =>
    cases k with
    | zero => exact h.elim
    | succ k =>
      obtain ⟨⟨n, -, hv⟩, -, hl, hr⟩ := h
      rcases List.mem_cons.mp hj with rfl | hj
      · exact hv.inUse
      · rcases List.mem_append.mp hj with hj | hj
        · exact ihl hl hj
        · exact hr.inUse hj

/-- Only the elements of its vertices matter for the tree. -/
lemma congr (h : HoldsZero bank t k) (hb : ∀ j ∈ t.indices, bank' j = bank j) :
    HoldsZero bank' t k := by
  induction t generalizing k with
  | leaf i m =>
    unfold HoldsZero at h ⊢
    rwa [hb i (by simp)]
  | node i l r ihl _ =>
    cases k with
    | zero => exact h.elim
    | succ k =>
      obtain ⟨⟨n, hn, hv⟩, hne, hl, hr⟩ := h
      refine ⟨⟨n, hn, ?_⟩, hne, ihl hl fun j hj => hb j ?_, hr.congr fun j hj => hb j ?_⟩
      · rwa [hb i (by simp)]
      · simp [hj]
      · simp [hj]

/-- A vertex over two trees that it is not part of. -/
lemma node {e : HeapElement} {n : ℕ} (he : IsVertex e 0 (k + 1) n l.root r.root) (hn : 0 < n)
    (hne : l.root ≠ 0) (hl : HoldsZero bank l k) (hr : Holds bank r (2 ^ k) k)
    (hidx : idx ∉ l.indices ++ r.indices) :
    HoldsZero (Function.update bank idx e) (.node idx l r) (k + 1) := by
  simp only [List.mem_append, not_or] at hidx
  refine ⟨⟨n, hn, by rwa [Function.update_self]⟩, hne, hl.congr fun j hj => ?_,
    hr.congr fun j hj => ?_⟩
  · exact Function.update_of_ne (ne_of_mem_of_not_mem hj hidx.1) _ _
  · exact Function.update_of_ne (ne_of_mem_of_not_mem hj hidx.2) _ _

end HoldsZero

/-! ### The search -/

/-- How a search in a heap at zero may end: a leaf at zero may be lost on the way. -/
inductive ZeroOutcome (c : MmapConstants) (bank : Bank) (t : SplitTree Mark) (k size : ℕ) :
    Except HeapError (ℕ × Bank) → Prop
  /-- The bank had no element left. -/
  | noElement : ZeroOutcome c bank t k size (.error .noElement)
  /-- Zero was returned. -/
  | zero {bank' : Bank} {t' : SplitTree Mark} (holds : HoldsZero bank' t' k)
    (moves : Moves c bank bank' t t')
    (taken : (t.marked .taken 0 k).Subperm (t'.marked .taken 0 k))
    (reserved : t'.marked .reserved 0 k = t.marked .reserved 0 k) :
    ZeroOutcome c bank t k size (.ok (0, bank'))
  /-- A block was allocated. -/
  | found {a : ℕ} {bank' : Bank} {t' : SplitTree Mark} (ha : a ≠ 0) (holds : HoldsZero bank' t' k)
    (moves : Moves c bank bank' t t')
    (taken : ((a, size) :: t.marked .taken 0 k).Subperm (t'.marked .taken 0 k))
    (reserved : t'.marked .reserved 0 k = t.marked .reserved 0 k) :
    ZeroOutcome c bank t k size (.ok (a, bank'))

/-- Nothing changes. -/
lemma ZeroOutcome.unchanged (h : HoldsZero bank t k) (hnd : t.indices.Nodup) :
    ZeroOutcome c bank t k size (.ok (0, bank)) :=
  .zero h ⟨rfl, hnd, fun _ => Or.inl, fun _ _ _ => rfl, fun _ hj hj' => absurd hj hj'⟩
    (List.Subperm.refl _) rfl

/-- The lower half moves, the element above it stays. -/
lemma Moves.node_left_self (hnd : (SplitTree.node idx l r).indices.Nodup)
    (hu : (bank idx).inUse = true) (hr : ∀ x ∈ r.indices, (bank x).inUse = true)
    (h : Moves c bank bank' l l') : Moves c bank bank' (.node idx l r) (.node idx l' r) := by
  have hm := h.node_left hnd hu hr (bank' idx)
  rwa [Function.update_eq_self] at hm

/-- An allocation in the lower half. -/
lemma ZeroOutcome.lower {a n : ℕ} (hnd : (SplitTree.node idx l r).indices.Nodup)
    (hv : IsVertex (bank idx) 0 (k + 1) n l.root r.root) (hne : l.root ≠ 0)
    (hr : Holds bank r (2 ^ k) k) (ha : a ≠ 0) (holds : HoldsZero bank' l' k)
    (moves : Moves c bank bank' l l')
    (taken : ((a, size) :: l.marked .taken 0 k).Subperm (l'.marked .taken 0 k))
    (reserved : l'.marked .reserved 0 k = l.marked .reserved 0 k) :
    ZeroOutcome c bank (.node idx l r) (k + 1) size
      (.ok (a, Function.update bank' idx (bump c (bank' idx) prot))) := by
  have hd : l.indices.Disjoint r.indices := (List.nodup_append'.mp (List.nodup_cons.mp hnd).2).2.2
  have hidx : bank' idx = bank idx := moves.frame_of_inUse hv.inUse fun hmem =>
    (List.nodup_cons.mp hnd).1 (List.mem_append_left _ hmem)
  have hm := moves.node_left hnd hv.inUse (fun _ => hr.inUse) (bump c (bank' idx) prot)
  refine .found ha ?_ hm ?_ ?_
  · refine HoldsZero.node (n := n + 1) ?_ (Nat.succ_pos n) (by rwa [moves.root]) holds
      (moves.holds_other hr hd) (List.nodup_cons.mp hm.nodup).1
    rw [hidx, moves.root]
    exact hv.bump
  · simp only [SplitTree.marked_node_succ, Nat.zero_add, ← List.cons_append]
    exact (List.subperm_append_right _).mpr taken
  · simp only [SplitTree.marked_node_succ, reserved]

/-- A leaf at zero is lost, and the upper half gives a block. -/
lemma ZeroOutcome.upper {a n : ℕ} {bank'' : Bank} (hs : Stocked bank)
    (hnd : (SplitTree.node idx l r).indices.Nodup)
    (hv : IsVertex (bank idx) 0 (k + 1) n l.root r.root) (hne : l.root ≠ 0)
    (hr : Holds bank r (2 ^ k) k) (holds : HoldsZero bank' l' k) (moves : Moves c bank bank' l l')
    (taken : (l.marked .taken 0 k).Subperm (l'.marked .taken 0 k))
    (reserved : l'.marked .reserved 0 k = l.marked .reserved 0 k) (ha : a ≠ 0)
    (h : AllocOutcome c bank' r (2 ^ k) k size (.ok (a, bank''))) :
    ZeroOutcome c bank (.node idx l r) (k + 1) size
      (.ok (a, Function.update bank'' idx (bump c (bank'' idx) prot))) := by
  have hidx : bank' idx = bank idx := moves.frame_of_inUse hv.inUse fun hmem =>
    (List.nodup_cons.mp hnd).1 (List.mem_append_left _ hmem)
  have hm := moves.node_left_self hnd hv.inUse fun _ => hr.inUse
  have hd : l'.indices.Disjoint r.indices :=
    (List.nodup_append'.mp (List.nodup_cons.mp hm.nodup).2).2.2
  cases h with
  | notFound h => exact absurd rfl ha
  | @found _ _ r' _ holds' moves' count_eq' taken' reserved' =>
    have hv' : IsVertex (bank' idx) 0 (k + 1) n l'.root r.root := by rwa [hidx, moves.root]
    have hidx' : bank'' idx = bank' idx := moves'.frame_of_inUse hv'.inUse fun hmem =>
      (List.nodup_cons.mp hm.nodup).1 (List.mem_append_right _ hmem)
    have hm' := moves'.node_right hm.nodup hv'.inUse (fun _ => holds.inUse)
      (bump c (bank'' idx) prot)
    refine .found ha ?_ (hm.trans hs hm') ?_ ?_
    · refine HoldsZero.node (n := n + 1) ?_ (Nat.succ_pos n) (by rwa [moves.root]) ?_ holds'
        (List.nodup_cons.mp hm'.nodup).1
      · rw [hidx', moves'.root]
        exact hv'.bump
      · exact holds.congr fun x hx => moves'.frame_of_inUse (holds.inUse hx) fun hx' => hd hx hx'
    · simp only [SplitTree.marked_node_succ, Nat.zero_add]
      refine List.Subperm.trans ?_ (((List.subperm_append_left _).mpr taken'.symm.subperm))
      refine List.Subperm.trans List.perm_middle.symm.subperm ?_
      exact (List.subperm_append_right _).mpr taken
    · simp only [SplitTree.marked_node_succ, Nat.zero_add, reserved, reserved']

/-- The outcome of searching the halves of a vertex at zero. -/
lemma allocHalves_zero {alloc : Bank → ℕ → Except HeapError (ℕ × Bank)} {n : ℕ} (hs : Stocked bank)
    (hnd : (SplitTree.node idx l r).indices.Nodup)
    (hv : IsVertex (bank idx) 0 (k + 1) n l.root r.root) (hne : l.root ≠ 0)
    (hr : Holds bank r (2 ^ k) k) (h0 : 0 ∉ l.indices)
    (hn : 0 < n ∨ (∃ j, r = .leaf j .free) ∧ size ≤ 2 ^ k)
    (hlo : ZeroOutcome c bank l k size (alloc bank l.root))
    (hup : ∀ bank', Stocked bank' → Holds bank' r (2 ^ k) k →
      AllocOutcome c bank' r (2 ^ k) k size (alloc bank' r.root)) :
    ZeroOutcome c bank (.node idx l r) (k + 1) size (allocHalves c alloc prot bank idx) := by
  have hd : l.indices.Disjoint r.indices := (List.nodup_append'.mp (List.nodup_cons.mp hnd).2).2.2
  unfold allocHalves
  rw [hv.subElem0]
  generalize alloc bank l.root = res at hlo
  cases hlo with
  | noElement => exact .noElement
  | found ha holds moves taken reserved =>
    simp only [bind, Except.bind, ne_eq, ha, not_false_eq_true, if_true]
    exact ZeroOutcome.lower hnd hv hne hr ha holds moves taken reserved
  | @zero bank' l' holds moves taken reserved =>
    have hidx : bank' idx = bank idx := moves.frame_of_inUse hv.inUse fun hmem =>
      (List.nodup_cons.mp hnd).1 (List.mem_append_left _ hmem)
    have hs' : Stocked bank' := hs.moves moves (fun _ => holds.inUse) fun h => absurd h h0
    have hr' := moves.holds_other hr hd
    have hout := hup bank' hs' hr'
    simp only [bind, Except.bind, ne_eq, not_true_eq_false, if_false, hidx, hv.subElem1]
    generalize alloc bank' r.root = res' at hout
    cases hout with
    | noElement => exact .noElement
    | notFound h =>
      -- the upper half is cut or taken, so the count of the vertex was positive before
      have hn' : 0 < n := by
        rcases hn with hn | ⟨⟨j, hj⟩, hsize⟩
        · exact hn
        · exact absurd (h j hj) hsize.not_gt
      have hm := moves.node_left_self hnd hv.inUse fun _ => hr.inUse
      have hh : HoldsZero bank' (.node idx l' r) (k + 1) :=
        ⟨⟨n, hn', by rwa [hidx, moves.root]⟩, by rwa [moves.root], holds, hr'⟩
      refine .zero hh hm ?_ ?_
      · simp only [SplitTree.marked_node_succ]
        exact (List.subperm_append_right _).mpr taken
      · simp only [SplitTree.marked_node_succ, reserved]
    | found ha holds' moves' count_eq' taken' reserved' =>
      simp only [ha, not_false_eq_true, if_true]
      exact ZeroOutcome.upper hs hnd hv hne hr holds moves taken reserved ha
        (.found ha holds' moves' count_eq' taken' reserved')

/-- A search below a leaf that was split for it. -/
lemma ZeroOutcome.of_splits {bank₁ : Bank} {res : Except HeapError (ℕ × Bank)} (hs : Stocked bank)
    (hu : (bank idx).inUse = true) (hsp : Splits c bank bank₁ idx i j)
    (h : ZeroOutcome c bank₁ (.node idx (.leaf i .free) (.leaf j .free)) (k + 1) size res) :
    ZeroOutcome c bank (.leaf idx .free) (k + 1) size res := by
  cases h with
  | noElement => exact .noElement
  | zero holds moves taken reserved =>
    refine .zero holds ((hsp.moves hu .free).trans hs moves) ?_ ?_
    · simp
    · simpa using reserved
  | found ha holds moves taken reserved =>
    refine .found ha holds ((hsp.moves hu .free).trans hs moves) ?_ ?_
    · simpa using taken
    · simpa using reserved

/-- A free leaf at zero of the requested size is lost. -/
lemma heapAlloc_lost {m fuel : ℕ} (hv : IsVertex (bank idx) 0 m 0 0 0) :
    ZeroOutcome c bank (.leaf idx .free) m (2 ^ m)
      (heapAlloc c (2 ^ m) prot (fuel + 1) bank idx) := by
  have hstep : heapAlloc c (2 ^ m) prot (fuel + 1) bank idx =
      .ok (0, Function.update bank idx
        { bank idx with allocated := (bank idx).allocated + 1, prot := prot }) := by
    unfold heapAlloc
    simp [hv.allocated, hv.length, hv.baseAddr]
  rw [hstep]
  refine .zero ?_ (Moves.update_leaf idx .free .taken _) (by simp) (by simp)
  simp only [HoldsZero, Function.update_self]
  exact ⟨hv.baseAddr, hv.length, by simp [hv.allocated, count], hv.inUse, hv.subElem0, hv.subElem1⟩

/-- How `heap_alloc` ends on a heap at zero. -/
theorem heapAlloc_zero (c : MmapConstants) (prot m : ℕ) {fuel : ℕ} (hfuel : k < fuel)
    (h : HoldsZero bank t k) (hnd : t.indices.Nodup) (hs : Stocked bank) (hle : 2 ^ k ≤ 2 ^ 32)
    (h0 : 0 ∈ t.indices → t.root = 0) :
    ZeroOutcome c bank t k (2 ^ m) (heapAlloc c (2 ^ m) prot fuel bank t.root) := by
  induction fuel generalizing k t bank with
  | zero => exact absurd hfuel (Nat.not_lt_zero k)
  | succ fuel ih =>
    -- the upper half is never at zero
    have hright : ∀ {k r}, k + 1 < fuel + 1 → 2 ^ (k + 1) ≤ 2 ^ 32 → r.indices.Nodup → ∀ bank',
        Stocked bank' → Holds bank' r (2 ^ k) k →
        AllocOutcome c bank' r (2 ^ k) k (2 ^ m) (heapAlloc c (2 ^ m) prot fuel bank' r.root) := by
      intro k r hk hle' hrnd bank' hs' hr'
      have hpow : 2 ^ (k + 1) = 2 ^ k + 2 ^ k := by ring
      have hpos : 0 < 2 ^ k := by positivity
      refine heapAlloc_outcome c prot m (by omega) hr' hrnd hs' (by omega) fun b hb => ?_
      have hin := SplitTree.subset_of_mem_marked hr'.fits hb
      omega
    cases t with
    | leaf idx mark =>
      have hv : IsVertex (bank idx) 0 k (count (.leaf idx mark)) 0 0 := h
      rw [SplitTree.root_leaf] at *
      by_cases hmark : mark = .free
      · subst hmark
        rw [count_free] at hv
        rcases lt_trichotomy (2 ^ m) (2 ^ k) with hlt | heq | hgt
        · cases k with
          | zero => exact absurd hlt (by simp)
          | succ k =>
            rw [heapAlloc_cut hv hlt]
            rcases heapSplitElem_spec c hs hv.inUse hv.subElem0 with he | ⟨i, j, bank₁, he, hsp⟩
            · rw [he]
              exact .noElement
            · rw [he, Except.bind]
              have hs₁ := hsp.stocked hv.inUse hs
              have hne := hsp.ne_zero hs
              have hsize := two_pow_le_of_lt hlt
              have hle' : 2 ^ k ≤ 2 ^ 32 := le_trans (Nat.pow_le_pow_right (by decide) (Nat.le_succ k)) hle
              have hr := hsp.holds_upper hv (by rwa [Nat.zero_add])
              rw [Nat.zero_add] at hr
              have h0i : 0 ∉ (SplitTree.leaf i Mark.free).indices := by simpa using hne.1.symm
              refine ZeroOutcome.of_splits hs hv.inUse hsp (allocHalves_zero hs₁
                (hsp.moves hv.inUse .free).nodup (hsp.isVertex hv) hne.1 hr h0i
                (Or.inr ⟨⟨j, rfl⟩, hsize⟩) ?_ (hright hfuel hle (List.nodup_singleton j)))
              exact ih (Nat.lt_of_succ_lt_succ hfuel) (hsp.holds_lower hv).holdsZero
                (List.nodup_singleton i) hs₁ hle' fun h => absurd h h0i
        · obtain rfl := Nat.pow_right_injective (le_refl 2) heq
          exact heapAlloc_lost hv
        · have hstep : heapAlloc c (2 ^ m) prot (fuel + 1) bank idx = .ok (0, bank) := by
            unfold heapAlloc
            simp [hv.allocated, hv.length, hgt.ne', hgt.not_gt]
          rw [hstep]
          exact .unchanged h hnd
      · rw [heapAlloc_leaf hv (by cases mark <;> simp_all [count])]
        exact .unchanged h hnd
    | node idx l r =>
      cases k with
      | zero => exact h.elim
      | succ k =>
        have hh := h
        obtain ⟨⟨n, hn, hv⟩, hne, hl, hr⟩ := h
        have hle' : 2 ^ k ≤ 2 ^ 32 := le_trans (Nat.pow_le_pow_right (by decide) (Nat.le_succ k)) hle
        obtain ⟨hidx, hlr⟩ := List.nodup_cons.mp hnd
        obtain ⟨hlnd, hrnd, -⟩ := List.nodup_append'.mp hlr
        have h0l : 0 ∉ l.indices := by
          intro hmem
          have hz : idx = 0 := h0 (List.mem_cons_of_mem _ (List.mem_append_left _ hmem))
          exact hidx (hz ▸ List.mem_append_left _ hmem)
        rw [SplitTree.root_node]
        rcases heapAlloc_node c (2 ^ m) prot fuel hv hn hne with hstep | hstep
        · rw [hstep]
          exact .unchanged hh hnd
        · rw [hstep]
          exact allocHalves_zero hs hnd hv hne hr h0l (Or.inl hn)
            (ih (Nat.lt_of_succ_lt_succ hfuel) hl hlnd hs hle' fun h => absurd h h0l)
            (hright hfuel hle hrnd)

end Heap

end TiOpenCL
