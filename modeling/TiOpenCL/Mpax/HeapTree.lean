import TiOpenCL.Library.SplitTree
import TiOpenCL.Mpax.Heap

/-!
# The tree of a heap

The bank holds a tree when every vertex of the tree has an element with the block of the vertex, the
indices of its halves and the number of leaves below it that are not free (`Holds`).  `Moves` says
what an operation on one tree does to the rest of the bank: nothing, except that new vertices come
from elements that were not in use and vertices that go away leave zeroed elements.
-/

namespace TiOpenCL

namespace Heap

variable (c : MmapConstants)

/-- What a leaf of a heap is used for. -/
inductive Mark
  /-- It can be allocated or cut. -/
  | free
  /-- It belongs to the excess of the normalised window. -/
  | reserved
  /-- It is allocated. -/
  | taken
  deriving DecidableEq

/-- The number of reserved or allocated leaves. -/
def count : SplitTree Mark → ℕ
  | .leaf _ .free => 0
  | .leaf _ _ => 1
  | .node _ l r => count l + count r

/-- The element of a vertex with the block `[base, base + 2 ^ k)`. -/
structure IsVertex (e : HeapElement) (base k n sub0 sub1 : ℕ) : Prop where
  baseAddr : e.baseAddr = base
  length : e.length = 2 ^ k
  allocated : e.allocated = n
  inUse : e.inUse = true
  subElem0 : e.subElem0 = sub0
  subElem1 : e.subElem1 = sub1

/-- The bank holds a tree over `[base, base + 2 ^ k)`.  A block is cut only while something below it
is reserved or allocated. -/
def Holds (bank : Bank) : SplitTree Mark → ℕ → ℕ → Prop
  | .leaf i m, base, k => IsVertex (bank i) base k (count (.leaf i m)) 0 0
  | .node _ _ _, _, 0 => False
  | .node i l r, base, k + 1 =>
    IsVertex (bank i) base (k + 1) (count l + count r) l.root r.root ∧ 0 < count l + count r ∧
      l.root ≠ 0 ∧ Holds bank l base k ∧ Holds bank r (base + 2 ^ k) k

/-- Element zero is in use and an element that is not in use is zeroed. -/
structure Stocked (bank : Bank) : Prop where
  zero_inUse : (bank 0).inUse = true
  eq_zero : ∀ i, (bank i).inUse = false → bank i = .zero

/-- The tree `t` became `t'` and the bank changed only there. -/
structure Moves (bank bank' : Bank) (t t' : SplitTree Mark) : Prop where
  root : t'.root = t.root
  nodup : t'.indices.Nodup
  fresh : ∀ j ∈ t'.indices, j ∈ t.indices ∨ (bank j).inUse = false ∧ j < c.maxNumHeapElems
  frame : ∀ j, j ∉ t.indices → j ∉ t'.indices → bank' j = bank j
  dropped : ∀ j ∈ t.indices, j ∉ t'.indices → bank' j = .zero

variable {c} {bank bank' : Bank} {t t' l l' r r' : SplitTree Mark} {i j idx base k : ℕ}

/-! ### Trees in the bank -/

@[simp] lemma count_node (i : ℕ) (l r : SplitTree Mark) :
    count (.node i l r) = count l + count r := rfl

@[simp] lemma count_free (i : ℕ) : count (.leaf i .free) = 0 := rfl

/-- A tree that the bank holds cuts no block of size one. -/
lemma Holds.fits (h : Holds bank t base k) : t.Fits k := by
  induction t generalizing base k with
  | leaf i m => trivial
  | node i l r ihl ihr =>
    cases k with
    | zero => exact h.elim
    | succ k => exact ⟨Nat.succ_pos k, ihl h.2.2.2.1, ihr h.2.2.2.2⟩

/-- The vertices of a tree are in use. -/
lemma Holds.inUse (h : Holds bank t base k) (hj : j ∈ t.indices) : (bank j).inUse = true := by
  induction t generalizing base k with
  | leaf i m =>
    rw [List.mem_singleton.mp hj]
    exact IsVertex.inUse h
  | node i l r ihl ihr =>
    cases k with
    | zero => exact h.elim
    | succ k =>
      rcases List.mem_cons.mp hj with rfl | hj
      · exact h.1.inUse
      · rcases List.mem_append.mp hj with hj | hj
        · exact ihl h.2.2.2.1 hj
        · exact ihr h.2.2.2.2 hj

/-- Only the elements of its vertices matter for a tree. -/
lemma Holds.congr (h : Holds bank t base k) (hb : ∀ j ∈ t.indices, bank' j = bank j) :
    Holds bank' t base k := by
  induction t generalizing base k with
  | leaf i m =>
    unfold Holds at h ⊢
    rwa [hb i (by simp)]
  | node i l r ihl ihr =>
    cases k with
    | zero => exact h.elim
    | succ k =>
      obtain ⟨hv, hpos, hne, hl, hr⟩ := h
      refine ⟨?_, hpos, hne, ihl hl fun j hj => hb j ?_, ihr hr fun j hj => hb j ?_⟩
      · rwa [hb i (by simp)]
      · simp [hj]
      · simp [hj]

/-- The element of the topmost vertex. -/
lemma Holds.isVertex_root (h : Holds bank t base k) :
    ∃ sub0 sub1, IsVertex (bank t.root) base k (count t) sub0 sub1 := by
  cases t with
  | leaf i m => exact ⟨_, _, h⟩
  | node i l r =>
    cases k with
    | zero => exact h.elim
    | succ k => exact ⟨_, _, h.1⟩

/-- A tree with nothing reserved or allocated is a free leaf. -/
lemma Holds.eq_leaf (h : Holds bank t base k) (h0 : count t = 0) : t = .leaf t.root .free := by
  cases t with
  | leaf i m => cases m <;> first | rfl | cases h0
  | node i l r =>
    cases k with
    | zero => exact h.elim
    | succ k => exact absurd h0 h.2.1.ne'

/-- The count is the number of reserved leaves and of allocated leaves. -/
lemma count_eq_length (h : t.Fits k) (base : ℕ) :
    count t = (t.marked .reserved base k).length + (t.marked .taken base k).length := by
  induction t generalizing base k with
  | leaf i m => cases m <;> simp [count]
  | node i l r ihl ihr =>
    obtain ⟨hk, hl, hr⟩ := h
    obtain ⟨k, rfl⟩ := Nat.exists_eq_add_one.mpr hk
    simp only [count_node, SplitTree.marked_node_succ, List.length_append]
    rw [ihl hl base, ihr hr (base + 2 ^ k)]
    simp only [Nat.add_sub_cancel]
    omega

/-- The last address of a vertex, which may be the last address of all. -/
lemma IsVertex.lastAddr_eq {e : HeapElement} {n sub0 sub1 : ℕ} (h : IsVertex e base k n sub0 sub1)
    (hle : base + 2 ^ k ≤ 2 ^ 32) : lastAddr e = base + 2 ^ k - 1 := by
  have hpos : 0 < 2 ^ k := by positivity
  rw [lastAddr, h.baseAddr, h.length]
  rcases hle.lt_or_eq with hlt | heq
  · rw [wadd_eq hlt, wsub_eq (by omega) hlt]
  · rw [wadd, heq]
    rfl

/-- The addresses of a vertex. -/
lemma IsVertex.contains_iff {e : HeapElement} {n sub0 sub1 a : ℕ}
    (h : IsVertex e base k n sub0 sub1) (hle : base + 2 ^ k ≤ 2 ^ 32) :
    Contains e a ↔ base ≤ a ∧ a < base + 2 ^ k := by
  have hpos : 0 < 2 ^ k := by positivity
  rw [Contains, h.lastAddr_eq hle, h.baseAddr]
  omega

/-! ### Moves -/

/-- An index of the moved tree that was in use before belongs to the old tree. -/
lemma Moves.mem_of_inUse (h : Moves c bank bank' t t') (hj : j ∈ t'.indices)
    (hu : (bank j).inUse = true) : j ∈ t.indices := by
  rcases h.fresh j hj with hj | ⟨hf, -⟩
  · exact hj
  · simp [hu] at hf

/-- Another tree of the bank stays where it is. -/
lemma Moves.frame_of_inUse (h : Moves c bank bank' t t') (hu : (bank j).inUse = true)
    (hj : j ∉ t.indices) : bank' j = bank j :=
  h.frame j hj fun hj' => hj (h.mem_of_inUse hj' hu)

/-- A tree with other vertices is still held. -/
lemma Moves.holds_other (h : Moves c bank bank' t t') (hr : Holds bank r base k)
    (hd : t.indices.Disjoint r.indices) : Holds bank' r base k :=
  hr.congr fun _ hj => h.frame_of_inUse (hr.inUse hj) fun hj' => hd hj' hj

/-- Elements that are only taken keep the bank stocked. -/
lemma Stocked.of_inUse (hs : Stocked bank)
    (h : ∀ i, bank' i = bank i ∨ (bank' i).inUse = true) : Stocked bank' where
  zero_inUse := (h 0).elim (fun h0 => by rw [h0, hs.zero_inUse]) id
  eq_zero i hi := by
    rcases h i with h | h
    · rw [h] at hi ⊢
      exact hs.eq_zero i hi
    · simp [h] at hi

/-- A move with the tree back in place keeps the bank stocked. -/
lemma Stocked.moves (hs : Stocked bank) (hm : Moves c bank bank' t t')
    (h' : ∀ x ∈ t'.indices, (bank' x).inUse = true) (h0 : 0 ∈ t.indices → t.root = 0) :
    Stocked bank' where
  zero_inUse := by
    by_cases hmem : 0 ∈ t.indices
    · exact h' 0 (by rw [← h0 hmem, ← hm.root]; exact t'.root_mem_indices)
    · rw [hm.frame_of_inUse hs.zero_inUse hmem, hs.zero_inUse]
  eq_zero i hi := by
    have hi' : i ∉ t'.indices := fun hmem => by simp [h' i hmem] at hi
    by_cases ht : i ∈ t.indices
    · exact hm.dropped i ht hi'
    · rw [hm.frame i ht hi'] at hi ⊢
      exact hs.eq_zero i hi

/-- Two moves one after the other. -/
lemma Moves.trans {bank'' : Bank} {t'' : SplitTree Mark} (hs : Stocked bank)
    (h : Moves c bank bank' t t') (h' : Moves c bank' bank'' t' t'') : Moves c bank bank'' t t'' where
  root := h'.root.trans h.root
  nodup := h'.nodup
  fresh j hj := by
    by_cases hj' : j ∈ t'.indices
    · exact h.fresh j hj'
    · by_cases hjt : j ∈ t.indices
      · exact Or.inl hjt
      · refine Or.inr ?_
        rw [← h.frame j hjt hj']
        exact (h'.fresh j hj).resolve_left hj'
  frame j hj hj'' := by
    by_cases hj' : j ∈ t'.indices
    · rw [h'.dropped j hj' hj'', hs.eq_zero j ((h.fresh j hj').resolve_left hj).1]
    · rw [h'.frame j hj' hj'', h.frame j hj hj']
  dropped j hj hj'' := by
    by_cases hj' : j ∈ t'.indices
    · exact h'.dropped j hj' hj''
    · rw [h'.frame j hj' hj'', h.dropped j hj hj']

/-- Writing the element of a leaf. -/
lemma Moves.update_leaf (idx : ℕ) (m m' : Mark) (e : HeapElement) :
    Moves c bank (Function.update bank idx e) (.leaf idx m) (.leaf idx m') where
  root := rfl
  nodup := List.nodup_singleton idx
  fresh _ hj := Or.inl hj
  frame j hj _ := Function.update_of_ne (by simpa using hj) _ _
  dropped _ hj hj' := absurd hj hj'

/-- Moving the lower half and writing the element above it moves the whole tree. -/
lemma Moves.node_left (hnd : (SplitTree.node idx l r).indices.Nodup) (hu : (bank idx).inUse = true)
    (hr : ∀ x ∈ r.indices, (bank x).inUse = true) (h : Moves c bank bank' l l') (e : HeapElement) :
    Moves c bank (Function.update bank' idx e) (.node idx l r) (.node idx l' r) := by
  obtain ⟨hidx, hlr⟩ := List.nodup_cons.mp hnd
  obtain ⟨-, hrnd, hd⟩ := List.nodup_append'.mp hlr
  simp only [List.mem_append, not_or] at hidx
  have hidx' : idx ∉ l'.indices := fun hmem => hidx.1 (h.mem_of_inUse hmem hu)
  have hd' : l'.indices.Disjoint r.indices := fun j hj hjr =>
    hd (h.mem_of_inUse hj (hr j hjr)) hjr
  refine ⟨rfl, ?_, ?_, ?_, ?_⟩
  · simp [hidx', hidx.2, List.nodup_append', h.nodup, hrnd, hd']
  · intro j hj
    simp only [SplitTree.indices_node, List.mem_cons, List.mem_append] at hj ⊢
    rcases hj with hj | hj | hj
    · exact Or.inl (Or.inl hj)
    · exact (h.fresh j hj).imp_left fun hl => Or.inr (Or.inl hl)
    · exact Or.inl (Or.inr (Or.inr hj))
  · intro j hj hj'
    simp only [SplitTree.indices_node, List.mem_cons, List.mem_append, not_or] at hj hj'
    rw [Function.update_of_ne hj.1, h.frame j hj.2.1 hj'.2.1]
  · intro j hj hj'
    simp only [SplitTree.indices_node, List.mem_cons, List.mem_append, not_or] at hj hj'
    rw [Function.update_of_ne hj'.1]
    exact h.dropped j ((hj.resolve_left hj'.1).resolve_right hj'.2.2) hj'.2.1

/-- Only the indices and the roots of the trees matter for a move. -/
lemma Moves.of_perm {s s' : SplitTree Mark} (h : Moves c bank bank' t t')
    (hroot : s.root = t.root ∧ s'.root = t'.root) (hp : t.indices.Perm s.indices)
    (hp' : t'.indices.Perm s'.indices) : Moves c bank bank' s s' where
  root := by rw [hroot.1, hroot.2, h.root]
  nodup := hp'.nodup_iff.mp h.nodup
  fresh j hj := by
    rw [← hp.mem_iff]
    exact h.fresh j (hp'.mem_iff.mpr hj)
  frame j hj hj' := h.frame j (fun hm => hj (hp.mem_iff.mp hm)) fun hm => hj' (hp'.mem_iff.mp hm)
  dropped j hj hj' := h.dropped j (hp.mem_iff.mpr hj) fun hm => hj' (hp'.mem_iff.mp hm)

/-- The halves of a vertex in the other order. -/
lemma indices_swap (idx : ℕ) (l r : SplitTree Mark) :
    (SplitTree.node idx r l).indices.Perm (SplitTree.node idx l r).indices :=
  List.perm_append_comm.cons idx

/-- Moving the upper half and writing the element above it moves the whole tree. -/
lemma Moves.node_right (hnd : (SplitTree.node idx l r).indices.Nodup) (hu : (bank idx).inUse = true)
    (hl : ∀ x ∈ l.indices, (bank x).inUse = true) (h : Moves c bank bank' r r') (e : HeapElement) :
    Moves c bank (Function.update bank' idx e) (.node idx l r) (.node idx l r') := by
  have hnd' := (indices_swap idx r l).nodup_iff.mp hnd
  exact (h.node_left hnd' hu hl e).of_perm ⟨rfl, rfl⟩ (indices_swap idx l r) (indices_swap idx l r')

/-- A vertex over two trees that it is not part of. -/
lemma holds_node {e : HeapElement} (he : IsVertex e base (k + 1) (count l + count r) l.root r.root)
    (hpos : 0 < count l + count r) (hne : l.root ≠ 0) (hl : Holds bank l base k)
    (hr : Holds bank r (base + 2 ^ k) k) (hidx : idx ∉ l.indices ++ r.indices) :
    Holds (Function.update bank idx e) (.node idx l r) base (k + 1) := by
  simp only [List.mem_append, not_or] at hidx
  refine ⟨by rwa [Function.update_self], hpos, hne, hl.congr fun j hj => ?_,
    hr.congr fun j hj => ?_⟩
  · exact Function.update_of_ne (ne_of_mem_of_not_mem hj hidx.1) _ _
  · exact Function.update_of_ne (ne_of_mem_of_not_mem hj hidx.2) _ _

/-- The tree over a moved lower half. -/
lemma Moves.holds_left {e : HeapElement} (hnd : (SplitTree.node idx l r).indices.Nodup)
    (hu : (bank idx).inUse = true) (hne : l.root ≠ 0) (hr : Holds bank r (base + 2 ^ k) k)
    (h : Moves c bank bank' l l') (hl' : Holds bank' l' base k) (hpos : 0 < count l' + count r)
    (he : IsVertex e base (k + 1) (count l' + count r) l.root r.root) :
    Holds (Function.update bank' idx e) (.node idx l' r) base (k + 1) := by
  have hd : l.indices.Disjoint r.indices := (List.nodup_append'.mp (List.nodup_cons.mp hnd).2).2.2
  have hnd' := (h.node_left hnd hu (fun _ => hr.inUse) e).nodup
  exact holds_node (by rwa [h.root]) hpos (by rwa [h.root]) hl' (h.holds_other hr hd)
    (List.nodup_cons.mp hnd').1

/-- The tree over a moved upper half. -/
lemma Moves.holds_right {e : HeapElement} (hnd : (SplitTree.node idx l r).indices.Nodup)
    (hu : (bank idx).inUse = true) (hne : l.root ≠ 0) (hl : Holds bank l base k)
    (h : Moves c bank bank' r r') (hr' : Holds bank' r' (base + 2 ^ k) k)
    (hpos : 0 < count l + count r')
    (he : IsVertex e base (k + 1) (count l + count r') l.root r.root) :
    Holds (Function.update bank' idx e) (.node idx l r') base (k + 1) := by
  have hd : l.indices.Disjoint r.indices := (List.nodup_append'.mp (List.nodup_cons.mp hnd).2).2.2
  have hnd' := (h.node_right hnd hu (fun _ => hl.inUse) e).nodup
  exact holds_node (by rwa [h.root]) hpos hne (h.holds_other hl hd.symm) hr'
    (List.nodup_cons.mp hnd').1

end Heap

end TiOpenCL
