import TiOpenCL.Mpax.HeapFree
import TiOpenCL.Mpax.HeapInit
import TiOpenCL.Mpax.Resource

/-!
# All heaps of the manager

The trees of the heaps share one bank.  `IsForest` says that the elements in use are exactly the
vertices of the trees and that no element belongs to two of them; `Shape` says what the tree of one
heap looks like, given the blocks of the heap that are handed out.  `heap_alloc`, `heap_free` and the
setup keep both.
-/

namespace TiOpenCL

namespace Heap

variable {c : MmapConstants} {bank bank' : Bank} {t t' : SplitTree Mark} {f : ℕ → SplitTree Mark}
  {n i j : ℕ} {range : Block} {live : List Block}

/-- The elements in use are exactly the vertices of the trees `f 0, …, f (n - 1)`, none of them
shared. -/
structure IsForest (c : MmapConstants) (n : ℕ) (bank : Bank) (f : ℕ → SplitTree Mark) : Prop where
  root : ∀ i < n, (f i).root = i
  nodup : ∀ i < n, (f i).indices.Nodup
  disjoint : ∀ i < n, ∀ j < n, i ≠ j → (f i).indices.Disjoint (f j).indices
  lt : ∀ i < n, ∀ x ∈ (f i).indices, x < c.maxNumHeapElems
  inUse_iff : ∀ x, (bank x).inUse = true ↔ ∃ i < n, x ∈ (f i).indices
  unused : ∀ x, (bank x).inUse = false → bank x = .zero

/-- The tree of a heap with the range `range` and the blocks `live` handed out: its leaves that are
allocated are those blocks, its reserved leaves the excess of its window.  A heap without a window is
one element that gives nothing. -/
inductive Shape (bank : Bank) (range : Block) (t : SplitTree Mark) (live : List Block) : Prop
  | window {base k : ℕ} (hw : IsWindow range.1 range.2 base k) (holds : Holds bank t base k)
    (taken : (t.marked .taken base k).Perm live)
    (reserved : ∀ x, coverCount (t.marked .reserved base k) x =
      if base ≤ x ∧ x < base + 2 ^ k ∧ ¬ (range.1 ≤ x ∧ x < range.1 + range.2) then 1 else 0)
  | spent {idx : ℕ} {m : Mark} (ht : t = .leaf idx m) (hm : m ≠ .taken) (hel : IsSpent (bank idx))
    (hall : (bank idx).allocated = count t) (hlive : live = [])

/-! ### One tree moves -/

namespace IsForest

/-- The bank of a forest is stocked. -/
lemma stocked (h : IsForest c n bank f) (hn : 0 < n) : Stocked bank where
  zero_inUse := (h.inUse_iff 0).mpr ⟨0, hn, by
    have hroot := (f 0).root_mem_indices
    rwa [h.root 0 hn] at hroot⟩
  eq_zero := h.unused

/-- The other trees stay in place. -/
lemma frame (h : IsForest c n bank f) (hi : i < n) (hm : Moves c bank bank' (f i) t') (hj : j < n)
    (hne : j ≠ i) {x : ℕ} (hx : x ∈ (f j).indices) : bank' x = bank x :=
  hm.frame_of_inUse ((h.inUse_iff x).mpr ⟨j, hj, hx⟩) fun hx' => h.disjoint j hj i hi hne hx hx'

/-- Moving one tree of a forest. -/
lemma update (h : IsForest c n bank f) (hi : i < n) (hm : Moves c bank bank' (f i) t')
    (hu : ∀ x ∈ t'.indices, (bank' x).inUse = true) :
    IsForest c n bank' (Function.update f i t') := by
  -- an element of the moved tree is in no other tree
  have hdis : ∀ j < n, j ≠ i → t'.indices.Disjoint (f j).indices := by
    intro j hj hne x hx hx'
    have hxi := hm.mem_of_inUse hx ((h.inUse_iff x).mpr ⟨j, hj, hx'⟩)
    exact h.disjoint j hj i hi hne hx' hxi
  have hmem : ∀ x, (∃ j < n, x ∈ (Function.update f i t' j).indices) ↔
      x ∈ t'.indices ∨ ∃ j < n, j ≠ i ∧ x ∈ (f j).indices := by
    intro x
    constructor
    · rintro ⟨j, hj, hx⟩
      by_cases hji : j = i
      · subst hji
        rw [Function.update_self] at hx
        exact Or.inl hx
      · rw [Function.update_of_ne hji] at hx
        exact Or.inr ⟨j, hj, hji, hx⟩
    · rintro (hx | ⟨j, hj, hji, hx⟩)
      · exact ⟨i, hi, by rwa [Function.update_self]⟩
      · exact ⟨j, hj, by rwa [Function.update_of_ne hji]⟩
  refine ⟨?_, ?_, ?_, ?_, ?_, ?_⟩
  · intro j hj
    by_cases hji : j = i
    · rw [hji, Function.update_self, hm.root, h.root i hi]
    · rw [Function.update_of_ne hji, h.root j hj]
  · intro j hj
    by_cases hji : j = i
    · rw [hji, Function.update_self]
      exact hm.nodup
    · rw [Function.update_of_ne hji]
      exact h.nodup j hj
  · intro j hj k hk hjk
    by_cases hji : j = i
    · rw [hji, Function.update_self, Function.update_of_ne (fun hki => hjk (hji.trans hki.symm))]
      exact hdis k hk fun hki => hjk (hji.trans hki.symm)
    · by_cases hki : k = i
      · rw [hki, Function.update_self, Function.update_of_ne hji]
        exact (hdis j hj hji).symm
      · rw [Function.update_of_ne hji, Function.update_of_ne hki]
        exact h.disjoint j hj k hk hjk
  · intro j hj x hx
    by_cases hji : j = i
    · rw [hji, Function.update_self] at hx
      rcases hm.fresh x hx with hx' | ⟨-, hlt⟩
      · exact h.lt i hi x hx'
      · exact hlt
    · rw [Function.update_of_ne hji] at hx
      exact h.lt j hj x hx
  · intro x
    rw [hmem]
    constructor
    · intro hx
      by_cases hx' : x ∈ t'.indices
      · exact Or.inl hx'
      · refine Or.inr ?_
        have hxi : x ∉ (f i).indices := fun hxi => by
          rw [hm.dropped x hxi hx'] at hx
          simp [HeapElement.zero] at hx
        rw [hm.frame x hxi hx'] at hx
        obtain ⟨j, hj, hxj⟩ := (h.inUse_iff x).mp hx
        exact ⟨j, hj, fun hji => hxi (hji ▸ hxj), hxj⟩
    · rintro (hx | ⟨j, hj, hji, hx⟩)
      · exact hu x hx
      · rw [h.frame hi hm hj hji hx]
        exact (h.inUse_iff x).mpr ⟨j, hj, hx⟩
  · intro x hx
    have hx' : x ∉ t'.indices := fun hx' => by simp [hu x hx'] at hx
    by_cases hxi : x ∈ (f i).indices
    · exact hm.dropped x hxi hx'
    · rw [hm.frame x hxi hx'] at hx ⊢
      exact h.unused x hx

/-- Facts about every tree that depend only on its own elements are kept when one tree moves. -/
lemma forall_update {S : Bank → Block → SplitTree Mark → List Block → Prop} {heaps : List Block}
    {live live' : ℕ → List Block}
    (hcongr : ∀ {bank bank' range t live}, S bank range t live →
      (∀ x ∈ t.indices, bank' x = bank x) → S bank' range t live)
    (h : IsForest c heaps.length bank f)
    (hsh : ∀ j r, heaps[j]? = some r → S bank r (f j) (live j)) (hi : heaps[i]? = some range)
    (hm : Moves c bank bank' (f i) t') (hsh' : S bank' range t' (live' i))
    (hlive : ∀ j ≠ i, live' j = live j) :
    ∀ j r, heaps[j]? = some r → S bank' r (Function.update f i t' j) (live' j) := by
  have hin : i < heaps.length := (List.getElem?_eq_some_iff.mp hi).1
  intro j r hj
  by_cases hji : j = i
  · subst hji
    rw [Function.update_self]
    obtain rfl : range = r := Option.some.inj (hi.symm.trans hj)
    exact hsh'
  · have hjn : j < heaps.length := (List.getElem?_eq_some_iff.mp hj).1
    rw [Function.update_of_ne hji, hlive j hji]
    exact hcongr (hsh j r hj) fun x hx => h.frame hin hm hjn hji hx

end IsForest

/-! ### The tree of one heap -/

/-- An element keeps its block. -/
def SameBlock (bank bank' : Bank) (i : ℕ) : Prop :=
  (bank' i).baseAddr = (bank i).baseAddr ∧ (bank' i).length = (bank i).length

namespace Shape

/-- Only the elements of the tree matter. -/
lemma congr (h : Shape bank range t live) (hb : ∀ x ∈ t.indices, bank' x = bank x) :
    Shape bank' range t live := by
  cases h with
  | window hw holds taken reserved => exact .window hw (holds.congr hb) taken reserved
  | @spent idx m ht hm hel hall hlive =>
    have hidx : bank' idx = bank idx := hb idx (by simp [ht])
    exact .spent ht hm (hidx ▸ hel) (by rw [hidx, hall]) hlive

/-- The order of the blocks that are handed out does not matter. -/
lemma perm {live' : List Block} (h : Shape bank range t live) (hp : live.Perm live') :
    Shape bank range t live' := by
  cases h with
  | window hw holds taken reserved => exact .window hw holds (taken.trans hp) reserved
  | spent ht hm hel hall hlive => exact .spent ht hm hel hall (by rwa [hlive, List.nil_perm] at hp)

/-- The vertices of the tree are in use. -/
lemma inUse (h : Shape bank range t live) {x : ℕ} (hx : x ∈ t.indices) : (bank x).inUse = true := by
  cases h with
  | window hw holds taken reserved => exact holds.inUse hx
  | spent ht hm hel hall hlive =>
    rw [ht] at hx
    rw [List.mem_singleton.mp hx]
    exact hel.inUse

/-- An address of a leaf that is not reserved lies in the range of the heap. -/
lemma mem_range {base k x : ℕ} {m : Mark} (hm : m ≠ .reserved) (hfits : t.Fits k)
    (reserved : ∀ x, coverCount (t.marked .reserved base k) x =
      if base ≤ x ∧ x < base + 2 ^ k ∧ ¬ (range.1 ≤ x ∧ x < range.1 + range.2) then 1 else 0)
    {b : Block} (hb : b ∈ t.marked m base k) (hx : b.Covers x) :
    range.1 ≤ x ∧ x < range.1 + range.2 := by
  by_contra hout
  have hin := SplitTree.subset_of_mem_marked hfits hb
  have hcov : 0 < coverCount (t.marked .reserved base k) x := by
    have h1 := hx.1
    have h2 := hx.2
    rw [reserved, if_pos ⟨by omega, by omega, hout⟩]
    exact Nat.one_pos
  obtain ⟨r, hr, hrx⟩ := List.countP_pos_iff.mp hcov
  exact SplitTree.disjoint_of_marks_ne hfits hm hb hr x ⟨hx, by simpa using hrx⟩

/-- A leaf block has a byte. -/
lemma pos_of_mem {base k : ℕ} {m : Mark} (hfits : t.Fits k) {b : Block}
    (hb : b ∈ t.marked m base k) : 0 < b.2 :=
  (SplitTree.isTiling_blocks hfits).pos b ((SplitTree.marked_sublist m t base k).subset hb)

/-- Two trees over the same window have the same block at the root. -/
lemma sameBlock_of_holds {base k : ℕ} (h : Holds bank t base k) (h' : Holds bank' t' base k)
    (hroot : t'.root = t.root) : SameBlock bank bank' t.root := by
  obtain ⟨_, _, hv⟩ := h.isVertex_root
  obtain ⟨_, _, hv'⟩ := h'.isVertex_root
  rw [hroot] at hv'
  exact ⟨hv'.baseAddr.trans hv.baseAddr.symm, hv'.length.trans hv.length.symm⟩

/-- `heap_alloc` on a heap that does not start at zero. -/
lemma heapAlloc (c : MmapConstants) (prot m : ℕ) (h : Shape bank range t live)
    (hnd : t.indices.Nodup) (hs : Stocked bank) (h0 : range.1 ≠ 0 ∨ range.2 = 0) :
    Heap.heapAlloc c (2 ^ m) prot (heapFuel c) bank t.root = .error .noElement ∨
      Heap.heapAlloc c (2 ^ m) prot (heapFuel c) bank t.root = .ok (0, bank) ∨
      ∃ a bank' t', Heap.heapAlloc c (2 ^ m) prot (heapFuel c) bank t.root = .ok (a, bank') ∧ a ≠ 0 ∧
        Moves c bank bank' t t' ∧ Shape bank' range t' ((a, 2 ^ m) :: live) ∧
        SameBlock bank bank' t.root := by
  cases h with
  | @window base k hw holds taken reserved =>
    have hfuel : k < heapFuel c := by
      have := hw.lt
      simp only [heapFuel]
      omega
    have hfree : ∀ b ∈ t.marked .free base k, b.1 ≠ 0 := by
      intro b hb hb0
      have hpos := pos_of_mem holds.fits hb
      have hmem := mem_range (x := 0) (by decide) holds.fits reserved hb ⟨by omega, by omega⟩
      omega
    have hout := heapAlloc_outcome c prot m hfuel holds hnd hs hw.bound hfree
    generalize Heap.heapAlloc c (2 ^ m) prot (heapFuel c) bank t.root = res at hout
    cases hout with
    | noElement => exact Or.inl rfl
    | notFound _ => exact Or.inr (Or.inl rfl)
    | found ha holds' moves count_eq taken' reserved' =>
      refine Or.inr (Or.inr ⟨_, _, _, rfl, ha, moves, .window hw holds' ?_ ?_,
        sameBlock_of_holds holds holds' moves.root⟩)
      · exact taken'.trans (taken.cons _)
      · rwa [reserved']
  | @spent idx mark ht hm hel hall hlive =>
    refine Or.inr (Or.inl ?_)
    rw [ht, SplitTree.root_leaf, heapFuel, Heap.heapAlloc]
    simp [hel.length]

/-- `heap_free` of an address in a block that is handed out. -/
lemma heapFree_live (c : MmapConstants) {b : Block} {addr : ℕ} (h : Shape bank range t live)
    (hnd : t.indices.Nodup) (hs : Stocked bank) (hb : b ∈ live) (ha : b.Covers addr) :
    ∃ bank' t' live', heapFree c (heapFuel c) bank t.root addr = .ok (1, bank') ∧
      Moves c bank bank' t t' ∧ live.Perm (b :: live') ∧ Shape bank' range t' live' ∧
      SameBlock bank bank' t.root := by
  cases h with
  | @window base k hw holds taken reserved =>
    have hfuel : k < heapFuel c := by
      have := hw.lt
      simp only [heapFuel]
      omega
    obtain ⟨bank', t', hres, hfr⟩ := heapFree_taken (c := c) hfuel holds hnd hs hw.aligned hw.bound
      (taken.mem_iff.mpr hb) ha
    refine ⟨bank', t', _, hres, hfr.moves, taken.symm.trans hfr.taken,
      .window hw hfr.holds (List.Perm.refl _) ?_, sameBlock_of_holds holds hfr.holds hfr.moves.root⟩
    rwa [hfr.reserved]
  | spent ht hm hel hall hlive =>
    rw [hlive] at hb
    exact absurd hb List.not_mem_nil

/-- `heap_free` of an address outside the root. -/
lemma heapFree_outside (c : MmapConstants) {addr : ℕ} (h : Shape bank range t live)
    (ha : ¬ Contains (bank t.root) addr) :
    heapFree c (heapFuel c) bank t.root addr = .ok (0, bank) := by
  cases h with
  | @window base k hw holds taken reserved =>
    have hfuel : k < heapFuel c := by
      have := hw.lt
      simp only [heapFuel]
      omega
    obtain ⟨_, _, hv⟩ := holds.isVertex_root
    exact Heap.heapFree_outside hfuel holds hw.bound fun hin => ha ((hv.contains_iff hw.bound).mpr hin)
  | @spent idx m ht hm hel hall hlive =>
    rw [ht, SplitTree.root_leaf] at ha ⊢
    rw [heapFuel, heapFree, if_pos hel.subElem0, if_neg ha]

/-- The allocated leaves of a tree: inside the range of the heap, aligned to their size and apart from
each other. -/
lemma taken_spec {base k : ℕ} (hw : IsWindow range.1 range.2 base k) (hfits : t.Fits k)
    (reserved : ∀ x, coverCount (t.marked .reserved base k) x =
      if base ≤ x ∧ x < base + 2 ^ k ∧ ¬ (range.1 ≤ x ∧ x < range.1 + range.2) then 1 else 0)
    (taken : live.Subperm (t.marked .taken base k)) :
    (∀ b ∈ live, range.1 ≤ b.1 ∧ b.1 + b.2 ≤ range.1 + range.2 ∧ 0 < b.2 ∧ b.2 ∣ b.1) ∧
      live.Pairwise Block.Disjoint := by
  constructor
  · intro b hb
    have hb' := taken.subset hb
    have hpos := pos_of_mem hfits hb'
    have hfirst := mem_range (x := b.1) (by decide) hfits reserved hb' ⟨le_rfl, by omega⟩
    have hlast := mem_range (x := b.1 + b.2 - 1) (by decide) hfits reserved hb' ⟨by omega, by omega⟩
    refine ⟨hfirst.1, by omega, hpos, ?_⟩
    exact SplitTree.aligned_of_mem_blocks hfits hw.aligned (SplitTree.mem_marked.mp hb')
  · have hsymm : Std.Symm Block.Disjoint := ⟨fun _ _ h x hx => h x hx.symm⟩
    obtain ⟨sub, hperm, hsub⟩ := taken
    exact hperm.pairwise ((SplitTree.pairwise_disjoint_marked hfits .taken).sublist hsub)
      fun h => hsymm.symm _ _ h

/-- The blocks that are handed out. -/
lemma live_spec (h : Shape bank range t live) :
    (∀ b ∈ live, range.1 ≤ b.1 ∧ b.1 + b.2 ≤ range.1 + range.2 ∧ 0 < b.2 ∧ b.2 ∣ b.1) ∧
      live.Pairwise Block.Disjoint := by
  cases h with
  | window hw holds taken reserved => exact taken_spec hw holds.fits reserved taken.symm.subperm
  | spent ht hm hel hall hlive => simp [hlive]

end Shape

/-! ### Setting up all heaps -/

/-- The roots that are claimed before the heaps are set up. -/
lemma isForest_claimRoots (h : n ≤ c.maxNumHeapElems) :
    IsForest c n (claimRoots n) fun i => .leaf i .free where
  root _ _ := rfl
  nodup i _ := List.nodup_singleton i
  disjoint i _ j _ hne := by simpa using hne.symm
  lt i hi x hx := by
    rw [List.mem_singleton.mp hx]
    omega
  inUse_iff x := by
    by_cases hx : x < n <;> simp [claimRoots, hx, HeapElement.zero]
  unused x hx := by
    by_cases hxn : x < n
    · simp [claimRoots, hxn] at hx
    · simp [claimRoots, hxn]

/-- A range that passes the alignment check. -/
lemma isRange_of_aligned (c : MmapConstants) {base size : ℕ} (hb : base < 2 ^ 32)
    (hle : base + size ≤ 2 ^ 32)
    (hal : ¬ (base &&& (2 ^ c.heapAlignLog - 1) ≠ 0 ∨ size &&& (2 ^ c.heapAlignLog - 1) ≠ 0)) :
    IsRange base size := by
  simp only [Nat.and_two_pow_sub_one_eq_mod, ne_eq, not_or, not_not] at hal
  have hfour : 4 ∣ 2 ^ c.heapAlignLog := pow_dvd_pow 2 c.heapAlignLog_ge
  exact ⟨hfour.trans (Nat.dvd_of_mod_eq_zero hal.1), hfour.trans (Nat.dvd_of_mod_eq_zero hal.2), hb, hle⟩

/-- The trees of the heaps of a list, with nothing handed out. -/
def Fresh (c : MmapConstants) (heaps : List Block) (bank : Bank) : Prop :=
  ∃ f, IsForest c heaps.length bank f ∧
    ∀ i range, heaps[i]? = some range → Shape bank range (f i) []

/-- The loop over the heaps, after those of `pre`. -/
lemma initHeaps_fresh {pre heaps : List Block} (hlt : ∀ h ∈ heaps, h.1 < 2 ^ 32 ∧ h.1 + h.2 ≤ 2 ^ 32)
    (hf : IsForest c (pre ++ heaps).length bank f)
    (hpre : ∀ i range, pre[i]? = some range → Shape bank range (f i) [])
    (hrest : ∀ i, pre.length ≤ i → i < (pre ++ heaps).length →
      f i = .leaf i .free ∧ bank i = leafElement 0 0) :
    initHeaps c pre.length heaps bank = .error .noElement ∨
      initHeaps c pre.length heaps bank = .ok none ∨
      ∃ bank', initHeaps c pre.length heaps bank = .ok (some bank') ∧ Fresh c (pre ++ heaps) bank' := by
  induction heaps generalizing pre bank f with
  | nil =>
    rw [List.append_nil] at hf ⊢
    exact Or.inr (Or.inr ⟨bank, rfl, f, hf, hpre⟩)
  | cons h heaps ih =>
    obtain ⟨base, size⟩ := h
    rw [initHeaps]
    split_ifs with hal
    · exact Or.inr (Or.inl rfl)
    · have hi : pre.length < (pre ++ (base, size) :: heaps).length := by simp
      obtain ⟨hfi, hbi⟩ := hrest pre.length le_rfl hi
      have hrange := isRange_of_aligned c (hlt _ List.mem_cons_self).1 (hlt _ List.mem_cons_self).2 hal
      -- the heap at this index moves from its claimed root to its tree
      have hnext : ∀ bank' t', Moves c bank bank' (f pre.length) t' →
          Shape bank' (base, size) t' [] →
          initHeaps c (pre.length + 1) heaps bank' = .error .noElement ∨
            initHeaps c (pre.length + 1) heaps bank' = .ok none ∨
            ∃ bank'', initHeaps c (pre.length + 1) heaps bank' = .ok (some bank'') ∧
              Fresh c (pre ++ (base, size) :: heaps) bank'' := by
        intro bank' t' hm hsh
        have hf' := hf.update hi hm fun x hx => hsh.inUse hx
        have hall : pre ++ (base, size) :: heaps = (pre ++ [(base, size)]) ++ heaps := by simp
        rw [hall] at hf' ⊢
        have hlen : pre.length + 1 = (pre ++ [(base, size)]).length := by simp
        rw [hlen]
        refine ih (fun h hh => hlt h (List.mem_cons_of_mem _ hh)) hf' ?_ ?_
        · intro i range hri
          by_cases hip : i = pre.length
          · subst hip
            rw [List.getElem?_append_right le_rfl] at hri
            simp only [Nat.sub_self, List.getElem?_cons_zero, Option.some.injEq] at hri
            rw [Function.update_self, ← hri]
            exact hsh
          · have hip' : i < pre.length := by
              have := (List.getElem?_eq_some_iff.mp hri).1
              simp only [List.length_append, List.length_singleton] at this
              omega
            rw [List.getElem?_append_left hip'] at hri
            rw [Function.update_of_ne hip]
            refine (hpre i range hri).congr fun x hx => ?_
            exact hf.frame hi hm (hip'.trans hi) hip hx
        · intro i hge hlti
          rw [← hlen] at hge
          rw [← hall] at hlti
          obtain ⟨hfi', hbi'⟩ := hrest i (by omega) hlti
          have hne : i ≠ pre.length := by omega
          rw [Function.update_of_ne hne]
          exact ⟨hfi', (hf.frame hi hm hlti hne (by simp [hfi'])).trans hbi'⟩
      have hout := heapInit_outcome c (hf.stocked (Nat.zero_lt_of_lt hi)) hbi hrange
      generalize heapInit c bank pre.length base size = res at hout
      cases hout with
      | noElement => exact Or.inl rfl
      | window hw holds moves taken reserved =>
        exact hnext _ _ (hfi ▸ moves) (.window hw holds (by rw [taken]) reserved)
      | spent hm hel hall moves =>
        exact hnext _ _ (hfi ▸ moves) (.spent rfl hm hel hall rfl)

/-- `keystone_mmap_resource_init` rejects a configuration, uses up the bank, or sets up the tree of
every heap. -/
theorem resourceInit_fresh (c : MmapConstants) (regs : List (ℕ × ℕ)) {heaps : List Block}
    (hlen : heaps.length ≤ c.maxNumHeapElems)
    (hlt : ∀ h ∈ heaps, h.1 < 2 ^ 32 ∧ h.1 + h.2 ≤ 2 ^ 32) :
    resourceInit c regs heaps = .error .noElement ∨ resourceInit c regs heaps = .ok none ∨
      ∃ bank, resourceInit c regs heaps = .ok (some ⟨pairRegs c regs, bank, heaps.length⟩) ∧
        Fresh c heaps bank := by
  unfold resourceInit
  split_ifs
  · exact Or.inr (Or.inl rfl)
  · have hroots : ∀ i, ([] : List Block).length ≤ i → i < ([] ++ heaps : List Block).length →
        (SplitTree.leaf i Mark.free) = .leaf i .free ∧ claimRoots heaps.length i = leafElement 0 0 := by
      intro i _ hi
      rw [List.nil_append] at hi
      exact ⟨rfl, by simp [claimRoots, hi, HeapElement.zero, leafElement]⟩
    have hforest : IsForest c ([] ++ heaps : List Block).length (claimRoots heaps.length)
        fun i => .leaf i .free := isForest_claimRoots hlen
    have hout := initHeaps_fresh hlt hforest (by simp) hroots
    rw [List.length_nil, List.nil_append] at hout
    rcases hout with he | he | ⟨bank, he, hfresh⟩
    · exact Or.inl (by rw [he]; rfl)
    · exact Or.inr (Or.inl (by rw [he]; rfl))
    · exact Or.inr (Or.inr ⟨bank, by rw [he]; rfl, hfresh⟩)

end Heap

end TiOpenCL
