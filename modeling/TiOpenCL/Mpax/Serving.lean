import TiOpenCL.Mpax.HeapRuns
import TiOpenCL.Mpax.ZeroHeap

/-!
# Address space for a list of buffers

`keystone_mmap_resource_alloc` asks the heaps in turn for one block a buffer.  Without a `heap_free`
in between even a heap at address zero gives blocks that are disjoint, aligned to their sizes and
inside its range, although its counts are off (`Serves`).
-/

namespace TiOpenCL

namespace Heap

variable {c : MmapConstants} {bank bank' : Bank} {t t' : SplitTree Mark} {range : Block}
  {live : List Block} {heaps : List Block} {handed : List Handed}

/-- The tree of a heap from which only allocations were made. -/
inductive Serves (bank : Bank) (range : Block) (t : SplitTree Mark) (live : List Block) : Prop
  | shape (h : Shape bank range t live)
  | zero {k : ℕ} (hw : IsWindow range.1 range.2 0 k) (holds : HoldsZero bank t k)
    (taken : live.Subperm (t.marked .taken 0 k))
    (reserved : ∀ x, coverCount (t.marked .reserved 0 k) x =
      if 0 ≤ x ∧ x < 0 + 2 ^ k ∧ ¬ (range.1 ≤ x ∧ x < range.1 + range.2) then 1 else 0)

namespace Serves

/-- Only the elements of the tree matter. -/
lemma congr (h : Serves bank range t live) (hb : ∀ x ∈ t.indices, bank' x = bank x) :
    Serves bank' range t live := by
  cases h with
  | shape h => exact .shape (h.congr hb)
  | zero hw holds taken reserved => exact .zero hw (holds.congr hb) taken reserved

/-- The vertices of the tree are in use. -/
lemma inUse (h : Serves bank range t live) {x : ℕ} (hx : x ∈ t.indices) : (bank x).inUse = true := by
  cases h with
  | shape h => exact h.inUse hx
  | zero hw holds taken reserved => exact holds.inUse hx

/-- The blocks that are handed out. -/
lemma live_spec (h : Serves bank range t live) :
    (∀ b ∈ live, range.1 ≤ b.1 ∧ b.1 + b.2 ≤ range.1 + range.2 ∧ 0 < b.2 ∧ b.2 ∣ b.1) ∧
      live.Pairwise Block.Disjoint := by
  cases h with
  | shape h => exact h.live_spec
  | zero hw holds taken reserved => exact Shape.taken_spec hw holds.fits reserved taken

/-- `heap_alloc` on the tree of a heap at zero. -/
lemma heapAlloc_zero {k : ℕ} (c : MmapConstants) (prot m : ℕ) (hw : IsWindow range.1 range.2 0 k)
    (holds : HoldsZero bank t k) (taken : live.Subperm (t.marked .taken 0 k))
    (reserved : ∀ x, coverCount (t.marked .reserved 0 k) x =
      if 0 ≤ x ∧ x < 0 + 2 ^ k ∧ ¬ (range.1 ≤ x ∧ x < range.1 + range.2) then 1 else 0)
    (hnd : t.indices.Nodup) (hs : Stocked bank) (h0 : 0 ∈ t.indices → t.root = 0) :
    Heap.heapAlloc c (2 ^ m) prot (heapFuel c) bank t.root = .error .noElement ∨
      (∃ bank' t', Heap.heapAlloc c (2 ^ m) prot (heapFuel c) bank t.root = .ok (0, bank') ∧
        Moves c bank bank' t t' ∧ Serves bank' range t' live) ∨
      ∃ a bank' t', Heap.heapAlloc c (2 ^ m) prot (heapFuel c) bank t.root = .ok (a, bank') ∧ a ≠ 0 ∧
        Moves c bank bank' t t' ∧ Serves bank' range t' ((a, 2 ^ m) :: live) := by
  have hfuel : k < heapFuel c := by
    have := hw.lt
    simp only [heapFuel]
    omega
  have hbound : 2 ^ k ≤ 2 ^ 32 := by
    have := hw.bound
    omega
  have hout := Heap.heapAlloc_zero c prot m hfuel holds hnd hs hbound h0
  generalize Heap.heapAlloc c (2 ^ m) prot (heapFuel c) bank t.root = res at hout
  cases hout with
  | noElement => exact Or.inl rfl
  | zero holds' moves taken' reserved' =>
    refine Or.inr (Or.inl ⟨_, _, rfl, moves, .zero hw holds' (taken.trans taken') ?_⟩)
    rwa [reserved']
  | found ha holds' moves taken' reserved' =>
    refine Or.inr (Or.inr ⟨_, _, _, rfl, ha, moves, .zero hw holds' ?_ ?_⟩)
    · exact ((List.subperm_cons _).mpr taken).trans taken'
    · rwa [reserved']

/-- `heap_alloc` on any heap. -/
lemma heapAlloc (c : MmapConstants) (prot m : ℕ) (h : Serves bank range t live)
    (hnd : t.indices.Nodup) (hs : Stocked bank) (h0 : 0 ∈ t.indices → t.root = 0) :
    Heap.heapAlloc c (2 ^ m) prot (heapFuel c) bank t.root = .error .noElement ∨
      (∃ bank' t', Heap.heapAlloc c (2 ^ m) prot (heapFuel c) bank t.root = .ok (0, bank') ∧
        Moves c bank bank' t t' ∧ Serves bank' range t' live) ∨
      ∃ a bank' t', Heap.heapAlloc c (2 ^ m) prot (heapFuel c) bank t.root = .ok (a, bank') ∧ a ≠ 0 ∧
        Moves c bank bank' t t' ∧ Serves bank' range t' ((a, 2 ^ m) :: live) := by
  cases h with
  | zero hw holds taken reserved => exact heapAlloc_zero c prot m hw holds taken reserved hnd hs h0
  | shape h =>
    have hself : Moves c bank bank t t :=
      ⟨rfl, hnd, fun _ => Or.inl, fun _ _ _ => rfl, fun _ hj hj' => absurd hj hj'⟩
    by_cases hr : range.1 ≠ 0 ∨ range.2 = 0
    · rcases h.heapAlloc c prot m hnd hs hr with he | he | ⟨a, bank', t', he, ha, hm, hsh, -⟩
      · exact Or.inl he
      · exact Or.inr (Or.inl ⟨bank, t, he, hself, .shape h⟩)
      · exact Or.inr (Or.inr ⟨a, bank', t', he, ha, hm, .shape hsh⟩)
    · -- the heap starts at zero, so its window does, or it has none
      cases h with
      | @window base k hw holds taken reserved =>
        have hbase : base = 0 := by
          have := hw.lower.1
          omega
        subst hbase
        exact heapAlloc_zero c prot m hw holds.holdsZero taken.symm.subperm reserved hnd hs h0
      | @spent idx mark ht hm hel hall hlive =>
        refine Or.inr (Or.inl ⟨bank, t, ?_, hself, .shape (.spent ht hm hel hall hlive)⟩)
        rw [ht, SplitTree.root_leaf, heapFuel, Heap.heapAlloc]
        simp [hel.length]

end Serves

/-! ### All heaps -/

/-- The trees of the heaps after some allocations. -/
structure Served (c : MmapConstants) (heaps : List Block) (bank : Bank) (handed : List Handed) :
    Prop where
  trees : ∃ f, IsForest c heaps.length bank f ∧
    ∀ i range, heaps[i]? = some range → Serves bank range (f i) (HeapState.liveIn ⟨bank, handed⟩ i)
  heap_lt : ∀ a ∈ handed, a.heap < heaps.length

/-- The heaps right after the setup. -/
lemma Fresh.served (h : Fresh c heaps bank) : Served c heaps bank [] := by
  obtain ⟨f, hf, hsh⟩ := h
  exact ⟨⟨f, hf, fun i range hi => .shape (hsh i range hi)⟩, by simp⟩

namespace Served

/-- The blocks of all heaps: inside the ranges, aligned to their sizes and apart from each other. -/
lemma spec (h : Served c heaps bank handed) (hdis : heaps.Pairwise Block.Disjoint) :
    (∀ a ∈ handed, ∃ range ∈ heaps, range.1 ≤ a.addr ∧ a.addr + a.size ≤ range.1 + range.2 ∧
      0 < a.size ∧ a.size ∣ a.addr) ∧
      handed.Pairwise fun a b => Block.Disjoint a.block b.block := by
  obtain ⟨f, hf, hsh⟩ := h.trees
  have hspec : ∀ a ∈ handed, ∃ range, heaps[a.heap]? = some range ∧ range.1 ≤ a.addr ∧
      a.addr + a.size ≤ range.1 + range.2 ∧ 0 < a.size ∧ a.size ∣ a.addr := by
    intro a ha
    have hlt := h.heap_lt a ha
    have hrange : heaps[a.heap]? = some heaps[a.heap] := List.getElem?_eq_getElem hlt
    exact ⟨_, hrange, (hsh _ _ hrange).live_spec.1 a.block (mem_liveIn.mpr ⟨a, ha, rfl, rfl⟩)⟩
  constructor
  · intro a ha
    obtain ⟨range, hr, h1⟩ := hspec a ha
    exact ⟨range, List.mem_of_getElem? hr, h1⟩
  · refine pairwise_live hdis (fun a ha => ?_) fun i hi => ?_
    · obtain ⟨range, hr, h1, h2, -⟩ := hspec a ha
      exact ⟨range, hr, h1, h2⟩
    · exact (hsh i _ (List.getElem?_eq_getElem hi)).live_spec.2

/-- `heap_alloc` on one of the heaps. -/
lemma heapAlloc {i : ℕ} (prot m : ℕ) (h : Served c heaps bank handed) (hi : i < heaps.length) :
    Heap.heapAlloc c (2 ^ m) prot (heapFuel c) bank i = .error .noElement ∨
      (∃ bank', Heap.heapAlloc c (2 ^ m) prot (heapFuel c) bank i = .ok (0, bank') ∧
        Served c heaps bank' handed) ∨
      ∃ a bank', Heap.heapAlloc c (2 ^ m) prot (heapFuel c) bank i = .ok (a, bank') ∧ a ≠ 0 ∧
        Served c heaps bank' (⟨i, a, 2 ^ m⟩ :: handed) := by
  obtain ⟨f, hf, hsh⟩ := h.trees
  have hrange : heaps[i]? = some heaps[i] := List.getElem?_eq_getElem hi
  have hroot := hf.root i hi
  have h0 : 0 ∈ (f i).indices → (f i).root = 0 := by
    intro hmem
    by_contra hne
    rw [hroot] at hne
    have h00 : 0 ∈ (f 0).indices := by
      have := (f 0).root_mem_indices
      rwa [hf.root 0 (Nat.zero_lt_of_lt hi)] at this
    exact hf.disjoint i hi 0 (Nat.zero_lt_of_lt hi) hne hmem h00
  have hout := (hsh i _ hrange).heapAlloc c prot m (hf.nodup i hi)
    (hf.stocked (Nat.zero_lt_of_lt hi)) h0
  rw [hroot] at hout
  rcases hout with he | ⟨bank', t', he, hm, hsv⟩ | ⟨a, bank', t', he, ha, hm, hsv⟩
  · exact Or.inl he
  · refine Or.inr (Or.inl ⟨bank', he, ⟨Function.update f i t', hf.update hi hm fun x hx => hsv.inUse hx,
      ?_⟩, h.heap_lt⟩)
    exact hf.forall_update Serves.congr hsh hrange hm hsv fun j _ => rfl
  · refine Or.inr (Or.inr ⟨a, bank', he, ha, ⟨Function.update f i t',
      hf.update hi hm fun x hx => hsv.inUse hx, ?_⟩, ?_⟩)
    · refine hf.forall_update Serves.congr hsh hrange hm ?_ fun j hj => ?_
      · simpa [HeapState.liveIn, Handed.block] using hsv
      · simp [HeapState.liveIn, hj.symm]
    · intro b hb
      rcases List.mem_cons.mp hb with rfl | hb
      · exact hi
      · exact h.heap_lt b hb

/-- The heaps in turn. -/
lemma allocInHeaps {n i : ℕ} (prot m : ℕ) (h : Served c heaps bank handed)
    (hn : i + n = heaps.length) :
    Heap.allocInHeaps c (2 ^ m) prot n i bank = .error .noElement ∨
      (∃ bank', Heap.allocInHeaps c (2 ^ m) prot n i bank = .ok (none, bank') ∧
        Served c heaps bank' handed) ∨
      ∃ a idx bank', Heap.allocInHeaps c (2 ^ m) prot n i bank = .ok (some (a, idx), bank') ∧
        Served c heaps bank' (⟨idx, a, 2 ^ m⟩ :: handed) := by
  induction n generalizing i bank with
  | zero => exact Or.inr (Or.inl ⟨bank, rfl, h⟩)
  | succ n ih =>
    rw [Heap.allocInHeaps]
    rcases h.heapAlloc prot m (show i < heaps.length by omega) with
      he | ⟨bank', he, h'⟩ | ⟨a, bank', he, ha, h'⟩
    · exact Or.inl (by rw [he]; rfl)
    · have hnext := ih h' (show i + 1 + n = heaps.length by omega)
      rw [he]
      simpa [bind, Except.bind] using hnext
    · refine Or.inr (Or.inr ⟨a, i, bank', ?_, h'⟩)
      rw [he]
      simp [bind, Except.bind, ha]

end Served

end Heap

end TiOpenCL
