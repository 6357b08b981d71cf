import TiOpenCL.Mpax.HeapForest

/-!
# Runs of the address space heaps

Sequences of `heap_alloc` and `heap_free` calls on the heaps that `keystone_mmap_resource_init` sets
up.  As long as nothing is allocated from a heap that starts at address zero, and every address is
freed in the heap that handed it out or tried in one whose root does not contain it (`RunOk`), the
elements in use are the vertices of the heap trees in every state of the run and the blocks handed
out are apart from each other and from the reserved excess.  `heap_alloc` tells failure by address
zero, so one allocation from a heap at zero is enough to lose the counts.
-/

namespace TiOpenCL

namespace Heap

/-- A block that is handed out, with the heap it belongs to. -/
structure Handed where
  heap : ℕ
  addr : ℕ
  size : ℕ
  deriving DecidableEq

/-- The block of addresses that is handed out. -/
def Handed.block (a : Handed) : Block := (a.addr, a.size)

/-- The bank and the blocks that were returned by `heap_alloc` and not freed. -/
structure HeapState where
  bank : Bank
  live : List Handed

/-- The blocks of one heap that are handed out. -/
def HeapState.liveIn (s : HeapState) (i : ℕ) : List Block :=
  (s.live.filter fun a => a.heap = i).map Handed.block

/-- A call on one of the heaps. -/
inductive Op
  /-- `heap_alloc` of a power of two. -/
  | alloc (heap log prot : ℕ)
  /-- `heap_free`. -/
  | free (heap addr : ℕ)

/-- The heaps of a configuration: one root element for each, and disjoint ranges below `2 ^ 32`.
That the ranges are aligned is checked by `keystone_mmap_resource_init`. -/
structure HeapConfig (c : MmapConstants) where
  heaps : List Block
  length_le : heaps.length ≤ c.maxNumHeapElems
  lt : ∀ h ∈ heaps, h.1 < 2 ^ 32 ∧ h.1 + h.2 ≤ 2 ^ 32
  disjoint : heaps.Pairwise Block.Disjoint

variable (c : MmapConstants)

/-- One call. -/
def step (s : HeapState) : Op → Except HeapError HeapState
  | .alloc heap log prot => do
    let (addr, bank) ← heapAlloc c (2 ^ log) prot (heapFuel c) s.bank heap
    .ok ⟨bank, if addr ≠ 0 then ⟨heap, addr, 2 ^ log⟩ :: s.live else s.live⟩
  | .free heap addr => do
    let (ret, bank) ← heapFree c (heapFuel c) s.bank heap addr
    .ok ⟨bank, if 0 < ret then s.live.eraseP fun a => a.heap = heap ∧ a.addr = addr else s.live⟩

/-- A sequence of calls. -/
def runOps : HeapState → List Op → Except HeapError HeapState
  | s, [] => .ok s
  | s, op :: ops => (step c s op).bind fun s => runOps s ops

/-- A sequence of calls after `keystone_mmap_resource_init`; `none` if the configuration is
rejected. -/
def run (regs heaps : List (ℕ × ℕ)) (ops : List Op) : Except HeapError (Option HeapState) :=
  (resourceInit c regs heaps).bind fun
    | none => .ok none
    | some r => (runOps c ⟨r.heap, []⟩ ops).map some

/-- The condition on a call: the size of an allocation is a 32-bit word and its heap does not start
at zero unless it is empty; an address is freed in the heap that handed it out, or tried in a heap
whose root does not contain it. -/
def OpOk (heaps : List Block) (s : HeapState) : Op → Prop
  | .alloc heap log _ => log < 32 ∧ ∃ range, heaps[heap]? = some range ∧ (range.1 ≠ 0 ∨ range.2 = 0)
  | .free heap addr => heap < heaps.length ∧
      ((∃ a ∈ s.live, a.heap = heap ∧ a.addr = addr) ∨ ¬ Contains (s.bank heap) addr)

/-- Every call of a sequence meets its condition in the state it finds. -/
def RunOk (heaps : List Block) : HeapState → List Op → Prop
  | _, [] => True
  | s, op :: ops => OpOk heaps s op ∧ ∀ s', step c s op = .ok s' → RunOk heaps s' ops

/-- Every call after `keystone_mmap_resource_init` meets its condition. -/
def AcceptedOk (regs heaps : List (ℕ × ℕ)) (ops : List Op) : Prop :=
  ∀ r, resourceInit c regs heaps = .ok (some r) → RunOk c heaps ⟨r.heap, []⟩ ops

instance (heaps : List Block) (s : HeapState) (op : Op) : Decidable (OpOk heaps s op) :=
  match op with
  | .alloc heap log _ =>
    have : Decidable (∃ range, heaps[heap]? = some range ∧ (range.1 ≠ 0 ∨ range.2 = 0)) :=
      match h : heaps[heap]? with
      | some range => decidable_of_iff (range.1 ≠ 0 ∨ range.2 = 0) (by simp)
      | none => isFalse (by simp)
    inferInstanceAs (Decidable (_ ∧ _))
  | .free _ _ => inferInstanceAs (Decidable (_ ∧ _))

instance decidableRunOk (heaps : List Block) : (s : HeapState) → (ops : List Op) →
    Decidable (RunOk c heaps s ops)
  | _, [] => isTrue trivial
  | s, op :: ops =>
    have : Decidable (∀ s', step c s op = .ok s' → RunOk c heaps s' ops) :=
      match step c s op with
      | .ok s' =>
        have := decidableRunOk heaps s' ops
        decidable_of_iff (RunOk c heaps s' ops) (by simp)
      | .error _ => isTrue (by simp)
    inferInstanceAs (Decidable (_ ∧ _))

instance (regs heaps : List (ℕ × ℕ)) (ops : List Op) : Decidable (AcceptedOk c regs heaps ops) :=
  match h : resourceInit c regs heaps with
  | .ok (some r) => decidable_of_iff (RunOk c heaps ⟨r.heap, []⟩ ops) (by simp [AcceptedOk, h])
  | .ok none => isTrue (by simp [AcceptedOk, h])
  | .error _ => isTrue (by simp [AcceptedOk, h])

/-- The buddy tree invariant: the elements in use are exactly the vertices of the heap trees, every
tree has the shape of its heap, and the blocks handed out are disjoint, aligned to their sizes and
inside the ranges of their heaps. -/
structure BuddyInvariant (heaps : List Block) (s : HeapState) : Prop where
  trees : ∃ f, IsForest c heaps.length s.bank f ∧
    ∀ i range, heaps[i]? = some range → Shape s.bank range (f i) (s.liveIn i)
  inside : ∀ a ∈ s.live, ∃ range, heaps[a.heap]? = some range ∧ range.1 ≤ a.addr ∧
    a.addr + a.size ≤ range.1 + range.2
  aligned : ∀ a ∈ s.live, 0 < a.size ∧ a.size ∣ a.addr
  disjoint : s.live.Pairwise fun a b => Block.Disjoint a.block b.block

variable {c} {heaps : List Block} {s s' : HeapState} {i : ℕ}

/-! ### One call -/

/-- The trees of the heaps with the blocks that are handed out. -/
structure Standing (c : MmapConstants) (heaps : List Block) (s : HeapState) : Prop where
  trees : ∃ f, IsForest c heaps.length s.bank f ∧
    ∀ i range, heaps[i]? = some range → Shape s.bank range (f i) (s.liveIn i)
  heap_lt : ∀ a ∈ s.live, a.heap < heaps.length

lemma mem_liveIn {b : Block} : b ∈ s.liveIn i ↔ ∃ a ∈ s.live, a.heap = i ∧ a.block = b := by
  simp [HeapState.liveIn, and_assoc]

/-- A call on one heap that moves its tree keeps the trees standing. -/
lemma Standing.move {bank' : Bank} {live' : List Handed} {f : ℕ → SplitTree Mark} {t' : SplitTree Mark}
    {range : Block} (hf : IsForest c heaps.length s.bank f)
    (hsh : ∀ i range, heaps[i]? = some range → Shape s.bank range (f i) (s.liveIn i))
    (hi : heaps[i]? = some range) (hm : Moves c s.bank bank' (f i) t')
    (hsh' : Shape bank' range t' (HeapState.liveIn ⟨bank', live'⟩ i))
    (hlive : ∀ j ≠ i, HeapState.liveIn ⟨bank', live'⟩ j = s.liveIn j)
    (hlt : ∀ a ∈ live', a.heap < heaps.length) : Standing c heaps ⟨bank', live'⟩ := by
  have hin : i < heaps.length := (List.getElem?_eq_some_iff.mp hi).1
  exact ⟨⟨Function.update f i t', hf.update hin hm fun x hx => hsh'.inUse hx,
    hf.forall_update Shape.congr hsh hi hm hsh' hlive⟩, hlt⟩

/-- A call that moves the tree of one heap keeps the blocks of the roots. -/
lemma sameBlock_of_moves {bank bank' : Bank} {f : ℕ → SplitTree Mark} {t' : SplitTree Mark}
    (hf : IsForest c heaps.length bank f) (hi : i < heaps.length) (hm : Moves c bank bank' (f i) t')
    (hroot : SameBlock bank bank' (f i).root) : ∀ j < heaps.length, SameBlock bank bank' j := by
  intro j hj
  by_cases hji : j = i
  · rw [hf.root i hi] at hroot
    rwa [hji]
  · have hmem : j ∈ (f j).indices := by
      have := (f j).root_mem_indices
      rwa [hf.root j hj] at this
    have hsame := hf.frame hi hm hj hji hmem
    rw [SameBlock, hsame]
    exact ⟨rfl, rfl⟩

/-- `heap_alloc` on one of the heaps. -/
lemma Standing.heapAlloc (log prot : ℕ) (h : Standing c heaps s) {range : Block}
    (hi : heaps[i]? = some range) (h0 : range.1 ≠ 0 ∨ range.2 = 0) :
    Heap.heapAlloc c (2 ^ log) prot (heapFuel c) s.bank i = .error .noElement ∨
      Heap.heapAlloc c (2 ^ log) prot (heapFuel c) s.bank i = .ok (0, s.bank) ∨
      ∃ a bank', Heap.heapAlloc c (2 ^ log) prot (heapFuel c) s.bank i = .ok (a, bank') ∧ a ≠ 0 ∧
        Standing c heaps ⟨bank', ⟨i, a, 2 ^ log⟩ :: s.live⟩ ∧
        ∀ j < heaps.length, SameBlock s.bank bank' j := by
  obtain ⟨f, hf, hsh⟩ := h.trees
  have hin : i < heaps.length := (List.getElem?_eq_some_iff.mp hi).1
  have hout := (hsh i range hi).heapAlloc c prot log (hf.nodup i hin)
    (hf.stocked (Nat.zero_lt_of_lt hin)) h0
  have hroot := hf.root i hin
  rcases hout with he | he | ⟨a, bank', t', he, ha, hm, hsh', hsame⟩
  · rw [hroot] at he
    exact Or.inl he
  · rw [hroot] at he
    exact Or.inr (Or.inl he)
  · refine Or.inr (Or.inr ⟨a, bank', by rwa [hroot] at he, ha, ?_, sameBlock_of_moves hf hin hm hsame⟩)
    refine Standing.move hf hsh hi hm ?_ ?_ ?_
    · simpa [HeapState.liveIn, Handed.block] using hsh'
    · intro j hj
      simp [HeapState.liveIn, hj.symm]
    · intro b hb
      rcases List.mem_cons.mp hb with rfl | hb
      · exact hin
      · exact h.heap_lt b hb

/-- `heap_alloc` keeps the trees standing. -/
lemma Standing.alloc {log prot : ℕ} (h : Standing c heaps s) {range : Block}
    (hi : heaps[i]? = some range) (h0 : range.1 ≠ 0 ∨ range.2 = 0) :
    step c s (.alloc i log prot) = .error .noElement ∨
      ∃ s', step c s (.alloc i log prot) = .ok s' ∧ Standing c heaps s' := by
  rcases h.heapAlloc log prot hi h0 with he | he | ⟨a, bank', he, ha, hst, -⟩
  · exact Or.inl (by simp [step, he, bind, Except.bind])
  · exact Or.inr ⟨s, by simp [step, he, bind, Except.bind], h⟩
  · exact Or.inr ⟨⟨bank', ⟨i, a, 2 ^ log⟩ :: s.live⟩, by simp [step, he, ha, bind, Except.bind], hst⟩

/-- Taking a block of heap `i` off the list. -/
lemma liveIn_remove (bank' : Bank) {a : Handed} {l₁ l₂ : List Handed} (hl : s.live = l₁ ++ a :: l₂) :
    (s.liveIn a.heap).Perm (a.block :: HeapState.liveIn ⟨bank', l₁ ++ l₂⟩ a.heap) ∧
      ∀ j ≠ a.heap, HeapState.liveIn ⟨bank', l₁ ++ l₂⟩ j = s.liveIn j := by
  constructor
  · simp only [HeapState.liveIn, hl, List.filter_append, List.filter_cons, decide_true, if_true,
      List.map_append, List.map_cons]
    exact List.perm_middle
  · intro j hj
    simp [HeapState.liveIn, hl, hj.symm]

/-- `heap_free` of an address in a block that is handed out. -/
lemma Standing.heapFree (addr : ℕ) {a : Handed} {l₁ l₂ : List Handed} (h : Standing c heaps s)
    (hl : s.live = l₁ ++ a :: l₂) (haddr : a.block.Covers addr) :
    ∃ bank', Heap.heapFree c (heapFuel c) s.bank a.heap addr = .ok (1, bank') ∧
      Standing c heaps ⟨bank', l₁ ++ l₂⟩ ∧ ∀ j < heaps.length, SameBlock s.bank bank' j := by
  obtain ⟨f, hf, hsh⟩ := h.trees
  have hi := h.heap_lt a (by simp [hl])
  have hrange : heaps[a.heap]? = some heaps[a.heap] := List.getElem?_eq_getElem hi
  have hmem : a.block ∈ s.liveIn a.heap := mem_liveIn.mpr ⟨a, by simp [hl], rfl, rfl⟩
  obtain ⟨bank', t', live', he, hm, hperm, hsh', hsame⟩ := (hsh _ _ hrange).heapFree_live c
    (hf.nodup _ hi) (hf.stocked (Nat.zero_lt_of_lt hi)) hmem haddr
  have hblocks := sameBlock_of_moves hf hi hm hsame
  rw [hf.root _ hi] at he
  obtain ⟨hrem, hother⟩ := liveIn_remove bank' hl
  refine ⟨bank', he, Standing.move hf hsh hrange hm ?_ hother ?_, hblocks⟩
  · exact hsh'.perm (hperm.symm.trans hrem).cons_inv
  · intro b hb
    refine h.heap_lt b ?_
    rw [hl]
    rcases List.mem_append.mp hb with hb | hb
    · exact List.mem_append_left _ hb
    · exact List.mem_append_right _ (List.mem_cons_of_mem _ hb)

/-- `heap_free` of an address outside the root. -/
lemma Standing.heapFree_outside {addr : ℕ} (h : Standing c heaps s) (hi : i < heaps.length)
    (hout : ¬ Contains (s.bank i) addr) :
    Heap.heapFree c (heapFuel c) s.bank i addr = .ok (0, s.bank) := by
  obtain ⟨f, hf, hsh⟩ := h.trees
  have he := (hsh _ _ (List.getElem?_eq_getElem hi)).heapFree_outside c (by rwa [hf.root i hi])
  rwa [hf.root i hi] at he

/-- The blocks that are handed out have a byte. -/
lemma Standing.size_pos {a : Handed} (h : Standing c heaps s) (ha : a ∈ s.live) : 0 < a.size := by
  obtain ⟨f, hf, hsh⟩ := h.trees
  have hlt := h.heap_lt a ha
  have hrange : heaps[a.heap]? = some heaps[a.heap] := List.getElem?_eq_getElem hlt
  exact ((hsh _ _ hrange).live_spec.1 _ (mem_liveIn.mpr ⟨a, ha, rfl, rfl⟩)).2.2.1

/-- `heap_free` keeps the trees standing. -/
lemma Standing.free {addr : ℕ} (h : Standing c heaps s) (hi : i < heaps.length)
    (hok : (∃ a ∈ s.live, a.heap = i ∧ a.addr = addr) ∨ ¬ Contains (s.bank i) addr) :
    ∃ s', step c s (.free i addr) = .ok s' ∧ Standing c heaps s' := by
  rcases hok with ⟨a, ha, hp⟩ | hout
  · -- the first block with this address is the one that is freed
    obtain ⟨a, l₁, l₂, -, hp, hl, herase⟩ := List.exists_of_eraseP
      (p := fun a : Handed => decide (a.heap = i ∧ a.addr = addr)) ha (decide_eq_true hp)
    simp only [decide_eq_true_eq] at hp
    obtain ⟨rfl, rfl⟩ := hp
    have hpos := h.size_pos (a := a) (by simp [hl])
    obtain ⟨bank', he, hst, -⟩ := h.heapFree a.addr hl
      ⟨le_rfl, Nat.lt_add_of_pos_right hpos⟩
    exact ⟨⟨bank', l₁ ++ l₂⟩, by simp [step, he, ← herase, bind, Except.bind], hst⟩
  · have he := h.heapFree_outside hi hout
    exact ⟨s, by simp [step, he, bind, Except.bind], h⟩

/-- A call that meets its condition keeps the trees standing. -/
lemma Standing.step {op : Op} (h : Standing c heaps s) (hok : OpOk heaps s op) :
    Heap.step c s op = .error .noElement ∨
      ∃ s', Heap.step c s op = .ok s' ∧ Standing c heaps s' := by
  cases op with
  | alloc heap log prot =>
    obtain ⟨-, range, hi, h0⟩ := hok
    exact h.alloc hi h0
  | free heap addr => exact Or.inr (h.free hok.1 hok.2)

/-! ### Runs -/

/-- A run whose calls meet their conditions keeps the trees standing. -/
lemma Standing.runOps {ops : List Op} (h : Standing c heaps s) (hok : RunOk c heaps s ops) :
    Heap.runOps c s ops = .error .noElement ∨
      ∃ s', Heap.runOps c s ops = .ok s' ∧ Standing c heaps s' := by
  induction ops generalizing s with
  | nil => exact Or.inr ⟨s, rfl, h⟩
  | cons op ops ih =>
    rw [Heap.runOps]
    rcases h.step hok.1 with he | ⟨s₁, he, h₁⟩
    · exact Or.inl (by rw [he]; rfl)
    · rw [he]
      exact ih h₁ (hok.2 s₁ he)

/-- The trees right after the setup. -/
lemma Fresh.standing {bank : Bank} (h : Fresh c heaps bank) : Standing c heaps ⟨bank, []⟩ := by
  obtain ⟨f, hf, hsh⟩ := h
  exact ⟨⟨f, hf, hsh⟩, by simp⟩

/-- Blocks of two heaps with disjoint ranges. -/
lemma disjoint_of_inside {a b p q : Block} (hpq : p.Disjoint q)
    (ha : p.1 ≤ a.1 ∧ a.1 + a.2 ≤ p.1 + p.2) (hb : q.1 ≤ b.1 ∧ b.1 + b.2 ≤ q.1 + q.2) :
    a.Disjoint b := by
  rintro x ⟨hxa, hxb⟩
  refine hpq x ⟨⟨?_, ?_⟩, ?_, ?_⟩
  · exact ha.1.trans hxa.1
  · exact hxa.2.trans_le ha.2
  · exact hb.1.trans hxb.1
  · exact hxb.2.trans_le hb.2

/-- Blocks that are disjoint heap by heap are disjoint if the ranges of the heaps are. -/
lemma pairwise_live {live : List Handed} (hdis : heaps.Pairwise Block.Disjoint)
    (hin : ∀ a ∈ live, ∃ range, heaps[a.heap]? = some range ∧ range.1 ≤ a.addr ∧
      a.addr + a.size ≤ range.1 + range.2)
    (hheap : ∀ i < heaps.length, ((live.filter fun a => a.heap = i).map Handed.block).Pairwise
      Block.Disjoint) :
    live.Pairwise fun a b => Block.Disjoint a.block b.block := by
  refine List.pairwise_iff_forall_sublist.mpr fun {a b} hab => ?_
  obtain ⟨p, hp, hpa⟩ := hin a (hab.subset (by simp))
  obtain ⟨q, hq, hqb⟩ := hin b (hab.subset (by simp))
  obtain ⟨hai, hpe⟩ := List.getElem?_eq_some_iff.mp hp
  obtain ⟨hbi, hqe⟩ := List.getElem?_eq_some_iff.mp hq
  by_cases hne : a.heap = b.heap
  · have hsub : [a, b].Sublist (live.filter fun x => x.heap = b.heap) := by
      have := hab.filter fun x => decide (x.heap = b.heap)
      simpa [hne] using this
    have hpw := (hheap b.heap hbi).sublist (hsub.map Handed.block)
    simpa using hpw
  · have hsymm : Std.Symm Block.Disjoint := ⟨fun _ _ h x hx => h x hx.symm⟩
    have hpq : p.Disjoint q := by
      rw [← hpe, ← hqe]
      rcases Nat.lt_or_gt_of_ne hne with hlt | hlt
      · exact List.pairwise_iff_getElem.mp hdis _ _ hai hbi hlt
      · exact hsymm.symm _ _ (List.pairwise_iff_getElem.mp hdis _ _ hbi hai hlt)
    exact disjoint_of_inside hpq hpa hqb

/-- Standing trees over disjoint ranges have the buddy tree invariant. -/
lemma Standing.buddyInvariant (h : Standing c heaps s) (hdis : heaps.Pairwise Block.Disjoint) :
    BuddyInvariant c heaps s := by
  obtain ⟨f, hf, hsh⟩ := h.trees
  have hspec : ∀ a ∈ s.live, ∃ range, heaps[a.heap]? = some range ∧ range.1 ≤ a.addr ∧
      a.addr + a.size ≤ range.1 + range.2 ∧ 0 < a.size ∧ a.size ∣ a.addr := by
    intro a ha
    have hlt := h.heap_lt a ha
    have hrange : heaps[a.heap]? = some heaps[a.heap] := List.getElem?_eq_getElem hlt
    exact ⟨_, hrange, (hsh _ _ hrange).live_spec.1 a.block (mem_liveIn.mpr ⟨a, ha, rfl, rfl⟩)⟩
  have hin : ∀ a ∈ s.live, ∃ range, heaps[a.heap]? = some range ∧ range.1 ≤ a.addr ∧
      a.addr + a.size ≤ range.1 + range.2 := fun a ha =>
    let ⟨range, hr, h1, h2, _⟩ := hspec a ha
    ⟨range, hr, h1, h2⟩
  refine ⟨h.trees, hin, fun a ha => ?_, pairwise_live hdis hin fun i hi => ?_⟩
  · obtain ⟨_, _, _, _, h3⟩ := hspec a ha
    exact h3
  · exact (hsh i _ (List.getElem?_eq_getElem hi)).live_spec.2

/-- In every run whose calls meet their conditions the bank is used up, the configuration is
rejected, or the buddy tree invariant holds in the state that is reached. -/
theorem buddyInvariant_of_runOk (c : MmapConstants) (cfg : HeapConfig c) (regs : List (ℕ × ℕ))
    (ops : List Op) (hok : AcceptedOk c regs cfg.heaps ops) :
    run c regs cfg.heaps ops = .error .noElement ∨ run c regs cfg.heaps ops = .ok none ∨
      ∃ s, run c regs cfg.heaps ops = .ok (some s) ∧ BuddyInvariant c cfg.heaps s := by
  unfold run
  rcases resourceInit_fresh c regs cfg.length_le cfg.lt with he | he | ⟨bank, he, hfresh⟩
  · exact Or.inl (by rw [he]; rfl)
  · exact Or.inr (Or.inl (by rw [he]; rfl))
  · rw [he]
    rcases hfresh.standing.runOps (hok _ he) with he' | ⟨s, he', hs⟩
    · exact Or.inl (by simp [Except.bind, Except.map, he'])
    · exact Or.inr (Or.inr ⟨s, by simp [Except.bind, Except.map, he'], hs.buddyInvariant cfg.disjoint⟩)

/-! ### A run that keeps the invariant, and one that loses it -/

/-- A bank of 64 elements and heaps that are aligned to 16 MB. -/
def exampleConstants : MmapConstants := ⟨64, 10, 24, 8, 0, by decide, by decide⟩

/-- The heaps of the device. -/
def deviceHeaps : HeapConfig exampleConstants :=
  ⟨[(0xC0000000, 0x40000000), (0x80000000, 0x18000000)], by decide, by decide, by
    rw [List.pairwise_pair]
    rintro x ⟨⟨h1, -⟩, -, h2⟩
    simp only at h1 h2
    omega⟩

/-- Blocks of both heaps of the device, one of them freed again, tried in the other heap first. -/
def deviceOps : List Op :=
  [.alloc 1 24 0, .alloc 0 24 8, .alloc 1 12 8, .free 0 0x80000000, .free 1 0x80000000, .alloc 1 25 0]

/-- The run on the heaps of the device. -/
theorem buddyInvariant_deviceHeaps :
    ∃ s, run exampleConstants [] deviceHeaps.heaps deviceOps = .ok (some s) ∧
      BuddyInvariant exampleConstants deviceHeaps.heaps s := by
  have hok : AcceptedOk exampleConstants [] deviceHeaps.heaps deviceOps := by decide +kernel
  have hrun : (run exampleConstants [] deviceHeaps.heaps deviceOps).map (Option.map HeapState.live) =
      .ok (some [⟨1, 0x82000000, 2 ^ 25⟩, ⟨1, 0x81000000, 2 ^ 12⟩, ⟨0, 0xC0000000, 2 ^ 24⟩]) := by
    decide +kernel
  rcases buddyInvariant_of_runOk exampleConstants deviceHeaps [] deviceOps hok with he | he | h
  · rw [he] at hrun
    cases hrun
  · rw [he] at hrun
    cases hrun
  · exact h

/-- A heap of 32 MB at address zero. -/
def zeroHeap : HeapConfig exampleConstants :=
  ⟨[(0, 0x2000000)], by decide, by decide, List.pairwise_singleton _ _⟩

/-- The count of the root of a heap that is cut is the sum of the counts of its halves. -/
lemma Shape.allocated_root {bank : Bank} {range : Block} {t : SplitTree Mark} {live : List Block}
    (h : Shape bank range t live) (hsub : (bank t.root).subElem0 ≠ 0) :
    (bank t.root).allocated = (bank (bank t.root).subElem0).allocated +
      (bank (bank t.root).subElem1).allocated := by
  cases h with
  | @window base k hw holds taken reserved =>
    cases t with
    | leaf idx m => exact absurd (IsVertex.subElem0 holds) hsub
    | node idx l r =>
      cases k with
      | zero => exact holds.elim
      | succ k =>
        obtain ⟨hv, -, -, hl, hr⟩ := holds
        obtain ⟨_, _, hvl⟩ := hl.isVertex_root
        obtain ⟨_, _, hvr⟩ := hr.isVertex_root
        rw [SplitTree.root_node, hv.subElem0, hv.subElem1, hv.allocated, hvl.allocated, hvr.allocated]
        push_cast
        rfl
  | spent ht hm hel hall hlive =>
    rw [ht] at hsub
    exact absurd hel.subElem0 hsub

/-- The first allocation of 16 MB from a heap at zero takes both halves of the heap and counts one. -/
theorem not_buddyInvariant_zeroHeap :
    ∃ s, run exampleConstants [] zeroHeap.heaps [.alloc 0 24 0] = .ok (some s) ∧
      ¬ BuddyInvariant exampleConstants zeroHeap.heaps s := by
  have hrun : (run exampleConstants [] zeroHeap.heaps [.alloc 0 24 0]).map
      (Option.map fun s => (s.bank 0, s.bank 1, s.bank 2)) =
      .ok (some (⟨0, 0x2000000, 1, 0, true, 1, 2⟩, ⟨0, 0x1000000, 1, 0, true, 0, 0⟩,
        ⟨0x1000000, 0x1000000, 1, 0, true, 0, 0⟩)) := by
    decide
  generalize run exampleConstants [] zeroHeap.heaps [.alloc 0 24 0] = res at hrun
  obtain ⟨s, rfl, hs⟩ : ∃ s, res = .ok (some s) ∧ (s.bank 0, s.bank 1, s.bank 2) =
      (⟨0, 0x2000000, 1, 0, true, 1, 2⟩, ⟨0, 0x1000000, 1, 0, true, 0, 0⟩,
        ⟨0x1000000, 0x1000000, 1, 0, true, 0, 0⟩) := by
    match res, hrun with
    | .ok (some s), hrun => exact ⟨s, rfl, Option.some.inj (Except.ok.inj hrun)⟩
  simp only [Prod.mk.injEq] at hs
  obtain ⟨h0, h1, h2⟩ := hs
  refine ⟨s, rfl, fun h => ?_⟩
  obtain ⟨f, hf, hsh⟩ := h.trees
  have hcount := (hsh 0 (0, 0x2000000) rfl).allocated_root
  rw [hf.root 0 (by decide), h0] at hcount
  simp [h1, h2] at hcount

end Heap

end TiOpenCL
