import TiOpenCL.HeapManager.Invariant

/-!
# Runs of the heap manager

Sequences of `malloc`, `free` and `free_all_pid` calls on a configured heap.  As long as every
request has a non-zero rounded size and no read past the end of the free list looks like a
neighbour (`RunOk`), every state of the run has the heap invariant, so no two live allocations
share an address or a byte.  A request of size zero is enough to lose it.
-/

namespace TiOpenCL

namespace HeapManager

variable {w : ℕ}

/-- The heap invariant: the free and the allocated blocks are non-empty, pairwise disjoint, inside
the range and cover it, no two free blocks are adjacent, the byte count is the sum of the free
sizes, and two allocations have different addresses and no byte in common. -/
structure HeapInvariant (h : HeapManager w) : Prop where
  nonempty : ∀ b ∈ h.blocks, 0 < b.2
  disjoint : h.blocks.Pairwise Block.Disjoint
  inside : ∀ b ∈ h.blocks, h.startAddr ≤ b.1 ∧ b.1 + b.2 ≤ h.startAddr + h.length
  covered : ∀ x, h.startAddr ≤ x → x < h.startAddr + h.length → ∃ b ∈ h.blocks, b.Covers x
  notAdjacent : ∀ a ∈ h.freeList.entries, ∀ b ∈ h.freeList.entries, a.1 + a.2 ≠ b.1
  available_eq : h.available = totalSize h.freeList.entries
  live : h.allocList.entries.Pairwise fun a b =>
    a.1 ≠ b.1 ∧ Block.Disjoint (a.1, a.2.length) (b.1, b.2.length)

/-- A well tiled heap has the heap invariant. -/
lemma WellTiled.heapInvariant {h : HeapManager w} (ht : WellTiled h) : HeapInvariant h where
  nonempty := ht.tiling.pos
  disjoint := ht.tiling.pairwise_disjoint
  inside _ hb := ht.tiling.subset hb
  covered _ hlo hhi := ht.tiling.exists_covers hlo hhi
  notAdjacent := ht.notAdjacent
  available_eq := ht.available_eq
  live := by
    have hdis := (List.pairwise_append.mp ht.tiling.pairwise_disjoint).2.1
    rw [List.pairwise_map] at hdis
    exact (List.pairwise_map.mp h.allocList.keys_nodup).and hdis

/-- The calls of `free` in a list meet `FreeOk`, each in the state it finds. -/
def FreesOk : HeapManager w → List (ℕ × PastEnd) → Prop
  | _, [] => True
  | h, f :: fs => h.FreeOk f.2 f.1 ∧ FreesOk (h.free f.2 f.1).2 fs

instance decidableFreesOk : (h : HeapManager w) → (fs : List (ℕ × PastEnd)) → Decidable (FreesOk h fs)
  | _, [] => isTrue trivial
  | h, f :: fs =>
    have := decidableFreesOk (h.free f.2 f.1).2 fs
    inferInstanceAs (Decidable (h.FreeOk f.2 f.1 ∧ FreesOk (h.free f.2 f.1).2 fs))

/-- The condition on a call: the request of a `malloc` and the reads of a `free`. -/
def OpOk (h : HeapManager w) : Op → Prop
  | .malloc size _ _ => h.MallocOk size
  | .free addr pastEnd => h.FreeOk pastEnd addr
  | .freeAllPid _ frees => h.FreesOk frees

instance (h : HeapManager w) (op : Op) : Decidable (h.OpOk op) := by
  cases op <;> unfold OpOk <;> infer_instance

/-- Every call of a sequence meets its condition in the state it finds. -/
def RunOk : HeapManager w → List Op → Prop
  | _, [] => True
  | h, op :: ops => h.OpOk op ∧ ∀ h' ∈ h.step op, RunOk h' ops

instance decidableRunOk : (h : HeapManager w) → (ops : List Op) → Decidable (RunOk h ops)
  | _, [] => isTrue trivial
  | h, op :: ops =>
    have := fun h' : HeapManager w => decidableRunOk h' ops
    inferInstanceAs (Decidable (h.OpOk op ∧ ∀ h' ∈ h.step op, RunOk h' ops))

/-! ### One call -/

/-- `free` changes neither the range nor the block size. -/
lemma free_config (h : HeapManager w) (pastEnd : PastEnd) (addr : ℕ) :
    (h.free pastEnd addr).2.length = h.length ∧
      (h.free pastEnd addr).2.minBlockSize = h.minBlockSize := by
  unfold free
  cases h.allocList.find? addr <;> simp

/-- `malloc` changes neither the range nor the block size. -/
lemma malloc_config {h h' : HeapManager w} {size pid addr : ℕ} {allowFail : Bool}
    (hm : h.malloc size pid allowFail = some (addr, h')) :
    h'.length = h.length ∧ h'.minBlockSize = h.minBlockSize := by
  unfold malloc at hm
  simp only at hm
  split at hm
  · simp only [Option.some.injEq, Prod.mk.injEq] at hm
    obtain ⟨-, rfl⟩ := hm
    exact ⟨rfl, rfl⟩
  · split at hm
    · simp only [Option.some.injEq, Prod.mk.injEq] at hm
      obtain ⟨-, rfl⟩ := hm
      exact ⟨rfl, rfl⟩
    · simp at hm

/-- A sequence of calls of `free` keeps the heap well tiled. -/
lemma wellTiled_freeEach {frees : List (ℕ × PastEnd)} : ∀ {h : HeapManager w}, WellTiled h →
    PowBlock h → h.FreesOk frees → WellTiled (h.freeEach frees) ∧ PowBlock (h.freeEach frees) := by
  induction frees with
  | nil => exact fun ht hp _ => ⟨ht, hp⟩
  | cons f fs ih =>
    intro h ht hp hok
    have hcfg := h.free_config f.2 f.1
    exact ih (wellTiled_free ht hok.1) (by rw [PowBlock, hcfg.1, hcfg.2]; exact hp) hok.2

/-- Every call that meets its condition keeps the heap well tiled. -/
lemma wellTiled_step {h h' : HeapManager w} {op : Op} (ht : WellTiled h) (hp : PowBlock h)
    (hok : h.OpOk op) (hs : h.step op = some h') : WellTiled h' ∧ PowBlock h' := by
  cases op with
  | malloc size pid allowFail =>
    obtain ⟨⟨addr, h₁⟩, hm, rfl⟩ := Option.map_eq_some_iff.mp hs
    have hcfg := malloc_config hm
    exact ⟨wellTiled_malloc ht hp hok hm, by rw [PowBlock, hcfg.1, hcfg.2]; exact hp⟩
  | free addr pastEnd =>
    obtain rfl := Option.some.inj hs
    have hcfg := h.free_config pastEnd addr
    exact ⟨wellTiled_free ht hok, by rw [PowBlock, hcfg.1, hcfg.2]; exact hp⟩
  | freeAllPid pid frees =>
    simp only [step, Option.ite_none_right_eq_some, Option.some.injEq] at hs
    obtain ⟨-, rfl⟩ := hs
    exact wellTiled_freeEach ht hp hok

/-! ### Whole runs -/

/-- The extra alignment requirement leaves the block size a power of two. -/
lemma powBlock_setAdditionalAlignmentRequirements {h : HeapManager w} (hp : PowBlock h)
    (maxAlign : ℕ) : PowBlock (h.setAdditionalAlignmentRequirements maxAlign) := by
  unfold setAdditionalAlignmentRequirements
  split
  · exact hp
  · exact hp

/-- A configured heap has a block size that is a power of two, unless it has no range. -/
lemma powBlock_config (cfg : Config w) : PowBlock cfg.heap := by
  have hconf : PowBlock ((constructed : HeapManager w).configure cfg.startAddr cfg.length
      (2 ^ cfg.blockLog)) := by
    unfold configure
    split
    · exact Or.inr ⟨cfg.blockLog, cfg.blockLog_lt, rfl⟩
    · exact Or.inl rfl
  unfold Config.heap
  cases cfg.maxAlignLog with
  | none => exact hconf
  | some k => exact powBlock_setAdditionalAlignmentRequirements hconf _

/-- A run from a well tiled heap whose calls meet their conditions ends in a well tiled heap. -/
lemma wellTiled_run {ops : List Op} : ∀ {h h' : HeapManager w}, WellTiled h → PowBlock h →
    h.RunOk ops → h.run ops = some h' → WellTiled h' ∧ PowBlock h' := by
  induction ops with
  | nil =>
    intro h h' ht hp _ hrun
    obtain rfl := Option.some.inj hrun
    exact ⟨ht, hp⟩
  | cons op ops ih =>
    intro h h' ht hp hok hrun
    simp only [run, List.foldlM_cons, Option.bind_eq_bind, Option.bind_eq_some_iff] at hrun
    obtain ⟨h₁, hs, hrest⟩ := hrun
    obtain ⟨ht₁, hp₁⟩ := wellTiled_step ht hp hok.1 hs
    exact ih ht₁ hp₁ (hok.2 h₁ hs) hrest

/-- For every configuration whose range ends inside the address type and every sequence of calls
that meet their conditions, the heap invariant holds in the state reached. -/
theorem heapInvariant_of_run (cfg : Config w) (hfits : cfg.startAddr + cfg.length ≤ 2 ^ w)
    (ops : List Op) (hok : cfg.heap.RunOk ops) (h : HeapManager w)
    (hrun : cfg.heap.run ops = some h) : HeapInvariant h :=
  (wellTiled_run (wellTiled_config cfg hfits) (powBlock_config cfg) hok hrun).1.heapInvariant

/-- A heap of 64 KiB at `0x80000000` with blocks of 128 bytes. -/
def smallConfig : Config 64 where
  startAddr := 0x80000000
  length := 0x10000
  blockLog := 7
  maxAlignLog := none
  startAddr_lt := by decide
  length_lt := by decide
  blockLog_lt := by decide
  maxAlignLog_lt := by simp

/-- Two allocations, the release of the first and of all blocks of a process. -/
def sampleOps : List Op :=
  [.malloc 100 7 true, .malloc 300 8 true, .free 0x80000000 ⟨0, 0⟩,
    .freeAllPid 8 [(0x80000080, ⟨0, 0⟩)]]

/-- The sample run meets its conditions and ends in a state with the invariant. -/
theorem heapInvariant_sampleOps : ∃ h, smallConfig.heap.RunOk sampleOps ∧
    smallConfig.heap.run sampleOps = some h ∧ HeapInvariant h := by
  obtain ⟨h, hrun⟩ : ∃ h, smallConfig.heap.run sampleOps = some h :=
    Option.isSome_iff_exists.mp (by decide)
  have hok : smallConfig.heap.RunOk sampleOps := by decide
  exact ⟨h, hok, hrun, heapInvariant_of_run smallConfig (by decide) sampleOps hok h hrun⟩

/-- A request of size zero enters an empty allocated block at the address of a free block, and the
next request is given the same address. -/
theorem not_heapInvariant_malloc_zero : ∃ h h' : HeapManager 64,
    smallConfig.heap.malloc 0 7 true = some (0x80000000, h) ∧ ¬ HeapInvariant h ∧
      h.malloc 8 8 true = some (0x80000000, h') := by
  obtain ⟨h, hm⟩ : ∃ h, smallConfig.heap.malloc 0 7 true = some (0x80000000, h) := ⟨_, rfl⟩
  obtain rfl := (Prod.mk.inj (Option.some.inj hm)).2
  refine ⟨_, _, rfl, fun hinv => ?_, rfl⟩
  have hpos := hinv.nonempty (0x80000000, 0) (by decide)
  exact absurd hpos (by decide)

end HeapManager

end TiOpenCL
