import TiOpenCL.HeapManager.Runs

/-!
# Releases commute

The free list of a well tiled heap is determined by its allocated blocks: it is the only list of
non-adjacent blocks that completes them to a tiling of the range.  Whatever order the four merge
cases of `free` come in, the heaps at the end have the same allocated blocks, hence they are equal.
The same argument shows that releasing every block gives back the one free block of the
configuration, and that releasing the block `malloc` has just returned undoes the call.
-/

namespace TiOpenCL

namespace HeapManager

variable {w : ℕ}

/-! ### The canonical form of a heap -/

/-- The members that neither `malloc` nor `free` assigns. -/
def settings (h : HeapManager w) : ℕ × ℕ × ℕ × Bool × ℕ :=
  (h.startAddr, h.length, h.minBlockSize, h.addrsNeedPow2SizeAlignment, h.maxPow2SizeAlignment)

/-- `free` leaves the settings alone. -/
lemma free_settings (h : HeapManager w) (pastEnd : PastEnd) (addr : ℕ) :
    (h.free pastEnd addr).2.settings = h.settings := by
  unfold free
  cases h.allocList.find? addr <;> rfl

/-- A sequence of calls of `free` leaves the settings alone. -/
lemma freeEach_settings (frees : List (ℕ × PastEnd)) : ∀ h : HeapManager w,
    (h.freeEach frees).settings = h.settings := by
  induction frees with
  | nil => exact fun _ => rfl
  | cons f fs ih =>
    intro h
    have hrest := ih (h.free f.2 f.1).2
    rw [free_settings] at hrest
    exact hrest

/-- Well tiled heaps with the same settings and the same allocated blocks are equal. -/
lemma WellTiled.eq_of_allocList {h h' : HeapManager w} (ht : WellTiled h) (ht' : WellTiled h')
    (hset : h.settings = h'.settings) (halloc : h.allocList = h'.allocList) : h = h' := by
  obtain ⟨free, alloc, start, len, minBlock, avail, pow, maxPow⟩ := h
  obtain ⟨free', alloc', start', len', minBlock', avail', pow', maxPow'⟩ := h'
  simp only [settings, Prod.mk.injEq] at hset
  obtain ⟨rfl, rfl, rfl, rfl, rfl⟩ := hset
  obtain rfl : alloc = alloc' := halloc
  have hfree : free = free' := by
    refine OrderedMap.eq_of_mem_iff fun b => ⟨fun hb => ?_, fun hb => ?_⟩
    · exact ht.tiling.mem_of_coalesced ht'.tiling ht.notAdjacent ht'.notAdjacent hb
    · exact ht'.tiling.mem_of_coalesced ht.tiling ht'.notAdjacent ht.notAdjacent hb
  subst hfree
  have havail : avail = avail' := ht.available_eq.trans ht'.available_eq.symm
  subst havail
  rfl

/-! ### What a release leaves allocated -/

/-- `free` removes the block at its address and no other. -/
lemma mem_free_allocList {h : HeapManager w} {pastEnd : PastEnd} {addr : ℕ} {e : ℕ × AllocEntry} :
    e ∈ (h.free pastEnd addr).2.allocList.entries ↔ e ∈ h.allocList.entries ∧ e.1 ≠ addr := by
  unfold free
  cases hf : h.allocList.find? addr with
  | none =>
    refine ⟨fun he => ⟨he, fun heq => ?_⟩, fun he => he.1⟩
    exact OrderedMap.find?_eq_none_iff.mp hf e.2 (heq ▸ he)
  | some entry => exact OrderedMap.mem_erase

/-- A sequence of calls of `free` removes the blocks at its addresses and no other. -/
lemma mem_freeEach_allocList (frees : List (ℕ × PastEnd)) : ∀ {h : HeapManager w}
    {e : ℕ × AllocEntry}, e ∈ (h.freeEach frees).allocList.entries ↔
      e ∈ h.allocList.entries ∧ e.1 ∉ frees.map Prod.fst := by
  induction frees with
  | nil => simp [freeEach]
  | cons f fs ih =>
    intro h e
    have hrest : e ∈ (h.freeEach (f :: fs)).allocList.entries ↔
        e ∈ (h.free f.2 f.1).2.allocList.entries ∧ e.1 ∉ fs.map Prod.fst := ih
    rw [hrest, mem_free_allocList, List.map_cons, List.mem_cons, not_or, and_assoc]

/-! ### Order independence -/

/-- Releasing the same addresses in two orders gives the same heap. -/
lemma freeEach_eq_of_perm {h : HeapManager w} (ht : WellTiled h) (hp : PowBlock h)
    {fs gs : List (ℕ × PastEnd)} (hperm : (fs.map Prod.fst).Perm (gs.map Prod.fst))
    (hfs : h.FreesOk fs) (hgs : h.FreesOk gs) : h.freeEach fs = h.freeEach gs := by
  refine (wellTiled_freeEach ht hp hfs).1.eq_of_allocList (wellTiled_freeEach ht hp hgs).1 ?_ ?_
  · rw [freeEach_settings, freeEach_settings]
  · refine OrderedMap.eq_of_mem_iff fun e => ?_
    rw [mem_freeEach_allocList, mem_freeEach_allocList, hperm.mem_iff]

/-- A well tiled heap without allocated blocks is one free block over its range. -/
lemma freeList_of_allocList_nil {h : HeapManager w} (ht : WellTiled h) (hlen : 0 < h.length)
    (hnil : h.allocList.entries = []) : h.freeList.entries = [(h.startAddr, h.length)] := by
  have htiling := ht.tiling
  rw [blocks, hnil, List.map_nil] at htiling
  have hone : IsTiling ([(h.startAddr, h.length)] ++ []) h.startAddr (h.startAddr + h.length) := by
    rw [List.append_nil]
    exact IsTiling.singleton h.startAddr hlen
  have hsingle : Coalesced [(h.startAddr, h.length)] := by
    intro a ha b hb
    rw [List.mem_singleton.mp ha, List.mem_singleton.mp hb]
    simp only
    omega
  have hmem : ∀ b, b ∈ h.freeList.entries ↔ b ∈ [(h.startAddr, h.length)] := fun b =>
    ⟨fun hb => htiling.mem_of_coalesced hone ht.notAdjacent hsingle hb,
      fun hb => hone.mem_of_coalesced htiling hsingle ht.notAdjacent hb⟩
  refine List.perm_singleton.mp ?_
  exact (List.perm_ext_iff_of_nodup h.freeList.entries_nodup (List.nodup_singleton _)).mpr hmem

/-- Releasing every allocated block leaves the one free block of the configuration. -/
lemma freeEach_all {h : HeapManager w} (ht : WellTiled h) (hp : PowBlock h) (hlen : 0 < h.length)
    {fs : List (ℕ × PastEnd)} (hall : (fs.map Prod.fst).Perm (h.allocList.entries.map Prod.fst))
    (hok : h.FreesOk fs) : (h.freeEach fs).freeList.entries = [(h.startAddr, h.length)] ∧
      (h.freeEach fs).allocList.entries = [] ∧ (h.freeEach fs).available = h.length := by
  have hend := (wellTiled_freeEach ht hp hok).1
  have hset := freeEach_settings fs h
  simp only [settings, Prod.mk.injEq] at hset
  have hnil : (h.freeEach fs).allocList.entries = [] := by
    refine List.eq_nil_iff_forall_not_mem.mpr fun e he => ?_
    obtain ⟨hmem, hnot⟩ := (mem_freeEach_allocList fs).mp he
    exact hnot (hall.mem_iff.mpr (List.mem_map_of_mem hmem))
  have hfree := freeList_of_allocList_nil hend (by rw [hset.2.1]; exact hlen) hnil
  rw [hset.1, hset.2.1] at hfree
  refine ⟨hfree, hnil, ?_⟩
  rw [hend.available_eq, hfree]
  simp [totalSize]

/-! ### A request and its release -/

/-- The search of `malloc` finds a free block for the request. -/
def Serves (h : HeapManager w) (size : ℕ) : Prop :=
  (h.freeList.entries.findSome?
    (place w (h.alignment (h.roundSize size)) (h.roundSize size))).isSome

instance (h : HeapManager w) (size : ℕ) : Decidable (h.Serves size) :=
  inferInstanceAs (Decidable (Option.isSome _ = true))

/-- What `malloc` returns: the heap with a placement taken in one of its free blocks, or zero and
the heap as it was. -/
lemma malloc_cases {h h' : HeapManager w} {size pid addr : ℕ} {allowFail : Bool}
    (hm : h.malloc size pid allowFail = some (addr, h')) :
    h.Serves size ∧ (∃ kv ∈ h.freeList.entries, ∃ p,
      place w (h.alignment (h.roundSize size)) (h.roundSize size) kv = some p ∧
        addr = p.availAddr ∧ h' = h.occupy p (h.roundSize size) pid) ∨
      ¬ h.Serves size ∧ addr = 0 ∧ h' = h := by
  unfold malloc at hm
  simp only at hm
  split at hm
  · next p hp =>
    simp only [Option.some.injEq, Prod.mk.injEq] at hm
    obtain ⟨rfl, rfl⟩ := hm
    obtain ⟨kv, hkv, hplace⟩ := List.exists_of_findSome?_eq_some hp
    exact Or.inl ⟨by simp [Serves, hp], kv, hkv, p, hplace, rfl, rfl⟩
  · next hnone =>
    split at hm
    · simp only [Option.some.injEq, Prod.mk.injEq] at hm
      obtain ⟨rfl, rfl⟩ := hm
      exact Or.inr ⟨by simp [Serves, hnone], rfl, rfl⟩
    · simp at hm

/-- `malloc` leaves the settings alone. -/
lemma malloc_settings {h h' : HeapManager w} {size pid addr : ℕ} {allowFail : Bool}
    (hm : h.malloc size pid allowFail = some (addr, h')) : h'.settings = h.settings := by
  rcases malloc_cases hm with ⟨-, kv, hkv, p, hplace, rfl, rfl⟩ | ⟨-, -, rfl⟩
  · rfl
  · rfl

/-- Releasing the block of a request that was served gives back the heap of before. -/
lemma free_malloc {h h' : HeapManager w} (ht : WellTiled h) (hp : PowBlock h)
    {size pid addr : ℕ} {allowFail : Bool} (hok : h.MallocOk size)
    (hm : h.malloc size pid allowFail = some (addr, h'))
    (hserved : h.Serves size ∨ h.allocList.find? 0 = none) {pastEnd : PastEnd}
    (hfree : h'.FreeOk pastEnd addr) : (h'.free pastEnd addr).2 = h := by
  have ht' : WellTiled h' := wellTiled_malloc ht hp hok hm
  refine (wellTiled_free ht' hfree).eq_of_allocList ht ?_ ?_
  · rw [free_settings, malloc_settings hm]
  · refine OrderedMap.eq_of_mem_iff fun e => ?_
    rw [mem_free_allocList]
    rcases malloc_cases hm with ⟨-, kv, hkv, p, hplace, rfl, rfl⟩ | ⟨hnot, rfl, rfl⟩
    · have hnew := place_not_alloc ht hkv hplace (hok.roundSize_pos ht hp hkv)
      have hinsert : e ∈ (h.occupy p (h.roundSize size) pid).allocList.entries ↔
          e = (p.availAddr, ⟨h.roundSize size, pid⟩) ∨
            e ∈ h.allocList.entries ∧ e.1 ≠ p.availAddr := OrderedMap.mem_insert
      rw [hinsert]
      constructor
      · rintro ⟨rfl | hmem, hne⟩
        · exact absurd rfl hne
        · exact hmem.1
      · intro hmem
        have hne : e.1 ≠ p.availAddr := fun heq => hnew e.2 (heq ▸ hmem)
        exact ⟨Or.inr ⟨hmem, hne⟩, hne⟩
    · -- the request failed: nothing is allocated at the address zero it returned
      have hzero := OrderedMap.find?_eq_none_iff.mp (hserved.resolve_left hnot)
      exact ⟨fun hmem => hmem.1, fun hmem => ⟨hmem, fun heq => hzero e.2 (heq ▸ hmem)⟩⟩

/-! ### Whole runs -/

/-- The states of a heap from which the order of releases does not matter. -/
structure OrderIndependent (h : HeapManager w) : Prop where
  /-- Releasing the same addresses in two orders gives the same heap. -/
  confluent : ∀ fs gs : List (ℕ × PastEnd), (fs.map Prod.fst).Perm (gs.map Prod.fst) →
    h.FreesOk fs → h.FreesOk gs → h.freeEach fs = h.freeEach gs
  /-- The order in which `free_all_pid` walks its set does not matter. -/
  freeAllPid : ∀ (pid : ℕ) (fs gs : List (ℕ × PastEnd)) (h₁ h₂ : HeapManager w),
    h.OpOk (.freeAllPid pid fs) → h.OpOk (.freeAllPid pid gs) →
      h.step (.freeAllPid pid fs) = some h₁ → h.step (.freeAllPid pid gs) = some h₂ → h₁ = h₂
  /-- Releasing every allocated block leaves one free block. -/
  drained : ∀ fs : List (ℕ × PastEnd), 0 < h.length →
    (fs.map Prod.fst).Perm (h.allocList.entries.map Prod.fst) → h.FreesOk fs →
      (h.freeEach fs).freeList.entries = [(h.startAddr, h.length)] ∧
        (h.freeEach fs).allocList.entries = [] ∧ (h.freeEach fs).available = h.length
  /-- Releasing the result of a request undoes the request. -/
  restored : ∀ (size pid : ℕ) (allowFail : Bool) (addr : ℕ) (h' : HeapManager w)
    (pastEnd : PastEnd), 0 < size → h.MallocOk size →
      (h.Serves size ∨ h.allocList.find? 0 = none) →
      h.malloc size pid allowFail = some (addr, h') → h'.FreeOk pastEnd addr →
        (h'.free pastEnd addr).2 = h

/-- Releases from a well tiled heap do not depend on their order. -/
lemma WellTiled.orderIndependent {h : HeapManager w} (ht : WellTiled h) (hp : PowBlock h) :
    OrderIndependent h where
  confluent fs gs hperm hfs hgs := freeEach_eq_of_perm ht hp hperm hfs hgs
  freeAllPid pid fs gs h₁ h₂ hfs hgs hs₁ hs₂ := by
    simp only [step, Option.ite_none_right_eq_some, Option.some.injEq] at hs₁ hs₂
    obtain ⟨hperm₁, rfl⟩ := hs₁
    obtain ⟨hperm₂, rfl⟩ := hs₂
    exact freeEach_eq_of_perm ht hp (hperm₁.trans hperm₂.symm) hfs hgs
  drained fs hlen hall hok := freeEach_all ht hp hlen hall hok
  restored size pid allowFail addr h' pastEnd _ hok hserved hm hfree :=
    free_malloc ht hp hok hm hserved hfree

/-- In every state reached from a configured heap by calls that meet their conditions, the order of
releases does not matter, releasing everything gives back the configured free block, and a request
is undone by the release of its result. -/
theorem orderIndependent_of_run (cfg : Config w) (hfits : cfg.startAddr + cfg.length ≤ 2 ^ w)
    (ops : List Op) (hok : cfg.heap.RunOk ops) (h : HeapManager w)
    (hrun : cfg.heap.run ops = some h) : OrderIndependent h := by
  obtain ⟨ht, hp⟩ := wellTiled_run (wellTiled_config cfg hfits) (powBlock_config cfg) hok hrun
  exact ht.orderIndependent hp

/-- Three allocations of two processes. -/
def threeBlocks : List Op :=
  [.malloc 100 7 true, .malloc 300 8 true, .malloc 1 7 true]

/-- After three allocations, both orders of releasing the blocks of the first process give the same
heap. -/
theorem orderIndependent_threeBlocks : ∃ h : HeapManager 64, smallConfig.heap.run threeBlocks = some h ∧
    h.freeEach [(0x80000000, ⟨0, 0⟩), (0x80000200, ⟨0, 0⟩)] =
      h.freeEach [(0x80000200, ⟨0, 0⟩), (0x80000000, ⟨0, 0⟩)] := by
  obtain ⟨h, hrun⟩ : ∃ h, smallConfig.heap.run threeBlocks = some h :=
    Option.isSome_iff_exists.mp (by decide)
  have hok : smallConfig.heap.RunOk threeBlocks := by decide
  have hind := orderIndependent_of_run smallConfig (by decide) threeBlocks hok h hrun
  have hval : h = (smallConfig.heap.run threeBlocks).get (by decide) := by simp [hrun]
  refine ⟨h, hrun, hind.confluent _ _ (List.Perm.swap _ _ _) ?_ ?_⟩
  · rw [hval]
    decide
  · rw [hval]
    decide

/-- With a free block above the address, `free` reads nothing past the end of the free list. -/
lemma free_pastEnd {h : HeapManager w} {addr : ℕ} (habove : (h.freeList.lowerBound addr) ≠ [])
    (pastEnd pastEnd' : PastEnd) : h.free pastEnd addr = h.free pastEnd' addr := by
  obtain ⟨a, l, ha⟩ := List.exists_cons_of_ne_nil habove
  have hafter : afterBlock h.freeList addr = some a := by rw [afterBlock, ha, List.head?_cons]
  obtain ⟨q, hprior⟩ : ∃ q, priorBlock h.freeList addr = some q := by
    unfold priorBlock
    split
    · exact ⟨a, hafter⟩
    · next hne => exact ⟨_, List.getLast?_eq_some_getLast hne⟩
  unfold free
  cases h.allocList.find? addr with
  | none => rfl
  | some e => simp only [mergeBlock, hafter, hprior, readBlock, Option.getD_some]

/-- After a request of size zero the release of the only allocated block takes the free block out
of the free list, whatever is read past its end. -/
theorem not_drained_malloc_zero : ∃ h : HeapManager 64,
    smallConfig.heap.run [.malloc 0 7 true] = some h ∧
      h.allocList.entries.map Prod.fst = [0x80000000] ∧
      ∀ pastEnd, (h.freeEach [(0x80000000, pastEnd)]).freeList.entries = [] := by
  obtain ⟨h, hm⟩ : ∃ h, smallConfig.heap.run [.malloc 0 7 true] = some h := ⟨_, rfl⟩
  obtain rfl := Option.some.inj hm
  refine ⟨_, rfl, by decide, fun pastEnd => ?_⟩
  simp only [freeEach, List.foldl_cons, List.foldl_nil]
  rw [free_pastEnd (by decide) pastEnd ⟨0, 0⟩]
  decide

end HeapManager

end TiOpenCL
