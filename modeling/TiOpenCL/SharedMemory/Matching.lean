import TiOpenCL.SharedMemory.Provider

/-!
# Addresses go back to the heap they came from

The heaps have disjoint ranges, so the heap whose range contains an address is the one that handed
it out.  This holds along every run in which the sizes are not zero (and do not round to zero), no
read past the end of a free list looks like a neighbour, no heap reaches up to the end of the
address type or starts at address zero, and the operating system maps memory to host addresses that
are not mapped yet.  The invariant is `Held`: the heaps are well tiled, and what callers hold is a
list of distinct allocated blocks.
-/

namespace TiOpenCL

namespace HeapManager

variable {w : ℕ}

/-! ### Settings of the heaps -/

/-- A heap with the settings of a configured heap has its range and its alignments. -/
structure Configured (cfg : Config w) (h : HeapManager w) : Prop where
  tiled : WellTiled h
  settings : h.settings = cfg.heap.settings

namespace Configured

variable {cfg : Config w} {h : HeapManager w}

/-- The length of the heap is the configured one. -/
lemma length_eq (hc : Configured cfg h) : h.length = cfg.length := by
  have hs := hc.settings
  simp only [HeapManager.settings, Prod.mk.injEq] at hs
  rw [hs.2.1, (config_range cfg).1]

/-- A heap with a range starts at the configured address. -/
lemma startAddr_eq (hc : Configured cfg h) (hpos : 0 < cfg.length) : h.startAddr = cfg.startAddr := by
  have hs := hc.settings
  simp only [HeapManager.settings, Prod.mk.injEq] at hs
  rw [hs.1, (config_range cfg).2 hpos]

lemma powBlock (hc : Configured cfg h) : PowBlock h := by
  have hs := hc.settings
  simp only [HeapManager.settings, Prod.mk.injEq] at hs
  have hp := powBlock_config cfg
  rwa [PowBlock, ← hs.2.1, ← hs.2.2.1] at hp

lemma powAlign (hc : Configured cfg h) : PowAlign h := by
  have hs := hc.settings
  simp only [HeapManager.settings, Prod.mk.injEq] at hs
  have hp := powAlign_config cfg
  rwa [PowAlign, ← hs.2.2.2.1, ← hs.2.2.2.2] at hp

/-- An allocated block lies in the configured range. -/
lemma covers (hc : Configured cfg h) {addr : ℕ} {e : AllocEntry}
    (he : (addr, e) ∈ h.allocList.entries) : Block.Covers (cfg.startAddr, cfg.length) addr := by
  have hrange := hc.tiled.alloc_range he
  have hlen := hc.length_eq
  have hstart := hc.startAddr_eq (by omega)
  exact ⟨by simp only; omega, by simp only; omega⟩

/-- `contains` tells the addresses of the configured range from the others, unless the range reaches
up to the end of the address type. -/
lemma contains_iff (hc : Configured cfg h) (hend : cfg.startAddr + cfg.length < 2 ^ w) (addr : ℕ) :
    h.contains addr = true ↔ Block.Covers (cfg.startAddr, cfg.length) addr := by
  have hlen := hc.length_eq
  rw [contains, Bool.and_eq_true, decide_eq_true_eq, decide_eq_true_eq, Block.Covers]
  rcases Nat.eq_zero_or_pos cfg.length with hzero | hpos
  · have hlt := hc.tiled.range
    have hlen' := hc.tiled.length_lt
    rw [hlen, hzero, wadd, Nat.add_zero]
    have hmod := Nat.mod_le h.startAddr (2 ^ w)
    constructor
    · rintro ⟨h1, h2⟩
      omega
    · rintro ⟨h1, h2⟩
      simp only at h1 h2
      omega
  · rw [hc.startAddr_eq hpos, hlen, wadd_eq hend]

end Configured

end HeapManager

namespace SharedMemory

open HeapManager

/-! ### What callers hold -/

/-- The heaps are well tiled, and the grants are distinct allocated blocks. -/
structure Held (cfg : HeapId → Config 64) (hs : Heaps) (G : List Grant) : Prop where
  configured : ∀ id, Configured (cfg id) (hs id)
  nodup : G.Nodup
  allocated : ∀ g ∈ G, ∃ e, (g.addr, e) ∈ (hs g.heap).allocList.entries

variable {cfg : HeapId → Config 64} {hs : Heaps} {G : List Grant}

/-- The order of the grants does not matter. -/
lemma Held.perm (h : Held cfg hs G) {G' : List Grant} (hp : G.Perm G') : Held cfg hs G' where
  configured := h.configured
  nodup := hp.nodup_iff.mp h.nodup
  allocated g hg := h.allocated g (hp.mem_iff.mpr hg)

/-- A heap that has one more allocated block holds one more grant. -/
lemma Held.grant (h : Held cfg hs G) {id : HeapId} {heap : HeapManager 64} {addr : ℕ}
    {entry : AllocEntry} (hc : Configured (cfg id) heap)
    (hnew : ∀ e, (addr, e) ∉ (hs id).allocList.entries)
    (hmem : ∀ e, e ∈ heap.allocList.entries ↔
      e = (addr, entry) ∨ e ∈ (hs id).allocList.entries ∧ e.1 ≠ addr) :
    Held cfg (Function.update hs id heap) (⟨addr, id⟩ :: G) where
  configured i := by
    by_cases hi : i = id
    · subst hi
      rwa [Function.update_self]
    · rw [Function.update_of_ne hi]
      exact h.configured i
  nodup := by
    refine List.nodup_cons.mpr ⟨fun hg => ?_, h.nodup⟩
    obtain ⟨e, he⟩ := h.allocated _ hg
    exact hnew e he
  allocated g hg := by
    rcases List.mem_cons.mp hg with rfl | hg
    · exact ⟨entry, by rw [Function.update_self]; exact (hmem _).mpr (Or.inl rfl)⟩
    · obtain ⟨e, he⟩ := h.allocated g hg
      by_cases hi : g.heap = id
      · rw [hi] at he
        have hne : g.addr ≠ addr := fun heq => hnew e (heq ▸ he)
        exact ⟨e, by rw [hi, Function.update_self]; exact (hmem _).mpr (Or.inr ⟨he, hne⟩)⟩
      · exact ⟨e, by rw [Function.update_of_ne hi]; exact he⟩

/-- A call of `malloc` returns a block that no caller holds, or zero if the request does not fit;
the heaps are then as they were. -/
lemma Held.mallocIn (h : Held cfg hs G) (hpos : ∀ id, 0 < (cfg id).startAddr) (pid : ℕ) {id : HeapId}
    {size : ℕ} (hok : (hs id).MallocOk size) :
    (mallocIn hs pid id size).1.heap = id ∧
      ((mallocIn hs pid id size).1.addr ≠ 0 ∧
          Held cfg (mallocIn hs pid id size).2 ((mallocIn hs pid id size).1 :: G) ∨
        (mallocIn hs pid id size).1.addr = 0 ∧ (mallocIn hs pid id size).2 = hs ∧
          ¬ (hs id).Fits size) := by
  have hc := h.configured id
  unfold SharedMemory.mallocIn
  cases hm : (hs id).malloc size pid true with
  | none =>
    simp only [malloc] at hm
    split at hm <;> simp at hm
  | some r =>
    obtain ⟨addr, heap⟩ := r
    have hc' : Configured (cfg id) heap :=
      ⟨wellTiled_malloc hc.tiled hc.powBlock hok hm, (malloc_settings hm).trans hc.settings⟩
    refine ⟨rfl, ?_⟩
    rcases malloc_cases hm with ⟨-, kv, hkv, p, hplace, rfl, rfl⟩ | ⟨hnot, rfl, rfl⟩
    · have hmem : ∀ e, e ∈ ((hs id).occupy p ((hs id).roundSize size) pid).allocList.entries ↔
          e = (p.availAddr, ⟨(hs id).roundSize size, pid⟩) ∨
            e ∈ (hs id).allocList.entries ∧ e.1 ≠ p.availAddr := fun e => OrderedMap.mem_insert
      refine Or.inl ⟨?_, h.grant hc' ?_ hmem⟩
      · have hcov := hc'.covers ((hmem _).mpr (Or.inl rfl))
        have := hpos id
        have hle : (cfg id).startAddr ≤ p.availAddr := hcov.1
        simp only
        omega
      · exact place_not_alloc hc.tiled hkv hplace (hok.roundSize_pos hc.tiled hc.powBlock hkv)
    · refine Or.inr ⟨rfl, ?_, ?_⟩
      · simp
      · exact fun hfits => hnot (hfits.serves hc.tiled hc.powBlock hc.powAlign hok)

/-- The sizes that `AllocateGlobal` handles: not zero where it divides, and served by the heaps that
it may try. -/
def AllocOk (hs : Heaps) (size : ℕ) (prefer32bit : Bool) : Prop :=
  (prefer32bit = false → 0 < size) ∧ (hs .ddrHeap1).MallocOk size ∧
    (prefer32bit = false → (hs .ddrHeap2).MallocOk size)

instance (hs : Heaps) (size : ℕ) (prefer32bit : Bool) : Decidable (AllocOk hs size prefer32bit) :=
  inferInstanceAs (Decidable ((prefer32bit = false → 0 < size) ∧ (hs .ddrHeap1).MallocOk size ∧
    (prefer32bit = false → (hs .ddrHeap2).MallocOk size)))

/-- `AllocateGlobal` returns a block of a DDR heap that no caller holds, or zero if the request fits
in neither of the heaps it may use. -/
lemma Held.allocateGlobal (h : Held cfg hs G) (hpos : ∀ id, 0 < (cfg id).startAddr) (pid : ℕ)
    {size : ℕ} {prefer32bit : Bool} (hok : AllocOk hs size prefer32bit) :
    ∃ g hs', allocateGlobal hs pid size prefer32bit = some (g, hs') ∧
      (g.addr ≠ 0 ∧ g.heap ≠ .msmcHeap ∧ Held cfg hs' (g :: G) ∨
        g.addr = 0 ∧ hs' = hs ∧ ¬ (hs .ddrHeap1).Fits size ∧
          (prefer32bit = false → ¬ (hs .ddrHeap2).Fits size)) := by
  obtain ⟨hsize, hok1, hok2⟩ := hok
  obtain ⟨hid1, h1⟩ := h.mallocIn hpos pid hok1
  unfold SharedMemory.allocateGlobal
  cases prefer32bit with
  | true =>
    refine ⟨(SharedMemory.mallocIn hs pid .ddrHeap1 size).1,
      (SharedMemory.mallocIn hs pid .ddrHeap1 size).2, rfl, ?_⟩
    rcases h1 with ⟨haddr, hheld⟩ | ⟨haddr, heq, hfits⟩
    · exact Or.inl ⟨haddr, by simp [hid1], hheld⟩
    · exact Or.inr ⟨haddr, heq, hfits, fun hcon => by simp at hcon⟩
  | false =>
    obtain ⟨hid2, h2⟩ := h.mallocIn hpos pid (hok2 rfl)
    have hne : size ≠ 0 := by have := hsize rfl; omega
    simp only [Bool.false_eq_true, if_false, if_neg hne]
    -- the first attempt either returns a block or leaves the heaps as they were
    generalize hr : (if fractionPersistentForBuffer < (hs .ddrHeap1).maxBlockSize / size then
      SharedMemory.mallocIn hs pid .ddrHeap1 size else (⟨0, .ddrHeap1⟩, hs)) = r
    have hfirst : r.1.addr ≠ 0 ∧ r.1.heap ≠ .msmcHeap ∧ Held cfg r.2 (r.1 :: G) ∨
        r.1.addr = 0 ∧ r.2 = hs := by
      subst hr
      split
      · rcases h1 with ⟨haddr, hheld⟩ | ⟨haddr, heq, -⟩
        · exact Or.inl ⟨haddr, by simp [hid1], hheld⟩
        · exact Or.inr ⟨haddr, heq⟩
      · exact Or.inr ⟨rfl, rfl⟩
    rcases hfirst with ⟨haddr, hid, hheld⟩ | ⟨haddr, heq⟩
    · simp only [if_neg haddr]
      exact ⟨r.1, r.2, rfl, Or.inl ⟨haddr, hid, hheld⟩⟩
    · simp only [if_pos haddr, heq]
      rcases h2 with ⟨haddr2, hheld2⟩ | ⟨haddr2, heq2, hfits2⟩
      · simp only [if_neg haddr2]
        exact ⟨(SharedMemory.mallocIn hs pid .ddrHeap2 size).1,
          (SharedMemory.mallocIn hs pid .ddrHeap2 size).2, rfl,
          Or.inl ⟨haddr2, by simp [hid2], hheld2⟩⟩
      · simp only [if_pos haddr2, heq2]
        refine ⟨(SharedMemory.mallocIn hs pid .ddrHeap1 size).1,
          (SharedMemory.mallocIn hs pid .ddrHeap1 size).2, rfl, ?_⟩
        rcases h1 with ⟨haddr1, hheld1⟩ | ⟨haddr1, heq1, hfits1⟩
        · exact Or.inl ⟨haddr1, by simp [hid1], hheld1⟩
        · exact Or.inr ⟨haddr1, heq1, hfits1, fun _ => hfits2⟩

/-! ### Release to the right heap -/

/-- `free` of the heap of a grant succeeds, and the other grants are held as before. -/
lemma Held.freeIn {g : Grant} (h : Held cfg hs (g :: G)) {pastEnd : PastEnd}
    (hok : (hs g.heap).FreeOk pastEnd g.addr) :
    (freeIn hs pastEnd g.heap g.addr).1 = .released g.heap 0 ∧
      Held cfg (freeIn hs pastEnd g.heap g.addr).2 G := by
  obtain ⟨e, he⟩ := h.allocated g List.mem_cons_self
  have hfind := OrderedMap.find?_eq_some_iff.mpr he
  have hc := h.configured g.heap
  obtain ⟨hnot, hnodup⟩ := List.nodup_cons.mp h.nodup
  refine ⟨?_, ⟨fun i => ?_, hnodup, fun g' hg' => ?_⟩⟩
  · simp [SharedMemory.freeIn, HeapManager.free, hfind]
  · by_cases hi : i = g.heap
    · subst hi
      simp only [SharedMemory.freeIn, Function.update_self]
      exact ⟨wellTiled_free hc.tiled hok, (free_settings _ _ _).trans hc.settings⟩
    · simp only [SharedMemory.freeIn, Function.update_of_ne hi]
      exact h.configured i
  · obtain ⟨e', he'⟩ := h.allocated g' (List.mem_cons_of_mem _ hg')
    by_cases hi : g'.heap = g.heap
    · -- another grant of the same heap has another address
      have hne : g'.addr ≠ g.addr := by
        intro heq
        have hgg : g' = g := by
          cases g'
          cases g
          simp_all
        exact hnot (hgg ▸ hg')
      refine ⟨e', ?_⟩
      rw [hi] at he' ⊢
      simp only [SharedMemory.freeIn, Function.update_self]
      exact mem_free_allocList.mpr ⟨he', hne⟩
    · exact ⟨e', by simpa only [SharedMemory.freeIn, Function.update_of_ne hi] using he'⟩

section Ranges

variable (hend : ∀ id, (cfg id).startAddr + (cfg id).length < 2 ^ 64)
  (hdisj : ∀ i j, i ≠ j →
    Block.Disjoint ((cfg i).startAddr, (cfg i).length) ((cfg j).startAddr, (cfg j).length))

include hend hdisj

/-- Of all heaps, the one of a grant contains its address. -/
lemma Held.contains_iff (h : Held cfg hs G) {g : Grant} (hg : g ∈ G) (id : HeapId) :
    (hs id).contains g.addr = true ↔ id = g.heap := by
  obtain ⟨e, he⟩ := h.allocated g hg
  have hcov := (h.configured g.heap).covers he
  rw [(h.configured id).contains_iff (hend id)]
  constructor
  · intro hid
    by_contra hne
    exact hdisj id g.heap hne g.addr ⟨hid, hcov⟩
  · rintro rfl
    exact hcov

/-- A function that matches the grant frees its address in its heap. -/
lemma Held.call_eq (h : Held cfg hs G) {g : Grant} (hg : g ∈ G) {f : FreeCall}
    (hm : f.Matches g.heap) (pastEnd : PastEnd) :
    f.call hs pastEnd g.addr = SharedMemory.freeIn hs pastEnd g.heap g.addr := by
  have hmsmc := h.contains_iff hend hdisj hg .msmcHeap
  have hddr1 := h.contains_iff hend hdisj hg .ddrHeap1
  have hddr2 := h.contains_iff hend hdisj hg .ddrHeap2
  cases hid : g.heap <;> rw [hid] at hmsmc hddr1 hddr2 hm <;> cases f <;>
    simp_all [FreeCall.call, FreeCall.Matches, freeMSMC, freeGlobal, freeMSMCorGlobal]

/-- `clMalloc` and `clFree` free the address of a grant in its heap. -/
lemma Held.clRelease_eq (h : Held cfg hs G) {g : Grant} (hg : g ∈ G) {onChip : Bool}
    (hloc : onChip = true ↔ g.heap = .msmcHeap) (pastEnd : PastEnd) :
    clRelease hs pastEnd onChip g.addr = SharedMemory.freeIn hs pastEnd g.heap g.addr := by
  cases onChip with
  | true => exact h.call_eq hend hdisj hg (show FreeCall.freeMSMC.Matches g.heap from hloc.mp rfl) _
  | false =>
    have hne : g.heap ≠ .msmcHeap := fun hcon => by simp [hcon] at hloc
    exact h.call_eq hend hdisj hg (show FreeCall.freeGlobal.Matches g.heap from hne) _

end Ranges

/-! ### Whole runs -/

namespace Provider

/-- The condition on a call: the sizes, the reads past the end of a free list, and the host
addresses that memory is mapped to. -/
def StepOk (pid : ℕ) (s : Provider) : Action → Prop
  | .allocateMSMC size => (s.heaps .msmcHeap).MallocOk size
  | .allocateGlobal size prefer32bit => AllocOk s.heaps size prefer32bit
  | .free _ g pastEnd => (s.heaps g.heap).FreeOk pastEnd g.addr
  | .clMalloc size onChip mapped pastEnd =>
    (if onChip then (s.heaps .msmcHeap).MallocOk size else AllocOk s.heaps size false) ∧
      (∀ host ∈ mapped, s.mapping.find? host = none) ∧
      ∀ r ∈ clAllocate s.heaps pid size onChip, (r.2 r.1.heap).FreeOk pastEnd r.1.addr
  | .clFree ptr pastEnd => ∀ m ∈ s.mapping.find? ptr,
      (s.heaps m.grant.heap).FreeOk pastEnd m.grant.addr

instance (pid : ℕ) (s : Provider) (a : Action) : Decidable (s.StepOk pid a) := by
  cases a <;> unfold StepOk <;> infer_instance

/-- The grants of the callers and of the mapping. -/
def grants (s : Provider) : List Grant := s.live ++ s.mapping.entries.map fun m => m.2.grant

/-- The grants are held, and the location in the mapping tells the heap on chip from the others. -/
structure Sound (cfg : HeapId → Config 64) (s : Provider) : Prop where
  held : Held cfg s.heaps s.grants
  location : ∀ m ∈ s.mapping.entries, (m.2.onChip = true ↔ m.2.grant.heap = .msmcHeap)

variable {s s' : Provider} {pid : ℕ}

/-- A grant that is returned to a caller is held. -/
lemma Sound.keep (h : Sound cfg s) {r : Grant × Heaps}
    (hr : r.1.addr ≠ 0 ∧ Held cfg r.2 (r.1 :: s.grants) ∨ r.1.addr = 0 ∧ r.2 = s.heaps) :
    Sound cfg (s.keep r) := by
  rcases hr with ⟨haddr, hheld⟩ | ⟨haddr, heq⟩
  · refine ⟨?_, h.location⟩
    simpa only [Provider.keep, grants, if_neg haddr, List.cons_append] using hheld
  · refine ⟨?_, h.location⟩
    simpa only [Provider.keep, grants, if_pos haddr, heq] using h.held

/-- The allocation of `clMalloc` returns a block that no caller holds, of the heap on chip exactly
for that location. -/
lemma held_clAllocate (h : Held cfg s.heaps s.grants) (hpos : ∀ id, 0 < (cfg id).startAddr)
    (pid : ℕ) {size : ℕ} {onChip : Bool}
    (hok : if onChip then (s.heaps .msmcHeap).MallocOk size else AllocOk s.heaps size false) :
    ∃ g hs, clAllocate s.heaps pid size onChip = some (g, hs) ∧
      (g.addr ≠ 0 ∧ (onChip = true ↔ g.heap = .msmcHeap) ∧ Held cfg hs (g :: s.grants) ∨
        g.addr = 0 ∧ hs = s.heaps) := by
  cases onChip with
  | true =>
    obtain ⟨hid, hcases⟩ := h.mallocIn hpos pid hok
    refine ⟨(mallocIn s.heaps pid .msmcHeap size).1, (mallocIn s.heaps pid .msmcHeap size).2,
      rfl, ?_⟩
    rcases hcases with ⟨haddr, hheld⟩ | ⟨haddr, heq, -⟩
    · exact Or.inl ⟨haddr, by simp [hid], hheld⟩
    · exact Or.inr ⟨haddr, heq⟩
  | false =>
    have hglobal : AllocOk s.heaps size false := by simpa using hok
    obtain ⟨g, hs, heq, hcases⟩ := h.allocateGlobal hpos pid hglobal
    refine ⟨g, hs, by simpa [clAllocate] using heq, ?_⟩
    rcases hcases with ⟨haddr, hid, hheld⟩ | ⟨haddr, hhs, -⟩
    · exact Or.inl ⟨haddr, by simp [hid], hheld⟩
    · exact Or.inr ⟨haddr, hhs⟩

section Ranges

variable (hend : ∀ id, (cfg id).startAddr + (cfg id).length < 2 ^ 64)
  (hdisj : ∀ i j, i ≠ j →
    Block.Disjoint ((cfg i).startAddr, (cfg i).length) ((cfg j).startAddr, (cfg j).length))

include hend hdisj

/-- `clMalloc` keeps the provider sound. -/
lemma Sound.clMalloc (h : Sound cfg s) (hpos : ∀ id, 0 < (cfg id).startAddr) {size : ℕ}
    {onChip : Bool} {mapped : Option ℕ} {pastEnd : PastEnd}
    (hok : s.StepOk pid (.clMalloc size onChip mapped pastEnd))
    (hs : (s.clMalloc pid size onChip mapped pastEnd).map Prod.snd = some s') : Sound cfg s' := by
  obtain ⟨hsize, hfresh, hfree⟩ := hok
  obtain ⟨g, hs', heq, hcases⟩ := held_clAllocate h.held hpos pid hsize
  simp only [Provider.clMalloc, heq, Option.map_some, Option.some.injEq] at hs
  rcases hcases with ⟨haddr, hloc, hheld⟩ | ⟨haddr, hhs⟩
  · rw [if_neg haddr] at hs
    cases mapped with
    | some host =>
      have hnew := OrderedMap.find?_eq_none_iff.mp (hfresh host rfl)
      have hperm := (OrderedMap.insert_perm_of_not_mem hnew ⟨g, size, onChip⟩).map
        fun m : ℕ × ClMapping => m.2.grant
      subst hs
      refine ⟨hheld.perm ?_, fun m hm => ?_⟩
      · refine List.Perm.trans ?_ (hperm.append_left s.live).symm
        exact List.perm_middle.symm
      · rcases OrderedMap.mem_insert.mp hm with rfl | ⟨hm, -⟩
        · exact hloc
        · exact h.location m hm
    | none =>
      subst hs
      have hrel := hheld.clRelease_eq hend hdisj List.mem_cons_self hloc pastEnd
      have hdone := hheld.freeIn (hfree _ heq)
      refine ⟨?_, h.location⟩
      simp only [hrel]
      exact hdone.2
  · rw [if_pos haddr] at hs
    subst hs
    exact ⟨hhs ▸ h.held, h.location⟩

/-- `clFree` keeps the provider sound. -/
lemma Sound.clFree (h : Sound cfg s) {ptr : ℕ} {pastEnd : PastEnd}
    (hok : s.StepOk pid (.clFree ptr pastEnd)) : Sound cfg (s.clFree pastEnd ptr).2 := by
  unfold Provider.clFree
  cases hf : s.mapping.find? ptr with
  | none => exact h
  | some m =>
    have hmem := OrderedMap.find?_eq_some_iff.mp hf
    have hperm : s.grants.Perm
        (m.grant :: (s.live ++ (s.mapping.erase ptr).entries.map fun m => m.2.grant)) :=
      (((OrderedMap.erase_perm hmem).map fun m : ℕ × ClMapping => m.2.grant).append_left
        s.live).trans List.perm_middle
    have hheld := h.held.perm hperm
    have hrel := hheld.clRelease_eq hend hdisj List.mem_cons_self (h.location _ hmem) pastEnd
    refine ⟨?_, fun m' hm' => h.location m' (OrderedMap.mem_erase.mp hm').1⟩
    simp only [hrel]
    exact (hheld.freeIn (hok m hf)).2

/-- Every call that meets its condition keeps the provider sound. -/
lemma sound_step (h : Sound cfg s) (hpos : ∀ id, 0 < (cfg id).startAddr) {a : Action}
    (hok : s.StepOk pid a) (hs : s.step pid a = some s') : Sound cfg s' := by
  cases a with
  | allocateMSMC size =>
    obtain rfl := Option.some.inj hs
    obtain ⟨-, hcases⟩ := h.held.mallocIn hpos pid hok
    refine h.keep (hcases.imp id fun hc => ⟨hc.1, hc.2.1⟩)
  | allocateGlobal size prefer32bit =>
    obtain ⟨g, hs', heq, hcases⟩ := h.held.allocateGlobal hpos pid hok
    simp only [step, heq, Option.map_some, Option.some.injEq] at hs
    subst hs
    exact h.keep (hcases.imp (fun hc => ⟨hc.1, hc.2.2⟩) fun hc => ⟨hc.1, hc.2.1⟩)
  | free f g pastEnd =>
    simp only [step, Option.ite_none_right_eq_some, Option.some.injEq] at hs
    obtain ⟨⟨hg, hm⟩, rfl⟩ := hs
    have hperm : s.grants.Perm
        (g :: (s.live.erase g ++ s.mapping.entries.map fun m => m.2.grant)) :=
      (List.perm_cons_erase hg).append_right _
    have hheld := h.held.perm hperm
    have hcall := hheld.call_eq hend hdisj List.mem_cons_self hm pastEnd
    refine ⟨?_, h.location⟩
    simp only [hcall]
    exact (hheld.freeIn hok).2
  | clMalloc size onChip mapped pastEnd => exact h.clMalloc hend hdisj hpos hok hs
  | clFree ptr pastEnd =>
    obtain rfl := Option.some.inj hs
    exact h.clFree hend hdisj hok

end Ranges

/-- A provider whose calls do what their callers rely on: no division by zero, zero for a request
only if it does not fit, and every address freed in the heap it came from. -/
structure Consistent (pid : ℕ) (s : Provider) : Prop where
  /-- `AllocateGlobal` does not divide by zero. -/
  allocates : ∀ size prefer32bit, AllocOk s.heaps size prefer32bit →
    (allocateGlobal s.heaps pid size prefer32bit).isSome
  /-- `clMalloc` does not divide by zero. -/
  clAllocates : ∀ size onChip mapped pastEnd,
    s.StepOk pid (.clMalloc size onChip mapped pastEnd) →
      (s.clMalloc pid size onChip mapped pastEnd).isSome
  /-- `AllocateGlobal` returns zero only if the request does not fit. -/
  refused : ∀ size prefer32bit r, AllocOk s.heaps size prefer32bit →
    allocateGlobal s.heaps pid size prefer32bit = some r → r.1.addr = 0 →
      ¬ (s.heaps .ddrHeap1).Fits size ∧
        (prefer32bit = false → ¬ (s.heaps .ddrHeap2).Fits size)
  /-- A grant is released to its heap by every function that matches it. -/
  matching : ∀ g ∈ s.live, ∀ (f : FreeCall) (pastEnd : PastEnd), f.Matches g.heap →
    f.call s.heaps pastEnd g.addr = (.released g.heap 0,
      Function.update s.heaps g.heap ((s.heaps g.heap).free pastEnd g.addr).2)
  /-- `clFree` releases what `clMalloc` returned to its heap. -/
  clMatching : ∀ m ∈ s.mapping.entries, ∀ pastEnd : PastEnd,
    s.clFree pastEnd m.1 = (.released m.2.grant.heap 0,
      { s with
        heaps := Function.update s.heaps m.2.grant.heap
          ((s.heaps m.2.grant.heap).free pastEnd m.2.grant.addr).2
        mapping := s.mapping.erase m.1 })

/-- `free` of the heap of a grant that is held succeeds. -/
lemma freeIn_of_allocated (h : Held cfg hs G) {g : Grant} (hg : g ∈ G) (pastEnd : PastEnd) :
    freeIn hs pastEnd g.heap g.addr = (.released g.heap 0,
      Function.update hs g.heap ((hs g.heap).free pastEnd g.addr).2) := by
  obtain ⟨e, he⟩ := h.allocated g hg
  have hfind := OrderedMap.find?_eq_some_iff.mpr he
  simp [freeIn, HeapManager.free, hfind]

/-- A sound provider is consistent. -/
lemma Sound.consistent (h : Sound cfg s) (hpos : ∀ id, 0 < (cfg id).startAddr)
    (hend : ∀ id, (cfg id).startAddr + (cfg id).length < 2 ^ 64)
    (hdisj : ∀ i j, i ≠ j →
      Block.Disjoint ((cfg i).startAddr, (cfg i).length) ((cfg j).startAddr, (cfg j).length)) :
    Consistent pid s where
  allocates size prefer32bit hok := by
    obtain ⟨g, hs, heq, -⟩ := h.held.allocateGlobal hpos pid hok
    simp [heq]
  clAllocates size onChip mapped pastEnd hok := by
    obtain ⟨g, hs, heq, -⟩ := held_clAllocate h.held hpos pid hok.1
    simp [Provider.clMalloc, heq]
  refused size prefer32bit r hok hr hzero := by
    obtain ⟨g, hs, heq, hcases⟩ := h.held.allocateGlobal hpos pid hok
    obtain rfl : r = (g, hs) := Option.some.inj (hr.symm.trans heq)
    rcases hcases with ⟨haddr, -⟩ | ⟨-, -, hfits⟩
    · exact absurd hzero haddr
    · exact hfits
  matching g hg f pastEnd hm := by
    have hmem : g ∈ s.grants := List.mem_append_left _ hg
    rw [h.held.call_eq hend hdisj hmem hm, freeIn_of_allocated h.held hmem]
  clMatching m hm pastEnd := by
    have hmem : m.2.grant ∈ s.grants :=
      List.mem_append_right _ (List.mem_map.mpr ⟨m, hm, rfl⟩)
    have hfind := OrderedMap.find?_eq_some_iff.mpr hm
    simp only [Provider.clFree, hfind]
    rw [h.held.clRelease_eq hend hdisj hmem (h.location m hm), freeIn_of_allocated h.held hmem]

/-- For three heaps with disjoint ranges, none of which starts at address zero or reaches up to the
end of the address type, every run of calls that meet their conditions reaches a consistent
provider. -/
theorem consistent_of_run (cfg : HeapId → Config 64) (pid : ℕ)
    (hdisj : ∀ i j, i ≠ j →
      Block.Disjoint ((cfg i).startAddr, (cfg i).length) ((cfg j).startAddr, (cfg j).length))
    (hpos : ∀ id, 0 < (cfg id).startAddr)
    (hend : ∀ id, (cfg id).startAddr + (cfg id).length < 2 ^ 64) (actions : List Action)
    (hok : Machine.RunOk (step pid) (StepOk pid) (init cfg) actions) (s : Provider)
    (hrun : Machine.run (step pid) (init cfg) actions = some s) : Consistent pid s := by
  have hinit : Sound cfg (init cfg) := by
    refine ⟨⟨fun id => ⟨wellTiled_config (cfg id) (hend id).le, rfl⟩, ?_, ?_⟩, ?_⟩
    · simp [grants, init]
    · simp [grants, init]
    · simp [init]
  have hstep : ∀ (s : Provider) a s', Sound cfg s → s.StepOk pid a → s.step pid a = some s' →
      Sound cfg s' := fun _ _ _ h ho hs => sound_step hend hdisj h hpos ho hs
  exact (Machine.invariant_of_runOk hstep hok hrun hinit).consistent hpos hend hdisj

/-- The block size of the first two heaps of the sample fits. -/
lemma sampleBlockLog_lt : 7 < 64 := by decide

/-- The first two heaps of the sample have no maximum alignment. -/
lemma sampleMaxAlignLog_lt : ∀ k ∈ (none : Option ℕ), k < 64 := by simp

/-- A heap on chip of 1 MiB, a DDR heap of 16 MiB and one of 512 MiB, with the block sizes and the
alignment the provider configures. -/
def sampleConfig : HeapId → Config 64
  | .msmcHeap =>
    ⟨0x0C000000, 0x100000, 7, none, by decide, by decide, sampleBlockLog_lt, sampleMaxAlignLog_lt⟩
  | .ddrHeap1 =>
    ⟨0xA0000000, 0x1000000, 7, none, by decide, by decide, sampleBlockLog_lt, sampleMaxAlignLog_lt⟩
  | .ddrHeap2 => ⟨0x820000000, 0x20000000, 12, some 28, by decide, by decide, by decide, by simp⟩

/-- A request to each heap and the release of the first two. -/
def sampleCalls : List Action :=
  [.allocateMSMC 1000, .allocateGlobal 0x800000 false, .clMalloc 64 false (some 0x70000000) ⟨0, 0⟩,
    .free .freeMSMCorGlobal ⟨0x0C000000, .msmcHeap⟩ ⟨0, 0⟩,
    .free .freeGlobal ⟨0x820000000, .ddrHeap2⟩ ⟨0, 0⟩]

/-- The heaps of the sample have disjoint ranges. -/
lemma sampleConfig_disjoint (i j : HeapId) (hij : i ≠ j) :
    Block.Disjoint ((sampleConfig i).startAddr, (sampleConfig i).length)
      ((sampleConfig j).startAddr, (sampleConfig j).length) := by
  intro x
  cases i <;> cases j <;> simp_all [sampleConfig, Block.Covers] <;> omega

/-- The sample calls meet their conditions and reach a consistent provider. -/
theorem consistent_sampleCalls : ∃ s : Provider,
    Machine.run (step 7) (init sampleConfig) sampleCalls = some s ∧
      s.live = [] ∧ Consistent 7 s := by
  have hlive : (Machine.run (step 7) (init sampleConfig) sampleCalls).map (fun s => s.live) =
      some [] := by decide
  obtain ⟨s, hrun, hs⟩ := Option.map_eq_some_iff.mp hlive
  have hok : Machine.RunOk (step 7) (StepOk 7) (init sampleConfig) sampleCalls := by decide
  have hpos : ∀ id, 0 < (sampleConfig id).startAddr := by
    intro id
    cases id <;> decide
  have hend : ∀ id, (sampleConfig id).startAddr + (sampleConfig id).length < 2 ^ 64 := by
    intro id
    cases id <;> decide
  exact ⟨s, hrun, hs,
    consistent_of_run sampleConfig 7 sampleConfig_disjoint hpos hend sampleCalls hok s hrun⟩

/-- A request of size zero without preference divides by zero, also through `clMalloc`. -/
theorem allocateGlobal_zero_divides :
    allocateGlobal (init sampleConfig).heaps 7 0 false = none ∧
      (init sampleConfig).clMalloc 7 0 false (some 0x70000000) ⟨0, 0⟩ = none :=
  ⟨rfl, rfl⟩

end Provider

end SharedMemory

end TiOpenCL
