import TiOpenCL.HeapManager.Basic

/-!
# The free and the allocated blocks tile the heap

The invariant of the heap manager over whole runs: the free blocks and the allocated blocks are
non-empty and tile the configured range, no two free blocks are adjacent, and `available_` is the
sum of the free block sizes.

`malloc` and `free` are followed through the count of blocks over an address (`coverCount`): a
placement cuts one free block in at most three pieces, a release joins up to three blocks to one.
A request whose rounded size is zero is the one that breaks the tiling (`mallocOk`), and a read
past the end of the free list may be taken for a neighbour (`freeOk`).
-/

namespace TiOpenCL

namespace HeapManager

variable {w : ℕ}

/-- The blocks of the heap, its free list and its byte count agree with its range. -/
structure WellTiled (h : HeapManager w) : Prop where
  /-- The range ends inside the address type. -/
  range : h.startAddr + h.length ≤ 2 ^ w
  /-- The length fits in its type. -/
  length_lt : h.length < 2 ^ w
  /-- The blocks tile the range. -/
  tiling : IsTiling h.blocks h.startAddr (h.startAddr + h.length)
  /-- No free block ends where another one starts. -/
  notAdjacent : ∀ a ∈ h.freeList.entries, ∀ b ∈ h.freeList.entries, a.1 + a.2 ≠ b.1
  /-- The byte count is the sum of the free block sizes. -/
  available_eq : h.available = totalSize h.freeList.entries

/-! ### Consequences of the tiling -/

namespace WellTiled

variable {h : HeapManager w}

lemma mem_blocks_of_free {b : ℕ × ℕ} (hb : b ∈ h.freeList.entries) : b ∈ h.blocks :=
  List.mem_append_left _ hb

lemma mem_blocks_of_alloc {a : ℕ} {e : AllocEntry} (he : (a, e) ∈ h.allocList.entries) :
    (a, e.length) ∈ h.blocks :=
  List.mem_append_right _ (List.mem_map.mpr ⟨(a, e), he, rfl⟩)

/-- A free block has a byte and lies in the range. -/
lemma free_range (ht : WellTiled h) {b : ℕ × ℕ} (hb : b ∈ h.freeList.entries) :
    0 < b.2 ∧ h.startAddr ≤ b.1 ∧ b.1 + b.2 ≤ h.startAddr + h.length :=
  ⟨ht.tiling.pos b (mem_blocks_of_free hb), ht.tiling.subset (mem_blocks_of_free hb)⟩

/-- An allocated block has a byte and lies in the range. -/
lemma alloc_range (ht : WellTiled h) {a : ℕ} {e : AllocEntry} (he : (a, e) ∈ h.allocList.entries) :
    0 < e.length ∧ h.startAddr ≤ a ∧ a + e.length ≤ h.startAddr + h.length :=
  ⟨ht.tiling.pos _ (mem_blocks_of_alloc he), ht.tiling.subset (mem_blocks_of_alloc he)⟩

/-- Two free blocks that share an address are the same. -/
lemma free_eq_of_covers (ht : WellTiled h) {a b : ℕ × ℕ} (ha : a ∈ h.freeList.entries)
    (hb : b ∈ h.freeList.entries) {x : ℕ} (hax : Block.Covers a x) (hbx : Block.Covers b x) :
    a = b :=
  ht.tiling.eq_of_covers (mem_blocks_of_free ha) (mem_blocks_of_free hb) hax hbx

/-- No address is both free and allocated. -/
lemma not_free_and_alloc (ht : WellTiled h) {b : ℕ × ℕ} (hb : b ∈ h.freeList.entries) {a : ℕ}
    {e : AllocEntry} (he : (a, e) ∈ h.allocList.entries) {x : ℕ} (hbx : Block.Covers b x)
    (hax : Block.Covers (a, e.length) x) : False := by
  have h1 : 0 < coverCount h.freeList.entries x := coverCount_pos hb hbx
  have h2 : 0 < coverCount (h.allocList.entries.map fun e => (e.1, e.2.length)) x :=
    coverCount_pos (List.mem_map.mpr ⟨(a, e), he, rfl⟩) hax
  have h3 := ht.tiling.count x
  rw [blocks, coverCount_append] at h3
  split_ifs at h3 <;> omega

/-- The free and the allocated sizes add up to the length of the range. -/
lemma totalSize_add (ht : WellTiled h) : totalSize h.freeList.entries +
    totalSize (h.allocList.entries.map fun e => (e.1, e.2.length)) = h.length := by
  have hsum := ht.tiling.totalSize_eq
  rw [blocks, totalSize_append] at hsum
  omega

end WellTiled

/-! ### Configuration -/

/-- Setting the alignment requirements leaves the blocks alone. -/
lemma wellTiled_setAdditionalAlignmentRequirements {h : HeapManager w} (ht : WellTiled h) (m : ℕ) :
    WellTiled (h.setAdditionalAlignmentRequirements m) := by
  unfold setAdditionalAlignmentRequirements
  split
  · exact ⟨ht.range, ht.length_lt, ht.tiling, ht.notAdjacent, ht.available_eq⟩
  · exact ht

/-- A configured heap is one free block over its range. -/
lemma wellTiled_configure {startAddr length : ℕ} (minBlockSize : ℕ)
    (hr : startAddr + length ≤ 2 ^ w) (hl : length < 2 ^ w) :
    WellTiled ((constructed : HeapManager w).configure startAddr length minBlockSize) := by
  unfold configure
  split
  · next hpos =>
    have hent : (OrderedMap.empty.insert startAddr length : OrderedMap ℕ ℕ).entries =
        [(startAddr, length)] := rfl
    refine ⟨hr, hl, ⟨?_, ?_⟩, ?_, ?_⟩
    · intro b hb
      simp only [blocks, constructed, hent, OrderedMap.empty_entries, List.map_nil,
        List.append_nil, List.mem_singleton] at hb
      subst hb
      exact hpos.2
    · intro x
      simp only [blocks, constructed, hent, OrderedMap.empty_entries, List.map_nil,
        List.append_nil, coverCount_cons, coverCount_nil]
      simp
    · intro a ha b hb
      simp only [constructed, hent, List.mem_singleton] at ha hb
      subst ha hb
      simp only
      omega
    · simp [constructed, hent]
  · refine ⟨by simp [constructed], by simp [constructed], ⟨?_, ?_⟩, ?_, ?_⟩
    · intro b hb
      simp [blocks, constructed] at hb
    · intro x
      simp [blocks, constructed]
    · intro a ha
      simp [constructed] at ha
    · simp [constructed]

/-- The heap of a configuration whose range does not run past the address type is well tiled. -/
lemma wellTiled_config (cfg : Config w) (hr : cfg.startAddr + cfg.length ≤ 2 ^ w) :
    WellTiled cfg.heap := by
  have hconf := wellTiled_configure (2 ^ cfg.blockLog) hr cfg.length_lt
  unfold Config.heap
  cases cfg.maxAlignLog with
  | none => exact hconf
  | some k => exact wellTiled_setAdditionalAlignmentRequirements hconf _

/-! ### Allocation -/

/-- Rounding stays in the type. -/
lemma roundup_lt (w val pow2 : ℕ) : roundup w val pow2 < 2 ^ w :=
  lt_of_le_of_lt Nat.and_le_left (wsub_lt _ _ _)

/-- A placement of a non-empty request cuts its free block in a gap, the aligned part and nothing
else, and the request fits in the aligned part. -/
lemma place_spec {align size : ℕ} {kv : ℕ × ℕ} {p : Placement} (hp : place w align size kv = some p)
    (hsize : 0 < size) (hkv : kv.1 + kv.2 ≤ 2 ^ w) :
    p.block = kv.1 ∧ p.availAddr = kv.1 + p.alignGap ∧ p.alignGap + p.availSize = kv.2 ∧
      size ≤ p.availSize := by
  unfold place at hp
  by_cases hgap : wsub w (roundup w kv.1 align) kv.1 < kv.2
  · simp only [if_pos hgap, Option.ite_none_left_eq_some, Option.some.injEq] at hp
    obtain ⟨hfit, rfl⟩ := hp
    have hlt := roundup_lt w kv.1 align
    -- an aligned address below the block would leave a gap that reaches past the type
    have hle : kv.1 ≤ roundup w kv.1 align := by
      by_contra hcon
      rw [wsub_eq_of_lt (by omega) (by omega)] at hgap
      omega
    have heq := wsub_eq hle hlt
    refine ⟨rfl, ?_, ?_, ?_⟩ <;> simp only <;> omega
  · simp [if_neg hgap, hsize] at hp

/-- The entries of the free list after a placement. -/
lemma carve_perm {h : HeapManager w} (ht : WellTiled h) {kv : ℕ × ℕ} (hkv : kv ∈ h.freeList.entries)
    {p : Placement} {size : ℕ} (hsize : 0 < size) (hblock : p.block = kv.1)
    (haddr : p.availAddr = kv.1 + p.alignGap) (hsum : p.alignGap + p.availSize = kv.2) :
    (carve h.freeList w p size).entries.Perm
      ((if size < p.availSize then [(p.availAddr + size, p.availSize - size)] else []) ++
        ((if p.alignGap ≠ 0 then [(kv.1, p.alignGap)] else []) ++
          (h.freeList.erase kv.1).entries)) := by
  have hrange := ht.free_range hkv
  have hrange' := ht.range
  have hfront : (if p.alignGap ≠ 0 then h.freeList.insert p.block p.alignGap
      else h.freeList.erase p.block).entries.Perm
      ((if p.alignGap ≠ 0 then [(kv.1, p.alignGap)] else []) ++
        (h.freeList.erase kv.1).entries) := by
    rw [hblock]
    split
    · exact h.freeList.insert_perm _ _
    · rfl
  unfold carve
  by_cases hrest : size < p.availSize
  · have hw : wadd w p.availAddr size = p.availAddr + size := wadd_eq (by omega)
    simp only [if_pos hrest, hw]
    refine (OrderedMap.insert_perm_of_not_mem ?_ _).trans (hfront.cons _)
    intro v hv
    -- a free block starting inside `kv` would be `kv`, which has been cut
    rcases List.mem_append.mp (hfront.mem_iff.mp hv) with hmem | hmem
    · split at hmem
      · simp only [List.mem_singleton, Prod.mk.injEq] at hmem
        omega
      · simp at hmem
    · rw [OrderedMap.mem_erase] at hmem
      have hpos := (ht.free_range hmem.1).1
      have := ht.free_eq_of_covers hmem.1 hkv (x := p.availAddr + size)
        ⟨le_rfl, by simp only; omega⟩ ⟨by omega, by omega⟩
      exact hmem.2 (congrArg Prod.fst this)
  · simpa only [if_neg hrest, List.nil_append] using hfront

/-- The address of a placement is not allocated yet. -/
lemma place_not_alloc {h : HeapManager w} (ht : WellTiled h) {kv : ℕ × ℕ}
    (hkv : kv ∈ h.freeList.entries) {align size : ℕ} {p : Placement}
    (hp : place w align size kv = some p) (hsize : 0 < size) (e : AllocEntry) :
    (p.availAddr, e) ∉ h.allocList.entries := by
  intro he
  have hrange := ht.free_range hkv
  have hrange' := ht.range
  obtain ⟨-, haddr, hsum, hfit⟩ := place_spec hp hsize (by omega)
  have hpos := (ht.alloc_range he).1
  exact ht.not_free_and_alloc hkv he (x := p.availAddr) ⟨by omega, by omega⟩
    ⟨le_rfl, by simp only; omega⟩

/-- A placement of a non-empty request keeps the heap well tiled. -/
lemma wellTiled_place {h : HeapManager w} (ht : WellTiled h) {kv : ℕ × ℕ}
    (hkv : kv ∈ h.freeList.entries) {align size pid : ℕ} {p : Placement}
    (hp : place w align size kv = some p) (hsize : 0 < size) :
    WellTiled (h.occupy p size pid) := by
  have hrange := ht.free_range hkv
  have hrange' := ht.range
  have hlen := ht.length_lt
  obtain ⟨hblock, haddr, hsum, hfit⟩ := place_spec hp hsize (by omega)
  have hfree := carve_perm ht hkv hsize hblock haddr hsum
  have hold : h.freeList.entries.Perm (kv :: (h.freeList.erase kv.1).entries) :=
    OrderedMap.erase_perm hkv
  have hnew := place_not_alloc ht hkv hp hsize
  have halloc := OrderedMap.insert_perm_of_not_mem hnew ⟨size, pid⟩
  refine ⟨ht.range, ht.length_lt, ht.tiling.congr ?_ ?_, ?_, ?_⟩
  · intro b hb
    rcases List.mem_append.mp hb with hb | hb
    · rcases List.mem_append.mp (hfree.mem_iff.mp hb) with hb | hb
      · split at hb
        · simp only [List.mem_singleton] at hb
          subst hb
          simp only
          omega
        · simp at hb
      · rcases List.mem_append.mp hb with hb | hb
        · split at hb
          · simp only [List.mem_singleton] at hb
            subst hb
            simp only
            omega
          · simp at hb
        · exact (ht.free_range (OrderedMap.mem_erase.mp hb).1).1
    · obtain ⟨e, he, rfl⟩ := List.mem_map.mp hb
      rcases List.mem_cons.mp (halloc.mem_iff.mp he) with rfl | he
      · exact hsize
      · exact (ht.alloc_range he).1
  · intro x
    have hA := coverCount_perm (halloc.map fun e : ℕ × AllocEntry => (e.1, e.2.length)) x
    have hF := coverCount_perm hfree x
    have hO := coverCount_perm hold x
    simp only [List.map_cons, coverCount_cons, coverCount_append] at hA hF hO
    simp only [blocks, occupy, coverCount_append, hA, hF, hO]
    -- the pieces cover what the block covered
    have hpieces : coverCount (if size < p.availSize then
          [(p.availAddr + size, p.availSize - size)] else []) x +
        coverCount (if p.alignGap ≠ 0 then [(kv.1, p.alignGap)] else []) x +
        (if p.availAddr ≤ x ∧ x < p.availAddr + size then 1 else 0) =
        if kv.1 ≤ x ∧ x < kv.1 + kv.2 then 1 else 0 := by
      simp only [coverCount_ite]
      split_ifs <;> omega
    omega
  · intro a ha b hb hadj
    have hfree_mem : ∀ c ∈ (carve h.freeList w p size).entries,
        c.1 = p.availAddr + size ∧ c.1 + c.2 = kv.1 + kv.2 ∧ 0 < c.2 ∨
          c.1 = kv.1 ∧ c.1 + c.2 = p.availAddr ∧ 0 < c.2 ∨
          c ∈ h.freeList.entries ∧ c.1 ≠ kv.1 := by
      intro c hc
      rcases List.mem_append.mp (hfree.mem_iff.mp hc) with hc | hc
      · split at hc
        · simp only [List.mem_singleton] at hc
          subst hc
          exact Or.inl ⟨rfl, by simp only; omega, by simp only; omega⟩
        · simp at hc
      · rcases List.mem_append.mp hc with hc | hc
        · split at hc
          · simp only [List.mem_singleton] at hc
            subst hc
            exact Or.inr (Or.inl ⟨rfl, by simp only; omega, by simp only; omega⟩)
          · simp at hc
        · exact Or.inr (Or.inr (OrderedMap.mem_erase.mp hc))
    -- a free block other than `kv` has no address of `kv`
    have hapart : ∀ c ∈ h.freeList.entries, c.1 ≠ kv.1 → c.1 + c.2 < kv.1 ∨ kv.1 + kv.2 < c.1 := by
      intro c hc hne
      have hpos := (ht.free_range hc).1
      have h1 := ht.notAdjacent c hc kv hkv
      have h2 := ht.notAdjacent kv hkv c hc
      by_contra hcon
      push Not at hcon
      rcases Nat.lt_or_ge c.1 kv.1 with hlt | hge
      · have := ht.free_eq_of_covers hc hkv (x := kv.1) ⟨hlt.le, by omega⟩ ⟨le_rfl, by omega⟩
        exact hne (congrArg Prod.fst this)
      · have := ht.free_eq_of_covers hc hkv (x := c.1) ⟨le_rfl, by omega⟩ ⟨hge, by omega⟩
        exact hne (congrArg Prod.fst this)
    rcases hfree_mem a ha with ha' | ha' | ha' <;> rcases hfree_mem b hb with hb' | hb' | hb'
    · omega
    · omega
    · have := hapart b hb'.1 hb'.2
      omega
    · omega
    · omega
    · have := hapart b hb'.1 hb'.2
      omega
    · have := hapart a ha'.1 ha'.2
      omega
    · have := hapart a ha'.1 ha'.2
      omega
    · exact ht.notAdjacent a ha'.1 b hb'.1 hadj
  · have hle := ht.totalSize_add
    have hF := totalSize_perm hfree
    have hO := totalSize_perm hold
    simp only [totalSize_append, totalSize_cons] at hF hO
    have hpieces : totalSize (if size < p.availSize then
          [(p.availAddr + size, p.availSize - size)] else []) +
        totalSize (if p.alignGap ≠ 0 then [(kv.1, p.alignGap)] else []) + size = kv.2 := by
      simp only [totalSize_ite]
      split_ifs <;> omega
    simp only [occupy, ht.available_eq]
    rw [wsub_eq (by omega) (by omega)]
    omega

/-- The requests `malloc` serves without breaking the tiling: those whose size rounds to a
non-zero multiple of the block size, and any request to a heap without a free block. -/
def MallocOk (h : HeapManager w) (size : ℕ) : Prop :=
  (0 < size ∧ size + h.minBlockSize ≤ 2 ^ w) ∨ h.freeList.entries = []

instance (h : HeapManager w) (size : ℕ) : Decidable (h.MallocOk size) :=
  inferInstanceAs (Decidable ((0 < size ∧ size + h.minBlockSize ≤ 2 ^ w) ∨ _))

/-- Rounding to a power of two: a size that does not reach past the type is rounded up. -/
lemma roundup_two_pow {val k : ℕ} (hk : k < w) (h : val + 2 ^ k ≤ 2 ^ w) :
    roundup w val (2 ^ k) = (val + 2 ^ k - 1) / 2 ^ k * 2 ^ k := by
  have h1 : 0 < 2 ^ k := by positivity
  have h2 : 2 ^ k < 2 ^ w := Nat.pow_lt_pow_right (by omega) hk
  have hsum : wsub w (wadd w val (2 ^ k)) 1 = val + 2 ^ k - 1 := by
    rcases h.lt_or_eq with hlt | heq
    · rw [wadd_eq hlt, wsub_eq (by omega) hlt]
    · rw [wadd, heq, Nat.mod_self, wsub_eq_of_lt (by omega) (by omega)]
      omega
  rw [roundup, hsum, wsub_eq h1 h2, and_wnot_two_pow hk.le (by omega)]

/-- A non-zero size that does not reach past the type rounds to a non-zero size. -/
lemma roundup_two_pow_pos {val k : ℕ} (hk : k < w) (hpos : 0 < val) (h : val + 2 ^ k ≤ 2 ^ w) :
    0 < roundup w val (2 ^ k) := by
  have h1 : 0 < 2 ^ k := by positivity
  rw [roundup_two_pow hk h]
  exact Nat.mul_pos (Nat.div_pos (by omega) h1) h1

/-- The block size of a heap that has a range is a power of two. -/
def PowBlock (h : HeapManager w) : Prop := h.length = 0 ∨ ∃ k < w, h.minBlockSize = 2 ^ k

/-- A request that meets its condition rounds to a non-zero size if there is a free block. -/
lemma MallocOk.roundSize_pos {h : HeapManager w} {size : ℕ} (hok : h.MallocOk size)
    (ht : WellTiled h) (hpow : PowBlock h) {kv : ℕ × ℕ} (hkv : kv ∈ h.freeList.entries) :
    0 < h.roundSize size := by
  rcases hok with ⟨hpos, hfit⟩ | hempty
  · rcases hpow with hzero | ⟨k, hk, hblock⟩
    · have := ht.free_range hkv
      omega
    · rw [roundSize, hblock]
      exact roundup_two_pow_pos hk hpos (hblock ▸ hfit)
  · rw [hempty] at hkv
    simp at hkv

/-- `malloc` keeps the heap well tiled. -/
lemma wellTiled_malloc {h h' : HeapManager w} (ht : WellTiled h) (hpow : PowBlock h)
    {size pid addr : ℕ} {allowFail : Bool} (hok : h.MallocOk size)
    (hm : h.malloc size pid allowFail = some (addr, h')) : WellTiled h' := by
  unfold malloc at hm
  simp only at hm
  split at hm
  · next p hp =>
    simp only [Option.some.injEq, Prod.mk.injEq] at hm
    obtain ⟨-, rfl⟩ := hm
    obtain ⟨kv, hkv, hplace⟩ := List.exists_of_findSome?_eq_some hp
    exact wellTiled_place ht hkv hplace (hok.roundSize_pos ht hpow hkv)
  · split at hm
    · simp only [Option.some.injEq, Prod.mk.injEq] at hm
      exact hm.2 ▸ ht
    · simp at hm

/-! ### Release -/

/-- The reads past the end of the free list that `free` makes do not look like a neighbour of the
block: with no free block above, the key read is not its end; with no free block at all, the block
read does not end at its start. -/
def FreeOk (h : HeapManager w) (pastEnd : PastEnd) (addr : ℕ) : Prop :=
  match h.allocList.find? addr with
  | none => True
  | some e =>
    (h.freeList.lowerBound addr = [] → wadd w addr e.length ≠ pastEnd.key) ∧
      (h.freeList.entries = [] → wadd w pastEnd.key pastEnd.size ≠ addr)

instance (h : HeapManager w) (pastEnd : PastEnd) (addr : ℕ) : Decidable (h.FreeOk pastEnd addr) := by
  unfold FreeOk
  cases h.allocList.find? addr <;> infer_instance

/-- `after_block` is the first free block that does not start below the address. -/
lemma afterBlock_eq_some {free : OrderedMap ℕ ℕ} {addr : ℕ} {a : ℕ × ℕ}
    (h : afterBlock free addr = some a) :
    a ∈ free.entries ∧ addr ≤ a.1 ∧ ∀ b ∈ free.entries, addr ≤ b.1 → a.1 ≤ b.1 := by
  cases hl : free.lowerBound addr with
  | nil => simp [afterBlock, hl] at h
  | cons e l =>
    simp only [afterBlock, hl, List.head?_cons, Option.some.injEq] at h
    subst h
    have hmem := OrderedMap.mem_lowerBound.mp (hl ▸ List.mem_cons_self : e ∈ free.lowerBound addr)
    exact ⟨hmem.1, hmem.2, fun b hb hle => OrderedMap.lowerBound_head_le hl hb hle⟩

/-- Without an `after_block` there is no free block from the address on. -/
lemma afterBlock_eq_none {free : OrderedMap ℕ ℕ} {addr : ℕ} (h : afterBlock free addr = none) :
    free.lowerBound addr = [] := List.head?_eq_none_iff.mp h

/-- `prior_block` is the last free block below the address, or else `after_block`. -/
lemma priorBlock_eq_some {free : OrderedMap ℕ ℕ} {addr : ℕ} {p : ℕ × ℕ}
    (h : priorBlock free addr = some p) :
    p ∈ free.entries ∧ ((∀ b ∈ free.entries, b.1 < addr → b.1 ≤ p.1) ∧
      (p.1 < addr ∨ ∀ b ∈ free.entries, addr ≤ b.1)) := by
  unfold priorBlock at h
  split at h
  · next hnil =>
    have hmem := afterBlock_eq_some h
    have hnone : ∀ b ∈ free.entries, addr ≤ b.1 := by
      intro b hb
      by_contra hcon
      have : b ∈ free.before addr := OrderedMap.mem_before.mpr ⟨hb, by omega⟩
      rw [hnil] at this
      simp at this
    exact ⟨hmem.1, fun b hb hlt => absurd (hnone b hb) (by omega), Or.inr hnone⟩
  · have hmem := OrderedMap.mem_before.mp (List.mem_of_getLast? h)
    exact ⟨hmem.1, fun b hb hlt => OrderedMap.le_before_getLast h hb hlt, Or.inl hmem.2⟩

/-- Without a `prior_block` the free list is empty. -/
lemma priorBlock_eq_none {free : OrderedMap ℕ ℕ} {addr : ℕ} (h : priorBlock free addr = none) :
    free.entries = [] := by
  unfold priorBlock at h
  split at h
  · next hnil =>
    refine List.eq_nil_iff_forall_not_mem.mpr fun b hb => ?_
    rcases Nat.lt_or_ge b.1 addr with hlt | hge
    · have : b ∈ free.before addr := OrderedMap.mem_before.mpr ⟨hb, hlt⟩
      rw [hnil] at this
      simp at this
    · have : b ∈ free.lowerBound addr := OrderedMap.mem_lowerBound.mpr ⟨hb, hge⟩
      rw [afterBlock_eq_none h] at this
      simp at this
  · next hne => exact absurd (List.getLast?_eq_none_iff.mp h) hne

/-- `can_merge_prior` holds exactly if a free block ends at the freed one, which is then
`prior_block`. -/
lemma canMergePrior_iff {h : HeapManager w} (ht : WellTiled h) {addr : ℕ} {e : AllocEntry}
    (he : (addr, e) ∈ h.allocList.entries) {pastEnd : PastEnd}
    (hok : h.freeList.entries = [] → wadd w pastEnd.key pastEnd.size ≠ addr) :
    wadd w (readBlock pastEnd (priorBlock h.freeList addr)).1
        (readBlock pastEnd (priorBlock h.freeList addr)).2 = addr ↔
      ∃ p ∈ h.freeList.entries, priorBlock h.freeList addr = some p ∧ p.1 + p.2 = addr := by
  have halloc := ht.alloc_range he
  have hrange := ht.range
  have hlen := ht.length_lt
  cases hp : priorBlock h.freeList addr with
  | none =>
    have := hok (priorBlock_eq_none hp)
    simp [readBlock, this]
  | some p =>
    obtain ⟨hmem, -, -⟩ := priorBlock_eq_some hp
    have hfree := ht.free_range hmem
    simp only [readBlock, Option.getD_some, Option.some.injEq]
    constructor
    · intro hadd
      refine ⟨p, hmem, rfl, ?_⟩
      rcases (show p.1 + p.2 ≤ 2 ^ w by omega).lt_or_eq with hlt | heq
      · rwa [wadd_eq hlt] at hadd
      · -- a block that ends at the end of the type wraps to address zero
        rw [wadd, heq, Nat.mod_self] at hadd
        omega
    · rintro ⟨q, -, rfl, hq⟩
      rw [wadd_eq (by omega), hq]

/-- A free block that ends at the freed one is `prior_block`. -/
lemma priorBlock_of_adjacent {h : HeapManager w} (ht : WellTiled h) {addr : ℕ} {b : ℕ × ℕ}
    (hb : b ∈ h.freeList.entries) (hadj : b.1 + b.2 = addr) :
    priorBlock h.freeList addr = some b := by
  have hpos := (ht.free_range hb).1
  cases hp : priorBlock h.freeList addr with
  | none =>
    rw [priorBlock_eq_none hp] at hb
    simp at hb
  | some p =>
    obtain ⟨hmem, hmax, hside⟩ := priorBlock_eq_some hp
    have hle := hmax b hb (by omega)
    have hlt : p.1 < addr := by
      rcases hside with h1 | h1
      · exact h1
      · have := h1 b hb
        omega
    have hppos := (ht.free_range hmem).1
    exact congrArg some (ht.free_eq_of_covers hmem hb (x := p.1) ⟨le_rfl, by omega⟩ ⟨hle, by omega⟩)

/-- `can_merge_after` holds exactly if a free block starts at the end of the freed one, which is
then `after_block`. -/
lemma canMergeAfter_iff {h : HeapManager w} (ht : WellTiled h) {addr : ℕ} {e : AllocEntry}
    (he : (addr, e) ∈ h.allocList.entries) {pastEnd : PastEnd}
    (hok : h.freeList.lowerBound addr = [] → wadd w addr e.length ≠ pastEnd.key) :
    wadd w addr e.length = (readBlock pastEnd (afterBlock h.freeList addr)).1 ↔
      ∃ a ∈ h.freeList.entries, afterBlock h.freeList addr = some a ∧ a.1 = addr + e.length := by
  have halloc := ht.alloc_range he
  have hrange := ht.range
  have hlen := ht.length_lt
  cases ha : afterBlock h.freeList addr with
  | none =>
    have := hok (afterBlock_eq_none ha)
    simp [readBlock, this]
  | some a =>
    obtain ⟨hmem, hle, -⟩ := afterBlock_eq_some ha
    have hfree := ht.free_range hmem
    simp only [readBlock, Option.getD_some, Option.some.injEq]
    constructor
    · intro hadd
      refine ⟨a, hmem, rfl, ?_⟩
      rcases (show addr + e.length ≤ 2 ^ w by omega).lt_or_eq with hlt | heq
      · rw [wadd_eq hlt] at hadd
        exact hadd.symm
      · rw [wadd, heq, Nat.mod_self] at hadd
        omega
    · rintro ⟨q, -, rfl, hq⟩
      rw [wadd_eq (by omega), hq]

/-- A free block that starts at the end of the freed one is `after_block`. -/
lemma afterBlock_of_adjacent {h : HeapManager w} (ht : WellTiled h) {addr : ℕ} {e : AllocEntry}
    (he : (addr, e) ∈ h.allocList.entries) {b : ℕ × ℕ} (hb : b ∈ h.freeList.entries)
    (hadj : b.1 = addr + e.length) : afterBlock h.freeList addr = some b := by
  have hpos := (ht.free_range hb).1
  cases ha : afterBlock h.freeList addr with
  | none =>
    have : b ∈ h.freeList.lowerBound addr := OrderedMap.mem_lowerBound.mpr ⟨hb, by omega⟩
    rw [afterBlock_eq_none ha] at this
    simp at this
  | some a =>
    obtain ⟨hmem, hle, hmin⟩ := afterBlock_eq_some ha
    have hmin' := hmin b hb (by omega)
    have hapos := (ht.free_range hmem).1
    by_cases hlt : a.1 < addr + e.length
    · exact (ht.not_free_and_alloc hmem he (x := a.1) ⟨le_rfl, by omega⟩ ⟨hle, hlt⟩).elim
    · have hstart : a.1 = b.1 := by omega
      exact congrArg some (OrderedMap.eq_of_mem_of_key_eq hmem hb hstart)

/-- What `free` does to the free list: the freed block is joined with the free block `P` that ends
at its start and the free block `A` that starts at its end, and the others `R` stay. -/
lemma mergeBlock_spec {h : HeapManager w} (ht : WellTiled h) {addr : ℕ} {e : AllocEntry}
    (he : (addr, e) ∈ h.allocList.entries) {pastEnd : PastEnd} (hok : h.FreeOk pastEnd addr) :
    ∃ (P A R : List Block) (n m : ℕ),
      h.freeList.entries.Perm (P ++ (A ++ R)) ∧
      (mergeBlock w h.freeList pastEnd addr e.length).entries.Perm ((n, m) :: R) ∧
      ((P = [] ∧ n = addr ∧ ∀ b ∈ h.freeList.entries, b.1 + b.2 ≠ addr) ∨
        ∃ p, P = [p] ∧ n = p.1 ∧ p.1 + p.2 = addr) ∧
      ((A = [] ∧ n + m = addr + e.length ∧ ∀ b ∈ h.freeList.entries, b.1 ≠ addr + e.length) ∨
        ∃ a, A = [a] ∧ a.1 = addr + e.length ∧ n + m = a.1 + a.2) := by
  have halloc := ht.alloc_range he
  have hrange := ht.range
  have hlen := ht.length_lt
  simp only [FreeOk, OrderedMap.find?_eq_some_iff.mpr he] at hok
  have hprior := canMergePrior_iff ht he hok.2
  have hafter := canMergeAfter_iff ht he hok.1
  have hfresh : ∀ v, (addr, v) ∉ h.freeList.entries := by
    intro v hv
    have hpos := (ht.free_range hv).1
    exact ht.not_free_and_alloc hv he (x := addr) ⟨le_rfl, by simp only; omega⟩
      ⟨le_rfl, by simp only; omega⟩
  unfold mergeBlock
  by_cases hp : ∃ p ∈ h.freeList.entries, priorBlock h.freeList addr = some p ∧ p.1 + p.2 = addr <;>
    by_cases ha : ∃ a ∈ h.freeList.entries,
      afterBlock h.freeList addr = some a ∧ a.1 = addr + e.length
  · -- joined on both sides
    have hp' := hprior.mpr hp
    have ha' := hafter.mpr ha
    obtain ⟨p, hpmem, hpb, hpadj⟩ := hp
    obtain ⟨a, hamem, hab, haadj⟩ := ha
    have hpr := ht.free_range hpmem
    have har := ht.free_range hamem
    have hne : a.1 ≠ p.1 := by omega
    have hamem' : a ∈ (h.freeList.erase p.1).entries := OrderedMap.mem_erase.mpr ⟨hamem, hne⟩
    refine ⟨[p], [a], ((h.freeList.erase p.1).erase a.1).entries, p.1, p.2 + (e.length + a.2), ?_, ?_,
      Or.inr ⟨p, rfl, rfl, hpadj⟩, Or.inr ⟨a, rfl, haadj, by omega⟩⟩
    · exact (OrderedMap.erase_perm hpmem).trans ((OrderedMap.erase_perm hamem').cons p)
    · simp only [if_pos hp', if_pos ha']
      simp only [hpb, hab, readBlock, Option.getD_some]
      rw [wadd_eq (b := a.2) (by omega), wadd_eq (by omega)]
      have hins := h.freeList.insert_perm p.1 (p.2 + (e.length + a.2))
      have hmem : a ∈ (h.freeList.insert p.1 (p.2 + (e.length + a.2))).entries :=
        OrderedMap.mem_insert.mpr (Or.inr ⟨hamem, hne⟩)
      have h1 := (OrderedMap.erase_perm hmem).symm.trans
        (hins.trans ((OrderedMap.erase_perm hamem').cons _))
      exact List.Perm.cons_inv (h1.trans (List.Perm.swap _ _ _))
  · -- joined with the block below
    have hp' := hprior.mpr hp
    have ha' := mt hafter.mp ha
    obtain ⟨p, hpmem, hpb, hpadj⟩ := hp
    have hpr := ht.free_range hpmem
    refine ⟨[p], [], (h.freeList.erase p.1).entries, p.1, p.2 + e.length, ?_, ?_,
      Or.inr ⟨p, rfl, rfl, hpadj⟩, Or.inl ⟨rfl, by omega, ?_⟩⟩
    · exact OrderedMap.erase_perm hpmem
    · simp only [if_pos hp', if_neg ha']
      simp only [hpb]
      rw [wadd_eq (by omega)]
      exact h.freeList.insert_perm _ _
    · exact fun b hb hadj => ha ⟨b, hb, afterBlock_of_adjacent ht he hb hadj, hadj⟩
  · -- joined with the block above
    have hp' := mt hprior.mp hp
    have ha' := hafter.mpr ha
    obtain ⟨a, hamem, hab, haadj⟩ := ha
    have har := ht.free_range hamem
    refine ⟨[], [a], (h.freeList.erase a.1).entries, addr, e.length + a.2, ?_, ?_,
      Or.inl ⟨rfl, rfl, ?_⟩, Or.inr ⟨a, rfl, haadj, by omega⟩⟩
    · exact OrderedMap.erase_perm hamem
    · simp only [if_neg hp', if_pos ha']
      simp only [hab, readBlock, Option.getD_some]
      rw [wadd_eq (by omega)]
      have hins := OrderedMap.insert_perm_of_not_mem hfresh (e.length + a.2)
      have hmem : a ∈ (h.freeList.insert addr (e.length + a.2)).entries :=
        OrderedMap.mem_insert.mpr (Or.inr ⟨hamem, by omega⟩)
      have h1 := (OrderedMap.erase_perm hmem).symm.trans
        (hins.trans ((OrderedMap.erase_perm hamem).cons _))
      exact List.Perm.cons_inv (h1.trans (List.Perm.swap _ _ _))
    · exact fun b hb hadj => hp ⟨b, hb, priorBlock_of_adjacent ht hb hadj, hadj⟩
  · -- a block of its own
    have hp' := mt hprior.mp hp
    have ha' := mt hafter.mp ha
    refine ⟨[], [], h.freeList.entries, addr, e.length, List.Perm.refl _, ?_,
      Or.inl ⟨rfl, rfl, ?_⟩, Or.inl ⟨rfl, rfl, ?_⟩⟩
    · simp only [if_neg hp', if_neg ha']
      exact OrderedMap.insert_perm_of_not_mem hfresh _
    · exact fun b hb hadj => hp ⟨b, hb, priorBlock_of_adjacent ht hb hadj, hadj⟩
    · exact fun b hb hadj => ha ⟨b, hb, afterBlock_of_adjacent ht he hb hadj, hadj⟩

/-- `free` keeps the heap well tiled. -/
lemma wellTiled_free {h : HeapManager w} (ht : WellTiled h) {pastEnd : PastEnd} {addr : ℕ}
    (hok : h.FreeOk pastEnd addr) : WellTiled (h.free pastEnd addr).2 := by
  unfold free
  cases hf : h.allocList.find? addr with
  | none => exact ht
  | some e =>
    have he := OrderedMap.find?_eq_some_iff.mp hf
    have halloc := ht.alloc_range he
    have hrange := ht.range
    have hlen := ht.length_lt
    obtain ⟨P, A, R, n, m, hold, hnew, hP, hA⟩ := mergeBlock_spec ht he hok
    have hR : ∀ b ∈ R, b ∈ h.freeList.entries := fun b hb =>
      hold.mem_iff.mpr (List.mem_append_right _ (List.mem_append_right _ hb))
    have hallocPerm := (OrderedMap.erase_perm he).map fun e : ℕ × AllocEntry => (e.1, e.2.length)
    have hjoin : n ≤ addr ∧ addr + e.length ≤ n + m := by
      rcases hP with ⟨-, hn, -⟩ | ⟨p, -, hn, hp⟩ <;>
        rcases hA with ⟨-, hnm, -⟩ | ⟨a, -, ha, hnm⟩ <;> omega
    refine ⟨ht.range, ht.length_lt, ht.tiling.congr ?_ ?_, ?_, ?_⟩
    · intro b hb
      rcases List.mem_append.mp hb with hb | hb
      · rcases List.mem_cons.mp (hnew.mem_iff.mp hb) with rfl | hb
        · simp only
          omega
        · exact (ht.free_range (hR b hb)).1
      · obtain ⟨f, hf, rfl⟩ := List.mem_map.mp hb
        exact (ht.alloc_range (OrderedMap.mem_erase.mp hf).1).1
    · intro x
      have hO := coverCount_perm hold x
      have hN := coverCount_perm hnew x
      have hB := coverCount_perm hallocPerm x
      simp only [List.map_cons, coverCount_cons, coverCount_append] at hO hN hB
      simp only [blocks, coverCount_append, hN, hB, hO]
      rcases hP with ⟨rfl, rfl, -⟩ | ⟨p, rfl, rfl, hp⟩ <;>
        rcases hA with ⟨rfl, hA, -⟩ | ⟨a, rfl, ha, hA⟩ <;>
        simp only [coverCount_cons, coverCount_nil] <;> split_ifs <;> omega
    · -- the new block touches no free block: a neighbour would have been joined
      have hcases : ∀ b ∈ R, b.1 + b.2 ≠ n ∧ n + m ≠ b.1 := by
        intro b hb
        constructor
        · rcases hP with ⟨-, rfl, hnone⟩ | ⟨p, rfl, rfl, -⟩
          · exact hnone b (hR b hb)
          · exact ht.notAdjacent b (hR b hb) p (hold.mem_iff.mpr (by simp))
        · rcases hA with ⟨-, hA, hnone⟩ | ⟨a, rfl, -, hA⟩
          · exact fun hcon => hnone b (hR b hb) (by omega)
          · have := ht.notAdjacent a (hold.mem_iff.mpr (by simp)) b (hR b hb)
            omega
      intro b hb c hc
      rcases List.mem_cons.mp (hnew.mem_iff.mp hb) with rfl | hb <;>
        rcases List.mem_cons.mp (hnew.mem_iff.mp hc) with rfl | hc
      · simp only
        omega
      · exact (hcases c hc).2
      · exact (hcases b hb).1
      · exact ht.notAdjacent b (hR b hb) c (hR c hc)
    · have hsum := ht.totalSize_add
      have hO := totalSize_perm hold
      have hN := totalSize_perm hnew
      have hB := totalSize_perm hallocPerm
      simp only [totalSize_append, totalSize_cons, List.map_cons] at hO hN hB
      have hpieces : totalSize P + totalSize A + e.length = m := by
        rcases hP with ⟨rfl, hn, -⟩ | ⟨p, rfl, hn, hp⟩ <;>
          rcases hA with ⟨rfl, hnm, -⟩ | ⟨a, rfl, ha, hnm⟩ <;>
          simp only [totalSize_cons, totalSize_nil] <;> omega
      simp only [ht.available_eq]
      rw [wadd_eq (by omega)]
      omega

end HeapManager

end TiOpenCL
