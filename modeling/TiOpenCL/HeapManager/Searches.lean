import Mathlib.Data.Nat.Log
import TiOpenCL.SharedMemory.Provider

/-!
# What the searches of the heap manager find

`malloc` walks the free list in the order of the addresses and looks at the first aligned address of
each free block, `max_block_size` looks for the largest free block, and `free` looks for the free
blocks next to an address.  The first search is complete and finds the lowest address.  The second
one does not know of the rounding and the alignment of `malloc`, and the third one reads a neighbour
where there is none.

Nothing is asked of the calls that led to a state but that its numbers are words (`Words`).
-/

namespace TiOpenCL

namespace HeapManager

/-! ### The first aligned address -/

/-- The first multiple that is not below a number. -/
def alignUp (k d : ℕ) : ℕ := (k + d - 1) / d * d

/-- It is a multiple. -/
lemma dvd_alignUp (k d : ℕ) : d ∣ alignUp k d := Dvd.intro_left _ rfl

/-- It is not below the number. -/
lemma le_alignUp {d : ℕ} (k : ℕ) (hd : 0 < d) : k ≤ alignUp k d := by
  have hdiv := Nat.div_add_mod (k + d - 1) d
  have hmod := Nat.mod_lt (k + d - 1) hd
  rw [Nat.mul_comm] at hdiv
  unfold alignUp
  omega

/-- No multiple from the number on is below it. -/
lemma alignUp_le {k d a : ℕ} (hd : 0 < d) (hdvd : d ∣ a) (hka : k ≤ a) : alignUp k d ≤ a := by
  obtain ⟨m, rfl⟩ := hdvd
  rw [alignUp, Nat.mul_comm d m]
  refine Nat.mul_le_mul_right _ ?_
  rw [Nat.div_le_iff_le_mul_add_pred hd]
  omega

/-- A multiple is its own first multiple. -/
lemma alignUp_eq_self_iff {k d : ℕ} (hd : 0 < d) : alignUp k d = k ↔ d ∣ k := by
  constructor
  · intro h
    rw [← h]
    exact dvd_alignUp k d
  · intro h
    exact le_antisymm (alignUp_le hd h le_rfl) (le_alignUp k hd)

variable {w : ℕ}

/-- `roundup` finds the first multiple, which may be just past the type. -/
lemma roundup_eq_alignUp {j k : ℕ} (hj : j < w) (hk : k < 2 ^ w) :
    roundup w k (2 ^ j) = alignUp k (2 ^ j) % 2 ^ w := by
  have hpos : 0 < 2 ^ j := by positivity
  have hjw : 2 ^ j < 2 ^ w := Nat.pow_lt_pow_right (by omega) hj
  rcases Nat.lt_or_ge (2 ^ w) (k + 2 ^ j) with hwrap | hfit
  · have hsum : wsub w (wadd w k (2 ^ j)) 1 = k + 2 ^ j - 2 ^ w - 1 := by
      have hadd : wadd w k (2 ^ j) = k + 2 ^ j - 2 ^ w := by
        rw [wadd, Nat.mod_eq_sub_mod hwrap.le, Nat.mod_eq_of_lt (by omega)]
      rw [hadd, wsub_eq (by omega) (by omega)]
    have hzero : roundup w k (2 ^ j) = 0 := by
      rw [roundup, hsum, wsub_eq hpos hjw, and_wnot_two_pow hj.le (by omega),
        Nat.div_eq_of_lt (by omega), Nat.zero_mul]
    have htop : alignUp k (2 ^ j) = 2 ^ w := by
      refine le_antisymm (alignUp_le hpos (pow_dvd_pow 2 hj.le) hk.le) ?_
      by_contra hlt
      have hle := add_le_of_dvd (dvd_alignUp k (2 ^ j)) (pow_dvd_pow 2 hj.le) (not_le.mp hlt)
      have hge := le_alignUp k hpos
      omega
    rw [hzero, htop, Nat.mod_self]
  · have hround : roundup w k (2 ^ j) = alignUp k (2 ^ j) := roundup_two_pow hj hfit
    rw [← hround, Nat.mod_eq_of_lt (roundup_lt _ _ _)]

/-- `next_power_of_two` of a size below a power of two is the least power of two that is not below
the size. -/
lemma nextPowerOfTwo_eq {m k : ℕ} (hm : m < w) (hk : k < 2 ^ m) :
    nextPowerOfTwo w k = 2 ^ Nat.clog 2 k := by
  have hmw : 2 ^ m < 2 ^ w := Nat.pow_lt_pow_right (by omega) hm
  unfold nextPowerOfTwo
  split
  · next h0 => rw [h0, Nat.clog_zero_right, pow_zero]
  · next h0 =>
    have hsize : (k - 1).size = Nat.clog 2 k := by
      refine eq_of_forall_ge_iff fun n => ?_
      rw [Nat.size_le, Nat.clog_le_iff_le_pow (by omega)]
      omega
    have hle : (k - 1).size ≤ m := Nat.size_le.mpr (by omega)
    have hlt : 2 ^ (k - 1).size < 2 ^ w := Nat.pow_lt_pow_right (by omega) (by omega)
    have hpos : 0 < 2 ^ (k - 1).size := by positivity
    rw [wsub_eq (by omega) (by omega), smearBits_eq (by omega), wadd_eq (by omega), ← hsize]
    omega

/-! ### The search of `malloc` -/

/-- The request is placed in a free block exactly when it fits from the first aligned address on, and
at that address. -/
lemma place_eq {j size : ℕ} {kv : ℕ × ℕ} (hj : j < w) (hk : kv.1 < 2 ^ w) (hsize : 0 < size) :
    (∀ p, place w (2 ^ j) size kv = some p →
      p.availAddr = alignUp kv.1 (2 ^ j) % 2 ^ w) ∧
    ((place w (2 ^ j) size kv).isSome ↔ alignUp kv.1 (2 ^ j) + size ≤ kv.1 + kv.2) := by
  have hd : 0 < 2 ^ j := by positivity
  have hle := le_alignUp kv.1 hd
  have htop : alignUp kv.1 (2 ^ j) ≤ 2 ^ w := alignUp_le hd (pow_dvd_pow 2 hj.le) hk.le
  have hround := roundup_eq_alignUp hj hk
  -- the gap is the same whether or not the first aligned address is just past the type
  have hgap : wsub w (roundup w kv.1 (2 ^ j)) kv.1 = alignUp kv.1 (2 ^ j) - kv.1 := by
    rcases htop.lt_or_eq with hlt | heq
    · rw [hround, Nat.mod_eq_of_lt hlt, wsub_eq hle hlt]
    · have hpos : 0 < kv.1 := by
        refine Nat.pos_of_ne_zero fun h0 => ?_
        rw [h0, (alignUp_eq_self_iff hd).mpr (Nat.dvd_zero _)] at heq
        exact absurd heq (by positivity)
      rw [hround, heq, Nat.mod_self, wsub_eq_of_lt hpos hk, Nat.zero_add]
  constructor
  · intro p hp
    unfold place at hp
    simp only [Option.ite_none_left_eq_some, Option.some.injEq] at hp
    obtain ⟨-, rfl⟩ := hp
    exact hround
  · unfold place
    simp only [hgap]
    split
    · next hroom =>
      split
      · next hsmall => simp only [Option.isSome_none, Bool.false_eq_true, false_iff]; omega
      · next hfits => simp only [Option.isSome_some, true_iff]; omega
    · next hroom =>
      simp only [Option.isSome_none, Bool.false_eq_true, false_iff]
      omega

/-- An aligned address of a free block with room for a request from there on. -/
def Room (h : HeapManager w) (align size a : ℕ) : Prop :=
  a < 2 ^ w ∧ align ∣ a ∧ ∃ kv ∈ h.freeList.entries, kv.1 ≤ a ∧ a + size ≤ kv.1 + kv.2

/-- The numbers of the heap are words. -/
structure Words (h : HeapManager w) : Prop where
  freeList : ∀ kv ∈ h.freeList.entries, kv.1 < 2 ^ w ∧ kv.2 < 2 ^ w
  allocList : ∀ e ∈ h.allocList.entries, e.1 < 2 ^ w ∧ e.2.length < 2 ^ w

/-- The first aligned addresses of two free blocks are in the order of the blocks. -/
lemma alignUp_mono {k k' d : ℕ} (h : k ≤ k') : alignUp k d ≤ alignUp k' d := by
  unfold alignUp
  exact Nat.mul_le_mul_right _ (Nat.div_le_div_right (by omega))

/-- No free block of the heap is at address zero. -/
lemma pos_of_find?_zero {h : HeapManager w} (hzero : h.freeList.find? 0 = none) {kv : ℕ × ℕ}
    (hkv : kv ∈ h.freeList.entries) : 0 < kv.1 := by
  refine Nat.pos_of_ne_zero fun h0 => ?_
  exact OrderedMap.find?_eq_none_iff.mp hzero kv.2 (h0 ▸ hkv)

/-- If the search finds nothing there is no room. -/
lemma not_room_of_findSome?_eq_none {h : HeapManager w} {j size a : ℕ} (hj : j < w) (hw : Words h)
    (hsize : 0 < size)
    (hfind : h.freeList.entries.findSome? (place w (2 ^ j) size) = none) :
    ¬h.Room (2 ^ j) size a := by
  rintro ⟨-, hdvd, kv, hkv, hle, hroom⟩
  have hnone := List.findSome?_eq_none_iff.mp hfind kv hkv
  have hiff := (place_eq hj (hw.freeList kv hkv).1 hsize).2
  rw [hnone] at hiff
  have hup := alignUp_le (by positivity) hdvd hle
  exact absurd (hiff.mpr (by omega)) (by simp)

/-- The address that the search finds is the lowest one with room; it is zero if that is just past
the type. -/
lemma room_of_findSome?_eq_some {h : HeapManager w} {j size : ℕ} {p : Placement} (hj : j < w)
    (hw : Words h) (hzero : h.freeList.find? 0 = none) (hsize : 0 < size)
    (hfind : h.freeList.entries.findSome? (place w (2 ^ j) size) = some p) :
    p.availAddr = 0 ∧ (∀ a, ¬h.Room (2 ^ j) size a) ∨
      p.availAddr ≠ 0 ∧ h.Room (2 ^ j) size p.availAddr ∧
        ∀ a, h.Room (2 ^ j) size a → p.availAddr ≤ a := by
  have hd : 0 < 2 ^ j := by positivity
  have hplace : ∀ kv ∈ h.freeList.entries, _ := fun kv hkv =>
    place_eq hj (hw.freeList kv hkv).1 hsize
  obtain ⟨l₁, kv, l₂, hentries, hp, hnone⟩ := List.findSome?_eq_some_iff.mp hfind
  have hkv : kv ∈ h.freeList.entries := by
    rw [hentries]
    simp
  obtain ⟨haddr, hiff⟩ := hplace kv hkv
  have hroom := hiff.mp (by rw [hp]; rfl)
  -- a block with room is not before the one that was found
  have hlow : ∀ a, h.Room (2 ^ j) size a → alignUp kv.1 (2 ^ j) ≤ a := by
    rintro a ⟨-, hdvd, kv', hkv', hle, hroom'⟩
    have hup := alignUp_le hd hdvd hle
    rcases List.mem_append.mp (hentries ▸ hkv') with hbefore | hafter
    · have hiff' := (hplace kv' hkv').2
      rw [hnone kv' hbefore] at hiff'
      exact absurd (hiff'.mpr (by omega)) (by simp)
    · have hsorted := h.freeList.sorted
      rw [hentries] at hsorted
      have hkk : kv.1 ≤ kv'.1 := by
        rcases List.mem_cons.mp hafter with rfl | hlater
        · exact le_rfl
        · have hcons := (List.pairwise_append.mp hsorted).2.1
          exact ((List.pairwise_cons.mp hcons).1 kv' hlater).le
      exact (alignUp_mono hkk).trans hup
  have htop : alignUp kv.1 (2 ^ j) ≤ 2 ^ w :=
    alignUp_le hd (pow_dvd_pow 2 hj.le) (hw.freeList kv hkv).1.le
  have hge := le_alignUp kv.1 hd
  have hkpos := pos_of_find?_zero hzero hkv
  rw [haddr p hp]
  rcases htop.lt_or_eq with hlt | heq
  · right
    rw [Nat.mod_eq_of_lt hlt]
    exact ⟨by omega, ⟨hlt, dvd_alignUp _ _, kv, hkv, hge, hroom⟩, hlow⟩
  · left
    rw [heq, Nat.mod_self]
    refine ⟨rfl, fun a ha => ?_⟩
    have hle := hlow a ha
    have hlt := ha.1
    omega

/-! ### Every state has words -/

/-- A configured heap has words. -/
lemma words_config (cfg : Config w) : Words cfg.heap := by
  have hconf : Words ((constructed : HeapManager w).configure cfg.startAddr cfg.length
      (2 ^ cfg.blockLog)) := by
    unfold configure
    split
    · constructor
      · intro kv hkv
        rcases OrderedMap.mem_insert.mp hkv with rfl | ⟨hmem, -⟩
        · exact ⟨cfg.startAddr_lt, cfg.length_lt⟩
        · cases hmem
      · intro e he
        cases he
    · constructor
      · intro kv hkv
        cases hkv
      · intro e he
        cases he
  unfold Config.heap
  cases cfg.maxAlignLog with
  | none => exact hconf
  | some k =>
    simp only [setAdditionalAlignmentRequirements]
    split
    · exact ⟨hconf.freeList, hconf.allocList⟩
    · exact hconf

/-- The numbers of a placement. -/
lemma place_lt {align size : ℕ} {kv : ℕ × ℕ} {p : Placement} (hp : place w align size kv = some p) :
    p.block = kv.1 ∧ p.alignGap < 2 ^ w ∧ p.availAddr < 2 ^ w ∧ p.availSize ≤ kv.2 := by
  unfold place at hp
  simp only [Option.ite_none_left_eq_some, Option.some.injEq] at hp
  obtain ⟨-, rfl⟩ := hp
  refine ⟨rfl, wsub_lt _ _ _, roundup_lt _ _ _, ?_⟩
  dsimp only
  split
  · exact Nat.sub_le _ _
  · exact Nat.zero_le _

/-- The free list after a placement has words. -/
lemma Words.carve {h : HeapManager w} (hw : Words h) {align size : ℕ} {kv : ℕ × ℕ} {p : Placement}
    (hkv : kv ∈ h.freeList.entries) (hp : place w align size kv = some p) :
    ∀ b ∈ (HeapManager.carve h.freeList w p size).entries, b.1 < 2 ^ w ∧ b.2 < 2 ^ w := by
  have hkvw := hw.freeList kv hkv
  obtain ⟨hblock, hgap, -, havail⟩ := place_lt hp
  have hfront : ∀ b ∈ (if p.alignGap ≠ 0 then h.freeList.insert p.block p.alignGap
      else h.freeList.erase p.block).entries, b.1 < 2 ^ w ∧ b.2 < 2 ^ w := by
    intro b hb
    split at hb
    · rcases OrderedMap.mem_insert.mp hb with rfl | ⟨hmem, -⟩
      · rw [hblock]
        exact ⟨hkvw.1, hgap⟩
      · exact hw.freeList b hmem
    · exact hw.freeList b (OrderedMap.mem_erase.mp hb).1
  intro b hb
  rw [HeapManager.carve] at hb
  by_cases hrest : size < p.availSize
  · rw [if_pos hrest] at hb
    rcases OrderedMap.mem_insert.mp hb with rfl | ⟨hmem, -⟩
    · exact ⟨wadd_lt _ _ _, by dsimp only; omega⟩
    · exact hfront b hmem
  · rw [if_neg hrest] at hb
    exact hfront b hb

/-- `malloc` keeps the words. -/
lemma Words.malloc {h h' : HeapManager w} (hw : Words h) {size pid addr : ℕ} {allowFail : Bool}
    (hm : h.malloc size pid allowFail = some (addr, h')) : Words h' := by
  rcases malloc_cases hm with ⟨-, kv, hkv, p, hplace, rfl, rfl⟩ | ⟨-, -, rfl⟩
  · refine ⟨hw.carve hkv hplace, fun e he => ?_⟩
    rcases OrderedMap.mem_insert.mp he with rfl | ⟨hmem, -⟩
    · exact ⟨(place_lt hplace).2.2.1, roundup_lt _ _ _⟩
    · exact hw.allocList e hmem
  · exact hw

/-- The free list after a release has words, whatever is read past its end. -/
lemma Words.mergeBlock {h : HeapManager w} (hw : Words h) (pastEnd : PastEnd) {addr size : ℕ}
    (haddr : addr < 2 ^ w) (hsize : size < 2 ^ w) :
    ∀ b ∈ (HeapManager.mergeBlock w h.freeList pastEnd addr size).entries,
      b.1 < 2 ^ w ∧ b.2 < 2 ^ w := by
  have hinsert : ∀ {k v : ℕ}, k < 2 ^ w → v < 2 ^ w →
      ∀ b ∈ (h.freeList.insert k v).entries, b.1 < 2 ^ w ∧ b.2 < 2 ^ w := by
    intro k v hk hv b hb
    rcases OrderedMap.mem_insert.mp hb with rfl | ⟨hmem, -⟩
    · exact ⟨hk, hv⟩
    · exact hw.freeList b hmem
  unfold HeapManager.mergeBlock
  extract_lets after prior p a canMergePrior canMergeAfter size' free
  have hsize' : size' < 2 ^ w := by
    unfold size'
    split
    · exact wadd_lt _ _ _
    · exact hsize
  have hfree : ∀ b ∈ free.entries, b.1 < 2 ^ w ∧ b.2 < 2 ^ w := by
    unfold free
    split
    · cases hq : prior with
      | some q => exact hinsert (hw.freeList q (priorBlock_eq_some hq).1).1 (wadd_lt _ _ _)
      | none => exact hw.freeList
    · exact hinsert haddr hsize'
  split
  · cases after with
    | some q => exact fun b hb => hfree b (OrderedMap.mem_erase.mp hb).1
    | none => exact hfree
  · exact hfree

/-- `free` keeps the words, whatever it reads past the end. -/
lemma Words.free {h : HeapManager w} (hw : Words h) (pastEnd : PastEnd) (addr : ℕ) :
    Words (h.free pastEnd addr).2 := by
  unfold HeapManager.free
  cases hfind : h.allocList.find? addr with
  | none => exact hw
  | some e =>
    obtain ⟨haddr, hlen⟩ := hw.allocList _ (OrderedMap.find?_eq_some_iff.mp hfind)
    refine ⟨hw.mergeBlock pastEnd haddr hlen, fun e' he' => ?_⟩
    exact hw.allocList e' (OrderedMap.mem_erase.mp he').1

/-- What holds in every state that a configured heap reaches, whatever the calls are. -/
structure Reached (cfg : Config w) (h : HeapManager w) : Prop where
  words : Words h
  settings : h.settings = cfg.heap.settings
  unconfigured : h.length = 0 → h.freeList.entries = [] ∧ h.allocList.entries = []

/-- A configured heap. -/
lemma reached_config (cfg : Config w) : Reached cfg cfg.heap := by
  refine ⟨words_config cfg, rfl, fun hzero => ?_⟩
  rw [(config_range cfg).1] at hzero
  have hnot : ¬((constructed : HeapManager w).length = 0 ∧ 0 < cfg.length) := by
    rintro ⟨-, hpos⟩
    omega
  unfold Config.heap
  rw [configure, if_neg hnot]
  cases cfg.maxAlignLog with
  | none => exact ⟨rfl, rfl⟩
  | some k =>
    simp only [setAdditionalAlignmentRequirements]
    split <;> exact ⟨rfl, rfl⟩

namespace Reached

variable {cfg : Config w} {h h' : HeapManager w}

/-- `malloc` keeps it. -/
lemma malloc (hr : Reached cfg h) {size pid addr : ℕ} {allowFail : Bool}
    (hm : h.malloc size pid allowFail = some (addr, h')) : Reached cfg h' := by
  refine ⟨hr.words.malloc hm, (malloc_settings hm).trans hr.settings, fun hzero => ?_⟩
  rw [(malloc_config hm).1] at hzero
  have hempty := hr.unconfigured hzero
  rcases malloc_cases hm with ⟨-, kv, hkv, -⟩ | ⟨-, -, rfl⟩
  · rw [hempty.1] at hkv
    cases hkv
  · exact hempty

/-- `free` keeps it. -/
lemma free (hr : Reached cfg h) (pastEnd : PastEnd) (addr : ℕ) :
    Reached cfg (h.free pastEnd addr).2 := by
  refine ⟨hr.words.free pastEnd addr, (free_settings h pastEnd addr).trans hr.settings, ?_⟩
  intro hzero
  rw [(free_config h pastEnd addr).1] at hzero
  have hempty := hr.unconfigured hzero
  unfold HeapManager.free
  cases hfind : h.allocList.find? addr with
  | none => exact hempty
  | some e =>
    have hmem := OrderedMap.find?_eq_some_iff.mp hfind
    rw [hempty.2] at hmem
    cases hmem

/-- Every call keeps it. -/
lemma step (hr : Reached cfg h) {op : Op} (hs : h.step op = some h') : Reached cfg h' := by
  cases op with
  | malloc size pid allowFail =>
    obtain ⟨⟨addr, h₁⟩, hm, rfl⟩ := Option.map_eq_some_iff.mp hs
    exact hr.malloc hm
  | free addr pastEnd =>
    obtain rfl := Option.some.inj hs
    exact hr.free pastEnd addr
  | freeAllPid pid frees =>
    simp only [HeapManager.step, Option.ite_none_right_eq_some, Option.some.injEq] at hs
    obtain ⟨-, rfl⟩ := hs
    unfold freeEach
    induction frees generalizing h with
    | nil => exact hr
    | cons f fs ih => exact ih (hr.free f.2 f.1)

/-- Every run keeps it. -/
lemma run (hr : Reached cfg h) {ops : List Op} (hrun : h.run ops = some h') : Reached cfg h' := by
  induction ops generalizing h with
  | nil =>
    obtain rfl := Option.some.inj hrun
    exact hr
  | cons op ops ih =>
    simp only [HeapManager.run, List.foldlM_cons, Option.bind_eq_bind,
      Option.bind_eq_some_iff] at hrun
    obtain ⟨h₁, hs, hrest⟩ := hrun
    exact ih (hr.step hs) hrest

/-- A state with a free block has a range and a block size that is a power of two. -/
lemma minBlockSize_eq (hr : Reached cfg h) (hne : h.freeList.entries ≠ []) :
    ∃ k < w, h.minBlockSize = 2 ^ k := by
  have hs := hr.settings
  simp only [HeapManager.settings, Prod.mk.injEq] at hs
  have hpow := powBlock_config cfg
  rw [PowBlock, ← hs.2.1, ← hs.2.2.1] at hpow
  exact hpow.resolve_left fun hzero => hne (hr.unconfigured hzero).1

/-- The alignment of a request to a state with a free block is a power of two. -/
lemma alignment_eq (hr : Reached cfg h) (hne : h.freeList.entries ≠ []) (size : ℕ) :
    ∃ j < w, h.alignment size = 2 ^ j := by
  have hs := hr.settings
  simp only [HeapManager.settings, Prod.mk.injEq] at hs
  have hpow := powBlock_config cfg
  have halign := powAlign_config cfg
  rw [PowBlock, ← hs.2.1, ← hs.2.2.1] at hpow
  rw [PowAlign, ← hs.2.2.2.1, ← hs.2.2.2.2] at halign
  refine alignment_two_pow hpow halign ?_ size
  exact Nat.pos_of_ne_zero fun hzero => hne (hr.unconfigured hzero).1

/-- The alignment of a request: the block size or, with additional alignment requirements, the least
power of two that is not below its size, up to the maximum alignment. -/
lemma alignment_spec (hr : Reached cfg h) (size : ℕ) :
    h.alignment size = if h.addrsNeedPow2SizeAlignment then
      min (2 ^ Nat.clog 2 size) h.maxPow2SizeAlignment else h.minBlockSize := by
  unfold alignment
  split
  · next hneed =>
    have hs := hr.settings
    simp only [HeapManager.settings, Prod.mk.injEq] at hs
    have halign := powAlign_config cfg
    rw [PowAlign, ← hs.2.2.2.1, ← hs.2.2.2.2] at halign
    obtain ⟨m, hm, hmax⟩ := halign hneed
    split
    · next hle =>
      exact (min_eq_right (hle.trans (Nat.le_pow_clog (by omega) size))).symm
    · next hlt =>
      rw [nextPowerOfTwo_eq hm (by omega), hmax, min_eq_left]
      refine Nat.pow_le_pow_right (by omega) ?_
      rw [Nat.clog_le_iff_le_pow (by omega)]
      omega
  · rfl

/-- A size that does not reach past the type is rounded up to a multiple of the block size. -/
lemma roundSize_eq (hr : Reached cfg h) (hne : h.freeList.entries ≠ []) {size : ℕ}
    (hfit : size + h.minBlockSize ≤ 2 ^ w) : h.roundSize size = alignUp size h.minBlockSize := by
  obtain ⟨k, hk, hblock⟩ := hr.minBlockSize_eq hne
  rw [roundSize, hblock]
  exact roundup_two_pow hk (hblock ▸ hfit)

/-- A size that reaches past the type is rounded to nothing. -/
lemma roundSize_eq_zero (hr : Reached cfg h) (hne : h.freeList.entries ≠ []) {size : ℕ}
    (hlt : size < 2 ^ w) (hwrap : size = 0 ∨ 2 ^ w < size + h.minBlockSize) :
    h.roundSize size = 0 := by
  obtain ⟨k, hk, hblock⟩ := hr.minBlockSize_eq hne
  have hd : 0 < 2 ^ k := by positivity
  rw [roundSize, hblock, roundup_eq_alignUp hk hlt]
  rcases hwrap with rfl | hwrap
  · rw [(alignUp_eq_self_iff hd).mpr (Nat.dvd_zero _), Nat.zero_mod]
  · have htop : alignUp size (2 ^ k) = 2 ^ w := by
      refine le_antisymm (alignUp_le hd (pow_dvd_pow 2 hk.le) hlt.le) ?_
      by_contra hcon
      have hle := add_le_of_dvd (dvd_alignUp size (2 ^ k)) (pow_dvd_pow 2 hk.le) (not_le.mp hcon)
      have hge := le_alignUp size hd
      rw [hblock] at hwrap
      omega
    rw [htop, Nat.mod_self]

end Reached

/-! ### `malloc` is complete and takes the lowest address -/

/-- A heap that does not start at address zero has no free block there, as long as its calls meet
their conditions. -/
lemma find?_zero_of_run (cfg : Config w) (hfits : cfg.startAddr + cfg.length ≤ 2 ^ w)
    (hstart : 0 < cfg.startAddr) (ops : List Op) (hok : cfg.heap.RunOk ops) (h : HeapManager w)
    (hrun : cfg.heap.run ops = some h) : h.freeList.find? 0 = none := by
  have hr := (reached_config cfg).run hrun
  have ht := (wellTiled_run (wellTiled_config cfg hfits) (powBlock_config cfg) hok hrun).1
  refine OrderedMap.find?_eq_none_iff.mpr fun v hv => ?_
  have hrange := ht.free_range hv
  have hset := hr.settings
  simp only [settings, Prod.mk.injEq] at hset
  have hcfg := config_range cfg
  have hpos : 0 < cfg.length := by
    rw [← hcfg.1, ← hset.2.1]
    omega
  rw [hset.1, hcfg.2 hpos] at hrange
  omega

/-- The largest size of a list of blocks. -/
def largest (blocks : List (ℕ × ℕ)) (size : ℕ) : ℕ :=
  blocks.foldl (fun size kv => if size ≤ kv.2 then kv.2 else size) size

/-- The loop of `max_block_size` finds the largest size. -/
lemma largest_spec (blocks : List (ℕ × ℕ)) (size : ℕ) :
    size ≤ largest blocks size ∧ (∀ kv ∈ blocks, kv.2 ≤ largest blocks size) ∧
      (largest blocks size = size ∨ ∃ kv ∈ blocks, kv.2 = largest blocks size) := by
  induction blocks generalizing size with
  | nil => exact ⟨le_rfl, by simp, Or.inl rfl⟩
  | cons b blocks ih =>
    obtain ⟨hle, hall, hor⟩ := ih (if size ≤ b.2 then b.2 else size)
    have hstart : size ≤ (if size ≤ b.2 then b.2 else size) ∧
        b.2 ≤ (if size ≤ b.2 then b.2 else size) := by
      split <;> omega
    have hcons : largest (b :: blocks) size = largest blocks (if size ≤ b.2 then b.2 else size) := rfl
    rw [hcons]
    refine ⟨hstart.1.trans hle, fun kv hkv => ?_, ?_⟩
    · rcases List.mem_cons.mp hkv with rfl | hmem
      · exact hstart.2.trans hle
      · exact hall kv hmem
    · rcases hor with heq | ⟨kv, hmem, heq⟩
      · rw [heq]
        split
        · exact Or.inr ⟨b, List.mem_cons_self, rfl⟩
        · exact Or.inl rfl
      · exact Or.inr ⟨kv, List.mem_cons_of_mem _ hmem, heq⟩

/-- The search of `malloc` finds a block exactly when a request that rounds to nothing finds any, or
when some block has room from its first aligned address on. -/
lemma Reached.serves_iff {cfg : Config w} {h : HeapManager w} (hr : Reached cfg h)
    (hne : h.freeList.entries ≠ []) (size : ℕ) :
    h.Serves size ↔ h.roundSize size = 0 ∨ ∃ kv ∈ h.freeList.entries,
      alignUp kv.1 (h.alignment (h.roundSize size)) + h.roundSize size ≤ kv.1 + kv.2 := by
  obtain ⟨j, hj, hpow⟩ := hr.alignment_eq hne (h.roundSize size)
  rw [Serves, List.findSome?_isSome_iff, hpow]
  rcases Nat.eq_zero_or_pos (h.roundSize size) with hzero | hpos
  · rw [hzero]
    obtain ⟨kv, l, hentries⟩ := List.exists_cons_of_ne_nil hne
    refine iff_of_true ⟨kv, by rw [hentries]; exact List.mem_cons_self, ?_⟩ (Or.inl rfl)
    simp [place]
  · constructor
    · rintro ⟨kv, hkv, hplace⟩
      exact Or.inr ⟨kv, hkv, (place_eq hj (hr.words.freeList kv hkv).1 hpos).2.mp hplace⟩
    · rintro (hzero | ⟨kv, hkv, hroom⟩)
      · omega
      · exact ⟨kv, hkv, (place_eq hj (hr.words.freeList kv hkv).1 hpos).2.mpr hroom⟩

section Largest

variable {cfg : Config w} {h : HeapManager w}

/-- The size that is reported: that of the largest free block, or nothing for a heap that is shorter
than a block. -/
lemma maxBlockSize_eq (h : HeapManager w) :
    h.maxBlockSize = if h.length < h.minBlockSize then 0 else largest h.freeList.entries 0 := rfl

/-- Block sizes and alignments of a state with a free block are positive. -/
lemma Reached.pos (hr : Reached cfg h) (hne : h.freeList.entries ≠ []) (size : ℕ) :
    0 < h.minBlockSize ∧ 0 < h.alignment size := by
  obtain ⟨k, -, hblock⟩ := hr.minBlockSize_eq hne
  obtain ⟨j, -, halign⟩ := hr.alignment_eq hne size
  rw [hblock, halign]
  exact ⟨by positivity, by positivity⟩

/-- The size that is reported is a word. -/
lemma Reached.maxBlockSize_lt (hr : Reached cfg h) : h.maxBlockSize < 2 ^ w := by
  rw [maxBlockSize_eq]
  split
  · positivity
  · rcases (largest_spec h.freeList.entries 0).2.2 with hzero | ⟨kv, hkv, heq⟩
    · rw [hzero]
      positivity
    · rw [← heq]
      exact (hr.words.freeList kv hkv).2

/-- A request of the size that is reported, if the size does not round to nothing. -/
lemma Reached.serves_largest_iff (hr : Reached cfg h) (hne : h.freeList.entries ≠ [])
    (hpos : h.maxBlockSize ≠ 0) (hfit : h.maxBlockSize + h.minBlockSize ≤ 2 ^ w) :
    h.Serves h.maxBlockSize ↔ h.minBlockSize ∣ h.maxBlockSize ∧ ∃ kv ∈ h.freeList.entries,
      kv.2 = h.maxBlockSize ∧ h.alignment h.maxBlockSize ∣ kv.1 := by
  have hlargest : h.maxBlockSize = largest h.freeList.entries 0 := by
    rw [maxBlockSize_eq] at hpos ⊢
    split
    · next hlt => exact absurd (if_pos hlt) hpos
    · rfl
  obtain ⟨hd, -⟩ := hr.pos hne 0
  have hup := le_alignUp h.maxBlockSize hd
  rw [hr.serves_iff hne, hr.roundSize_eq hne hfit]
  constructor
  · rintro (hzero | ⟨kv, hkv, hroom⟩)
    · omega
    · have hsize := (largest_spec h.freeList.entries 0).2.1 kv hkv
      have halign := (hr.pos hne (alignUp h.maxBlockSize h.minBlockSize)).2
      have hge := le_alignUp kv.1 halign
      -- the block is used up, so nothing is lost by the rounding and by the alignment
      have hsame : alignUp h.maxBlockSize h.minBlockSize = h.maxBlockSize := by omega
      refine ⟨(alignUp_eq_self_iff hd).mp hsame, kv, hkv, by omega, ?_⟩
      rw [hsame] at hge hroom halign
      exact (alignUp_eq_self_iff halign).mp (by omega)
  · rintro ⟨hdvd, kv, hkv, hsize, halign⟩
    right
    rw [(alignUp_eq_self_iff hd).mpr hdvd]
    refine ⟨kv, hkv, ?_⟩
    rw [(alignUp_eq_self_iff (hr.pos hne _).2).mpr halign, hsize]

/-- A request of a larger size, if the size does not round to nothing. -/
lemma Reached.not_serves_larger (hr : Reached cfg h) (hne : h.freeList.entries ≠ [])
    (hlen : ∀ kv ∈ h.freeList.entries, kv.2 ≤ h.length) {size : ℕ} (hsize : h.maxBlockSize < size)
    (hfit : size + h.minBlockSize ≤ 2 ^ w) : ¬h.Serves size := by
  obtain ⟨hd, -⟩ := hr.pos hne 0
  have hup := le_alignUp size hd
  rw [hr.serves_iff hne, hr.roundSize_eq hne hfit]
  rintro (hzero | ⟨kv, hkv, hroom⟩)
  · omega
  · have hge := le_alignUp kv.1 (hr.pos hne (alignUp size h.minBlockSize)).2
    rw [maxBlockSize_eq] at hsize
    split at hsize
    · next hlt =>
      have hkv := hlen kv hkv
      have hblock := Nat.le_of_dvd (by omega) (dvd_alignUp size h.minBlockSize)
      omega
    · have hkv := (largest_spec h.freeList.entries 0).2.1 kv hkv
      omega

end Largest

/-- A heap of 200 bytes with blocks of 128 bytes. -/
def shortConfig : Config 64 := { smallConfig with length := 200, length_lt := by decide }

/-- The iterators of the free list whose key or size `free` reads. -/
def dereferenced (h : HeapManager w) (addr : ℕ) : List (Option (ℕ × ℕ)) :=
  match h.allocList.find? addr with
  | none => []
  | some _ => [priorBlock h.freeList addr, afterBlock h.freeList addr]

/-- `free` of an allocated address reads entries of the free list only if and only if some free block
does not start below the address. -/
theorem dereferenced_isSome_iff {h : HeapManager w} {addr : ℕ} {e : AllocEntry}
    (halloc : h.allocList.find? addr = some e) :
    (∀ it ∈ h.dereferenced addr, it.isSome) ↔ ∃ kv ∈ h.freeList.entries, addr ≤ kv.1 := by
  have hlist : h.dereferenced addr = [priorBlock h.freeList addr, afterBlock h.freeList addr] := by
    rw [dereferenced, halloc]
  rw [hlist]
  constructor
  · intro hsome
    obtain ⟨kv, hkv⟩ := Option.isSome_iff_exists.mp (hsome (afterBlock h.freeList addr) (by simp))
    obtain ⟨hmem, hle, -⟩ := afterBlock_eq_some hkv
    exact ⟨kv, hmem, hle⟩
  · rintro ⟨kv, hkv, hle⟩ it hit
    rw [Option.isSome_iff_ne_none]
    rintro rfl
    rcases List.mem_pair.mp hit with hprior | hafter
    · rw [priorBlock_eq_none hprior.symm] at hkv
      cases hkv
    · have hmem := OrderedMap.mem_lowerBound.mpr ⟨hkv, hle⟩
      rw [afterBlock_eq_none hafter.symm] at hmem
      cases hmem

/-- After one request the release of its block reads the free block behind it. -/
theorem dereferenced_isSome_first : ∃ h : HeapManager 64,
    smallConfig.heap.run [.malloc 100 7 true] = some h ∧
      h.allocList.find? 0x80000000 = some ⟨128, 7⟩ ∧
      ∀ it ∈ h.dereferenced 0x80000000, it.isSome := by
  obtain ⟨h, hrun⟩ : ∃ h, smallConfig.heap.run [.malloc 100 7 true] = some h := ⟨_, rfl⟩
  have halloc : h.allocList.find? 0x80000000 = some ⟨128, 7⟩ := by
    obtain rfl := Option.some.inj hrun
    decide
  refine ⟨h, hrun, halloc, (dereferenced_isSome_iff halloc).mpr ⟨(0x80000080, 0xff80), ?_, by decide⟩⟩
  obtain rfl := Option.some.inj hrun
  decide

/-- When the whole heap is allocated, its release reads the past-the-end position of the empty free
list twice. -/
theorem not_dereferenced_isSome : ∃ h : HeapManager 64,
    smallConfig.heap.run [.malloc 0x10000 7 true] = some h ∧
      h.allocList.find? 0x80000000 = some ⟨0x10000, 7⟩ ∧
      h.dereferenced 0x80000000 = [none, none] :=
  ⟨_, rfl, rfl, rfl⟩

end HeapManager

end TiOpenCL
