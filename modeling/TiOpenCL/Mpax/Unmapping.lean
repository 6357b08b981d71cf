import TiOpenCL.Mpax.Translation

/-!
# Unmapping a buffer

`keystone_mmap_resource_free` frees the block around a virtual address in the first heap whose root
contains it, and resets every entry whose window contains the beginning or the end of the buffer.
For a mappable buffer that does not end at the last address of all these are its own entries.
-/

namespace TiOpenCL

namespace Heap

variable {c : MmapConstants} {heaps : List Block} {bank bank' : Bank} {t : SplitTree Mark}
  {range : Block} {live : List Block} {s : HeapState} {x i : ℕ}

/-! ### Free addresses -/

/-- An address lies in a leaf below an element that is not allocated. -/
def freeAt (x : ℕ) : ℕ → Bank → ℕ → Bool
  | 0, _, _ => false
  | fuel + 1, bank, idx =>
    decide ((bank idx).baseAddr ≤ x ∧ x < (bank idx).baseAddr + (bank idx).length) &&
      if (bank idx).subElem0 = 0 then decide ((bank idx).allocated = 0)
      else freeAt x fuel bank (bank idx).subElem0 || freeAt x fuel bank (bank idx).subElem1

/-- An address of a heap is free. -/
def FreeAt (c : MmapConstants) (bank : Bank) (i x : ℕ) : Prop := freeAt x (heapFuel c) bank i = true

/-- The free addresses are those of the free leaves. -/
lemma Holds.freeAt_iff {base k fuel : ℕ} (h : Holds bank t base k) (hk : k < fuel) :
    freeAt x fuel bank t.root = true ↔ ∃ b ∈ t.marked .free base k, b.Covers x := by
  induction t generalizing base k fuel with
  | leaf idx m =>
    obtain ⟨fuel, rfl⟩ := Nat.exists_eq_add_one.mpr (Nat.zero_lt_of_lt hk)
    rw [SplitTree.root_leaf, freeAt, h.subElem0, if_pos rfl, h.baseAddr, h.length, h.allocated]
    cases m <;> simp [count, Block.Covers]
  | node idx l r ihl ihr =>
    cases k with
    | zero => exact h.elim
    | succ k =>
      obtain ⟨fuel, rfl⟩ := Nat.exists_eq_add_one.mpr (Nat.zero_lt_of_lt hk)
      have hfits := h.fits
      obtain ⟨hv, -, hne, hl, hr⟩ := h
      rw [SplitTree.root_node, freeAt, hv.subElem0, if_neg hne, hv.subElem1, Bool.and_eq_true,
        Bool.or_eq_true, ihl hl (by omega), ihr hr (by omega), hv.baseAddr, hv.length,
        decide_eq_true_iff]
      constructor
      · rintro ⟨-, ⟨b, hb, hx⟩ | ⟨b, hb, hx⟩⟩
        · exact ⟨b, by simp [hb], hx⟩
        · exact ⟨b, by simp [hb], hx⟩
      · rintro ⟨b, hb, hx⟩
        have hin := SplitTree.subset_of_mem_marked hfits hb
        refine ⟨⟨hin.1.trans hx.1, hx.2.trans_le hin.2⟩, ?_⟩
        rw [SplitTree.marked_node_succ, List.mem_append] at hb
        rcases hb with hb | hb
        · exact Or.inl ⟨b, hb, hx⟩
        · exact Or.inr ⟨b, hb, hx⟩

/-- The free addresses of a heap are those of its range that are not handed out. -/
lemma Shape.freeAt_iff (h : Shape bank range t live) :
    FreeAt c bank t.root x ↔
      0 < (bank t.root).length ∧ range.Covers x ∧ ∀ b ∈ live, ¬ b.Covers x := by
  cases h with
  | @window base k hw holds taken reserved =>
    obtain ⟨_, _, hv⟩ := holds.isVertex_root
    have hfuel : k < heapFuel c := by
      have := hw.lt
      simp only [heapFuel]
      omega
    rw [FreeAt, holds.freeAt_iff hfuel, hv.length]
    constructor
    · rintro ⟨b, hb, hx⟩
      refine ⟨by positivity, mem_range (by decide) holds.fits reserved hb hx, ?_⟩
      intro b' hb' hx'
      have hb'' := taken.mem_iff.mpr hb'
      exact SplitTree.disjoint_of_marks_ne holds.fits (by decide) hb hb'' x ⟨hx, hx'⟩
    · rintro ⟨-, hx, hlive⟩
      have hlow := hw.lower.1
      have hhigh := hw.upper.2
      obtain ⟨b, hb, hbx⟩ := (SplitTree.isTiling_blocks holds.fits).exists_covers
        (hlow.trans hx.1) (hx.2.trans_le hhigh)
      obtain ⟨⟨b, m⟩, hbm, rfl⟩ := List.mem_map.mp hb
      have hmem : b ∈ t.marked m base k := SplitTree.mem_marked.mpr hbm
      cases m with
      | free => exact ⟨b, hmem, hbx⟩
      | taken => exact absurd hbx (hlive b (taken.mem_iff.mp hmem))
      | reserved =>
        have hpos := coverCount_pos hmem hbx
        rw [reserved, if_neg fun hout => hout.2.2 hx] at hpos
        exact absurd hpos (Nat.lt_irrefl 0)
  | @spent idx m ht hm hel hall hlive =>
    rw [ht, SplitTree.root_leaf, hel.length, FreeAt, heapFuel, freeAt, hel.length, hel.baseAddr]
    simp

/-- The free addresses of a heap are those of its range that are not handed out. -/
lemma Standing.freeAt_iff (h : Standing c heaps s) (hi : heaps[i]? = some range) :
    FreeAt c s.bank i x ↔ 0 < (s.bank i).length ∧ range.Covers x ∧
      ∀ a ∈ s.live, a.heap = i → ¬ a.block.Covers x := by
  obtain ⟨f, hf, hsh⟩ := h.trees
  have hlt : i < heaps.length := (List.getElem?_eq_some_iff.mp hi).1
  have hiff := (hsh i range hi).freeAt_iff (c := c) (x := x)
  rw [hf.root i hlt] at hiff
  rw [hiff]
  refine and_congr_right fun _ => and_congr_right fun _ => ⟨fun hl a ha hai => ?_, fun hl b hb => ?_⟩
  · exact hl _ (mem_liveIn.mpr ⟨a, ha, hai, rfl⟩)
  · obtain ⟨a, ha, hai, rfl⟩ := mem_liveIn.mp hb
    exact hl a ha hai

/-! ### The heaps in turn -/

/-- The order of the blocks that are handed out does not matter. -/
lemma Standing.perm {live live' : List Handed} (h : Standing c heaps ⟨bank, live⟩)
    (hp : live.Perm live') : Standing c heaps ⟨bank, live'⟩ := by
  obtain ⟨f, hf, hsh⟩ := h.trees
  refine ⟨⟨f, hf, fun i range hi => (hsh i range hi).perm ?_⟩, fun a ha => h.heap_lt a (hp.mem_iff.mpr ha)⟩
  exact (hp.filter _).map _

/-- Heaps at address zero are empty. -/
def NoZeroHeap (heaps : List Block) : Prop := ∀ h ∈ heaps, h.1 ≠ 0 ∨ h.2 = 0

/-- The heaps in turn are asked for a block. -/
lemma Standing.allocInHeaps {n k prot : ℕ} (h : Standing c heaps s) (h0 : NoZeroHeap heaps)
    (hn : i + n = heaps.length) :
    Heap.allocInHeaps c (2 ^ k) prot n i s.bank = .error .noElement ∨
      Heap.allocInHeaps c (2 ^ k) prot n i s.bank = .ok (none, s.bank) ∨
      ∃ a idx bank', Heap.allocInHeaps c (2 ^ k) prot n i s.bank = .ok (some (a, idx), bank') ∧
        a ≠ 0 ∧ Standing c heaps ⟨bank', ⟨idx, a, 2 ^ k⟩ :: s.live⟩ ∧
        ∀ j < heaps.length, SameBlock s.bank bank' j := by
  induction n generalizing i with
  | zero => exact Or.inr (Or.inl rfl)
  | succ n ih =>
    have hi : i < heaps.length := by omega
    have hrange : heaps[i]? = some heaps[i] := List.getElem?_eq_getElem hi
    rw [Heap.allocInHeaps]
    rcases h.heapAlloc k prot hrange (h0 _ (List.getElem_mem hi)) with
      he | he | ⟨a, bank', he, ha, hst, hsame⟩
    · exact Or.inl (by rw [he]; rfl)
    · have hnext := ih (show i + 1 + n = heaps.length by omega)
      rw [he]
      simpa [bind, Except.bind] using hnext
    · refine Or.inr (Or.inr ⟨a, i, bank', ?_, ha, hst, hsame⟩)
      rw [he]
      simp [bind, Except.bind, ha]

/-- The heaps in turn are tried for an address that is handed out by heap `a.heap`. -/
lemma Standing.freeInHeaps {n addr : ℕ} {a : Handed} {l₁ l₂ : List Handed} (h : Standing c heaps s)
    (hl : s.live = l₁ ++ a :: l₂) (haddr : a.block.Covers addr)
    (hroots : ∀ j < a.heap, ¬ Contains (s.bank j) addr) (hi : i ≤ a.heap)
    (hn : i + n = heaps.length) :
    ∃ bank', Heap.freeInHeaps c addr n i s.bank = .ok (true, bank') ∧
      Standing c heaps ⟨bank', l₁ ++ l₂⟩ ∧ ∀ j < heaps.length, SameBlock s.bank bank' j := by
  have hlt := h.heap_lt a (by simp [hl])
  induction n generalizing i with
  | zero => omega
  | succ n ih =>
    rw [Heap.freeInHeaps]
    rcases hi.lt_or_eq with hlt' | rfl
    · obtain ⟨bank', he, hst⟩ := ih (show i + 1 ≤ a.heap from hlt') (by omega)
      refine ⟨bank', ?_, hst⟩
      rw [h.heapFree_outside (show i < heaps.length by omega) (hroots i hlt')]
      simpa [bind, Except.bind] using he
    · obtain ⟨bank', he, hst, hsame⟩ := h.heapFree addr hl haddr
      refine ⟨bank', ?_, hst, hsame⟩
      rw [he]
      simp [bind, Except.bind]

/-! ### The entries that meet a buffer -/

variable {ms : List Mapping} {ps : List Placement} {p q : Placement} {m : Mapping} {b : PhysBuf}
  {virt j : ℕ}

/-- A mappable buffer lies in the block of its placement, without overflow. -/
lemma Places.inside (hpl : Places b virt p) (hp : p.Sound) (hb : PhysBuf.Valid b)
    (hmap : Mappable b.physAddr b.length) :
    p.base ≤ virt ∧ virt + b.length ≤ p.base + p.size ∧ virt < p.base + 2 ^ p.log ∧
      (p.slots.length = 2 → p.base + 2 ^ p.log < virt + b.length) := by
  have hstart := hpl.windows.start
  have hend := hpl.contained.mpr hmap
  have hbase := hp.base_le
  rw [← hpl.phys] at hstart
  have hpos := hb.pos
  have hvirt : virt = p.base + (b.physAddr - p.phys) := by
    rw [hpl.virt]
    exact wadd_eq (by omega)
  have hmid := hpl.windows.middle hmap
  rw [← hpl.num, ← hpl.phys] at hmid
  refine ⟨by omega, by omega, ?_, fun h2 => ?_⟩
  · rcases hp.num with h1 | h2
    · rw [Placement.size, h1, Nat.one_mul] at hend
      omega
    · have := hmid h2
      omega
  · have := hmid h2
    omega

/-- The entry of window `i` of a placement is inside its block. -/
lemma Placement.Entry.window_le (he : p.Entry i m) (hi : i < p.slots.length) :
    p.base ≤ m.baddr ∧ m.baddr + 2 ^ m.segsizePower2 ≤ p.base + p.size := by
  have hle : i * 2 ^ p.log + 2 ^ p.log ≤ p.slots.length * 2 ^ p.log := by
    rw [← Nat.succ_mul]
    exact Nat.mul_le_mul_right _ hi
  rw [he.baddr, he.segsize, Placement.size]
  omega

/-- The end of a window is not lost in 32 bits, unless it is the last address of all. -/
lemma window_end (hlt : m.segsizePower2 < 32) (hle : m.baddr + 2 ^ m.segsizePower2 ≤ 2 ^ 32) :
    wadd 32 m.baddr (2 ^ m.segsizePower2 % 2 ^ 32) =
      if m.baddr + 2 ^ m.segsizePower2 = 2 ^ 32 then 0 else m.baddr + 2 ^ m.segsizePower2 := by
  rw [Nat.mod_eq_of_lt (Nat.pow_lt_pow_right (by decide) hlt), wadd]
  split_ifs with heq
  · rw [heq, Nat.mod_self]
  · exact Nat.mod_eq_of_lt (by omega)

/-- An entry that a buffer meets covers its first or its last byte. -/
lemma covers_of_meets {len : ℕ} (hlt : m.segsizePower2 < 32)
    (hle : m.baddr + 2 ^ m.segsizePower2 ≤ 2 ^ 32) (hlen : 1 ≤ len) (hv : virt + len ≤ 2 ^ 32)
    (h : Mapping.Meets m virt len) : m.window.Covers virt ∨ m.window.Covers (virt + len - 1) := by
  have hend := window_end hlt hle
  have hpos : 0 < 2 ^ m.segsizePower2 := by positivity
  rw [Mapping.Meets, hend] at h
  simp only [Block.Covers, Mapping.window]
  have hsum : wadd 32 virt len = if virt + len = 2 ^ 32 then 0 else virt + len := by
    rw [wadd]
    split_ifs with heq
    · rw [heq, Nat.mod_self]
    · exact Nat.mod_eq_of_lt (by omega)
  rw [hsum] at h
  split_ifs at h <;> omega

/-- A buffer meets the entries of its own placement. -/
lemma Placement.Entry.meets (he : p.Entry i m) (hi : i < p.slots.length) (hp : p.Sound)
    (hpl : Places b virt p) (hb : PhysBuf.Valid b) (hmap : Mappable b.physAddr b.length)
    (htop : p.base + p.size ≠ 2 ^ 32) : Mapping.Meets m virt b.length := by
  obtain ⟨h1, h2, h3, h4⟩ := hpl.inside hp hb hmap
  have hbase := hp.base_le
  have hwin := he.window_le hi
  have hlt := hp.lt
  have hend := window_end (m := m) (by rw [he.segsize]; exact hlt) (by omega)
  rw [if_neg (by omega)] at hend
  have hsum : wadd 32 virt b.length = virt + b.length := wadd_eq (by omega)
  rw [Mapping.Meets, hend, hsum, he.baddr, he.segsize]
  rcases hp.num with hn | hn
  · -- the only window contains the beginning
    have hi0 : i = 0 := by omega
    subst hi0
    left
    omega
  · have hsize : p.size = 2 * 2 ^ p.log := by rw [Placement.size, hn]
    have hi' : i = 0 ∨ i = 1 := by omega
    rcases hi' with rfl | rfl
    · left
      omega
    · -- the second window contains the end
      right
      have := h4 hn
      omega

/-- A buffer does not meet an idle entry. -/
lemma not_meets_idle {len : ℕ} (hidle : Mapping.Idle m) (hvirt : 0 < virt) (hlen : 1 ≤ len)
    (hv : virt + len ≤ 2 ^ 32) : ¬ Mapping.Meets m virt len := by
  intro h
  have hb : m.baddr = 0 := by
    rw [← show Mapping.reset m = m from hidle]
    rfl
  have hs : m.segsizePower2 = 0 := by
    rw [← show Mapping.reset m = m from hidle]
    rfl
  have hcov := covers_of_meets (by omega) (by rw [hb, hs]; decide) hlen hv h
  simp only [Block.Covers, Mapping.window, hb, hs] at hcov
  omega

/-- A buffer meets exactly the entries of its placement. -/
lemma Booked.meets_iff_mem_slots (h : Booked ms ps)
    (hdis : (ps.map Placement.handed).Pairwise fun a b => Block.Disjoint a.block b.block)
    (hp : p ∈ ps) (hpl : Places b virt p) (hb : PhysBuf.Valid b)
    (hmap : Mappable b.physAddr b.length) (hpos : 0 < p.base) (htop : p.base + p.size ≠ 2 ^ 32)
    (hj : ms[j]? = some m) : Mapping.Meets m virt b.length ↔ j ∈ p.slots := by
  have hsound := h.sound p hp
  obtain ⟨h1, h2, h3, -⟩ := hpl.inside hsound hb hmap
  have hbase := hsound.base_le
  have hlen := hb.pos
  constructor
  · intro hmeets
    by_cases ha : m.Active
    · obtain ⟨q, hq, t, ht, hent⟩ := h.exists_of_active hj ha
      have hqs := h.sound q hq
      have hqb := hqs.base_le
      have hlt := hqs.lt
      have ht' : t < q.slots.length := (List.getElem?_eq_some_iff.mp ht).1
      have hwin := hent.window_le ht'
      have hcov := covers_of_meets (by rw [hent.segsize]; exact hlt) (by omega) hlen (by omega) hmeets
      have hqp : q = p := by
        by_contra hne
        have hsymm : Std.Symm fun a b : Placement => Block.Disjoint a.handed.block b.handed.block :=
          ⟨fun _ _ h x hx => h x hx.symm⟩
        have hdis' := (List.pairwise_map.mp hdis).forall hq hp hne
        rcases hcov with hcov | hcov
        · exact hdis' _ ⟨(hent.covers ht' hcov).1, h1, by show virt < p.base + p.size; omega⟩
        · exact hdis' _ ⟨(hent.covers ht' hcov).1, by show p.base ≤ virt + b.length - 1; omega,
            by show virt + b.length - 1 < p.base + p.size; omega⟩
      subst hqp
      exact List.mem_of_getElem? ht
    · have hidle : Mapping.Idle m := by
        refine h.idle j m hj fun hmem => ha ?_
        obtain ⟨q, hq, hjq⟩ := List.mem_flatMap.mp hmem
        obtain ⟨t, ht, hjt⟩ := List.mem_iff_getElem.mp hjq
        obtain ⟨m', hm', hent⟩ := h.entry q hq t j (by rw [List.getElem?_eq_getElem ht, hjt])
        rw [hj, Option.some.injEq] at hm'
        have := (h.sound q hq).le
        have hseg := hent.segsize
        show 0 < m.segsizePower2
        rw [hm']
        omega
      exact absurd hmeets (not_meets_idle hidle (by omega) hlen (by omega))
  · intro hmem
    obtain ⟨t, ht, hjt⟩ := List.mem_iff_getElem.mp hmem
    obtain ⟨m', hm', hent⟩ := h.entry p hp t j (by rw [List.getElem?_eq_getElem ht, hjt])
    rw [hj, Option.some.injEq] at hm'
    subst hm'
    exact hent.meets ht hsound hpl hb hmap htop

/-! ### One buffer -/

/-- The number of entries with a property that holds for the indices of a list. -/
lemma countP_eq_length {α : Type*} {P : α → Bool} {l : List α} {js : List ℕ} (hnd : js.Nodup)
    (hlt : ∀ j ∈ js, j < l.length) (h : ∀ j a, l[j]? = some a → (P a = true ↔ j ∈ js)) :
    l.countP P = js.length := by
  have hmap : (List.finRange l.length).map l.get = l := List.map_get_finRange l
  have hperm : (((List.finRange l.length).filter fun j => P (l.get j)).map Fin.val).Perm js := by
    refine (List.perm_ext_iff_of_nodup ?_ hnd).mpr fun j => ?_
    · exact ((List.nodup_finRange _).filter _).map Fin.val_injective
    · simp only [List.mem_map, List.mem_filter, List.mem_finRange, true_and]
      constructor
      · rintro ⟨k, hk, rfl⟩
        exact (h k _ (List.getElem?_eq_getElem k.2)).mp hk
      · intro hj
        exact ⟨⟨j, hlt j hj⟩, (h j _ (List.getElem?_eq_getElem (hlt j hj))).mpr hj, rfl⟩
  calc l.countP P = ((List.finRange l.length).map l.get).countP P := by rw [hmap]
    _ = (List.finRange l.length).countP fun j => P (l.get j) := List.countP_map
    _ = _ := by rw [List.countP_eq_length_filter, ← hperm.length_eq, List.length_map]

/-- The table after the entries of a placement are reset. -/
lemma Booked.reset {ms' : List Mapping} {l₁ l₂ : List Placement} (h : Booked ms (l₁ ++ p :: l₂))
    (hms : ∀ j, ms'[j]? = if j ∈ p.slots then ms[j]?.map Mapping.reset else ms[j]?) :
    Booked ms' (l₁ ++ l₂) := by
  have hsub : ∀ q ∈ l₁ ++ l₂, q ∈ l₁ ++ p :: l₂ := by
    intro q hq
    rcases List.mem_append.mp hq with hq | hq
    · exact List.mem_append_left _ hq
    · exact List.mem_append_right _ (List.mem_cons_of_mem _ hq)
  have hnd : (p.slots ++ (l₁ ++ l₂).flatMap Placement.slots).Nodup := by
    have hperm : (l₁ ++ p :: l₂).Perm (p :: (l₁ ++ l₂)) := List.perm_middle
    exact (hperm.flatMap_right Placement.slots).nodup_iff.mp h.nodup
  obtain ⟨-, hnd', hdis⟩ := List.nodup_append.mp hnd
  refine ⟨fun q hq => h.sound q (hsub q hq), hnd', ?_, ?_⟩
  · intro q hq i j hij
    obtain ⟨m, hm, hent⟩ := h.entry q (hsub q hq) i j hij
    have hj : j ∉ p.slots := fun hmem => hdis j hmem j
      (List.mem_flatMap.mpr ⟨q, hq, List.mem_of_getElem? hij⟩) rfl
    exact ⟨m, by rw [hms, if_neg hj, hm], hent⟩
  · intro j m hm hj
    rw [hms] at hm
    split_ifs at hm with hmem
    · obtain ⟨m', -, rfl⟩ := Option.map_eq_some_iff.mp hm
      rfl
    · refine h.idle j m hm ?_
      simp only [List.flatMap_append, List.flatMap_cons, List.mem_append, not_or] at hj ⊢
      exact ⟨hj.1, hmem, hj.2⟩

/-- A buffer that is mapped, with its virtual address and its placement. -/
structure LiveBuf where
  buf : PhysBuf
  virt : ℕ
  place : Placement

/-- What a buffer that is mapped keeps. -/
structure LiveBuf.Ok (l : LiveBuf) : Prop where
  places : Places l.buf l.virt l.place
  valid : PhysBuf.Valid l.buf
  mappable : Mappable l.buf.physAddr l.buf.length
  base_pos : 0 < l.place.base

/-- The arguments of `keystone_mmap_resource_free` for a buffer. -/
def LiveBuf.arg (l : LiveBuf) : ℕ × ℕ := (l.virt, l.buf.length)

/-- The heaps and the table with the buffers that are mapped. -/
structure Rooted (c : MmapConstants) (heaps : List Block) (r : Resources) (ls : List LiveBuf) :
    Prop where
  numHeaps : r.numHeaps = heaps.length
  standing : Standing c heaps ⟨r.heap, ls.map fun l => l.place.handed⟩
  booked : Booked r.mapping (ls.map LiveBuf.place)
  ok : ∀ l ∈ ls, l.Ok

/-- The root of no heap before the one of a range contains an address of the range. -/
def RootsApart (heaps : List Block) (bank : Bank) : Prop :=
  ∀ i j range, i < j → heaps[j]? = some range → ∀ x, range.Covers x → ¬ Contains (bank i) x

/-- The roots of the heaps are the same in two states. -/
def SameRoots (heaps : List Block) (bank bank' : Bank) : Prop :=
  ∀ j < heaps.length, SameBlock bank bank' j

/-- The configured registers are the same in two tables. -/
def SameRegs (ms ms' : List Mapping) : Prop := ms'.map Mapping.reset = ms.map Mapping.reset

/-- The blocks of the live buffers are disjoint. -/
lemma Rooted.disjoint {r : Resources} {ls : List LiveBuf} (h : Rooted c heaps r ls)
    (hdis : heaps.Pairwise Block.Disjoint) :
    ((ls.map LiveBuf.place).map Placement.handed).Pairwise
      fun a b => Block.Disjoint a.block b.block := by
  have := (h.standing.buddyInvariant hdis).disjoint
  rwa [List.map_map]

/-- `freeInHeaps` on a live buffer. -/
lemma Rooted.freeInHeaps {r : Resources} {l : LiveBuf} {l₁ l₂ : List LiveBuf}
    (h : Rooted c heaps r (l₁ ++ l :: l₂)) (hroots : RootsApart heaps r.heap)
    (hdis : heaps.Pairwise Block.Disjoint) :
    ∃ bank', Heap.freeInHeaps c l.virt r.numHeaps 0 r.heap = .ok (true, bank') ∧
      Standing c heaps ⟨bank', (l₁ ++ l₂).map fun l => l.place.handed⟩ ∧
      SameRoots heaps r.heap bank' := by
  have hl := h.ok l (by simp)
  have hsound := h.booked.sound l.place (by simp)
  obtain ⟨h1, h2, -, -⟩ := hl.places.inside hsound hl.valid hl.mappable
  have hlen := hl.valid.pos
  have hcov : l.place.handed.block.Covers l.virt := ⟨h1, by show l.virt < l.place.base + l.place.size; omega⟩
  obtain ⟨range, hrange, hlo, hhi⟩ := (h.standing.buddyInvariant hdis).inside l.place.handed (by simp)
  have hin : range.Covers l.virt := ⟨hlo.trans hcov.1, hcov.2.trans_le hhi⟩
  rw [h.numHeaps, List.map_append]
  exact h.standing.freeInHeaps (by simp) hcov
    (fun j hj => hroots j _ range hj hrange _ hin) (Nat.zero_le _) (Nat.zero_add _)

/-- `keystone_mmap_resource_free` of a live buffer and others: the buffer is unmapped, and nothing
else. -/
lemma Rooted.resourceFree_cons {r : Resources} {l : LiveBuf} {l₁ l₂ : List LiveBuf}
    (h : Rooted c heaps r (l₁ ++ l :: l₂)) (hroots : RootsApart heaps r.heap)
    (hdis : heaps.Pairwise Block.Disjoint) (htop : l.place.base + l.place.size ≠ 2 ^ 32)
    (args : List (ℕ × ℕ)) :
    ∃ r', resourceFree c (l.arg :: args) r = resourceFree c args r' ∧ Rooted c heaps r' (l₁ ++ l₂) ∧
      SameRoots heaps r.heap r'.heap ∧
      ∀ j, r'.mapping[j]? = if j ∈ l.place.slots then r.mapping[j]?.map Mapping.reset
        else r.mapping[j]? := by
  have hl := h.ok l (by simp)
  have hmem : l.place ∈ (l₁ ++ l :: l₂).map LiveBuf.place := by simp
  have hmeets : ∀ j m, r.mapping[j]? = some m →
      (Mapping.Meets m l.virt l.buf.length ↔ j ∈ l.place.slots) := fun j m hj =>
    h.booked.meets_iff_mem_slots (h.disjoint hdis) hmem hl.places hl.valid hl.mappable hl.base_pos htop hj
  obtain ⟨bank', hfree, hst, hsame⟩ := h.freeInHeaps hroots hdis
  have hsound := h.booked.sound l.place hmem
  have hnd : l.place.slots.Nodup :=
    (List.nodup_flatMap.mp h.booked.nodup).1 l.place hmem
  have hcount : (r.mapping.countP fun m => Mapping.Meets m l.virt l.buf.length) =
      l.place.slots.length := by
    refine countP_eq_length hnd (fun j hj => ?_) fun j m hj => ?_
    · obtain ⟨t, ht, hjt⟩ := List.mem_iff_getElem.mp hj
      obtain ⟨m, hm, -⟩ := h.booked.entry l.place hmem t j (by rw [List.getElem?_eq_getElem ht, hjt])
      exact (List.getElem?_eq_some_iff.mp hm).1
    · rw [decide_eq_true_iff]
      exact hmeets j m hj
  have hms : ∀ j, (r.mapping.map fun m =>
      if Mapping.Meets m l.virt l.buf.length then Mapping.reset m else m)[j]? =
      if j ∈ l.place.slots then r.mapping[j]?.map Mapping.reset else r.mapping[j]? := by
    intro j
    rw [List.getElem?_map]
    match hj : r.mapping[j]? with
    | none => simp
    | some m =>
      by_cases hjs : j ∈ l.place.slots
      · simp [(hmeets j m hj).mpr hjs, hjs]
      · have hn : ¬ Mapping.Meets m l.virt l.buf.length := fun hm => hjs ((hmeets j m hj).mp hm)
        simp [hn, hjs]
  refine ⟨⟨r.mapping.map fun m => if Mapping.Meets m l.virt l.buf.length then Mapping.reset m else m,
    bank', r.numHeaps⟩, ?_, ⟨h.numHeaps, hst, ?_, ?_⟩, hsame, hms⟩
  · rw [LiveBuf.arg, resourceFree]
    simp only [hfree, bind, Except.bind, if_true, hcount]
    rw [if_neg]
    rcases hsound.num with hn | hn
    · omega
    · omega
  · have hbook := h.booked
    rw [List.map_append, List.map_cons] at hbook
    rw [List.map_append]
    exact hbook.reset hms
  · intro l' hl'
    refine h.ok l' ?_
    rcases List.mem_append.mp hl' with hl' | hl'
    · exact List.mem_append_left _ hl'
    · exact List.mem_append_right _ (List.mem_cons_of_mem _ hl')

end Heap

end TiOpenCL
