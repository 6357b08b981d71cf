import TiOpenCL.Mpax.Unmapping

/-!
# Mapping and unmapping batches of buffers

Runs of `keystone_mmap_resource_alloc` and `keystone_mmap_resource_free` calls.  The entries of a
buffer are found again by interval tests in 32 bits, so a window that ends at `2 ^ 32` is never found,
and a failing `keystone_mmap_resource_alloc` leaves an entry behind if one was left for a buffer that
takes two.  In every run that avoids this each batch can be unmapped, and unmapping it takes back
exactly what mapping it took.
-/

namespace TiOpenCL

namespace Heap

variable {c : MmapConstants} {heaps : List Block} {r r' : Resources} {ls : List LiveBuf}
  {ms ms' : List Mapping} {bank bank' bank'' : Bank}

/-! ### What stays the same -/

lemma SameRoots.refl (heaps : List Block) (bank : Bank) : SameRoots heaps bank bank :=
  fun _ _ => ⟨rfl, rfl⟩

lemma SameRoots.symm (h : SameRoots heaps bank bank') : SameRoots heaps bank' bank :=
  fun j hj => ⟨(h j hj).1.symm, (h j hj).2.symm⟩

lemma SameRoots.trans (h : SameRoots heaps bank bank') (h' : SameRoots heaps bank' bank'') :
    SameRoots heaps bank bank'' :=
  fun j hj => ⟨(h' j hj).1.trans (h j hj).1, (h' j hj).2.trans (h j hj).2⟩

/-- The roots stay apart. -/
lemma RootsApart.congr (h : RootsApart heaps bank) (hs : SameRoots heaps bank bank') :
    RootsApart heaps bank' := by
  intro i j range hij hj x hx hc
  have hlt : j < heaps.length := (List.getElem?_eq_some_iff.mp hj).1
  obtain ⟨hb, hl⟩ := hs i (by omega)
  refine h i j range hij hj x hx ?_
  rw [Contains, lastAddr, ← hb, ← hl]
  exact hc

/-- The order of the live buffers does not matter. -/
lemma Rooted.perm {ls' : List LiveBuf} (h : Rooted c heaps r ls) (hp : ls.Perm ls') :
    Rooted c heaps r ls' where
  numHeaps := h.numHeaps
  standing := h.standing.perm (hp.map _)
  booked :=
    ⟨fun p hp' => h.booked.sound p ((hp.map _).mem_iff.mpr hp'),
      ((hp.map _).flatMap_right _).nodup_iff.mp h.booked.nodup,
      fun p hp' => h.booked.entry p ((hp.map _).mem_iff.mpr hp'),
      fun j m hj hn => h.booked.idle j m hj
        fun hmem => hn (((hp.map _).flatMap_right _).mem_iff.mp hmem)⟩
  ok l hl := h.ok l (hp.mem_iff.mpr hl)

/-! ### Unmapping a batch -/

/-- The entries of a batch. -/
def batchSlots (ls : List LiveBuf) : List ℕ := ls.flatMap fun l => l.place.slots

/-- No block of a batch ends at the last address of all. -/
def BelowTop (ls : List LiveBuf) : Prop := ∀ l ∈ ls, l.place.base + l.place.size ≠ 2 ^ 32

/-- Resetting a table keeps its registers. -/
lemma sameRegs_of_reset {js : List ℕ}
    (h : ∀ j, ms'[j]? = if j ∈ js then ms[j]?.map Mapping.reset else ms[j]?) : SameRegs ms ms' := by
  refine List.ext_getElem? fun j => ?_
  rw [List.getElem?_map, List.getElem?_map, h]
  split_ifs
  · rw [Option.map_map]
    rfl
  · rfl

/-- `keystone_mmap_resource_free` of a batch that is mapped. -/
lemma Rooted.resourceFree {batch rest : List LiveBuf} (h : Rooted c heaps r (batch ++ rest))
    (hroots : RootsApart heaps r.heap) (hdis : heaps.Pairwise Block.Disjoint)
    (htop : BelowTop batch) :
    ∃ r', Heap.resourceFree c (batch.map LiveBuf.arg) r = .ok (true, r') ∧ Rooted c heaps r' rest ∧
      SameRoots heaps r.heap r'.heap ∧
      ∀ j, r'.mapping[j]? = if j ∈ batchSlots batch then r.mapping[j]?.map Mapping.reset
        else r.mapping[j]? := by
  induction batch generalizing r with
  | nil => exact ⟨r, rfl, h, SameRoots.refl _ _, fun j => by simp [batchSlots]⟩
  | cons l batch ih =>
    rw [List.cons_append, ← List.nil_append (l :: _)] at h
    obtain ⟨r₁, he, h₁, hs₁, hm₁⟩ := h.resourceFree_cons hroots hdis (htop l List.mem_cons_self)
      (batch.map LiveBuf.arg)
    obtain ⟨r₂, he₂, h₂, hs₂, hm₂⟩ := ih h₁ (hroots.congr hs₁)
      fun l' hl' => htop l' (List.mem_cons_of_mem _ hl')
    refine ⟨r₂, by rw [List.map_cons, he, he₂], h₂, hs₁.trans hs₂, fun j => ?_⟩
    rw [hm₂, hm₁]
    simp only [batchSlots, List.flatMap_cons, List.mem_append]
    by_cases hj : j ∈ l.place.slots
    · simp only [hj, true_or, if_true, Option.map_map]
      split_ifs
      · rfl
      · rfl
    · simp [hj]

/-! ### Mapping a batch -/

/-- The number of entries that are available. -/
def available (ms : List Mapping) : ℕ := ms.countP fun m => Mapping.Available m

/-- `fillEntry` takes one entry. -/
lemma available_fillEntry {fill : Mapping → Mapping} (hfill : ∀ m, ¬ Mapping.Available (fill m))
    (h : fillEntry fill ms = some ms') : available ms = available ms' + 1 := by
  induction ms generalizing ms' with
  | nil => cases h
  | cons m ms ih =>
    rw [fillEntry] at h
    split at h
    · next ha =>
      cases h
      simp [available, ha, hfill m]
    · next ha =>
      obtain ⟨ms₁, hms, rfl⟩ := Option.map_eq_some_iff.mp h
      have := ih hms
      simp only [available, List.countP_cons, ha, decide_false] at this ⊢
      simpa using this

/-- `fillEntry` fails if there is no entry. -/
lemma available_eq_zero {fill : Mapping → Mapping} (h : fillEntry fill ms = none) :
    available ms = 0 := by
  rw [available, List.countP_eq_zero]
  intro m hm ha
  exact fillEntry_eq_none.mp h m hm (of_decide_eq_true ha)

/-- Filled entries are not available. -/
lemma not_available_fill {w : Windows} {virt seg prot i : ℕ} (hseg : 0 < seg) (m : Mapping) :
    ¬ Mapping.Available (windowEntry w virt seg prot i m) := fun h => absurd h.2 hseg.ne'

/-- `fillEntries` takes one entry for each window. -/
lemma available_fillEntries {w : Windows} {virt seg prot n i : ℕ} (hseg : 0 < seg)
    (h : fillEntries w virt seg prot n i ms = (true, ms')) : available ms = available ms' + n := by
  induction n generalizing i ms with
  | zero =>
    cases h
    rfl
  | succ n ih =>
    rw [fillEntries] at h
    split at h
    · next ms₁ hms =>
      have h1 := available_fillEntry (not_available_fill hseg) hms
      have h2 := ih h
      omega
    · cases h

/-- `fillEntries` fails if there are fewer entries than windows, and then fills those that there are;
with none left it does not change the table. -/
lemma fillEntries_false {w : Windows} {virt seg prot n : ℕ} (hseg : 0 < seg) (hn : n = 1 ∨ n = 2)
    (h : fillEntries w virt seg prot n 0 ms = (false, ms')) :
    available ms < n ∧ (available ms = 0 → ms' = ms) := by
  obtain ⟨n, rfl⟩ : ∃ n', n = n' + 1 := ⟨n - 1, by omega⟩
  rw [fillEntries] at h
  split at h
  · next ms₁ hms =>
    have h1 := available_fillEntry (not_available_fill hseg) hms
    rcases Nat.eq_zero_or_pos n with rfl | hpos
    · cases h
    · -- the second window finds no entry, so there was exactly one
      obtain rfl : n = 1 := by omega
      rw [fillEntries] at h
      split at h
      · cases h
      · next hnone =>
        have h0 := available_eq_zero hnone
        exact ⟨by omega, fun hz => by omega⟩
  · next hnone =>
    cases h
    have h0 := available_eq_zero hnone
    exact ⟨by omega, fun _ => rfl⟩

/-- What is needed of the configuration of the heaps. -/
structure HeapsOk (heaps : List Block) : Prop where
  noZero : NoZeroHeap heaps
  disjoint : heaps.Pairwise Block.Disjoint
  le : ∀ h ∈ heaps, h.1 + h.2 ≤ 2 ^ 32

/-- The block that the heaps in turn hand out. -/
lemma Rooted.allocInHeaps (h : Rooted c heaps r ls) (hh : HeapsOk heaps) (k prot : ℕ) :
    Heap.allocInHeaps c (2 ^ k) prot r.numHeaps 0 r.heap = .error .noElement ∨
      Heap.allocInHeaps c (2 ^ k) prot r.numHeaps 0 r.heap = .ok (none, r.heap) ∨
      ∃ a idx bank', Heap.allocInHeaps c (2 ^ k) prot r.numHeaps 0 r.heap =
          .ok (some (a, idx), bank') ∧ 0 < a ∧ 2 ^ k ∣ a ∧ a + 2 ^ k ≤ 2 ^ 32 ∧
        Standing c heaps ⟨bank', ⟨idx, a, 2 ^ k⟩ :: ls.map fun l => l.place.handed⟩ ∧
        SameRoots heaps r.heap bank' := by
  rw [h.numHeaps]
  rcases h.standing.allocInHeaps hh.noZero (Nat.zero_add _) (k := k) with
    he | he | ⟨a, idx, bank', he, ha, hst, hsame⟩
  · exact Or.inl he
  · exact Or.inr (Or.inl he)
  · have hinv := hst.buddyInvariant hh.disjoint
    obtain ⟨range, hr, -, hle⟩ := hinv.inside _ List.mem_cons_self
    have hdvd := (hinv.aligned _ List.mem_cons_self).2
    have hle' := hh.le range (List.mem_of_getElem? hr)
    exact Or.inr (Or.inr ⟨a, idx, bank', he, Nat.pos_of_ne_zero ha, hdvd, hle.trans hle', hst, hsame⟩)

/-- The size of the address space for a buffer. -/
def spaceSize (b : PhysBuf) : ℕ :=
  wmul 32 (alignBuf b.physAddr b.length).numMappings (alignBuf b.physAddr b.length).alignedLen

/-- Where mapping a list of buffers fails, with `n` entries available: the blocks of the buffers
before that one, and the number of entries that are filled for it; `none` if all are mapped or an
element of the bank is missing. -/
@[simp] def failsWith (c : MmapConstants) (numHeaps : ℕ) : List PhysBuf → ℕ → Bank → Option (List Block × ℕ)
  | [], _, _ => none
  | b :: bufs, n, bank =>
    match Heap.allocInHeaps c (spaceSize b) b.prot numHeaps 0 bank with
    | .error _ => none
    | .ok (none, _) => some ([], 0)
    | .ok (some (addr, _), bank) =>
      if (alignBuf b.physAddr b.length).numMappings ≤ n then
        (failsWith c numHeaps bufs (n - (alignBuf b.physAddr b.length).numMappings) bank).map
          fun q => ((addr, spaceSize b) :: q.1, q.2)
      else some ([], n)

/-- A buffer without address space ends the list. -/
lemma failsWith_noSpace {numHeaps n : ℕ} {b : PhysBuf}
    (h : Heap.allocInHeaps c (spaceSize b) b.prot numHeaps 0 bank = .ok (none, bank'))
    (bufs : List PhysBuf) : failsWith c numHeaps (b :: bufs) n bank = some ([], 0) := by
  rw [failsWith, h]

/-- A buffer with fewer entries than windows ends the list. -/
lemma failsWith_short {numHeaps n : ℕ} {b : PhysBuf} {q : ℕ × ℕ}
    (h : Heap.allocInHeaps c (spaceSize b) b.prot numHeaps 0 bank = .ok (some q, bank'))
    (hn : n < (alignBuf b.physAddr b.length).numMappings) (bufs : List PhysBuf) :
    failsWith c numHeaps (b :: bufs) n bank = some ([], n) := by
  rw [failsWith, h]
  exact if_neg (by omega)

/-- A buffer with address space and entries. -/
lemma failsWith_mapped {numHeaps n : ℕ} {b : PhysBuf} {q : ℕ × ℕ}
    (h : Heap.allocInHeaps c (spaceSize b) b.prot numHeaps 0 bank = .ok (some q, bank'))
    (bufs : List PhysBuf) :
    failsWith c numHeaps (b :: bufs) (n + (alignBuf b.physAddr b.length).numMappings) bank =
      (failsWith c numHeaps bufs n bank').map fun p => ((q.1, spaceSize b) :: p.1, p.2) := by
  rw [failsWith, h]
  simp

/-- A missing element of the bank. -/
lemma failsWith_error {numHeaps n : ℕ} {b : PhysBuf} {e : HeapError}
    (h : Heap.allocInHeaps c (spaceSize b) b.prot numHeaps 0 bank = .error e)
    (bufs : List PhysBuf) : failsWith c numHeaps (b :: bufs) n bank = none := by
  rw [failsWith, h]

/-- One buffer: an element of the bank is missing, or it is not mapped and nothing changes but the
shape of the heaps, or it is mapped. -/
lemma Rooted.allocBuf {b : PhysBuf} (h : Rooted c heaps r ls) (hh : HeapsOk heaps)
    (hb : PhysBuf.Valid b) (hmap : Mappable b.physAddr b.length)
    (hav : ∀ q bank, Heap.allocInHeaps c (spaceSize b) b.prot r.numHeaps 0 r.heap = .ok (some q, bank) →
      available r.mapping < (alignBuf b.physAddr b.length).numMappings → available r.mapping = 0) :
    Heap.allocBuf c b r = .error .noElement ∧
        Heap.allocInHeaps c (spaceSize b) b.prot r.numHeaps 0 r.heap = .error .noElement ∨
      (∃ r', Heap.allocBuf c b r = .ok (none, r') ∧ Rooted c heaps r' ls ∧ r'.mapping = r.mapping ∧
        SameRoots heaps r.heap r'.heap ∧
        ∀ bufs, failsWith c heaps.length (b :: bufs) (available r.mapping) r.heap = some ([], 0)) ∨
      ∃ virt p r', Heap.allocBuf c b r = .ok (some virt, r') ∧
        Rooted c heaps r' (⟨b, virt, p⟩ :: ls) ∧ SameRoots heaps r.heap r'.heap ∧
        available r.mapping = available r'.mapping + (alignBuf b.physAddr b.length).numMappings ∧
        (∀ j, j ∉ p.slots → r'.mapping[j]? = r.mapping[j]?) ∧ SameRegs r.mapping r'.mapping ∧
        Heap.allocInHeaps c (spaceSize b) b.prot r.numHeaps 0 r.heap =
          .ok (some (p.base, p.heap), r'.heap) ∧ p.size = spaceSize b := by
  obtain ⟨k, m, hw, -, hsize, -, -, hmul, hlog⟩ := hb.windows
  have hspace : spaceSize b = 2 ^ m := hmul
  rw [hspace] at hav ⊢
  generalize hwd : alignBuf b.physAddr b.length = w at *
  have hheap : ∀ m a idx bank, Heap.allocInHeaps c (2 ^ m) b.prot r.numHeaps 0 r.heap =
      .ok (some (a, idx), bank) → 2 ^ m ∣ a ∧ a + 2 ^ m ≤ 2 ^ 32 := by
    intro m a idx bank hal
    rcases h.allocInHeaps hh m b.prot with he | he | ⟨_, _, _, he, _, hd, hle, _⟩
    · rw [he] at hal
      cases hal
    · rw [he] at hal
      cases hal
    · rw [he] at hal
      cases hal
      exact ⟨hd, hle⟩
  have hfree : ∀ a idx bank, Heap.allocInHeaps c (2 ^ m) b.prot r.numHeaps 0 r.heap =
      .ok (some (a, idx), bank) → ∃ bank', heapFree c (heapFuel c) bank idx a = .ok (1, bank') ∧
        Standing c heaps ⟨bank', ls.map fun l => l.place.handed⟩ ∧ SameRoots heaps r.heap bank' := by
    intro a idx bank hal
    rcases h.allocInHeaps hh m b.prot with he | he | ⟨_, _, _, he, _, hd, hle, hst, hsame⟩
    · rw [he] at hal
      cases hal
    · rw [he] at hal
      cases hal
    · rw [he] at hal
      cases hal
      obtain ⟨bank', hf, hst', hsame'⟩ := hst.heapFree a (List.nil_append _).symm
        ⟨le_rfl, Nat.lt_add_of_pos_right (Nat.two_pow_pos m)⟩
      exact ⟨bank', hf, hst', hsame.trans hsame'⟩
  match hres : Heap.allocBuf c b r with
  | .error e =>
    left
    rw [allocBuf_eq hwd hlog] at hres
    rcases allocWindows_error hres with he | ⟨a, idx, bank, hal, hf⟩
    · rw [hmul] at he
      rcases h.allocInHeaps hh m b.prot with he' | he' | ⟨_, _, _, he', _⟩
      · rw [he'] at he
        cases he
        exact ⟨rfl, he'⟩
      · rw [he'] at he
        cases he
      · rw [he'] at he
        cases he
    · rw [hmul] at hal
      obtain ⟨_, hf', -⟩ := hfree a idx bank hal
      rw [hf'] at hf
      cases hf
  | .ok (none, r') =>
    refine Or.inr (Or.inl ⟨r', rfl, ?_⟩)
    rw [allocBuf_eq hwd hlog] at hres
    rcases allocWindows_ok hres with
      ⟨bank, hal, -, rfl⟩ | ⟨a, idx, bank, ms, hal, ⟨-, hnone, -⟩ | ⟨hfe, -, ret, bank', hf, rfl⟩⟩
    · rw [hmul] at hal
      rcases h.allocInHeaps hh m b.prot with he | he | ⟨_, _, _, he, _⟩
      · rw [he] at hal
        cases hal
      · rw [he] at hal
        cases hal
        exact ⟨⟨h.numHeaps, h.standing, h.booked, h.ok⟩, rfl, SameRoots.refl _ _,
          failsWith_noSpace (by rw [hspace, ← h.numHeaps]; exact he)⟩
      · rw [he] at hal
        cases hal
    · cases hnone
    · rw [hmul] at hal
      obtain ⟨bank'', hf', hst, hsame⟩ := hfree a idx bank hal
      rw [hf'] at hf
      cases hf
      have hk := hw.le
      have hn : w.numMappings = 1 ∨ w.numMappings = 2 := hw.num.imp And.left And.left
      obtain ⟨hlt, hms⟩ := fillEntries_false (by omega) hn hfe
      have h0 := hav _ _ hal hlt
      rw [hms h0]
      refine ⟨⟨h.numHeaps, hst, h.booked, h.ok⟩, rfl, hsame, fun bufs => ?_⟩
      rw [failsWith_short (by rw [hspace, ← h.numHeaps]; exact hal) (by rwa [hwd]) bufs, h0]
  | .ok (some virt, r') =>
    obtain ⟨p, m', hps, hal, hnum, hpl, hbook, -, hreset, hrest⟩ := allocBuf_some hb h.booked hheap hres
    refine Or.inr (Or.inr ⟨virt, p, r', rfl, ?_⟩)
    have hregs : SameRegs r.mapping r'.mapping := by
      refine List.ext_getElem? fun j => ?_
      rw [List.getElem?_map, List.getElem?_map]
      by_cases hj : j ∈ p.slots
      · obtain ⟨e, he, he'⟩ := hreset j hj
        obtain ⟨e', -, rfl⟩ := Option.map_eq_some_iff.mp he'
        rw [he', he]
        rfl
      · rw [hrest j hj]
    have hcount : available r.mapping = available r'.mapping + w.numMappings := by
      rw [allocBuf_eq hwd hlog] at hres
      have hk := hw.le
      rcases allocWindows_ok hres with
        ⟨_, _, hnone, _⟩ | ⟨_, _, _, ms, _, ⟨hfe, -, rfl⟩ | ⟨_, hnone, _⟩⟩
      · cases hnone
      · exact available_fillEntries (by omega) hfe
      · cases hnone
    have hm : 2 ^ m' = 2 ^ m := by
      have hlog' := hpl.windows.alignedLen
      rw [hwd, hw.alignedLen] at hlog'
      rw [← hps, Placement.size, hpl.num, hwd, ← hlog', hsize]
    rcases h.allocInHeaps hh m' b.prot with he | he | ⟨a, idx, bank', he, hpos, -, -, hst, hsame⟩
    · rw [he] at hal
      cases hal
    · rw [he] at hal
      cases hal
    · rw [he] at hal
      simp only [Except.ok.injEq, Prod.mk.injEq, Option.some.injEq] at hal
      obtain ⟨⟨rfl, rfl⟩, rfl⟩ := hal
      rw [hm] at he
      rw [← hps] at hst
      refine ⟨⟨hnum.trans h.numHeaps, hst, hbook, ?_⟩, hsame, hcount, hrest, hregs, he, hps.trans hm⟩
      intro l hl
      rcases List.mem_cons.mp hl with rfl | hl
      · exact ⟨hpl, hb, hmap, hpos⟩
      · exact h.ok l hl

/-- No buffer that takes two windows finds exactly one of `n` entries left. -/
def EntriesOk : List PhysBuf → ℕ → Prop
  | [], _ => True
  | b :: bufs, n => ¬ ((alignBuf b.physAddr b.length).numMappings = 2 ∧ n = 1) ∧
      EntriesOk bufs (n - (alignBuf b.physAddr b.length).numMappings)

lemma SameRegs.trans {ms'' : List Mapping} (h : SameRegs ms ms') (h' : SameRegs ms' ms'') :
    SameRegs ms ms'' := Eq.trans h' h

/-- `allocBufs` on a buffer that ends it. -/
lemma allocBufs_cons_error {b : PhysBuf} {bufs : List PhysBuf} {e : HeapError}
    (h : Heap.allocBuf c b r = .error e) : allocBufs c (b :: bufs) r = .error e := by
  rw [allocBufs, h]
  rfl

/-- `allocBufs` on a buffer that cannot be mapped. -/
lemma allocBufs_cons_none {b : PhysBuf} {bufs : List PhysBuf}
    (h : Heap.allocBuf c b r = .ok (none, r')) :
    allocBufs c (b :: bufs) r = .ok (false, [], r') := by
  rw [allocBufs, h]
  rfl

/-- `allocBufs` on a buffer that is mapped. -/
lemma allocBufs_cons_some {b : PhysBuf} {bufs : List PhysBuf} {virt : ℕ}
    (h : Heap.allocBuf c b r = .ok (some virt, r')) :
    allocBufs c (b :: bufs) r =
      (allocBufs c bufs r').map fun q => (q.1, virt :: q.2.1, q.2.2) := by
  rw [allocBufs, h]
  simp only [bind, Except.bind]
  cases allocBufs c bufs r' with
  | error e => rfl
  | ok q => rfl

/-- The block of a live buffer. -/
def LiveBuf.block (l : LiveBuf) : Block := l.place.handed.block

/-- The loop over the buffers: an element of the bank is missing, or all of them or the first ones are
mapped. -/
lemma Rooted.allocBufs {bufs : List PhysBuf} (h : Rooted c heaps r ls) (hh : HeapsOk heaps)
    (hb : ∀ b ∈ bufs, PhysBuf.Valid b ∧ Mappable b.physAddr b.length)
    (hent : ∀ q ∈ failsWith c heaps.length bufs (available r.mapping) r.heap, q.2 = 0) :
    (Heap.allocBufs c bufs r = .error .noElement ∧
        failsWith c heaps.length bufs (available r.mapping) r.heap = none) ∨
      ∃ ok r', ∃ news : List LiveBuf,
        Heap.allocBufs c bufs r = .ok (ok, news.map LiveBuf.virt, r') ∧
        Rooted c heaps r' (news ++ ls) ∧ SameRoots heaps r.heap r'.heap ∧
        (∀ j, j ∉ batchSlots news → r'.mapping[j]? = r.mapping[j]?) ∧
        SameRegs r.mapping r'.mapping ∧ news.map LiveBuf.buf <+: bufs ∧
        (ok = true → news.map LiveBuf.buf = bufs) ∧
        failsWith c heaps.length bufs (available r.mapping) r.heap =
          if ok then none else some (news.map LiveBuf.block, 0) := by
  induction bufs generalizing r ls with
  | nil =>
    exact Or.inr ⟨true, r, [], rfl, h, SameRoots.refl _ _, fun _ _ => rfl, rfl, by simp, by simp, rfl⟩
  | cons b bufs ih =>
    obtain ⟨hvalid, hmap⟩ := hb b List.mem_cons_self
    have hav : ∀ q bank, Heap.allocInHeaps c (spaceSize b) b.prot r.numHeaps 0 r.heap =
        .ok (some q, bank) → available r.mapping < (alignBuf b.physAddr b.length).numMappings →
        available r.mapping = 0 := by
      intro q bank hal hlt
      rw [h.numHeaps] at hal
      exact hent _ (failsWith_short hal hlt bufs)
    rcases h.allocBuf hh hvalid hmap hav with
      ⟨he, hal⟩ | ⟨r₁, he, h₁, hm₁, hs₁, hfail⟩ |
        ⟨virt, p, r₁, he, h₁, hs₁, hcount, hrest, hregs, hal, hsize⟩
    · rw [h.numHeaps] at hal
      exact Or.inl ⟨allocBufs_cons_error he, failsWith_error hal bufs⟩
    · exact Or.inr ⟨false, r₁, [], allocBufs_cons_none he, h₁, hs₁, fun _ _ => by rw [hm₁],
        by rw [hm₁]; rfl, by simp, by simp, hfail bufs⟩
    · rw [h.numHeaps] at hal
      rw [hcount, failsWith_mapped hal bufs] at hent ⊢
      have hent' : ∀ q ∈ failsWith c heaps.length bufs (available r₁.mapping) r₁.heap, q.2 = 0 :=
        fun q hq => hent ((p.base, spaceSize b) :: q.1, q.2) (Option.mem_map_of_mem _ hq)
      rcases ih h₁ (fun b hb' => hb b (List.mem_cons_of_mem _ hb')) hent' with
        ⟨he₂, hnone⟩ | ⟨ok, r₂, news, he₂, h₂, hs₂, hrest₂, hregs₂, hpre, hall, hfail⟩
      · exact Or.inl ⟨by rw [allocBufs_cons_some he, he₂]; rfl, by rw [hnone]; rfl⟩
      · refine Or.inr ⟨ok, r₂, ⟨b, virt, p⟩ :: news, ?_, h₂.perm List.perm_middle, hs₁.trans hs₂, ?_,
          hregs.trans hregs₂, ?_, ?_, ?_⟩
        · rw [allocBufs_cons_some he, he₂]
          rfl
        · intro j hj
          simp only [batchSlots, List.flatMap_cons, List.mem_append, not_or] at hj
          rw [hrest₂ j hj.2, hrest j hj.1]
        · exact List.cons_prefix_cons.mpr ⟨rfl, hpre⟩
        · intro hok
          rw [List.map_cons, hall hok]
        · rw [hfail, ← hsize]
          cases ok with
          | true => rfl
          | false => rfl

/-- With the entries counted, the buffer that fails finds none. -/
lemma EntriesOk.failsWith {numHeaps n : ℕ} {bufs : List PhysBuf} (h : EntriesOk bufs n) :
    ∀ q ∈ failsWith c numHeaps bufs n bank, q.2 = 0 := by
  induction bufs generalizing n bank with
  | nil => simp
  | cons b bufs ih =>
    intro q hq
    have hnum : (alignBuf b.physAddr b.length).numMappings = 1 ∨
        (alignBuf b.physAddr b.length).numMappings = 2 := by
      simp only [alignBuf]
      split_ifs
      · exact Or.inr rfl
      · exact Or.inl rfl
    rw [Heap.failsWith] at hq
    split at hq
    · cases hq
    · cases hq
      rfl
    · split_ifs at hq with hle
      · obtain ⟨q', hq', rfl⟩ := Option.mem_map.mp hq
        exact ih h.2 q' hq'
      · cases hq
        have h1 := h.1
        show n = 0
        omega

/-- The arguments with which a failing call unmaps the buffers that were mapped. -/
lemma zip_virts_lengths {bufs : List PhysBuf} {news : List LiveBuf} (h : news.map LiveBuf.buf <+: bufs) :
    (news.map LiveBuf.virt).zip (bufs.map PhysBuf.length) = news.map LiveBuf.arg := by
  induction news generalizing bufs with
  | nil => rfl
  | cons l news ih =>
    cases bufs with
    | nil => exact absurd h (by simp)
    | cons b bufs =>
      obtain ⟨rfl, htail⟩ := List.cons_prefix_cons.mp h
      simp only [List.map_cons, List.zip_cons_cons, ih htail]
      rfl

/-! ### Runs -/

/-- A batch of buffers that is mapped: the arguments to unmap it, and the state before and after it
was mapped. -/
structure Batch where
  args : List (ℕ × ℕ)
  before : Resources
  after : Resources

/-- The resources and the batches that are mapped. -/
structure Session where
  res : Resources
  batches : List Batch

/-- A call of the resource manager. -/
inductive Call
  /-- `keystone_mmap_resource_alloc`. -/
  | alloc (bufs : List PhysBuf)
  /-- `keystone_mmap_resource_free` with the addresses and the lengths of a batch. -/
  | free (k : ℕ)

/-- One call. -/
def Session.step (c : MmapConstants) (s : Session) : Call → Except HeapError Session
  | .alloc bufs => do
    let (virts, r) ← resourceAlloc c bufs s.res
    match virts with
    | some virts => .ok ⟨r, ⟨virts.zip (bufs.map PhysBuf.length), s.res, r⟩ :: s.batches⟩
    | none => .ok ⟨r, s.batches⟩
  | .free k =>
    match s.batches[k]? with
    | some batch => do
      let (_, r) ← resourceFree c batch.args s.res
      .ok ⟨r, s.batches.eraseIdx k⟩
    | none => .ok s

/-- A sequence of calls. -/
def Session.run (c : MmapConstants) : Session → List Call → Except HeapError Session
  | s, [] => .ok s
  | s, call :: calls => (s.step c call).bind fun s => Session.run c s calls

/-- The condition on a call of `keystone_mmap_resource_free`: no window with the beginning or the end
of one of the buffers ends at the last address of all. -/
def FreeOk (r : Resources) (args : List (ℕ × ℕ)) : Prop :=
  ∀ a ∈ args, ∀ m ∈ r.mapping, m.window.Covers a.1 ∨ m.window.Covers (a.1 + a.2 - 1) →
    m.baddr + 2 ^ m.segsizePower2 ≠ 2 ^ 32

/-- The condition on a call: the buffers are mappable and no buffer that takes two windows finds
exactly one entry left, and every call of `keystone_mmap_resource_free`, also the one that a failing
`keystone_mmap_resource_alloc` makes, meets its condition. -/
def CallOk (c : MmapConstants) (s : Session) : Call → Prop
  | .alloc bufs => (∀ b ∈ bufs, PhysBuf.Valid b ∧ Mappable b.physAddr b.length) ∧
      EntriesOk bufs (available s.res.mapping) ∧
      ∀ virts r, allocBufs c bufs s.res = .ok (false, virts, r) →
        FreeOk r (virts.zip (bufs.map PhysBuf.length))
  | .free k => ∀ batch, s.batches[k]? = some batch → FreeOk s.res batch.args

/-- Every call of a sequence meets its condition in the state it finds. -/
def CallsOk (c : MmapConstants) : Session → List Call → Prop
  | _, [] => True
  | s, call :: calls => CallOk c s call ∧ ∀ s', s.step c call = .ok s' → CallsOk c s' calls

/-- The condition on a call, in the state before it: the buffers are mappable, and if the call fails
then the failing buffer finds no entry at all and no block of the buffers before it ends at the last
address of all; and every call of `keystone_mmap_resource_free` meets its condition. -/
def CleanCall (c : MmapConstants) (s : Session) : Call → Prop
  | .alloc bufs => (∀ b ∈ bufs, PhysBuf.Valid b ∧ Mappable b.physAddr b.length) ∧
      ∀ q ∈ failsWith c s.res.numHeaps bufs (available s.res.mapping) s.res.heap,
        q.2 = 0 ∧ ∀ block ∈ q.1, block.1 + block.2 ≠ 2 ^ 32
  | .free k => ∀ batch, s.batches[k]? = some batch → FreeOk s.res batch.args

/-- Every call of a sequence meets its condition in the state before it. -/
def CleanCalls (c : MmapConstants) : Session → List Call → Prop
  | _, [] => True
  | s, call :: calls => CleanCall c s call ∧ ∀ s', s.step c call = .ok s' → CleanCalls c s' calls

/-- Unmapping a batch took back what mapping it took: the entries that it changed are as before, all
others as they were, and the addresses that it took are free again. -/
structure Undone (c : MmapConstants) (batch : Batch) (r r' : Resources) : Prop where
  mapping : ∀ j : ℕ, r'.mapping[j]? =
    if batch.before.mapping[j]? = batch.after.mapping[j]? then r.mapping[j]?
    else batch.before.mapping[j]?
  heap : ∀ i < r.numHeaps, ∀ x, FreeAt c r'.heap i x ↔
    FreeAt c r.heap i x ∨ FreeAt c batch.before.heap i x ∧ ¬ FreeAt c batch.after.heap i x

/-- A batch with its live buffers; `r₀` is the state after the setup. -/
structure BatchOk (c : MmapConstants) (heaps : List Block) (r₀ : Resources) (batch : Batch)
    (news : List LiveBuf) : Prop where
  args : batch.args = news.map LiveBuf.arg
  rooted : ∃ ls, Rooted c heaps batch.before ls ∧ Rooted c heaps batch.after (news ++ ls)
  rest : ∀ j : ℕ, j ∉ batchSlots news → batch.after.mapping[j]? = batch.before.mapping[j]?
  roots : SameRoots heaps r₀.heap batch.before.heap ∧ SameRoots heaps r₀.heap batch.after.heap
  regs : SameRegs r₀.mapping batch.before.mapping

/-- What every state of a run keeps. -/
structure SessionInv (c : MmapConstants) (heaps : List Block) (r₀ : Resources) (s : Session) : Prop where
  batches : ∃ lss, List.Forall₂ (BatchOk c heaps r₀) s.batches lss ∧
    Rooted c heaps s.res lss.flatten
  roots : SameRoots heaps r₀.heap s.res.heap
  regs : SameRegs r₀.mapping s.res.mapping

/-- The condition on a call of `keystone_mmap_resource_free` keeps the blocks off the last address. -/
lemma Rooted.belowTop {batch : List LiveBuf} (h : Rooted c heaps r ls) (hsub : batch ⊆ ls)
    (hok : FreeOk r (batch.map LiveBuf.arg)) : BelowTop batch := by
  intro l hl
  have hlok := h.ok l (hsub hl)
  have hmem : l.place ∈ ls.map LiveBuf.place := List.mem_map_of_mem (hsub hl)
  have hsound := h.booked.sound l.place hmem
  obtain ⟨h1, h2, h3, h4⟩ := hlok.places.inside hsound hlok.valid hlok.mappable
  have hpos := hlok.valid.pos
  have hn : l.place.slots.length - 1 < l.place.slots.length := by
    rcases hsound.num with hn | hn
    · omega
    · omega
  -- the last window contains the last byte
  obtain ⟨m, hm, hent⟩ := h.booked.entry _ hmem _ _ (List.getElem?_eq_getElem hn)
  have hend : m.baddr + 2 ^ m.segsizePower2 = l.place.base + l.place.size := by
    rw [hent.baddr, hent.segsize, Placement.size]
    rcases hsound.num with hn | hn
    · rw [hn]
      omega
    · rw [hn]
      omega
  rw [← hend]
  refine hok l.arg (List.mem_map_of_mem hl) m (List.mem_of_getElem? hm) (Or.inr ⟨?_, ?_⟩)
  · show m.baddr ≤ l.virt + l.buf.length - 1
    rw [hent.baddr]
    rcases hsound.num with hn | hn
    · rw [hn]
      omega
    · rw [hn]
      have := h4 hn
      omega
  · show l.virt + l.buf.length - 1 < m.baddr + 2 ^ m.segsizePower2
    omega

/-! ### Unmapping a batch takes back what mapping it took -/

/-- No live buffer of a list has the address in its block of heap `i`. -/
def Clear (ls : List LiveBuf) (i x : ℕ) : Prop :=
  ∀ l ∈ ls, l.place.heap = i → ¬ l.place.handed.block.Covers x

lemma clear_append {ls₁ ls₂ : List LiveBuf} {i x : ℕ} :
    Clear (ls₁ ++ ls₂) i x ↔ Clear ls₁ i x ∧ Clear ls₂ i x := by
  simp only [Clear, List.mem_append, or_imp, forall_and]

/-- The free addresses of a heap. -/
lemma Rooted.freeAt_iff {range : Block} {i x : ℕ} (h : Rooted c heaps r ls)
    (hi : heaps[i]? = some range) :
    FreeAt c r.heap i x ↔ (0 < (r.heap i).length ∧ range.Covers x) ∧ Clear ls i x := by
  rw [h.standing.freeAt_iff hi, and_assoc]
  refine and_congr_right fun _ => and_congr_right fun _ => ?_
  simp only [Clear, List.forall_mem_map]
  rfl

/-- An address in the block of one live buffer is in no other block. -/
lemma Rooted.clear_of_not_clear {ls₁ ls₂ : List LiveBuf} {i x : ℕ}
    (h : Rooted c heaps r (ls₁ ++ ls₂)) (hdis : heaps.Pairwise Block.Disjoint)
    (hn : ¬ Clear ls₁ i x) : Clear ls₂ i x := by
  simp only [Clear, not_forall, not_not] at hn
  obtain ⟨l₁, hl₁, -, hx⟩ := hn
  intro l₂ hl₂ _ hx'
  have hpw := h.disjoint hdis
  rw [List.map_append, List.map_append, List.pairwise_append] at hpw
  exact hpw.2.2 _ (List.mem_map_of_mem (List.mem_map_of_mem hl₁)) _
    (List.mem_map_of_mem (List.mem_map_of_mem hl₂)) x ⟨hx, hx'⟩

/-- The registers of an entry never change. -/
lemma SameRegs.getElem?_reset (h : SameRegs ms ms') (j : ℕ) :
    ms'[j]?.map Mapping.reset = ms[j]?.map Mapping.reset := by
  rw [← List.getElem?_map, ← List.getElem?_map]
  exact congrArg (·[j]?) h

/-- The entries of buffers are idle before they are mapped. -/
lemma idle_of_mem_batchSlots {news : List LiveBuf} {j : ℕ} {m : Mapping} (hr : Rooted c heaps r ls)
    (hr' : Rooted c heaps r' (news ++ ls)) (hj : j ∈ batchSlots news) (hm : r.mapping[j]? = some m) :
    Mapping.Idle m := by
  refine hr.booked.idle j m hm fun hmem => ?_
  have hnd := hr'.booked.nodup
  rw [List.map_append, List.flatMap_append, List.nodup_append] at hnd
  refine hnd.2.2 j ?_ j hmem rfl
  rw [List.flatMap_map]
  exact hj

/-- The entries of a batch are idle before it is mapped. -/
lemma BatchOk.before_idle {r₀ : Resources} {batch : Batch} {news : List LiveBuf} {j : ℕ} {m : Mapping}
    (h : BatchOk c heaps r₀ batch news) (hj : j ∈ batchSlots news)
    (hm : batch.before.mapping[j]? = some m) : Mapping.Idle m := by
  obtain ⟨ls, hbefore, hafter⟩ := h.rooted
  exact idle_of_mem_batchSlots hbefore hafter hj hm

/-- Mapping a batch changes its entries. -/
lemma BatchOk.changed {r₀ : Resources} {batch : Batch} {news : List LiveBuf} {j : ℕ}
    (h : BatchOk c heaps r₀ batch news) (hj : j ∈ batchSlots news) :
    batch.before.mapping[j]? ≠ batch.after.mapping[j]? := by
  intro heq
  obtain ⟨ls, -, hafter⟩ := h.rooted
  obtain ⟨l, hl, hjl⟩ := List.mem_flatMap.mp hj
  obtain ⟨t, ht, hjt⟩ := List.mem_iff_getElem.mp hjl
  have hmem : l.place ∈ (news ++ ls).map LiveBuf.place :=
    List.mem_map_of_mem (List.mem_append_left _ hl)
  obtain ⟨m, hm, hent⟩ := hafter.booked.entry l.place hmem t j
    (by rw [List.getElem?_eq_getElem ht, hjt])
  have hidle : Mapping.reset m = m := h.before_idle hj (heq.trans hm)
  have hseg := hent.segsize
  rw [← hidle] at hseg
  have hle := (hafter.booked.sound _ hmem).le
  have hzero : (Mapping.reset m).segsizePower2 = 0 := rfl
  omega

/-- Unmapping a live batch. -/
lemma BatchOk.undone {r₀ : Resources} {batch : Batch} {news rest : List LiveBuf}
    (h : BatchOk c heaps r₀ batch news) (hr : Rooted c heaps r (news ++ rest))
    (hr' : Rooted c heaps r' rest) (hdis : heaps.Pairwise Block.Disjoint)
    (hroots : SameRoots heaps r₀.heap r.heap) (hroots' : SameRoots heaps r.heap r'.heap)
    (hregs : SameRegs r₀.mapping r.mapping)
    (hms : ∀ j : ℕ, r'.mapping[j]? = if j ∈ batchSlots news then r.mapping[j]?.map Mapping.reset
      else r.mapping[j]?) : Undone c batch r r' := by
  obtain ⟨ls, hbefore, hafter⟩ := h.rooted
  constructor
  · intro j
    rw [hms]
    by_cases hj : j ∈ batchSlots news
    · rw [if_pos hj, if_neg (h.changed hj)]
      rw [hregs.getElem?_reset j, ← h.regs.getElem?_reset j]
      match hm : batch.before.mapping[j]? with
      | none => rfl
      | some m => exact congrArg some (h.before_idle hj hm)
    · rw [if_neg hj, if_pos (h.rest j hj).symm]
  · intro i hi x
    rw [hr.numHeaps] at hi
    have hrange : heaps[i]? = some heaps[i] := List.getElem?_eq_getElem hi
    have hlen := (hroots i hi).2
    rw [hr'.freeAt_iff hrange, hr.freeAt_iff hrange, hbefore.freeAt_iff hrange,
      hafter.freeAt_iff hrange, clear_append, clear_append, (hroots' i hi).2, hlen,
      (h.roots.1 i hi).2, (h.roots.2 i hi).2]
    have h1 := hr.clear_of_not_clear (i := i) (x := x) hdis
    have h2 := hafter.clear_of_not_clear (i := i) (x := x) hdis
    tauto

/-- Mapping buffers and resetting their entries gives the table back. -/
lemma mapping_eq_of_reset {r₁ r₂ : Resources} {news : List LiveBuf} (hr : Rooted c heaps r ls)
    (hr₁ : Rooted c heaps r₁ (news ++ ls))
    (hrest : ∀ j, j ∉ batchSlots news → r₁.mapping[j]? = r.mapping[j]?)
    (hregs : SameRegs r.mapping r₁.mapping)
    (hms : ∀ j : ℕ, r₂.mapping[j]? = if j ∈ batchSlots news then r₁.mapping[j]?.map Mapping.reset
      else r₁.mapping[j]?) : r₂.mapping = r.mapping := by
  refine List.ext_getElem? fun j => ?_
  rw [hms]
  by_cases hj : j ∈ batchSlots news
  · rw [if_pos hj, hregs.getElem?_reset j]
    match hm : r.mapping[j]? with
    | none => rfl
    | some m => exact congrArg some (idle_of_mem_batchSlots hr hr₁ hj hm)
  · rw [if_neg hj, hrest j hj]

/-! ### The run -/

/-- Taking one batch out of a list. -/
lemma forall₂_middle {α β : Type*} {R : α → β → Prop} {l₁ l₂ : List α} {a : α} {bs : List β}
    (h : List.Forall₂ R (l₁ ++ a :: l₂) bs) :
    ∃ m₁ b m₂, bs = m₁ ++ b :: m₂ ∧ R a b ∧ List.Forall₂ R (l₁ ++ l₂) (m₁ ++ m₂) := by
  induction l₁ generalizing bs with
  | nil =>
    cases h with
    | @cons _ b _ bs hab htail => exact ⟨[], b, bs, rfl, hab, htail⟩
  | cons x l₁ ih =>
    cases h with
    | @cons _ y _ bs hxy htail =>
      obtain ⟨m₁, b, m₂, rfl, hab, hrest⟩ := ih htail
      exact ⟨y :: m₁, b, m₂, rfl, hab, .cons hxy hrest⟩

/-- Unmapping a batch of a run. -/
lemma SessionInv.free {r₀ : Resources} {s : Session} {l₁ l₂ : List Batch} {batch : Batch}
    (h : SessionInv c heaps r₀ s) (hh : HeapsOk heaps) (hroots : RootsApart heaps r₀.heap)
    (hl : s.batches = l₁ ++ batch :: l₂) (hok : FreeOk s.res batch.args) :
    ∃ r', resourceFree c batch.args s.res = .ok (true, r') ∧ Undone c batch s.res r' ∧
      SessionInv c heaps r₀ ⟨r', l₁ ++ l₂⟩ := by
  obtain ⟨lss, hall, hr⟩ := h.batches
  rw [hl] at hall
  obtain ⟨m₁, news, m₂, rfl, hbatch, hall'⟩ := forall₂_middle hall
  have hperm : (m₁ ++ news :: m₂).flatten.Perm (news ++ (m₁ ++ m₂).flatten) :=
    List.perm_middle.flatten
  have hr₁ := hr.perm hperm
  rw [hbatch.args] at hok ⊢
  have htop := hr₁.belowTop (List.subset_append_left news _) hok
  obtain ⟨r', he, hr', hs, hms⟩ := hr₁.resourceFree (hroots.congr h.roots) hh.disjoint htop
  refine ⟨r', he, hbatch.undone hr₁ hr' hh.disjoint h.roots hs h.regs hms, ⟨_, hall', hr'⟩,
    h.roots.trans hs, h.regs.trans (sameRegs_of_reset hms)⟩

/-- The condition with the entries counted gives the condition in the state before a call. -/
lemma SessionInv.cleanCall {r₀ : Resources} {s : Session} {call : Call} (h : SessionInv c heaps r₀ s)
    (hh : HeapsOk heaps) (hok : CallOk c s call) : CleanCall c s call := by
  cases call with
  | free k => exact hok
  | alloc bufs =>
    obtain ⟨lss, -, hr⟩ := h.batches
    obtain ⟨hb, hent, hclean⟩ := hok
    refine ⟨hb, fun q hq => ⟨hent.failsWith q hq, ?_⟩⟩
    rw [hr.numHeaps] at hq
    rcases hr.allocBufs hh hb hent.failsWith with
      ⟨-, hnone⟩ | ⟨ok, r₁, news, he, hr₁, -, -, -, hpre, -, hfail⟩
    · rw [hnone] at hq
      cases hq
    · cases ok with
      | true =>
        rw [hfail] at hq
        cases hq
      | false =>
        rw [hfail] at hq
        cases hq
        have hfree := hclean _ _ he
        rw [zip_virts_lengths hpre] at hfree
        have htop := hr₁.belowTop (List.subset_append_left news _) hfree
        intro block hblock
        obtain ⟨l, hl, rfl⟩ := List.mem_map.mp hblock
        exact htop l hl

/-- Mapping a batch in a run: an element of the bank is missing, or it is mapped, or the call fails
and the buffers that were mapped are unmapped again. -/
lemma SessionInv.resourceAlloc {r₀ : Resources} {s : Session} {bufs : List PhysBuf}
    (h : SessionInv c heaps r₀ s) (hh : HeapsOk heaps) (hroots : RootsApart heaps r₀.heap)
    (hok : CleanCall c s (.alloc bufs)) :
    Heap.resourceAlloc c bufs s.res = .error .noElement ∨
      (∃ virts r', Heap.resourceAlloc c bufs s.res = .ok (some virts, r') ∧
        SessionInv c heaps r₀ ⟨r', ⟨virts.zip (bufs.map PhysBuf.length), s.res, r'⟩ :: s.batches⟩) ∨
      ∃ r', Heap.resourceAlloc c bufs s.res = .ok (none, r') ∧
        SessionInv c heaps r₀ ⟨r', s.batches⟩ ∧
        r'.mapping = s.res.mapping ∧
        ∀ i < s.res.numHeaps, ∀ x, FreeAt c r'.heap i x ↔ FreeAt c s.res.heap i x := by
  obtain ⟨lss, hall, hr⟩ := h.batches
  obtain ⟨hb, hent⟩ := hok
  rw [hr.numHeaps] at hent
  rcases hr.allocBufs hh hb fun q hq => (hent q hq).1 with
    ⟨he, -⟩ | ⟨ok, r₁, news, he, hr₁, hs, hrest, hregs, hpre, -, hfail⟩
  · left
    simp [Heap.resourceAlloc, he, bind, Except.bind]
  · right
    cases ok with
    | true =>
      refine Or.inl ⟨news.map LiveBuf.virt, r₁, ?_, ⟨news :: lss, .cons ?_ hall, hr₁⟩,
        h.roots.trans hs, h.regs.trans hregs⟩
      · simp [Heap.resourceAlloc, he, bind, Except.bind]
      · exact ⟨zip_virts_lengths hpre, ⟨lss.flatten, hr, hr₁⟩, hrest, ⟨h.roots, h.roots.trans hs⟩, h.regs⟩
    | false =>
      have htop : BelowTop news := fun l hl =>
        (hent _ hfail).2 l.block (List.mem_map_of_mem hl)
      obtain ⟨r₂, he₂, hr₂, hs₂, hms₂⟩ := hr₁.resourceFree (hroots.congr (h.roots.trans hs)) hh.disjoint
        htop
      refine Or.inr ⟨r₂, ?_, ⟨⟨lss, hall, hr₂⟩, (h.roots.trans hs).trans hs₂,
        (h.regs.trans hregs).trans (sameRegs_of_reset hms₂)⟩, ?_, ?_⟩
      · simp [Heap.resourceAlloc, he, zip_virts_lengths hpre, he₂, bind, Except.bind]
      · exact mapping_eq_of_reset hr hr₁ hrest hregs hms₂
      · intro i hi x
        rw [hr.numHeaps] at hi
        have hrange : heaps[i]? = some heaps[i] := List.getElem?_eq_getElem hi
        rw [hr₂.freeAt_iff hrange, hr.freeAt_iff hrange, (hs₂ i hi).2, (hs i hi).2]

/-- A call that meets its condition. -/
lemma SessionInv.step {r₀ : Resources} {s : Session} {call : Call} (h : SessionInv c heaps r₀ s)
    (hh : HeapsOk heaps) (hroots : RootsApart heaps r₀.heap) (hok : CleanCall c s call) :
    s.step c call = .error .noElement ∨
      ∃ s', s.step c call = .ok s' ∧ SessionInv c heaps r₀ s' := by
  cases call with
  | alloc bufs =>
    rcases h.resourceAlloc hh hroots hok with he | ⟨virts, r', he, h'⟩ | ⟨r', he, h', -⟩
    · exact Or.inl (by simp [Session.step, he, bind, Except.bind])
    · exact Or.inr ⟨_, by simp [Session.step, he, bind, Except.bind], h'⟩
    · exact Or.inr ⟨_, by simp [Session.step, he, bind, Except.bind], h'⟩
  | free k =>
    right
    match hk : s.batches[k]? with
    | none => exact ⟨s, by simp [Session.step, hk], h⟩
    | some batch =>
      obtain ⟨hlt, hget⟩ := List.getElem?_eq_some_iff.mp hk
      have hl : s.batches = s.batches.take k ++ batch :: s.batches.drop (k + 1) := by
        rw [← hget, List.getElem_cons_drop, List.take_append_drop]
      obtain ⟨r', he, -, hinv⟩ := h.free hh hroots hl (hok batch hk)
      rw [← List.eraseIdx_eq_take_drop_succ] at hinv
      exact ⟨⟨r', s.batches.eraseIdx k⟩, by simp [Session.step, hk, he, bind, Except.bind], hinv⟩

/-- The conditions with the entries counted give those in the states before the calls of a run. -/
lemma SessionInv.cleanCalls {r₀ : Resources} {s : Session} {calls : List Call}
    (h : SessionInv c heaps r₀ s) (hh : HeapsOk heaps) (hroots : RootsApart heaps r₀.heap)
    (hok : CallsOk c s calls) : CleanCalls c s calls := by
  induction calls generalizing s with
  | nil => trivial
  | cons call calls ih =>
    have hclean := h.cleanCall hh hok.1
    refine ⟨hclean, fun s₁ hs₁ => ?_⟩
    rcases h.step hh hroots hclean with he | ⟨s₂, he, h₂⟩
    · rw [he] at hs₁
      cases hs₁
    · rw [he] at hs₁
      cases hs₁
      exact ih h₂ (hok.2 _ he)

/-- A run whose calls meet their conditions. -/
lemma SessionInv.run {r₀ : Resources} {s : Session} {calls : List Call} (h : SessionInv c heaps r₀ s)
    (hh : HeapsOk heaps) (hroots : RootsApart heaps r₀.heap) (hok : CleanCalls c s calls) :
    s.run c calls = .error .noElement ∨
      ∃ s', s.run c calls = .ok s' ∧ SessionInv c heaps r₀ s' := by
  induction calls generalizing s with
  | nil => exact Or.inr ⟨s, rfl, h⟩
  | cons call calls ih =>
    rw [Session.run]
    rcases h.step hh hroots hok.1 with he | ⟨s₁, he, h₁⟩
    · exact Or.inl (by rw [he]; rfl)
    · rw [he]
      exact ih h₁ (hok.2 s₁ he)

/-- The state after the setup. -/
lemma sessionInv_init (cfg : HeapConfig c) {regs : List (ℕ × ℕ)}
    (hinit : resourceInit c regs cfg.heaps = .ok (some r)) :
    SessionInv c cfg.heaps r ⟨r, []⟩ := by
  rcases resourceInit_fresh c regs cfg.length_le cfg.lt with he | he | ⟨bank, he, hfresh⟩
  · rw [he] at hinit
    cases hinit
  · rw [he] at hinit
    cases hinit
  · rw [he] at hinit
    cases hinit
    exact ⟨⟨[], .nil, rfl, hfresh.standing, booked_pairRegs c regs, by simp⟩, SameRoots.refl _ _, rfl⟩

/-- In every run whose calls meet their conditions, from a configuration without heaps at zero and
with roots apart, the bank is used up or every batch that is mapped can be unmapped, and that takes
back exactly what mapping it took. -/
theorem undone_of_callsOk (c : MmapConstants) (cfg : HeapConfig c) (regs : List (ℕ × ℕ))
    (hzero : NoZeroHeap cfg.heaps) {r : Resources}
    (hinit : resourceInit c regs cfg.heaps = .ok (some r)) (hroots : RootsApart cfg.heaps r.heap)
    (calls : List Call) (hok : CallsOk c ⟨r, []⟩ calls) :
    Session.run c ⟨r, []⟩ calls = .error .noElement ∨
      ∃ s, Session.run c ⟨r, []⟩ calls = .ok s ∧
        ∀ batch ∈ s.batches, FreeOk s.res batch.args →
          ∃ r', resourceFree c batch.args s.res = .ok (true, r') ∧ Undone c batch s.res r' := by
  have hh : HeapsOk cfg.heaps := ⟨hzero, cfg.disjoint, fun h hh => (cfg.lt h hh).2⟩
  have hinit' := sessionInv_init cfg hinit
  rcases hinit'.run hh hroots (hinit'.cleanCalls hh hroots hok) with he | ⟨s, he, hinv⟩
  · exact Or.inl he
  · refine Or.inr ⟨s, he, fun batch hb hfree => ?_⟩
    obtain ⟨l₁, l₂, hl⟩ := List.append_of_mem hb
    obtain ⟨r', he', hundone, -⟩ := hinv.free hh hroots hl hfree
    exact ⟨r', he', hundone⟩

/-! ### A run that keeps the promise, and a window at the top -/

instance (b : PhysBuf) : Decidable (PhysBuf.Valid b) :=
  decidable_of_iff (b.physAddr < 2 ^ 36 ∧ 1 ≤ b.length ∧ b.length < 2 ^ 32)
    ⟨fun h => ⟨h.1, h.2.1, h.2.2⟩, fun h => ⟨h.phys_lt, h.pos, h.lt⟩⟩

instance decidableEntriesOk : (bufs : List PhysBuf) → (n : ℕ) → Decidable (EntriesOk bufs n)
  | [], _ => isTrue trivial
  | b :: bufs, n =>
    have := decidableEntriesOk bufs (n - (alignBuf b.physAddr b.length).numMappings)
    inferInstanceAs (Decidable (_ ∧ _))

instance (r : Resources) (args : List (ℕ × ℕ)) : Decidable (FreeOk r args) :=
  inferInstanceAs (Decidable (∀ a ∈ args, ∀ m ∈ r.mapping, _))

instance (c : MmapConstants) (s : Session) (call : Call) : Decidable (CallOk c s call) :=
  match call with
  | .alloc bufs =>
    have : Decidable (∀ virts r, allocBufs c bufs s.res = .ok (false, virts, r) →
        FreeOk r (virts.zip (bufs.map PhysBuf.length))) :=
      match h : allocBufs c bufs s.res with
      | .ok (false, virts, r) =>
        decidable_of_iff (FreeOk r (virts.zip (bufs.map PhysBuf.length))) (by simp)
      | .ok (true, _, _) => isTrue (by simp)
      | .error _ => isTrue (by simp)
    inferInstanceAs (Decidable (_ ∧ _ ∧ _))
  | .free k =>
    match h : s.batches[k]? with
    | some batch => decidable_of_iff (FreeOk s.res batch.args) (by simp [CallOk, h])
    | none => isTrue (by simp [CallOk, h])

instance decidableCallsOk (c : MmapConstants) : (s : Session) → (calls : List Call) →
    Decidable (CallsOk c s calls)
  | _, [] => isTrue trivial
  | s, call :: calls =>
    have : Decidable (∀ s', s.step c call = .ok s' → CallsOk c s' calls) :=
      match s.step c call with
      | .ok s' =>
        have := decidableCallsOk c s' calls
        decidable_of_iff (CallsOk c s' calls) (by simp)
      | .error _ => isTrue (by simp)
    inferInstanceAs (Decidable (_ ∧ _))

/-- Two batches are mapped, the first is unmapped and another one is mapped. -/
def deviceCalls : List Call :=
  [.alloc sampleBufs, .alloc [⟨0x830000000, 0x2000, 0⟩], .free 1, .alloc [⟨0x823FF0000, 0x20000, 0⟩]]

/-- No heap of the device starts at zero. -/
lemma noZeroHeap_deviceHeaps : NoZeroHeap deviceHeaps.heaps := by
  simp [NoZeroHeap, deviceHeaps]

/-- The root of the first heap of the device starts above the second heap. -/
lemma rootsApart_deviceHeaps (h : (bank 0).baseAddr = 0xC0000000) :
    RootsApart deviceHeaps.heaps bank := by
  intro i j range hij hj x hx hc
  have hj2 : j < 2 := (List.getElem?_eq_some_iff.mp hj).1
  obtain ⟨rfl, rfl⟩ : i = 0 ∧ j = 1 := by omega
  cases hj
  have h1 := hc.1
  have h2 := hx.2
  simp only at h2
  omega

/-- A run with its conditions, as a test on the state after the setup. -/
def sessionTest (c : MmapConstants) (calls : List Call) (r : Resources) : Bool :=
  decide (CallsOk c ⟨r, []⟩ calls) && match Session.run c ⟨r, []⟩ calls with
    | .ok s => decide (s.batches.length = 2 ∧ ∀ batch ∈ s.batches, FreeOk s.res batch.args)
    | .error _ => false

/-- The batches of the run on the heaps of the device can be unmapped. -/
theorem undone_deviceCalls :
    ∃ r s, resourceInit exampleConstants deviceRegs deviceHeaps.heaps = .ok (some r) ∧
      Session.run exampleConstants ⟨r, []⟩ deviceCalls = .ok s ∧ s.batches.length = 2 ∧
      ∀ batch ∈ s.batches, ∃ r', resourceFree exampleConstants batch.args s.res = .ok (true, r') ∧
        Undone exampleConstants batch s.res r' := by
  have htest : (resourceInit exampleConstants deviceRegs deviceHeaps.heaps).map (Option.map fun r =>
      ((r.heap 0).baseAddr, sessionTest exampleConstants deviceCalls r)) =
      .ok (some (0xC0000000, true)) := by
    decide +kernel
  match hinit : resourceInit exampleConstants deviceRegs deviceHeaps.heaps with
  | .error e => simp [hinit, Except.map] at htest
  | .ok none => simp [hinit, Except.map] at htest
  | .ok (some r) =>
    simp only [hinit, Except.map, Option.map_some, Except.ok.injEq, Option.some.injEq, Prod.mk.injEq,
      sessionTest, Bool.and_eq_true, decide_eq_true_iff] at htest
    obtain ⟨hbase, hok, hrun⟩ := htest
    rcases undone_of_callsOk exampleConstants deviceHeaps deviceRegs noZeroHeap_deviceHeaps hinit
      (rootsApart_deviceHeaps hbase) deviceCalls hok with he | ⟨s, he, hall⟩
    · simp [he] at hrun
    · simp only [he, decide_eq_true_iff] at hrun
      exact ⟨r, s, rfl, he, hrun.1, fun batch hb => hall batch hb (hrun.2 batch hb)⟩

/-- A buffer that is mapped and whose entry is not found again, as a test on the state after the
setup. -/
def notFoundTest (c : MmapConstants) (b : PhysBuf) (r : Resources) : Bool :=
  match resourceAlloc c [b] r with
  | .ok (some virts, r₁) =>
    match resourceFree c (virts.zip [b.length]) r₁ with
    | .ok (false, r₂) => decide (r₂.mapping ≠ r.mapping)
    | _ => false
  | _ => false

/-- A buffer that takes all of the heap that ends at the last address of all: its window ends at
address zero in 32 bits, so its entry is not found again. -/
theorem not_undone_top :
    ∃ r virts r₁ r₂, resourceInit exampleConstants deviceRegs deviceHeaps.heaps = .ok (some r) ∧
      resourceAlloc exampleConstants [⟨0x840000000, 0x40000000, 0⟩] r = .ok (some virts, r₁) ∧
      resourceFree exampleConstants (virts.zip [0x40000000]) r₁ = .ok (false, r₂) ∧
      r₂.mapping ≠ r.mapping := by
  have htest : (resourceInit exampleConstants deviceRegs deviceHeaps.heaps).map (Option.map fun r =>
      notFoundTest exampleConstants ⟨0x840000000, 0x40000000, 0⟩ r) = .ok (some true) := by
    decide
  match hinit : resourceInit exampleConstants deviceRegs deviceHeaps.heaps with
  | .error e => simp [hinit, Except.map] at htest
  | .ok none => simp [hinit, Except.map] at htest
  | .ok (some r) =>
    simp only [hinit, Except.map, Option.map_some, Except.ok.injEq, Option.some.injEq,
      notFoundTest] at htest
    split at htest
    · next virts r₁ hal =>
      split at htest
      · next r₂ hfree => exact ⟨r, virts, r₁, r₂, rfl, hal, hfree, of_decide_eq_true htest⟩
      · cases htest
    · cases htest

end Heap

end TiOpenCL
