import TiOpenCL.Mpax.Mapping

/-!
# The translation of a list of buffers

`keystone_mmap_resource_alloc` on the table that `keystone_mmap_resource_init` sets up.  The blocks of
the heaps are disjoint, so a virtual address lies in the window of one entry at most, and the windows
of a mappable buffer translate each of its bytes.  The entries are filled from the front, and their
fields survive the way through the kernel message to the registers.
-/

namespace TiOpenCL

namespace Heap

variable {c : MmapConstants} {heaps : List Block} {ms : List Mapping} {ps : List Placement}
  {p : Placement} {m : Mapping} {b : PhysBuf} {virt v i j : ℕ}

/-! ### The registers -/

/-- The fields of an `MPAXH` word. -/
lemma mpaxh_fields {baddr n : ℕ} (hb : 2 ^ 12 ∣ baddr) (hn : n < 32) :
    (baddr ||| n) / 2 ^ 12 * 2 ^ 12 = baddr ∧ (baddr ||| n) &&& 0x1F = n := by
  obtain ⟨q, rfl⟩ := hb
  constructor
  · rw [Nat.or_div_two_pow, Nat.mul_div_cancel_left q (by decide),
      Nat.div_eq_of_lt (show n < 2 ^ 12 by omega), Nat.or_zero, Nat.mul_comm]
  · rw [show (0x1F : ℕ) = 2 ^ 5 - 1 from rfl, Nat.and_two_pow_sub_one_eq_mod, Nat.or_mod_two_pow,
      Nat.mod_eq_of_lt (show n < 2 ^ 5 by omega), show 2 ^ 12 * q % 2 ^ 5 = 0 by omega, Nat.zero_or]

/-- The fields of an `MPAXL` word. -/
lemma mpaxl_fields {raddr n : ℕ} (hr : 2 ^ 12 ∣ raddr) (hlt : raddr < 2 ^ 36) (hn : n < 256) :
    (raddr / 2 ^ 4 % 2 ^ 32 ||| n) / 2 ^ 8 * 2 ^ 12 = raddr ∧
      (raddr / 2 ^ 4 % 2 ^ 32 ||| n) &&& 0xFF = n := by
  obtain ⟨q, rfl⟩ := hr
  rw [Nat.mod_eq_of_lt (show 2 ^ 12 * q / 2 ^ 4 < 2 ^ 32 by omega),
    show 2 ^ 12 * q / 2 ^ 4 = 2 ^ 8 * q by omega]
  constructor
  · rw [Nat.or_div_two_pow, Nat.mul_div_cancel_left q (by decide),
      Nat.div_eq_of_lt (show n < 2 ^ 8 by omega), Nat.or_zero, Nat.mul_comm]
  · rw [show (0xFF : ℕ) = 2 ^ 8 - 1 from rfl, Nat.and_two_pow_sub_one_eq_mod, Nat.or_mod_two_pow,
      Nat.mod_eq_of_lt (show n < 2 ^ 8 by omega), Nat.mul_mod_right, Nat.zero_or]

/-- The two words of entry `i` in the kernel message. -/
lemma getD_flatMap_packMapping (used : List Mapping) (hi : i < used.length) :
    (used.flatMap packMapping).getD (2 * i) 0 = used[i].raddr / 2 ^ 4 % 2 ^ 32 ||| defaultPermission ∧
      (used.flatMap packMapping).getD (2 * i + 1) 0 = used[i].baddr ||| (used[i].segsizePower2 - 1) := by
  induction used generalizing i with
  | nil => exact absurd hi (Nat.not_lt_zero i)
  | cons m used ih =>
    rw [List.flatMap_cons]
    cases i with
    | zero => exact ⟨rfl, rfl⟩
    | succ i => exact ih (Nat.lt_of_succ_lt_succ hi)

/-- An active entry belongs to a placement. -/
lemma Booked.exists_of_active (h : Booked ms ps) (hj : ms[j]? = some m) (ha : m.Active) :
    ∃ p ∈ ps, ∃ i, p.slots[i]? = some j ∧ p.Entry i m := by
  by_cases hmem : j ∈ ps.flatMap Placement.slots
  · obtain ⟨p, hp, hjp⟩ := List.mem_flatMap.mp hmem
    obtain ⟨i, hi, hij⟩ := List.mem_iff_getElem.mp hjp
    have hij' : p.slots[i]? = some j := by rw [List.getElem?_eq_getElem hi, hij]
    obtain ⟨m', hm', hent⟩ := h.entry p hp i j hij'
    rw [hj, Option.some.injEq] at hm'
    exact ⟨p, hp, i, hij', hm' ▸ hent⟩
  · have hidle : Mapping.reset m = m := h.idle j m hj hmem
    have hseg : m.segsizePower2 = 0 := by
      rw [← hidle]
      rfl
    exact absurd ha (by simp [Mapping.Active, hseg])

/-- The window and the physical address of an entry are aligned to its size. -/
lemma Placement.Entry.aligned (he : p.Entry i m) (hp : p.Sound) :
    2 ^ m.segsizePower2 ∣ m.baddr ∧ 2 ^ m.segsizePower2 ∣ m.raddr := by
  rw [he.segsize, he.baddr, he.raddr]
  exact ⟨hp.base_dvd.add (Dvd.intro_left _ rfl), hp.phys_dvd.add (Dvd.intro_left _ rfl)⟩

/-- The physical address of an entry has 36 bits. -/
lemma Placement.Entry.raddr_lt (he : p.Entry i m) (hp : p.Sound) (hi : i < p.slots.length) :
    m.raddr < 2 ^ 36 := by
  have hle : i * 2 ^ p.log ≤ (p.slots.length - 1) * 2 ^ p.log := Nat.mul_le_mul_right _ (by omega)
  have hlt := hp.phys_lt
  rw [he.raddr]
  omega

/-- The register pair of an entry has its fields. -/
lemma Booked.fields (h : Booked ms ps) (hm : m ∈ ms) (ha : m.Active) :
    MpaxFields.Of ⟨(m.baddr ||| (m.segsizePower2 - 1)) / 2 ^ 12,
      (m.baddr ||| (m.segsizePower2 - 1)) &&& 0x1F,
      (m.raddr / 2 ^ 4 % 2 ^ 32 ||| defaultPermission) / 2 ^ 8,
      (m.raddr / 2 ^ 4 % 2 ^ 32 ||| defaultPermission) &&& 0xFF⟩ m := by
  obtain ⟨j, hj⟩ := List.mem_iff_getElem?.mp hm
  obtain ⟨p, hp, i, hij, hent⟩ := h.exists_of_active hj ha
  have hsound := h.sound p hp
  have hi : i < p.slots.length := (List.getElem?_eq_some_iff.mp hij).1
  have hle := hsound.le
  have hlt := hsound.lt
  have hseg := hent.segsize
  have hpow : 2 ^ 12 ∣ 2 ^ m.segsizePower2 := pow_dvd_pow 2 (by omega)
  obtain ⟨hb, hr⟩ := hent.aligned hsound
  obtain ⟨h1, h2⟩ := mpaxh_fields (n := m.segsizePower2 - 1) (hpow.trans hb) (by omega)
  obtain ⟨h3, h4⟩ := mpaxl_fields (n := defaultPermission) (hpow.trans hr) (hent.raddr_lt hsound hi)
    (by decide)
  refine ⟨h1, ?_, h3, h4⟩
  show ((m.baddr ||| (m.segsizePower2 - 1)) &&& 0x1F) + 1 = m.segsizePower2
  omega

/-- The registers match the table. -/
lemma Booked.registersMatch (h : Booked ms ps) (hpack : Packed ms) : RegistersMatch ms := by
  refine ⟨_, _, hpack.setup, ?_⟩
  refine List.forall₂_iff_get.mpr ⟨by simp [setKernelMPAXs], fun i hi hi' => ?_⟩
  have hmem := List.mem_filter.mp (List.getElem_mem hi)
  obtain ⟨h1, h2⟩ := getD_flatMap_packMapping _ hi
  have hfields := h.fields hmem.1 (of_decide_eq_true hmem.2)
  rw [← h1, ← h2] at hfields
  simpa [setKernelMPAXs] using hfields

/-! ### The entries that cover an address -/

/-- An entry covers only addresses of the block of its placement. -/
lemma Placement.Entry.covers (he : p.Entry i m) (hi : i < p.slots.length) (hv : m.window.Covers v) :
    p.handed.block.Covers v ∧ i = (v - p.base) / 2 ^ p.log := by
  have hpos : 0 < 2 ^ p.log := by positivity
  obtain ⟨h1, h2⟩ := hv
  simp only [Mapping.window, he.baddr, he.segsize] at h1 h2
  have hle : i * 2 ^ p.log + 2 ^ p.log ≤ p.slots.length * 2 ^ p.log := by
    rw [← Nat.succ_mul]
    exact Nat.mul_le_mul_right _ hi
  refine ⟨⟨?_, ?_⟩, ?_⟩
  · show p.base ≤ v
    omega
  · show v < p.base + p.slots.length * 2 ^ p.log
    omega
  · symm
    rw [Nat.div_eq_iff hpos, Nat.mul_comm]
    rw [Nat.mul_comm] at h1 h2
    omega

/-- The addresses of a placement are translated, each by one entry. -/
lemma Booked.translates (h : Booked ms ps)
    (hdis : (ps.map Placement.handed).Pairwise fun a b => Block.Disjoint a.block b.block)
    (hp : p ∈ ps) {o : ℕ} (ho : o < p.size) : Translates ms (p.base + o) (p.phys + o) := by
  have hpos : 0 < 2 ^ p.log := by positivity
  have hi : o / 2 ^ p.log < p.slots.length := (Nat.div_lt_iff_lt_mul hpos).mpr ho
  have hmod := Nat.div_add_mod o (2 ^ p.log)
  have hlt := Nat.mod_lt o hpos
  obtain ⟨m, hm, hent⟩ := h.entry p hp _ _ (List.getElem?_eq_getElem hi)
  have hsound := h.sound p hp
  have hle := hsound.le
  have haligned := hent.aligned hsound
  have hact : m.Active := by
    show 0 < m.segsizePower2
    rw [hent.segsize]
    omega
  have hcov : m.window.Covers (p.base + o) := by
    simp only [Block.Covers, Mapping.window, hent.baddr, hent.segsize]
    rw [Nat.mul_comm (o / 2 ^ p.log)]
    omega
  refine ⟨_, m, hm, hact, hcov, haligned.1, haligned.2, ?_, ?_⟩
  · rw [hent.raddr, hent.baddr, Nat.mul_comm (o / 2 ^ p.log)]
    omega
  · intro k' m' hm' hact' hcov'
    obtain ⟨q, hq, i', hi', hent'⟩ := h.exists_of_active hm' hact'
    have hin := (hent.covers hi hcov).1
    have hin' := hent'.covers (List.getElem?_eq_some_iff.mp hi').1 hcov'
    -- two placements that cover the address are the same
    have hpq : q = p := by
      by_contra hne
      have hsymm : Std.Symm fun a b : Placement => Block.Disjoint a.handed.block b.handed.block :=
        ⟨fun _ _ h x hx => h x hx.symm⟩
      exact (List.pairwise_map.mp hdis).forall hq hp hne _ ⟨hin'.1, hin⟩
    subst hpq
    rw [hin'.2, Nat.add_sub_cancel_left] at hi'
    rw [List.getElem?_eq_getElem hi, Option.some.injEq] at hi'
    exact hi'.symm

/-- A mappable buffer is translated. -/
lemma Booked.translates_buf (h : Booked ms ps)
    (hdis : (ps.map Placement.handed).Pairwise fun a b => Block.Disjoint a.block b.block)
    (hp : p ∈ ps) (hpl : Places b virt p) (hmap : Mappable b.physAddr b.length) (hi : i < b.length) :
    Translates ms (virt + i) (b.physAddr + i) := by
  have hstart := hpl.windows.start
  have hend := hpl.contained.mpr hmap
  have hbase := (h.sound p hp).base_le
  rw [← hpl.phys] at hstart
  have hvirt : virt = p.base + (b.physAddr - p.phys) := by
    rw [hpl.virt]
    exact wadd_eq (by omega)
  have := h.translates hdis hp (o := b.physAddr - p.phys + i) (by omega)
  rwa [← Nat.add_assoc, ← hvirt, ← Nat.add_assoc, Nat.add_sub_cancel' hstart] at this

/-- A buffer that is alone in the table is not translated if it is not mappable: its last byte is past
its windows, or its first one is before them. -/
lemma Booked.mappable_of_translates (h : Booked ms [p]) (hb : PhysBuf.Valid b) (hpl : Places b virt p)
    (htr : ∀ i < b.length, Translates ms (virt + i) (b.physAddr + i)) :
    Mappable b.physAddr b.length := by
  have hstart := hpl.windows.start
  have hnear := hpl.windows.near
  rw [← hpl.phys] at hstart hnear
  have hbase := (h.sound p List.mem_cons_self).base_le
  have hcov : ∀ i < b.length, p.base ≤ virt + i ∧ virt + i < p.base + p.size := by
    intro i hi
    obtain ⟨k, m, hm, hact, hcov, -⟩ := htr i hi
    obtain ⟨q, hq, t, ht, hent⟩ := h.exists_of_active hm hact
    rw [List.mem_singleton] at hq
    subst hq
    exact (hent.covers (List.getElem?_eq_some_iff.mp ht).1 hcov).1
  have hpos := hb.pos
  have hfirst := hcov 0 (by omega)
  have hlast := hcov (b.length - 1) (by omega)
  refine hpl.contained.mp ?_
  have hvirt := hpl.virt
  rcases Nat.lt_or_ge (p.base + (b.physAddr - p.phys)) (2 ^ 32) with hlt | hge
  · rw [wadd_eq hlt] at hvirt
    omega
  · rw [wadd, Nat.mod_eq_sub_mod hge, Nat.mod_eq_of_lt (by omega)] at hvirt
    omega

/-! ### The loop over the buffers -/

/-- The block that the heaps in turn hand out. -/
lemma Served.allocInHeaps_some {bank bank' : Bank} {handed : List Handed} {prot k a idx : ℕ}
    (h : Served c heaps bank handed) (hdis : heaps.Pairwise Block.Disjoint)
    (hlt : ∀ h ∈ heaps, h.1 + h.2 ≤ 2 ^ 32)
    (hal : Heap.allocInHeaps c (2 ^ k) prot heaps.length 0 bank = .ok (some (a, idx), bank')) :
    Served c heaps bank' (⟨idx, a, 2 ^ k⟩ :: handed) ∧ 2 ^ k ∣ a ∧ a + 2 ^ k ≤ 2 ^ 32 := by
  rcases h.allocInHeaps prot k (Nat.zero_add _) with he | ⟨_, he, _⟩ | ⟨a', idx', bank'', he, hs⟩
  · rw [he] at hal
    cases hal
  · rw [he] at hal
    cases hal
  · rw [he] at hal
    cases hal
    obtain ⟨range, hr, -, hle, -, hdvd⟩ := (hs.spec hdis).1 _ List.mem_cons_self
    have := hlt range hr
    exact ⟨hs, hdvd, by show a + 2 ^ k ≤ 2 ^ 32; exact hle.trans this⟩

/-- The table and the heaps after buffers were mapped. -/
structure MappedState (c : MmapConstants) (heaps : List Block) (r : Resources) (ps : List Placement) :
    Prop where
  numHeaps : r.numHeaps = heaps.length
  served : Served c heaps r.heap (ps.map Placement.handed)
  booked : Booked r.mapping ps
  packed : Packed r.mapping

/-- One buffer. -/
lemma MappedState.allocBuf {r r' : Resources} (h : MappedState c heaps r ps)
    (hdis : heaps.Pairwise Block.Disjoint) (hlt : ∀ h ∈ heaps, h.1 + h.2 ≤ 2 ^ 32)
    (hb : PhysBuf.Valid b) (hal : allocBuf c b r = .ok (some virt, r')) :
    ∃ p, Places b virt p ∧ MappedState c heaps r' (p :: ps) := by
  obtain ⟨p, k, hsize, hheap, hnum, hpl, hbook, hpack, -⟩ := allocBuf_some hb h.booked
    (fun k a idx bank hal => by
      rw [h.numHeaps] at hal
      exact (h.served.allocInHeaps_some hdis hlt hal).2) hal
  rw [h.numHeaps] at hheap
  refine ⟨p, hpl, hnum.trans h.numHeaps, ?_, hbook, hpack h.packed⟩
  have hs := (h.served.allocInHeaps_some hdis hlt hheap).1
  rw [← hsize] at hs
  exact hs

/-- `allocBufs` on a buffer and others. -/
lemma allocBufs_cons_true {bufs : List PhysBuf} {virts : List ℕ} {r r' : Resources}
    (h : allocBufs c (b :: bufs) r = .ok (true, virts, r')) :
    ∃ virt virts' r₁, virts = virt :: virts' ∧ allocBuf c b r = .ok (some virt, r₁) ∧
      allocBufs c bufs r₁ = .ok (true, virts', r') := by
  rw [allocBufs] at h
  match hal : Heap.allocBuf c b r with
  | .error e => simp [hal, bind, Except.bind] at h
  | .ok (none, r₁) => simp [hal, bind, Except.bind] at h
  | .ok (some virt, r₁) =>
    match hrec : allocBufs c bufs r₁ with
    | .error e => simp [hal, hrec, bind, Except.bind] at h
    | .ok (ok, virts', r₂) =>
      simp only [hal, hrec, bind, Except.bind, Except.ok.injEq, Prod.mk.injEq] at h
      obtain ⟨rfl, rfl, rfl⟩ := h
      exact ⟨virt, virts', r₁, rfl, rfl, hrec⟩

/-- All buffers. -/
lemma MappedState.allocBufs {bufs : List PhysBuf} {virts : List ℕ} {r r' : Resources}
    (h : MappedState c heaps r ps) (hdis : heaps.Pairwise Block.Disjoint)
    (hlt : ∀ h ∈ heaps, h.1 + h.2 ≤ 2 ^ 32) (hb : ∀ b ∈ bufs, PhysBuf.Valid b)
    (hal : allocBufs c bufs r = .ok (true, virts, r')) :
    ∃ qs, qs.length = bufs.length ∧ MappedState c heaps r' (qs ++ ps) ∧
      List.Forall₂ (fun b virt => ∃ p ∈ qs, Places b virt p) bufs virts := by
  induction bufs generalizing virts r ps with
  | nil =>
    cases hal
    exact ⟨[], rfl, h, .nil⟩
  | cons b bufs ih =>
    obtain ⟨virt, virts', r₁, rfl, hbuf, hrec⟩ := allocBufs_cons_true hal
    obtain ⟨p, hpl, h₁⟩ := h.allocBuf hdis hlt (hb b List.mem_cons_self) hbuf
    obtain ⟨qs, hlen, h₂, hall⟩ := ih h₁ (fun b hb' => hb b (List.mem_cons_of_mem _ hb')) hrec
    refine ⟨qs ++ [p], by simp [hlen], by simpa using h₂, .cons ⟨p, by simp, hpl⟩ ?_⟩
    exact hall.imp fun b virt ⟨q, hq, hpl⟩ => ⟨q, List.mem_append_left _ hq, hpl⟩

/-- `resourceAlloc` succeeds if and only if all buffers are mapped. -/
lemma allocBufs_of_resourceAlloc {bufs : List PhysBuf} {virts : List ℕ} {r r' : Resources}
    (h : resourceAlloc c bufs r = .ok (some virts, r')) :
    Heap.allocBufs c bufs r = .ok (true, virts, r') := by
  rw [resourceAlloc] at h
  match hal : Heap.allocBufs c bufs r with
  | .error e => simp [hal, bind, Except.bind] at h
  | .ok (true, virts', r₁) =>
    simp only [hal, bind, Except.bind, if_true, Except.ok.injEq, Prod.mk.injEq,
      Option.some.injEq] at h
    obtain ⟨rfl, rfl⟩ := h
    rfl
  | .ok (false, virts', r₁) =>
    simp only [hal, bind, Except.bind, Bool.false_eq_true, if_false] at h
    split at h
    · cases h
    · simp at h

/-- A successful `keystone_mmap_resource_alloc` on the table of `keystone_mmap_resource_init`: the
state it leaves. -/
lemma mappedState_of_resourceAlloc (cfg : HeapConfig c) {regs : List (ℕ × ℕ)} {bufs : List PhysBuf}
    {virts : List ℕ} {r r' : Resources} (hregs : regs.length < c.maxNumMaps)
    (hb : ∀ b ∈ bufs, PhysBuf.Valid b) (hinit : resourceInit c regs cfg.heaps = .ok (some r))
    (halloc : resourceAlloc c bufs r = .ok (some virts, r')) :
    ∃ qs, qs.length = bufs.length ∧ MappedState c cfg.heaps r' qs ∧
      List.Forall₂ (fun b virt => ∃ p ∈ qs, Places b virt p) bufs virts := by
  have hinit' : MappedState c cfg.heaps r [] := by
    rcases resourceInit_fresh c regs cfg.length_le cfg.lt with he | he | ⟨bank, he, hfresh⟩
    · rw [he] at hinit
      cases hinit
    · rw [he] at hinit
      cases hinit
    · rw [he] at hinit
      cases hinit
      exact ⟨rfl, hfresh.served, booked_pairRegs c regs, packed_pairRegs c hregs⟩
  obtain ⟨qs, hlen, hst, hall⟩ := hinit'.allocBufs cfg.disjoint (fun h hh => (cfg.lt h hh).2) hb
    (allocBufs_of_resourceAlloc halloc)
  exact ⟨qs, hlen, by simpa using hst, hall⟩

/-- The translation of a list of buffers: the registers match the table, the bytes of the buffers are
translated if all of them are mappable, and those of a single buffer only then. -/
theorem mapped_of_mappable (c : MmapConstants) (cfg : HeapConfig c) (regs : List (ℕ × ℕ))
    (bufs : List PhysBuf) (hregs : regs.length < c.maxNumMaps) (hb : ∀ b ∈ bufs, PhysBuf.Valid b)
    {virts : List ℕ} {r r' : Resources} (hinit : resourceInit c regs cfg.heaps = .ok (some r))
    (halloc : resourceAlloc c bufs r = .ok (some virts, r')) :
    RegistersMatch r'.mapping ∧
      ((∀ b ∈ bufs, Mappable b.physAddr b.length) → Mapped r'.mapping bufs virts) ∧
      ∀ b, bufs = [b] → Mapped r'.mapping bufs virts → Mappable b.physAddr b.length := by
  obtain ⟨qs, hlen, hst, hall⟩ := mappedState_of_resourceAlloc cfg hregs hb hinit halloc
  refine ⟨hst.booked.registersMatch hst.packed, fun hmap => ?_, ?_⟩
  · have hdis := (hst.served.spec cfg.disjoint).2
    refine List.forall₂_iff_get.mpr ⟨hall.length_eq, fun n hn hn' i hi => ?_⟩
    obtain ⟨p, hp, hpl⟩ := (List.forall₂_iff_get.mp hall).2 n hn hn'
    exact hst.booked.translates_buf hdis hp hpl (hmap _ (List.getElem_mem hn)) hi
  · rintro b rfl hm
    obtain ⟨p, rfl⟩ := List.length_eq_one_iff.mp hlen
    cases hall with
    | cons hpl hnil =>
      cases hm with
      | cons htr _ =>
        obtain ⟨q, hq, hpl⟩ := hpl
        rw [List.mem_singleton] at hq
        subst hq
        exact hst.booked.mappable_of_translates (hb _ List.mem_cons_self) hpl htr

/-! ### Buffers that are mapped, and one that is not -/

/-- The register pairs that the device configures. -/
def deviceRegs : List (ℕ × ℕ) := [(4, 1), (5, 2), (6, 3), (7, 4), (8, 5), (9, 6), (10, 7)]

/-- The virtual addresses of buffers mapped right after the setup. -/
def virtsAfterInit (c : MmapConstants) (regs heaps : List (ℕ × ℕ)) (bufs : List PhysBuf) :
    Except HeapError (Option (List ℕ)) :=
  (resourceInit c regs heaps).bind fun
    | none => .ok none
    | some r => (resourceAlloc c bufs r).map Prod.fst

/-- The states before and after. -/
lemma exists_of_virtsAfterInit {regs heaps : List (ℕ × ℕ)} {bufs : List PhysBuf} {virts : List ℕ}
    (h : virtsAfterInit c regs heaps bufs = .ok (some virts)) :
    ∃ r r', resourceInit c regs heaps = .ok (some r) ∧
      resourceAlloc c bufs r = .ok (some virts, r') := by
  unfold virtsAfterInit at h
  match hinit : resourceInit c regs heaps with
  | .error e => simp [hinit, Except.bind] at h
  | .ok none => simp [hinit, Except.bind] at h
  | .ok (some r) =>
    simp only [hinit, Except.bind] at h
    match hal : resourceAlloc c bufs r with
    | .error e => simp [hal, Except.map] at h
    | .ok (virts', r') =>
      simp only [hal, Except.map, Except.ok.injEq] at h
      subst h
      exact ⟨r, r', rfl, hal⟩

/-- A page, a part of a page, and a buffer that takes two windows. -/
def sampleBufs : List PhysBuf :=
  [⟨0x820001000, 0x1000, 0⟩, ⟨0x821FFF800, 0x800, 0⟩, ⟨0x823FF0000, 0x20000, 0⟩]

/-- The buffers are mapped on the heaps of the device. -/
theorem mapped_sampleBufs :
    ∃ r r' virts, resourceInit exampleConstants deviceRegs deviceHeaps.heaps = .ok (some r) ∧
      resourceAlloc exampleConstants sampleBufs r = .ok (some virts, r') ∧
      RegistersMatch r'.mapping ∧ Mapped r'.mapping sampleBufs virts := by
  have hrun : virtsAfterInit exampleConstants deviceRegs deviceHeaps.heaps sampleBufs =
      .ok (some [0xC0000000, 0xC0001800, 0xC0020000]) := by
    decide +kernel
  obtain ⟨r, r', hinit, hal⟩ := exists_of_virtsAfterInit hrun
  have hvalid : ∀ b ∈ sampleBufs, PhysBuf.Valid b := by
    simp only [sampleBufs, List.forall_mem_cons, List.not_mem_nil, false_imp_iff, implies_true, and_true]
    exact ⟨⟨by decide, by decide, by decide⟩, ⟨by decide, by decide, by decide⟩,
      ⟨by decide, by decide, by decide⟩⟩
  obtain ⟨hreg, hmap, -⟩ := mapped_of_mappable exampleConstants deviceHeaps deviceRegs sampleBufs
    (by decide) hvalid hinit hal
  exact ⟨r, r', _, hinit, hal, hreg, hmap (by decide)⟩

/-- A buffer of one page and one byte at an even page: the exclusive or of its ends is `0x1000`, so its
window is one page. -/
theorem not_mapped_page_and_byte :
    ∃ r r' virts, resourceInit exampleConstants deviceRegs deviceHeaps.heaps = .ok (some r) ∧
      resourceAlloc exampleConstants [⟨0x820002000, 0x1001, 0⟩] r = .ok (some virts, r') ∧
      ¬ Mapped r'.mapping [⟨0x820002000, 0x1001, 0⟩] virts := by
  have hrun : virtsAfterInit exampleConstants deviceRegs deviceHeaps.heaps
      [⟨0x820002000, 0x1001, 0⟩] = .ok (some [0xC0000000]) := by
    decide +kernel
  obtain ⟨r, r', hinit, hal⟩ := exists_of_virtsAfterInit hrun
  have hvalid : PhysBuf.Valid ⟨0x820002000, 0x1001, 0⟩ := ⟨by decide, by decide, by decide⟩
  obtain ⟨qs, hlen, hst, hall⟩ := mappedState_of_resourceAlloc deviceHeaps (by decide)
    (by simpa using hvalid) hinit hal
  refine ⟨r, r', _, hinit, hal, fun hm => ?_⟩
  obtain ⟨p, rfl⟩ := List.length_eq_one_iff.mp hlen
  obtain ⟨⟨q, hq, hpl⟩, -⟩ := List.forall₂_cons.mp hall
  rw [List.mem_singleton] at hq
  subst hq
  have hmap := hst.booked.mappable_of_translates hvalid hpl (List.forall₂_cons.mp hm).1
  exact absurd hmap (by decide)

end Heap

end TiOpenCL
