import TiOpenCL.Mpax.Serving
import TiOpenCL.Mpax.Windows

/-!
# The mapping table and the registers

A successful `keystone_mmap_resource_alloc` on the table that `keystone_mmap_resource_init` sets up
fills entries that are available, one or two for each buffer.  `Booked` says which entries belong to
which buffer and that all others are idle.  `setup_extended_memory_mappings` packs the entries into
the kernel message and `set_kernel_MPAXs` of the monitor takes them apart again.
-/

namespace TiOpenCL

/-- The entry is filled. -/
def Mapping.Active (m : Mapping) : Prop := 0 < m.segsizePower2

instance (m : Mapping) : Decidable m.Active := inferInstanceAs (Decidable (0 < m.segsizePower2))

/-- The window of an entry. -/
def Mapping.window (m : Mapping) : Block := (m.baddr, 2 ^ m.segsizePower2)

/-- The virtual address `v` lies in one active entry only, whose window and physical address are
aligned to its size and which translates `v` to `p`. -/
def Translates (ms : List Mapping) (v p : ℕ) : Prop :=
  ∃ (k : ℕ) (m : Mapping), ms[k]? = some m ∧ m.Active ∧ m.window.Covers v ∧ 2 ^ m.segsizePower2 ∣ m.baddr ∧
    2 ^ m.segsizePower2 ∣ m.raddr ∧ m.raddr + (v - m.baddr) = p ∧
    ∀ (k' : ℕ) (m' : Mapping), ms[k']? = some m' → m'.Active → m'.window.Covers v → k' = k

/-- Every byte of every buffer is translated to its physical address. -/
def Mapped (ms : List Mapping) (bufs : List PhysBuf) (virts : List ℕ) : Prop :=
  List.Forall₂ (fun b virt => ∀ i < b.length, Translates ms (virt + i) (b.physAddr + i)) bufs virts

/-! ### The registers -/

/-- `DEFAULT_PERMISSION`. -/
def defaultPermission : ℕ := 0x3F

/-- `FIRST_FREE_XMC_MPAX`. -/
def firstFreeXmcMpax : ℕ := 4

/-- `FIRST_FREE_SES_MPAX`. -/
def firstFreeSesMpax : ℕ := 1

/-- The fields of a pair of MPAX registers. -/
structure MpaxFields where
  bAddr : ℕ
  segSize : ℕ
  rAddr : ℕ
  perm : ℕ
  deriving DecidableEq

/-- The words of the kernel message for one entry, `MPAXL` before `MPAXH`. -/
def packMapping (m : Mapping) : List ℕ :=
  [m.raddr / 2 ^ 4 % 2 ^ 32 ||| defaultPermission, m.baddr ||| (m.segsizePower2 - 1)]

/-- The number of entries and the words that `setup_extended_memory_mappings` puts into the kernel
message: it stops at the first entry that is not filled; `none` if it runs past the table. -/
def setupExtendedMemoryMappings (ms : List Mapping) : Option (ℕ × List ℕ) :=
  let used := ms.takeWhile fun m => m.Active
  if used.length < ms.length then some (used.length, used.flatMap packMapping) else none

/-- `set_kernel_MPAXs`: the XMC and SES register indices that are set, with the fields. -/
def setKernelMPAXs (numMpaxs : ℕ) (settings : List ℕ) : List (ℕ × ℕ × MpaxFields) :=
  (List.range numMpaxs).map fun i =>
    (i + firstFreeXmcMpax, i + firstFreeSesMpax,
      ⟨settings.getD (2 * i + 1) 0 / 2 ^ 12, settings.getD (2 * i + 1) 0 &&& 0x1F,
        settings.getD (2 * i) 0 / 2 ^ 8, settings.getD (2 * i) 0 &&& 0xFF⟩)

/-- The fields of a register pair are those of an entry. -/
def MpaxFields.Of (f : MpaxFields) (m : Mapping) : Prop :=
  f.bAddr * 2 ^ 12 = m.baddr ∧ f.segSize + 1 = m.segsizePower2 ∧ f.rAddr * 2 ^ 12 = m.raddr ∧
    f.perm = defaultPermission

/-- The monitor sets one register pair for each active entry, with the fields of the entry. -/
def RegistersMatch (ms : List Mapping) : Prop :=
  ∃ numMpaxs settings, setupExtendedMemoryMappings ms = some (numMpaxs, settings) ∧
    List.Forall₂ (fun m r => MpaxFields.Of r.2.2 m) (ms.filter fun m => m.Active)
      (setKernelMPAXs numMpaxs settings)

namespace Heap

variable {c : MmapConstants} {ms ms' : List Mapping} {w : Windows} {virt seg prot n i k : ℕ}

/-! ### Filling entries -/

/-- The entry of window `i` after it is filled. -/
def windowEntry (w : Windows) (virt seg prot i : ℕ) (m : Mapping) : Mapping :=
  { m with
    raddr := wadd 64 w.alignedPhy (wmul 32 i w.alignedLen)
    baddr := wadd 32 virt (wmul 32 i w.alignedLen)
    segsizePower2 := seg
    prot := prot }

/-- `fillEntry` fills the first entry that is available. -/
lemma fillEntry_some {fill : Mapping → Mapping} (h : fillEntry fill ms = some ms') :
    ∃ j m, ms[j]? = some m ∧ Mapping.Available m ∧
      (∀ j' < j, ∀ m', ms[j']? = some m' → ¬ Mapping.Available m') ∧ ms' = ms.set j (fill m) := by
  induction ms generalizing ms' with
  | nil => cases h
  | cons m ms ih =>
    rw [fillEntry] at h
    split at h
    · next ha => exact ⟨0, m, rfl, ha, by simp, (Option.some.inj h).symm⟩
    · next ha =>
      obtain ⟨ms₁, hms, rfl⟩ := Option.map_eq_some_iff.mp h
      obtain ⟨j, m₁, hj, hav, hfirst, rfl⟩ := ih hms
      refine ⟨j + 1, m₁, hj, hav, ?_, rfl⟩
      intro j' hj' m' hm'
      cases j' with
      | zero =>
        rw [List.getElem?_cons_zero, Option.some.injEq] at hm'
        rwa [← hm']
      | succ j' => exact hfirst j' (by omega) m' hm'

/-- `fillEntry` finds nothing if no entry is available. -/
lemma fillEntry_eq_none {fill : Mapping → Mapping} :
    fillEntry fill ms = none ↔ ∀ m ∈ ms, ¬ Mapping.Available m := by
  induction ms with
  | nil => simp [fillEntry]
  | cons m ms ih =>
    rw [fillEntry]
    by_cases ha : Mapping.Available m
    · simp [ha]
    · simp [ha, ih]

/-- The entries that are filled for `n` windows, and that nothing else changes. -/
lemma fillEntries_true (hseg : 0 < seg) (h : fillEntries w virt seg prot n i ms = (true, ms')) :
    ∃ js : List ℕ, js.length = n ∧ js.Nodup ∧
      (∀ t j, js[t]? = some j → ∃ m, ms[j]? = some m ∧ Mapping.Available m ∧
        ms'[j]? = some (windowEntry w virt seg prot (i + t) m)) ∧
      ∀ j, j ∉ js → ms'[j]? = ms[j]? := by
  induction n generalizing i ms with
  | zero =>
    rw [fillEntries, Prod.mk.injEq] at h
    exact ⟨[], rfl, List.nodup_nil, by simp, fun j _ => by rw [h.2]⟩
  | succ n ih =>
    rw [fillEntries] at h
    split at h
    · next ms₁ hms =>
      obtain ⟨j₀, m₀, hj₀, hav, -, rfl⟩ := fillEntry_some hms
      obtain ⟨js, hlen, hnd, hjs, hrest⟩ := ih h
      have hlt : j₀ < ms.length := (List.getElem?_eq_some_iff.mp hj₀).1
      -- the entry that was filled is not filled again
      have hnot : j₀ ∉ js := by
        intro hmem
        obtain ⟨t, ht, hjt⟩ := List.mem_iff_getElem.mp hmem
        obtain ⟨m, hm, hav', -⟩ := hjs t j₀ (by rw [List.getElem?_eq_getElem ht, hjt])
        rw [List.getElem?_set_self hlt, Option.some.injEq] at hm
        rw [← hm] at hav'
        exact absurd hav'.2 hseg.ne'
      refine ⟨j₀ :: js, by rw [List.length_cons, hlen], List.nodup_cons.mpr ⟨hnot, hnd⟩, ?_, ?_⟩
      · intro t j ht
        cases t with
        | zero =>
          rw [List.getElem?_cons_zero, Option.some.injEq] at ht
          subst ht
          refine ⟨m₀, hj₀, hav, ?_⟩
          rw [hrest j₀ hnot, List.getElem?_set_self hlt]
          rfl
        | succ t =>
          rw [List.getElem?_cons_succ] at ht
          obtain ⟨m, hm, hav', hm'⟩ := hjs t j ht
          have hne : j₀ ≠ j := fun he => hnot (he ▸ List.mem_of_getElem? ht)
          rw [List.getElem?_set_ne hne] at hm
          exact ⟨m, hm, hav', by rw [hm', show i + 1 + t = i + (t + 1) by omega]⟩
      · intro j hj
        rw [List.mem_cons, not_or] at hj
        rw [hrest j hj.2, List.getElem?_set_ne (Ne.symm hj.1)]
    · cases h

/-! ### Who uses which entry -/

/-- Where a buffer is placed: the heap and the address of its block, the logarithm of the size of its
windows, the physical address of the first window and the entries of the windows. -/
structure Placement where
  heap : ℕ
  base : ℕ
  log : ℕ
  phys : ℕ
  slots : List ℕ

/-- The size of the block of a placement. -/
def Placement.size (p : Placement) : ℕ := p.slots.length * 2 ^ p.log

/-- The block of a placement. -/
def Placement.handed (p : Placement) : Handed := ⟨p.heap, p.base, p.size⟩

/-- `m` is the entry of window `i` of a placement. -/
structure Placement.Entry (p : Placement) (i : ℕ) (m : Mapping) : Prop where
  baddr : m.baddr = p.base + i * 2 ^ p.log
  raddr : m.raddr = p.phys + i * 2 ^ p.log
  segsize : m.segsizePower2 = p.log

/-- Placements whose windows are aligned to their size, in the ranges of the registers. -/
structure Placement.Sound (p : Placement) : Prop where
  le : 12 ≤ p.log
  lt : p.log < 32
  num : p.slots.length = 1 ∨ p.slots.length = 2
  base_dvd : 2 ^ p.log ∣ p.base
  phys_dvd : 2 ^ p.log ∣ p.phys
  base_le : p.base + p.size ≤ 2 ^ 32
  phys_lt : p.phys + (p.slots.length - 1) * 2 ^ p.log < 2 ^ 36

/-- The entry is as the setup and `keystone_mmap_resource_free` leave it. -/
def Mapping.Idle (m : Mapping) : Prop := Mapping.reset m = m

/-- Every placement has its own entries, and the other entries are idle. -/
structure Booked (ms : List Mapping) (ps : List Placement) : Prop where
  sound : ∀ p ∈ ps, p.Sound
  nodup : (ps.flatMap Placement.slots).Nodup
  entry : ∀ p ∈ ps, ∀ i j, p.slots[i]? = some j → ∃ m, ms[j]? = some m ∧ p.Entry i m
  idle : ∀ j m, ms[j]? = some m → j ∉ ps.flatMap Placement.slots → Mapping.Idle m

/-- A table in which the configured entries come first and are filled in turn, with at least one
entry that is not configured. -/
structure Packed (ms : List Mapping) : Prop where
  order : ms.Pairwise fun a b => (b.Active → a.Active) ∧ (0 ≤ b.xmcIdx → 0 ≤ a.xmcIdx)
  spare : ∃ m ∈ ms, m.xmcIdx < 0 ∧ ¬ m.Active

/-- The table after the setup. -/
lemma booked_pairRegs (c : MmapConstants) (regs : List (ℕ × ℕ)) : Booked (pairRegs c regs) [] where
  sound := by simp
  nodup := by simp
  entry := by simp
  idle j m hm _ := by
    rcases List.mem_append.mp (List.mem_of_getElem? hm) with hmem | hmem
    · obtain ⟨r, -, rfl⟩ := List.mem_map.mp hmem
      rfl
    · rw [List.eq_of_mem_replicate hmem]
      rfl

/-- The table after the setup. -/
lemma packed_pairRegs (c : MmapConstants) {regs : List (ℕ × ℕ)} (h : regs.length < c.maxNumMaps) :
    Packed (pairRegs c regs) where
  order := by
    refine List.pairwise_append.mpr ⟨?_, ?_, ?_⟩
    · refine List.pairwise_map.mpr (List.pairwise_of_forall fun a b => ?_)
      exact ⟨fun h => h, fun _ => by simp⟩
    · refine List.pairwise_replicate.mpr (Or.inr ⟨fun h => h, fun h => h⟩)
    · intro a ha b hb
      obtain ⟨r, -, rfl⟩ := List.mem_map.mp ha
      rw [List.eq_of_mem_replicate hb]
      exact ⟨fun h => absurd h (by simp [Mapping.Active]), fun h => absurd h (by decide)⟩
  spare := ⟨⟨-1, -1, 0, 0, 0, 0⟩, List.mem_append_right _ (List.mem_replicate.mpr ⟨by omega, rfl⟩),
    by decide, by decide⟩

/-- Filling the first entry that is available keeps a table packed. -/
lemma Packed.fillEntry {fill : Mapping → Mapping} (h : Packed ms)
    (hf : fillEntry fill ms = some ms')
    (hfill : ∀ m, (fill m).Active ∧ (fill m).xmcIdx = m.xmcIdx) : Packed ms' := by
  obtain ⟨j, m, hj, hav, hfirst, rfl⟩ := fillEntry_some hf
  obtain ⟨hlt, rfl⟩ := List.getElem?_eq_some_iff.mp hj
  have hp := List.pairwise_iff_getElem.mp h.order
  refine ⟨List.pairwise_iff_getElem.mpr fun a b ha hb hab => ?_, ?_⟩
  · rw [List.length_set] at ha hb
    have hxmc : ∀ i (hi : i < (ms.set j (fill ms[j])).length) (hi' : i < ms.length),
        ((ms.set j (fill ms[j]))[i]).xmcIdx = (ms[i]).xmcIdx := by
      intro i hi hi'
      rw [List.getElem_set]
      split
      · next he =>
        subst he
        exact (hfill _).2
      · rfl
    refine ⟨fun hact => ?_, fun hx => ?_⟩
    · rw [List.getElem_set]
      split
      · exact (hfill _).1
      · next hne =>
        rw [List.getElem_set] at hact
        split at hact
        · next he =>
          -- an entry before the one that is filled is configured, so it is in use
          subst he
          have hcfg := (hp a j ha hb hab).2 hav.1
          have hnav := hfirst a hab _ (List.getElem?_eq_getElem ha)
          exact Nat.pos_of_ne_zero fun h0 => hnav ⟨hcfg, h0⟩
        · exact (hp a b ha hb hab).1 hact
    · rw [hxmc a _ ha]
      rw [hxmc b _ hb] at hx
      exact (hp a b ha hb hab).2 hx
  · obtain ⟨m, hm, hneg, hact⟩ := h.spare
    obtain ⟨i, hi, rfl⟩ := List.mem_iff_getElem.mp hm
    refine ⟨ms[i], ?_, hneg, hact⟩
    have hne : j ≠ i := by
      rintro rfl
      exact absurd hav.1 (by omega)
    have hget : (ms.set j (fill ms[j]))[i]? = some ms[i] := by
      rw [List.getElem?_set_ne hne, List.getElem?_eq_getElem hi]
    exact List.mem_of_getElem? hget

/-- Filling entries keeps a table packed. -/
lemma Packed.fillEntries (h : Packed ms) (hseg : 0 < seg)
    (hf : fillEntries w virt seg prot n i ms = (true, ms')) : Packed ms' := by
  induction n generalizing i ms with
  | zero =>
    rw [Heap.fillEntries, Prod.mk.injEq] at hf
    rwa [← hf.2]
  | succ n ih =>
    rw [Heap.fillEntries] at hf
    split at hf
    · next ms₁ hms => exact ih (h.fillEntry hms fun m => ⟨hseg, rfl⟩) hf
    · cases hf

/-- In a packed table the entries up to the first that is not active are all active ones. -/
lemma takeWhile_eq_filter (h : ms.Pairwise fun a b => (b.Active → a.Active) ∧
      (0 ≤ b.xmcIdx → 0 ≤ a.xmcIdx)) :
    (ms.takeWhile fun m => m.Active) = ms.filter fun m => m.Active := by
  induction ms with
  | nil => rfl
  | cons m ms ih =>
    obtain ⟨hm, hms⟩ := List.pairwise_cons.mp h
    by_cases ha : m.Active
    · simp [ha, ih hms]
    · have hnone : ms.filter (fun m => m.Active) = [] := by
        refine List.filter_eq_nil_iff.mpr fun b hb hact => ?_
        exact ha ((hm b hb).1 (of_decide_eq_true hact))
      simp [ha, hnone]

/-- The words of a packed table. -/
lemma Packed.setup (h : Packed ms) :
    setupExtendedMemoryMappings ms = some ((ms.filter fun m => m.Active).length,
      (ms.filter fun m => m.Active).flatMap packMapping) := by
  have hlt : (ms.filter fun m => m.Active).length < ms.length := by
    refine List.length_filter_lt_length_iff_exists.mpr ?_
    obtain ⟨m, hm, -, hact⟩ := h.spare
    exact ⟨m, hm, by simpa using hact⟩
  unfold setupExtendedMemoryMappings
  rw [takeWhile_eq_filter h.order, if_pos hlt]

/-- An entry that is available belongs to no placement. -/
lemma Booked.not_mem_of_available {ps : List Placement} (h : Booked ms ps) {j : ℕ} {m : Mapping}
    (hj : ms[j]? = some m) (hav : Mapping.Available m) : j ∉ ps.flatMap Placement.slots := by
  intro hmem
  obtain ⟨p, hp, hjp⟩ := List.mem_flatMap.mp hmem
  obtain ⟨i, hi, hij⟩ := List.mem_iff_getElem.mp hjp
  obtain ⟨m', hm', hent⟩ := h.entry p hp i j (by rw [List.getElem?_eq_getElem hi, hij])
  rw [hj, Option.some.injEq] at hm'
  have hle := (h.sound p hp).le
  have hseg := hent.segsize
  rw [← hm', hav.2] at hseg
  omega

/-- The entry of a window, without overflow. -/
lemma windowEntry_eq (seg prot : ℕ) (m : Mapping) (hlen : w.alignedLen = 2 ^ k)
    (hv : virt + n * 2 ^ k ≤ 2 ^ 32) (hi : i < n)
    (hp : w.alignedPhy + (n - 1) * 2 ^ k < 2 ^ 36) :
    (windowEntry w virt seg prot i m).baddr = virt + i * 2 ^ k ∧
      (windowEntry w virt seg prot i m).raddr = w.alignedPhy + i * 2 ^ k := by
  have hpos : 0 < 2 ^ k := by positivity
  have hle : i * 2 ^ k + 2 ^ k ≤ n * 2 ^ k := by
    rw [← Nat.succ_mul]
    exact Nat.mul_le_mul_right _ hi
  have hle' : i * 2 ^ k ≤ (n - 1) * 2 ^ k := Nat.mul_le_mul_right _ (by omega)
  simp only [windowEntry, hlen]
  rw [wmul_eq (by omega), wadd_eq (by omega), wadd_eq (by omega)]
  exact ⟨rfl, rfl⟩

/-- Filling the entries of a new placement. -/
lemma Booked.fillEntries {ps : List Placement} (h : Booked ms ps) (heap : ℕ)
    (hlen : w.alignedLen = 2 ^ k) (h12 : 12 ≤ k) (hk : k < 32)
    (hn : n = 1 ∨ n = 2) (hv : virt + n * 2 ^ k ≤ 2 ^ 32) (hvd : 2 ^ k ∣ virt)
    (hpd : 2 ^ k ∣ w.alignedPhy) (hp : w.alignedPhy + (n - 1) * 2 ^ k < 2 ^ 36)
    (hf : fillEntries w virt k prot n 0 ms = (true, ms')) :
    ∃ p : Placement, p.heap = heap ∧ p.base = virt ∧ p.log = k ∧ p.phys = w.alignedPhy ∧
      p.slots.length = n ∧ Booked ms' (p :: ps) ∧
      (∀ j ∈ p.slots, ∃ m, ms[j]? = some m ∧ ms'[j]?.map Mapping.reset = some m) ∧
      ∀ j, j ∉ p.slots → ms'[j]? = ms[j]? := by
  obtain ⟨js, hjl, hnd, hjs, hrest⟩ := fillEntries_true (by omega) hf
  have hfresh : ∀ j ∈ js, j ∉ ps.flatMap Placement.slots := by
    intro j hj
    obtain ⟨t, ht, hjt⟩ := List.mem_iff_getElem.mp hj
    obtain ⟨m, hm, hav, -⟩ := hjs t j (by rw [List.getElem?_eq_getElem ht, hjt])
    exact h.not_mem_of_available hm hav
  refine ⟨⟨heap, virt, k, w.alignedPhy, js⟩, rfl, rfl, rfl, rfl, hjl, ⟨?_, ?_, ?_, ?_⟩, ?_, hrest⟩
  · intro p hp'
    rcases List.mem_cons.mp hp' with rfl | hp'
    · refine ⟨h12, hk, hjl ▸ hn, hvd, hpd, ?_, ?_⟩
      · show virt + js.length * 2 ^ k ≤ 2 ^ 32
        rwa [hjl]
      · show w.alignedPhy + (js.length - 1) * 2 ^ k < 2 ^ 36
        rwa [hjl]
    · exact h.sound p hp'
  · rw [List.flatMap_cons]
    exact List.nodup_append.mpr ⟨hnd, h.nodup, fun a ha b hb he => hfresh a ha (he ▸ hb)⟩
  · intro p hp' i j hij
    rcases List.mem_cons.mp hp' with rfl | hp'
    · obtain ⟨m, -, -, hm'⟩ := hjs i j hij
      have hi : i < js.length := (List.getElem?_eq_some_iff.mp hij).1
      have heq := windowEntry_eq k prot m hlen hv (hjl ▸ hi) hp
      rw [Nat.zero_add] at hm'
      exact ⟨_, hm', heq.1, heq.2, rfl⟩
    · obtain ⟨m, hm, hent⟩ := h.entry p hp' i j hij
      have hj : j ∉ js := fun hmem => hfresh j hmem
        (List.mem_flatMap.mpr ⟨p, hp', List.mem_of_getElem? hij⟩)
      exact ⟨m, by rw [hrest j hj, hm], hent⟩
  · intro j m hm hj
    rw [List.flatMap_cons, List.mem_append, not_or] at hj
    rw [hrest j hj.1] at hm
    exact h.idle j m hm hj.2
  · intro j hj
    obtain ⟨t, ht, hjt⟩ := List.mem_iff_getElem.mp hj
    obtain ⟨m, hm, hav, hm'⟩ := hjs t j (by rw [List.getElem?_eq_getElem ht, hjt])
    -- filling and resetting an idle entry changes nothing
    have hidle : Mapping.reset m = m := h.idle j m hm (hfresh j hj)
    refine ⟨m, hm, ?_⟩
    rw [hm', Option.map_some, Option.some.injEq]
    exact hidle

/-- The logarithm of the size of a window. -/
lemma log2Loop_eq {n k s : ℕ} (hk : k ≤ n) : log2Loop n (2 ^ k - 1) s = s + k := by
  induction n generalizing k s with
  | zero => simp [log2Loop, Nat.le_zero.mp hk]
  | succ n ih =>
    cases k with
    | zero => simp [log2Loop]
    | succ k =>
      have hpos : 0 < 2 ^ k := by positivity
      have hpow : 2 ^ (k + 1) = 2 ^ k * 2 := Nat.pow_succ ..
      rw [log2Loop, if_neg (by omega), show (2 ^ (k + 1) - 1) / 2 = 2 ^ k - 1 by omega, ih (by omega)]
      omega

/-! ### One buffer -/

/-- A buffer with the virtual address and the placement that it was given. -/
structure Places (b : PhysBuf) (virt : ℕ) (p : Placement) : Prop where
  windows : IsWindows (alignBuf b.physAddr b.length) b.physAddr b.length p.log
  phys : p.phys = (alignBuf b.physAddr b.length).alignedPhy
  num : p.slots.length = (alignBuf b.physAddr b.length).numMappings
  virt : virt = wadd 32 p.base (b.physAddr - p.phys)
  contained : b.physAddr + b.length ≤ p.phys + p.size ↔ Mappable b.physAddr b.length

/-- A buffer that can be requested. -/
structure PhysBuf.Valid (b : PhysBuf) : Prop where
  phys_lt : b.physAddr < 2 ^ 36
  pos : 1 ≤ b.length
  lt : b.length < 2 ^ 32

/-- The address space for all windows of a buffer. -/
lemma IsWindows.size_eq {phys len : ℕ} (h : IsWindows w phys len k) :
    ∃ m, w.numMappings * 2 ^ k = 2 ^ m ∧ m < 32 ∧ wmul 32 w.numMappings w.alignedLen = 2 ^ m := by
  have hm : ∃ m, w.numMappings * 2 ^ k = 2 ^ m ∧ m < 32 := by
    rcases h.num with ⟨hn, hk⟩ | ⟨hn, hk⟩
    · exact ⟨k, by rw [hn, Nat.one_mul], by omega⟩
    · exact ⟨k + 1, by rw [hn, Nat.pow_succ, Nat.mul_comm], by omega⟩
  obtain ⟨m, hm, hlt⟩ := hm
  refine ⟨m, hm, hlt, ?_⟩
  rw [h.alignedLen, wmul_eq (by rw [hm]; exact Nat.pow_lt_pow_right (by decide) hlt), hm]

/-- What `allocWindows` does: there is no address space, or the entries are filled, or they are not
and the address space is given back. -/
lemma allocWindows_ok {b : PhysBuf} {r r' : Resources} {res : Option ℕ}
    (h : allocWindows c w seg b r = .ok (res, r')) :
    (∃ bank, allocInHeaps c (wmul 32 w.numMappings w.alignedLen) b.prot r.numHeaps 0 r.heap =
        .ok (none, bank) ∧ res = none ∧ r' = ⟨r.mapping, bank, r.numHeaps⟩) ∨
      ∃ a idx bank ms, allocInHeaps c (wmul 32 w.numMappings w.alignedLen) b.prot r.numHeaps 0 r.heap =
          .ok (some (a, idx), bank) ∧
        ((fillEntries w a seg b.prot w.numMappings 0 r.mapping = (true, ms) ∧
            res = some (wadd 32 a (wsub 64 b.physAddr w.alignedPhy % 2 ^ 32)) ∧
            r' = ⟨ms, bank, r.numHeaps⟩) ∨
          (fillEntries w a seg b.prot w.numMappings 0 r.mapping = (false, ms) ∧ res = none ∧
            ∃ ret bank', heapFree c (heapFuel c) bank idx a = .ok (ret, bank') ∧
              r' = ⟨ms, bank', r.numHeaps⟩)) := by
  unfold allocWindows at h
  generalize allocInHeaps c (wmul 32 w.numMappings w.alignedLen) b.prot r.numHeaps 0 r.heap = al at h ⊢
  cases al with
  | error e => cases h
  | ok p =>
    obtain ⟨o, bank⟩ := p
    cases o with
    | none =>
      cases h
      exact Or.inl ⟨_, rfl, rfl, rfl⟩
    | some q =>
      obtain ⟨a, idx⟩ := q
      generalize hfe : fillEntries w a seg b.prot w.numMappings 0 r.mapping = fe
      obtain ⟨filled, ms⟩ := fe
      refine Or.inr ⟨a, idx, bank, ms, rfl, ?_⟩
      simp only [bind, Except.bind, hfe] at h
      cases filled with
      | true =>
        cases h
        exact Or.inl ⟨hfe, rfl, rfl⟩
      | false =>
        rw [if_neg Bool.false_ne_true] at h
        generalize heapFree c (heapFuel c) bank idx a = hf at h ⊢
        cases hf with
        | error e => cases h
        | ok q =>
          cases h
          exact Or.inr ⟨hfe, rfl, _, _, rfl, rfl⟩

/-- The errors of `allocWindows` are those of the heaps. -/
lemma allocWindows_error {b : PhysBuf} {r : Resources} {e : HeapError}
    (h : allocWindows c w seg b r = .error e) :
    allocInHeaps c (wmul 32 w.numMappings w.alignedLen) b.prot r.numHeaps 0 r.heap = .error e ∨
      ∃ a idx bank, allocInHeaps c (wmul 32 w.numMappings w.alignedLen) b.prot r.numHeaps 0 r.heap =
          .ok (some (a, idx), bank) ∧ heapFree c (heapFuel c) bank idx a = .error e := by
  unfold allocWindows at h
  generalize allocInHeaps c (wmul 32 w.numMappings w.alignedLen) b.prot r.numHeaps 0 r.heap = al at h ⊢
  cases al with
  | error e' =>
    cases h
    exact Or.inl rfl
  | ok p =>
    obtain ⟨o, bank⟩ := p
    cases o with
    | none => cases h
    | some q =>
      obtain ⟨a, idx⟩ := q
      refine Or.inr ⟨a, idx, bank, rfl, ?_⟩
      generalize hfe : fillEntries w a seg b.prot w.numMappings 0 r.mapping = fe
      obtain ⟨filled, ms⟩ := fe
      simp only [bind, Except.bind, hfe] at h
      cases filled with
      | true => cases h
      | false =>
        rw [if_neg Bool.false_ne_true] at h
        generalize heapFree c (heapFuel c) bank idx a = hf at h ⊢
        cases hf with
        | error e =>
          cases h
          rfl
        | ok q => cases h

/-- The windows of a valid buffer, with the arguments of `allocWindows`. -/
lemma PhysBuf.Valid.windows {b : PhysBuf} (hb : PhysBuf.Valid b) :
    ∃ k m, IsWindows (alignBuf b.physAddr b.length) b.physAddr b.length k ∧
      (b.physAddr + b.length ≤ (alignBuf b.physAddr b.length).alignedPhy +
        (alignBuf b.physAddr b.length).numMappings * 2 ^ k ↔ Mappable b.physAddr b.length) ∧
      (alignBuf b.physAddr b.length).numMappings * 2 ^ k = 2 ^ m ∧ k < 32 ∧ m < 32 ∧
      wmul 32 (alignBuf b.physAddr b.length).numMappings (alignBuf b.physAddr b.length).alignedLen =
        2 ^ m ∧
      log2Loop 32 ((alignBuf b.physAddr b.length).alignedLen - 1) 0 = k := by
  obtain ⟨k, hw, hiff⟩ := alignBuf_spec hb.phys_lt hb.pos hb.lt
  obtain ⟨m, hsize, hm32, hmul⟩ := hw.size_eq
  have hk32 : k < 32 := by
    rcases hw.num with hn | hn
    · omega
    · omega
  refine ⟨k, m, hw, hiff, hsize, hk32, hm32, hmul, ?_⟩
  rw [hw.alignedLen, log2Loop_eq (by omega), Nat.zero_add]

/-- `allocBuf` with the windows and the logarithm of their size. -/
lemma allocBuf_eq {b : PhysBuf} {r : Resources} (hw : alignBuf b.physAddr b.length = w)
    (hseg : log2Loop 32 (w.alignedLen - 1) 0 = seg) : allocBuf c b r = allocWindows c w seg b r := by
  subst hw hseg
  rfl

/-- One buffer that is mapped: its block comes from the heaps and its entries are booked. -/
lemma allocBuf_some {b : PhysBuf} {r r' : Resources} {ps : List Placement} (hb : PhysBuf.Valid b)
    (hbook : Booked r.mapping ps)
    (hheap : ∀ m a idx bank, allocInHeaps c (2 ^ m) b.prot r.numHeaps 0 r.heap =
      .ok (some (a, idx), bank) → 2 ^ m ∣ a ∧ a + 2 ^ m ≤ 2 ^ 32)
    (h : allocBuf c b r = .ok (some virt, r')) :
    ∃ p m, p.size = 2 ^ m ∧
      allocInHeaps c (2 ^ m) b.prot r.numHeaps 0 r.heap = .ok (some (p.base, p.heap), r'.heap) ∧
      r'.numHeaps = r.numHeaps ∧ Places b virt p ∧ Booked r'.mapping (p :: ps) ∧
      (Packed r.mapping → Packed r'.mapping) ∧
      (∀ j ∈ p.slots, ∃ e, r.mapping[j]? = some e ∧ r'.mapping[j]?.map Mapping.reset = some e) ∧
      ∀ j, j ∉ p.slots → r'.mapping[j]? = r.mapping[j]? := by
  obtain ⟨k, m, hw, hiff, hsize, hk32, -, hmul, hlog⟩ := hb.windows
  generalize hwd : alignBuf b.physAddr b.length = w at *
  rw [allocBuf_eq hwd hlog] at h
  rcases allocWindows_ok h with ⟨_, _, hres, _⟩ | ⟨a, idx, bank, ms, hal, ⟨hfe, hres, rfl⟩ | ⟨_, hres, _⟩⟩
  · cases hres
  · rw [hmul] at hal
    rw [Option.some.injEq] at hres
    obtain ⟨hdvd, hle⟩ := hheap m a idx bank hal
    rw [← hsize] at hle
    have hdvd' : 2 ^ k ∣ a := (Dvd.intro_left _ hsize).trans hdvd
    obtain ⟨p, rfl, rfl, rfl, hphys, hjl, hbook', hreset, hrest⟩ := hbook.fillEntries idx hw.alignedLen
      hw.le hk32 (by rcases hw.num with hn | hn <;> simp [hn.1]) hle hdvd' hw.aligned hw.raddr_lt hfe
    have hvirt : virt = wadd 32 p.base (b.physAddr - w.alignedPhy) := by
      have hstart := hw.start
      have hnear := hw.near
      have hp36 := hb.phys_lt
      rw [hres, wsub_eq hstart (by omega), Nat.mod_eq_of_lt (by omega)]
    refine ⟨p, m, ?_, hal, rfl, ?_, hbook', fun hp => hp.fillEntries (by have := hw.le; omega) hfe,
      hreset, hrest⟩
    · rw [Placement.size, hjl, hsize]
    · refine ⟨by rwa [hwd], by rw [hwd, hphys], by rw [hwd, hjl], by rw [hphys, hvirt], ?_⟩
      rw [Placement.size, hjl, hphys]
      exact hiff
  · cases hres

end Heap

end TiOpenCL
