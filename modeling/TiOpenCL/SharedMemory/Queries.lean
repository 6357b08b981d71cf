import TiOpenCL.SharedMemory.Matching

/-!
# Queries for pointers into mapped memory

`clMallocQuery` takes the last entry of `clMalloc_mapping_` that does not start above the pointer, and
it accepts the pointer if it is below the end of that entry.  The regions that `clMalloc` has returned
and `clFree` has not taken back are kept beside the provider.  Along every run in which sizes are not
zero and `Map` gives every region a range of the host apart from the ranges of the other ones, a pointer
is found if and only if it is in a region, with the physical address and the bytes that are left.
-/

namespace TiOpenCL

namespace SharedMemory

open HeapManager

namespace Provider

/-- `clMallocQuery`: the physical address and the rest of the size, or `none` for the result
`false`. -/
def clMallocQuery (s : Provider) (ptr : ℕ) : Option (ℕ × ℕ) :=
  match (s.mapping.upTo ptr).getLast? with
  | none => none
  | some (host, m) =>
    if wadd 64 host m.size ≤ ptr then none
    else some (wadd 64 m.grant.addr (ptr - host), m.size - (ptr - host))

/-! ### Regions -/

/-- A region that `clMalloc` has returned. -/
structure Region where
  /-- The pointer that the caller got. -/
  host : ℕ
  /-- The physical address. -/
  base : ℕ
  /-- The size of the request. -/
  size : ℕ
  deriving DecidableEq

/-- The region of a call of `clMalloc` that succeeds. -/
def newRegion (s : Provider) (pid size : ℕ) (onChip : Bool) (mapped : Option ℕ) : Option Region :=
  (clAllocate s.heaps pid size onChip).bind fun r =>
    if r.1.addr = 0 then none else mapped.map fun host => ⟨host, r.1.addr, size⟩

/-- The live regions after a call. -/
def regionsAfter (pid : ℕ) (s : Provider) (regions : List Region) : Action → List Region
  | .clMalloc size onChip mapped _ => (s.newRegion pid size onChip mapped).toList ++ regions
  | .clFree ptr _ => regions.filter fun r => r.host ≠ ptr
  | _ => regions

/-- One call, with the live regions beside the provider. -/
def stepRegions (pid : ℕ) (t : Provider × List Region) (a : Action) :
    Option (Provider × List Region) :=
  (t.1.step pid a).map fun s => (s, t.1.regionsAfter pid t.2 a)

/-- Two regions have no byte of the host in common. -/
def Region.Apart (r r' : Region) : Prop := r.host + r.size ≤ r'.host ∨ r'.host + r'.size ≤ r.host

instance (r r' : Region) : Decidable (r.Apart r') := inferInstanceAs (Decidable (_ ∨ _))

/-- The condition on a call: the size of a request is not zero, and the range of the host that `Map`
gives it is a range of addresses, apart from those of the live regions. -/
def MapOk (pid : ℕ) (t : Provider × List Region) : Action → Prop
  | .clMalloc size onChip mapped _ =>
    0 < size ∧ ∀ r ∈ t.1.newRegion pid size onChip mapped,
      r.host + r.size < 2 ^ 64 ∧ ∀ r' ∈ t.2, r.Apart r'
  | _ => True

instance (pid : ℕ) (t : Provider × List Region) (a : Action) : Decidable (MapOk pid t a) :=
  match a with
  | .clMalloc size onChip mapped _ =>
    inferInstanceAs (Decidable (0 < size ∧ ∀ r ∈ t.1.newRegion pid size onChip mapped,
      r.host + r.size < 2 ^ 64 ∧ ∀ r' ∈ t.2, r.Apart r'))
  | .allocateMSMC _ | .allocateGlobal _ _ | .free _ _ _ | .clFree _ _ => isTrue trivial

/-! ### The mapping records the regions -/

/-- The mapping has an entry for every region and no others, and the regions are apart. -/
structure Tracks (t : Provider × List Region) : Prop where
  mem_iff : ∀ r, r ∈ t.2 ↔
    ∃ m, (r.host, m) ∈ t.1.mapping.entries ∧ m.grant.addr = r.base ∧ m.size = r.size
  placed : ∀ r ∈ t.2, 0 < r.size ∧ r.host + r.size < 2 ^ 64
  apart : ∀ r ∈ t.2, ∀ r' ∈ t.2, r ≠ r' → r.Apart r'

variable {pid : ℕ} {s s' : Provider} {R : List Region}

/-- The region of an entry. -/
lemma Tracks.region (h : Tracks (s, R)) {host : ℕ} {m : ClMapping}
    (hm : (host, m) ∈ s.mapping.entries) : ⟨host, m.grant.addr, m.size⟩ ∈ R :=
  (h.mem_iff _).mpr ⟨m, hm, rfl, rfl⟩

/-- The query is exact as long as the mapping records the regions. -/
lemma Tracks.clMallocQuery_iff (h : Tracks (s, R)) (ptr addr size : ℕ) :
    s.clMallocQuery ptr = some (addr, size) ↔
      ∃ r ∈ R, r.host ≤ ptr ∧ ptr < r.host + r.size ∧
        addr = wadd 64 r.base (ptr - r.host) ∧ size = r.size - (ptr - r.host) := by
  unfold clMallocQuery
  cases hlast : (s.mapping.upTo ptr).getLast? with
  | none =>
    refine iff_of_false (by simp) ?_
    rintro ⟨r, hr, hle, -⟩
    obtain ⟨m, hm, -⟩ := (h.mem_iff r).mp hr
    have hmem : (r.host, m) ∈ s.mapping.upTo ptr := OrderedMap.mem_upTo.mpr ⟨hm, hle⟩
    rw [List.getLast?_eq_none_iff.mp hlast] at hmem
    cases hmem
  | some e =>
    obtain ⟨host, m⟩ := e
    obtain ⟨hm, hle⟩ := OrderedMap.mem_upTo.mp (List.mem_of_getLast? hlast)
    have hreg := h.region hm
    have hsum : wadd 64 host m.size = host + m.size := wadd_eq (h.placed _ hreg).2
    simp only [hsum]
    constructor
    · intro hquery
      split_ifs at hquery with hend
      obtain ⟨rfl, rfl⟩ := Prod.mk.inj (Option.some.inj hquery)
      exact ⟨_, hreg, hle, not_le.mp hend, rfl, rfl⟩
    · rintro ⟨r, hr, hlow, hhigh, rfl, rfl⟩
      -- A region that has the pointer starts at the entry that was found.
      have heq : r = ⟨host, m.grant.addr, m.size⟩ := by
        by_contra hne
        obtain ⟨m', hm', -⟩ := (h.mem_iff r).mp hr
        have hkey : r.host ≤ host := OrderedMap.le_upTo_getLast hlast hm' hlow
        have hpos := (h.placed _ hreg).1
        have happart : r.host + r.size ≤ host ∨ host + m.size ≤ r.host := h.apart r hr _ hreg hne
        simp only at hpos hle
        omega
      subst heq
      simp only at hhigh
      rw [if_neg (by omega)]

/-! ### Runs -/

/-- What `clMalloc` does to the mapping: nothing, or it enters the new region. -/
lemma clMalloc_mapping {size : ℕ} {onChip : Bool} {mapped : Option ℕ} {pastEnd : PastEnd}
    (hs : (s.clMalloc pid size onChip mapped pastEnd).map Prod.snd = some s') :
    s.newRegion pid size onChip mapped = none ∧ s'.mapping = s.mapping ∨
      ∃ host g, s.newRegion pid size onChip mapped = some ⟨host, g.addr, size⟩ ∧
        s'.mapping = s.mapping.insert host ⟨g, size, onChip⟩ := by
  unfold newRegion
  unfold clMalloc at hs
  cases hr : clAllocate s.heaps pid size onChip with
  | none =>
    rw [hr] at hs
    cases hs
  | some r =>
    rw [hr, Option.map_some, Option.map_some, Option.some.injEq] at hs
    subst hs
    rw [Option.bind_some]
    by_cases haddr : r.1.addr = 0
    · rw [if_pos haddr, if_pos haddr]
      exact Or.inl ⟨rfl, rfl⟩
    · rw [if_neg haddr, if_neg haddr]
      cases mapped with
      | none => exact Or.inl ⟨rfl, rfl⟩
      | some host => exact Or.inr ⟨host, r.1, rfl, rfl⟩

/-- A region that is apart from the live ones is entered under a key of its own. -/
lemma Tracks.enter (h : Tracks (s, R)) {host : ℕ} {m : ClMapping} (hpos : 0 < m.size)
    (hend : host + m.size < 2 ^ 64)
    (hapart : ∀ r' ∈ R, Region.Apart ⟨host, m.grant.addr, m.size⟩ r')
    (hmap : s'.mapping = s.mapping.insert host m) :
    Tracks (s', ⟨host, m.grant.addr, m.size⟩ :: R) := by
  have hfresh : ∀ m', (host, m') ∉ s.mapping.entries := by
    intro m' hm'
    have hreg := h.region hm'
    have hpos' := (h.placed _ hreg).1
    have hclash : host + m.size ≤ host ∨ host + m'.size ≤ host := hapart _ hreg
    simp only at hpos'
    omega
  refine ⟨fun r => ?_, fun r hr => ?_, fun r hr r' hr' hne => ?_⟩
  · rw [List.mem_cons, h.mem_iff r]
    simp only [hmap, OrderedMap.mem_insert, Prod.mk.injEq]
    constructor
    · rintro (rfl | ⟨m', hm', hbase, hsize⟩)
      · exact ⟨m, Or.inl ⟨rfl, rfl⟩, rfl, rfl⟩
      · refine ⟨m', Or.inr ⟨hm', fun hkey => ?_⟩, hbase, hsize⟩
        exact hfresh m' (hkey ▸ hm')
    · rintro ⟨m', ⟨hhost, rfl⟩ | ⟨hm', -⟩, hbase, hsize⟩
      · exact Or.inl (by rw [← hhost, hbase, hsize])
      · exact Or.inr ⟨m', hm', hbase, hsize⟩
  · rcases List.mem_cons.mp hr with rfl | hr
    · exact ⟨hpos, hend⟩
    · exact h.placed r hr
  · rcases List.mem_cons.mp hr with rfl | hr
    · rcases List.mem_cons.mp hr' with rfl | hr'
      · exact absurd rfl hne
      · exact hapart r' hr'
    · rcases List.mem_cons.mp hr' with rfl | hr'
      · exact (hapart r hr).symm
      · exact h.apart r hr r' hr' hne

/-- `clFree` takes the region of its pointer out of the mapping. -/
lemma Tracks.leave (h : Tracks (s, R)) (ptr : ℕ) (pastEnd : PastEnd) :
    Tracks ((s.clFree pastEnd ptr).2, R.filter fun r => r.host ≠ ptr) := by
  have hmem : ∀ e : ℕ × ClMapping, e ∈ (s.clFree pastEnd ptr).2.mapping.entries ↔
      e ∈ s.mapping.entries ∧ e.1 ≠ ptr := by
    intro e
    unfold clFree
    cases hfind : s.mapping.find? ptr with
    | some m => exact OrderedMap.mem_erase
    | none =>
      refine ⟨fun he => ⟨he, fun hkey => ?_⟩, And.left⟩
      exact OrderedMap.find?_eq_none_iff.mp hfind e.2 (hkey ▸ he)
  have hsub : ∀ r ∈ R.filter fun r => r.host ≠ ptr, r ∈ R := fun r hr => List.mem_of_mem_filter hr
  refine ⟨fun r => ?_, fun r hr => h.placed r (hsub r hr),
    fun r hr r' hr' hne => h.apart r (hsub r hr) r' (hsub r' hr') hne⟩
  simp only [List.mem_filter, decide_eq_true_eq, hmem, h.mem_iff r]
  constructor
  · rintro ⟨⟨m, hm, hrest⟩, hne⟩
    exact ⟨m, ⟨hm, hne⟩, hrest⟩
  · rintro ⟨m, ⟨hm, hne⟩, hrest⟩
    exact ⟨⟨m, hm, hrest⟩, hne⟩

/-- The calls that do not touch the mapping. -/
lemma Tracks.of_mapping_eq (h : Tracks (s, R)) (hmap : s'.mapping = s.mapping) : Tracks (s', R) where
  mem_iff r := by
    rw [h.mem_iff r, hmap]
  placed := h.placed
  apart := h.apart

/-- Every call that meets its condition keeps the mapping a record of the regions. -/
lemma tracks_step {t t' : Provider × List Region} {a : Action} (h : Tracks t) (hok : MapOk pid t a)
    (hs : stepRegions pid t a = some t') : Tracks t' := by
  obtain ⟨s, R⟩ := t
  obtain ⟨s', hstep, rfl⟩ := Option.map_eq_some_iff.mp hs
  cases a with
  | allocateMSMC size =>
    obtain rfl := Option.some.inj hstep
    exact h.of_mapping_eq rfl
  | allocateGlobal size prefer32bit =>
    obtain ⟨r, -, rfl⟩ := Option.map_eq_some_iff.mp hstep
    exact h.of_mapping_eq rfl
  | free f g pastEnd =>
    simp only [step, Option.ite_none_right_eq_some, Option.some.injEq] at hstep
    obtain ⟨-, rfl⟩ := hstep
    exact h.of_mapping_eq rfl
  | clMalloc size onChip mapped pastEnd =>
    obtain ⟨hpos, hnew⟩ := hok
    rcases clMalloc_mapping hstep with ⟨hnone, hmap⟩ | ⟨host, g, hsome, hmap⟩
    · simp only [regionsAfter, hnone]
      exact h.of_mapping_eq hmap
    · obtain ⟨hend, hapart⟩ := hnew _ hsome
      simp only [regionsAfter, hsome]
      exact h.enter hpos hend hapart hmap
  | clFree ptr pastEnd =>
    obtain rfl := Option.some.inj hstep
    exact h.leave ptr pastEnd

/-- Two regions that touch each other on the host, and a third one at the place of the first after it
has been freed. -/
def touchingCalls : List Action :=
  [.clMalloc 0x100 false (some 0x70000000) ⟨0, 0⟩, .clMalloc 0x80 true (some 0x70000100) ⟨0, 0⟩,
    .clFree 0x70000000 ⟨0, 0⟩, .clMalloc 0x40 true (some 0x70000000) ⟨0, 0⟩]

end Provider

end SharedMemory

end TiOpenCL
