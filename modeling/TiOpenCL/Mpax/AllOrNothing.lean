import TiOpenCL.Mpax.RoundTrip

/-!
# Failing calls of `keystone_mmap_resource_alloc`

A call that cannot map all of its buffers unmaps those before the one that fails and gives back the
address space of that one, but not an entry that was filled for it.  So a buffer that takes two
windows and finds exactly one entry left keeps this entry for good.  If that does not happen, and no
block that is unmapped ends at the last address of all, a failing call changes nothing: neither the
table nor the free addresses of any heap.
-/

namespace TiOpenCL

namespace Heap

/-- The table is the same in two states, and so are the free addresses of every heap. -/
structure Unchanged (c : MmapConstants) (r r' : Resources) : Prop where
  mapping : r'.mapping = r.mapping
  heap : ∀ i < r.numHeaps, ∀ x, FreeAt c r'.heap i x ↔ FreeAt c r.heap i x

/-- In every run whose calls meet their conditions, from a configuration without heaps at zero and
with roots apart, a call of `keystone_mmap_resource_alloc` that meets its condition uses up the bank,
or maps all of its buffers, or leaves everything as it was. -/
theorem unchanged_of_cleanCalls (c : MmapConstants) (cfg : HeapConfig c) (regs : List (ℕ × ℕ))
    (hzero : NoZeroHeap cfg.heaps) {r : Resources}
    (hinit : resourceInit c regs cfg.heaps = .ok (some r)) (hroots : RootsApart cfg.heaps r.heap)
    (calls : List Call) (hok : CleanCalls c ⟨r, []⟩ calls) :
    Session.run c ⟨r, []⟩ calls = .error .noElement ∨
      ∃ s, Session.run c ⟨r, []⟩ calls = .ok s ∧
        ∀ bufs, CleanCall c s (.alloc bufs) →
          resourceAlloc c bufs s.res = .error .noElement ∨
            ∃ virts r', resourceAlloc c bufs s.res = .ok (virts, r') ∧
              (virts = none → Unchanged c s.res r') := by
  have hh : HeapsOk cfg.heaps := ⟨hzero, cfg.disjoint, fun h hh => (cfg.lt h hh).2⟩
  rcases (sessionInv_init cfg hinit).run hh hroots hok with he | ⟨s, he, hinv⟩
  · exact Or.inl he
  · refine Or.inr ⟨s, he, fun bufs hclean => ?_⟩
    rcases hinv.resourceAlloc hh hroots hclean with
      he' | ⟨virts, r', he', -⟩ | ⟨r', he', -, hmapping, hheap⟩
    · exact Or.inl he'
    · exact Or.inr ⟨some virts, r', he', fun hnone => by cases hnone⟩
    · exact Or.inr ⟨none, r', he', fun _ => ⟨hmapping, hheap⟩⟩

/-! ### The table used up, and one entry left for two windows -/

/-- The condition on the release of a batch that there is. -/
lemma cleanCall_free_iff {c : MmapConstants} {s : Session} {k : ℕ} {batch : Batch}
    (h : s.batches[k]? = some batch) : CleanCall c s (.free k) ↔ FreeOk s.res batch.args := by
  simp [CleanCall, h]

/-- No condition on the release of a batch that there is not. -/
lemma cleanCall_free_of_none {c : MmapConstants} {s : Session} {k : ℕ}
    (h : s.batches[k]? = none) : CleanCall c s (.free k) := by
  simp [CleanCall, h]

instance (c : MmapConstants) (s : Session) (call : Call) : Decidable (CleanCall c s call) :=
  match call with
  | .alloc bufs =>
    inferInstanceAs (Decidable ((∀ b ∈ bufs, PhysBuf.Valid b ∧ Mappable b.physAddr b.length) ∧
      ∀ q ∈ failsWith c s.res.numHeaps bufs (available s.res.mapping) s.res.heap,
        q.2 = 0 ∧ ∀ block ∈ q.1, block.1 + block.2 ≠ 2 ^ 32))
  | .free k =>
    match h : s.batches[k]? with
    | some _ => decidable_of_iff _ (cleanCall_free_iff h).symm
    | none => isTrue (cleanCall_free_of_none h)

instance decidableCleanCalls (c : MmapConstants) : (s : Session) → (calls : List Call) →
    Decidable (CleanCalls c s calls)
  | _, [] => isTrue trivial
  | s, call :: calls =>
    have : Decidable (∀ s', s.step c call = .ok s' → CleanCalls c s' calls) :=
      match s.step c call with
      | .ok s' =>
        have := decidableCleanCalls c s' calls
        decidable_of_iff (CleanCalls c s' calls) (by simp)
      | .error _ => isTrue (by simp)
    inferInstanceAs (Decidable (_ ∧ _))

/-- Buffers of one page each. -/
def pageBufs (n : ℕ) : List PhysBuf :=
  (List.range n).map fun i => ⟨0x820000000 + i * 0x1000, 0x1000, 0⟩

/-- A run with its conditions and a call after it that fails, as a test on the state after the
setup. -/
def failTest (c : MmapConstants) (calls : List Call) (bufs : List PhysBuf) (r : Resources) : Bool :=
  decide (CleanCalls c ⟨r, []⟩ calls) && match Session.run c ⟨r, []⟩ calls with
    | .ok s => decide (CleanCall c s (.alloc bufs)) && match resourceAlloc c bufs s.res with
      | .ok (none, _) => true
      | _ => false
    | .error _ => false

/-- After a run on the heaps of the device the table has four entries left, and a call for five
buffers fails and leaves everything as it was. -/
theorem unchanged_deviceCalls :
    ∃ r s r', resourceInit exampleConstants deviceRegs deviceHeaps.heaps = .ok (some r) ∧
      Session.run exampleConstants ⟨r, []⟩ deviceCalls = .ok s ∧
      resourceAlloc exampleConstants (pageBufs 5) s.res = .ok (none, r') ∧
      Unchanged exampleConstants s.res r' := by
  have htest : (resourceInit exampleConstants deviceRegs deviceHeaps.heaps).map (Option.map fun r =>
      ((r.heap 0).baseAddr, failTest exampleConstants deviceCalls (pageBufs 5) r)) =
      .ok (some (0xC0000000, true)) := by
    decide +kernel
  match hinit : resourceInit exampleConstants deviceRegs deviceHeaps.heaps with
  | .error e => simp [hinit, Except.map] at htest
  | .ok none => simp [hinit, Except.map] at htest
  | .ok (some r) =>
    simp only [hinit, Except.map, Option.map_some, Except.ok.injEq, Option.some.injEq, Prod.mk.injEq,
      failTest, Bool.and_eq_true, decide_eq_true_iff] at htest
    obtain ⟨hbase, hok, hrun⟩ := htest
    rcases unchanged_of_cleanCalls exampleConstants deviceHeaps deviceRegs noZeroHeap_deviceHeaps hinit
      (rootsApart_deviceHeaps hbase) deviceCalls hok with he | ⟨s, he, hall⟩
    · simp [he] at hrun
    · simp only [he, Bool.and_eq_true, decide_eq_true_iff] at hrun
      obtain ⟨hclean, hfails⟩ := hrun
      rcases hall (pageBufs 5) hclean with he' | ⟨virts, r', he', hsame⟩
      · simp [he'] at hfails
      · cases virts with
        | none => exact ⟨r, s, r', rfl, he, he', hsame rfl⟩
        | some virts => simp [he'] at hfails

/-- Right after the setup a call maps six pages, which leaves one entry, and fails at a buffer that
takes two windows: this entry is still active after the call. -/
theorem not_unchanged_two_windows :
    ∃ r r', resourceInit exampleConstants deviceRegs deviceHeaps.heaps = .ok (some r) ∧
      resourceAlloc exampleConstants (pageBufs 6 ++ [⟨0x823FF0000, 0x20000, 0⟩]) r = .ok (none, r') ∧
      (r.mapping.countP fun m => m.Active) = 0 ∧ (r'.mapping.countP fun m => m.Active) = 1 := by
  have htest : (resourceInit exampleConstants deviceRegs deviceHeaps.heaps).map (Option.map fun r =>
      match resourceAlloc exampleConstants (pageBufs 6 ++ [⟨0x823FF0000, 0x20000, 0⟩]) r with
      | .ok (none, r') => decide ((r.mapping.countP fun m => m.Active) = 0 ∧
          (r'.mapping.countP fun m => m.Active) = 1)
      | _ => false) = .ok (some true) := by
    decide +kernel
  match hinit : resourceInit exampleConstants deviceRegs deviceHeaps.heaps with
  | .error e => simp [hinit, Except.map] at htest
  | .ok none => simp [hinit, Except.map] at htest
  | .ok (some r) =>
    simp only [hinit, Except.map, Option.map_some, Except.ok.injEq, Option.some.injEq] at htest
    split at htest
    · next r' hal => exact ⟨r, r', rfl, hal, of_decide_eq_true htest⟩
    · cases htest

end Heap

end TiOpenCL
