import Mathlib.Data.List.Perm.Basic
import TiOpenCL.Loader.Tables

/-!
# Every relocation is applied once

The calls of `reloc_do` that `DLREL_c60_relocate` makes, for a module whose relocation entries have
addends.  In the table of the GOT the entries of each segment are one run, and the entries of the
PLT lie in one segment: then there is one call for each entry, with the segment that contains it and
its offset there.  A table in which two entries of a segment are apart loses the later one.
-/

namespace TiOpenCL.Reloc

/-! ### Filters of a partition -/

/-- If every element of a list satisfies exactly one of the predicates, the filters together are the
list in another order. -/
lemma flatMap_filter_perm {α β : Type*} {p : β → α → Bool} {bs : List β}
    (hdisj : bs.Pairwise fun b b' => ∀ a, p b a = true → p b' a = false) :
    ∀ {l : List α}, (∀ a ∈ l, ∃ b ∈ bs, p b a = true) →
      (bs.flatMap fun b => l.filter (p b)).Perm l := by
  induction bs with
  | nil =>
    intro l hcover
    have hnil : l = [] := List.eq_nil_iff_forall_not_mem.mpr fun a ha => by
      obtain ⟨b, hb, -⟩ := hcover a ha
      simp at hb
    simp [hnil]
  | cons b bs ih =>
    intro l hcover
    obtain ⟨hfirst, hrest⟩ := List.pairwise_cons.mp hdisj
    -- the other predicates see only what the first one leaves
    have hsame : (bs.flatMap fun b' => l.filter (p b')) =
        bs.flatMap fun b' => (l.filter fun a => !p b a).filter (p b') := by
      refine List.flatMap_congr fun b' hb' => ?_
      rw [List.filter_filter]
      refine List.filter_congr fun a _ => ?_
      cases hba : p b a with
      | false => simp
      | true => simp [hfirst b' hb' a hba]
    have hleft : ∀ a ∈ l.filter (fun a => !p b a), ∃ b' ∈ bs, p b' a = true := by
      intro a ha
      obtain ⟨hal, hba⟩ := List.mem_filter.mp ha
      obtain ⟨b', hb', hpa⟩ := hcover a hal
      rcases List.mem_cons.mp hb' with rfl | hb'
      · simp [hpa] at hba
      · exact ⟨b', hb', hpa⟩
    rw [List.flatMap_cons, hsame]
    exact ((ih hrest hleft).append_left _).trans (List.filter_append_perm (p b) l)

/-- The elements that satisfy a predicate are one run of the list. -/
def OneRun {α : Type*} (p : α → Prop) (l : List α) : Prop :=
  ∃ before run after, l = before ++ (run ++ after) ∧ (∀ a ∈ before, ¬ p a) ∧ (∀ a ∈ run, p a) ∧
    ∀ a ∈ after, ¬ p a

/-! ### Segments -/

/-- The offset lies in the range of the segment. -/
def Segment.Lies (seg : Segment) (offset : BitVec 32) : Prop :=
  seg.inputVaddr.toNat ≤ offset.toNat ∧ offset.toNat < seg.inputVaddr.toNat + seg.memsz.toNat

instance (seg : Segment) (offset : BitVec 32) : Decidable (seg.Lies offset) :=
  inferInstanceAs (Decidable (_ ∧ _))

/-- The test of the loader decides whether an offset lies in a segment that ends below the end of
the address type. -/
lemma Segment.contains_iff {seg : Segment} (hend : seg.inputVaddr.toNat + seg.memsz.toNat < 2 ^ 32)
    (offset : BitVec 32) : seg.contains offset = true ↔ seg.Lies offset := by
  rw [contains, Bool.and_eq_true, decide_eq_true_eq, decide_eq_true_eq, BitVec.le_def, BitVec.lt_def,
    BitVec.toNat_add, Nat.mod_eq_of_lt hend]
  rfl

namespace Module

variable {M : Module}

/-- A call of `reloc_do` is the one for its entry: the segment has contents and contains the entry,
and the place is the offset of the entry in it. -/
def Correct (M : Module) (a : Applied) : Prop :=
  ∃ seg symval, M.segments[a.segment]? = some seg ∧ seg.filesz ≠ 0 ∧ seg.Lies a.entry.rOffset ∧
    M.canonicalLookup a.entry.rSymid = some symval ∧
    a.call = ⟨a.entry.rType, seg.vaddr, a.entry.rAddend, symval, a.entry.rOffset - seg.inputVaddr,
      M.wrongEndian, M.tiStaticBase, M.dsbtIndex⟩

/-! ### One table and one segment -/

/-- The entries in front of the first one in the segment are passed over. -/
lemma scanRela_skip {segIdx : ℕ} {seg : Segment} {before : List Rela}
    (h : ∀ e ∈ before, seg.contains e.rOffset = false) (rest : List Rela) :
    M.scanRela segIdx seg false (before ++ rest) = M.scanRela segIdx seg false rest := by
  induction before with
  | nil => rfl
  | cons e before ih =>
    have he := h e List.mem_cons_self
    have hb := ih fun e' he' => h e' (List.mem_cons_of_mem _ he')
    simpa [scanRela, he] using hb

/-- The scan of a run of entries in the segment calls `reloc_do` for each of them. -/
lemma scanRela_run {segIdx : ℕ} {seg : Segment} {run : List Rela}
    (h : ∀ e ∈ run, seg.contains e.rOffset = true) (rest : List Rela) (found : Bool) :
    M.scanRela segIdx seg found (run ++ rest) =
      run.flatMap (M.relocEntry segIdx seg) ++
        M.scanRela segIdx seg (if run = [] then found else true) rest := by
  induction run generalizing found with
  | nil => simp
  | cons e run ih =>
    have he := h e List.mem_cons_self
    have hrest := ih (fun e' he' => h e' (List.mem_cons_of_mem _ he')) true
    simp [scanRela, he, hrest]

/-- Entries outside the segment that follow are not looked for one inside. -/
lemma scanRela_after {segIdx : ℕ} {seg : Segment} {after : List Rela}
    (h : ∀ e ∈ after, seg.contains e.rOffset = false) (found : Bool) :
    M.scanRela segIdx seg found after = [] := by
  induction after generalizing found with
  | nil => rfl
  | cons e after ih =>
    have he := h e List.mem_cons_self
    have hrest := ih (fun e' he' => h e' (List.mem_cons_of_mem _ he')) false
    cases found <;> simp [scanRela, he, hrest]

/-- If the entries of a segment are one run of the table, the scan calls `reloc_do` for them and no
others. -/
lemma scanRela_of_oneRun {segIdx : ℕ} {seg : Segment} {table : List Rela}
    (h : OneRun (fun e : Rela => seg.contains e.rOffset = true) table) :
    M.scanRela segIdx seg false table =
      (table.filter fun e => seg.contains e.rOffset).flatMap (M.relocEntry segIdx seg) := by
  obtain ⟨before, run, after, rfl, hbefore, hrun, hafter⟩ := h
  have hb : ∀ e ∈ before, seg.contains e.rOffset = false := fun e he => by simpa using hbefore e he
  have ha : ∀ e ∈ after, seg.contains e.rOffset = false := fun e he => by simpa using hafter e he
  have hfilter : (before ++ (run ++ after)).filter (fun e => seg.contains e.rOffset) = run := by
    rw [List.filter_append, List.filter_append, List.filter_eq_nil_iff.mpr (by simpa using hb),
      List.filter_eq_self.mpr hrun, List.filter_eq_nil_iff.mpr (by simpa using ha)]
    simp
  rw [scanRela_skip hb, scanRela_run hrun, scanRela_after ha, hfilter, List.append_nil]

/-- With its symbol found, an entry gives one call. -/
lemma relocEntry_of_isSome {e : Rela} (h : (M.canonicalLookup e.rSymid).isSome) (segIdx : ℕ)
    (seg : Segment) : (M.relocEntry segIdx seg e).map Applied.entry = [e] := by
  obtain ⟨symval, hs⟩ := Option.isSome_iff_exists.mp h
  simp [relocEntry, hs]

/-- The entries of the calls for a list of entries whose symbols are found. -/
lemma flatMap_relocEntry {l : List Rela} (h : ∀ e ∈ l, (M.canonicalLookup e.rSymid).isSome)
    (segIdx : ℕ) (seg : Segment) :
    (l.flatMap (M.relocEntry segIdx seg)).map Applied.entry = l := by
  induction l with
  | nil => rfl
  | cons e l ih =>
    rw [List.flatMap_cons, List.map_append, relocEntry_of_isSome (h e List.mem_cons_self),
      ih fun e' he' => h e' (List.mem_cons_of_mem _ he')]
    rfl

/-- A call that a scan makes is the one for its entry. -/
lemma correct_of_mem_relocEntry {segIdx : ℕ} {seg : Segment} {e : Rela} {a : Applied}
    (hseg : M.segments[segIdx]? = some seg) (hfile : seg.filesz ≠ 0) (hlies : seg.Lies e.rOffset)
    (ha : a ∈ M.relocEntry segIdx seg e) : M.Correct a := by
  unfold relocEntry at ha
  cases hs : M.canonicalLookup e.rSymid with
  | none => simp [hs] at ha
  | some symval =>
    simp only [hs, List.mem_singleton] at ha
    subst ha
    exact ⟨seg, symval, hseg, hfile, hlies, hs, rfl⟩

/-- A call of a scan is for an entry of the table in the segment. -/
lemma mem_scanRela {segIdx : ℕ} {seg : Segment} {table : List Rela} {found : Bool} {a : Applied}
    (ha : a ∈ M.scanRela segIdx seg found table) :
    ∃ e ∈ table, seg.contains e.rOffset = true ∧ a ∈ M.relocEntry segIdx seg e := by
  induction table generalizing found with
  | nil => simp [scanRela] at ha
  | cons e table ih =>
    unfold scanRela at ha
    split at ha
    · next he =>
      rcases List.mem_append.mp ha with ha | ha
      · exact ⟨e, List.mem_cons_self, he, ha⟩
      · obtain ⟨e', he', hrest⟩ := ih ha
        exact ⟨e', List.mem_cons_of_mem _ he', hrest⟩
    · split at ha
      · simp at ha
      · obtain ⟨e', he', hrest⟩ := ih ha
        exact ⟨e', List.mem_cons_of_mem _ he', hrest⟩

/-! ### All segments -/

/-- The segment has contents and contains the entry. -/
def holds (seg : Segment) (e : Rela) : Bool := decide (seg.filesz ≠ 0) && seg.contains e.rOffset

/-- The calls for the table of the GOT: each segment's entries, one segment after the other. -/
lemma processGotRelocs_spec {table : List Rela}
    (hsym : ∀ e ∈ table, (M.canonicalLookup e.rSymid).isSome) {segs : List Segment} :
    ∀ {segIdx : ℕ}, (∀ i, M.segments[segIdx + i]? = segs[i]?) →
      (∀ seg ∈ segs, seg.inputVaddr.toNat + seg.memsz.toNat < 2 ^ 32) →
      (∀ seg ∈ segs, seg.filesz ≠ 0 → OneRun (fun e : Rela => seg.contains e.rOffset = true) table) →
      (M.processGotRelocs none (some table) segIdx segs).exited = false ∧
        (M.processGotRelocs none (some table) segIdx segs).applied.map Applied.entry =
          segs.flatMap (fun seg => table.filter (holds seg)) ∧
        ∀ a ∈ (M.processGotRelocs none (some table) segIdx segs).applied, M.Correct a := by
  induction segs with
  | nil => exact fun _ _ _ => ⟨rfl, rfl, fun a ha => by simp [processGotRelocs, Outcome.done] at ha⟩
  | cons seg segs ih =>
    intro segIdx hidx hend hrun
    have hnext : ∀ i, M.segments[segIdx + 1 + i]? = segs[i]? := fun i => by
      have := hidx (i + 1)
      rwa [List.getElem?_cons_succ, Nat.add_comm i 1, ← Nat.add_assoc] at this
    obtain ⟨hexit, hmap, hcorrect⟩ := ih hnext (fun s hs => hend s (List.mem_cons_of_mem _ hs))
      fun s hs => hrun s (List.mem_cons_of_mem _ hs)
    unfold processGotRelocs
    by_cases hfile : seg.filesz = 0
    · have hnone : table.filter (holds seg) = [] :=
        List.filter_eq_nil_iff.mpr fun e _ => by simp [holds, hfile]
      rw [if_pos hfile, List.flatMap_cons, hnone, List.nil_append]
      exact ⟨hexit, hmap, hcorrect⟩
    · have hseg : M.segments[segIdx]? = some seg := by
        have := hidx 0
        rwa [Nat.add_zero, List.getElem?_cons_zero] at this
      have hscan : M.scanRela segIdx seg false table =
          (table.filter fun e => seg.contains e.rOffset).flatMap (M.relocEntry segIdx seg) :=
        scanRela_of_oneRun (hrun seg List.mem_cons_self hfile)
      have hfilter : (table.filter fun e => seg.contains e.rOffset) = table.filter (holds seg) :=
        List.filter_congr fun e _ => by rw [holds, decide_eq_true hfile, Bool.true_and]
      have hentries : (M.scanRela segIdx seg false table).map Applied.entry =
          table.filter (holds seg) := by
        rw [hscan, hfilter]
        exact flatMap_relocEntry (fun e he => hsym e (List.mem_filter.mp he).1) segIdx seg
      rw [if_neg hfile]
      simp only [processRelaTable, Outcome.andThen, Outcome.done, Nat.not_lt_zero, if_false,
        List.drop_zero, List.append_nil, Bool.false_eq_true]
      refine ⟨hexit, ?_, ?_⟩
      · rw [List.map_append, hentries, hmap, List.flatMap_cons]
      · intro a ha
        rcases List.mem_append.mp ha with ha | ha
        · obtain ⟨e, -, he, hmem⟩ := mem_scanRela ha
          have hlies := (Segment.contains_iff (hend seg List.mem_cons_self) _).mp he
          exact correct_of_mem_relocEntry hseg hfile hlies hmem
        · exact hcorrect a ha

/-- The calls for the table of the PLT: all its entries, in the segment of the first one. -/
lemma processPltgotRelocs_spec {e : Rela} {table : List Rela}
    (hsym : ∀ e' ∈ e :: table, (M.canonicalLookup e'.rSymid).isSome) {segs : List Segment} :
    ∀ {segIdx : ℕ}, (∀ i, M.segments[segIdx + i]? = segs[i]?) →
      (∀ seg ∈ segs, seg.inputVaddr.toNat + seg.memsz.toNat < 2 ^ 32) →
      (∃ seg ∈ segs, seg.filesz ≠ 0 ∧ seg.contains e.rOffset = true) →
      (∀ seg ∈ segs, seg.contains e.rOffset = true →
        ∀ e' ∈ e :: table, seg.contains e'.rOffset = true) →
      (M.processPltgotRelocs e.rOffset
          (fun i seg => M.processRelaTable i seg (e :: table) 0) segIdx segs).exited = false ∧
        (M.processPltgotRelocs e.rOffset
          (fun i seg => M.processRelaTable i seg (e :: table) 0) segIdx segs).applied.map
            Applied.entry = e :: table ∧
        ∀ a ∈ (M.processPltgotRelocs e.rOffset
          (fun i seg => M.processRelaTable i seg (e :: table) 0) segIdx segs).applied,
          M.Correct a := by
  induction segs with
  | nil =>
    rintro _ _ _ ⟨seg, hseg, -⟩ _
    simp at hseg
  | cons seg segs ih =>
    intro segIdx hidx hend hex hall
    have hnext : ∀ i, M.segments[segIdx + 1 + i]? = segs[i]? := fun i => by
      have := hidx (i + 1)
      rwa [List.getElem?_cons_succ, Nat.add_comm i 1, ← Nat.add_assoc] at this
    have hlater : (seg.filesz = 0 ∨ seg.contains e.rOffset = false) →
        ∃ seg' ∈ segs, seg'.filesz ≠ 0 ∧ seg'.contains e.rOffset = true := by
      intro hnot
      obtain ⟨seg', hseg', hfile, hcont⟩ := hex
      rcases List.mem_cons.mp hseg' with rfl | hseg'
      · rcases hnot with hzero | hfalse
        · exact absurd hzero hfile
        · simp [hcont] at hfalse
      · exact ⟨seg', hseg', hfile, hcont⟩
    have hih := fun h => ih hnext (fun s hs => hend s (List.mem_cons_of_mem _ hs)) (hlater h)
      fun s hs => hall s (List.mem_cons_of_mem _ hs)
    unfold processPltgotRelocs
    by_cases hfile : seg.filesz = 0
    · rw [if_pos hfile]
      exact hih (Or.inl hfile)
    · rw [if_neg hfile]
      cases hcont : seg.contains e.rOffset with
      | false => exact hih (Or.inr hcont)
      | true =>
        have hrun : ∀ e' ∈ e :: table, seg.contains e'.rOffset = true :=
          hall seg List.mem_cons_self hcont
        have hscan : M.scanRela segIdx seg false (e :: table) =
            (e :: table).flatMap (M.relocEntry segIdx seg) := by
          have hone : OneRun (fun e' : Rela => seg.contains e'.rOffset = true) (e :: table) :=
            ⟨[], e :: table, [], by simp, by simp, hrun, by simp⟩
          rw [scanRela_of_oneRun hone, List.filter_eq_self.mpr hrun]
        have hseg : M.segments[segIdx]? = some seg := by
          have := hidx 0
          rwa [Nat.add_zero, List.getElem?_cons_zero] at this
        simp only [if_true, processRelaTable, Nat.not_lt_zero, if_false, List.drop_zero]
        refine ⟨trivial, ?_, ?_⟩
        · rw [hscan]
          exact flatMap_relocEntry hsym segIdx seg
        · intro a ha
          obtain ⟨e', -, he', hmem⟩ := mem_scanRela ha
          have hlies := (Segment.contains_iff (hend seg List.mem_cons_self) _).mp he'
          exact correct_of_mem_relocEntry hseg hfile hlies hmem

/-! ### The whole module -/

/-- The dynamic segment describes a table of the GOT and one of the PLT, both with addends, as the
format asks for: the table of the PLT is the end of the one table of its kind and its size is part
of that table's, and there is no table without addends. -/
structure Describes (M : Module) (got plt : List Rela) : Prop where
  fits : 12 * (got.length + plt.length) < intMax
  relasz : if got = [] ∧ plt = [] then ¬ Present (M.dyntag dtRelasz)
    else M.dyntag dtRelasz = 12 * (got.length + plt.length)
  relaent : ¬ (got = [] ∧ plt = []) → M.dyntag dtRelaent = 12
  rela : ∀ i e, got[i]? = some e → M.relaAt (M.dyntag dtRela + 12 * i) = e
  pltrelsz : if plt = [] then ¬ Present (M.dyntag dtPltrelsz)
    else M.dyntag dtPltrelsz = 12 * plt.length
  pltrel : plt ≠ [] → M.dyntag dtPltrel = dtRela
  jmprel : ∀ i e, plt[i]? = some e → M.relaAt (M.dyntag dtJmprel + 12 * i) = e
  relsz : ¬ Present (M.dyntag dtRelsz)

/-- The segments of the module have disjoint ranges that end below the end of the address type, and
the entries lie in segments with contents and have symbols that are found. -/
structure Relocatable (M : Module) (entries : List Rela) : Prop where
  ends : ∀ seg ∈ M.segments, seg.inputVaddr.toNat + seg.memsz.toNat < 2 ^ 32
  disjoint : M.segments.Pairwise fun a b => ∀ offset, ¬ (a.Lies offset ∧ b.Lies offset)
  placed : ∀ e ∈ entries, ∃ seg ∈ M.segments, seg.filesz ≠ 0 ∧ seg.Lies e.rOffset
  resolved : ∀ e ∈ entries, (M.canonicalLookup e.rSymid).isSome

/-- Reading a table gives its entries. -/
lemma readRelaTable_eq {table : List Rela} {offset : ℕ}
    (h : ∀ i e, table[i]? = some e → M.relaAt (offset + 12 * i) = e) :
    M.readRelaTable offset table.length = if table = [] then none else some table := by
  have hread : (List.range table.length).map (fun i => M.relaAt (offset + 12 * i)) = table := by
    refine List.ext_getElem (by simp) fun i h1 h2 => ?_
    rw [List.getElem_map, List.getElem_range]
    exact h i _ (List.getElem?_eq_getElem h2)
  simp only [readRelaTable, hread, List.length_eq_zero_iff]

/-- The table of the PLT that is read, and the size of the table of the GOT that is left. -/
lemma Describes.tables {got plt : List Rela} (h : M.Describes got plt) :
    (if Present (M.dyntag dtPltrelsz) ∧ M.dyntag dtPltrel = dtRela then
        M.readRelaTable (M.dyntag dtJmprel) (M.dyntag dtPltrelsz / M.dyntag dtRelaent)
      else none) = (if plt = [] then none else some plt) ∧
    (if Present (if Present (M.dyntag dtPltrelsz) ∧ M.dyntag dtPltrel = dtRela then
          wsub 32 (M.dyntag dtRelasz) (M.dyntag dtPltrelsz) else M.dyntag dtRelasz) then
        M.readRelaTable (M.dyntag dtRela)
          ((if Present (M.dyntag dtPltrelsz) ∧ M.dyntag dtPltrel = dtRela then
            wsub 32 (M.dyntag dtRelasz) (M.dyntag dtPltrelsz) else M.dyntag dtRelasz) /
              M.dyntag dtRelaent)
      else none) = (if got = [] then none else some got) := by
  obtain ⟨hfits, hrelasz, hrelaent, hrela, hpltrelsz, hpltrel, hjmprel, -⟩ := h
  have hmax : intMax < 2 ^ 32 := by decide
  by_cases hplt : plt = []
  · rw [if_pos hplt] at hpltrelsz
    have hcond : ¬ (Present (M.dyntag dtPltrelsz) ∧ M.dyntag dtPltrel = dtRela) :=
      fun hcon => hpltrelsz hcon.1
    simp only [if_neg hcond, if_pos hplt]
    refine ⟨trivial, ?_⟩
    by_cases hgot : got = []
    · rw [if_pos ⟨hgot, hplt⟩] at hrelasz
      rw [if_neg hrelasz, if_pos hgot]
    · rw [if_neg fun hcon => hgot hcon.1] at hrelasz
      have hlen : 0 < got.length := List.length_pos_iff.mpr hgot
      have hnil : plt.length = 0 := by simp [hplt]
      have hpresent : Present (M.dyntag dtRelasz) := ⟨by omega, by omega⟩
      have hnum : M.dyntag dtRelasz / M.dyntag dtRelaent = got.length := by
        rw [hrelaent fun hcon => hgot hcon.1, hrelasz]
        omega
      rw [if_pos hpresent, hnum, readRelaTable_eq hrela]
  · rw [if_neg hplt] at hpltrelsz
    rw [if_neg fun hcon => hplt hcon.2] at hrelasz
    have hlen : 0 < plt.length := List.length_pos_iff.mpr hplt
    have hcond : Present (M.dyntag dtPltrelsz) ∧ M.dyntag dtPltrel = dtRela :=
      ⟨⟨by omega, by omega⟩, hpltrel hplt⟩
    have hpltnum : M.dyntag dtPltrelsz / M.dyntag dtRelaent = plt.length := by
      rw [hrelaent fun hcon => hplt hcon.2, hpltrelsz]
      omega
    have hleft : wsub 32 (M.dyntag dtRelasz) (M.dyntag dtPltrelsz) = 12 * got.length := by
      rw [hrelasz, hpltrelsz, wsub_eq (by omega) (by omega)]
      omega
    simp only [if_pos hcond, hpltnum, readRelaTable_eq hjmprel, hleft]
    refine ⟨trivial, ?_⟩
    by_cases hgot : got = []
    · rw [if_pos hgot, if_neg]
      simp [Present, hgot]
    · have hglen : 0 < got.length := List.length_pos_iff.mpr hgot
      have hnum : 12 * got.length / M.dyntag dtRelaent = got.length := by
        rw [hrelaent fun hcon => hplt hcon.2]
        omega
      rw [if_pos ⟨by omega, by omega⟩, hnum, readRelaTable_eq hrela]

/-- What is done for the table of the PLT. -/
def pltCalls (M : Module) : List Rela → Outcome
  | [] => .done
  | e :: table => M.processPltgotRelocs e.rOffset
      (fun segIdx seg => M.processRelaTable segIdx seg (e :: table) 0) 0 M.segments

/-- What is done for the table of the GOT. -/
def gotCalls (M : Module) (got : List Rela) : Outcome :=
  if got = [] then .done else M.processGotRelocs none (some got) 0 M.segments

/-- What the loader does for a module that describes two tables with addends. -/
lemma Describes.relocate_eq {got plt : List Rela} (h : M.Describes got plt) :
    M.relocate = ((M.pltCalls plt).andThen .done).andThen (M.gotCalls got) := by
  obtain ⟨hplt, hgot⟩ := h.tables
  have hnotRel : ¬ (Present (M.dyntag dtPltrelsz) ∧ M.dyntag dtPltrel = dtRel) := by
    rintro ⟨hpresent, htyp⟩
    have hp := h.pltrelsz
    by_cases hnil : plt = []
    · rw [if_pos hnil] at hp
      exact hp hpresent
    · have := h.pltrel hnil
      rw [htyp] at this
      exact absurd this (by decide)
  unfold relocate
  simp only [hplt, hgot, if_neg hnotRel, if_neg h.relsz]
  cases plt with
  | nil =>
    by_cases hnil : got = []
    · simp [hnil, pltCalls, gotCalls]
    · simp [hnil, pltCalls, gotCalls]
  | cons e table =>
    by_cases hnil : got = []
    · simp [hnil, pltCalls, gotCalls]
    · simp [hnil, pltCalls, gotCalls]

/-- The loader's test in the segments of a module. -/
lemma Relocatable.contains_iff {entries : List Rela} (h : M.Relocatable entries) {seg : Segment}
    (hseg : seg ∈ M.segments) (offset : BitVec 32) :
    seg.contains offset = true ↔ seg.Lies offset :=
  Segment.contains_iff (h.ends seg hseg) offset

/-- The calls for the table of the PLT are one for each entry. -/
lemma pltCalls_spec {plt : List Rela} (hr : M.Relocatable plt)
    (hplt : ∀ seg ∈ M.segments, ∀ e ∈ plt, seg.Lies e.rOffset → ∀ e' ∈ plt, seg.Lies e'.rOffset) :
    (M.pltCalls plt).exited = false ∧ (M.pltCalls plt).applied.map Applied.entry = plt ∧
      ∀ a ∈ (M.pltCalls plt).applied, M.Correct a := by
  cases plt with
  | nil => exact ⟨rfl, rfl, fun a ha => by simp [pltCalls, Outcome.done] at ha⟩
  | cons e table =>
    obtain ⟨seg, hseg, hfile, hlies⟩ := hr.placed e List.mem_cons_self
    refine processPltgotRelocs_spec hr.resolved (fun i => by rw [Nat.zero_add]) hr.ends
      ⟨seg, hseg, hfile, (hr.contains_iff hseg _).mpr hlies⟩ fun seg hseg hcont e' he' => ?_
    have hfirst := (hr.contains_iff hseg _).mp hcont
    exact (hr.contains_iff hseg _).mpr (hplt seg hseg e List.mem_cons_self hfirst e' he')

/-- The calls for the table of the GOT are one for each entry. -/
lemma gotCalls_spec {got : List Rela} (hr : M.Relocatable got)
    (hgot : ∀ seg ∈ M.segments, OneRun (fun e : Rela => seg.Lies e.rOffset) got) :
    (M.gotCalls got).exited = false ∧ ((M.gotCalls got).applied.map Applied.entry).Perm got ∧
      ∀ a ∈ (M.gotCalls got).applied, M.Correct a := by
  unfold gotCalls
  by_cases hnil : got = []
  · rw [if_pos hnil, hnil]
    exact ⟨rfl, List.Perm.refl _, fun a ha => by simp [Outcome.done] at ha⟩
  · rw [if_neg hnil]
    have hruns : ∀ seg ∈ M.segments, seg.filesz ≠ 0 →
        OneRun (fun e : Rela => seg.contains e.rOffset = true) got := fun seg hseg _ => by
      simpa only [hr.contains_iff hseg] using hgot seg hseg
    obtain ⟨hexit, hmap, hcorrect⟩ := processGotRelocs_spec hr.resolved
      (fun i => by rw [Nat.zero_add]) hr.ends hruns
    refine ⟨hexit, ?_, hcorrect⟩
    rw [hmap]
    refine flatMap_filter_perm ?_ ?_
    · refine hr.disjoint.imp_of_mem fun {a b} ha hb hab e hae => ?_
      simp only [holds, Bool.and_eq_true] at hae
      rw [holds, Bool.and_eq_false_iff]
      refine Or.inr (Bool.eq_false_iff.mpr fun hbe => hab e.rOffset ⟨?_, ?_⟩)
      · exact (hr.contains_iff ha _).mp hae.2
      · exact (hr.contains_iff hb _).mp hbe
    · intro e he
      obtain ⟨seg, hseg, hfile, hlies⟩ := hr.placed e he
      have hcont := (hr.contains_iff hseg _).mpr hlies
      exact ⟨seg, hseg, by simp only [holds, decide_eq_true hfile, Bool.true_and, hcont]⟩

/-- The entries of a part of a table can be relocated if those of the table can. -/
lemma Relocatable.subset {entries part : List Rela} (h : M.Relocatable entries)
    (hsub : ∀ e ∈ part, e ∈ entries) : M.Relocatable part :=
  ⟨h.ends, h.disjoint, fun e he => h.placed e (hsub e he), fun e he => h.resolved e (hsub e he)⟩

/-- For every module that describes two tables with addends, whose entries lie in segments with
contents and have symbols that are found: if the entries of each segment are one run of the table of
the GOT and the entries of the PLT lie in one segment, the loader calls `reloc_do` once for each
entry of either table, with the segment and the place of the entry. -/
theorem relocate_exactly_once (M : Module) (got plt : List Rela) (hd : M.Describes got plt)
    (hr : M.Relocatable (plt ++ got))
    (hgot : ∀ seg ∈ M.segments, OneRun (fun e : Rela => seg.Lies e.rOffset) got)
    (hplt : ∀ seg ∈ M.segments, ∀ e ∈ plt, seg.Lies e.rOffset → ∀ e' ∈ plt, seg.Lies e'.rOffset) :
    M.relocate.exited = false ∧ (M.relocate.applied.map Applied.entry).Perm (plt ++ got) ∧
      ∀ a ∈ M.relocate.applied, M.Correct a := by
  obtain ⟨hexit, hmap, hcorrect⟩ :=
    pltCalls_spec (hr.subset fun e he => List.mem_append_left _ he) hplt
  obtain ⟨hexit', hperm, hcorrect'⟩ :=
    gotCalls_spec (hr.subset fun e he => List.mem_append_right _ he) hgot
  rw [hd.relocate_eq]
  simp only [Outcome.andThen, hexit, Outcome.done, Bool.false_eq_true, if_false, List.append_nil]
  refine ⟨hexit', ?_, ?_⟩
  · rw [List.map_append, hmap]
    exact hperm.append_left plt
  · intro a ha
    exact (List.mem_append.mp ha).elim (hcorrect a) (hcorrect' a)

/-! ### Sample modules -/

/-- Two segments of 256 bytes with contents. -/
def sampleSegments : List Segment :=
  [⟨0x1000, 0x100, 0x100, 0x81000000⟩, ⟨0x2000, 0x100, 0x100, 0x82000000⟩]

/-- A module with the two segments whose file has a table of the GOT at offset 256 and a table of
the PLT behind it. -/
def sampleModule (got plt : List Rela) : Module where
  dyntab := [(dtRela, 256), (dtRelasz, 12 * (got.length + plt.length)), (dtRelaent, 12),
    (dtPltrelsz, 12 * plt.length), (dtPltrel, dtRela), (dtJmprel, 256 + 12 * got.length)]
  segments := sampleSegments
  relaAt offset := (got ++ plt).getD ((offset - 256) / 12) ⟨0, .abs32, 0, 0⟩
  relAt _ := ⟨0, .abs32, 0⟩
  canonicalLookup _ := some 0x90000000
  tiStaticBase := 0
  wrongEndian := false
  dsbtIndex := 0

/-- The sample module describes its tables. -/
lemma sampleModule_describes {got plt : List Rela}
    (hfits : 12 * (got.length + plt.length) < intMax) : (sampleModule got plt).Describes got plt := by
  have htags : (sampleModule got plt).dyntag dtRelasz = 12 * (got.length + plt.length) ∧
      (sampleModule got plt).dyntag dtRelaent = 12 ∧ (sampleModule got plt).dyntag dtRela = 256 ∧
      (sampleModule got plt).dyntag dtPltrelsz = 12 * plt.length ∧
      (sampleModule got plt).dyntag dtPltrel = dtRela ∧
      (sampleModule got plt).dyntag dtJmprel = 256 + 12 * got.length ∧
      (sampleModule got plt).dyntag dtRelsz = intMax := by
    refine ⟨rfl, rfl, rfl, rfl, rfl, rfl, rfl⟩
  obtain ⟨hrelasz, hrelaent, hrela, hpltrelsz, hpltrel, hjmprel, hrelsz⟩ := htags
  have hread : ∀ n e, (got ++ plt)[n]? = some e →
      (sampleModule got plt).relaAt (256 + 12 * n) = e := by
    intro n e he
    simp [sampleModule, List.getD_eq_getElem?_getD, he]
  refine ⟨hfits, ?_, fun _ => hrelaent, ?_, ?_, fun _ => hpltrel, ?_, ?_⟩
  · rw [hrelasz]
    split
    · next hnil => simp [hnil.1, hnil.2, Present]
    · rfl
  · intro i e he
    have hlt : i < got.length := (List.getElem?_eq_some_iff.mp he).1
    rw [hrela]
    exact hread i e (by rw [List.getElem?_append_left hlt, he])
  · rw [hpltrelsz]
    split
    · next hnil => simp [hnil, Present]
    · rfl
  · intro i e he
    rw [hjmprel, Nat.add_assoc, ← Nat.mul_add]
    refine hread _ e ?_
    rw [List.getElem?_append_right (by omega), Nat.add_sub_cancel_left, he]
  · rw [hrelsz]
    exact fun h => h.1 rfl

/-- An entry at an offset. -/
def entryAt (rOffset : BitVec 32) : Rela := ⟨rOffset, .abs32, 1, 0⟩

/-- Entries whose offsets lie in the sample segments can be relocated. -/
lemma sampleModule_relocatable {got plt entries : List Rela}
    (hplaced : ∀ e ∈ entries, ∃ seg ∈ sampleSegments, seg.filesz ≠ 0 ∧ seg.Lies e.rOffset) :
    (sampleModule got plt).Relocatable entries := by
  refine ⟨?_, ?_, hplaced, fun _ _ => rfl⟩
  · intro seg hseg
    rcases List.mem_cons.mp hseg with rfl | hseg
    · decide
    · rw [List.mem_singleton.mp hseg]
      decide
  · refine List.pairwise_pair.mpr fun offset => ?_
    rintro ⟨⟨h1, h2⟩, ⟨h3, h4⟩⟩
    simp at h1 h2 h3 h4
    omega

/-- A table of the GOT with a run for each segment, and a table of the PLT in the second one. -/
theorem relocate_exactly_once_runs :
    ((sampleModule [entryAt 0x1004, entryAt 0x1000, entryAt 0x2000]
        [entryAt 0x2010, entryAt 0x2020]).relocate.applied.map Applied.entry).Perm
      [entryAt 0x2010, entryAt 0x2020, entryAt 0x1004, entryAt 0x1000, entryAt 0x2000] := by
  refine (relocate_exactly_once _ [entryAt 0x1004, entryAt 0x1000, entryAt 0x2000]
    [entryAt 0x2010, entryAt 0x2020] (sampleModule_describes (by decide))
    (sampleModule_relocatable (by decide)) ?_ (by decide)).2.1
  intro seg hseg
  rcases List.mem_cons.mp hseg with rfl | hseg
  · exact ⟨[], [entryAt 0x1004, entryAt 0x1000], [entryAt 0x2000], rfl, by decide, by decide,
      by decide⟩
  · rw [List.mem_singleton.mp hseg]
    exact ⟨[entryAt 0x1004, entryAt 0x1000], [entryAt 0x2000], [], rfl, by decide, by decide,
      by decide⟩

/-- A module with the sample segments whose only table has one entry, without addend. -/
def relModule : Module :=
  { sampleModule [] [] with
    dyntab := [(dtRel, 256), (dtRelsz, 8), (dtRelent, 8)]
    relAt := fun _ => ⟨0x1000, .abs32, 1⟩ }

/-- A table of the GOT in which two entries of the first segment are apart: there is no call for the
second one.  And a table of entries without addend: the loader exits without a call. -/
theorem relocate_skips_and_exits :
    (sampleModule [entryAt 0x1000, entryAt 0x2000, entryAt 0x1004] []).Describes
        [entryAt 0x1000, entryAt 0x2000, entryAt 0x1004] [] ∧
      (sampleModule [entryAt 0x1000, entryAt 0x2000, entryAt 0x1004] []).Relocatable
        [entryAt 0x1000, entryAt 0x2000, entryAt 0x1004] ∧
      (sampleModule [entryAt 0x1000, entryAt 0x2000, entryAt 0x1004] []).relocate.applied.map
        Applied.entry = [entryAt 0x1000, entryAt 0x2000] ∧
      relModule.relocate.exited = true ∧
      relModule.relocate.applied.map Applied.entry = [] :=
  ⟨sampleModule_describes (by decide), sampleModule_relocatable (by decide), by decide, by decide,
    by decide⟩

end Module

end TiOpenCL.Reloc
