import Mathlib.Data.List.Basic
import Mathlib.Logic.Basic
import TiOpenCL.Loader.Tables

/-!
# The addresses of a module are translated

`allocate_dynamic_segments_and_relocate_symbols` gives every segment of a module its place in target memory
and moves what points into the segments: the symbols, their copies in the table of the global symbols, the
entry point, and the dynamic tags that are addresses of sections.  Three loops do so, each with a test of
its own: the symbols are compared with the new addresses of the segment, the entry point and the tags with
the old ones.  They agree (`addresses_translated`): each of them is the translation of an address by the
place of the first segment that it lies in.
-/

namespace TiOpenCL.Reloc

/-! ### Symbols and segments -/

/-- A symbol of a module. -/
structure Sym (Name : Type*) where
  /-- The string at `st_name`. -/
  name : Name
  /-- `st_value`. -/
  value : BitVec 32
  /-- Whether the binding in `st_info` is `STB_LOCAL`. -/
  isLocal : Bool
  /-- Whether the visibility in `st_other` is `STV_DEFAULT`. -/
  isDefault : Bool
  /-- `st_shndx`. -/
  shndx : ℕ
  deriving DecidableEq, Repr

/-- `INT16_MAX`, the section of a symbol that was moved. -/
def int16Max : ℕ := 32767

/-- The addresses of an entry of the program header table. -/
structure Phdr where
  /-- `p_vaddr`. -/
  vaddr : BitVec 32
  /-- `p_paddr`. -/
  paddr : BitVec 32
  deriving DecidableEq, Repr

/-- What is moved with the segments of a module. -/
structure DynamicModule (Name : Type*) where
  /-- `symtab`. -/
  symtab : List (Sym Name)
  /-- `gsymtab` of the loaded module. -/
  gsymtab : List (Sym Name)
  /-- `fhdr.e_entry`. -/
  entry : BitVec 32
  /-- `relocate_entry_point`. -/
  relocateEntryPoint : Bool
  /-- `phdr`. -/
  phdr : List Phdr
  deriving DecidableEq, Repr

variable {Name : Type*}

/-- `DLSYM_copy_globals`: the symbols from a given one on. -/
def DynamicModule.copyGlobals (d : DynamicModule Name) (globalIndex : ℕ) : DynamicModule Name :=
  { d with gsymtab := d.symtab.drop globalIndex }

/-- Whether a symbol lies in a segment that was given a place, and was not moved before. -/
def moves (seg : Segment) (target : BitVec 32) (s : Sym Name) : Bool :=
  let symvalAdj := s.value + (target - seg.vaddr)
  decide (target ≤ symvalAdj) && decide (symvalAdj < target + seg.memsz) && decide (s.shndx ≠ int16Max)

/-- A symbol of the dynamic symbol table, after a segment. -/
def moveSymbol (seg : Segment) (target : BitVec 32) (s : Sym Name) : Sym Name :=
  if moves seg target s then
    { s with value := s.value + (target - seg.vaddr), shndx := int16Max }
  else s

/-- A symbol of the global symbol table that is a copy of a symbol, after a segment. -/
def moveGlobal (seg : Segment) (target : BitVec 32) (s g : Sym Name) : Sym Name :=
  if moves seg target s then { g with value := s.value + (target - seg.vaddr) } else g

/-- The loop over the symbols, for a segment. -/
def moveSymbols (seg : Segment) (target : BitVec 32) (d : DynamicModule Name) : DynamicModule Name :=
  { d with
    symtab := d.symtab.map (moveSymbol seg target)
    gsymtab := List.zipWith (moveGlobal seg target)
      (d.symtab.drop (d.symtab.length - d.gsymtab.length)) d.gsymtab }

/-- The update of the entry point, for a segment. -/
def moveEntry (seg : Segment) (target : BitVec 32) (d : DynamicModule Name) : DynamicModule Name :=
  if d.relocateEntryPoint && decide (seg.vaddr ≤ d.entry) &&
      decide (d.entry < seg.vaddr + seg.memsz) then
    { d with entry := d.entry + (target - seg.vaddr), relocateEntryPoint := false }
  else d

/-- The update of the program header table, for the segment of an index.  The physical address that is
updated is that of the index. -/
def movePhdr (i : ℕ) (seg : Segment) (target : BitVec 32) (d : DynamicModule Name) :
    DynamicModule Name :=
  match d.phdr.findIdx? fun p => p.vaddr = seg.vaddr with
  | some j =>
    { d with
      phdr := (d.phdr.modify j (fun p => { p with vaddr := p.vaddr + (target - seg.vaddr) })).modify i
        (fun p => { p with paddr := p.paddr + (target - seg.vaddr) }) }
  | none => d

/-- A segment with its place. -/
def Segment.placeAt (seg : Segment) (target : BitVec 32) : Segment :=
  { seg with inputVaddr := seg.vaddr, vaddr := seg.vaddr + (target - seg.vaddr) }

/-- The loop of `allocate_dynamic_segments_and_relocate_symbols` from a segment on, given the target
addresses that `DLIF_allocate` returns; it fails if they end before the segments do. -/
def placeSegments : ℕ → List Segment → List (BitVec 32) → DynamicModule Name →
    Option (List Segment × DynamicModule Name)
  | _, [], _, d => some ([], d)
  | _, _ :: _, [], _ => none
  | i, seg :: segs, target :: targets, d =>
    (placeSegments (i + 1) segs targets
      (moveSymbols seg target (movePhdr i seg target (moveEntry seg target d)))).map fun r =>
        (seg.placeAt target :: r.1, r.2)

/-! ### Dynamic tags -/

/-- The tags that `relocate_dynamic_tag_info` and the C6000 code leave alone. -/
def plainTags : List ℕ :=
  [1, 2, 4, 5, 6, 7, 8, 9, 10, 11, 14, 15, 16, 17, 18, 19, 20, 21, 22, 23, 24, 27, 28, 29, 30, 33,
    0x6000000D, 0x6000000F, 0x70000001, 0x70000003]

/-- The tags that are addresses of sections: `DT_INIT`, `DT_FINI`, `DT_INIT_ARRAY`, `DT_FINI_ARRAY`,
`DT_PREINIT_ARRAY` and `DT_C6000_DSBT_BASE`. -/
def sectionTags : List ℕ := [12, 13, 25, 26, 32, 0x70000000]

/-- `DLIMP_update_dyntag_section_address` from a segment on. -/
def updateDyntagSectionAddress : List Segment → BitVec 32 → Option (BitVec 32)
  | [], _ => none
  | seg :: segs, ptr =>
    if seg.contains ptr then some (ptr + (seg.vaddr - seg.inputVaddr))
    else updateDyntagSectionAddress segs ptr

/-- `relocate_dynamic_tag_info` from a tag on. -/
def relocateDynamicTagInfo (segs : List Segment) : List (ℕ × BitVec 32) → Option (List (ℕ × BitVec 32))
  | [] => some []
  | (tag, val) :: rest =>
    if tag = 0 then some ((tag, val) :: rest)
    else if tag ∈ plainTags ∨ tag ∈ sectionTags ∧ val = 0 then
      (relocateDynamicTagInfo segs rest).map ((tag, val) :: ·)
    else if tag ∈ sectionTags then
      (updateDyntagSectionAddress segs val).bind fun val' =>
        (relocateDynamicTagInfo segs rest).map ((tag, val') :: ·)
    else none

/-! ### Translation -/

/-- Whether an address of the file lies in a segment. -/
def Segment.holds (seg : Segment) (a : BitVec 32) : Prop := a - seg.vaddr < seg.memsz

instance (seg : Segment) (a : BitVec 32) : Decidable (seg.holds a) :=
  inferInstanceAs (Decidable (a - seg.vaddr < seg.memsz))

/-- The address in target memory of what is at an address of the file: the place of the first segment that
it lies in. -/
def translate : List (Segment × BitVec 32) → BitVec 32 → BitVec 32
  | [], a => a
  | (seg, target) :: places, a =>
    if seg.holds a then a + (target - seg.vaddr) else translate places a

/-- A segment ends below the end of the address space, in the file and at its place. -/
def Placeable (p : Segment × BitVec 32) : Prop :=
  p.1.vaddr.toNat + p.1.memsz.toNat < 2 ^ 32 ∧ p.2.toNat + p.1.memsz.toNat < 2 ^ 32

instance (p : Segment × BitVec 32) : Decidable (Placeable p) := inferInstanceAs (Decidable (_ ∧ _))

/-- No address of the file lies in two segments. -/
def Apart (p q : Segment × BitVec 32) : Prop := ∀ a, p.1.holds a → ¬q.1.holds a

/-- The comparison of a symbol with the new addresses of a segment. -/
lemma moves_iff {seg : Segment} {target : BitVec 32} (hfits : Placeable (seg, target)) (s : Sym Name) :
    moves seg target s = true ↔ seg.holds s.value ∧ s.shndx ≠ int16Max := by
  obtain ⟨-, hend⟩ := hfits
  have hrange : target ≤ s.value + (target - seg.vaddr) ∧
      s.value + (target - seg.vaddr) < target + seg.memsz ↔ s.value - seg.vaddr < seg.memsz := by
    constructor
    · rintro ⟨hlo, hhi⟩
      bv_omega
    · intro hlt
      constructor <;> bv_omega
  rw [moves, Segment.holds, ← hrange]
  simp [and_assoc]

/-- The comparison of an address with the old addresses of a segment. -/
lemma between_iff {seg : Segment} {target : BitVec 32} (hfits : Placeable (seg, target)) (a : BitVec 32) :
    seg.vaddr ≤ a ∧ a < seg.vaddr + seg.memsz ↔ seg.holds a := by
  obtain ⟨hend, -⟩ := hfits
  rw [Segment.holds]
  constructor
  · rintro ⟨hlo, hhi⟩
    bv_omega
  · intro hlt
    constructor <;> bv_omega

/-- A segment that has its place contains what it held. -/
lemma contains_placeAt {seg : Segment} {target : BitVec 32} (hfits : Placeable (seg, target))
    (a : BitVec 32) : (seg.placeAt target).contains a = true ↔ seg.holds a := by
  rw [← between_iff hfits a, Segment.contains, Bool.and_eq_true, decide_eq_true_iff, decide_eq_true_iff]
  rfl

/-- What lies in a segment is translated to its place, if the segments are apart. -/
lemma translate_of_mem {places : List (Segment × BitVec 32)} (hapart : places.Pairwise Apart)
    {seg : Segment} {target : BitVec 32} (hmem : (seg, target) ∈ places) {a : BitVec 32}
    (ha : seg.holds a) : translate places a = target + (a - seg.vaddr) := by
  induction places with
  | nil => cases hmem
  | cons p places ih =>
    obtain ⟨hhead, htail⟩ := List.pairwise_cons.mp hapart
    rw [translate]
    rcases List.mem_cons.mp hmem with rfl | hrest
    · rw [if_pos ha]
      bv_omega
    · rw [if_neg fun hp => hhead _ hrest a hp ha]
      exact ih htail hrest

/-- An address outside of all segments stays. -/
lemma translate_of_forall_not {places : List (Segment × BitVec 32)} {a : BitVec 32}
    (ha : ∀ p ∈ places, ¬p.1.holds a) : translate places a = a := by
  induction places with
  | nil => rfl
  | cons p places ih =>
    rw [translate, if_neg (ha p List.mem_cons_self)]
    exact ih fun q hq => ha q (List.mem_cons_of_mem p hq)

/-! ### What the loops do -/

/-- A symbol after all segments: moved if it lies in one, and then marked. -/
def movedSymbol (places : List (Segment × BitVec 32)) (s : Sym Name) : Sym Name :=
  if ∃ p ∈ places, p.1.holds s.value then
    { s with value := translate places s.value, shndx := int16Max }
  else s

/-- The value of a moved symbol is translated. -/
lemma movedSymbol_value (places : List (Segment × BitVec 32)) (s : Sym Name) :
    (movedSymbol places s).value = translate places s.value := by
  rw [movedSymbol]
  split
  · rfl
  · rename_i hno
    exact (translate_of_forall_not fun p hp hin => hno ⟨p, hp, hin⟩).symm

/-- One segment after the other moves a symbol as the list of both does. -/
lemma movedSymbol_cons {seg : Segment} {target : BitVec 32} {places : List (Segment × BitVec 32)}
    (hfits : Placeable (seg, target)) {s : Sym Name} (hmark : s.shndx ≠ int16Max) :
    movedSymbol ((seg, target) :: places) s =
      if seg.holds s.value then moveSymbol seg target s else movedSymbol places (moveSymbol seg target s) := by
  by_cases hin : seg.holds s.value
  · rw [if_pos hin, moveSymbol, if_pos ((moves_iff hfits s).mpr ⟨hin, hmark⟩), movedSymbol,
      if_pos ⟨_, List.mem_cons_self, hin⟩, translate, if_pos hin]
  · have hstay : moveSymbol seg target s = s := by
      rw [moveSymbol, if_neg fun hm => hin ((moves_iff hfits s).mp hm).1]
    have hlater : (∃ p ∈ (seg, target) :: places, p.1.holds s.value) ↔ ∃ p ∈ places, p.1.holds s.value := by
      simp [hin]
    rw [if_neg hin, hstay, movedSymbol, movedSymbol, translate, if_neg hin]
    exact if_congr hlater rfl rfl

/-- All segments, one after the other, move a symbol. -/
def moveSymbolAll (places : List (Segment × BitVec 32)) (s : Sym Name) : Sym Name :=
  places.foldl (fun s p => moveSymbol p.1 p.2 s) s

/-- A marked symbol is not moved again. -/
lemma moveSymbolAll_of_marked {places : List (Segment × BitVec 32)} {s : Sym Name}
    (hmark : s.shndx = int16Max) : moveSymbolAll places s = s := by
  induction places with
  | nil => rfl
  | cons p places ih =>
    have hstay : moveSymbol p.1 p.2 s = s := by
      rw [moveSymbol, if_neg]
      simp [moves, hmark]
    rw [moveSymbolAll, List.foldl_cons, hstay]
    exact ih

/-- A symbol is moved once. -/
lemma moveSymbolAll_eq {places : List (Segment × BitVec 32)} (hfits : ∀ p ∈ places, Placeable p)
    {s : Sym Name} (hmark : s.shndx ≠ int16Max) : moveSymbolAll places s = movedSymbol places s := by
  induction places with
  | nil => simp [moveSymbolAll, movedSymbol]
  | cons p places ih =>
    obtain ⟨seg, target⟩ := p
    have hp := hfits _ List.mem_cons_self
    rw [movedSymbol_cons hp hmark, moveSymbolAll, List.foldl_cons]
    by_cases hin : seg.holds s.value
    · rw [if_pos hin]
      refine moveSymbolAll_of_marked ?_
      rw [moveSymbol, if_pos ((moves_iff hp s).mpr ⟨hin, hmark⟩)]
    · have hstay : moveSymbol seg target s = s := by
        rw [moveSymbol, if_neg fun hm => hin ((moves_iff hp s).mp hm).1]
      rw [if_neg hin, hstay]
      exact ih fun q hq => hfits q (List.mem_cons_of_mem _ hq)

/-- A copy with the value of its symbol. -/
def withValue (s g : Sym Name) : Sym Name := { g with value := s.value }

/-- A copy follows its symbol. -/
lemma moveGlobal_withValue (seg : Segment) (target : BitVec 32) (s g : Sym Name) :
    moveGlobal seg target s (withValue s g) = withValue (moveSymbol seg target s) g := by
  rw [moveGlobal, moveSymbol]
  split <;> rfl

/-- The copies follow their symbols. -/
lemma zipWith_moveGlobal (seg : Segment) (target : BitVec 32) (symbols globals : List (Sym Name)) :
    List.zipWith (moveGlobal seg target) symbols (List.zipWith withValue symbols globals) =
      List.zipWith withValue (symbols.map (moveSymbol seg target)) globals := by
  induction symbols generalizing globals with
  | nil => rfl
  | cons s symbols ih =>
    cases globals with
    | nil => rfl
    | cons g globals =>
      rw [List.zipWith_cons_cons, List.zipWith_cons_cons, List.map_cons, List.zipWith_cons_cons, ih,
        moveGlobal_withValue]

/-- What the loop over the segments leaves of the symbols. -/
lemma placeSegments_symbols {i : ℕ} {segs segs' : List Segment} {targets : List (BitVec 32)}
    {d d' : DynamicModule Name} {globals : List (Sym Name)}
    (hplaced : placeSegments i segs targets d = some (segs', d'))
    (hlength : globals.length ≤ d.symtab.length)
    (hglobals : d.gsymtab =
      List.zipWith withValue (d.symtab.drop (d.symtab.length - globals.length)) globals) :
    d'.symtab = d.symtab.map (moveSymbolAll (segs.zip targets)) ∧
      d'.gsymtab = List.zipWith withValue (d'.symtab.drop (d'.symtab.length - globals.length)) globals := by
  induction segs generalizing i targets d segs' d' with
  | nil =>
    cases hplaced
    exact ⟨(List.map_id _).symm, hglobals⟩
  | cons seg segs ih =>
    cases targets with
    | nil => cases hplaced
    | cons target targets =>
      rw [placeSegments] at hplaced
      obtain ⟨r, hr, heq⟩ := Option.map_eq_some_iff.mp hplaced
      cases heq
      -- the entry point and the program headers are apart from the symbols
      obtain ⟨hsym, hgsym⟩ : (movePhdr i seg target (moveEntry seg target d)).symtab = d.symtab ∧
          (movePhdr i seg target (moveEntry seg target d)).gsymtab = d.gsymtab := by
        rw [movePhdr, moveEntry]
        split <;> split <;> exact ⟨rfl, rfl⟩
      have hcount : d.gsymtab.length = globals.length := by
        rw [hglobals, List.length_zipWith, List.length_drop]
        omega
      set e := moveSymbols seg target (movePhdr i seg target (moveEntry seg target d)) with he
      have hesym : e.symtab = d.symtab.map (moveSymbol seg target) := by
        rw [he, moveSymbols, hsym]
      have hegsym : e.gsymtab = List.zipWith withValue
          (e.symtab.drop (e.symtab.length - globals.length)) globals := by
        rw [hesym, List.length_map, ← List.map_drop, ← zipWith_moveGlobal, ← hglobals, he, moveSymbols, hsym,
          hgsym, hcount]
      obtain ⟨hall, hgall⟩ := ih hr (by rw [hesym, List.length_map]; exact hlength) hegsym
      refine ⟨?_, hgall⟩
      rw [hall, hesym, List.map_map, List.zip_cons_cons]
      rfl

/-- A segment moves the entry point once, if it lies in it. -/
lemma moveEntry_eq {seg : Segment} {target : BitVec 32} (hp : Placeable (seg, target))
    (d : DynamicModule Name) :
    moveEntry seg target d = if d.relocateEntryPoint = true ∧ seg.holds d.entry then
      { d with entry := d.entry + (target - seg.vaddr), relocateEntryPoint := false } else d := by
  rw [moveEntry]
  refine if_congr ?_ rfl rfl
  rw [Bool.and_eq_true, Bool.and_eq_true, decide_eq_true_iff, decide_eq_true_iff, and_assoc,
    between_iff hp d.entry]

/-- What the loop over the segments leaves of the entry point. -/
lemma placeSegments_entry {i : ℕ} {segs segs' : List Segment} {targets : List (BitVec 32)}
    {d d' : DynamicModule Name} (hfits : ∀ p ∈ segs.zip targets, Placeable p)
    (hplaced : placeSegments i segs targets d = some (segs', d')) :
    d'.entry = if d.relocateEntryPoint = true then translate (segs.zip targets) d.entry else d.entry := by
  induction segs generalizing i targets d segs' d' with
  | nil =>
    cases hplaced
    exact (ite_self _).symm
  | cons seg segs ih =>
    cases targets with
    | nil => cases hplaced
    | cons target targets =>
      rw [placeSegments] at hplaced
      obtain ⟨r, hr, heq⟩ := Option.map_eq_some_iff.mp hplaced
      cases heq
      rw [List.zip_cons_cons] at hfits ⊢
      have hp := hfits _ List.mem_cons_self
      have hrec := ih (fun p hp => hfits p (List.mem_cons_of_mem _ hp)) hr
      -- the symbols and the program headers are apart from the entry point
      have hother : ∀ e : DynamicModule Name,
          (moveSymbols seg target (movePhdr i seg target e)).entry = e.entry ∧
          (moveSymbols seg target (movePhdr i seg target e)).relocateEntryPoint = e.relocateEntryPoint := by
        intro e
        rw [moveSymbols, movePhdr]
        split <;> exact ⟨rfl, rfl⟩
      rw [hrec, (hother _).1, (hother _).2, translate]
      by_cases hflag : d.relocateEntryPoint = true
      · by_cases hin : seg.holds d.entry
        · have hmove := (moveEntry_eq hp d).trans (if_pos ⟨hflag, hin⟩)
          rw [hmove, if_pos hflag, if_pos hin]
          rfl
        · have hstay := (moveEntry_eq hp d).trans (if_neg fun h => hin h.2)
          rw [hstay, if_pos hflag, if_pos hflag, if_neg hin]
      · have hstay := (moveEntry_eq hp d).trans (if_neg fun h => hflag h.1)
        rw [hstay, if_neg hflag, if_neg hflag]

/-- The segments after the loop. -/
lemma placeSegments_segments {i : ℕ} {segs segs' : List Segment} {targets : List (BitVec 32)}
    {d d' : DynamicModule Name} (hplaced : placeSegments i segs targets d = some (segs', d')) :
    segs' = (segs.zip targets).map fun p => p.1.placeAt p.2 := by
  induction segs generalizing i targets d segs' d' with
  | nil =>
    cases hplaced
    rfl
  | cons seg segs ih =>
    cases targets with
    | nil => cases hplaced
    | cons target targets =>
      rw [placeSegments] at hplaced
      obtain ⟨r, hr, heq⟩ := Option.map_eq_some_iff.mp hplaced
      cases heq
      rw [ih hr, List.zip_cons_cons, List.map_cons]

/-- The update of a tag that is the address of a section. -/
lemma updateDyntagSectionAddress_eq {places : List (Segment × BitVec 32)}
    (hfits : ∀ p ∈ places, Placeable p) (a : BitVec 32) :
    updateDyntagSectionAddress (places.map fun p => p.1.placeAt p.2) a =
      if ∃ p ∈ places, p.1.holds a then some (translate places a) else none := by
  induction places with
  | nil => simp [updateDyntagSectionAddress]
  | cons p places ih =>
    obtain ⟨seg, target⟩ := p
    have hp := hfits _ List.mem_cons_self
    rw [List.map_cons, updateDyntagSectionAddress, translate]
    by_cases hin : seg.holds a
    · rw [if_pos ((contains_placeAt hp a).mpr hin), if_pos ⟨_, List.mem_cons_self, hin⟩, if_pos hin]
      congr 2
      change seg.vaddr + (target - seg.vaddr) - seg.vaddr = target - seg.vaddr
      bv_omega
    · have hlater : (∃ p ∈ (seg, target) :: places, p.1.holds a) ↔ ∃ p ∈ places, p.1.holds a := by
        simp [hin]
      rw [if_neg fun hc => hin ((contains_placeAt hp a).mp hc), if_neg hin,
        ih fun q hq => hfits q (List.mem_cons_of_mem _ hq)]
      exact (if_congr hlater rfl rfl).symm

/-! ### One translation for all -/

/-- The tags of a dynamic segment: those before `DT_NULL`. -/
def liveTags (tags : List (ℕ × BitVec 32)) : List (ℕ × BitVec 32) := tags.takeWhile fun t => t.1 ≠ 0

/-- A tag is known, and if it is the address of a section, then zero or in a segment. -/
def TagOk (places : List (Segment × BitVec 32)) (t : ℕ × BitVec 32) : Prop :=
  t.1 ∈ plainTags ∨ t.1 ∈ sectionTags ∧ (t.2 = 0 ∨ ∃ p ∈ places, p.1.holds t.2)

instance (places : List (Segment × BitVec 32)) (t : ℕ × BitVec 32) : Decidable (TagOk places t) :=
  inferInstanceAs (Decidable (_ ∨ _ ∧ (_ ∨ _)))

/-- A tag whose address is translated, if it is the address of a section. -/
def translateTag (places : List (Segment × BitVec 32)) (t : ℕ × BitVec 32) : ℕ × BitVec 32 :=
  if t.1 ∈ sectionTags ∧ t.2 ≠ 0 then (t.1, translate places t.2) else t

/-- No tag that is left alone is the address of a section. -/
lemma not_mem_sectionTags {tag : ℕ} (h : tag ∈ plainTags) : tag ∉ sectionTags := by
  revert tag
  decide

/-- A tag of the dynamic segment: it is translated if it is in order, and stops the loop if not. -/
lemma relocateDynamicTagInfo_cons {places : List (Segment × BitVec 32)} (hfits : ∀ p ∈ places, Placeable p)
    {tag : ℕ} {val : BitVec 32} (hnull : tag ≠ 0) (rest : List (ℕ × BitVec 32)) :
    relocateDynamicTagInfo (places.map fun p => p.1.placeAt p.2) ((tag, val) :: rest) =
      if TagOk places (tag, val) then
        (relocateDynamicTagInfo (places.map fun p => p.1.placeAt p.2) rest).map
          (translateTag places (tag, val) :: ·)
      else none := by
  rw [relocateDynamicTagInfo, if_neg hnull, updateDyntagSectionAddress_eq hfits]
  by_cases hplain : tag ∈ plainTags ∨ tag ∈ sectionTags ∧ val = 0
  · have hok : TagOk places (tag, val) := hplain.imp_right fun h => ⟨h.1, Or.inl h.2⟩
    have hsame : translateTag places (tag, val) = (tag, val) := by
      rw [translateTag, if_neg]
      rintro ⟨hsection, hne⟩
      rcases hplain with hplain | ⟨-, hzero⟩
      · exact not_mem_sectionTags hplain hsection
      · exact hne hzero
    rw [if_pos hplain, if_pos hok, hsame]
  · rw [if_neg hplain]
    by_cases hsection : tag ∈ sectionTags
    · have hne : val ≠ 0 := fun hzero => hplain (Or.inr ⟨hsection, hzero⟩)
      rw [if_pos hsection]
      by_cases hin : ∃ p ∈ places, p.1.holds val
      · have hsame : translateTag places (tag, val) = (tag, translate places val) :=
          if_pos ⟨hsection, hne⟩
        have hok : TagOk places (tag, val) := Or.inr ⟨hsection, Or.inr hin⟩
        rw [if_pos hin, Option.bind_some, if_pos hok, hsame]
      · rw [if_neg hin, Option.bind_none, if_neg]
        rintro (hp | ⟨-, hzero | hp⟩)
        · exact hplain (Or.inl hp)
        · exact hne hzero
        · exact hin hp
    · rw [if_neg hsection, if_neg]
      rintro (hp | hp)
      · exact hplain (Or.inl hp)
      · exact hsection hp.1

/-- The loop over the dynamic tags. -/
lemma relocateDynamicTagInfo_eq {places : List (Segment × BitVec 32)} (hfits : ∀ p ∈ places, Placeable p)
    (tags : List (ℕ × BitVec 32)) :
    relocateDynamicTagInfo (places.map fun p => p.1.placeAt p.2) tags =
      if ∀ t ∈ liveTags tags, TagOk places t then
        some ((liveTags tags).map (translateTag places) ++ tags.dropWhile fun t => t.1 ≠ 0)
      else none := by
  induction tags with
  | nil => rfl
  | cons t rest ih =>
    obtain ⟨tag, val⟩ := t
    by_cases hnull : tag = 0
    · subst hnull
      rw [relocateDynamicTagInfo]
      simp [liveTags]
    · have hlive : liveTags ((tag, val) :: rest) = (tag, val) :: liveTags rest := by
        simp [liveTags, hnull]
      have hdrop : ((tag, val) :: rest).dropWhile (fun t => t.1 ≠ 0) =
          rest.dropWhile fun t => t.1 ≠ 0 := by
        simp [hnull]
      rw [relocateDynamicTagInfo_cons hfits hnull, ih, hlive, hdrop]
      by_cases hok : TagOk places (tag, val)
      · rw [if_pos hok]
        by_cases hall : ∀ t ∈ liveTags rest, TagOk places t
        · rw [if_pos hall, if_pos (List.forall_mem_cons.mpr ⟨hok, hall⟩)]
          rfl
        · rw [if_neg hall, if_neg fun h => hall (List.forall_mem_cons.mp h).2]
          rfl
      · rw [if_neg hok, if_neg fun h => hok (List.forall_mem_cons.mp h).1]

/-- What the loop over the segments leaves of the symbols of a module and of their copies. -/
lemma placeSegments_tables {segs segs' : List Segment} {targets : List (BitVec 32)}
    {d d' : DynamicModule Name} {globalIndex : ℕ} (hfits : ∀ p ∈ segs.zip targets, Placeable p)
    (hmark : ∀ s ∈ d.symtab, s.shndx ≠ int16Max)
    (hplaced : placeSegments 0 segs targets (d.copyGlobals globalIndex) = some (segs', d')) :
    d'.symtab = d.symtab.map (movedSymbol (segs.zip targets)) ∧
    d'.gsymtab = (d.symtab.drop globalIndex).map
      (fun g => { g with value := translate (segs.zip targets) g.value }) := by
  have hsame : ∀ l : List (Sym Name), List.zipWith withValue l l = l := by
    intro l
    induction l with
    | nil => rfl
    | cons s l ih => rw [List.zipWith_cons_cons, ih, withValue]
  have hdrop : d.symtab.drop (d.symtab.length - (d.symtab.drop globalIndex).length) =
      d.symtab.drop globalIndex := by
    rw [List.length_drop]
    by_cases hle : globalIndex ≤ d.symtab.length
    · congr 1
      omega
    · rw [List.drop_eq_nil_of_le (by omega), List.drop_eq_nil_of_le (by omega)]
  have hglobals : (d.copyGlobals globalIndex).gsymtab = List.zipWith withValue
      (d.symtab.drop (d.symtab.length - (d.symtab.drop globalIndex).length))
      (d.symtab.drop globalIndex) := by
    rw [hdrop, hsame]
    rfl
  obtain ⟨hsymtab, hgsymtab⟩ := placeSegments_symbols hplaced
    (by rw [List.length_drop]; exact Nat.sub_le _ _) hglobals
  have hall : d'.symtab = d.symtab.map (movedSymbol (segs.zip targets)) :=
    hsymtab.trans (List.map_congr_left fun s hs => moveSymbolAll_eq hfits (hmark s hs))
  refine ⟨hall, ?_⟩
  rw [hgsymtab, hall, List.length_map, ← List.map_drop, hdrop, List.zipWith_map_left]
  have hcopy : ∀ l : List (Sym Name),
      List.zipWith (fun s g => withValue (movedSymbol (segs.zip targets) s) g) l l =
        l.map fun g => { g with value := translate (segs.zip targets) g.value } := by
    intro l
    induction l with
    | nil => rfl
    | cons s l ih =>
      rw [List.zipWith_cons_cons, ih, withValue, movedSymbol_value, List.map_cons]
  exact hcopy _

/-- If the segments of a module are apart and lie, in the file and at their places, below the end of the
address space, then every symbol, every copy of a global symbol, the entry point and every dynamic tag that
is the address of a section are moved by one translation, which takes what lies in a segment to the place
of the segment; the tags are rejected exactly if one of them is unknown or the address of no segment. -/
theorem addresses_translated {segs segs' : List Segment} {targets : List (BitVec 32)}
    {d d' : DynamicModule Name} {globalIndex : ℕ} (hfits : ∀ p ∈ segs.zip targets, Placeable p)
    (hapart : (segs.zip targets).Pairwise Apart) (hmark : ∀ s ∈ d.symtab, s.shndx ≠ int16Max)
    (hentry : d.relocateEntryPoint = true)
    (hplaced : placeSegments 0 segs targets (d.copyGlobals globalIndex) = some (segs', d')) :
    (∀ p ∈ segs.zip targets, ∀ a, p.1.holds a →
      translate (segs.zip targets) a = p.2 + (a - p.1.vaddr)) ∧
    d'.symtab = d.symtab.map (movedSymbol (segs.zip targets)) ∧
    d'.gsymtab = (d.symtab.drop globalIndex).map
      (fun g => { g with value := translate (segs.zip targets) g.value }) ∧
    d'.entry = translate (segs.zip targets) d.entry ∧
    ∀ tags, relocateDynamicTagInfo segs' tags =
      if ∀ t ∈ liveTags tags, TagOk (segs.zip targets) t then
        some ((liveTags tags).map (translateTag (segs.zip targets)) ++ tags.dropWhile fun t => t.1 ≠ 0)
      else none := by
  obtain ⟨hsymtab, hgsymtab⟩ := placeSegments_tables hfits hmark hplaced
  refine ⟨fun p hp a ha => translate_of_mem hapart hp ha, hsymtab, hgsymtab, ?_, fun tags => ?_⟩
  · rw [placeSegments_entry hfits hplaced]
    exact if_pos hentry
  · rw [placeSegments_segments hplaced]
    exact relocateDynamicTagInfo_eq hfits tags

/-- A module with two symbols, one of them global, in two segments. -/
def twoSegments : DynamicModule ℕ :=
  ⟨[⟨0, 8, true, true, 1⟩, ⟨1, 0x104, false, false, 2⟩], [], 0x100, true, [⟨0, 0⟩, ⟨0x100, 0x100⟩]⟩

/-- The symbols, the entry point and a tag of a module that is moved. -/
theorem addresses_translated_twoSegments : ∃ segs' d', placeSegments 0
    [⟨0, 16, 16, 0⟩, ⟨0, 32, 32, 0x100⟩] [0x80000000, 0x80001000] (twoSegments.copyGlobals 1) =
      some (segs', d') ∧ d'.entry = 0x80001000 ∧ d'.gsymtab = [⟨1, 0x80001004, false, false, 2⟩] ∧
      relocateDynamicTagInfo segs' [(12, 8), (0, 0)] = some [(12, 0x80000008), (0, 0)] := by
  have hsome : (placeSegments 0 [⟨0, 16, 16, 0⟩, ⟨0, 32, 32, 0x100⟩] [0x80000000, 0x80001000]
      (twoSegments.copyGlobals 1)).isSome = true := by decide
  obtain ⟨⟨segs', d'⟩, hplaced⟩ := Option.isSome_iff_exists.mp hsome
  obtain ⟨-, -, hglobals, hentry, htags⟩ := addresses_translated (d := twoSegments) (by decide)
    (by
      rw [List.zip_cons_cons, List.zip_cons_cons, List.zip_nil_right, List.pairwise_pair]
      intro a ha hb
      simp only [Segment.holds] at ha hb
      bv_omega)
    (by decide) rfl hplaced
  exact ⟨segs', d', hplaced, hentry.trans (by decide), hglobals.trans (by decide),
    (htags _).trans (by decide)⟩

end TiOpenCL.Reloc
