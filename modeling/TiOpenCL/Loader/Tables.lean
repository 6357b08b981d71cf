import TiOpenCL.Library.Words
import TiOpenCL.Loader.Relocation

/-!
# The relocation tables of a module

`DLREL_c60_relocate` reads the tables of relocation entries that the dynamic segment of a module
describes, and calls `reloc_do` for their entries segment by segment.  The scan of a table stops at
the first entry outside the segment that follows one inside, and every scan starts at the first
entry, so what it calls `reloc_do` for is the first run of entries of the segment.

The entries that have an addend are `Elf32_Rela`; an `Elf32_Rel` entry ends the loader, which has no
code to read the addend from the place of the relocation.
-/

namespace TiOpenCL.Reloc

/-! ### Modules -/

/-- An `Elf32_Rela` entry, with `r_info` split in its two parts. -/
structure Rela where
  /-- `r_offset` -/
  rOffset : BitVec 32
  /-- `ELF32_R_TYPE(r_info)` -/
  rType : RelocType
  /-- `ELF32_R_SYM(r_info)` -/
  rSymid : ℕ
  /-- `r_addend` -/
  rAddend : BitVec 32
  deriving DecidableEq

/-- An `Elf32_Rel` entry, with `r_info` split in its two parts. -/
structure Rel where
  /-- `r_offset` -/
  rOffset : BitVec 32
  /-- `ELF32_R_TYPE(r_info)` -/
  rType : RelocType
  /-- `ELF32_R_SYM(r_info)` -/
  rSymid : ℕ

/-- A loaded segment. -/
structure Segment where
  /-- `input_vaddr`, the address of the segment in the file. -/
  inputVaddr : BitVec 32
  /-- `phdr.p_memsz` -/
  memsz : BitVec 32
  /-- `phdr.p_filesz` -/
  filesz : BitVec 32
  /-- `phdr.p_vaddr`, the address at which the segment runs. -/
  vaddr : BitVec 32

/-- What the loader knows of a module when it relocates it. -/
structure Module where
  /-- The tags and values of the dynamic segment. -/
  dyntab : List (ℕ × ℕ)
  /-- `loaded_segments` -/
  segments : List Segment
  /-- The `Elf32_Rela` entry at an offset of the file, in the byte order of the host. -/
  relaAt : ℕ → Rela
  /-- The `Elf32_Rel` entry at an offset of the file, in the byte order of the host. -/
  relAt : ℕ → Rel
  /-- `DLSYM_canonical_lookup` -/
  canonicalLookup : ℕ → Option (BitVec 32)
  /-- The value found for `__TI_STATIC_BASE`. -/
  tiStaticBase : BitVec 32
  /-- `wrong_endian` -/
  wrongEndian : Bool
  /-- `dsbt_index` -/
  dsbtIndex : BitVec 32

/-- A call of `reloc_do`, with the entry that it is made for. -/
structure Applied where
  /-- The entry. -/
  entry : Rela
  /-- The number of the segment whose memory is passed. -/
  segment : ℕ
  /-- The other arguments. -/
  call : RelocCall

/-- What the loader does: its calls of `reloc_do`, and whether it exits after them. -/
structure Outcome where
  /-- The calls, in order. -/
  applied : List Applied
  /-- `DLIF_exit` has been called. -/
  exited : Bool

namespace Outcome

/-- Nothing to do. -/
def done : Outcome := ⟨[], false⟩

/-- The loader goes on, unless it has exited. -/
def andThen (o o' : Outcome) : Outcome :=
  if o.exited then o else ⟨o.applied ++ o'.applied, o'.exited⟩

end Outcome

/-! ### Scanning a table -/

/-- The test whether an offset falls within a segment. -/
def Segment.contains (seg : Segment) (offset : BitVec 32) : Bool :=
  decide (seg.inputVaddr ≤ offset) && decide (offset < seg.inputVaddr + seg.memsz)

namespace Module

/-- The call of `reloc_do` for an entry of a segment, if its symbol is found. -/
def relocEntry (M : Module) (segIdx : ℕ) (seg : Segment) (e : Rela) : List Applied :=
  match M.canonicalLookup e.rSymid with
  | none => []
  | some symval =>
    [⟨e, segIdx, ⟨e.rType, seg.vaddr, e.rAddend, symval, e.rOffset - seg.inputVaddr,
      M.wrongEndian, M.tiStaticBase, M.dsbtIndex⟩⟩]

/-- The loop of `process_rela_table` from an entry on. -/
def scanRela (M : Module) (segIdx : ℕ) (seg : Segment) : Bool → List Rela → List Applied
  | _, [] => []
  | found, e :: rest =>
    if seg.contains e.rOffset then M.relocEntry segIdx seg e ++ M.scanRela segIdx seg true rest
    else if found then []
    else M.scanRela segIdx seg false rest

/-- `process_rela_table`.  Neither caller's start index is ever assigned: both pass zero. -/
def processRelaTable (M : Module) (segIdx : ℕ) (seg : Segment) (relaTable : List Rela)
    (startRelidx : ℕ) : Outcome :=
  let relidx := if relaTable.length < startRelidx then 0 else startRelidx
  ⟨M.scanRela segIdx seg false (relaTable.drop relidx), false⟩

/-- The loop of `process_rel_table` from an entry on: whether `rel_unpack_addend` exits. -/
def scanRel (M : Module) (seg : Segment) : Bool → List Rel → Bool
  | _, [] => false
  | found, e :: rest =>
    if seg.contains e.rOffset then
      if (M.canonicalLookup e.rSymid).isSome then true else M.scanRel seg true rest
    else if found then false
    else M.scanRel seg false rest

/-- `process_rel_table` -/
def processRelTable (M : Module) (seg : Segment) (relTable : List Rel) (startRelidx : ℕ) : Outcome :=
  let relidx := if relTable.length ≤ startRelidx then 0 else startRelidx
  ⟨[], M.scanRel seg false (relTable.drop relidx)⟩

/-! ### The tables of a module -/

/-- `process_got_relocs` from a segment on; a table that was not read is `none`. -/
def processGotRelocs (M : Module) (relTable : Option (List Rel)) (relaTable : Option (List Rela)) :
    ℕ → List Segment → Outcome
  | _, [] => .done
  | segIdx, seg :: segs =>
    if seg.filesz = 0 then M.processGotRelocs relTable relaTable (segIdx + 1) segs
    else
      ((match relaTable with
        | some table => M.processRelaTable segIdx seg table 0
        | none => .done).andThen
      (match relTable with
        | some table => M.processRelTable seg table 0
        | none => .done)).andThen
      (M.processGotRelocs relTable relaTable (segIdx + 1) segs)

/-- `process_pltgot_relocs` from a segment on: the table is processed for the segment of its first
entry. -/
def processPltgotRelocs (M : Module) (rOffset : BitVec 32) (process : ℕ → Segment → Outcome) :
    ℕ → List Segment → Outcome
  | _, [] => .done
  | segIdx, seg :: segs =>
    if seg.filesz = 0 then M.processPltgotRelocs rOffset process (segIdx + 1) segs
    else if seg.contains rOffset then process segIdx seg
    else M.processPltgotRelocs rOffset process (segIdx + 1) segs

/-- The tags of the dynamic segment that `DLREL_c60_relocate` reads. -/
def dtPltrelsz : ℕ := 2
/-- `DT_RELA` -/
def dtRela : ℕ := 7
/-- `DT_RELASZ` -/
def dtRelasz : ℕ := 8
/-- `DT_RELAENT` -/
def dtRelaent : ℕ := 9
/-- `DT_REL` -/
def dtRel : ℕ := 17
/-- `DT_RELSZ` -/
def dtRelsz : ℕ := 18
/-- `DT_RELENT` -/
def dtRelent : ℕ := 19
/-- `DT_PLTREL` -/
def dtPltrel : ℕ := 20
/-- `DT_JMPREL` -/
def dtJmprel : ℕ := 23

/-- `INT_MAX`, the value of a tag that is not there. -/
def intMax : ℕ := 2 ^ 31 - 1

/-- `DLIMP_get_first_dyntag`; the tag zero ends the table. -/
def getFirstDyntag (tag : ℕ) : List (ℕ × ℕ) → ℕ
  | [] => intMax
  | (t, value) :: rest =>
    if t = 0 then intMax else if t = tag then value else getFirstDyntag tag rest

/-- The value of a tag of the module. -/
def dyntag (M : Module) (tag : ℕ) : ℕ := getFirstDyntag tag M.dyntab

/-- `read_rela_table`: the entries lie one after the other, 12 bytes each. -/
def readRelaTable (M : Module) (tableOffset relanum : ℕ) : Option (List Rela) :=
  if relanum = 0 then none
  else some ((List.range relanum).map fun i => M.relaAt (tableOffset + 12 * i))

/-- `read_rel_table`: the entries lie one after the other, 8 bytes each. -/
def readRelTable (M : Module) (tableOffset relnum : ℕ) : Option (List Rel) :=
  if relnum = 0 then none
  else some ((List.range relnum).map fun i => M.relAt (tableOffset + 8 * i))

/-- A size tag that is there and not zero. -/
def Present (size : ℕ) : Prop := size ≠ intMax ∧ size ≠ 0

instance (size : ℕ) : Decidable (Present size) :=
  inferInstanceAs (Decidable (size ≠ intMax ∧ size ≠ 0))

/-- `DLREL_c60_relocate` -/
def relocate (M : Module) : Outcome :=
  let relasz := M.dyntag dtRelasz
  let relsz := M.dyntag dtRelsz
  let pltrelsz := M.dyntag dtPltrelsz
  let isRel := Present pltrelsz ∧ M.dyntag dtPltrel = dtRel
  let isRela := Present pltrelsz ∧ M.dyntag dtPltrel = dtRela
  -- the entries of the PLT are at the end of the table of their kind, and are taken off its size
  let relPltTable :=
    if isRel then M.readRelTable (M.dyntag dtJmprel) (pltrelsz / M.dyntag dtRelent) else none
  let relaPltTable :=
    if isRela then M.readRelaTable (M.dyntag dtJmprel) (pltrelsz / M.dyntag dtRelaent) else none
  let relsz := if isRel then wsub 32 relsz pltrelsz else relsz
  let relasz := if isRela then wsub 32 relasz pltrelsz else relasz
  let relaTable :=
    if Present relasz then M.readRelaTable (M.dyntag dtRela) (relasz / M.dyntag dtRelaent) else none
  let relTable :=
    if Present relsz then M.readRelTable (M.dyntag dtRel) (relsz / M.dyntag dtRelent) else none
  let relaPlt := match relaPltTable with
    | some (e :: table) => M.processPltgotRelocs e.rOffset
        (fun segIdx seg => M.processRelaTable segIdx seg (e :: table) 0) 0 M.segments
    | _ => .done
  let relPlt := match relPltTable with
    | some (e :: table) => M.processPltgotRelocs e.rOffset
        (fun _ seg => M.processRelTable seg (e :: table) 0) 0 M.segments
    | _ => .done
  let got :=
    if relTable.isSome ∨ relaTable.isSome then M.processGotRelocs relTable relaTable 0 M.segments
    else .done
  (relaPlt.andThen relPlt).andThen got

end Module

end TiOpenCL.Reloc
