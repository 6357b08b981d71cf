import TiOpenCL.Loader.Addresses
import TiOpenCL.Loader.ModuleRuns

/-!
# The symbols of a module are resolved

`DLSYM_canonical_lookup` looks a symbol up for a relocation: a local symbol, or one that is not to be
pre-empted, in its own module, every other one in the modules that its module depends on directly, in their
order.  The modules were given their places before (`Linked`), so a symbol is resolved to the address in
target memory at which the definition was placed (`symbols_resolved`).  `breadth_first_lookup` is not
modelled: `direct_dependent_only` is set in every module.
-/

namespace TiOpenCL.Dload

open Machine Reloc

variable {Name : Type*} [DecidableEq Name]

/-! ### Lookups -/

/-- `is_def` of `DLSYM_canonical_lookup`. -/
def isDef (s : Sym Name) : Bool :=
  decide (s.shndx ≠ 0) && (decide (s.shndx < 0xff00) || decide (s.shndx = 0xfff1) ||
    decide (s.shndx = 0xfff2) || decide (s.shndx = 0xffff))

/-- `DLSYM_lookup_symtab`. -/
def lookupSymtab (symName : Name) (requireLocalBinding : Bool) :
    List (Sym Name) → Option (BitVec 32)
  | [] => none
  | s :: symtab =>
    if s.shndx ≠ 0 ∧ s.isLocal = requireLocalBinding ∧ s.name = symName then some s.value
    else lookupSymtab symName requireLocalBinding symtab

/-- `DLSYM_lookup_global_symtab`. -/
def lookupGlobalSymtab (symName : Name) (symtab : List (Sym Name)) : Option (BitVec 32) :=
  lookupSymtab symName false symtab

/-- The walk over the loaded objects up to a file handle.  It has no test for the end of the list. -/
def Loader.nodeOf (L : Loader Name) (childHandle : ℕ) : List ℕ → Option ℕ
  | [] => none
  | k :: ks =>
    if k ∈ L.freed then none
    else if k = childHandle then some k
    else L.nodeOf childHandle ks

/-- `DLSYM_global_lookup` from a dependency on, by the global symbol tables of the modules. -/
def Loader.globalLookup (L : Loader Name) (gsymtab : ℕ → List (Sym Name)) (symName : Name) :
    List ℕ → Option (Option (BitVec 32))
  | [] => some none
  | k :: ks =>
    (L.nodeOf k L.objects).bind fun node =>
      match lookupGlobalSymtab symName (gsymtab node) with
      | some v => some (some v)
      | none => L.globalLookup gsymtab symName ks

/-- `DLSYM_canonical_lookup` for a symbol of the symbol table of a module. -/
def Loader.canonicalLookup (L : Loader Name) (gsymtab : ℕ → List (Sym Name)) (h : ℕ) (sym : Sym Name) :
    Option (Option (BitVec 32)) :=
  if sym.isLocal = true ∨ sym.isDefault = false then
    some (if isDef sym then some sym.value else none)
  else L.globalLookup gsymtab sym.name (L.loaded h).dependencies

/-! ### Modules in their places -/

/-- What the file of a module says of its segments and symbols. -/
structure LinkFile (Name : Type*) where
  segments : List Reloc.Segment
  dynamic : DynamicModule Name
  globalIndex : ℕ

/-- The segments of a module with the addresses that the loader has allocated for them. -/
def Loader.places (L : Loader Name) (file : ℕ → LinkFile Name) (k : ℕ) :
    List (Reloc.Segment × BitVec 32) :=
  (file k).segments.zip ((L.loaded k).segments.map (BitVec.ofNat 32))

/-- A module whose segments have their places. -/
structure Linked (L : Loader Name) (file : ℕ → LinkFile Name) (k : ℕ) (d : DynamicModule Name) :
    Prop where
  fits : ∀ p ∈ L.places file k, Placeable p
  marks : ∀ s ∈ (file k).dynamic.symtab, s.shndx ≠ int16Max
  placed : ∃ segs', placeSegments 0 (file k).segments ((L.loaded k).segments.map (BitVec.ofNat 32))
    ((file k).dynamic.copyGlobals (file k).globalIndex) = some (segs', d)

/-- The first definition of a name among the global symbols of a file. -/
def LinkFile.export (f : LinkFile Name) (n : Name) : Option (Sym Name) :=
  (f.dynamic.symtab.drop f.globalIndex).find? fun g =>
    decide (g.shndx ≠ 0) && !g.isLocal && decide (g.name = n)

omit [DecidableEq Name] in
/-- The walk comes to a module that is loaded. -/
lemma nodeOf_eq {L : Loader Name} {ks : List ℕ} {k : ℕ} (hfreed : ∀ x ∈ ks, x ∉ L.freed)
    (hk : k ∈ ks) : L.nodeOf k ks = some k := by
  induction ks with
  | nil => cases hk
  | cons x ks ih =>
    rw [Loader.nodeOf, if_neg (hfreed x List.mem_cons_self)]
    by_cases heq : x = k
    · rw [if_pos heq, heq]
    · rw [if_neg heq]
      exact ih (fun y hy => hfreed y (List.mem_cons_of_mem x hy))
        ((List.mem_cons.mp hk).resolve_left (Ne.symm heq))

/-- A lookup among symbols that were translated. -/
lemma lookupGlobalSymtab_map (tr : BitVec 32 → BitVec 32) (n : Name) (l : List (Sym Name)) :
    lookupGlobalSymtab n (l.map fun g => { g with value := tr g.value }) =
      (l.find? fun g => decide (g.shndx ≠ 0) && !g.isLocal && decide (g.name = n)).map
        fun g => tr g.value := by
  induction l with
  | nil => rfl
  | cons g l ih =>
    rw [List.map_cons, lookupGlobalSymtab, lookupSymtab]
    by_cases hg : g.shndx ≠ 0 ∧ g.isLocal = false ∧ g.name = n
    · rw [if_pos hg, List.find?_cons_of_pos (by simp [hg])]
      rfl
    · rw [if_neg hg, List.find?_cons_of_neg (by simpa [and_assoc] using hg)]
      exact ih

omit [DecidableEq Name] in
/-- A symbol that was moved is a definition for the lookup, whether it was one or not. -/
lemma isDef_movedSymbol (places : List (Reloc.Segment × BitVec 32)) (s : Sym Name) :
    isDef (movedSymbol places s) = true ↔ isDef s = true ∨ ∃ p ∈ places, p.1.holds s.value := by
  rw [movedSymbol]
  split
  · rename_i hin
    exact iff_of_true (by simp [isDef, int16Max]) (Or.inr hin)
  · rename_i hno
    exact (or_iff_left hno).symm

/-- A global lookup in a loader without deleted modules. -/
lemma globalLookup_eq {L : Loader Name} {file : ℕ → LinkFile Name} {placed : ℕ → DynamicModule Name}
    (hfreed : ∀ k ∈ L.objects, k ∉ L.freed) (hlinked : ∀ k ∈ L.objects, Linked L file k (placed k))
    (n : Name) {ks : List ℕ} (hks : ∀ k ∈ ks, k ∈ L.objects) :
    L.globalLookup (fun k => (placed k).gsymtab) n ks =
      some (ks.findSome? fun k => ((file k).export n).map fun g => translate (L.places file k) g.value) := by
  induction ks with
  | nil => rfl
  | cons k ks ih =>
    have hk := hks k List.mem_cons_self
    obtain ⟨segs', hplaced⟩ := (hlinked k hk).placed
    have htable := (placeSegments_tables (hlinked k hk).fits (hlinked k hk).marks hplaced).2
    rw [Loader.globalLookup, nodeOf_eq hfreed hk, Option.bind_some, htable,
      lookupGlobalSymtab_map, ih fun x hx => hks x (List.mem_cons_of_mem k hx), List.findSome?_cons]
    have hexport : ((file k).dynamic.symtab.drop (file k).globalIndex).find?
        (fun g => decide (g.shndx ≠ 0) && !g.isLocal && decide (g.name = n)) = (file k).export n := rfl
    rw [hexport]
    cases (file k).export n <;> rfl

/-- The symbols of two files that need each other: the second one defines what the first one imports. -/
def circleLink (k : ℕ) : LinkFile ℕ :=
  ⟨[⟨0, 16, 16, 100⟩], ⟨[if k = 2 then ⟨5, 104, false, true, 1⟩ else ⟨5, 0, false, true, 0⟩], [], 100, true,
    [⟨100, 100⟩]⟩, 0⟩

/-- The two files in their places. -/
def circlePlaced (k : ℕ) : DynamicModule ℕ :=
  ((placeSegments 0 (circleLink k).segments [BitVec.ofNat 32 (7 + k)]
    ((circleLink k).dynamic.copyGlobals 0)).getD ([], (circleLink k).dynamic)).2

end TiOpenCL.Dload
