import Mathlib.Data.Int.Notation
import Mathlib.Data.List.Defs
import Mathlib.Logic.Function.Basic

/-!
# The modules of the dynamic loader

`DLOAD_load` reads an object file, gets memory for its segments, loads the files that it needs through
the client, which calls `DLOAD_load` again, and relocates everything that was loaded when the outermost
call is done with its dependencies.  `DLOAD_unload` counts a use of a module down, and at zero unloads
the modules it depends on and removes it.

A module is a pointer, its file handle, into the memory of the host.  A failed load deletes modules that
the lists of the loader go on to name (`freed`); a step that reads a deleted module has no result.  `relocated`
and `strays` are a record of what has happened; no step reads them.  The handles do not wrap.
-/

namespace TiOpenCL.Dload

/-! ### Files and modules -/

/-- A segment of a file that is loaded (`PT_LOAD`). -/
structure Segment where
  /-- `p_vaddr`. -/
  vaddr : ℕ
  /-- `p_memsz`. -/
  memsz : ℕ
  deriving DecidableEq, Repr

/-- An object file, as far as the core of the loader asks. -/
structure ElfFile (Name : Type*) where
  /-- `dload_headers`, `dload_dynamic_segment` up to the check for circles, and
  `is_valid_elf_object_file` succeed. -/
  accepted : Bool
  /-- The file has a dynamic segment. -/
  relocatable : Bool
  /-- The name of the object (`DT_SONAME`). -/
  name : Name
  /-- The names of the files that it needs (`DT_NEEDED`), in order. -/
  needed : List Name
  /-- The segments to load. -/
  segments : List Segment
  /-- `relocate_dynamic_tag_info` finds the segments of all sections. -/
  tagsOk : Bool

/-- `DLIMP_Loaded_Module`. -/
structure LoadedModule (Name : Type*) where
  /-- `name`. -/
  name : Name
  /-- `use_count`. -/
  useCount : ℤ
  /-- `dependencies`. -/
  dependencies : List ℕ
  /-- The `target_address` of each of the `loaded_segments`. -/
  segments : List ℕ
  /-- Whether the file has a dynamic segment. -/
  dynamic : Bool

/-- `LOADER_OBJECT`, with the memory of the host and the shared memory. -/
structure Loader (Name : Type*) where
  /-- The next file handle. -/
  fileHandle : ℕ
  /-- `DLIMP_loaded_objects`. -/
  objects : List ℕ
  /-- The modules that the file handles stand for. -/
  loaded : ℕ → LoadedModule Name
  /-- The modules that were deleted. -/
  freed : List ℕ
  /-- `DLIMP_module_dependency_list`. -/
  loading : List Name
  /-- `DLIMP_dependency_stack`, from the top. -/
  stack : List ℕ
  /-- The modules that were relocated, in order. -/
  relocated : List ℕ
  /-- The blocks of shared memory that are allocated for segments. -/
  live : List ℕ
  /-- The addresses given to `FreeGlobal` that were no such blocks. -/
  strays : List ℕ

/-- What the loader core relies on: the files, the shared memory and the host's `malloc`. -/
structure Client (Name : Type*) where
  /-- The file that `fopen` finds under a name. -/
  openFile : Name → Option (ElfFile Name)
  /-- `AllocateGlobal`, by the blocks that are allocated and the size; zero if it fails. -/
  allocate : List ℕ → ℕ → ℕ
  /-- `addr_is_l2`. -/
  isL2 : ℕ → Bool
  /-- What the new descriptors of the segments of a module contain. -/
  stale : ℕ → ℕ → ℕ

variable {Name : Type*}

/-- `DLOAD_create`. -/
def create (memory : ℕ → LoadedModule Name) : Loader Name :=
  ⟨1, [], memory, [], [], [], [], [], []⟩

/-- The loader with one module changed. -/
def Loader.setModule (L : Loader Name) (h : ℕ) (m : LoadedModule Name) : Loader Name :=
  { L with loaded := Function.update L.loaded h m }

/-! ### Segments -/

/-- `DLIF_allocate` for the segments from a given one on: whether all succeed, the addresses written to
the descriptors, and the blocks that are allocated then. -/
def allocateSegments (client : Client Name) : List Segment → List ℕ → Bool × List ℕ × List ℕ
  | [], live => (true, [], live)
  | seg :: segs, live =>
    if client.isL2 seg.vaddr then
      let r := allocateSegments client segs live
      (r.1, seg.vaddr :: r.2.1, r.2.2)
    else if client.allocate live seg.memsz = 0 then (false, [0], live)
    else
      let r := allocateSegments client segs (client.allocate live seg.memsz :: live)
      (r.1, client.allocate live seg.memsz :: r.2.1, r.2.2)

/-- `initialize_loaded_module`, and the enqueueing of the new module. -/
def initializeLoadedModule (client : Client Name) (L : Loader Name) (f : ElfFile Name) : Loader Name :=
  { L.setModule L.fileHandle
      ⟨f.name, 1, [], (List.range f.segments.length).map (client.stale L.fileHandle), f.relocatable⟩ with
    fileHandle := L.fileHandle + 1
    objects := L.objects ++ [L.fileHandle] }

/-- The allocation of target memory in `load_static_segment` and in
`allocate_dynamic_segments_and_relocate_symbols`. -/
def allocateModule (client : Client Name) (L : Loader Name) (h : ℕ) (segments : List Segment) :
    Bool × Loader Name :=
  let r := allocateSegments client segments L.live
  let m := L.loaded h
  (r.1, { L.setModule h { m with segments := r.2.1 ++ m.segments.drop r.2.1.length } with live := r.2.2 })

/-- `DLIF_release`. -/
def releaseSegment (client : Client Name) (L : Loader Name) (addr : ℕ) : Loader Name :=
  if client.isL2 addr then L
  else if addr ∈ L.live then { L with live := L.live.erase addr }
  else { L with strays := addr :: L.strays }

/-- `delete_DLIMP_Loaded_Module`. -/
def deleteLoadedModule (client : Client Name) (L : Loader Name) (h : ℕ) : Loader Name :=
  let L' := (L.loaded h).segments.foldl (releaseSegment client) L
  { L' with freed := h :: L'.freed }

/-! ### Loading -/

/-- The search of a list of modules by name. -/
def Loader.findName [DecidableEq Name] (L : Loader Name) (n : Name) : List ℕ → Option (Option ℕ)
  | [] => some none
  | k :: ks =>
    if k ∈ L.freed then none
    else if (L.loaded k).name = n then some (some k)
    else L.findName n ks

/-- A use of a module more. -/
def Loader.use (L : Loader Name) (k : ℕ) : Loader Name :=
  L.setModule k { L.loaded k with useCount := (L.loaded k).useCount + 1 }

/-- A dependency of a module more. -/
def Loader.depend (L : Loader Name) (h k : ℕ) : Loader Name :=
  L.setModule h { L.loaded h with dependencies := (L.loaded h).dependencies ++ [k] }

/-- `dload_and_allocate_dependencies` for the rest of the names, given `DLIF_load_dependent`. -/
def dloadAndAllocateDependencies [DecidableEq Name]
    (loadDependent : Loader Name → Name → Option (ℕ × Loader Name)) (h : ℕ) :
    List Name → Loader Name → Option (Bool × Loader Name)
  | [], L => some (true, L)
  | n :: ns, L =>
    (L.findName n L.objects).bind fun
      | some k => dloadAndAllocateDependencies loadDependent h ns ((L.use k).depend h k)
      | none =>
        (loadDependent L n).bind fun r =>
          if r.1 = 0 then some (false, r.2.depend h r.1)
          else dloadAndAllocateDependencies loadDependent h ns (r.2.depend h r.1)

/-- `relocate_dependency_graph_modules`. -/
def relocateDependencyGraphModules (L : Loader Name) (h : ℕ) : Loader Name :=
  if ∃ b ∈ L.stack.getLast?, b ≠ h then L
  else { L with stack := [], relocated := L.relocated ++ L.stack }

/-- `DLIF_load_dependent`, given `DLOAD_load`. -/
def loadDependent (client : Client Name)
    (loadFile : Loader Name → ElfFile Name → Option (ℕ × Loader Name)) (L : Loader Name) (n : Name) :
    Option (ℕ × Loader Name) :=
  match client.openFile n with
  | some f => loadFile L f
  | none => some (0, L)

/-- `DLOAD_load`, with the nested calls left: the file handle, zero if the load fails. -/
def load [DecidableEq Name] (client : Client Name) :
    ℕ → Loader Name → ElfFile Name → Option (ℕ × Loader Name)
  | 0, _, _ => none
  | fuel + 1, L, f =>
    if f.accepted = false ∨ f.relocatable = true ∧ f.name ∈ L.loading then some (0, L)
    else
      let h := L.fileHandle
      let r := allocateModule client (initializeLoadedModule client L f) h f.segments
      if f.relocatable = false then
        -- `dload_static_executable`
        some (if r.1 then (h, r.2) else (0, deleteLoadedModule client r.2 h))
      else if r.1 = false ∨ f.tagsOk = false then some (0, deleteLoadedModule client r.2 h)
      else
        let L' := { r.2 with loading := r.2.loading ++ [f.name], stack := h :: r.2.stack }
        (dloadAndAllocateDependencies (loadDependent client (load client fuel)) h f.needed L').map fun d =>
          if d.1 then
            (h, relocateDependencyGraphModules { d.2 with loading := d.2.loading.dropLast } h)
          else (0, deleteLoadedModule client d.2 h)

/-! ### Unloading -/

/-- A use of a module less. -/
def Loader.unuse (L : Loader Name) (h : ℕ) : Loader Name :=
  L.setModule h { L.loaded h with useCount := (L.loaded h).useCount - 1 }

/-- `remove_loaded_module`. -/
def removeLoadedModule (client : Client Name) (L : Loader Name) (h : ℕ) : Loader Name :=
  deleteLoadedModule client { L with objects := L.objects.erase h } h

/-- The loop of `DLOAD_unload` over the dependencies of a module, given `DLIF_unload_dependent`. -/
def unloadDependents (unloadDependent : Loader Name → ℕ → Option (Bool × Loader Name)) :
    List ℕ → Loader Name → Option (Loader Name)
  | [], L => some L
  | k :: ks, L => (unloadDependent L k).bind fun r => unloadDependents unloadDependent ks r.2

/-- The loop of `DLOAD_unload` over the rest of the loaded objects. -/
def unloadFrom (client : Client Name) (unloadDependent : Loader Name → ℕ → Option (Bool × Loader Name))
    (h : ℕ) : List ℕ → Loader Name → Option (Bool × Loader Name)
  | [], L => some (false, L)
  | k :: ks, L =>
    if k ∈ L.freed then none
    else if k = h then
      if ((L.unuse h).loaded h).useCount = 0 then
        (unloadDependents unloadDependent (L.loaded h).dependencies (L.unuse h)).map fun L' =>
          (true, removeLoadedModule client L' h)
      else unloadFrom client unloadDependent h ks (L.unuse h)
    else unloadFrom client unloadDependent h ks L

/-- `DLOAD_unload`, with the nested calls left: whether the module was removed. -/
def unload (client : Client Name) : ℕ → Loader Name → ℕ → Option (Bool × Loader Name)
  | 0, _, _ => none
  | fuel + 1, L, h => unloadFrom client (unload client fuel) h L.objects L

end TiOpenCL.Dload
