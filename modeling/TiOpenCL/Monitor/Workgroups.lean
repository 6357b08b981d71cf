import Mathlib.Data.Fin.Basic
import Mathlib.Data.Fintype.Pi
import Mathlib.Data.List.FinRange
import Mathlib.Logic.Function.Basic
import TiOpenCL.Library.Words

/-!
# The workgroups a core runs for an NDRange kernel

The part of the monitor that decides which workgroups of a kernel a core runs: the split of the
range over the cores (`setup_ndr_chunks`), the odometer over the workgroups of a core (`incVec`) and
the loop of `process_kernel_command`.  All arithmetic is that of `uint32_t` and `int`.
-/

namespace TiOpenCL

/-- An array with one entry for each dimension of an NDRange. -/
abbrev Vec3 := Fin 3 → ℕ

/-- The index of the innermost dimension. -/
abbrev dim0 : Fin 3 := 0

/-- The index of the second dimension. -/
abbrev dim1 : Fin 3 := 1

/-- The index of the outermost dimension. -/
abbrev dim2 : Fin 3 := 2

/-- The value of `WG_gid_start[0]` that asks for debug mode. -/
def debugModeWGGidStart : ℕ := 1

/-- The part of `kernel_config_t` that the workgroup loop reads. -/
structure KernelConfig where
  /-- Number of dimensions of the range. -/
  numDims : ℕ
  /-- Number of work items in each dimension. -/
  globalSize : Vec3
  /-- Number of work items of a workgroup in each dimension. -/
  localSize : Vec3
  /-- First global id in each dimension. -/
  globalOffset : Vec3
  /-- On arrival the mode of execution, then the first global id of the current workgroup. -/
  WGGidStart : Vec3

/-- The part of a kernel message that decides which workgroups a core runs. -/
structure NDRCommand where
  /-- The range. -/
  config : KernelConfig
  /-- Number of cores that received the command. -/
  numCores : ℕ
  /-- The first of these cores. -/
  masterCore : ℕ

/-- A workgroup as the kernel finds it in the configuration copied to L2. -/
structure Workgroup where
  /-- First global id of the workgroup in each dimension. -/
  gidStart : Vec3
  /-- Flattened workgroup id. -/
  id : ℕ
  deriving DecidableEq

namespace Monitor

/-- The indices `0, …, dims - 1` of the dimensions in use. -/
def dimensions (dims : ℕ) : List (Fin 3) := (List.finRange 3).take dims

/-- `incVec`: add the increment in the first dimension and carry into the next one at the limit;
the result is the overflow out of the last dimension and the new vector. -/
def incVec (inc maxs : Vec3) : List (Fin 3) → Bool → Vec3 → Bool × Vec3
  | [], overflow, vec => (overflow, vec)
  | i :: is, _, vec =>
    let next := wadd 32 (vec i) (inc i)
    if next < maxs i then (false, Function.update vec i next)
    else incVec inc maxs is true (Function.update vec i 0)

/-- The loop of `setup_ndr_chunks` over the dimensions, outermost first: the first one with more
than one workgroup is split over the cores.  The result tells whether the core has any work. -/
def setupNdrChunksFrom (gsz lsz : Vec3) (nCores core masterCore : ℕ) (limits offsets : Vec3) :
    List (Fin 3) → Bool × Vec3 × Vec3
  | [] => (core == masterCore, limits, offsets)
  | d :: ds =>
    let numWgs : ℤ := sint 32 (gsz d / lsz d)
    if 1 < numWgs then
      let numChunks : ℤ := sint 32 nCores
      let wgsCore := numWgs.tdiv numChunks
      let leftover := numWgs.tmod numChunks
      let ldnum := sint 32 (wsub 32 core masterCore)
      let limit := wmul 32 (uint 32 (wgsCore + if ldnum < leftover then 1 else 0)) (lsz d)
      let shift :=
        wmul 32 (uint 32 (ldnum * wgsCore + if ldnum < leftover then ldnum else leftover)) (lsz d)
      (decide (ldnum < numWgs), Function.update limits d limit,
        Function.update offsets d (wadd 32 (offsets d) shift))
    else setupNdrChunksFrom gsz lsz nCores core masterCore limits offsets ds

/-- `setup_ndr_chunks` on a core: whether it has work, and the limits and offsets of its part. -/
def setupNdrChunks (dims : ℕ) (limits offsets gsz lsz : Vec3) (nCores core masterCore : ℕ) :
    Bool × Vec3 × Vec3 :=
  if nCores = 1 then (true, limits, offsets)
  else setupNdrChunksFrom gsz lsz nCores core masterCore limits offsets (dimensions dims).reverse

/-- The `do`/`while` loop over the workgroups of a core.  A workgroup for which `returns` is false
leaves through `longjmp`, which ends the loop.  The result lists the workgroups that were started,
and is `none` when the fuel runs out. -/
def workgroupLoop (cfg : KernelConfig) (limits offsets : Vec3) (returns : Workgroup → Bool) :
    ℕ → Vec3 → ℕ → Option (List Workgroup)
  | 0, _, _ => none
  | fuel + 1, WGid, workgroup =>
    let wg : Workgroup := ⟨fun i => wadd 32 (offsets i) (WGid i), workgroup⟩
    if returns wg then
      let next := incVec cfg.localSize limits (dimensions cfg.numDims) false WGid
      if next.1 then some [wg]
      else (workgroupLoop cfg limits offsets returns fuel next.2 (wadd 32 workgroup 1)).map (wg :: ·)
    else some [wg]

/-- The flattened id of the first workgroup of a core. -/
def firstWorkgroup (cfg : KernelConfig) (offsets : Vec3) : ℕ :=
  let wgStart : Vec3 := fun i => wsub 32 (offsets i) (cfg.globalOffset i) / cfg.localSize i
  let numWgs : Vec3 := fun i => cfg.globalSize i / cfg.localSize i
  wadd 32 (wadd 32 (wmul 32 (wmul 32 (wgStart dim2) (numWgs dim1)) (numWgs dim0))
    (wmul 32 (wgStart dim1) (numWgs dim0))) (wgStart dim0)

/-- `process_kernel_command` on a core: the workgroups it starts. -/
def processKernelCommand (cmd : NDRCommand) (core : ℕ) (returns : Workgroup → Bool) (fuel : ℕ) :
    Option (List Workgroup) :=
  let cfg := cmd.config
  let loop (limits offsets : Vec3) : Option (List Workgroup) :=
    workgroupLoop cfg limits offsets returns fuel (fun _ => 0) (firstWorkgroup cfg offsets)
  if cfg.WGGidStart dim0 = debugModeWGGidStart then
    if core = cmd.masterCore then loop cfg.globalSize cfg.globalOffset else some []
  else
    match setupNdrChunks cfg.numDims cfg.globalSize cfg.globalOffset cfg.globalSize cfg.localSize
        cmd.numCores core cmd.masterCore with
    | (true, limits, offsets) => loop limits offsets
    | (false, _, _) => some []

end Monitor

end TiOpenCL
