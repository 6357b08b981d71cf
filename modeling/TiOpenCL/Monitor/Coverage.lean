import Mathlib.Data.Fintype.Pi
import Mathlib.Data.Fin.VecNotation
import Mathlib.Data.Multiset.Bind
import Mathlib.Tactic.FinCases
import TiOpenCL.Library.Odometer
import TiOpenCL.Monitor.Workgroups

/-!
# Coverage of an NDRange

The cores of a device together start every workgroup of an NDRange exactly once.  The odometer of a
core is the mixed radix counter of `Odometer` scaled by the workgroup size (`incVec_scale`), so the
loop of a core sweeps a box of workgroup coordinates (`workgroupLoop_spec`); `setup_ndr_chunks`
gives every core consecutive coordinates in one dimension (`setupNdrChunks_spec`), and the boxes of
the cores partition the range.
-/

namespace TiOpenCL

namespace Monitor

open Odometer

/-- A well-formed NDRange command, with the bounds of the field types. -/
structure NDRCommand.WellFormed (cmd : NDRCommand) : Prop where
  dims_pos : 1 ≤ cmd.config.numDims
  dims_le : cmd.config.numDims ≤ 3
  global_lt : ∀ i, cmd.config.globalSize i < 2 ^ 32
  local_pos : ∀ i, 1 ≤ cmd.config.localSize i
  local_dvd : ∀ i, cmd.config.localSize i ∣ cmd.config.globalSize i
  offset_lt : ∀ i, cmd.config.globalOffset i < 2 ^ 32
  unused : ∀ i : Fin 3, cmd.config.numDims ≤ i →
    cmd.config.globalSize i = 1 ∧ cmd.config.localSize i = 1 ∧ cmd.config.globalOffset i = 0
  cores_pos : 1 ≤ cmd.numCores
  cores_lt : cmd.numCores < 2 ^ 8
  master_lt : cmd.masterCore < 2 ^ 8

/-- A well-formed command whose range has a work item: the host rejects a global size of zero with
`CL_INVALID_GLOBAL_WORK_SIZE`. -/
structure NDRCommand.Valid (cmd : NDRCommand) : Prop extends NDRCommand.WellFormed cmd where
  global_pos : ∀ i, 1 ≤ cmd.config.globalSize i

/-- The number of workgroups in each dimension. -/
def numWorkgroups (cfg : KernelConfig) : Vec3 := fun i => cfg.globalSize i / cfg.localSize i

/-- The first global id of the workgroup with the given coordinates. -/
def gidStartOf (offset lsz k : Vec3) : Vec3 := fun i => (offset i + k i * lsz i) % 2 ^ 32

/-! ### The dimensions in use -/

/-- The dimensions are listed once each. -/
lemma dimensions_nodup (dims : ℕ) : (dimensions dims).Nodup :=
  (List.nodup_finRange 3).sublist (List.take_sublist _ _)

/-- The dimensions in use are those below `dims`. -/
lemma mem_dimensions {dims : ℕ} {i : Fin 3} : i ∈ dimensions dims ↔ (i : ℕ) < dims := by
  rw [dimensions, List.mem_take_iff_getElem]
  constructor
  · rintro ⟨j, hj, rfl⟩
    simp only [List.getElem_finRange, Fin.val_cast]
    omega
  · intro hi
    exact ⟨i, by simp only [List.length_finRange]; omega, by simp⟩

/-! ### One core -/

/-- With limits that are multiples of the increments, `incVec` is a step of the counter. -/
lemma incVec_scale {r inc maxs : Vec3} (hmax : ∀ i, maxs i = r i * inc i)
    (hlt : ∀ i, maxs i < 2 ^ 32) (hinc : ∀ i, 1 ≤ inc i) (is : List (Fin 3)) {d : Vec3}
    (hd : ∀ i ∈ is, d i < r i) :
    incVec inc maxs is true (fun i => d i * inc i) =
      ((advance r is d).1, fun i => (advance r is d).2 i * inc i) := by
  induction is generalizing d with
  | nil => rfl
  | cons i is ih =>
    have hdi : d i < r i := hd i (by simp)
    have hstep : d i * inc i + inc i ≤ maxs i := by
      rw [hmax, ← Nat.succ_mul]
      exact Nat.mul_le_mul_right _ hdi
    have hnext : wadd 32 (d i * inc i) (inc i) = (d i + 1) * inc i := by
      rw [wadd_eq (hstep.trans_lt (hlt i)), Nat.succ_mul]
    have hscale : ∀ a, Function.update (fun j => d j * inc j) i (a * inc i) =
        fun j => Function.update d i a j * inc j := by
      intro a
      funext j
      by_cases hj : j = i
      · subst hj
        simp
      · simp [Function.update_of_ne hj]
    have hiff : (d i + 1) * inc i < maxs i ↔ d i + 1 < r i := by
      rw [hmax]
      exact Nat.mul_lt_mul_right (hinc i)
    simp only [incVec, advance, hnext, hiff]
    split
    · rw [hscale]
    · have hzero := hscale 0
      rw [Nat.zero_mul] at hzero
      rw [hzero]
      refine ih fun j hj => ?_
      by_cases hji : j = i
      · subst hji
        rw [Function.update_self]
        omega
      · rw [Function.update_of_ne hji]
        exact hd j (List.mem_cons_of_mem i hj)

/-- Workgroups with the given first global ids, numbered from `workgroup` on. -/
def numbered (workgroup : ℕ) (gids : List Vec3) : List Workgroup :=
  gids.mapIdx fun m gid => ⟨gid, (workgroup + m) % 2 ^ 32⟩

/-- The first workgroup has the first number. -/
lemma numbered_cons (workgroup : ℕ) (gid : Vec3) (gids : List Vec3) :
    numbered workgroup (gid :: gids) = ⟨gid, workgroup % 2 ^ 32⟩ :: numbered (workgroup + 1) gids := by
  rw [numbered, List.mapIdx_cons, numbered, Nat.add_zero]
  simp only [Nat.add_assoc, Nat.add_comm 1]

/-- Numbers do not change the first global ids. -/
lemma map_gidStart_numbered (workgroup : ℕ) (gids : List Vec3) :
    (numbered workgroup gids).map Workgroup.gidStart = gids := by
  induction gids generalizing workgroup with
  | nil => rfl
  | cons gid gids ih => rw [numbered_cons, List.map_cons, ih]

/-- The loop of a core, entered after `n` steps of the counter, ends for every behaviour of the
workgroups.  It starts the remaining states of the counter in order, all of them if all the workgroups
it starts return. -/
lemma workgroupLoop_spec {cfg : KernelConfig} {limits r : Vec3} (offsets : Vec3)
    (hdims : 1 ≤ cfg.numDims) (hmax : ∀ i, limits i = r i * cfg.localSize i)
    (hlt : ∀ i, limits i < 2 ^ 32) (hloc : ∀ i, 1 ≤ cfg.localSize i) (hr : ∀ i, 0 < r i)
    (returns : Workgroup → Bool) (k : ℕ) :
    ∀ n, n + (k + 1) = size r (dimensions cfg.numDims) → ∀ workgroup, ∃ runs : List Workgroup,
      (∀ fuel, k + 1 ≤ fuel → workgroupLoop cfg limits offsets returns fuel
        (fun i => digits r (dimensions cfg.numDims) n i * cfg.localSize i) (workgroup % 2 ^ 32) =
          some runs) ∧
      runs <+: numbered workgroup ((List.range' n (k + 1)).map fun m =>
          gidStartOf offsets cfg.localSize (digits r (dimensions cfg.numDims) m)) ∧
      ((∀ wg ∈ runs, returns wg) → runs = numbered workgroup ((List.range' n (k + 1)).map fun m =>
          gidStartOf offsets cfg.localSize (digits r (dimensions cfg.numDims) m))) := by
  have hcons : ∃ i is, dimensions cfg.numDims = i :: is := by
    have hmem : (0 : Fin 3) ∈ dimensions cfg.numDims := mem_dimensions.mpr hdims
    exact List.exists_cons_of_ne_nil (List.ne_nil_of_mem hmem)
  have hstep : ∀ n, n < size r (dimensions cfg.numDims) →
      incVec cfg.localSize limits (dimensions cfg.numDims) false
        (fun i => digits r (dimensions cfg.numDims) n i * cfg.localSize i) =
      if n + 1 < size r (dimensions cfg.numDims) then
        (false, fun i => digits r (dimensions cfg.numDims) (n + 1) i * cfg.localSize i)
      else (true, fun _ => 0) := by
    intro n hn
    have hflag : incVec cfg.localSize limits (dimensions cfg.numDims) false =
        incVec cfg.localSize limits (dimensions cfg.numDims) true := by
      obtain ⟨i, is, hi⟩ := hcons
      rw [hi]
      rfl
    rw [hflag, incVec_scale hmax hlt hloc _ fun i hi => digits_lt (fun j _ => hr j) hi n,
      advance_digits (dimensions_nodup _) hn]
    split <;> simp
  induction k with
  | zero =>
    intro n hn workgroup
    refine ⟨[⟨gidStartOf offsets cfg.localSize (digits r (dimensions cfg.numDims) n),
      workgroup % 2 ^ 32⟩], ?_, ?_, fun _ => rfl⟩
    · intro fuel hfuel
      obtain ⟨fuel, rfl⟩ : ∃ f, fuel = f + 1 := ⟨fuel - 1, by omega⟩
      simp only [workgroupLoop, hstep n (by omega),
        if_neg (show ¬ n + 1 < size r (dimensions cfg.numDims) by omega)]
      split <;> rfl
    · exact List.prefix_rfl
  | succ k ih =>
    intro n hn workgroup
    obtain ⟨rest, hrest, hprefix, hall⟩ := ih (n + 1) (by omega) (workgroup + 1)
    set wg : Workgroup :=
      ⟨gidStartOf offsets cfg.localSize (digits r (dimensions cfg.numDims) n), workgroup % 2 ^ 32⟩
      with hwg
    have hrange : List.range' n (k + 1 + 1) = n :: List.range' (n + 1) (k + 1) :=
      List.range'_succ ..
    have hnext : wadd 32 (workgroup % 2 ^ 32) 1 = (workgroup + 1) % 2 ^ 32 := Nat.mod_add_mod _ _ _
    rw [hrange, List.map_cons, numbered_cons, ← hwg]
    refine ⟨if returns wg then wg :: rest else [wg], ?_, ?_, ?_⟩
    · intro fuel hfuel
      obtain ⟨fuel, rfl⟩ : ∃ f, fuel = f + 1 := ⟨fuel - 1, by omega⟩
      simp only [workgroupLoop, hstep n (by omega),
        if_pos (show n + 1 < size r (dimensions cfg.numDims) by omega)]
      change (if returns wg then _ else some [wg]) = _
      split
      · simp only [Bool.false_eq_true, if_false]
        rw [hnext, hrest fuel (by omega)]
        rfl
      · rfl
    · split
      · exact List.prefix_cons_inj wg |>.mpr hprefix
      · exact ⟨_, rfl⟩
    · intro hreturn
      by_cases hret : returns wg
      · rw [if_pos hret] at hreturn ⊢
        rw [hall fun w hw => hreturn w (List.mem_cons_of_mem _ hw)]
      · rw [if_neg hret] at hreturn
        exact absurd (hreturn wg (by simp)) hret

/-- The loop of a core from the start of its part. -/
lemma workgroupLoop_sweep {cfg : KernelConfig} {limits r : Vec3} (offsets : Vec3)
    (hdims : 1 ≤ cfg.numDims) (hmax : ∀ i, limits i = r i * cfg.localSize i)
    (hlt : ∀ i, limits i < 2 ^ 32) (hloc : ∀ i, 1 ≤ cfg.localSize i) (hr : ∀ i, 0 < r i)
    (returns : Workgroup → Bool) {workgroup : ℕ} (hworkgroup : workgroup < 2 ^ 32) :
    ∃ runs : List Workgroup, (∃ fuel₀, ∀ fuel, fuel₀ ≤ fuel →
      workgroupLoop cfg limits offsets returns fuel (fun _ => 0) workgroup = some runs) ∧
      runs <+: numbered workgroup
        ((sweep r (dimensions cfg.numDims)).map (gidStartOf offsets cfg.localSize)) ∧
      ((∀ wg ∈ runs, returns wg) → runs = numbered workgroup
        ((sweep r (dimensions cfg.numDims)).map (gidStartOf offsets cfg.localSize))) := by
  obtain ⟨k, hk⟩ : ∃ k, size r (dimensions cfg.numDims) = k + 1 :=
    ⟨size r (dimensions cfg.numDims) - 1, by
      have hpos : 0 < size r (dimensions cfg.numDims) := size_pos fun i _ => hr i
      omega⟩
  have hsweep : (sweep r (dimensions cfg.numDims)).map (gidStartOf offsets cfg.localSize) =
      (List.range' 0 (k + 1)).map fun m =>
        gidStartOf offsets cfg.localSize (digits r (dimensions cfg.numDims) m) := by
    rw [sweep, hk, List.map_map, List.range_eq_range']
    rfl
  obtain ⟨runs, hruns, hrest⟩ :=
    workgroupLoop_spec offsets hdims hmax hlt hloc hr returns k 0 (by omega) workgroup
  rw [hsweep]
  refine ⟨runs, ⟨k + 1, ?_⟩, hrest⟩
  simpa only [digits_zero, Nat.zero_mul, Nat.mod_eq_of_lt hworkgroup] using hruns

/-- The number of the first workgroup of a core is a word. -/
lemma firstWorkgroup_lt (cfg : KernelConfig) (offsets : Vec3) : firstWorkgroup cfg offsets < 2 ^ 32 :=
  wadd_lt 32 _ _

/-! ### The parts of the cores -/

/-- The dimensions of a command hold whole workgroups. -/
lemma NDRCommand.Valid.global_eq {cmd : NDRCommand} (hv : NDRCommand.Valid cmd) (i : Fin 3) :
    cmd.config.globalSize i = numWorkgroups cmd.config i * cmd.config.localSize i :=
  (Nat.div_mul_cancel (hv.local_dvd i)).symm

/-- Every dimension has a workgroup. -/
lemma NDRCommand.Valid.numWorkgroups_pos {cmd : NDRCommand} (hv : NDRCommand.Valid cmd)
    (i : Fin 3) : 0 < numWorkgroups cmd.config i :=
  Nat.div_pos (Nat.le_of_dvd (hv.global_pos i) (hv.local_dvd i)) (hv.local_pos i)

/-- The number of workgroups of a dimension fits the type. -/
lemma NDRCommand.Valid.numWorkgroups_lt {cmd : NDRCommand} (hv : NDRCommand.Valid cmd)
    (i : Fin 3) : numWorkgroups cmd.config i < 2 ^ 32 :=
  (Nat.div_le_self _ _).trans_lt (hv.global_lt i)

/-- The dimension that is split over the cores: the outermost one with more than one workgroup. -/
def splitDimension (cmd : NDRCommand) : Option (Fin 3) :=
  if cmd.numCores = 1 then none
  else (dimensions cmd.config.numDims).reverse.find? fun d =>
    1 < sint 32 (cmd.config.globalSize d / cmd.config.localSize d)

/-- The limits and offsets of the core with logical number `l`, and whether it has work. -/
def chunk (cmd : NDRCommand) (l : ℕ) : Option (Fin 3) → Bool × Vec3 × Vec3
  | none => (decide (l = 0), cmd.config.globalSize, cmd.config.globalOffset)
  | some D =>
    let R := numWorkgroups cmd.config D
    (decide (l < R),
      Function.update cmd.config.globalSize D
        ((R / cmd.numCores + if l < R % cmd.numCores then 1 else 0) * cmd.config.localSize D),
      Function.update cmd.config.globalOffset D
        ((cmd.config.globalOffset D + splitStart R cmd.numCores l * cmd.config.localSize D) %
          2 ^ 32))

/-- The loop of `setup_ndr_chunks` splits the first dimension it finds. -/
lemma setupNdrChunksFrom_eq {cmd : NDRCommand} (hv : NDRCommand.Valid cmd) {l : ℕ}
    (hl : l < cmd.numCores) (ds : List (Fin 3)) :
    setupNdrChunksFrom cmd.config.globalSize cmd.config.localSize cmd.numCores
        (cmd.masterCore + l) cmd.masterCore cmd.config.globalSize cmd.config.globalOffset ds =
      chunk cmd l (ds.find? fun d =>
        1 < sint 32 (cmd.config.globalSize d / cmd.config.localSize d)) := by
  induction ds with
  | nil =>
    simp only [setupNdrChunksFrom, List.find?_nil, chunk, Prod.mk.injEq, and_true]
    rw [Bool.eq_iff_iff]
    simp
  | cons D ds ih =>
    have hn := hv.cores_lt
    have hm := hv.master_lt
    by_cases hsplit : 1 < sint 32 (cmd.config.globalSize D / cmd.config.localSize D)
    · obtain ⟨R, hR⟩ : ∃ R, R = numWorkgroups cmd.config D := ⟨_, rfl⟩
      have hRdiv : cmd.config.globalSize D / cmd.config.localSize D = R := hR.symm
      have hRlt : R < 2 ^ 31 := by
        -- a count from `2 ^ 31` on is negative as an `int`
        by_contra hge
        have hneg := sint_neg_of_le (w := 32) (a := R) (by omega)
          (hR ▸ hv.numWorkgroups_lt D)
        rw [hRdiv] at hsplit
        omega
      have hRg : R * cmd.config.localSize D < 2 ^ 32 := by
        rw [hR, ← hv.global_eq D]
        exact hv.global_lt D
      have hld : sint 32 (wsub 32 (cmd.masterCore + l) cmd.masterCore) = (l : ℤ) := by
        rw [wsub_eq (by omega) (by omega), Nat.add_sub_cancel_left,
          sint_of_lt (by omega) (by omega)]
      have hcores : sint 32 cmd.numCores = (cmd.numCores : ℤ) :=
        sint_of_lt (by omega) (by omega)
      have hwgs : sint 32 R = (R : ℤ) := sint_of_lt (by omega) (by omega)
      have hpart := splitStart_add_part_le R hl
      have hcount : R / cmd.numCores + (if l < R % cmd.numCores then 1 else 0) ≤ R := by omega
      have hstart := splitStart_le R hl
      have hlimit : uint 32 ((R : ℤ).tdiv cmd.numCores +
          if (l : ℤ) < (R : ℤ).tmod cmd.numCores then 1 else 0) =
          R / cmd.numCores + if l < R % cmd.numCores then 1 else 0 := by
        rw [← uint_natCast (w := 32) (n := R / cmd.numCores + if l < R % cmd.numCores then 1 else 0)
          (by omega)]
        congr 1
        rw [← Int.ofNat_tdiv, ← Int.ofNat_tmod]
        simp only [Nat.cast_lt]
        push_cast
        rfl
      have hshift : uint 32 ((l : ℤ) * (R : ℤ).tdiv cmd.numCores +
          if (l : ℤ) < (R : ℤ).tmod cmd.numCores then (l : ℤ) else (R : ℤ).tmod cmd.numCores) =
          splitStart R cmd.numCores l := by
        rw [← uint_natCast (w := 32) (n := splitStart R cmd.numCores l) (by omega)]
        congr 1
        rw [← Int.ofNat_tdiv, ← Int.ofNat_tmod, splitStart]
        simp only [Nat.cast_lt]
        rw [Nat.cast_add, Nat.cast_mul]
        congr 1
        split <;> omega
      rw [List.find?_cons_of_pos (by simpa using hsplit)]
      simp only [setupNdrChunksFrom, if_pos hsplit, chunk]
      rw [hRdiv, ← hR, hwgs, hcores, hld, hlimit, hshift,
        wmul_eq ((Nat.mul_le_mul_right _ hcount).trans_lt hRg),
        wmul_eq ((Nat.mul_le_mul_right _ hstart).trans_lt hRg)]
      simp only [Nat.cast_lt, wadd]
    · rw [List.find?_cons_of_neg (by simpa using hsplit), setupNdrChunksFrom, if_neg hsplit, ih]

/-- `setup_ndr_chunks` gives the core with logical number `l` its chunk. -/
lemma setupNdrChunks_eq {cmd : NDRCommand} (hv : NDRCommand.Valid cmd) {l : ℕ}
    (hl : l < cmd.numCores) :
    setupNdrChunks cmd.config.numDims cmd.config.globalSize cmd.config.globalOffset
        cmd.config.globalSize cmd.config.localSize cmd.numCores (cmd.masterCore + l)
        cmd.masterCore = chunk cmd l (splitDimension cmd) := by
  unfold setupNdrChunks splitDimension
  by_cases hone : cmd.numCores = 1
  · have hzero : l = 0 := by omega
    rw [if_pos hone, if_pos hone, chunk, hzero]
    rfl
  · rw [if_neg hone, if_neg hone, setupNdrChunksFrom_eq hv hl]

/-- The coordinates of the workgroups of the core with logical number `l`. -/
def part (cmd : NDRCommand) (l : ℕ) : Option (Fin 3) → List Vec3
  | none => if l = 0 then sweep (numWorkgroups cmd.config) (dimensions cmd.config.numDims) else []
  | some D =>
    let R := numWorkgroups cmd.config D
    if l < R then
      (sweep (Function.update (numWorkgroups cmd.config) D
        (R / cmd.numCores + if l < R % cmd.numCores then 1 else 0))
        (dimensions cmd.config.numDims)).map
        fun k => Function.update k D (k D + splitStart R cmd.numCores l)
    else []

/-- In the dimensions that are not in use there is one workgroup. -/
lemma NDRCommand.Valid.numWorkgroups_unused {cmd : NDRCommand} (hv : NDRCommand.Valid cmd)
    {i : Fin 3} (hi : i ∉ dimensions cmd.config.numDims) : numWorkgroups cmd.config i = 1 := by
  rw [mem_dimensions, not_lt] at hi
  obtain ⟨hg, hl, -⟩ := hv.unused i hi
  rw [numWorkgroups, hg, hl]

/-- The dimension that is split is in use. -/
lemma splitDimension_mem {cmd : NDRCommand} {D : Fin 3} (h : splitDimension cmd = some D) :
    D ∈ dimensions cmd.config.numDims := by
  unfold splitDimension at h
  split at h
  · simp at h
  · exact List.mem_reverse.mp (List.mem_of_find?_eq_some h)

/-- The coordinates of a core, when one dimension is split. -/
lemma mem_part_some {cmd : NDRCommand} (hv : NDRCommand.Valid cmd) {l : ℕ} (hl : l < cmd.numCores)
    {D : Fin 3} (hD : D ∈ dimensions cmd.config.numDims) {k : Vec3} :
    k ∈ part cmd l (some D) ↔ (∀ i, k i < numWorkgroups cmd.config i) ∧
      splitStart (numWorkgroups cmd.config D) cmd.numCores l ≤ k D ∧
      k D < splitStart (numWorkgroups cmd.config D) cmd.numCores (l + 1) := by
  obtain ⟨R, hR⟩ : ∃ R, R = numWorkgroups cmd.config D := ⟨_, rfl⟩
  have hle := splitStart_add_part_le R hl
  have hpos := part_pos_iff (R := R) hl
  rw [← hR, splitStart_succ]
  simp only [part, ← hR]
  generalize hc : R / cmd.numCores + (if l < R % cmd.numCores then 1 else 0) = c at hle hpos ⊢
  constructor
  · intro hk
    split at hk
    · obtain ⟨k', hk', rfl⟩ := List.mem_map.mp hk
      obtain ⟨hlt, hzero⟩ := (mem_sweep (dimensions_nodup _)).mp hk'
      have hkD : k' D < c := by simpa using hlt D hD
      refine ⟨fun i => ?_, by simp, by simp only [Function.update_self]; omega⟩
      by_cases hi : i = D
      · subst hi
        rw [Function.update_self, ← hR]
        omega
      · rw [Function.update_of_ne hi]
        by_cases hmem : i ∈ dimensions cmd.config.numDims
        · simpa [Function.update_of_ne hi] using hlt i hmem
        · rw [hzero i hmem]
          exact hv.numWorkgroups_pos i
    · simp at hk
  · rintro ⟨hlt, hlo, hhi⟩
    rw [if_pos (by omega)]
    refine List.mem_map.mpr ⟨Function.update k D (k D - splitStart R cmd.numCores l), ?_, ?_⟩
    · refine (mem_sweep (dimensions_nodup _)).mpr ⟨fun i _ => ?_, fun i hi => ?_⟩
      · by_cases hiD : i = D
        · subst hiD
          rw [Function.update_self, Function.update_self]
          omega
        · rw [Function.update_of_ne hiD, Function.update_of_ne hiD]
          exact hlt i
      · have hiD : i ≠ D := fun h => hi (h ▸ hD)
        have hone := hlt i
        rw [hv.numWorkgroups_unused hi] at hone
        rw [Function.update_of_ne hiD]
        omega
    · simp [Nat.sub_add_cancel hlo]

/-- The coordinates of a core, when no dimension is split. -/
lemma mem_part_none {cmd : NDRCommand} (hv : NDRCommand.Valid cmd) {l : ℕ} {k : Vec3} :
    k ∈ part cmd l none ↔ (∀ i, k i < numWorkgroups cmd.config i) ∧ l = 0 := by
  simp only [part]
  constructor
  · intro hk
    split at hk
    · next hzero =>
      obtain ⟨hlt, hz⟩ := (mem_sweep (dimensions_nodup _)).mp hk
      refine ⟨fun i => ?_, hzero⟩
      by_cases hmem : i ∈ dimensions cmd.config.numDims
      · exact hlt i hmem
      · rw [hz i hmem]
        exact hv.numWorkgroups_pos i
    · simp at hk
  · rintro ⟨hlt, hzero⟩
    rw [if_pos hzero]
    refine (mem_sweep (dimensions_nodup _)).mpr ⟨fun i _ => hlt i, fun i hi => ?_⟩
    have hone := hlt i
    rw [hv.numWorkgroups_unused hi] at hone
    omega

/-- A sweep over all the dimensions in use meets the coordinates of the range. -/
lemma coe_sweep {cmd : NDRCommand} (hv : NDRCommand.Valid cmd) :
    ((sweep (numWorkgroups cmd.config) (dimensions cmd.config.numDims) : List Vec3) :
      Multiset Vec3) =
      (Fintype.piFinset fun i => Finset.range (numWorkgroups cmd.config i)).val := by
  refine (Multiset.Nodup.ext (Multiset.coe_nodup.mpr (sweep_nodup _ (dimensions_nodup _)))
    (Finset.nodup _)).mpr fun k => ?_
  have hpart := mem_part_none hv (l := 0) (k := k)
  simp only [part, if_true, and_true] at hpart
  rw [Multiset.mem_coe, hpart, Finset.mem_val, Fintype.mem_piFinset]
  simp only [Finset.mem_range]

/-- A core meets no coordinates twice. -/
lemma part_nodup (cmd : NDRCommand) (l : ℕ) (D : Option (Fin 3)) : (part cmd l D).Nodup := by
  cases D with
  | none =>
    simp only [part]
    split
    · exact sweep_nodup _ (dimensions_nodup _)
    · exact List.nodup_nil
  | some D =>
    simp only [part]
    split
    · refine List.Nodup.map ?_ (sweep_nodup _ (dimensions_nodup _))
      intro k k' h
      funext i
      have hi := congrFun h i
      by_cases hiD : i = D
      · subst hiD
        simpa using hi
      · simpa [Function.update_of_ne hiD] using hi
    · exact List.nodup_nil

/-- The parts of the cores make up the range. -/
lemma flatMap_part {cmd : NDRCommand} (hv : NDRCommand.Valid cmd) {D : Option (Fin 3)}
    (hD : ∀ d, D = some d → d ∈ dimensions cmd.config.numDims) :
    (((List.range cmd.numCores).flatMap fun l => part cmd l D : List Vec3) : Multiset Vec3) =
      (Fintype.piFinset fun i => Finset.range (numWorkgroups cmd.config i)).val := by
  have hnd : ((List.range cmd.numCores).flatMap fun l => part cmd l D).Nodup := by
    refine List.nodup_flatMap.mpr ⟨fun l _ => part_nodup cmd l _, ?_⟩
    refine List.Nodup.pairwise_of_forall_ne List.nodup_range ?_
    intro l hl m hm hne
    rw [List.mem_range] at hl hm
    intro k hk hk'
    cases D with
    | none =>
      rw [mem_part_none hv] at hk hk'
      exact hne (hk.2.trans hk'.2.symm)
    | some D =>
      have hDmem := hD D rfl
      rw [mem_part_some hv hl hDmem] at hk
      rw [mem_part_some hv hm hDmem] at hk'
      exact hne (part_unique hk.2.1 hk.2.2 hk'.2.1 hk'.2.2)
  refine (Multiset.Nodup.ext (Multiset.coe_nodup.mpr hnd) (Finset.nodup _)).mpr fun k => ?_
  rw [Multiset.mem_coe, List.mem_flatMap, Finset.mem_val, Fintype.mem_piFinset]
  simp only [List.mem_range, Finset.mem_range]
  constructor
  · rintro ⟨l, hl, hk⟩
    cases D with
    | none =>
      rw [mem_part_none hv] at hk
      exact hk.1
    | some D =>
      rw [mem_part_some hv hl (hD D rfl)] at hk
      exact hk.1
  · intro hk
    cases D with
    | none => exact ⟨0, hv.cores_pos, (mem_part_none hv).mpr ⟨hk, rfl⟩⟩
    | some D =>
      obtain ⟨l, hl, hlo, hhi⟩ := exists_part hv.cores_pos (hk D)
      exact ⟨l, hl, (mem_part_some hv hl (hD D rfl)).mpr ⟨hk, hlo, hhi⟩⟩

/-! ### All cores -/

/-- Moving the offset of a core and moving its coordinates is the same. -/
lemma gidStartOf_update (offset lsz k : Vec3) (D : Fin 3) (start : ℕ) :
    gidStartOf (Function.update offset D ((offset D + start * lsz D) % 2 ^ 32)) lsz k =
      gidStartOf offset lsz (Function.update k D (k D + start)) := by
  funext i
  by_cases hi : i = D
  · subst hi
    simp only [gidStartOf, Function.update_self]
    rw [Nat.mod_add_mod, Nat.add_mul]
    congr 1
    omega
  · simp only [gidStartOf, Function.update_of_ne hi]

/-- The workgroups of the core with logical number `l`, if the range is split in the given dimension. -/
def workgroupsOf (cmd : NDRCommand) (l : ℕ) (D : Option (Fin 3)) : List Workgroup :=
  numbered (firstWorkgroup cmd.config (chunk cmd l D).2.2)
    ((part cmd l D).map (gidStartOf cmd.config.globalOffset cmd.config.localSize))

/-- The core with logical number `l` ends.  It starts the workgroups of its part in order, all of them if
all those that it starts return. -/
lemma processKernelCommand_part {cmd : NDRCommand} (hv : NDRCommand.Valid cmd)
    (hnormal : cmd.config.WGGidStart dim0 ≠ debugModeWGGidStart) {l : ℕ}
    (hl : l < cmd.numCores) (returns : Workgroup → Bool) :
    ∃ runs : List Workgroup, (∃ fuel₀, ∀ fuel, fuel₀ ≤ fuel →
      processKernelCommand cmd (cmd.masterCore + l) returns fuel = some runs) ∧
      runs <+: workgroupsOf cmd l (splitDimension cmd) ∧
      ((∀ wg ∈ runs, returns wg) → runs = workgroupsOf cmd l (splitDimension cmd)) := by
  simp only [processKernelCommand, if_neg hnormal, setupNdrChunks_eq hv hl, workgroupsOf]
  cases hD : splitDimension cmd with
  | none =>
    by_cases hzero : l = 0
    · simp only [chunk, part, hzero, decide_true, if_true]
      exact workgroupLoop_sweep _ hv.dims_pos hv.global_eq hv.global_lt hv.local_pos
        hv.numWorkgroups_pos returns (firstWorkgroup_lt _ _)
    · simp only [chunk, part, hzero, decide_false, if_false]
      exact ⟨[], ⟨0, fun _ _ => rfl⟩, List.nil_prefix, fun _ => rfl⟩
  | some D =>
    obtain ⟨R, hR⟩ : ∃ R, R = numWorkgroups cmd.config D := ⟨_, rfl⟩
    by_cases hlR : l < R
    · have hpart := splitStart_add_part_le R hl
      have hpos := (part_pos_iff hl).mpr hlR
      simp only [chunk, part, ← hR, hlR, decide_true, if_true]
      generalize hc : R / cmd.numCores + (if l < R % cmd.numCores then 1 else 0) = c at hpart hpos ⊢
      have hmax : ∀ i, Function.update cmd.config.globalSize D (c * cmd.config.localSize D) i =
          Function.update (numWorkgroups cmd.config) D c i * cmd.config.localSize i := by
        intro i
        by_cases hi : i = D
        · subst hi
          simp
        · rw [Function.update_of_ne hi, Function.update_of_ne hi, hv.global_eq i]
      have hlt : ∀ i, Function.update cmd.config.globalSize D (c * cmd.config.localSize D) i <
          2 ^ 32 := by
        intro i
        by_cases hi : i = D
        · subst hi
          rw [Function.update_self]
          have hle : c * cmd.config.localSize i ≤ R * cmd.config.localSize i :=
            Nat.mul_le_mul_right _ (by omega)
          rw [hR, ← hv.global_eq i] at hle
          exact hle.trans_lt (hv.global_lt i)
        · rw [Function.update_of_ne hi]
          exact hv.global_lt i
      have hr : ∀ i, 0 < Function.update (numWorkgroups cmd.config) D c i := by
        intro i
        by_cases hi : i = D
        · subst hi
          rwa [Function.update_self]
        · rw [Function.update_of_ne hi]
          exact hv.numWorkgroups_pos i
      have hgids : ∀ ks : List Vec3, (ks.map fun k =>
          Function.update k D (k D + splitStart R cmd.numCores l)).map
            (gidStartOf cmd.config.globalOffset cmd.config.localSize) =
          ks.map (gidStartOf (Function.update cmd.config.globalOffset D
            ((cmd.config.globalOffset D + splitStart R cmd.numCores l * cmd.config.localSize D) %
              2 ^ 32)) cmd.config.localSize) := by
        intro ks
        rw [List.map_map]
        exact List.map_congr_left fun k _ => (gidStartOf_update _ _ k D _).symm
      rw [hgids]
      exact workgroupLoop_sweep _ hv.dims_pos hmax hlt hv.local_pos hr returns (firstWorkgroup_lt _ _)
    · simp only [chunk, part, ← hR, hlR, decide_false, if_false]
      exact ⟨[], ⟨0, fun _ _ => rfl⟩, List.nil_prefix, fun _ => rfl⟩

/-- The workgroups of all cores in normal mode. -/
lemma processKernelCommand_normal {cmd : NDRCommand} (hv : NDRCommand.Valid cmd)
    (hnormal : cmd.config.WGGidStart dim0 ≠ debugModeWGGidStart)
    (returns : ℕ → Workgroup → Bool) :
    ∃ runs : ℕ → List Workgroup,
      (∀ l < cmd.numCores, ∃ fuel₀, ∀ fuel, fuel₀ ≤ fuel →
        processKernelCommand cmd (cmd.masterCore + l) (returns l) fuel = some (runs l)) ∧
      ((∀ l < cmd.numCores, ∀ wg ∈ runs l, returns l wg) →
        ((((List.range cmd.numCores).flatMap runs).map Workgroup.gidStart : List Vec3) :
          Multiset Vec3) =
        (Fintype.piFinset fun i => Finset.range (numWorkgroups cmd.config i)).val.map
          (gidStartOf cmd.config.globalOffset cmd.config.localSize)) := by
  have hcore : ∀ l, ∃ runs : List Workgroup, l < cmd.numCores → (∃ fuel₀, ∀ fuel, fuel₀ ≤ fuel →
      processKernelCommand cmd (cmd.masterCore + l) (returns l) fuel = some runs) ∧
      runs <+: workgroupsOf cmd l (splitDimension cmd) ∧
      ((∀ wg ∈ runs, returns l wg) → runs = workgroupsOf cmd l (splitDimension cmd)) := by
    intro l
    by_cases hl : l < cmd.numCores
    · obtain ⟨runs, hruns⟩ := processKernelCommand_part hv hnormal hl (returns l)
      exact ⟨runs, fun _ => hruns⟩
    · exact ⟨[], fun h => absurd h hl⟩
  choose runs hruns using hcore
  refine ⟨runs, fun l hl => (hruns l hl).1, fun hall => ?_⟩
  have hlist : ((List.range cmd.numCores).flatMap runs).map Workgroup.gidStart =
      ((List.range cmd.numCores).flatMap fun l => part cmd l (splitDimension cmd)).map
        (gidStartOf cmd.config.globalOffset cmd.config.localSize) := by
    rw [List.map_flatMap, List.map_flatMap]
    refine List.flatMap_congr fun l hl => ?_
    rw [List.mem_range] at hl
    rw [(hruns l hl).2.2 (hall l hl), workgroupsOf, map_gidStart_numbered]
  rw [hlist, ← Multiset.map_coe, flatMap_part hv fun d => splitDimension_mem]

/-- In debug mode the master starts every workgroup of the range. -/
lemma processKernelCommand_debug {cmd : NDRCommand} (hv : NDRCommand.Valid cmd)
    (hdebug : cmd.config.WGGidStart dim0 = debugModeWGGidStart) (returns : Workgroup → Bool) :
    ∃ runs : List Workgroup,
      (∃ fuel₀, ∀ fuel, fuel₀ ≤ fuel →
        processKernelCommand cmd cmd.masterCore returns fuel = some runs) ∧
      ((∀ wg ∈ runs, returns wg) →
        ((runs.map Workgroup.gidStart : List Vec3) : Multiset Vec3) =
        (Fintype.piFinset fun i => Finset.range (numWorkgroups cmd.config i)).val.map
          (gidStartOf cmd.config.globalOffset cmd.config.localSize)) := by
  obtain ⟨runs, hruns, -, hmap⟩ := workgroupLoop_sweep cmd.config.globalOffset hv.dims_pos
    hv.global_eq hv.global_lt hv.local_pos hv.numWorkgroups_pos returns
    (firstWorkgroup_lt cmd.config cmd.config.globalOffset)
  refine ⟨runs, ?_, fun hall => ?_⟩
  · simpa only [processKernelCommand, if_pos hdebug, if_true] using hruns
  · rw [hmap hall, map_gidStart_numbered, ← Multiset.map_coe, coe_sweep hv]

/-- The cores of a well-formed NDRange command in normal mode each end, and when no workgroup they
start terminates abnormally, the first global ids of these workgroups are those of the range, each
once. -/
theorem workgroups_cover_ndrange (cmd : NDRCommand) (hwf : NDRCommand.WellFormed cmd)
    (hpos : ∀ i, 1 ≤ cmd.config.globalSize i)
    (hnormal : cmd.config.WGGidStart dim0 ≠ debugModeWGGidStart)
    (returns : ℕ → Workgroup → Bool) :
    ∃ runs : ℕ → List Workgroup,
      (∀ l < cmd.numCores, ∃ fuel₀, ∀ fuel, fuel₀ ≤ fuel →
        processKernelCommand cmd (cmd.masterCore + l) (returns l) fuel = some (runs l)) ∧
      ((∀ l < cmd.numCores, ∀ wg ∈ runs l, returns l wg) →
        ((((List.range cmd.numCores).flatMap runs).map Workgroup.gidStart : List Vec3) :
          Multiset Vec3) =
        (Fintype.piFinset fun i =>
          Finset.range (cmd.config.globalSize i / cmd.config.localSize i)).val.map fun k i =>
            (cmd.config.globalOffset i + k i * cmd.config.localSize i) % 2 ^ 32) :=
  processKernelCommand_normal ⟨hwf, hpos⟩ hnormal returns

/-- A two-dimensional range with an offset that wraps around, on three cores. -/
def sampleNDRange : NDRCommand where
  config := ⟨2, ![12, 6, 1], ![3, 2, 1], ![5, 4294967295, 0], ![0, 0, 0]⟩
  numCores := 3
  masterCore := 2

/-- The sample range is valid, so its three cores start its workgroups once each. -/
theorem workgroups_cover_sampleNDRange : NDRCommand.WellFormed sampleNDRange ∧
    ∃ runs : ℕ → List Workgroup, (((List.range 3).flatMap runs).map Workgroup.gidStart :
      Multiset Vec3) = (Fintype.piFinset fun i => Finset.range
        (sampleNDRange.config.globalSize i / sampleNDRange.config.localSize i)).val.map
          fun k i => (sampleNDRange.config.globalOffset i +
            k i * sampleNDRange.config.localSize i) % 2 ^ 32 := by
  have hwf : NDRCommand.WellFormed sampleNDRange := by
    constructor <;> decide
  obtain ⟨runs, -, hcover⟩ :=
    workgroups_cover_ndrange sampleNDRange hwf (by decide) (by decide) fun _ _ => true
  exact ⟨hwf, runs, hcover fun _ _ _ _ => rfl⟩

/-- A range with no work items at all, on one core. -/
def emptyNDRange : NDRCommand where
  config := ⟨1, ![0, 1, 1], ![1, 1, 1], ![0, 0, 0], ![0, 0, 0]⟩
  numCores := 1
  masterCore := 0

/-- The loop tests its condition after the body, so a range without work items starts a workgroup
although it has none. -/
theorem emptyNDRange_not_covered : NDRCommand.WellFormed emptyNDRange ∧
    emptyNDRange.config.WGGidStart dim0 ≠ debugModeWGGidStart ∧ ∃ runs : List Workgroup,
      (∀ fuel, 1 ≤ fuel → processKernelCommand emptyNDRange 0 (fun _ => true) fuel = some runs) ∧
      ((runs.map Workgroup.gidStart : List Vec3) : Multiset Vec3) ≠
        (Fintype.piFinset fun i => Finset.range (emptyNDRange.config.globalSize i /
          emptyNDRange.config.localSize i)).val.map fun k i =>
            (emptyNDRange.config.globalOffset i + k i * emptyNDRange.config.localSize i) %
              2 ^ 32 := by
  refine ⟨by constructor <;> decide, by decide, [⟨fun _ => 0, 0⟩], fun fuel hfuel => ?_, fun heq => ?_⟩
  · obtain ⟨fuel, rfl⟩ : ∃ f, fuel = f + 1 := ⟨fuel - 1, by omega⟩
    have hgid : (fun i => wadd 32 (emptyNDRange.config.globalOffset i) 0) = fun _ => 0 := by decide
    simp only [processKernelCommand, setupNdrChunks, workgroupLoop]
    rw [show emptyNDRange.numCores = 1 from rfl, if_neg (by decide)]
    simp only [if_true, hgid]
    rfl
  · have hmem : (fun _ => 0 : Vec3) ∈ (([fun _ => 0] : List Vec3) : Multiset Vec3) := by simp
    rw [List.map_singleton] at heq
    rw [heq] at hmem
    obtain ⟨k, hk, -⟩ := Multiset.mem_map.mp hmem
    have hzero := Fintype.mem_piFinset.mp (Finset.mem_val.mp hk) (0 : Fin 3)
    simp [emptyNDRange] at hzero

end Monitor

end TiOpenCL
