import Mathlib.Algebra.BigOperators.Fin
import Mathlib.Algebra.Order.BigOperators.Ring.Finset
import Mathlib.Data.List.Flatten
import TiOpenCL.Monitor.Coverage

/-!
# Flattened workgroup ids

A core numbers the workgroups it starts from the row-major index of its first one.  As the range is split in
the outermost dimension with more than one workgroup, the part of a core is an interval of row-major indices,
so the number of each workgroup is its row-major index, on every core (`workgroup_ids`).
-/

namespace TiOpenCL

namespace Monitor

open Odometer

/-- The row-major index of the workgroup with the first global id `gid`. -/
def workgroupIndex (cfg : KernelConfig) (gid : Vec3) : ℕ :=
  ∑ i, wsub 32 (gid i) (cfg.globalOffset i) / cfg.localSize i *
    ∏ j ∈ Finset.univ.filter (· < i), numWorkgroups cfg j

/-- The row-major index of the workgroup with the given coordinates. -/
def rowMajor (cfg : KernelConfig) (k : Vec3) : ℕ := value (numWorkgroups cfg) (List.finRange 3) k

/-- The index as a sum over the dimensions. -/
lemma rowMajor_eq (cfg : KernelConfig) (k : Vec3) :
    rowMajor cfg k = ∑ i, k i * ∏ j ∈ Finset.univ.filter (· < i), numWorkgroups cfg j := by
  have hlist : List.finRange 3 = [0, 1, 2] := by decide
  have h0 : Finset.univ.filter (· < (0 : Fin 3)) = ∅ := by decide
  have h1 : Finset.univ.filter (· < (1 : Fin 3)) = {0} := by decide
  have h2 : Finset.univ.filter (· < (2 : Fin 3)) = {0, 1} := by decide
  rw [Fin.sum_univ_three, h0, h1, h2, Finset.prod_empty, Finset.prod_singleton,
    Finset.prod_pair (by decide), rowMajor, hlist]
  simp only [value]
  ring

/-- The number of workgroups of the range. -/
lemma size_finRange (cfg : KernelConfig) :
    size (numWorkgroups cfg) (List.finRange 3) = ∏ i, numWorkgroups cfg i := by
  rw [size, Fin.prod_univ_def]

/-- Indices are below the number of workgroups. -/
lemma rowMajor_lt {cfg : KernelConfig} {k : Vec3} (hk : ∀ i, k i < numWorkgroups cfg i) :
    rowMajor cfg k < ∏ i, numWorkgroups cfg i := by
  rw [← size_finRange]
  exact value_lt fun i _ => hk i

/-- The number of the first workgroup of a core is the index of its coordinates, in 32 bits. -/
lemma firstWorkgroup_eq (cfg : KernelConfig) (offsets : Vec3) :
    firstWorkgroup cfg offsets =
      rowMajor cfg (fun i => wsub 32 (offsets i) (cfg.globalOffset i) / cfg.localSize i) % 2 ^ 32 := by
  have hlist : List.finRange 3 = [0, 1, 2] := by decide
  rw [rowMajor, hlist]
  simp only [value, firstWorkgroup, wadd, wmul, Nat.mod_mul_mod, Nat.mod_add_mod, Nat.add_mod_mod]
  congr 1
  simp only [numWorkgroups]
  ring

/-- The other dimensions are not in use. -/
lemma not_mem_dimensions_of_mem_drop {dims : ℕ} {i : Fin 3} (hi : i ∈ (List.finRange 3).drop dims) :
    i ∉ dimensions dims := by
  have hnd : (List.finRange 3).Nodup := List.nodup_finRange 3
  rw [← List.take_append_drop dims (List.finRange 3), List.nodup_append] at hnd
  exact fun hmem => hnd.2.2 i hmem i hi rfl

/-- Positions without digits do not count. -/
lemma rowMajor_eq_value {cfg : KernelConfig} {k : Vec3} (hk : ∀ i, i ∉ dimensions cfg.numDims → k i = 0) :
    rowMajor cfg k = value (numWorkgroups cfg) (dimensions cfg.numDims) k := by
  have hzero : value (numWorkgroups cfg) ((List.finRange 3).drop cfg.numDims) k = 0 :=
    value_eq_zero fun i hi => hk i (not_mem_dimensions_of_mem_drop hi)
  rw [rowMajor, ← List.take_append_drop cfg.numDims (List.finRange 3), value_append, hzero, Nat.mul_zero, Nat.add_zero, dimensions]

/-! ### The parts of the cores -/

/-- A coordinate is found again from the first global id. -/
lemma wsub_gidStartOf {cmd : NDRCommand} (hv : NDRCommand.Valid cmd) {k : Vec3} {i : Fin 3}
    (hk : k i < numWorkgroups cmd.config i) :
    wsub 32 (gidStartOf cmd.config.globalOffset cmd.config.localSize k i) (cmd.config.globalOffset i) /
      cmd.config.localSize i = k i := by
  have hoff := hv.offset_lt i
  have hmul : k i * cmd.config.localSize i < 2 ^ 32 := by
    have hle := Nat.mul_le_mul_right (cmd.config.localSize i) hk.le
    rw [← hv.global_eq i] at hle
    exact hle.trans_lt (hv.global_lt i)
  have hsub : wsub 32 (gidStartOf cmd.config.globalOffset cmd.config.localSize k i)
      (cmd.config.globalOffset i) = k i * cmd.config.localSize i := by
    simp only [gidStartOf, wsub]
    omega
  rw [hsub, Nat.mul_div_cancel _ (hv.local_pos i)]

/-- The row-major index of a workgroup of the range. -/
lemma workgroupIndex_gidStartOf {cmd : NDRCommand} (hv : NDRCommand.Valid cmd) {k : Vec3}
    (hk : ∀ i, k i < numWorkgroups cmd.config i) :
    workgroupIndex cmd.config (gidStartOf cmd.config.globalOffset cmd.config.localSize k) =
      rowMajor cmd.config k := by
  rw [rowMajor_eq, workgroupIndex]
  exact Finset.sum_congr rfl fun i _ => by rw [wsub_gidStartOf hv (hk i)]

/-- A dimension in use that has no dimension with several workgroups outside of it. -/
def Outermost (cmd : NDRCommand) (D : Option (Fin 3)) : Prop :=
  ∀ d, D = some d → d ∈ dimensions cmd.config.numDims ∧
    ∀ j ∈ dimensions cmd.config.numDims, d < j → numWorkgroups cmd.config j = 1

/-- The dimension that is split over the cores; in debug mode the master core has the whole range. -/
def modeDimension (cmd : NDRCommand) : Option (Fin 3) :=
  if cmd.config.WGGidStart dim0 = debugModeWGGidStart then none else splitDimension cmd

/-- A dimension has no more workgroups than the range. -/
lemma NDRCommand.Valid.numWorkgroups_le {cmd : NDRCommand} (hv : NDRCommand.Valid cmd) (i : Fin 3) :
    numWorkgroups cmd.config i ≤ ∏ j, numWorkgroups cmd.config j :=
  Nat.le_of_dvd (Finset.prod_pos fun j _ => hv.numWorkgroups_pos j)
    (Finset.dvd_prod_of_mem _ (Finset.mem_univ i))

/-- The dimensions are in order. -/
lemma dimensions_pairwise_lt (dims : ℕ) : (dimensions dims).Pairwise (· < ·) :=
  (List.pairwise_lt_finRange 3).sublist (List.take_sublist _ _)

/-- The dimension that is split is the outermost one with several workgroups. -/
lemma outermost_splitDimension {cmd : NDRCommand} (hv : NDRCommand.Valid cmd)
    (htotal : ∏ i, numWorkgroups cmd.config i < 2 ^ 31) : Outermost cmd (splitDimension cmd) := by
  intro d hd
  refine ⟨splitDimension_mem hd, fun j hj hlt => ?_⟩
  have hnot : ¬ 1 < sint 32 (numWorkgroups cmd.config j) := by
    rw [splitDimension] at hd
    split at hd
    · cases hd
    · obtain ⟨-, outer, inner, hsplit, houter⟩ := List.find?_eq_some_iff_append.mp hd
      have hpair : (outer ++ d :: inner).Pairwise fun a b => b < a := by
        rw [← hsplit, List.pairwise_reverse]
        exact dimensions_pairwise_lt _
      have hmem : j ∈ outer ++ d :: inner := by
        rw [← hsplit]
        exact List.mem_reverse.mpr hj
      rcases List.mem_append.mp hmem with hout | hin
      · simpa [numWorkgroups] using houter j hout
      · rcases List.mem_cons.mp hin with rfl | hin
        · exact absurd hlt (lt_irrefl _)
        · have hgt := (List.pairwise_cons.mp (List.pairwise_append.mp hpair).2.1).1 j hin
          exact absurd hlt hgt.asymm
  have hle := hv.numWorkgroups_le j
  have hpos := hv.numWorkgroups_pos j
  rw [sint_of_lt (by omega) (by omega)] at hnot
  omega

/-- The dimension that is split is the outermost one with several workgroups, in both modes. -/
lemma outermost_modeDimension {cmd : NDRCommand} (hv : NDRCommand.Valid cmd)
    (htotal : ∏ i, numWorkgroups cmd.config i < 2 ^ 31) : Outermost cmd (modeDimension cmd) := by
  rw [modeDimension]
  split
  · intro d hd
    cases hd
  · exact outermost_splitDimension hv htotal

/-- The workgroups of a core are workgroups of the range. -/
lemma lt_of_mem_part {cmd : NDRCommand} (hv : NDRCommand.Valid cmd) {D : Option (Fin 3)}
    (hD : Outermost cmd D) {l : ℕ} (hl : l < cmd.numCores) {k : Vec3} (hk : k ∈ part cmd l D) :
    ∀ i, k i < numWorkgroups cmd.config i := by
  cases D with
  | none => exact ((mem_part_none hv).mp hk).1
  | some D => exact ((mem_part_some hv hl (hD D rfl).1).mp hk).1

/-- The states of a core count the workgroups, as all its radices but those of the dimension that is split
and of dimensions with one workgroup are those of the range. -/
lemma rowMajor_digits {cmd : NDRCommand} {D : Fin 3} (hD : Outermost cmd (some D)) {c m : ℕ}
    (hm : m < size (Function.update (numWorkgroups cmd.config) D c) (dimensions cmd.config.numDims)) :
    rowMajor cmd.config (digits (Function.update (numWorkgroups cmd.config) D c)
      (dimensions cmd.config.numDims) m) = m := by
  obtain ⟨hmem, houter⟩ := hD D rfl
  set r := Function.update (numWorkgroups cmd.config) D c with hr
  have hradix : ∀ i ∈ dimensions cmd.config.numDims, 0 < r i := by
    intro i hi
    by_contra hzero
    have hsize : size r (dimensions cmd.config.numDims) = 0 :=
      List.prod_eq_zero (List.mem_map.mpr ⟨i, hi, by omega⟩)
    omega
  rw [rowMajor_eq_value fun i hi => digits_of_not_mem r hi m]
  suffices hpair : (dimensions cmd.config.numDims).Pairwise fun i j =>
      numWorkgroups cmd.config i = r i ∨ digits r (dimensions cmd.config.numDims) m j = 0 by
    rw [value_congr_radices hpair, value_digits (dimensions_nodup _) hm]
  refine (dimensions_pairwise_lt _).imp_of_mem fun {i j} hi hj hlt => ?_
  by_cases hiD : i = D
  · subst hiD
    have hone := digits_lt hradix hj m
    have hrj : r j = 1 := by rw [hr, Function.update_of_ne (ne_of_gt hlt), houter j hj hlt]
    exact Or.inr (by omega)
  · have hri : r i = numWorkgroups cmd.config i := by rw [hr, Function.update_of_ne hiD]
    exact Or.inl hri.symm

/-- The coordinates that a core starts from, and those of its part relative to these. -/
lemma part_cases {cmd : NDRCommand} (hv : NDRCommand.Valid cmd) {D : Option (Fin 3)}
    (hD : Outermost cmd D) {l : ℕ} (hl : l < cmd.numCores) :
    part cmd l D = [] ∨ ∃ (start : Vec3) (states : List Vec3),
      (chunk cmd l D).2.2 = gidStartOf cmd.config.globalOffset cmd.config.localSize start ∧
      (∀ i, start i < numWorkgroups cmd.config i) ∧
      part cmd l D = states.map (fun k i => k i + start i) ∧
      ∀ m (hm : m < states.length), rowMajor cmd.config states[m] = m := by
  cases D with
  | none =>
    by_cases hzero : l = 0
    · refine Or.inr ⟨fun _ => 0, sweep (numWorkgroups cmd.config) (dimensions cmd.config.numDims), ?_,
        hv.numWorkgroups_pos, ?_, ?_⟩
      · funext i
        simp only [chunk, gidStartOf, Nat.zero_mul, Nat.add_zero, Nat.mod_eq_of_lt (hv.offset_lt i)]
      · simp only [part, hzero, if_true, Nat.add_zero, List.map_id']
      · intro m hm
        simp only [sweep, List.length_map, List.length_range] at hm
        simp only [sweep, List.getElem_map, List.getElem_range]
        rw [rowMajor_eq_value fun i hi => digits_of_not_mem _ hi m, value_digits (dimensions_nodup _) hm]
    · exact Or.inl (by simp only [part, hzero, if_false])
  | some D =>
    obtain ⟨R, hR⟩ : ∃ R, R = numWorkgroups cmd.config D := ⟨_, rfl⟩
    by_cases hlR : l < R
    · have hpart := splitStart_add_part_le R hl
      have hpos := (part_pos_iff hl).mpr hlR
      refine Or.inr ⟨Function.update (fun _ => 0) D (splitStart R cmd.numCores l), sweep (Function.update
        (numWorkgroups cmd.config) D (R / cmd.numCores + if l < R % cmd.numCores then 1 else 0))
        (dimensions cmd.config.numDims), ?_, ?_, ?_, ?_⟩
      · funext i
        simp only [chunk, ← hR, gidStartOf]
        by_cases hi : i = D
        · subst hi
          simp only [Function.update_self]
        · simp only [Function.update_of_ne hi, Nat.zero_mul, Nat.add_zero,
            Nat.mod_eq_of_lt (hv.offset_lt i)]
      · intro i
        by_cases hi : i = D
        · subst hi
          rw [Function.update_self, ← hR]
          omega
        · rw [Function.update_of_ne hi]
          exact hv.numWorkgroups_pos i
      · simp only [part, ← hR, hlR, if_true]
        refine List.map_congr_left fun k _ => ?_
        funext i
        by_cases hi : i = D
        · subst hi
          simp only [Function.update_self]
        · simp only [Function.update_of_ne hi, Nat.add_zero]
      · intro m hm
        simp only [sweep, List.length_map, List.length_range] at hm
        simp only [sweep, List.getElem_map, List.getElem_range]
        exact rowMajor_digits hD hm
    · exact Or.inl (by simp only [part, ← hR, hlR, if_false])

/-- The workgroups of a core are numbered by their row-major indices. -/
lemma workgroupsOf_eq {cmd : NDRCommand} (hv : NDRCommand.Valid cmd) {D : Option (Fin 3)}
    (hD : Outermost cmd D) (htotal : ∏ i, numWorkgroups cmd.config i < 2 ^ 31) {l : ℕ}
    (hl : l < cmd.numCores) :
    workgroupsOf cmd l D = (part cmd l D).map fun k =>
      ⟨gidStartOf cmd.config.globalOffset cmd.config.localSize k, rowMajor cmd.config k⟩ := by
  rcases part_cases hv hD hl with hnil | ⟨start, states, hoffsets, hstart, hpart, hindex⟩
  · rw [workgroupsOf, hnil]
    rfl
  have hfirst : firstWorkgroup cmd.config (chunk cmd l D).2.2 = rowMajor cmd.config start % 2 ^ 32 := by
    rw [firstWorkgroup_eq, hoffsets]
    congr 2
    funext i
    exact wsub_gidStartOf hv (hstart i)
  rw [workgroupsOf, numbered, hfirst]
  refine List.ext_getElem (by simp) fun m hm _ => ?_
  have hm' : m < (part cmd l D).length := by simpa using hm
  have hlt := lt_of_mem_part hv hD hl (List.getElem_mem hm')
  have hindex' : rowMajor cmd.config (part cmd l D)[m] = m + rowMajor cmd.config start := by
    have hms : m < states.length := by simpa [hpart] using hm'
    have hget : (part cmd l D)[m] = fun i => states[m] i + start i := by simp [hpart]
    rw [hget, rowMajor, value_add]
    exact congrArg (· + rowMajor cmd.config start) (hindex m hms)
  have hbound := rowMajor_lt hlt
  rw [List.getElem_mapIdx, List.getElem_map, List.getElem_map, hindex']
  congr 1
  omega

/-! ### All cores -/

/-- A core ends, and starts the workgroups that it has with the dimension that is split in its mode: none in
debug mode, where the master core runs the whole range. -/
lemma processKernelCommand_started {cmd : NDRCommand} (hv : NDRCommand.Valid cmd) {l : ℕ}
    (hl : l < cmd.numCores) (returns : Workgroup → Bool) :
    ∃ runs : List Workgroup, (∃ fuel₀, ∀ fuel, fuel₀ ≤ fuel →
      processKernelCommand cmd (cmd.masterCore + l) returns fuel = some runs) ∧
      runs <+: workgroupsOf cmd l (modeDimension cmd) ∧
      ((∀ wg ∈ runs, returns wg) → runs = workgroupsOf cmd l (modeDimension cmd)) := by
  rw [modeDimension]
  split_ifs with hdebug
  · by_cases hzero : l = 0
    · simp only [processKernelCommand, if_pos hdebug, hzero, Nat.add_zero, if_true, workgroupsOf, chunk, part]
      exact workgroupLoop_sweep _ hv.dims_pos hv.global_eq hv.global_lt hv.local_pos
        hv.numWorkgroups_pos returns (firstWorkgroup_lt _ _)
    · have hne : ¬ cmd.masterCore + l = cmd.masterCore := by omega
      refine ⟨[], ⟨0, fun _ _ => ?_⟩, List.nil_prefix, fun _ => ?_⟩
      · simp only [processKernelCommand, if_pos hdebug, if_neg hne]
      · simp only [workgroupsOf, part, hzero, if_false]
        rfl
  · exact processKernelCommand_part hv hdebug hl returns

/-- The indices of the range, one core after the other. -/
lemma map_rowMajor_part {cmd : NDRCommand} (hv : NDRCommand.Valid cmd) {D : Option (Fin 3)}
    (hD : Outermost cmd D) :
    (((List.range cmd.numCores).flatMap fun l => part cmd l D).map (rowMajor cmd.config)).Perm
      (List.range (∏ i, numWorkgroups cmd.config i)) := by
  have hsweep : (sweep (numWorkgroups cmd.config) (dimensions cmd.config.numDims)).map
      (rowMajor cmd.config) = List.range (size (numWorkgroups cmd.config) (dimensions cmd.config.numDims)) := by
    rw [sweep, List.map_map]
    conv_rhs => rw [← List.map_id (List.range _)]
    refine List.map_congr_left fun n hn => ?_
    rw [Function.comp_apply, rowMajor_eq_value fun i hi => digits_of_not_mem _ hi n,
      value_digits (dimensions_nodup _) (List.mem_range.mp hn), id]
  have hsize : size (numWorkgroups cmd.config) (dimensions cmd.config.numDims) =
      ∏ i, numWorkgroups cmd.config i := by
    have hrest : (((List.finRange 3).drop cmd.config.numDims).map (numWorkgroups cmd.config)).prod = 1 := by
      refine List.prod_eq_one fun a ha => ?_
      obtain ⟨i, hi, rfl⟩ := List.mem_map.mp ha
      exact hv.numWorkgroups_unused (not_mem_dimensions_of_mem_drop hi)
    rw [← size_finRange, size, size, ← List.take_append_drop cmd.config.numDims (List.finRange 3),
      List.map_append, List.prod_append, hrest, Nat.mul_one, dimensions]
  have hperm := Multiset.coe_eq_coe.mp ((flatMap_part hv fun d hd => (hD d hd).1).trans (coe_sweep hv).symm)
  rw [← hsize, ← hsweep]
  exact hperm.map _

/-- Every core numbers the workgroups that it starts by their row-major indices, so no two workgroups of the
range have the same number, and if all return, the numbers are those below the number of workgroups. -/
theorem workgroup_ids (cmd : NDRCommand) (hwf : NDRCommand.WellFormed cmd)
    (hpos : ∀ i, 1 ≤ cmd.config.globalSize i) (htotal : ∏ i, numWorkgroups cmd.config i < 2 ^ 31)
    (returns : ℕ → Workgroup → Bool) :
    ∃ runs : ℕ → List Workgroup,
      (∀ l < cmd.numCores, ∃ fuel₀, ∀ fuel, fuel₀ ≤ fuel →
        processKernelCommand cmd (cmd.masterCore + l) (returns l) fuel = some (runs l)) ∧
      (∀ l < cmd.numCores, ∀ wg ∈ runs l, wg.id = workgroupIndex cmd.config wg.gidStart) ∧
      (((List.range cmd.numCores).flatMap runs).map Workgroup.id).Nodup ∧
      ((∀ l < cmd.numCores, ∀ wg ∈ runs l, returns l wg) →
        (((List.range cmd.numCores).flatMap runs).map Workgroup.id).Perm
          (List.range (∏ i, numWorkgroups cmd.config i))) := by
  have hv : NDRCommand.Valid cmd := ⟨hwf, hpos⟩
  have hD := outermost_modeDimension hv htotal
  have hcore : ∀ l, ∃ runs : List Workgroup, l < cmd.numCores → (∃ fuel₀, ∀ fuel, fuel₀ ≤ fuel →
      processKernelCommand cmd (cmd.masterCore + l) (returns l) fuel = some runs) ∧
      runs <+: workgroupsOf cmd l (modeDimension cmd) ∧
      ((∀ wg ∈ runs, returns l wg) → runs = workgroupsOf cmd l (modeDimension cmd)) := by
    intro l
    by_cases hl : l < cmd.numCores
    · obtain ⟨runs, hruns⟩ := processKernelCommand_started hv hl (returns l)
      exact ⟨runs, fun _ => hruns⟩
    · exact ⟨[], fun h => absurd h hl⟩
  choose runs hruns using hcore
  have hids : ((List.range cmd.numCores).flatMap fun l => workgroupsOf cmd l (modeDimension cmd)).map
      Workgroup.id = ((List.range cmd.numCores).flatMap fun l => part cmd l (modeDimension cmd)).map
        (rowMajor cmd.config) := by
    rw [List.map_flatMap, List.map_flatMap]
    refine List.flatMap_congr fun l hl => ?_
    rw [workgroupsOf_eq hv hD htotal (List.mem_range.mp hl), List.map_map]
    rfl
  have hperm := map_rowMajor_part hv hD
  rw [← hids] at hperm
  refine ⟨runs, fun l hl => (hruns l hl).1, ?_, ?_, ?_⟩
  · intro l hl wg hwg
    have hmem := (hruns l hl).2.1.subset hwg
    rw [workgroupsOf_eq hv hD htotal hl] at hmem
    obtain ⟨k, hk, rfl⟩ := List.mem_map.mp hmem
    exact (workgroupIndex_gidStartOf hv (lt_of_mem_part hv hD hl hk)).symm
  · have hsub : ((List.range cmd.numCores).flatMap runs).Sublist
        ((List.range cmd.numCores).flatMap fun l => workgroupsOf cmd l (modeDimension cmd)) :=
      List.Sublist.flatMap_right _ fun l hl => (hruns l (List.mem_range.mp hl)).2.1.sublist
    exact (hperm.nodup_iff.mpr List.nodup_range).sublist (hsub.map _)
  · intro hall
    have hlist : (List.range cmd.numCores).flatMap runs =
        (List.range cmd.numCores).flatMap fun l => workgroupsOf cmd l (modeDimension cmd) :=
      List.flatMap_congr fun l hl => (hruns l (List.mem_range.mp hl)).2.2 (hall l (List.mem_range.mp hl))
    rw [hlist]
    exact hperm

/-- The three cores of the sample range number its twelve workgroups from zero on. -/
theorem workgroup_ids_sampleNDRange : ∃ runs : ℕ → List Workgroup,
    (∀ l < 3, ∀ wg ∈ runs l, wg.id = workgroupIndex sampleNDRange.config wg.gidStart) ∧
      (((List.range 3).flatMap runs).map Workgroup.id).Perm (List.range 12) := by
  have hwf : NDRCommand.WellFormed sampleNDRange := by
    constructor <;> decide
  have htotal : ∏ i, numWorkgroups sampleNDRange.config i = 12 := by decide
  obtain ⟨runs, -, hids, -, hcover⟩ :=
    workgroup_ids sampleNDRange hwf (by decide) (by rw [htotal]; decide) fun _ _ => true
  rw [htotal] at hcover
  exact ⟨runs, hids, hcover fun _ _ _ _ => rfl⟩

end Monitor

end TiOpenCL
