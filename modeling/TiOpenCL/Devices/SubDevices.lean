import Mathlib.Algebra.Order.BigOperators.Group.List
import Mathlib.Data.List.Perm.Subperm
import Mathlib.Data.List.SplitLengths
import TiOpenCL.Library.Words

/-!
# Partitions of a device

`clCreateSubDevices` takes compute units off the front of the sorted set of its parent.  Some of its
checks are made only if the caller asks for the number of sub-devices, none compares the counts of a
list with the room for results, and products are taken in 32 bits.  What a call can then do is to
divide by zero, to take a unit from an exhausted set, or to create sub-devices that were not asked for.
-/

namespace TiOpenCL

namespace SubDevices

/-- The compute units of a device, in order. -/
structure CoreSet where
  /-- The numbers of the units. -/
  units : List ℕ
  /-- A set has no duplicates and is sorted. -/
  sorted : units.Pairwise (· < ·)
  /-- The numbers are bytes. -/
  byte : ∀ u ∈ units, u < 256

/-- The partition types. -/
inductive PartitionType
  | equally
  | byCounts
  | byAffinityDomain
  | other
  deriving DecidableEq

/-- A zero-terminated list of properties: the type, and the entries before the terminator. -/
structure Properties where
  /-- `properties[0]`. -/
  type : PartitionType
  /-- `properties[1]` and those that follow. -/
  entries : List ℤ
  /-- The terminator is the first zero. -/
  nonzero : ∀ e ∈ entries, e ≠ 0

/-- `properties[1]`, which is the terminator if there is no entry. -/
def Properties.first (p : Properties) : ℤ := p.entries.headD 0

/-- The arguments of a call. -/
structure Request where
  /-- Is the object a device? -/
  isDevice : Bool
  /-- Is the device one that can be partitioned? -/
  isDsp : Bool
  /-- The compute units of the parent. -/
  parent : CoreSet
  /-- The properties; null is `none`. -/
  properties : Option Properties
  /-- The room for results. -/
  numDevices : Fin (2 ^ 32)
  /-- Is `out_devices` other than null? -/
  outDevices : Bool
  /-- Is `num_devices_ret` other than null? -/
  numDevicesRet : Bool

/-- The errors. -/
inductive Error
  | invalidDevice
  | invalidValue
  | invalidDevicePartitionCount
  deriving DecidableEq

/-- What a call does. -/
inductive Outcome
  /-- A division by zero. -/
  | divisionByZero
  /-- A unit is taken from an exhausted set. -/
  | exhausted
  /-- An error, before any sub-device is created. -/
  | error (e : Error)
  /-- Success, with the units of the sub-devices that are written. -/
  | success (created : List (List ℕ))
  deriving DecidableEq

/-! ### The call -/

/-- Take the first units off a set; `none` when it is exhausted. -/
def takeUnits : ℕ → List ℕ → Option (List ℕ × List ℕ)
  | 0, units => some ([], units)
  | _ + 1, [] => none
  | k + 1, u :: units => (takeUnits k units).map fun r => (u :: r.1, r.2)

/-- `CreateSubDevicesByCounts`. -/
def createSubDevicesByCounts : List ℤ → List ℕ → Option (List (List ℕ))
  | [], _ => some []
  | size :: sizes, units =>
    match takeUnits size.toNat units with
    | none => none
    | some (part, rest) => (createSubDevicesByCounts sizes rest).map (part :: ·)

/-- The sub-devices that are written, or a unit that is not there. -/
def Outcome.ofCreated : Option (List (List ℕ)) → Outcome
  | none => .exhausted
  | some created => .success created

/-- `GetPartitionUnitSizes` for a list of counts. -/
def getPartitionUnitSizes (entries : List ℤ) : Except Error (List ℤ) :=
  if ∃ e ∈ entries, sint 32 (uint 32 e) < 0 then .error .invalidDevicePartitionCount
  else .ok (entries.map fun e => sint 32 (uint 32 e))

/-- Do the counts exceed the units? -/
def countsExceed : List ℤ → ℤ → Bool
  | [], _ => false
  | size :: sizes, total => if size ≤ total then countsExceed sizes (total - size) else true

/-- The case `CL_DEVICE_PARTITION_EQUALLY`. -/
def partitionEqually (r : Request) (p : Properties) : Outcome :=
  let n := r.parent.units.length
  let size := uint 32 p.first
  if r.numDevicesRet ∧ size = 0 then .divisionByZero
  else if r.numDevicesRet ∧ (n % size ≠ 0 ∨ n ≤ size) then .error .invalidValue
  else if ¬ r.outDevices then .success []
  else if n < wmul 32 size r.numDevices then .error .invalidValue
  else if size = n ∧ r.numDevices = 1 then .error .invalidValue
  else
    .ofCreated (createSubDevicesByCounts
      (List.replicate r.numDevices (sint 32 (uint 32 p.first))) r.parent.units)

/-- The case `CL_DEVICE_PARTITION_BY_COUNTS`. -/
def partitionByCounts (r : Request) (p : Properties) : Outcome :=
  match getPartitionUnitSizes p.entries with
  | .error e => .error e
  | .ok sizes =>
    if r.numDevicesRet ∧ countsExceed sizes r.parent.units.length then
      .error .invalidDevicePartitionCount
    else if r.numDevicesRet ∧ sizes = [(r.parent.units.length : ℤ)] then
      .error .invalidDevicePartitionCount
    else if ¬ r.outDevices then .success []
    else .ofCreated (createSubDevicesByCounts sizes r.parent.units)

/-- `clCreateSubDevices`. -/
def clCreateSubDevices (r : Request) : Outcome :=
  if ¬ r.isDevice then .error .invalidDevice
  else
    match r.properties with
    | none => .error .invalidValue
    | some p =>
      if ¬ r.outDevices ∧ ¬ r.numDevicesRet then .error .invalidValue
      else if r.outDevices ∧ r.numDevices = 0 then .error .invalidValue
      else if ¬ r.isDsp then .error .invalidDevice
      else
        match p.type with
        | .equally => partitionEqually r p
        | .byCounts => partitionByCounts r p
        | .byAffinityDomain => .error .invalidValue
        | .other => .error .invalidValue

/-! ### What a call should do -/

/-- The sizes that are asked for. -/
def requested (r : Request) (p : Properties) : List ℤ :=
  match p.type with
  | .equally => List.replicate r.numDevices p.first
  | _ => p.entries

/-- The sub-devices are the ones that were asked for. -/
structure Partitioned (r : Request) (p : Properties) (created : List (List ℕ)) : Prop where
  /-- There is room for all of them. -/
  count : created.length ≤ r.numDevices
  /-- None is empty. -/
  nonempty : ∀ c ∈ created, c ≠ []
  /-- Their units are units of the parent. -/
  subset : ∀ c ∈ created, c ⊆ r.parent.units
  /-- No unit belongs to two of them. -/
  disjoint : created.Pairwise List.Disjoint
  /-- They have the sizes that were asked for. -/
  sizes : r.outDevices → created.map (fun c => (c.length : ℤ)) = requested r p
  /-- Their units are consecutive if those of the parent are. -/
  consecutive : ∀ a n, r.parent.units = List.range' a n →
    ∀ c ∈ created, ∃ b, c = List.range' b c.length

/-- A call fails without an effect, or creates the sub-devices that were asked for. -/
def Meets (r : Request) : Prop :=
  match clCreateSubDevices r with
  | .divisionByZero => False
  | .exhausted => False
  | .error _ => True
  | .success created => ∀ p, r.properties = some p → Partitioned r p created

/-- When a partition into equal parts does what it should: the size is not zero where it is divided
by, and for sub-devices that are created it is a positive number of 32 bits whose product with their
number is one too. -/
structure EquallyOk (r : Request) (p : Properties) : Prop where
  division : r.numDevicesRet → uint 32 p.first ≠ 0
  product : r.outDevices →
    (r.numDevicesRet → r.parent.units.length % uint 32 p.first = 0 ∧
      uint 32 p.first < r.parent.units.length) →
    wmul 32 (uint 32 p.first) r.numDevices ≤ r.parent.units.length →
    ¬ (uint 32 p.first = r.parent.units.length ∧ r.numDevices = 1) →
    0 < p.first ∧ p.first < 2 ^ 32 ∧ p.first * r.numDevices < 2 ^ 32

/-- When a partition by counts does what it should: for sub-devices that are created there is room for
all of them, the counts are positive numbers of an `int`, and there are enough units. -/
def CountsOk (r : Request) (p : Properties) : Prop :=
  r.outDevices → ∀ sizes, getPartitionUnitSizes p.entries = .ok sizes →
    (r.numDevicesRet → countsExceed sizes r.parent.units.length = false ∧
      sizes ≠ [(r.parent.units.length : ℤ)]) →
    p.entries.length ≤ r.numDevices ∧ (∀ e ∈ p.entries, 0 < e ∧ e < 2 ^ 31) ∧
      p.entries.sum ≤ r.parent.units.length

/-- The calls that get past the checks of the arguments. -/
structure Checked (r : Request) (p : Properties) : Prop where
  device : r.isDevice ∧ r.isDsp
  properties : r.properties = some p
  results : r.outDevices ∨ r.numDevicesRet
  room : r.outDevices → r.numDevices ≠ 0

/-! ### Taking units -/

/-- The first units of a set, if there are enough. -/
theorem takeUnits_eq (k : ℕ) (units : List ℕ) :
    takeUnits k units = if k ≤ units.length then some (units.take k, units.drop k) else none := by
  induction k generalizing units with
  | zero => simp [takeUnits]
  | succ k ih =>
    cases units with
    | nil => simp [takeUnits]
    | cons u units =>
      rw [takeUnits, ih, List.length_cons]
      by_cases hk : k ≤ units.length
      · rw [if_pos hk, if_pos (by omega)]
        rfl
      · rw [if_neg hk, if_neg (by omega)]
        rfl

/-- The sub-devices are the parts of the set of the given sizes, if there are enough units. -/
theorem createSubDevicesByCounts_eq (sizes : List ℤ) (units : List ℕ) :
    createSubDevicesByCounts sizes units =
      if (sizes.map Int.toNat).sum ≤ units.length then
        some ((sizes.map Int.toNat).splitLengths units)
      else none := by
  induction sizes generalizing units with
  | nil => simp [createSubDevicesByCounts]
  | cons size sizes ih =>
    rw [createSubDevicesByCounts, takeUnits_eq, List.map_cons, List.sum_cons]
    by_cases hsize : size.toNat ≤ units.length
    · rw [if_pos hsize]
      dsimp only
      rw [ih, List.length_drop]
      by_cases hrest : (sizes.map Int.toNat).sum ≤ units.length - size.toNat
      · rw [if_pos hrest, if_pos (by omega), List.splitLengths_cons]
        rfl
      · rw [if_neg hrest, if_neg (by omega)]
        rfl
    · rw [if_neg hsize, if_neg (by omega)]

/-- A part of a list is made of its elements. -/
theorem subset_of_mem_splitLengths {sizes : List ℕ} {l c : List ℕ} (h : c ∈ sizes.splitLengths l) :
    c ⊆ l := by
  induction sizes generalizing l with
  | nil => simp at h
  | cons k sizes ih =>
    rw [List.splitLengths_cons] at h
    rcases List.mem_cons.1 h with rfl | h
    · exact List.take_subset k l
    · exact List.Subset.trans (ih h) (List.drop_subset k l)

/-- The parts of a list without duplicates are disjoint. -/
theorem disjoint_splitLengths (sizes : List ℕ) {l : List ℕ} (hl : l.Nodup) :
    (sizes.splitLengths l).Pairwise List.Disjoint := by
  induction sizes generalizing l with
  | nil => simp
  | cons k sizes ih =>
    rw [List.splitLengths_cons]
    refine List.pairwise_cons.2 ⟨?_, ih (hl.sublist (List.drop_sublist k l))⟩
    intro c hc
    rw [← List.take_append_drop k l] at hl
    have hdisjoint := (List.nodup_append.1 hl).2.2
    exact fun x hx hxc => hdisjoint x hx x (subset_of_mem_splitLengths hc hxc) rfl

/-- The parts of consecutive numbers are consecutive. -/
theorem consecutive_of_mem_splitLengths {sizes : List ℕ} {a n : ℕ} {c : List ℕ}
    (h : c ∈ sizes.splitLengths (List.range' a n)) : ∃ b, c = List.range' b c.length := by
  induction sizes generalizing a n with
  | nil => simp at h
  | cons k sizes ih =>
    rw [List.splitLengths_cons] at h
    rcases List.mem_cons.1 h with rfl | h
    · by_cases hk : k ≤ n
      · rw [List.take_range'_of_length_ge hk, List.length_range']
        exact ⟨a, rfl⟩
      · rw [List.take_range'_of_length_le (by omega), List.length_range']
        exact ⟨a, rfl⟩
    · rw [List.drop_range'] at h
      exact ih h

/-- A set of compute units has no more than 256 of them. -/
theorem CoreSet.length_le (c : CoreSet) : c.units.length ≤ 256 := by
  have hnodup : c.units.Nodup := c.sorted.imp fun h => h.ne
  have hsubset : c.units ⊆ List.range 256 := fun u hu => List.mem_range.2 (c.byte u hu)
  have hle := (hnodup.subperm hsubset).length_le
  rwa [List.length_range] at hle

/-! ### What is created -/

/-- An outcome is one that a call should have. -/
def Outcome.Fine (r : Request) (p : Properties) : Outcome → Prop
  | .divisionByZero => False
  | .exhausted => False
  | .error _ => True
  | .success created => Partitioned r p created

/-- No sub-device is asked for. -/
theorem partitioned_nil {r : Request} (hout : r.outDevices = false) (p : Properties) :
    Partitioned r p [] where
  count := Nat.zero_le _
  nonempty := by simp
  subset := by simp
  disjoint := List.Pairwise.nil
  sizes := by simp [hout]
  consecutive := by simp

/-- The parts of the parent are what was asked for if and only if their sizes are positive, are the
ones that were asked for, and are not too many. -/
theorem partitioned_splitLengths_iff {r : Request} {p : Properties} (hout : r.outDevices = true)
    {sizes : List ℤ} (hsum : (sizes.map Int.toNat).sum ≤ r.parent.units.length) :
    Partitioned r p ((sizes.map Int.toNat).splitLengths r.parent.units) ↔
      sizes.length ≤ r.numDevices ∧ (∀ s ∈ sizes, 0 < s) ∧ sizes = requested r p := by
  have hlengths := List.map_splitLengths_length _ _ hsum
  have hcast : (((sizes.map Int.toNat).splitLengths r.parent.units).map fun c => (c.length : ℤ)) =
      sizes.map fun s => (s.toNat : ℤ) := by
    have h := congrArg (List.map fun k : ℕ => (k : ℤ)) hlengths
    rw [List.map_map, List.map_map] at h
    exact h
  have hself : (∀ s ∈ sizes, 0 < s) → (sizes.map fun s => (s.toNat : ℤ)) = sizes := by
    intro hpos
    conv_rhs => rw [← List.map_id sizes]
    exact List.map_congr_left fun s hs => Int.toNat_of_nonneg (hpos s hs).le
  constructor
  · intro h
    have hpos : ∀ s ∈ sizes, 0 < s := by
      intro s hs
      have hmem : s.toNat ∈ sizes.map Int.toNat := List.mem_map_of_mem hs
      rw [← hlengths] at hmem
      obtain ⟨c, hc, hlength⟩ := List.mem_map.1 hmem
      have hne := List.length_pos_of_ne_nil (h.nonempty c hc)
      omega
    have hcount := h.count
    rw [List.length_splitLengths, List.length_map] at hcount
    refine ⟨hcount, hpos, ?_⟩
    rw [← h.sizes hout, hcast, hself hpos]
  · rintro ⟨hcount, hpos, hrequested⟩
    refine ⟨?_, ?_, fun c hc => subset_of_mem_splitLengths hc,
      disjoint_splitLengths _ (r.parent.sorted.imp fun h => h.ne), fun _ => ?_, ?_⟩
    · rw [List.length_splitLengths, List.length_map]
      exact hcount
    · intro c hc hnil
      have hmem : c.length ∈ ((sizes.map Int.toNat).splitLengths r.parent.units).map List.length :=
        List.mem_map_of_mem hc
      rw [hlengths] at hmem
      obtain ⟨s, hs, hlength⟩ := List.mem_map.1 hmem
      have := hpos s hs
      rw [hnil, List.length_nil] at hlength
      omega
    · rw [hcast, hself hpos, hrequested]
    · intro a n hunits c hc
      rw [hunits] at hc
      exact consecutive_of_mem_splitLengths hc

/-- Creating sub-devices of some sizes is fine if and only if there are enough units, and the sizes
are positive, the ones that were asked for, and not too many. -/
theorem fine_ofCreated_iff {r : Request} {p : Properties} (hout : r.outDevices = true)
    (sizes : List ℤ) :
    (Outcome.ofCreated (createSubDevicesByCounts sizes r.parent.units)).Fine r p ↔
      (sizes.map Int.toNat).sum ≤ r.parent.units.length ∧ sizes.length ≤ r.numDevices ∧
        (∀ s ∈ sizes, 0 < s) ∧ sizes = requested r p := by
  rw [createSubDevicesByCounts_eq]
  by_cases hsum : (sizes.map Int.toNat).sum ≤ r.parent.units.length
  · rw [if_pos hsum]
    simp only [hsum, true_and]
    exact partitioned_splitLengths_iff hout hsum
  · rw [if_neg hsum]
    simp only [hsum, false_and, iff_false]
    exact id

/-! ### The two partition types -/

/-- The word of an integer, as an integer again. -/
theorem sint_uint_eq_iff (e : ℤ) : sint 32 (uint 32 e) = e ↔ -2 ^ 31 ≤ e ∧ e < 2 ^ 31 := by
  unfold sint uint
  norm_num
  split <;> omega

/-- Partitions into equal parts. -/
theorem fine_partitionEqually_iff {r : Request} {p : Properties} (htype : p.type = .equally)
    (hroom : r.outDevices → r.numDevices ≠ 0) :
    (partitionEqually r p).Fine r p ↔ EquallyOk r p := by
  have hlength := r.parent.length_le
  have hnum := r.numDevices.isLt
  unfold partitionEqually
  dsimp only
  by_cases hzero : r.numDevicesRet = true ∧ uint 32 p.first = 0
  · rw [if_pos hzero]
    exact ⟨False.elim, fun h => h.division hzero.1 hzero.2⟩
  have hdivision : r.numDevicesRet → uint 32 p.first ≠ 0 := fun hret h0 => hzero ⟨hret, h0⟩
  rw [if_neg hzero]
  by_cases hdivides : r.numDevicesRet = true ∧
      (r.parent.units.length % uint 32 p.first ≠ 0 ∨ r.parent.units.length ≤ uint 32 p.first)
  · rw [if_pos hdivides]
    refine ⟨fun _ => ⟨hdivision, fun _ hret _ _ => ?_⟩, fun _ => trivial⟩
    have := hret hdivides.1
    exact absurd hdivides.2 (by omega)
  rw [if_neg hdivides]
  by_cases hout : r.outDevices = true
  swap
  · rw [if_pos hout]
    exact ⟨fun _ => ⟨hdivision, fun hout' => absurd hout' hout⟩,
      fun _ => partitioned_nil (Bool.eq_false_iff.2 hout) p⟩
  rw [if_neg (not_not.2 hout)]
  by_cases hlarge : r.parent.units.length < wmul 32 (uint 32 p.first) r.numDevices
  · rw [if_pos hlarge]
    exact ⟨fun _ => ⟨hdivision, fun _ _ hle _ => absurd hle (not_le.2 hlarge)⟩, fun _ => trivial⟩
  rw [if_neg hlarge]
  by_cases hwhole : uint 32 p.first = r.parent.units.length ∧ r.numDevices = 1
  · rw [if_pos hwhole]
    exact ⟨fun _ => ⟨hdivision, fun _ _ _ hnot => absurd hwhole hnot⟩, fun _ => trivial⟩
  rw [if_neg hwhole, fine_ofCreated_iff hout]
  have hnum0 : (r.numDevices : ℕ) ≠ 0 := fun h => hroom hout (Fin.ext h)
  have hrequested : requested r p = List.replicate r.numDevices p.first := by
    rw [requested, htype]
  rw [hrequested, List.map_replicate, List.sum_replicate, List.length_replicate,
    Nat.nsmul_eq_mul]
  constructor
  · rintro ⟨hsum, -, hpos, heq⟩
    have hfirst : sint 32 (uint 32 p.first) = p.first :=
      (List.replicate_inj.1 heq).2.resolve_left hnum0
    have hpos' := hpos _ (List.mem_replicate.2 ⟨hnum0, rfl⟩)
    rw [hfirst] at hsum hpos'
    have hword := ((sint_uint_eq_iff p.first).1 hfirst).2
    refine ⟨hdivision, fun _ _ _ _ => ⟨hpos', by omega, ?_⟩⟩
    obtain ⟨k, hk⟩ := Int.eq_ofNat_of_zero_le hpos'.le
    rw [hk] at hsum ⊢
    rw [Int.toNat_natCast, Nat.mul_comm] at hsum
    have hlt : k * (r.numDevices : ℕ) < 2 ^ 32 := by omega
    exact_mod_cast hlt
  · intro h
    have haccepted : r.numDevicesRet → r.parent.units.length % uint 32 p.first = 0 ∧
        uint 32 p.first < r.parent.units.length := by
      intro hret
      by_contra hnot
      exact hdivides ⟨hret, by omega⟩
    obtain ⟨hpos, hword, hproduct⟩ := h.product hout haccepted (not_lt.1 hlarge) hwhole
    obtain ⟨k, hk⟩ := Int.eq_ofNat_of_zero_le hpos.le
    rw [hk] at hpos hword hproduct
    have hk32 : k < 2 ^ 32 := by exact_mod_cast hword
    have hproduct' : k * (r.numDevices : ℕ) < 2 ^ 32 := by exact_mod_cast hproduct
    rw [hk, uint_natCast hk32, wmul_eq hproduct', not_lt] at hlarge
    have hle : k ≤ k * (r.numDevices : ℕ) := Nat.le_mul_of_pos_right k (Nat.pos_of_ne_zero hnum0)
    have hsame : sint 32 (uint 32 p.first) = p.first := by
      rw [sint_uint_eq_iff, hk]
      omega
    rw [hsame, hk, Int.toNat_natCast, Nat.mul_comm]
    refine ⟨hlarge, le_rfl, ?_, rfl⟩
    intro s hs
    rw [List.eq_of_mem_replicate hs]
    exact hpos

/-- The sum of counts that are not negative. -/
theorem sum_toNat {l : List ℤ} (hl : ∀ s ∈ l, 0 ≤ s) : (((l.map Int.toNat).sum : ℕ) : ℤ) = l.sum := by
  induction l with
  | nil => rfl
  | cons s l ih =>
    rw [List.map_cons, List.sum_cons, List.sum_cons, Nat.cast_add,
      ih fun t ht => hl t (List.mem_cons_of_mem s ht), Int.toNat_of_nonneg (hl s List.mem_cons_self)]

/-- Partitions by counts. -/
theorem fine_partitionByCounts_iff {r : Request} {p : Properties} (htype : p.type = .byCounts) :
    (partitionByCounts r p).Fine r p ↔ CountsOk r p := by
  unfold partitionByCounts CountsOk
  cases hsizes : getPartitionUnitSizes p.entries with
  | error e => exact ⟨fun _ _ _ h => (nomatch h), fun _ => trivial⟩
  | ok sizes =>
    have hmap : sizes = p.entries.map fun e => sint 32 (uint 32 e) := by
      unfold getPartitionUnitSizes at hsizes
      split at hsizes
      · cases hsizes
      · exact (Except.ok.inj hsizes).symm
    dsimp only
    by_cases hexceed : r.numDevicesRet = true ∧ countsExceed sizes r.parent.units.length = true
    · rw [if_pos hexceed]
      refine ⟨fun _ _ sizes' h hret => ?_, fun _ => trivial⟩
      obtain rfl := Except.ok.inj h
      have := (hret hexceed.1).1
      rw [hexceed.2] at this
      cases this
    rw [if_neg hexceed]
    by_cases hwhole : r.numDevicesRet = true ∧ sizes = [(r.parent.units.length : ℤ)]
    · rw [if_pos hwhole]
      refine ⟨fun _ _ sizes' h hret => ?_, fun _ => trivial⟩
      obtain rfl := Except.ok.inj h
      exact absurd hwhole.2 (hret hwhole.1).2
    rw [if_neg hwhole]
    by_cases hout : r.outDevices = true
    swap
    · rw [if_pos hout]
      exact ⟨fun _ hout' => absurd hout' hout, fun _ => partitioned_nil (Bool.eq_false_iff.2 hout) p⟩
    rw [if_neg (not_not.2 hout), fine_ofCreated_iff hout]
    have hrequested : requested r p = p.entries := by
      rw [requested, htype]
    rw [hrequested]
    have hlength : sizes.length = p.entries.length := by
      rw [hmap, List.length_map]
    constructor
    · rintro ⟨hsum, hcount, hpos, heq⟩ - sizes' h -
      obtain rfl := Except.ok.inj h
      rw [heq] at hpos hsum hmap
      refine ⟨by omega, fun e he => ⟨hpos e he, ?_⟩, ?_⟩
      · have hself : p.entries.map id = p.entries.map fun e => sint 32 (uint 32 e) := by
          rw [List.map_id]
          exact hmap
        exact ((sint_uint_eq_iff e).1 (List.map_inj_left.1 hself e he).symm).2
      · rw [← sum_toNat fun e he => (hpos e he).le]
        exact_mod_cast hsum
    · intro h
      have hret : r.numDevicesRet = true → countsExceed sizes r.parent.units.length = false ∧
          sizes ≠ [(r.parent.units.length : ℤ)] := by
        intro hret
        exact ⟨Bool.eq_false_iff.2 fun hc => hexceed ⟨hret, hc⟩, fun hs => hwhole ⟨hret, hs⟩⟩
      obtain ⟨hcount, hentries, hsum⟩ := h hout sizes rfl hret
      have hself : sizes = p.entries := by
        rw [hmap]
        conv_rhs => rw [← List.map_id p.entries]
        refine List.map_congr_left fun e he => (sint_uint_eq_iff e).2 ?_
        have := hentries e he
        omega
      rw [hself]
      refine ⟨?_, hcount, fun e he => (hentries e he).1, rfl⟩
      rw [← sum_toNat fun e he => (hentries e he).1.le] at hsum
      exact_mod_cast hsum

/-- A call fails without an effect, or creates the sub-devices that were asked for, if and only if it
does not get past the checks of its arguments, or its partition type and sizes are fine. -/
theorem meets_iff (r : Request) :
    Meets r ↔ ∀ p, Checked r p →
      (p.type = .equally → EquallyOk r p) ∧ (p.type = .byCounts → CountsOk r p) := by
  by_cases hchecked : ∃ p, Checked r p
  · obtain ⟨p, hp⟩ := hchecked
    have hunique : ∀ p', Checked r p' → p' = p := by
      intro p' hp'
      exact Option.some.inj (hp'.properties.symm.trans hp.properties)
    have hcall : clCreateSubDevices r = match p.type with
        | .equally => partitionEqually r p
        | .byCounts => partitionByCounts r p
        | .byAffinityDomain => .error .invalidValue
        | .other => .error .invalidValue := by
      unfold clCreateSubDevices
      rw [if_neg (not_not.2 hp.device.1), hp.properties]
      dsimp only
      have hresults := hp.results
      rw [if_neg (by tauto), if_neg fun h => hp.room h.1 h.2, if_neg (not_not.2 hp.device.2)]
    have hmeets : Meets r ↔ (clCreateSubDevices r).Fine r p := by
      unfold Meets Outcome.Fine
      cases clCreateSubDevices r with
      | divisionByZero => rfl
      | exhausted => rfl
      | error e => rfl
      | success created =>
        refine ⟨fun h => h p hp.properties, fun h p' hp' => ?_⟩
        rw [Option.some.inj (hp'.symm.trans hp.properties)]
        exact h
    rw [hmeets, hcall]
    cases htype : p.type with
    | equally =>
      dsimp only
      rw [fine_partitionEqually_iff htype hp.room]
      refine ⟨fun h p' hp' => ?_, fun h => (h p hp).1 htype⟩
      rw [hunique p' hp', htype]
      exact ⟨fun _ => h, fun hother => (nomatch hother)⟩
    | byCounts =>
      dsimp only
      rw [fine_partitionByCounts_iff htype]
      refine ⟨fun h p' hp' => ?_, fun h => (h p hp).2 htype⟩
      rw [hunique p' hp', htype]
      exact ⟨fun hother => (nomatch hother), fun _ => h⟩
    | byAffinityDomain =>
      refine ⟨fun _ p' hp' => ?_, fun _ => trivial⟩
      rw [hunique p' hp', htype]
      exact ⟨fun hother => (nomatch hother), fun hother => (nomatch hother)⟩
    | other =>
      refine ⟨fun _ p' hp' => ?_, fun _ => trivial⟩
      rw [hunique p' hp', htype]
      exact ⟨fun hother => (nomatch hother), fun hother => (nomatch hother)⟩
  · refine ⟨fun _ p hp => absurd ⟨p, hp⟩ hchecked, fun _ => ?_⟩
    have herror : ∃ e, clCreateSubDevices r = .error e := by
      unfold clCreateSubDevices
      by_cases hdevice : r.isDevice = true
      · rw [if_neg (not_not.2 hdevice)]
        cases hproperties : r.properties with
        | none => exact ⟨_, rfl⟩
        | some p =>
          dsimp only
          split
          · exact ⟨_, rfl⟩
          · next hresults =>
            split
            · exact ⟨_, rfl⟩
            · next hroom =>
              split
              · exact ⟨_, rfl⟩
              · next hdsp =>
                refine absurd ⟨p, ⟨hdevice, not_not.1 hdsp⟩, hproperties, by tauto, ?_⟩ hchecked
                exact fun hout h0 => hroom ⟨hout, h0⟩
      · rw [if_pos hdevice]
        exact ⟨_, rfl⟩
    obtain ⟨e, he⟩ := herror
    unfold Meets
    rw [he]
    trivial

/-- A partition of eight units by the counts three and four, with room for one result. -/
def tooManyCounts : Request :=
  { isDevice := true, isDsp := true
    parent := ⟨List.range 8, by decide, by decide⟩
    properties := some ⟨.byCounts, [3, 4], by decide⟩
    numDevices := 1, outDevices := true, numDevicesRet := true }

theorem not_meets_tooManyCounts : ¬ Meets tooManyCounts := by
  intro h
  have hcreated : clCreateSubDevices tooManyCounts = .success [[0, 1, 2], [3, 4, 5, 6]] := by decide
  unfold Meets at h
  rw [hcreated] at h
  exact absurd (h _ rfl).count (by decide)

end SubDevices

end TiOpenCL
