import Mathlib.Data.List.Basic
import Mathlib.Logic.Function.Basic
import TiOpenCL.Library.Machine

/-!
# The core scheduler

`CoreScheduler` counts the reservations of every core.  `allocate` waits until a core is available and
reserves it, `free` gives a reservation back.  Whether a set of cores has one available is decided on the
sum of its counts, and the core is then chosen among the single counts; any number of threads do this for
sets that overlap.  Counts are of type `int` and the depth is of type `uint32_t`: the counts stay between
zero and the depth if and only if the depth fits `int`.
-/

namespace TiOpenCL

namespace CoreScheduler

open Machine

/-! ### The scheduler -/

/-- A `CoreScheduler`. -/
structure Scheduler where
  /-- `depth_`. -/
  depth : BitVec 32
  /-- `count_`, a map from cores to `int`. -/
  count : ℕ → Option (BitVec 32)

/-- `count_[core]`; a core that is not in the map is entered with zero. -/
def Scheduler.countOf (s : Scheduler) (core : ℕ) : BitVec 32 := (s.count core).getD 0

/-- The constructor. -/
def construct (computeUnits : List ℕ) (depth : BitVec 32) : Scheduler :=
  ⟨depth, fun core => if core ∈ computeUnits then some 0 else none⟩

/-- The sum of the loop of `any_core_available`. -/
def Scheduler.currentCapacity (s : Scheduler) (computeUnits : List ℕ) : BitVec 32 :=
  computeUnits.foldl (fun capacity core => capacity + s.countOf core) 0

/-- `any_core_available`: the capacities are compared as `int32_t`. -/
def Scheduler.anyCoreAvailable (s : Scheduler) (computeUnits : List ℕ) : Bool :=
  (s.currentCapacity computeUnits).slt (BitVec.ofNat 32 (computeUnits.length * s.depth.toNat))

/-- `core_available`: the count is compared as `uint32_t`. -/
def Scheduler.coreAvailable (s : Scheduler) (core : ℕ) : Bool := decide (s.countOf core < s.depth)

/-- `core_reserve`. -/
def Scheduler.coreReserve (s : Scheduler) (core : ℕ) : Scheduler :=
  { s with count := Function.update s.count core (some (s.countOf core + 1)) }

/-- `core_release`. -/
def Scheduler.coreRelease (s : Scheduler) (core : ℕ) : Scheduler :=
  { s with count := Function.update s.count core (some (s.countOf core - 1)) }

/-- The loop of `core_select`, with `min_depth` and `min_core`. -/
def Scheduler.selectLoop (s : Scheduler) : List ℕ → BitVec 32 → ℕ → ℕ
  | [], _, minCore => minCore
  | core :: cores, minDepth, minCore =>
    if s.countOf core < minDepth then s.selectLoop cores (s.countOf core) core
    else s.selectLoop cores minDepth minCore

/-- `core_select`; an empty set has no first core. -/
def Scheduler.coreSelect (s : Scheduler) (computeUnits : List ℕ) : Option ℕ :=
  computeUnits.head?.map fun first => s.selectLoop computeUnits s.depth first

/-- A round of `allocate` for a set of cores: the core, or `none` if the thread has to wait. -/
def Scheduler.allocateAny (s : Scheduler) (computeUnits : List ℕ) : Option (ℕ × Scheduler) :=
  if s.anyCoreAvailable computeUnits then
    (s.coreSelect computeUnits).map fun core => (core, s.coreReserve core)
  else none

/-- A round of `allocate` for a core. -/
def Scheduler.allocateCore (s : Scheduler) (core : ℕ) : Option (ℕ × Scheduler) :=
  if s.coreAvailable core then some (core, s.coreReserve core) else none

/-- `free`; `none` if its assertion fails. -/
def Scheduler.free (s : Scheduler) (core : ℕ) : Option Scheduler :=
  if (s.count core).isSome then some (s.coreRelease core) else none

/-! ### The threads -/

/-- What a thread asks for. -/
inductive Request where
  | anyOf (computeUnits : List ℕ)
  | core (core : ℕ)
  deriving DecidableEq, Repr

/-- A round of a call of `allocate`. -/
def Scheduler.allocate (s : Scheduler) : Request → Option (ℕ × Scheduler)
  | .anyOf computeUnits => s.allocateAny computeUnits
  | .core core => s.allocateCore core

/-- The scheduler, the calls that wait and the reservations that were granted and not given back. -/
structure State extends Scheduler where
  /-- The calls of `allocate` in `cv_.wait`. -/
  waiting : List Request
  /-- The cores that were reserved, once for each reservation. -/
  granted : List ℕ

/-- What can happen next. -/
inductive Action where
  /-- A thread calls `allocate`. -/
  | allocate (request : Request)
  /-- A waiting call wakes up, notified or not, and looks again. -/
  | wake (i : ℕ)
  /-- `free`, for a reservation that was granted. -/
  | free (core : ℕ)
  deriving DecidableEq, Repr

/-- A round of a call of `allocate`: it is granted, or waits. -/
def State.attempt (s : State) (request : Request) : State :=
  match s.toScheduler.allocate request with
  | some (core, sched) => ⟨sched, s.waiting, core :: s.granted⟩
  | none => { s with waiting := request :: s.waiting }

/-- One step. -/
def step (s : State) : Action → Option State
  | .allocate request =>
    -- the assertion of `allocate`
    if request = .anyOf [] then none else some (s.attempt request)
  | .wake i =>
    match s.waiting[i]? with
    | some request => some ({ s with waiting := s.waiting.eraseIdx i }.attempt request)
    | none => none
  | .free core =>
    if core ∈ s.granted then
      (s.toScheduler.free core).map fun sched => ⟨sched, s.waiting, s.granted.erase core⟩
    else none

/-- Before the first call. -/
def init (computeUnits : List ℕ) (depth : BitVec 32) : State := ⟨construct computeUnits depth, [], []⟩

/-! ### The choice of a core -/

variable {s s' : Scheduler} {computeUnits : List ℕ} {core : ℕ}

/-- The counts after a reservation. -/
lemma countOf_coreReserve (s : Scheduler) (core c : ℕ) :
    (s.coreReserve core).countOf c = if c = core then s.countOf core + 1 else s.countOf c := by
  simp only [Scheduler.coreReserve, Scheduler.countOf, Function.update_apply]
  split <;> rfl

/-- The counts after a release. -/
lemma countOf_coreRelease (s : Scheduler) (core c : ℕ) :
    (s.coreRelease core).countOf c = if c = core then s.countOf core - 1 else s.countOf c := by
  simp only [Scheduler.coreRelease, Scheduler.countOf, Function.update_apply]
  split <;> rfl

/-- The sum over cores that are all full is the capacity of the set, also where both wrap. -/
lemma currentCapacity_of_full (hfull : ∀ c ∈ computeUnits, s.countOf c = s.depth) :
    s.currentCapacity computeUnits = BitVec.ofNat 32 (computeUnits.length * s.depth.toNat) := by
  have hloop : ∀ (cores : List ℕ) (capacity : BitVec 32), (∀ c ∈ cores, s.countOf c = s.depth) →
      cores.foldl (fun capacity c => capacity + s.countOf c) capacity =
        capacity + BitVec.ofNat 32 (cores.length * s.depth.toNat) := by
    intro cores
    induction cores with
    | nil =>
      intro capacity _
      simp
    | cons c cores ih =>
      intro capacity hcores
      rw [List.foldl_cons, ih _ fun c' hc' => hcores c' (List.mem_cons_of_mem c hc'),
        hcores c List.mem_cons_self, List.length_cons, Nat.succ_mul, BitVec.ofNat_add,
        BitVec.ofNat_toNat, BitVec.setWidth_eq, BitVec.add_assoc,
        BitVec.add_comm (BitVec.ofNat 32 _)]
  rw [Scheduler.currentCapacity, hloop computeUnits 0 hfull]
  exact BitVec.zero_add _

/-- A set that has a core available by its sum has one whose count is not the depth. -/
lemma exists_of_anyCoreAvailable (h : s.anyCoreAvailable computeUnits = true) :
    ∃ c ∈ computeUnits, s.countOf c ≠ s.depth := by
  by_contra hno
  have hfull : ∀ c ∈ computeUnits, s.countOf c = s.depth := fun c hc =>
    by_contra fun hne => hno ⟨c, hc, hne⟩
  rw [Scheduler.anyCoreAvailable, currentCapacity_of_full hfull, BitVec.slt] at h
  exact absurd (of_decide_eq_true h) (lt_irrefl _)

/-- The loop keeps the core it starts with if no count is below the depth it starts with, and finds the
core with the least count otherwise. -/
lemma selectLoop_spec (s : Scheduler) (computeUnits : List ℕ) (minDepth : BitVec 32) (minCore : ℕ) :
    ((∀ c ∈ computeUnits, minDepth.toNat ≤ (s.countOf c).toNat) ∧
        s.selectLoop computeUnits minDepth minCore = minCore) ∨
      ∃ c ∈ computeUnits, s.selectLoop computeUnits minDepth minCore = c ∧
        (s.countOf c).toNat < minDepth.toNat ∧
          ∀ c' ∈ computeUnits, (s.countOf c).toNat ≤ (s.countOf c').toNat := by
  induction computeUnits generalizing minDepth minCore with
  | nil => exact Or.inl ⟨by simp, rfl⟩
  | cons core cores ih =>
    rw [Scheduler.selectLoop]
    split
    · next hlt =>
      have hlt' : (s.countOf core).toNat < minDepth.toNat := BitVec.lt_def.mp hlt
      right
      rcases ih (s.countOf core) core with ⟨hall, heq⟩ | ⟨c, hc, heq, hless, hmin⟩
      · refine ⟨core, List.mem_cons_self, heq, hlt', fun c' hc' => ?_⟩
        rcases List.mem_cons.mp hc' with rfl | hrest
        · exact le_rfl
        · exact hall c' hrest
      · refine ⟨c, List.mem_cons_of_mem core hc, heq, hless.trans hlt', fun c' hc' => ?_⟩
        rcases List.mem_cons.mp hc' with rfl | hrest
        · exact hless.le
        · exact hmin c' hrest
    · next hge =>
      have hge' : minDepth.toNat ≤ (s.countOf core).toNat :=
        not_lt.mp fun hlt => hge (BitVec.lt_def.mpr hlt)
      rcases ih minDepth minCore with ⟨hall, heq⟩ | ⟨c, hc, heq, hless, hmin⟩
      · refine Or.inl ⟨fun c' hc' => ?_, heq⟩
        rcases List.mem_cons.mp hc' with rfl | hrest
        · exact hge'
        · exact hall c' hrest
      · refine Or.inr ⟨c, List.mem_cons_of_mem core hc, heq, hless, fun c' hc' => ?_⟩
        rcases List.mem_cons.mp hc' with rfl | hrest
        · exact hless.le.trans hge'
        · exact hmin c' hrest

/-! ### The counts -/

/-- The core is one of the set, its count is below the depth, and no count of the set is less. -/
structure Selected (s : Scheduler) (computeUnits : List ℕ) (core : ℕ) : Prop where
  mem : core ∈ computeUnits
  below : (s.countOf core).toInt < s.depth.toNat
  least : ∀ c ∈ computeUnits, (s.countOf core).toInt ≤ (s.countOf c).toInt

/-- The counts are between zero and the depth, and `allocate` selects a core of the set that is asked
for. -/
structure Bounded (s : Scheduler) : Prop where
  nonneg : ∀ core, 0 ≤ (s.countOf core).toInt
  le_depth : ∀ core, (s.countOf core).toInt ≤ s.depth.toNat
  selects : ∀ computeUnits core s', s.allocateAny computeUnits = some (core, s') →
    Selected s computeUnits core

/-- The counts are the numbers of the reservations, and do not exceed the depth. -/
structure Reserved (s : State) : Prop where
  depth_lt : s.depth.toNat < 2 ^ 31
  count : ∀ core, (s.countOf core).toNat = s.granted.count core
  le_depth : ∀ core, (s.countOf core).toNat ≤ s.depth.toNat

/-- A count that is not greater than a depth that fits `int` is not negative. -/
lemma Reserved.toInt_eq {s : State} (h : Reserved s) (core : ℕ) :
    (s.countOf core).toInt = (s.countOf core).toNat := by
  have hle := h.le_depth core
  have hlt := h.depth_lt
  exact BitVec.toInt_eq_toNat_of_lt (by omega)

/-- A call for a set reserves a core of the set with the least count. -/
lemma Reserved.selected {s : State} (h : Reserved s)
    (ha : s.allocateAny computeUnits = some (core, s')) :
    Selected s.toScheduler computeUnits core ∧ s' = s.coreReserve core := by
  unfold Scheduler.allocateAny at ha
  split at ha
  · next havail =>
    obtain ⟨c, hc, hne⟩ := exists_of_anyCoreAvailable havail
    have hlt : (s.countOf c).toNat < s.depth.toNat :=
      lt_of_le_of_ne (h.le_depth c) fun heq => hne (BitVec.eq_of_toNat_eq heq)
    obtain ⟨first, hfirst, heq⟩ := Option.map_eq_some_iff.mp ha
    obtain ⟨hcore, rfl⟩ := Prod.mk.inj heq
    subst hcore
    obtain ⟨head, hhead, rfl⟩ := Option.map_eq_some_iff.mp hfirst
    rcases selectLoop_spec s.toScheduler computeUnits s.depth head with
      ⟨hall, -⟩ | ⟨c', hc', hsel, hless, hmin⟩
    · exact absurd (hall c hc) (not_le.mpr hlt)
    · rw [hsel]
      refine ⟨⟨hc', ?_, fun c'' hc'' => ?_⟩, rfl⟩
      · rw [h.toInt_eq]
        exact Int.ofNat_lt.mpr hless
      · rw [h.toInt_eq, h.toInt_eq]
        exact Int.ofNat_le.mpr (hmin c'' hc'')
  · cases ha

/-- The counts are bounded where they are the numbers of the reservations. -/
lemma Reserved.bounded {s : State} (h : Reserved s) : Bounded s.toScheduler where
  nonneg core := by
    rw [h.toInt_eq]
    exact Int.natCast_nonneg _
  le_depth core := by
    rw [h.toInt_eq]
    exact Int.ofNat_le.mpr (h.le_depth core)
  selects _ _ _ ha := (h.selected ha).1

/-- A call that is granted reserves a core whose count is below the depth. -/
lemma Reserved.allocate {s : State} (h : Reserved s) {request : Request}
    (ha : s.toScheduler.allocate request = some (core, s')) :
    (s.countOf core).toNat < s.depth.toNat ∧ s' = s.coreReserve core := by
  cases request with
  | anyOf computeUnits =>
    obtain ⟨hsel, heq⟩ := h.selected ha
    have hbelow := hsel.below
    rw [h.toInt_eq] at hbelow
    exact ⟨Int.ofNat_lt.mp hbelow, heq⟩
  | core c =>
    simp only [Scheduler.allocate, Scheduler.allocateCore] at ha
    split at ha
    · next havail =>
      obtain ⟨rfl, rfl⟩ := Prod.mk.inj (Option.some.inj ha)
      exact ⟨BitVec.lt_def.mp (of_decide_eq_true havail), rfl⟩
    · cases ha

/-- A round of a call keeps the counts. -/
lemma Reserved.attempt {s : State} (h : Reserved s) (request : Request) :
    Reserved (s.attempt request) := by
  unfold State.attempt
  cases ha : s.toScheduler.allocate request with
  | none => exact ⟨h.depth_lt, h.count, h.le_depth⟩
  | some r =>
    obtain ⟨core, sched⟩ := r
    obtain ⟨hlt, rfl⟩ := h.allocate ha
    have hdepth := h.depth_lt
    have hsucc : (s.countOf core + 1).toNat = (s.countOf core).toNat + 1 := by
      rw [BitVec.toNat_add]
      refine Nat.mod_eq_of_lt ?_
      change (s.countOf core).toNat + 1 < _
      omega
    refine ⟨hdepth, fun c => ?_, fun c => ?_⟩
    · have hcount := h.count c
      simp only [countOf_coreReserve]
      by_cases hc : c = core
      · subst hc
        rw [if_pos rfl, hsucc, List.count_cons_self, hcount]
      · rw [if_neg hc, List.count_cons_of_ne (Ne.symm hc), hcount]
    · have hle := h.le_depth c
      simp only [countOf_coreReserve]
      split
      · rw [hsucc]
        exact hlt
      · exact hle

/-- Every step keeps the counts. -/
lemma Reserved.step {s s' : State} {a : Action} (h : Reserved s) (hstep : step s a = some s') :
    Reserved s' := by
  cases a with
  | allocate request =>
    simp only [CoreScheduler.step] at hstep
    split at hstep
    · cases hstep
    · obtain rfl := Option.some.inj hstep
      exact h.attempt request
  | wake i =>
    simp only [CoreScheduler.step] at hstep
    split at hstep
    · next request _ =>
      obtain rfl := Option.some.inj hstep
      have hsame : Reserved { s with waiting := s.waiting.eraseIdx i } :=
        ⟨h.depth_lt, h.count, h.le_depth⟩
      exact hsame.attempt request
    · cases hstep
  | free core =>
    simp only [CoreScheduler.step] at hstep
    split at hstep
    · next hmem =>
      obtain ⟨sched, hfree, rfl⟩ := Option.map_eq_some_iff.mp hstep
      simp only [Scheduler.free] at hfree
      split at hfree
      · obtain rfl := Option.some.inj hfree
        have hpos := List.count_pos_iff.mpr hmem
        have hcore := h.count core
        have hpred : (s.countOf core - 1).toNat = (s.countOf core).toNat - 1 := by
          rw [BitVec.toNat_sub_of_le]
          · rfl
          · rw [BitVec.le_def]
            change 1 ≤ _
            omega
        refine ⟨h.depth_lt, fun c => ?_, fun c => ?_⟩
        · have hcount := h.count c
          simp only [countOf_coreRelease]
          by_cases hc : c = core
          · subst hc
            rw [if_pos rfl, hpred, List.count_erase_self, hcount]
          · rw [if_neg hc, List.count_erase_of_ne hc, hcount]
        · have hle := h.le_depth c
          have hle' := h.le_depth core
          simp only [countOf_coreRelease]
          split
          · rw [hpred]
            exact (Nat.sub_le _ 1).trans hle'
          · exact hle
      · cases hfree
    · cases hstep

/-- The counts are right before the first call. -/
lemma reserved_init (computeUnits : List ℕ) {depth : BitVec 32} (hdepth : depth.toNat < 2 ^ 31) :
    Reserved (init computeUnits depth) := by
  have hzero : ∀ core, (init computeUnits depth).countOf core = 0 := by
    intro core
    simp only [init, construct, Scheduler.countOf]
    split <;> rfl
  refine ⟨hdepth, fun core => ?_, fun core => ?_⟩
  · rw [hzero core]
    rfl
  · rw [hzero core]
    exact Nat.zero_le _

/-! ### A depth that does not fit -/

/-- Calls for one core are granted as long as its count is below the depth. -/
lemma run_replicate {s : State} {k n : ℕ} (hcount : s.countOf 0 = BitVec.ofNat 32 k)
    (hn : k + n ≤ s.depth.toNat) :
    ∃ s', run step s (List.replicate n (.allocate (.core 0))) = some s' ∧
      s'.countOf 0 = BitVec.ofNat 32 (k + n) := by
  induction n generalizing s k with
  | zero => exact ⟨s, rfl, hcount⟩
  | succ n ih =>
    have hlt : s.countOf 0 < s.depth := by
      rw [hcount, BitVec.lt_def, BitVec.toNat_ofNat]
      have hmod := Nat.mod_le k (2 ^ 32)
      omega
    have hattempt : s.attempt (.core 0) = ⟨s.coreReserve 0, s.waiting, 0 :: s.granted⟩ := by
      have havail : s.coreAvailable 0 = true := decide_eq_true hlt
      simp only [State.attempt, Scheduler.allocate, Scheduler.allocateCore, havail, if_true]
    have hnext : (s.attempt (.core 0)).countOf 0 = BitVec.ofNat 32 (k + 1) := by
      rw [hattempt, BitVec.ofNat_add, ← hcount]
      simp only [countOf_coreReserve, if_true]
      rfl
    have hdepth : (s.attempt (.core 0)).depth = s.depth := by
      rw [hattempt]
      rfl
    obtain ⟨s', hrun, hs'⟩ := ih hnext (by rw [hdepth]; omega)
    have hstep : step s (.allocate (.core 0)) = some (s.attempt (.core 0)) := rfl
    refine ⟨s', ?_, ?_⟩
    · rw [List.replicate_succ, run, hstep]
      exact hrun
    · rw [hs']
      congr 1
      omega

/-- A depth that does not fit `int` lets the count of a core become negative. -/
lemma exists_negative (computeUnits : List ℕ) (depth : BitVec 32) (hdepth : 2 ^ 31 ≤ depth.toNat) :
    ∃ as s, run step (init computeUnits depth) as = some s ∧ (s.countOf 0).toInt < 0 := by
  have hzero : (init computeUnits depth).countOf 0 = BitVec.ofNat 32 0 := by
    simp only [init, construct, Scheduler.countOf]
    split <;> rfl
  have hn : 0 + 2 ^ 31 ≤ (init computeUnits depth).depth.toNat := by
    rw [Nat.zero_add]
    exact hdepth
  obtain ⟨s, hrun, hcount⟩ := run_replicate hzero hn
  refine ⟨_, s, hrun, ?_⟩
  rw [hcount, Nat.zero_add]
  decide

/-- Two calls for overlapping sets, with the default depth: the second one finds the other core. -/
example : (run step (init [0, 1, 2] 4) [.allocate (.anyOf [0, 1]), .allocate (.anyOf [0, 2])]).map
    (fun s => s.granted) = some [2, 0] := by decide

end CoreScheduler

end TiOpenCL
