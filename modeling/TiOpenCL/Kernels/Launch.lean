import Mathlib.Algebra.BigOperators.Group.Finset.Basic
import Mathlib.Data.BitVec

/-!
# The launch configuration of a kernel

The constructor of `KernelEvent` sets the offset, the global size and the local size of the three
dimensions.  Local sizes are given by the application, guessed by `DSPKernel::guessWorkGroupSize` or one.
The constructor divides by a given local size without looking whether it is zero, it reports success
with nothing set if the first one is, the product of the given sizes is compared with the limit of the
device in wrapping arithmetic, and the product of guessed ones is not compared at all.
`launch_sound_iff` says for which arguments the configuration is sound nevertheless.
-/

namespace TiOpenCL

namespace Kernels

variable {w : ℕ}

/-- The errors that the constructor reports. -/
inductive Error
  | invalidKernel
  | invalidProgramExecutable
  | invalidContext
  | invalidKernelArgs
  | invalidWorkDimension
  | invalidWorkGroupSize
  | invalidGlobalWorkSize
  | invalidWorkItemSize
  /-- An error of the constructor of `Event`, of a query or of the checks of the arguments. -/
  | other (code : ℤ)
  deriving DecidableEq

/-- Why the constructor does not report success. -/
inductive Failure
  /-- It reports an error. -/
  | reported (error : Error)
  /-- It computes a remainder by zero. -/
  | remainderByZero
  deriving DecidableEq

/-- The arguments of the constructor and what it reads. -/
structure Request (w : ℕ) where
  /-- The error of the constructor of `Event`, if it reports one. -/
  eventError : Option Error
  /-- Is the kernel other than null? -/
  kernel : Bool
  /-- The error of the queries of the queue, the kernel and the device, if there is one. -/
  infoError : Option Error
  /-- Is the kernel built for the device of the queue? -/
  devKernel : Bool
  /-- `CL_KERNEL_CONTEXT`. -/
  kernelContext : ℕ
  /-- `CL_QUEUE_CONTEXT`. -/
  queueContext : ℕ
  /-- `Kernel::argsSpecified`. -/
  argsSpecified : Bool
  /-- `Kernel::reqdWorkGroupSize`; zero without the attribute. -/
  reqdWorkGroupSize : ℕ → ℕ
  /-- `CL_DEVICE_MAX_WORK_ITEM_DIMENSIONS`. -/
  maxDims : ℕ
  /-- `CL_DEVICE_MAX_WORK_GROUP_SIZE`. -/
  maxWorkGroupSize : BitVec w
  /-- `CL_DEVICE_MAX_WORK_ITEM_SIZES`. -/
  maxWorkItemSizes : ℕ → BitVec w
  /-- `DSPDevice::dspCores`. -/
  dspCores : BitVec 32
  /-- The number of dimensions. -/
  workDim : ℕ
  /-- The offsets; null is `none`. -/
  globalWorkOffset : Option (ℕ → BitVec w)
  /-- The global sizes; null is `none`. -/
  globalWorkSize : Option (ℕ → BitVec w)
  /-- The local sizes; null is `none`. -/
  localWorkSize : Option (ℕ → BitVec w)
  /-- The error of the checks of the kernel arguments, which come last, if there is one. -/
  argumentError : Option Error

/-- What the event keeps, and the product of the given local sizes.  Elements of the arrays that have
not been set are `none`. -/
structure Launch (w : ℕ) where
  /-- `p_global_work_offset`. -/
  globalWorkOffset : ℕ → Option (BitVec w)
  /-- `p_global_work_size`. -/
  globalWorkSize : ℕ → Option (BitVec w)
  /-- `p_local_work_size`. -/
  localWorkSize : ℕ → Option (BitVec w)
  /-- `work_group_size`. -/
  workGroupSize : BitVec w

/-! ### The constructor -/

/-- `MAX_WORK_DIMS`. -/
def maxWorkDims : ℕ := 3

/-- The checks of the arguments in front of the dimensions. -/
def Request.sanity (r : Request w) : Option Error :=
  match r.eventError with
  | some error => some error
  | none =>
    if !r.kernel then some .invalidKernel
    else
      match r.infoError with
      | some error => some error
      | none =>
        if !r.devKernel then some .invalidProgramExecutable
        else if r.kernelContext ≠ r.queueContext then some .invalidContext
        else if !r.argsSpecified then some .invalidKernelArgs
        else if r.workDim = 0 ∨ r.maxDims < r.workDim ∨ maxWorkDims < r.maxDims then
          some .invalidWorkDimension
        else if 0 < r.reqdWorkGroupSize 0 ∨ 0 < r.reqdWorkGroupSize 1 ∨ 0 < r.reqdWorkGroupSize 2 then
          match r.localWorkSize with
          | none => some .invalidWorkGroupSize
          | some size =>
            if (size 0).toNat ≠ r.reqdWorkGroupSize 0 ∨
                1 < r.workDim ∧ (size 1).toNat ≠ r.reqdWorkGroupSize 1 ∨
                2 < r.workDim ∧ (size 2).toNat ≠ r.reqdWorkGroupSize 2 then
              some .invalidWorkGroupSize
            else none
        else none

/-- The loop of `DSPKernel::guessWorkGroupSize` from a divisor down; `none` is a remainder by zero. -/
def guessDivisor (dsps : BitVec 32) (globalWorkSize : ℕ) : ℕ → Option ℕ
  | 0 => none
  | divisor + 1 =>
    if globalWorkSize % (divisor + 1) = 0 then some (divisor + 1)
    else if globalWorkSize < divisor + 1 ∨ (dsps * 32).toNat < divisor + 1 then some 1
    else guessDivisor dsps globalWorkSize divisor

/-- `DSPKernel::guessWorkGroupSize`. -/
def guessWorkGroupSize (dsps : BitVec 32) (globalWorkSize : ℕ) : Option ℕ :=
  (guessDivisor dsps globalWorkSize (if dsps = 0 then 1 else dsps.toNat)).map (globalWorkSize / ·)

/-- One dimension is set. -/
def Launch.set (s : Launch w) (i : ℕ) (offset globalSize localSize : BitVec w) : Launch w :=
  { s with
    globalWorkOffset := Function.update s.globalWorkOffset i (some offset)
    globalWorkSize := Function.update s.globalWorkSize i (some globalSize)
    localWorkSize := Function.update s.localWorkSize i (some localSize) }

/-- The body of the loop over the dimensions. -/
def Request.dimension (r : Request w) (i : ℕ) (s : Launch w) : Except Failure (Launch w) :=
  let offset := (r.globalWorkOffset.getD 0) i
  match r.globalWorkSize with
  | none => .error (.reported .invalidGlobalWorkSize)
  | some globalSize =>
    if globalSize i = 0 then .error (.reported .invalidGlobalWorkSize)
    else
      match r.localWorkSize with
      | none =>
        match guessWorkGroupSize r.dspCores (globalSize i).toNat with
        | none => .error .remainderByZero
        | some guess => .ok (s.set i offset (globalSize i) (BitVec.ofNat w guess))
      | some localSize =>
        if localSize i = 0 then .error .remainderByZero
        else if (globalSize i).toNat % (localSize i).toNat ≠ 0 then
          .error (.reported .invalidWorkGroupSize)
        else if r.maxWorkItemSizes i < localSize i then .error (.reported .invalidWorkItemSize)
        else
          .ok { s.set i offset (globalSize i) (localSize i) with
            workGroupSize := s.workGroupSize * localSize i }

/-- The event before the loop. -/
def Launch.unset : Launch w := ⟨fun _ => none, fun _ => none, fun _ => none, 1⟩

/-- The first rounds of the loop over the dimensions. -/
def Request.dimensions (r : Request w) : ℕ → Except Failure (Launch w)
  | 0 => .ok Launch.unset
  | n + 1 => r.dimensions n >>= r.dimension n

/-- The loop over missing dimensions: some rounds from a dimension on. -/
def Launch.missing (s : Launch w) (i : ℕ) : ℕ → Launch w
  | 0 => s
  | n + 1 => (s.missing i n).set (i + n) 0 1 1

/-- The end of the constructor: the comparison with the limit of the device and the checks of the
arguments. -/
def Request.finish (r : Request w) (s : Launch w) : Except Failure (Launch w) :=
  if r.maxWorkGroupSize < s.workGroupSize then .error (.reported .invalidWorkGroupSize)
  else
    match r.argumentError with
    | some error => .error (.reported error)
    | none => .ok s

/-- The first local size is given and zero, which the constructor takes for a kernel without
arguments. -/
def Request.FirstZero (r : Request w) : Prop := r.localWorkSize.any fun size => size 0 = 0

instance (r : Request w) : Decidable r.FirstZero := inferInstanceAs (Decidable (_ = true))

/-- `KernelEvent`. -/
def kernelEvent (r : Request w) : Except Failure (Launch w) :=
  match r.sanity with
  | some error => .error (.reported error)
  | none =>
    if r.FirstZero then .ok Launch.unset
    else
      r.dimensions r.workDim >>= fun s => r.finish (s.missing r.workDim (r.maxDims - r.workDim))

/-! ### Guessed sizes -/

/-- The loop ends with a divisor of the global size. -/
lemma guessDivisor_spec (dsps : BitVec 32) (globalWorkSize n : ℕ) :
    ∃ d, guessDivisor dsps globalWorkSize (n + 1) = some d ∧ 0 < d ∧ d ∣ globalWorkSize := by
  induction n with
  | zero => exact ⟨1, by simp [guessDivisor, Nat.mod_one], one_pos, one_dvd _⟩
  | succ n ih =>
    rw [guessDivisor]
    split
    · next hmod => exact ⟨n + 1 + 1, rfl, by omega, Nat.dvd_of_mod_eq_zero hmod⟩
    · split
      · exact ⟨1, rfl, one_pos, one_dvd _⟩
      · exact ih

/-- The guessed size divides the global size and is not zero. -/
lemma guessWorkGroupSize_spec (dsps : BitVec 32) {globalWorkSize : ℕ} (hpos : 0 < globalWorkSize) :
    ∃ l, guessWorkGroupSize dsps globalWorkSize = some l ∧ 0 < l ∧ l ∣ globalWorkSize := by
  have hstart : ∃ n, (if dsps = 0 then 1 else dsps.toNat) = n + 1 := by
    split
    · exact ⟨0, rfl⟩
    · next hne =>
      have hnat : dsps.toNat ≠ 0 := fun hzero => hne (BitVec.eq_of_toNat_eq (by simpa using hzero))
      exact Nat.exists_eq_add_one_of_ne_zero hnat
  obtain ⟨n, hn⟩ := hstart
  obtain ⟨d, hd, hdpos, hdvd⟩ := guessDivisor_spec dsps globalWorkSize n
  refine ⟨globalWorkSize / d, ?_, Nat.div_pos (Nat.le_of_dvd hpos hdvd) hdpos, Nat.div_dvd_of_dvd hdvd⟩
  rw [guessWorkGroupSize, hn, hd, Option.map_some]

/-! ### The dimensions -/

/-- The global size of a dimension is given and not zero. -/
def Request.HasGlobalSize (r : Request w) (i : ℕ) : Prop :=
  ∃ globalSize, r.globalWorkSize = some globalSize ∧ globalSize i ≠ 0

/-- A local size of zero, by which the constructor divides. -/
def Request.DividesByZero (r : Request w) (i : ℕ) : Prop :=
  r.HasGlobalSize i ∧ ∃ localSize, r.localWorkSize = some localSize ∧ localSize i = 0

/-- A dimension that the loop accepts. -/
def Request.Accepts (r : Request w) (i : ℕ) : Prop :=
  ∃ globalSize, r.globalWorkSize = some globalSize ∧ globalSize i ≠ 0 ∧
    ∀ localSize, r.localWorkSize = some localSize →
      localSize i ≠ 0 ∧ (localSize i).toNat ∣ (globalSize i).toNat ∧
        ¬r.maxWorkItemSizes i < localSize i

/-- The local size of a dimension, given or guessed. -/
def Request.localSize (r : Request w) (i : ℕ) : ℕ :=
  match r.localWorkSize with
  | some localSize => (localSize i).toNat
  | none => (guessWorkGroupSize r.dspCores ((r.globalWorkSize.getD 0) i).toNat).getD 0

/-- The product of the local sizes of the first dimensions, without wrap-around. -/
def Request.product (r : Request w) (n : ℕ) : ℕ := ∏ i ∈ Finset.range n, r.localSize i

/-- The product that is compared with the limit of the device: that of the given sizes, in wrapping
arithmetic, and one if no sizes are given. -/
def Request.comparedSize (r : Request w) (n : ℕ) : BitVec w :=
  if r.localWorkSize.isSome then BitVec.ofNat w (r.product n) else 1

/-- A word other than zero is positive. -/
lemma toNat_pos_of_ne {x : BitVec w} (h : x ≠ 0) : 0 < x.toNat :=
  Nat.pos_of_ne_zero fun hx => h (BitVec.eq_of_toNat_eq (by simpa using hx))

/-- The local size of a dimension that is accepted divides the global size. -/
lemma Request.Accepts.localSize {r : Request w} {i : ℕ} (h : r.Accepts i) :
    0 < r.localSize i ∧ r.localSize i < 2 ^ w ∧
      r.localSize i ∣ ((r.globalWorkSize.getD 0) i).toNat := by
  obtain ⟨globalSize, hglobal, hne, hlocal⟩ := h
  have hpos := toNat_pos_of_ne hne
  unfold Request.localSize
  rw [hglobal, Option.getD_some]
  cases hsize : r.localWorkSize with
  | some localSize =>
    obtain ⟨hzero, hdvd, -⟩ := hlocal localSize hsize
    exact ⟨toNat_pos_of_ne hzero, (localSize i).isLt, hdvd⟩
  | none =>
    obtain ⟨l, hguess, hlpos, hdvd⟩ := guessWorkGroupSize_spec r.dspCores hpos
    simp only [hguess, Option.getD_some]
    exact ⟨hlpos, (Nat.le_of_dvd hpos hdvd).trans_lt (globalSize i).isLt, hdvd⟩

/-- A round of the loop for a dimension that is accepted. -/
lemma Request.Accepts.dimension {r : Request w} {i : ℕ} (h : r.Accepts i) (s : Launch w) :
    r.dimension i s = .ok { s.set i ((r.globalWorkOffset.getD 0) i) ((r.globalWorkSize.getD 0) i)
        (BitVec.ofNat w (r.localSize i)) with
      workGroupSize := if r.localWorkSize.isSome then
        s.workGroupSize * BitVec.ofNat w (r.localSize i) else s.workGroupSize } := by
  obtain ⟨globalSize, hglobal, hne, hlocal⟩ := h
  unfold Request.dimension Request.localSize
  simp only [hglobal, Option.getD_some, if_neg hne]
  cases hsize : r.localWorkSize with
  | some localSize =>
    obtain ⟨hzero, hdvd, hmax⟩ := hlocal localSize hsize
    simp only [if_neg hzero, Nat.mod_eq_zero_of_dvd hdvd, ne_eq, not_true_eq_false, if_false, if_neg hmax,
      Option.isSome_some, if_true, BitVec.ofNat_toNat, BitVec.setWidth_eq]
  | none =>
    obtain ⟨l, hguess, -⟩ := guessWorkGroupSize_spec r.dspCores (toNat_pos_of_ne hne)
    simp only [hguess, Option.getD_some, Option.isSome_none, Bool.false_eq_true, if_false]
    rfl

/-- A round of the loop for a dimension that is not accepted. -/
lemma dimension_of_not_accepts {r : Request w} {i : ℕ} (h : ¬r.Accepts i) (s : Launch w) :
    r.DividesByZero i ∧ r.dimension i s = .error .remainderByZero ∨
      ¬r.DividesByZero i ∧ ∃ error, r.dimension i s = .error (.reported error) := by
  unfold Request.dimension
  cases hglobal : r.globalWorkSize with
  | none =>
    refine Or.inr ⟨?_, _, rfl⟩
    rintro ⟨⟨globalSize, hsome, -⟩, -⟩
    rw [hglobal] at hsome
    cases hsome
  | some globalSize =>
    by_cases hne : globalSize i = 0
    · simp only [if_pos hne]
      refine Or.inr ⟨?_, _, rfl⟩
      rintro ⟨⟨globalSize', hsome, hne'⟩, -⟩
      obtain rfl := Option.some.inj (hglobal.symm.trans hsome)
      exact hne' hne
    · simp only [if_neg hne]
      cases hsize : r.localWorkSize with
      | none =>
        refine absurd ⟨globalSize, hglobal, hne, fun localSize hsome => ?_⟩ h
        rw [hsize] at hsome
        cases hsome
      | some localSize =>
        by_cases hzero : localSize i = 0
        · simp only [if_pos hzero]
          exact Or.inl ⟨⟨⟨globalSize, hglobal, hne⟩, localSize, hsize, hzero⟩, trivial⟩
        · have hnot : ¬r.DividesByZero i := by
            rintro ⟨-, localSize', hsome, hzero'⟩
            obtain rfl := Option.some.inj (hsize.symm.trans hsome)
            exact hzero hzero'
          simp only [if_neg hzero]
          by_cases hmod : (globalSize i).toNat % (localSize i).toNat = 0
          · by_cases hmax : r.maxWorkItemSizes i < localSize i
            · simp only [hmod, ne_eq, not_true_eq_false, if_false, if_pos hmax]
              exact Or.inr ⟨hnot, _, rfl⟩
            · refine absurd ⟨globalSize, hglobal, hne, fun localSize' hsome => ?_⟩ h
              obtain rfl := Option.some.inj (hsize.symm.trans hsome)
              exact ⟨hzero, Nat.dvd_of_mod_eq_zero hmod, hmax⟩
          · simp only [ne_eq, hmod, not_false_eq_true, if_true]
            exact Or.inr ⟨hnot, _, rfl⟩

/-- The event after the loop over the first dimensions, if they are all accepted. -/
structure Launch.Holds (r : Request w) (n : ℕ) (s : Launch w) : Prop where
  set : ∀ i < n, s.globalWorkOffset i = some ((r.globalWorkOffset.getD 0) i) ∧
    s.globalWorkSize i = some ((r.globalWorkSize.getD 0) i) ∧
    s.localWorkSize i = some (BitVec.ofNat w (r.localSize i))
  unset : ∀ i, n ≤ i → s.localWorkSize i = none
  workGroupSize : s.workGroupSize = r.comparedSize n

/-- A dimension that has been set, and the others. -/
lemma Launch.set_apply (s : Launch w) (i j : ℕ) (o g l : BitVec w) :
    (s.set i o g l).globalWorkOffset j = (if j = i then some o else s.globalWorkOffset j) ∧
      (s.set i o g l).globalWorkSize j = (if j = i then some g else s.globalWorkSize j) ∧
      (s.set i o g l).localWorkSize j = (if j = i then some l else s.localWorkSize j) := by
  simp only [Launch.set, Function.update_apply, and_self]

/-- The rounds of the loop: all dimensions are accepted, or the first one that is not makes the
constructor divide by zero or report an error. -/
lemma dimensions_cases (r : Request w) (n : ℕ) :
    (∀ i < n, r.Accepts i) ∧ (∃ s, r.dimensions n = .ok s ∧ s.Holds r n) ∨
      (∃ i < n, r.DividesByZero i ∧ ∀ j < i, r.Accepts j) ∧
        r.dimensions n = .error .remainderByZero ∨
      (∃ i < n, ¬r.Accepts i ∧ ¬r.DividesByZero i ∧ ∀ j < i, r.Accepts j) ∧
        ∃ error, r.dimensions n = .error (.reported error) := by
  induction n with
  | zero =>
    refine Or.inl ⟨by simp, Launch.unset, rfl, by simp, fun i _ => rfl, ?_⟩
    simp [Launch.unset, Request.comparedSize, Request.product]
  | succ n ih =>
    rw [Request.dimensions]
    rcases ih with ⟨hall, s, hs, hset, hunset, hsize⟩ | ⟨⟨i, hi, hzero, hfirst⟩, hfail⟩ |
      ⟨⟨i, hi, hnot, hnz, hfirst⟩, error, hfail⟩
    · by_cases hacc : r.Accepts n
      · refine Or.inl ⟨fun i hi => ?_, _, by rw [hs]; exact hacc.dimension s, fun i hi => ?_,
          fun i hi => ?_, ?_⟩
        · rcases Nat.lt_succ_iff_lt_or_eq.mp hi with hlt | rfl
          · exact hall i hlt
          · exact hacc
        · obtain ⟨h1, h2, h3⟩ := s.set_apply n i ((r.globalWorkOffset.getD 0) n)
            ((r.globalWorkSize.getD 0) n) (BitVec.ofNat w (r.localSize n))
          rcases Nat.lt_succ_iff_lt_or_eq.mp hi with hlt | rfl
          · rw [if_neg hlt.ne] at h1 h2 h3
            exact ⟨h1.trans (hset i hlt).1, h2.trans (hset i hlt).2.1, h3.trans (hset i hlt).2.2⟩
          · rw [if_pos rfl] at h1 h2 h3
            exact ⟨h1, h2, h3⟩
        · have h3 := (s.set_apply n i ((r.globalWorkOffset.getD 0) n) ((r.globalWorkSize.getD 0) n)
            (BitVec.ofNat w (r.localSize n))).2.2
          rw [if_neg (by omega)] at h3
          exact h3.trans (hunset i (by omega))
        · simp only [hsize, Request.comparedSize, Request.product, Finset.prod_range_succ]
          split
          · rw [BitVec.ofNat_mul]
          · rfl
      · rw [hs]
        rcases dimension_of_not_accepts hacc s with ⟨hzero, hfail⟩ | ⟨hnz, error, hfail⟩
        · exact Or.inr (Or.inl ⟨⟨n, by omega, hzero, hall⟩, hfail⟩)
        · exact Or.inr (Or.inr ⟨⟨n, by omega, hacc, hnz, hall⟩, error, hfail⟩)
    · rw [hfail]
      exact Or.inr (Or.inl ⟨⟨i, by omega, hzero, hfirst⟩, rfl⟩)
    · rw [hfail]
      exact Or.inr (Or.inr ⟨⟨i, by omega, hnot, hnz, hfirst⟩, error, rfl⟩)

/-- The loop over the missing dimensions sets them to one. -/
lemma Launch.missing_apply (s : Launch w) (i n j : ℕ) :
    (s.missing i n).workGroupSize = s.workGroupSize ∧
      (s.missing i n).globalWorkOffset j =
        (if i ≤ j ∧ j < i + n then some 0 else s.globalWorkOffset j) ∧
      (s.missing i n).globalWorkSize j =
        (if i ≤ j ∧ j < i + n then some 1 else s.globalWorkSize j) ∧
      (s.missing i n).localWorkSize j =
        (if i ≤ j ∧ j < i + n then some 1 else s.localWorkSize j) := by
  induction n with
  | zero =>
    have hno : ¬(i ≤ j ∧ j < i + 0) := by omega
    simp only [Launch.missing, if_neg hno, and_self]
  | succ n ih =>
    obtain ⟨h0, h1, h2, h3⟩ := ih
    obtain ⟨h1', h2', h3'⟩ := (s.missing i n).set_apply (i + n) j 0 1 1
    refine ⟨h0, ?_⟩
    simp only [Launch.missing, h1', h2', h3', h1, h2, h3]
    by_cases hj : j = i + n
    · simp only [if_pos hj, if_pos (show i ≤ j ∧ j < i + (n + 1) by omega), and_self]
    · have hsame : i ≤ j ∧ j < i + (n + 1) ↔ i ≤ j ∧ j < i + n := by omega
      simp only [if_neg hj, hsame, and_self]

/-! ### Sound launches -/

/-- The three dimensions are set, every local size is at least one and divides the global size, and
their product without wrap-around is within the limit. -/
def Launch.Sound (s : Launch w) (limit : ℕ) : Prop :=
  (∀ i < 3, ∃ offset globalSize localSize, s.globalWorkOffset i = some offset ∧
      s.globalWorkSize i = some globalSize ∧ s.localWorkSize i = some localSize ∧
      1 ≤ localSize.toNat ∧ localSize.toNat ∣ globalSize.toNat) ∧
    ∏ i ∈ Finset.range 3, ((s.localWorkSize i).getD 0).toNat ≤ limit

/-- The constructor does not divide by zero, and it reports success for sound launches only. -/
def Request.Sound (r : Request w) : Prop :=
  kernelEvent r ≠ .error .remainderByZero ∧
    ∀ s, kernelEvent r = .ok s → s.Sound r.maxWorkGroupSize.toNat

/-- The condition on the arguments: unless the checks in front of the dimensions fail, the first local
size is not zero, no later one is that is reached, and if all dimensions and the rest are accepted, the
device has three dimensions and the product of the local sizes does not wrap around its limit. -/
def Request.LaunchOk (r : Request w) : Prop :=
  r.sanity = none →
    ¬r.FirstZero ∧ (∀ i < r.workDim, (∀ j < i, r.Accepts j) → ¬r.DividesByZero i) ∧
      ((∀ i < r.workDim, r.Accepts i) → r.argumentError = none →
        ¬r.maxWorkGroupSize < r.comparedSize r.workDim →
          r.maxDims = 3 ∧ r.product r.workDim ≤ r.maxWorkGroupSize.toNat)

/-- What the checks in front of the dimensions say about their number. -/
lemma dims_of_sanity {r : Request w} (h : r.sanity = none) :
    0 < r.workDim ∧ r.workDim ≤ r.maxDims ∧ r.maxDims ≤ 3 := by
  unfold Request.sanity maxWorkDims at h
  grind

/-- A dimension that is missing has a local size of one. -/
lemma Launch.Holds.missing_apply {r : Request w} {s : Launch w} (h : s.Holds r r.workDim)
    (hle : r.workDim ≤ r.maxDims) (j : ℕ) :
    (s.missing r.workDim (r.maxDims - r.workDim)).localWorkSize j =
      if j < r.workDim then some (BitVec.ofNat w (r.localSize j))
      else if j < r.maxDims then some 1 else none := by
  rw [(s.missing_apply r.workDim (r.maxDims - r.workDim) j).2.2.2]
  by_cases hlt : j < r.workDim
  · rw [if_neg (by omega), if_pos hlt, (h.set j hlt).2.2]
  · rw [if_neg hlt]
    by_cases hmax : j < r.maxDims
    · rw [if_pos (by omega), if_pos hmax]
    · rw [if_neg (by omega), if_neg hmax, h.unset j (by omega)]

/-- The event at the end of the constructor is sound if and only if the device has three dimensions and
the product of the local sizes is within its limit. -/
lemma Launch.Holds.sound_iff {r : Request w} {s : Launch w} (h : s.Holds r r.workDim)
    (hall : ∀ i < r.workDim, r.Accepts i) (hpos : 0 < r.workDim) (hle : r.workDim ≤ r.maxDims)
    (hthree : r.maxDims ≤ 3) :
    (s.missing r.workDim (r.maxDims - r.workDim)).Sound r.maxWorkGroupSize.toNat ↔
      r.maxDims = 3 ∧ r.product r.workDim ≤ r.maxWorkGroupSize.toNat := by
  have hlocal := fun j => h.missing_apply hle j
  have hone : (1 : BitVec w).toNat = 1 := by
    have htwo : 1 < 2 ^ w := by
      obtain ⟨globalSize, -, hne, -⟩ := hall 0 hpos
      have hglobal := toNat_pos_of_ne hne
      have hlt := (globalSize 0).isLt
      omega
    simpa using Nat.mod_eq_of_lt htwo
  by_cases hdims : r.maxDims = 3
  · rw [and_iff_right hdims]
    have hprod : ∏ i ∈ Finset.range 3,
        (((s.missing r.workDim (r.maxDims - r.workDim)).localWorkSize i).getD 0).toNat =
          r.product r.workDim := by
      have hsplit : Finset.range r.workDim ⊆ Finset.range 3 :=
        Finset.range_subset_range.mpr (by omega)
      rw [Request.product, ← Finset.prod_subset hsplit]
      · refine Finset.prod_congr rfl fun i hi => ?_
        rw [Finset.mem_range] at hi
        rw [hlocal i, if_pos hi, Option.getD_some, BitVec.toNat_ofNat,
          Nat.mod_eq_of_lt (hall i hi).localSize.2.1]
      · intro i hi hnot
        rw [Finset.mem_range] at hi hnot
        rw [hlocal i, if_neg hnot, if_pos (by omega), Option.getD_some, hone]
    rw [Launch.Sound, hprod, and_iff_right]
    intro i hi
    obtain ⟨-, hoffset, hglobal, -⟩ := s.missing_apply r.workDim (r.maxDims - r.workDim) i
    by_cases hlt : i < r.workDim
    · obtain ⟨hsizePos, hword, hdvd⟩ := (hall i hlt).localSize
      have hsize : (BitVec.ofNat w (r.localSize i)).toNat = r.localSize i := by
        rw [BitVec.toNat_ofNat, Nat.mod_eq_of_lt hword]
      refine ⟨(r.globalWorkOffset.getD 0) i, (r.globalWorkSize.getD 0) i, _, hoffset.trans ?_,
        hglobal.trans ?_, (hlocal i).trans (if_pos hlt), ?_, ?_⟩
      · rw [if_neg (by omega), (h.set i hlt).1]
      · rw [if_neg (by omega), (h.set i hlt).2.1]
      · rw [hsize]
        exact hsizePos
      · rw [hsize]
        exact hdvd
    · have hin : r.workDim ≤ i ∧ i < r.workDim + (r.maxDims - r.workDim) := by omega
      rw [if_pos hin] at hoffset hglobal
      refine ⟨0, 1, 1, hoffset, hglobal, ?_, hone.ge, dvd_rfl⟩
      rw [hlocal i, if_neg hlt, if_pos (by omega)]
  · refine iff_of_false (fun hsound => ?_) fun hcon => hdims hcon.1
    obtain ⟨o, g, l, -, -, hl, -⟩ := hsound.1 r.maxDims (by omega)
    rw [hlocal r.maxDims, if_neg (by omega), if_neg (lt_irrefl _)] at hl
    cases hl

/-- For all arguments, the launch is sound if and only if they meet the condition. -/
theorem launch_sound_iff (r : Request w) : r.Sound ↔ r.LaunchOk := by
  unfold Request.Sound Request.LaunchOk kernelEvent
  cases hsanity : r.sanity with
  | some error => simp
  | none =>
    obtain ⟨hpos, hle, hthree⟩ := dims_of_sanity hsanity
    simp only [forall_const]
    by_cases hzero : r.FirstZero
    · rw [if_pos hzero]
      refine iff_of_false (fun hsound => ?_) fun hcon => hcon.1 hzero
      obtain ⟨o, g, l, ho, -⟩ := (hsound.2 _ rfl).1 0 (by omega)
      cases ho
    · rw [if_neg hzero, and_iff_right hzero]
      rcases dimensions_cases r r.workDim with ⟨hall, s, hs, hholds⟩ | ⟨⟨i, hi, hdiv, hfirst⟩, hfail⟩ |
        ⟨⟨i, hi, hnot, hnz, hfirst⟩, error, hfail⟩
      · have hdiv : ∀ i < r.workDim, (∀ j < i, r.Accepts j) → ¬r.DividesByZero i := by
          rintro i hi - ⟨-, localSize, hlocal, hl⟩
          obtain ⟨globalSize, -, -, hacc⟩ := hall i hi
          exact (hacc localSize hlocal).1 hl
        have hsize : (s.missing r.workDim (r.maxDims - r.workDim)).workGroupSize =
            r.comparedSize r.workDim :=
          (s.missing_apply r.workDim (r.maxDims - r.workDim) 0).1.trans hholds.workGroupSize
        have hbind : ∀ f : Launch w → Except Failure (Launch w), (Except.ok s >>= f) = f s :=
          fun f => rfl
        rw [hs, and_iff_right hdiv, hbind]
        simp only [Request.finish, hsize]
        rw [← hholds.sound_iff hall hpos hle hthree]
        by_cases hmax : r.maxWorkGroupSize < r.comparedSize r.workDim
        · simp [hmax]
        · cases hargs : r.argumentError with
          | some error => simp [hmax]
          | none =>
            have htrue : (∀ i < r.workDim, r.Accepts i) ↔ True := iff_true_intro hall
            simp [hmax, htrue]
      · rw [hfail]
        refine iff_of_false (fun hsound => hsound.1 rfl) fun hcon => ?_
        exact hcon.1 i hi hfirst hdiv
      · rw [hfail]
        refine iff_of_true ⟨fun hcon => ?_, fun s hcon => ?_⟩
          ⟨fun k hk hbefore hdiv => ?_, fun hall => ?_⟩
        · cases hcon
        · cases hcon
        · -- The dimension that is rejected comes before any other one that is not accepted.
          rcases lt_trichotomy k i with hlt | rfl | hgt
          · obtain ⟨globalSize, -, -, hacc⟩ := hfirst k hlt
            obtain ⟨-, localSize, hlocal, hl⟩ := hdiv
            exact (hacc localSize hlocal).1 hl
          · exact hnz hdiv
          · exact hnot (hbefore i hgt)
        · exact absurd (hall i hi) hnot

/-- A launch in one dimension on a device with the limits of the DSP. -/
def oneDimension (globalSize localSize : BitVec 64) : Request 64 where
  eventError := none
  kernel := true
  infoError := none
  devKernel := true
  kernelContext := 0
  queueContext := 0
  argsSpecified := true
  reqdWorkGroupSize := fun _ => 0
  maxDims := 3
  maxWorkGroupSize := 0x40000000
  maxWorkItemSizes := fun _ => 0x40000000
  dspCores := 8
  workDim := 1
  globalWorkOffset := none
  globalWorkSize := some fun _ => globalSize
  localWorkSize := some fun _ => localSize
  argumentError := none

/-- A launch in two dimensions whose second local size is zero. -/
def zeroSecond : Request 64 :=
  { oneDimension 64 8 with workDim := 2, localWorkSize := some fun i => if i = 0 then 8 else 0 }

/-- A local size of zero makes the constructor divide by zero, or report success with nothing set. -/
theorem not_launch_sound :
    kernelEvent zeroSecond = .error .remainderByZero ∧ ¬zeroSecond.Sound ∧
      ¬(oneDimension 64 0).Sound := by
  have hfail : kernelEvent zeroSecond = .error .remainderByZero := rfl
  refine ⟨hfail, fun hsound => hsound.1 hfail, fun hsound => ?_⟩
  obtain ⟨o, g, l, ho, -⟩ := (hsound.2 _ rfl).1 0 (by omega)
  cases ho

end Kernels

end TiOpenCL
