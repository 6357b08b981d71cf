import TiOpenCL.Kernels.Launch

/-!
# Guessed work-group sizes

`DSPKernel::guessWorkGroupSize` looks for a divisor of the global size from the number of cores down,
and always finds one.  `CPUKernel::guessWorkGroupSize` was to look from the number of processors up,
but its loop never changes the divisor: if the first round does not end it, no round does.
-/

namespace TiOpenCL

namespace Kernels

variable {w : ℕ}

/-! ### The guess of the CPU -/

/-- The rounds of the loop of `k_exp`. -/
def kExpLoop (base : BitVec w) : ℕ → BitVec w → BitVec w
  | 0, rs => rs
  | n + 1, rs => kExpLoop base n (rs * base)

/-- `k_exp`. -/
def kExp (base : BitVec w) (e : ℕ) : BitVec w := kExpLoop base (e - 1) base

/-- How `CPUKernel::guessWorkGroupSize` ends. -/
inductive Guess
  | size (localSize : ℕ)
  | remainderByZero
  deriving DecidableEq

/-- The loop of `CPUKernel::guessWorkGroupSize`; `none` when the fuel runs out. -/
def cpuLoop (cpus : BitVec 32) (globalWorkSize : BitVec w) : ℕ → BitVec 32 → Option Guess
  | 0, _ => none
  | fuel + 1, divisor =>
    if divisor = 0 then some .remainderByZero
    else if globalWorkSize.toNat % divisor.toNat = 0 then
      some (.size (globalWorkSize.toNat / divisor.toNat))
    else if globalWorkSize.toNat < divisor.toNat ∨ (cpus * 32).toNat < divisor.toNat then
      some (.size (globalWorkSize.toNat / 1))
    -- the divisor stays as it is
    else cpuLoop cpus globalWorkSize fuel divisor

/-- `CPUKernel::guessWorkGroupSize`. -/
def cpuGuessWorkGroupSize (cpus : BitVec 32) (numDims : ℕ) (globalWorkSize : BitVec w) (fuel : ℕ) :
    Option Guess :=
  if 64 < (kExp globalWorkSize numDims).toNat then some (.size globalWorkSize.toNat)
  else cpuLoop cpus globalWorkSize fuel cpus

/-- The first round of the loop ends it. -/
def EndsAtOnce (cpus : BitVec 32) (globalWorkSize : BitVec w) : Prop :=
  cpus.toNat ∣ globalWorkSize.toNat ∨ globalWorkSize.toNat < cpus.toNat ∨
    (cpus * 32).toNat < cpus.toNat

instance (cpus : BitVec 32) (globalWorkSize : BitVec w) : Decidable (EndsAtOnce cpus globalWorkSize) :=
  inferInstanceAs (Decidable (_ ∨ _ ∨ _))

/-- The loop never ends if the first round does not end it. -/
lemma cpuLoop_eq_none {cpus : BitVec 32} {globalWorkSize : BitVec w} (hcpus : cpus ≠ 0)
    (hrun : ¬EndsAtOnce cpus globalWorkSize) (fuel : ℕ) :
    cpuLoop cpus globalWorkSize fuel cpus = none := by
  obtain ⟨hdvd, hrest⟩ := not_or.mp hrun
  induction fuel with
  | zero => rfl
  | succ fuel ih =>
    have hmod : ¬globalWorkSize.toNat % cpus.toNat = 0 := fun hzero =>
      hdvd (Nat.dvd_of_mod_eq_zero hzero)
    rw [cpuLoop, if_neg hcpus, if_neg hmod, if_neg hrest]
    exact ih

/-- A loop that the first round ends finds a divisor of the global size. -/
lemma cpuLoop_eq_some {cpus : BitVec 32} {globalWorkSize : BitVec w} (hcpus : cpus ≠ 0)
    (hpos : 0 < globalWorkSize.toNat) (hends : EndsAtOnce cpus globalWorkSize) :
    ∃ l, (∀ fuel, cpuLoop cpus globalWorkSize (fuel + 1) cpus = some (.size l)) ∧ 0 < l ∧
      l ∣ globalWorkSize.toNat := by
  have hcpuspos : 0 < cpus.toNat := toNat_pos_of_ne hcpus
  by_cases hdvd : cpus.toNat ∣ globalWorkSize.toNat
  · refine ⟨globalWorkSize.toNat / cpus.toNat, fun fuel => ?_,
      Nat.div_pos (Nat.le_of_dvd hpos hdvd) hcpuspos, Nat.div_dvd_of_dvd hdvd⟩
    rw [cpuLoop, if_neg hcpus, if_pos (Nat.mod_eq_zero_of_dvd hdvd)]
  · have hmod : ¬globalWorkSize.toNat % cpus.toNat = 0 := fun hzero =>
      hdvd (Nat.dvd_of_mod_eq_zero hzero)
    have hrest := hends.resolve_left hdvd
    refine ⟨globalWorkSize.toNat, fun fuel => ?_, hpos, dvd_rfl⟩
    rw [cpuLoop, if_neg hcpus, if_neg hmod, if_pos hrest, Nat.div_one]

/-! ### Both guesses -/

/-- A work-group size that is legal in a dimension. -/
def LegalSize (globalWorkSize : BitVec w) (l : ℕ) : Prop := 1 ≤ l ∧ l ∣ globalWorkSize.toNat

/-- Both kernels guess a legal size: they divide by nothing that is zero, and end. -/
structure GuessesLegal (cores : BitVec 32) (numDims : ℕ) (globalWorkSize : BitVec w) : Prop where
  dsp : ∃ l, guessWorkGroupSize cores globalWorkSize.toNat = some l ∧ LegalSize globalWorkSize l
  cpu : ∃ l, (∃ fuel₀, ∀ fuel, fuel₀ ≤ fuel →
    cpuGuessWorkGroupSize cores numDims globalWorkSize fuel = some (.size l)) ∧
      LegalSize globalWorkSize l

/-- Both kernels guess a legal size if and only if the CPU does not come to its loop, or has a
processor and leaves the loop in the first round. -/
theorem guesses_legal_iff (cores : BitVec 32) (numDims : ℕ) (globalWorkSize : BitVec w)
    (hpos : 1 ≤ globalWorkSize.toNat) :
    GuessesLegal cores numDims globalWorkSize ↔
      64 < (kExp globalWorkSize numDims).toNat ∨ cores ≠ 0 ∧ EndsAtOnce cores globalWorkSize := by
  constructor
  · rintro ⟨-, l, ⟨fuel₀, hfuel⟩, -⟩
    by_cases hexp : 64 < (kExp globalWorkSize numDims).toNat
    · exact Or.inl hexp
    · have hloop := hfuel (fuel₀ + 1) (Nat.le_succ fuel₀)
      rw [cpuGuessWorkGroupSize, if_neg hexp] at hloop
      have hcores : cores ≠ 0 := by
        intro hzero
        rw [cpuLoop, if_pos hzero] at hloop
        cases hloop
      refine Or.inr ⟨hcores, ?_⟩
      by_contra hrun
      rw [cpuLoop_eq_none hcores hrun] at hloop
      cases hloop
  · intro hcond
    refine ⟨guessWorkGroupSize_spec cores hpos, ?_⟩
    by_cases hexp : 64 < (kExp globalWorkSize numDims).toNat
    · refine ⟨globalWorkSize.toNat, ⟨0, fun fuel _ => ?_⟩, hpos, dvd_rfl⟩
      rw [cpuGuessWorkGroupSize, if_pos hexp]
    · obtain ⟨hcores, hends⟩ := hcond.resolve_left hexp
      obtain ⟨l, hloop, hlegal⟩ := cpuLoop_eq_some hcores hpos hends
      refine ⟨l, ⟨1, fun fuel hfuel => ?_⟩, hlegal⟩
      obtain ⟨n, rfl⟩ := Nat.exists_eq_add_of_le' hfuel
      rw [cpuGuessWorkGroupSize, if_neg hexp]
      exact hloop n

/-- Sixteen work items on two cores. -/
theorem guesses_legal_sixteen : GuessesLegal 2 1 (16 : BitVec 64) :=
  (guesses_legal_iff 2 1 16 (by decide)).mpr (Or.inr (by decide))

/-- With three work items and two processors the loop of the CPU never ends. -/
theorem not_guesses_legal :
    (∀ fuel, cpuGuessWorkGroupSize 2 1 (3 : BitVec 64) fuel = none) ∧
      ¬GuessesLegal 2 1 (3 : BitVec 64) := by
  have hloop : ∀ fuel, cpuGuessWorkGroupSize 2 1 (3 : BitVec 64) fuel = none := by
    intro fuel
    rw [cpuGuessWorkGroupSize, if_neg (by decide)]
    exact cpuLoop_eq_none (by decide) (by decide) fuel
  refine ⟨hloop, fun h => ?_⟩
  obtain ⟨l, ⟨fuel₀, hfuel⟩, -⟩ := h.cpu
  have hsize := hfuel fuel₀ le_rfl
  rw [hloop fuel₀] at hsize
  cases hsize

end Kernels

end TiOpenCL
