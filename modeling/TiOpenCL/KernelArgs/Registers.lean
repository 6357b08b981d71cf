import Mathlib.Tactic.IntervalCases
import TiOpenCL.KernelArgs.CallArgs

/-!
# Register pairs and quads

The array `args_in_reg` holds ten pairs of words, in the order A5:A4, B5:B4, A7:A6 and so on.  The four
cursors of `getarg_inreg_index` stand for a set of pairs that are taken: on each side all pairs below
the first free quad, except that one half of the last taken quad may be left over and is filled later.
-/

namespace TiOpenCL

namespace KernelArgs

/-- The cursors of one side: no quad is half used, or the second half of one is free. -/
def SideOk (pair quad : ℕ) : Prop :=
  4 ≤ pair ∧ (pair % 4 = 0 ∧ pair = quad ∨ pair % 4 = 2 ∧ pair + 2 ≤ quad ∧ quad % 4 = 0)

/-- The cursors of both sides. -/
structure CursorsOk (c : Cursors) : Prop where
  /-- The side of the registers A4 to A13. -/
  a : SideOk c.apair c.aquad
  /-- The side of the registers B4 to B13. -/
  b : SideOk c.bpair c.bquad

/-- A pair is taken; pairs of the two sides alternate. -/
def Taken (c : Cursors) (j : ℕ) : Prop :=
  if j % 2 = 0 then j + 4 < c.aquad ∧ j + 4 ≠ c.apair else j + 3 < c.bquad ∧ j + 3 ≠ c.bpair

/-- At the start no pair is taken. -/
theorem not_taken_init (j : ℕ) : ¬ Taken ⟨regStart, regStart, regStart, regStart⟩ j := by
  unfold Taken
  split <;> exact fun h => absurd h.1 (by dsimp only [regStart]; omega)

/-- The pairs of an argument of some size whose first pair is given. -/
def pairsOf (sz j : ℕ) : List ℕ := if sz ≤ 8 then [j] else [j, j + 2]

/-- What `getarg_inreg_index` does when it finds a place: it takes free pairs. -/
structure Takes (c c' : Cursors) (pairs : List ℕ) : Prop where
  /-- The cursors stay meaningful. -/
  ok : CursorsOk c'
  /-- The pairs are in the array. -/
  lt : ∀ j ∈ pairs, j < 10
  /-- The pairs were free. -/
  free : ∀ j ∈ pairs, ¬ Taken c j
  /-- The pairs are taken now. -/
  taken : ∀ j ∈ pairs, Taken c' j
  /-- The pairs that were taken stay so. -/
  mono : ∀ j, Taken c j → Taken c' j

/-- The pairs of the first side that a step of its cursors takes. -/
theorem takes_of_a {c : Cursors} {p q : ℕ} {regs : List ℕ} (h : CursorsOk c) (hok : SideOk p q)
    (hregs : ∀ r ∈ regs, 4 ≤ r ∧ r % 2 = 0 ∧ r < 14 ∧ ¬ (r < c.aquad ∧ r ≠ c.apair) ∧ r < q ∧ r ≠ p)
    (hmono : ∀ r, r < c.aquad → r ≠ c.apair → r < q ∧ r ≠ p) :
    Takes c { c with apair := p, aquad := q } (regs.map (· - 4)) := by
  have hpair : ∀ j ∈ regs.map (· - 4), ∃ r ∈ regs, r = j + 4 ∧ j % 2 = 0 := by
    intro j hj
    obtain ⟨r, hr, rfl⟩ := List.mem_map.1 hj
    obtain ⟨hlow, heven, -⟩ := hregs r hr
    exact ⟨r, hr, by omega, by omega⟩
  refine ⟨⟨hok, h.b⟩, ?_, ?_, ?_, ?_⟩
  · intro j hj
    obtain ⟨r, hr, rfl, -⟩ := hpair j hj
    have := (hregs _ hr).2.2.1
    omega
  · intro j hj
    obtain ⟨r, hr, rfl, heven⟩ := hpair j hj
    rw [Taken, if_pos heven]
    exact (hregs _ hr).2.2.2.1
  · intro j hj
    obtain ⟨r, hr, rfl, heven⟩ := hpair j hj
    rw [Taken, if_pos heven]
    exact (hregs _ hr).2.2.2.2
  · intro j hj
    unfold Taken at hj ⊢
    split at hj
    · next heven =>
      rw [if_pos heven]
      exact hmono _ hj.1 hj.2
    · next hodd =>
      rw [if_neg hodd]
      exact hj

/-- The pairs of the second side that a step of its cursors takes. -/
theorem takes_of_b {c : Cursors} {p q : ℕ} {regs : List ℕ} (h : CursorsOk c) (hok : SideOk p q)
    (hregs : ∀ r ∈ regs, 4 ≤ r ∧ r % 2 = 0 ∧ r < 14 ∧ ¬ (r < c.bquad ∧ r ≠ c.bpair) ∧ r < q ∧ r ≠ p)
    (hmono : ∀ r, r < c.bquad → r ≠ c.bpair → r < q ∧ r ≠ p) :
    Takes c { c with bpair := p, bquad := q } (regs.map (· - 3)) := by
  have hpair : ∀ j ∈ regs.map (· - 3), ∃ r ∈ regs, r = j + 3 ∧ ¬ j % 2 = 0 := by
    intro j hj
    obtain ⟨r, hr, rfl⟩ := List.mem_map.1 hj
    obtain ⟨hlow, heven, -⟩ := hregs r hr
    exact ⟨r, hr, by omega, by omega⟩
  refine ⟨⟨h.a, hok⟩, ?_, ?_, ?_, ?_⟩
  · intro j hj
    obtain ⟨r, hr, rfl, hodd⟩ := hpair j hj
    have := hregs _ hr
    omega
  · intro j hj
    obtain ⟨r, hr, rfl, hodd⟩ := hpair j hj
    rw [Taken, if_neg hodd]
    exact (hregs _ hr).2.2.2.1
  · intro j hj
    obtain ⟨r, hr, rfl, hodd⟩ := hpair j hj
    rw [Taken, if_neg hodd]
    exact (hregs _ hr).2.2.2.2
  · intro j hj
    unfold Taken at hj ⊢
    split at hj
    · next heven =>
      rw [if_pos heven]
      exact hj
    · next hodd =>
      rw [if_neg hodd]
      exact hmono _ hj.1 hj.2

/-- The cursors of a side after a pair is taken. -/
def nextPair (pair quad : ℕ) : ℕ × ℕ :=
  if (pair + 2) % 4 ≠ 0 then (pair + 2, quad + 4)
  else if pair + 2 < quad then (quad, quad) else (pair + 2, quad)

/-- The cursors of a side after a quad is taken. -/
def nextQuad (pair quad : ℕ) : ℕ × ℕ := (if pair = quad then pair + 4 else pair, quad + 4)

/-- A pair of a side that is taken was free, and nothing else changes. -/
theorem nextPair_spec {pair quad : ℕ} (h : SideOk pair quad) :
    SideOk (nextPair pair quad).1 (nextPair pair quad).2 ∧ pair < (nextPair pair quad).2 ∧
      pair ≠ (nextPair pair quad).1 ∧
      ∀ r, r < quad → r ≠ pair → r < (nextPair pair quad).2 ∧ r ≠ (nextPair pair quad).1 := by
  unfold SideOk at h ⊢
  unfold nextPair
  split
  · refine ⟨by dsimp only; omega, by dsimp only; omega, by dsimp only; omega, ?_⟩
    intro r hlt hne
    dsimp only
    omega
  · split
    · refine ⟨by dsimp only; omega, by dsimp only; omega, by dsimp only; omega, ?_⟩
      intro r hlt hne
      dsimp only
      omega
    · refine ⟨by dsimp only; omega, by dsimp only; omega, by dsimp only; omega, ?_⟩
      intro r hlt hne
      dsimp only
      omega

/-- A quad of a side that is taken was free, and nothing else changes. -/
theorem nextQuad_spec {pair quad : ℕ} (h : SideOk pair quad) :
    SideOk (nextQuad pair quad).1 (nextQuad pair quad).2 ∧
      (∀ r, r = quad ∨ r = quad + 2 → r < (nextQuad pair quad).2 ∧ r ≠ (nextQuad pair quad).1) ∧
      ∀ r, r < quad → r ≠ pair → r < (nextQuad pair quad).2 ∧ r ≠ (nextQuad pair quad).1 := by
  unfold SideOk at h ⊢
  unfold nextQuad
  dsimp only
  split
  · exact ⟨by omega, fun r hr => by omega, fun r hlt hne => by omega⟩
  · exact ⟨by omega, fun r hr => by omega, fun r hlt hne => by omega⟩

/-- `getarg_inreg_index` takes a pair or a quad, or changes nothing. -/
theorem getargInregIndex_spec {c : Cursors} (h : CursorsOk c) (sz : ℕ) :
    (getargInregIndex sz c).1 = none ∧ (getargInregIndex sz c).2 = c ∨
      ∃ j, (getargInregIndex sz c).1 = some (2 * j) ∧ sz ≤ 16 ∧
        Takes c (getargInregIndex sz c).2 (pairsOf sz j) := by
  have ha := h.a
  have hb := h.b
  unfold SideOk at ha hb
  unfold getargInregIndex
  split
  · next hsz =>
    split
    · dsimp only
      split
      · exact Or.inl ⟨rfl, rfl⟩
      · next hfree =>
        unfold totalRegs regStart at hfree
        refine Or.inr ⟨c.apair - 4, by simp [regStart, Nat.mul_comm], by omega, ?_⟩
        obtain ⟨hok, hlt, hne, hmono⟩ := nextPair_spec h.a
        have hregs : ∀ r ∈ [c.apair], 4 ≤ r ∧ r % 2 = 0 ∧ r < 14 ∧ ¬ (r < c.aquad ∧ r ≠ c.apair) ∧
            r < (nextPair c.apair c.aquad).2 ∧ r ≠ (nextPair c.apair c.aquad).1 := by
          intro r hr
          obtain rfl := List.mem_singleton.1 hr
          exact ⟨by omega, by omega, by omega, by tauto, hlt, hne⟩
        have htakes := takes_of_a h hok hregs hmono
        rw [pairsOf, if_pos hsz]
        unfold nextPair at htakes
        split at htakes
        · next hhalf =>
          rw [if_pos hhalf]
          exact htakes
        · next hhalf =>
          rw [if_neg hhalf]
          split at htakes
          · next hbehind =>
            rw [if_pos hbehind]
            exact htakes
          · next hbehind =>
            rw [if_neg hbehind]
            exact htakes
    · dsimp only
      split
      · exact Or.inl ⟨rfl, rfl⟩
      · next hfree =>
        unfold totalRegs regStart at hfree
        refine Or.inr ⟨c.bpair - 3, by dsimp only [regStart]; congr 1; omega, by omega, ?_⟩
        obtain ⟨hok, hlt, hne, hmono⟩ := nextPair_spec h.b
        have hregs : ∀ r ∈ [c.bpair], 4 ≤ r ∧ r % 2 = 0 ∧ r < 14 ∧ ¬ (r < c.bquad ∧ r ≠ c.bpair) ∧
            r < (nextPair c.bpair c.bquad).2 ∧ r ≠ (nextPair c.bpair c.bquad).1 := by
          intro r hr
          obtain rfl := List.mem_singleton.1 hr
          exact ⟨by omega, by omega, by omega, by tauto, hlt, hne⟩
        have htakes := takes_of_b h hok hregs hmono
        rw [pairsOf, if_pos hsz]
        unfold nextPair at htakes
        split at htakes
        · next hhalf =>
          rw [if_pos hhalf]
          exact htakes
        · next hhalf =>
          rw [if_neg hhalf]
          split at htakes
          · next hbehind =>
            rw [if_pos hbehind]
            exact htakes
          · next hbehind =>
            rw [if_neg hbehind]
            exact htakes
  · next hsz =>
    split
    · next hsmall =>
      split
      · dsimp only
        split
        · exact Or.inl ⟨rfl, rfl⟩
        · next hfree =>
          unfold totalRegs regStart at hfree
          refine Or.inr ⟨c.aquad - 4, by simp [regStart, Nat.mul_comm], hsmall, ?_⟩
          obtain ⟨hok, hregs, hmono⟩ := nextQuad_spec h.a
          have hregs' : ∀ r ∈ [c.aquad, c.aquad + 2], 4 ≤ r ∧ r % 2 = 0 ∧ r < 14 ∧
              ¬ (r < c.aquad ∧ r ≠ c.apair) ∧ r < (nextQuad c.apair c.aquad).2 ∧
              r ≠ (nextQuad c.apair c.aquad).1 := by
            intro r hr
            have hr' : r = c.aquad ∨ r = c.aquad + 2 := by simpa using hr
            exact ⟨by omega, by omega, by omega, by omega, hregs r hr'⟩
          have htakes := takes_of_a h hok hregs' hmono
          have hsecond : c.aquad - 4 + 2 = c.aquad + 2 - 4 := by omega
          rw [pairsOf, if_neg hsz, hsecond]
          exact htakes
      · dsimp only
        split
        · exact Or.inl ⟨rfl, rfl⟩
        · next hfree =>
          unfold totalRegs regStart at hfree
          refine Or.inr ⟨c.bquad - 3, by dsimp only [regStart]; congr 1; omega, hsmall, ?_⟩
          obtain ⟨hok, hregs, hmono⟩ := nextQuad_spec h.b
          have hregs' : ∀ r ∈ [c.bquad, c.bquad + 2], 4 ≤ r ∧ r % 2 = 0 ∧ r < 14 ∧
              ¬ (r < c.bquad ∧ r ≠ c.bpair) ∧ r < (nextQuad c.bpair c.bquad).2 ∧
              r ≠ (nextQuad c.bpair c.bquad).1 := by
            intro r hr
            have hr' : r = c.bquad ∨ r = c.bquad + 2 := by simpa using hr
            exact ⟨by omega, by omega, by omega, by omega, hregs r hr'⟩
          have htakes := takes_of_b h hok hregs' hmono
          have hsecond : c.bquad - 3 + 2 = c.bquad + 2 - 3 := by omega
          rw [pairsOf, if_neg hsz, hsecond]
          exact htakes
    · exact Or.inl ⟨rfl, rfl⟩

/-! ### The registers that the device loads -/

/-- The number of words that the device loads is a multiple of four, and at most twenty. -/
theorem argsInRegSize_mod {c : Cursors} (h : CursorsOk c) :
    argsInRegSize c % 4 = 0 ∧ argsInRegSize c ≤ totalRegs := by
  obtain ⟨ha, hb⟩ := h
  unfold SideOk at ha hb
  unfold argsInRegSize totalRegs regStart
  dsimp only
  split <;> omega

/-- Both words of a pair that is taken are loaded. -/
theorem lt_argsInRegSize_of_taken {c : Cursors} (h : CursorsOk c) {j : ℕ} (hj : j < 10)
    (htaken : Taken c j) : 2 * j + 1 < argsInRegSize c := by
  obtain ⟨ha, hb⟩ := h
  unfold SideOk at ha hb
  unfold Taken at htaken
  unfold argsInRegSize totalRegs regStart
  dsimp only
  split at htaken <;> split <;> omega

/-- The two sides of the register file. -/
inductive Side
  | a
  | b
  deriving DecidableEq

/-- The state of `dsp_rpc` while it loads registers. -/
structure Loader where
  /-- `A1`, the number of words that are left. -/
  left : ℕ
  /-- The index of the next word, from `A0` and `B3`. -/
  next : ℕ
  /-- The registers. -/
  regs : Side → ℕ → ℕ

/-- `NEW_ARG_HANDLER`: load a pair of each side if words are left. -/
def newArgHandler (words : ℕ → ℕ) (l : Loader) (r : ℕ) : Loader :=
  if l.left = 0 then l
  else
    { left := l.left - 4
      next := l.next + 4
      regs := fun side n =>
        if n = r then words (l.next + if side = .a then 0 else 2)
        else if n = r + 1 then words (l.next + if side = .a then 1 else 3)
        else l.regs side n }

/-- The registers after `dsp_rpc` has loaded the words of the message. -/
def dspRpcRegs (words : ℕ → ℕ) (numRegs : ℕ) (regs : Side → ℕ → ℕ) : Side → ℕ → ℕ :=
  ([4, 6, 8, 10, 12].foldl (newArgHandler words) ⟨numRegs, 0, regs⟩).regs

/-- The side that an index of `args_in_reg` stands for. -/
def sideOf (index : ℕ) : Side := if index % 4 < 2 then .a else .b

/-- The number of the register that an index of `args_in_reg` stands for. -/
def regOf (index : ℕ) : ℕ := regStart + index / 4 * 2 + index % 2

/-- The device loads every word into the register that its index stands for. -/
theorem dspRpcRegs_apply (words : ℕ → ℕ) (regs : Side → ℕ → ℕ) {numRegs index : ℕ}
    (hmod : numRegs % 4 = 0) (hle : numRegs ≤ totalRegs) (hindex : index < numRegs) :
    dspRpcRegs words numRegs regs (sideOf index) (regOf index) = words index := by
  obtain ⟨m, rfl⟩ : ∃ m, numRegs = 4 * m := ⟨numRegs / 4, by omega⟩
  have hm : m ≤ 5 := by
    unfold totalRegs at hle
    omega
  interval_cases m <;> interval_cases index <;> rfl

end KernelArgs

end TiOpenCL
