import Mathlib.Data.BitVec
import Mathlib.Data.Set.Function

/-!
# Moves of bytes

A memory is a function from addresses to bytes, and a move writes one byte of it: a copy of another
one, or a given value.  Moves under two names of the same bytes do the same (`Agree.moveAll`), as long
as no two names of one side stand for one name of the other.  Addresses that are words wrap around, and
two runs of them are apart if and only if their starts are (`separated_iff`).
-/

namespace TiOpenCL.ByteMoves

variable {α γ β : Type*}

/-- Where the byte comes from that is written. -/
inductive Source (α β : Type*)
  /-- From an address. -/
  | cell (a : α)
  /-- A given byte. -/
  | value (b : β)
  deriving DecidableEq

/-- One byte is written. -/
structure Move (α β : Type*) where
  dst : α
  src : Source α β
  deriving DecidableEq

/-- The byte that is written. -/
def Source.read (m : α → β) : Source α β → β
  | .cell a => m a
  | .value b => b

/-- The addresses that a source reads. -/
def Source.cells : Source α β → List α
  | .cell a => [a]
  | .value _ => []

/-- A source under other addresses. -/
def Source.map (f : α → γ) : Source α β → Source γ β
  | .cell a => .cell (f a)
  | .value b => .value b

/-- A move under other addresses. -/
def Move.map (f : α → γ) (v : Move α β) : Move γ β := ⟨f v.dst, v.src.map f⟩

/-- The memory after one move. -/
def Move.run [DecidableEq α] (m : α → β) (v : Move α β) : α → β :=
  Function.update m v.dst (v.src.read m)

/-- The memory after moves in order. -/
def moveAll [DecidableEq α] (m : α → β) (l : List (Move α β)) : α → β := l.foldl Move.run m

/-- All addresses of a move are in a set. -/
def Move.Within (s : Set α) (v : Move α β) : Prop := v.dst ∈ s ∧ ∀ a ∈ v.src.cells, a ∈ s

/-- A memory holds the bytes of another one under other addresses. -/
def Agree (f : α → γ) (s : Set α) (m : α → β) (m' : γ → β) : Prop := ∀ a ∈ s, m' (f a) = m a

variable {f : α → γ} {s : Set α} {m : α → β} {m' : γ → β}

/-- The same byte is read under both names. -/
lemma Agree.read (h : Agree f s m m') {x : Source α β} (hx : ∀ a ∈ x.cells, a ∈ s) :
    (x.map f).read m' = x.read m := by
  cases x with
  | cell a => exact h a (hx a (List.mem_singleton_self a))
  | value b => rfl

section

variable [DecidableEq α]

/-- A move keeps what is not written. -/
lemma moveAll_of_not_mem {l : List (Move α β)} {a : α} (h : ∀ v ∈ l, v.dst ≠ a) :
    moveAll m l a = m a := by
  induction l generalizing m with
  | nil => rfl
  | cons v l ih =>
    have hrest := ih (m := v.run m) fun v' hv' => h v' (List.mem_cons_of_mem _ hv')
    rw [moveAll, List.foldl_cons, ← moveAll, hrest]
    exact Function.update_of_ne (h v List.mem_cons_self).symm _ _

variable [DecidableEq γ]

/-- The same move under both names. -/
lemma Agree.run (h : Agree f s m m') (hf : Set.InjOn f s) {v : Move α β} (hv : v.Within s) :
    Agree f s (v.run m) ((v.map f).run m') := by
  intro a ha
  by_cases hav : a = v.dst
  · subst hav
    rw [Move.run, Move.run, Function.update_self]
    show Function.update m' (f v.dst) _ (f v.dst) = _
    rw [Function.update_self]
    exact h.read hv.2
  · have hne : f a ≠ f v.dst := fun heq => hav (hf ha hv.1 heq)
    rw [Move.run, Move.run, Function.update_of_ne hav]
    show Function.update m' (f v.dst) _ (f a) = _
    rw [Function.update_of_ne hne]
    exact h a ha

/-- The same moves under both names. -/
theorem Agree.moveAll (h : Agree f s m m') (hf : Set.InjOn f s) {l : List (Move α β)}
    (hl : ∀ v ∈ l, v.Within s) :
    Agree f s (ByteMoves.moveAll m l) (ByteMoves.moveAll m' (l.map (Move.map f))) := by
  induction l generalizing m m' with
  | nil => exact h
  | cons v l ih =>
    exact ih (h.run hf (hl v List.mem_cons_self)) fun v' hv' => hl v' (List.mem_cons_of_mem _ hv')

end

/-! ### Runs of bytes -/

/-- Two addresses are at least `n` bytes apart, either way round. -/
def Separated {v : ℕ} (n : ℕ) (a b : BitVec v) : Prop := n ≤ (a - b).toNat ∧ n ≤ (b - a).toNat

instance {v n : ℕ} (a b : BitVec v) : Decidable (Separated n a b) :=
  inferInstanceAs (Decidable (_ ∧ _))

namespace Separated

variable {v n : ℕ} {a b : BitVec v}

lemma symm (h : Separated n a b) : Separated n b a := ⟨h.2, h.1⟩

/-- Two addresses are less than `n` bytes apart if bytes of their runs are the same. -/
lemma not_of_add_eq {i j : ℕ} (hj : j < n) (hij : i ≤ j)
    (heq : a + BitVec.ofNat v i = b + BitVec.ofNat v j) : ¬Separated n a b := by
  intro hsep
  have hsub : a - b = BitVec.ofNat v (j - i) := by
    rw [BitVec.sub_eq_iff_eq_add]
    apply add_right_cancel (b := BitVec.ofNat v i)
    rw [heq, add_right_comm, ← BitVec.ofNat_add, Nat.sub_add_cancel hij, add_comm]
  have hle : (a - b).toNat ≤ j - i := by
    rw [hsub, BitVec.toNat_ofNat]
    exact Nat.mod_le _ _
  have hn := hsep.1
  omega

end Separated

/-- Two runs of `n` bytes have no byte in common if and only if they start at least `n` bytes
apart. -/
lemma separated_iff {v n : ℕ} {a b : BitVec v} :
    Separated n a b ↔ ∀ i < n, ∀ j < n, a + BitVec.ofNat v i ≠ b + BitVec.ofNat v j := by
  constructor
  · intro hsep i hi j hj heq
    rcases Nat.le_total i j with hij | hji
    · exact Separated.not_of_add_eq hj hij heq hsep
    · exact Separated.not_of_add_eq hi hji heq.symm hsep.symm
  · intro hne
    -- The start of one run is a byte of the other one.
    have hback : ∀ c d : BitVec v, d + BitVec.ofNat v (c - d).toNat = c := by
      intro c d
      rw [BitVec.ofNat_toNat, BitVec.setWidth_eq, BitVec.add_comm, BitVec.sub_add_cancel]
    refine ⟨?_, ?_⟩
    · by_contra hlt
      refine hne 0 (by omega) (a - b).toNat (by omega) ?_
      rw [hback]
      simp
    · by_contra hlt
      refine hne (b - a).toNat (by omega) 0 (by omega) ?_
      rw [hback]
      simp

end TiOpenCL.ByteMoves
