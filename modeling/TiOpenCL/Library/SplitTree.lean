import TiOpenCL.Library.Tiling
import Mathlib.Algebra.Order.Group.Nat
import Mathlib.Tactic.Ring

/-!
# Trees of halved blocks

A binary tree over a block of size `2 ^ k`: a leaf is the whole block, a node cuts it into its two
halves.  Every vertex has an index, so that the tree can be laid out in an array, and every leaf a
mark.  The leaf blocks of a tree that fits into its block tile it (`isTiling_blocks`), and in a block
that is aligned to its size every leaf block is aligned to its own size.
-/

namespace TiOpenCL

/-- A tree of halved blocks with indexed vertices and marked leaves. -/
inductive SplitTree (α : Type*)
  /-- A block that is not cut. -/
  | leaf (i : ℕ) (m : α)
  /-- A block that is cut into two halves. -/
  | node (i : ℕ) (l r : SplitTree α)
  deriving DecidableEq

namespace SplitTree

variable {α : Type*}

/-- The index of the topmost vertex. -/
def root : SplitTree α → ℕ
  | leaf i _ => i
  | node i _ _ => i

/-- The indices of all vertices. -/
def indices : SplitTree α → List ℕ
  | leaf i _ => [i]
  | node i l r => i :: (l.indices ++ r.indices)

/-- The blocks of the leaves of a tree over `[base, base + 2 ^ k)`, with their marks. -/
def blocks : SplitTree α → ℕ → ℕ → List (Block × α)
  | leaf _ m, base, k => [((base, 2 ^ k), m)]
  | node _ l r, base, k => l.blocks base (k - 1) ++ r.blocks (base + 2 ^ (k - 1)) (k - 1)

/-- No block of size one is cut. -/
def Fits : SplitTree α → ℕ → Prop
  | leaf _ _, _ => True
  | node _ l r, k => 0 < k ∧ l.Fits (k - 1) ∧ r.Fits (k - 1)

/-- The blocks of the leaves with a given mark. -/
def marked [DecidableEq α] (m : α) (t : SplitTree α) (base k : ℕ) : List Block :=
  ((t.blocks base k).filter fun b => b.2 = m).map Prod.fst

lemma root_mem_indices (t : SplitTree α) : t.root ∈ t.indices := by
  cases t <;> simp [root, indices]

@[simp] lemma indices_leaf (i : ℕ) (m : α) : (leaf i m).indices = [i] := rfl

@[simp] lemma indices_node (i : ℕ) (l r : SplitTree α) :
    (node i l r).indices = i :: (l.indices ++ r.indices) := rfl

@[simp] lemma root_leaf (i : ℕ) (m : α) : (leaf i m).root = i := rfl

@[simp] lemma root_node (i : ℕ) (l r : SplitTree α) : (node i l r).root = i := rfl

@[simp] lemma blocks_leaf (i : ℕ) (m : α) (base k : ℕ) :
    (leaf i m).blocks base k = [((base, 2 ^ k), m)] := rfl

@[simp] lemma blocks_node_succ (i : ℕ) (l r : SplitTree α) (base k : ℕ) :
    (node i l r).blocks base (k + 1) = l.blocks base k ++ r.blocks (base + 2 ^ k) k := rfl

/-! ### The leaf blocks -/

/-- The leaf blocks of a tree tile its block. -/
lemma isTiling_blocks {t : SplitTree α} {base k : ℕ} (h : t.Fits k) :
    IsTiling ((t.blocks base k).map Prod.fst) base (base + 2 ^ k) := by
  induction t generalizing base k with
  | leaf i m => exact IsTiling.singleton base (by positivity)
  | node i l r ihl ihr =>
    obtain ⟨hk, hl, hr⟩ := h
    obtain ⟨k, rfl⟩ := Nat.exists_eq_add_one.mpr hk
    rw [blocks_node_succ, List.map_append]
    have hsum : base + 2 ^ (k + 1) = base + 2 ^ k + 2 ^ k := by ring
    rw [hsum]
    exact (ihl hl).append (ihr hr) (Nat.le_add_right ..) (Nat.le_add_right ..)

/-- In a block that is aligned to its size every leaf block is aligned to its own. -/
lemma aligned_of_mem_blocks {t : SplitTree α} {base k : ℕ} (h : t.Fits k) (hbase : 2 ^ k ∣ base)
    {b : Block} {m : α} (hb : (b, m) ∈ t.blocks base k) : b.2 ∣ b.1 := by
  induction t generalizing base k with
  | leaf i m' =>
    obtain ⟨rfl, -⟩ := Prod.mk.injEq .. ▸ List.mem_singleton.mp hb
    exact hbase
  | node i l r ihl ihr =>
    obtain ⟨hk, hl, hr⟩ := h
    obtain ⟨k, rfl⟩ := Nat.exists_eq_add_one.mpr hk
    have hhalf : 2 ^ k ∣ base := (pow_dvd_pow 2 (Nat.le_succ k)).trans hbase
    rw [blocks_node_succ, List.mem_append] at hb
    rcases hb with hb | hb
    · exact ihl hl hhalf hb
    · exact ihr hr (hhalf.add (dvd_refl _)) hb

/-! ### Blocks by mark -/

variable [DecidableEq α]

@[simp] lemma marked_node_succ (m : α) (i : ℕ) (l r : SplitTree α) (base k : ℕ) :
    (node i l r).marked m base (k + 1) = l.marked m base k ++ r.marked m (base + 2 ^ k) k := by
  simp [marked]

@[simp] lemma marked_leaf (m m' : α) (i base k : ℕ) :
    (leaf i m').marked m base k = if m' = m then [(base, 2 ^ k)] else [] := by
  by_cases h : m' = m <;> simp [marked, h]

lemma mem_marked {m : α} {t : SplitTree α} {base k : ℕ} {b : Block} :
    b ∈ t.marked m base k ↔ (b, m) ∈ t.blocks base k := by
  simp [marked]

/-- The marked blocks are some of the leaf blocks. -/
lemma marked_sublist (m : α) (t : SplitTree α) (base k : ℕ) :
    (t.marked m base k).Sublist ((t.blocks base k).map Prod.fst) :=
  List.filter_sublist.map _

/-- The marked blocks lie inside the block of the tree. -/
lemma subset_of_mem_marked {t : SplitTree α} {base k : ℕ} (h : t.Fits k) {m : α} {b : Block}
    (hb : b ∈ t.marked m base k) : base ≤ b.1 ∧ b.1 + b.2 ≤ base + 2 ^ k :=
  (isTiling_blocks h).subset ((marked_sublist m t base k).subset hb)

/-- The blocks with one mark are disjoint. -/
lemma pairwise_disjoint_marked {t : SplitTree α} {base k : ℕ} (h : t.Fits k) (m : α) :
    (t.marked m base k).Pairwise Block.Disjoint :=
  (isTiling_blocks h).pairwise_disjoint.sublist (marked_sublist m t base k)

/-- Leaf blocks with different marks share no address. -/
lemma disjoint_of_marks_ne {t : SplitTree α} {base k : ℕ} (h : t.Fits k) {m m' : α} (hne : m ≠ m')
    {a b : Block} (ha : a ∈ t.marked m base k) (hb : b ∈ t.marked m' base k) : a.Disjoint b := by
  have hdis : (t.blocks base k).Pairwise fun x y => x.1.Disjoint y.1 :=
    List.pairwise_map.mp (isTiling_blocks h).pairwise_disjoint
  have hsymm : Std.Symm fun x y : Block × α => x.1.Disjoint y.1 := ⟨fun _ _ h x hx => h x hx.symm⟩
  exact hdis.forall (mem_marked.mp ha) (mem_marked.mp hb) fun he => hne (congrArg Prod.snd he)

end SplitTree

end TiOpenCL
