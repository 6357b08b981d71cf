import Mathlib.Data.List.Sort
import Mathlib.Data.List.Perm.Basic
import Mathlib.Order.Basic

/-!
# Ordered maps as sorted association lists

A map from a linear order, iterated in increasing order of its keys, as a strictly sorted list of
`(key, value)` entries.  The operations are the ones an ordered container offers: lookup,
assignment, erasure, and the position of a key (`before`, `upTo` and `lowerBound`).

Proofs about the contents of a map never look at the order of the entries: they go through the two
permutations `insert_perm` and `erase_perm`.
-/

namespace TiOpenCL

/-- A map whose entries are listed in strictly increasing order of their keys. -/
structure OrderedMap (κ β : Type*) [LinearOrder κ] where
  /-- The entries, in increasing order of the keys. -/
  entries : List (κ × β)
  /-- The keys are strictly increasing. -/
  sorted : entries.Pairwise fun a b => a.1 < b.1

namespace OrderedMap

variable {κ β : Type*} [LinearOrder κ]

/-- The empty map. -/
def empty : OrderedMap κ β := ⟨[], List.Pairwise.nil⟩

/-- The value stored at a key. -/
def find? (m : OrderedMap κ β) (k : κ) : Option β :=
  (m.entries.find? fun e => decide (e.1 = k)).map Prod.snd

/-- Remove the entry at a key, if there is one. -/
def erase (m : OrderedMap κ β) (k : κ) : OrderedMap κ β where
  entries := m.entries.filter fun e => decide (e.1 ≠ k)
  sorted := m.sorted.filter _

/-- The entries with a key below `k`. -/
def before (m : OrderedMap κ β) (k : κ) : List (κ × β) :=
  m.entries.filter fun e => decide (e.1 < k)

/-- The entries with a key that is not above `k`, which are those in front of its upper bound. -/
def upTo (m : OrderedMap κ β) (k : κ) : List (κ × β) :=
  m.entries.filter fun e => decide (e.1 ≤ k)

/-- The entries from the first key that is not below `k` on. -/
def lowerBound (m : OrderedMap κ β) (k : κ) : List (κ × β) :=
  m.entries.filter fun e => decide (k ≤ e.1)

/-- The entries with a key above `k`. -/
def after (m : OrderedMap κ β) (k : κ) : List (κ × β) :=
  m.entries.filter fun e => decide (k < e.1)

/-- Assign a value to a key, replacing the value that was there. -/
def insert (m : OrderedMap κ β) (k : κ) (v : β) : OrderedMap κ β where
  entries := m.before k ++ (k, v) :: m.after k
  sorted := by
    have hb : ∀ e ∈ m.before k, e.1 < k := fun e he => by
      simpa [before] using (List.mem_filter.mp he).2
    have ha : ∀ e ∈ m.after k, k < e.1 := fun e he => by
      simpa [after] using (List.mem_filter.mp he).2
    refine List.pairwise_append.mpr ⟨m.sorted.filter _, List.pairwise_cons.mpr ⟨ha, m.sorted.filter _⟩, ?_⟩
    intro a hmem b hb'
    rcases List.mem_cons.mp hb' with rfl | h
    · exact hb a hmem
    · exact (hb a hmem).trans (ha b h)

@[simp] lemma empty_entries : (empty : OrderedMap κ β).entries = [] := rfl

/-- The keys of a map are pairwise distinct. -/
lemma keys_nodup (m : OrderedMap κ β) : (m.entries.map Prod.fst).Nodup := by
  refine List.pairwise_map.mpr (m.sorted.imp ?_)
  intro a b hab
  exact hab.ne

/-- Two entries with the same key are equal. -/
lemma eq_of_mem_of_key_eq {m : OrderedMap κ β} {a b : κ × β} (ha : a ∈ m.entries)
    (hb : b ∈ m.entries) (h : a.1 = b.1) : a = b :=
  List.inj_on_of_nodup_map m.keys_nodup ha hb h

/-- The lookup finds exactly the entries of the map. -/
lemma find?_eq_some_iff {m : OrderedMap κ β} {k : κ} {v : β} :
    m.find? k = some v ↔ (k, v) ∈ m.entries := by
  simp only [find?, Option.map_eq_some_iff]
  constructor
  · rintro ⟨e, he, rfl⟩
    have hk : e.1 = k := by simpa using List.find?_some he
    subst hk
    exact List.mem_of_find?_eq_some he
  · intro h
    cases hf : m.entries.find? (fun e => decide (e.1 = k)) with
    | none =>
      have := List.find?_eq_none.mp hf (k, v) h
      simp at this
    | some e =>
      refine ⟨e, rfl, ?_⟩
      have hk : e.1 = k := by simpa using List.find?_some hf
      have he := eq_of_mem_of_key_eq (List.mem_of_find?_eq_some hf) h hk
      rw [he]

/-- The lookup fails exactly at the keys that are not in the map. -/
lemma find?_eq_none_iff {m : OrderedMap κ β} {k : κ} :
    m.find? k = none ↔ ∀ v, (k, v) ∉ m.entries := by
  rw [Option.eq_none_iff_forall_ne_some]
  exact forall_congr' fun v => not_congr find?_eq_some_iff

/-- Membership after erasing a key. -/
@[simp] lemma mem_erase {m : OrderedMap κ β} {k : κ} {e : κ × β} :
    e ∈ (m.erase k).entries ↔ e ∈ m.entries ∧ e.1 ≠ k := by
  simp [erase]

/-- Membership after assigning to a key. -/
@[simp] lemma mem_insert {m : OrderedMap κ β} {k : κ} {v : β} {e : κ × β} :
    e ∈ (m.insert k v).entries ↔ e = (k, v) ∨ e ∈ m.entries ∧ e.1 ≠ k := by
  simp only [insert, before, after, List.mem_append, List.mem_filter, List.mem_cons,
    decide_eq_true_eq]
  constructor
  · rintro (⟨he, hlt⟩ | rfl | ⟨he, hlt⟩)
    · exact Or.inr ⟨he, hlt.ne⟩
    · exact Or.inl rfl
    · exact Or.inr ⟨he, hlt.ne'⟩
  · rintro (rfl | ⟨he, hne⟩)
    · exact Or.inr (Or.inl rfl)
    · rcases lt_or_gt_of_ne hne with h | h
      · exact Or.inl ⟨he, h⟩
      · exact Or.inr (Or.inr ⟨he, h⟩)

/-- The entries of a map have no repetition. -/
lemma entries_nodup (m : OrderedMap κ β) : m.entries.Nodup :=
  List.Nodup.of_map Prod.fst m.keys_nodup

/-- Two maps with the same entries are equal. -/
lemma eq_of_mem_iff {m n : OrderedMap κ β} (h : ∀ e, e ∈ m.entries ↔ e ∈ n.entries) : m = n := by
  have hperm : m.entries.Perm n.entries :=
    (List.perm_ext_iff_of_nodup m.entries_nodup n.entries_nodup).mpr h
  have heq : m.entries = n.entries := by
    refine hperm.eq_of_pairwise ?_ m.sorted n.sorted
    intro a b _ _ hab hba
    exact absurd (hab.trans hba) (lt_irrefl _)
  cases m
  cases n
  subst heq
  rfl

/-- An entry that is present can be taken out in front of the rest. -/
lemma erase_perm {m : OrderedMap κ β} {k : κ} {v : β} (h : (k, v) ∈ m.entries) :
    m.entries.Perm ((k, v) :: (m.erase k).entries) := by
  refine (List.perm_ext_iff_of_nodup m.entries_nodup ?_).mpr ?_
  · refine List.nodup_cons.mpr ⟨?_, (m.erase k).entries_nodup⟩
    simp
  · intro e
    rw [List.mem_cons, mem_erase]
    constructor
    · intro he
      by_cases hk : e.1 = k
      · exact Or.inl (eq_of_mem_of_key_eq he h hk)
      · exact Or.inr ⟨he, hk⟩
    · rintro (rfl | ⟨he, -⟩)
      · exact h
      · exact he

/-- Assigning to a key puts the new entry in front of the other entries. -/
lemma insert_perm (m : OrderedMap κ β) (k : κ) (v : β) :
    (m.insert k v).entries.Perm ((k, v) :: (m.erase k).entries) := by
  refine (List.perm_ext_iff_of_nodup (m.insert k v).entries_nodup ?_).mpr ?_
  · refine List.nodup_cons.mpr ⟨?_, (m.erase k).entries_nodup⟩
    simp
  · intro e
    rw [List.mem_cons, mem_erase, mem_insert]

/-- Erasing a key that is not there changes nothing. -/
lemma erase_entries_of_not_mem {m : OrderedMap κ β} {k : κ} (h : ∀ v, (k, v) ∉ m.entries) :
    (m.erase k).entries = m.entries := by
  refine List.filter_eq_self.mpr ?_
  rintro ⟨a, v⟩ he
  have hne : a ≠ k := fun hk => h v (hk ▸ he)
  simpa using hne

/-- Assigning to a key that is not there adds one entry. -/
lemma insert_perm_of_not_mem {m : OrderedMap κ β} {k : κ} (h : ∀ v, (k, v) ∉ m.entries) (v : β) :
    (m.insert k v).entries.Perm ((k, v) :: m.entries) := by
  have hp := m.insert_perm k v
  rwa [erase_entries_of_not_mem h] at hp

/-- The entries below a key. -/
lemma mem_before {m : OrderedMap κ β} {k : κ} {e : κ × β} :
    e ∈ m.before k ↔ e ∈ m.entries ∧ e.1 < k := by
  simp [before]

/-- The entries from a key on. -/
lemma mem_lowerBound {m : OrderedMap κ β} {k : κ} {e : κ × β} :
    e ∈ m.lowerBound k ↔ e ∈ m.entries ∧ k ≤ e.1 := by
  simp [lowerBound]

/-- The entries up to a key. -/
lemma mem_upTo {m : OrderedMap κ β} {k : κ} {e : κ × β} :
    e ∈ m.upTo k ↔ e ∈ m.entries ∧ e.1 ≤ k := by
  simp [upTo]

/-- The last entry of `upTo` is the entry with the greatest key that is not above `k`. -/
lemma le_upTo_getLast {m : OrderedMap κ β} {k : κ} {e f : κ × β}
    (h : (m.upTo k).getLast? = some e) (hf : f ∈ m.entries) (hk : f.1 ≤ k) : f.1 ≤ e.1 := by
  obtain ⟨l, hl⟩ := List.getLast?_eq_some_iff.mp h
  have hs : (l ++ [e]).Pairwise fun a b => a.1 < b.1 := hl ▸ m.sorted.filter _
  have hmem : f ∈ l ++ [e] := hl ▸ mem_upTo.mpr ⟨hf, hk⟩
  rcases List.mem_append.mp hmem with h1 | h1
  · exact ((List.pairwise_append.mp hs).2.2 f h1 e (List.mem_singleton.mpr rfl)).le
  · exact (List.mem_singleton.mp h1) ▸ le_rfl

/-- The head of `lowerBound` is the entry with the least key that is not below `k`. -/
lemma lowerBound_head_le {m : OrderedMap κ β} {k : κ} {e f : κ × β} {l : List (κ × β)}
    (h : m.lowerBound k = e :: l) (hf : f ∈ m.entries) (hk : k ≤ f.1) : e.1 ≤ f.1 := by
  have hs : (e :: l).Pairwise fun a b => a.1 < b.1 := h ▸ m.sorted.filter _
  have hmem : f ∈ e :: l := h ▸ mem_lowerBound.mpr ⟨hf, hk⟩
  rcases List.mem_cons.mp hmem with rfl | hl
  · exact le_rfl
  · exact ((List.pairwise_cons.mp hs).1 f hl).le

/-- The last entry of `before` is the entry with the greatest key below `k`. -/
lemma le_before_getLast {m : OrderedMap κ β} {k : κ} {e f : κ × β}
    (h : (m.before k).getLast? = some e) (hf : f ∈ m.entries) (hk : f.1 < k) : f.1 ≤ e.1 := by
  obtain ⟨l, hl⟩ := List.getLast?_eq_some_iff.mp h
  have hs : (l ++ [e]).Pairwise fun a b => a.1 < b.1 := hl ▸ m.sorted.filter _
  have hmem : f ∈ l ++ [e] := hl ▸ mem_before.mpr ⟨hf, hk⟩
  rcases List.mem_append.mp hmem with h1 | h1
  · exact ((List.pairwise_append.mp hs).2.2 f h1 e (List.mem_singleton.mpr rfl)).le
  · exact (List.mem_singleton.mp h1) ▸ le_rfl

end OrderedMap

end TiOpenCL
