import Mathlib.Data.Fintype.Defs
import Mathlib.Data.List.Count
import Mathlib.Data.List.Nodup
import Mathlib.Logic.Function.Basic
import Mathlib.Logic.Relation
import Mathlib.Order.WellFounded
import Mathlib.Data.Finite.Prod
import Mathlib.Data.Fintype.EquivFin
import Mathlib.Tactic.Linarith

/-!
# Counted references

A store of objects that count the references to them.  A reference is held from outside (`holds`, with
repetitions) or by an object of the store (`refs`).  `Counted` says that every count is right; what an
operation does to the counts, the references and the store is one lemma each.  Every object can be reached
from a reference that is held from outside, from a cycle of references, or from an object that nothing
refers to (`Counted.exists_root`).
-/

namespace TiOpenCL.References

variable {K : Type*} [DecidableEq K]

/-- The objects of a store count the references to them. -/
structure Counted (objs : List K) (count : K → ℤ) (refs : K → List K) (holds : List K) : Prop where
  nodup : objs.Nodup
  held : ∀ k ∈ holds, k ∈ objs
  closed : ∀ o ∈ objs, ∀ k ∈ refs o, k ∈ objs
  counted : ∀ k ∈ objs, count k = holds.count k + (objs.flatMap refs).count k

/-- The references of the objects of a list after those of one of them have changed. -/
lemma count_flatMap_update {objs : List K} (refs : K → List K) {o : K} (hnodup : objs.Nodup)
    (ho : o ∈ objs) (new : List K) (k : K) :
    (objs.flatMap (Function.update refs o new)).count k + (refs o).count k =
      (objs.flatMap refs).count k + new.count k := by
  induction objs with
  | nil => cases ho
  | cons x objs ih =>
    obtain ⟨hx, hrest⟩ := List.nodup_cons.mp hnodup
    simp only [List.flatMap_cons, List.count_append]
    by_cases hox : o = x
    · subst hox
      have hsame : objs.flatMap (Function.update refs o new) = objs.flatMap refs := by
        refine List.flatMap_congr fun y hy => Function.update_of_ne ?_ _ _
        rintro rfl
        exact hx hy
      rw [Function.update_self, hsame]
      omega
    · have hmem : o ∈ objs := (List.mem_cons.mp ho).resolve_left hox
      have hrec := ih hrest hmem
      rw [Function.update_of_ne (Ne.symm hox)]
      omega

/-- An object refers to another one. -/
def Refers (objs : List K) (refs : K → List K) (o k : K) : Prop := o ∈ objs ∧ k ∈ refs o

omit [DecidableEq K] in
/-- A cycle stays one if the references between the objects on cycles stay. -/
lemma transGen_self_mono {r r' : K → K → Prop} {a : K} (ha : Relation.TransGen r a a)
    (hmono : ∀ b c, Relation.TransGen r b b → r b c → r' b c) : Relation.TransGen r' a a := by
  have hpath : ∀ c, Relation.TransGen r a c → Relation.ReflTransGen r c a → Relation.TransGen r' a c := by
    intro c hac
    induction hac with
    | single hac => exact fun _ => Relation.TransGen.single (hmono _ _ ha hac)
    | tail hab hbc ih =>
      intro hca
      have hba := Relation.ReflTransGen.head hbc hca
      exact (ih hba).tail (hmono _ _ (Relation.TransGen.trans_right hba hab) hbc)
  exact hpath a ha Relation.ReflTransGen.refl

section Counted

variable {objs : List K} {count : K → ℤ} {refs : K → List K} {holds : List K} {k o : K}

/-- An empty store has its counts right. -/
lemma counted_nil (count : K → ℤ) (refs : K → List K) : Counted [] count refs [] :=
  ⟨List.nodup_nil, by simp, by simp, by simp⟩

/-- Counts and references matter on the objects of the store alone. -/
lemma Counted.congr {count' : K → ℤ} {refs' : K → List K} (h : Counted objs count refs holds)
    (hcount : ∀ k ∈ objs, count' k = count k) (hrefs : ∀ o ∈ objs, refs' o = refs o) :
    Counted objs count' refs' holds := by
  refine ⟨h.nodup, h.held, fun o ho k hk => h.closed o ho k (hrefs o ho ▸ hk), fun k hk => ?_⟩
  rw [hcount k hk, h.counted k hk, List.flatMap_congr hrefs]

/-- A reference that is held counts. -/
lemma Counted.pos_of_held (h : Counted objs count refs holds) (hk : k ∈ holds) : 0 < count k := by
  have hpos := List.count_pos_iff.mpr hk
  have hcount := h.counted k (h.held k hk)
  omega

/-- A reference of an object counts. -/
lemma Counted.pos_of_refers (h : Counted objs count refs holds) (hk : Refers objs refs o k) :
    0 < count k := by
  have hmem : k ∈ objs.flatMap refs := List.mem_flatMap.mpr ⟨o, hk.1, hk.2⟩
  have hpos := List.count_pos_iff.mpr hmem
  have hcount := h.counted k (h.closed o hk.1 k hk.2)
  omega

/-- No count is negative. -/
lemma Counted.nonneg (h : Counted objs count refs holds) (hk : k ∈ objs) : 0 ≤ count k := by
  have hcount := h.counted k hk
  omega

/-- One more reference is held. -/
lemma Counted.retain (h : Counted objs count refs holds) (hk : k ∈ objs) :
    Counted objs (Function.update count k (count k + 1)) refs (k :: holds) := by
  refine ⟨h.nodup, fun x hx => ?_, h.closed, fun x hx => ?_⟩
  · rcases List.mem_cons.mp hx with rfl | hold
    · exact hk
    · exact h.held x hold
  · by_cases hxk : x = k
    · subst hxk
      rw [Function.update_self, List.count_cons_self, h.counted x hx]
      omega
    · rw [Function.update_of_ne hxk, List.count_cons_of_ne (Ne.symm hxk)]
      exact h.counted x hx

/-- A reference that was held is given to an object. -/
lemma Counted.handOver (h : Counted objs count refs (k :: holds)) (ho : o ∈ objs) :
    Counted objs count (Function.update refs o (refs o ++ [k])) holds := by
  refine ⟨h.nodup, fun x hx => h.held x (List.mem_cons_of_mem k hx), fun x hx y hy => ?_,
    fun x hx => ?_⟩
  · by_cases hxo : x = o
    · subst hxo
      rw [Function.update_self] at hy
      rcases List.mem_append.mp hy with hold | hnew
      · exact h.closed x hx y hold
      · rw [List.mem_singleton.mp hnew]
        exact h.held k List.mem_cons_self
    · rw [Function.update_of_ne hxo] at hy
      exact h.closed x hx y hy
  · have hflat := count_flatMap_update refs h.nodup ho (refs o ++ [k]) x
    have hcount := h.counted x hx
    rw [List.count_append] at hflat
    rw [List.count_cons] at hcount
    rw [List.count_singleton] at hflat
    omega

/-- The references of an object are held from outside, before it is removed. -/
lemma Counted.letGo (h : Counted objs count refs holds) (ho : o ∈ objs) :
    Counted objs count (Function.update refs o []) (refs o ++ holds) := by
  refine ⟨h.nodup, fun x hx => ?_, fun x hx y hy => ?_, fun x hx => ?_⟩
  · rcases List.mem_append.mp hx with hold | hheld
    · exact h.closed o ho x hold
    · exact h.held x hheld
  · by_cases hxo : x = o
    · subst hxo
      rw [Function.update_self] at hy
      cases hy
    · rw [Function.update_of_ne hxo] at hy
      exact h.closed x hx y hy
  · have hflat := count_flatMap_update refs h.nodup ho [] x
    have hcount := h.counted x hx
    rw [List.count_append]
    rw [List.count_nil] at hflat
    omega

/-- A reference that was held is given back. -/
lemma Counted.release (h : Counted objs count refs (k :: holds)) :
    Counted objs (Function.update count k (count k - 1)) refs holds := by
  refine ⟨h.nodup, fun x hx => h.held x (List.mem_cons_of_mem k hx), h.closed, fun x hx => ?_⟩
  have hcount := h.counted x hx
  by_cases hxk : x = k
  · subst hxk
    rw [List.count_cons_self] at hcount
    rw [Function.update_self, hcount]
    omega
  · rw [List.count_cons_of_ne (Ne.symm hxk)] at hcount
    rw [Function.update_of_ne hxk]
    exact hcount

/-- The order of what is held does not matter. -/
lemma Counted.perm {holds' : List K} (h : Counted objs count refs holds) (hp : holds.Perm holds') :
    Counted objs count refs holds' :=
  ⟨h.nodup, fun k hk => h.held k (hp.mem_iff.mpr hk), h.closed, fun k hk => by
    rw [← hp.count_eq k]
    exact h.counted k hk⟩

/-- A new object comes with a reference that is held and takes one of each object that it refers to. -/
lemma Counted.addReferring {count' : K → ℤ} {refs' : K → List K} {ts : List K}
    (h : Counted objs count refs holds) (ho : o ∉ objs) (hone : count' o = 1) (hrefs : refs' o = ts)
    (hts : ∀ t ∈ ts, t ∈ objs) (hcount : ∀ k ∈ objs, count' k = count k + ts.count k)
    (hsame : ∀ k ∈ objs, refs' k = refs k) : Counted (objs ++ [o]) count' refs' (o :: holds) := by
  have hflat : (objs ++ [o]).flatMap refs' = objs.flatMap refs ++ ts := by
    rw [List.flatMap_append, List.flatMap_singleton, hrefs, List.flatMap_congr hsame]
  have hheld : o ∉ holds := fun hin => ho (h.held o hin)
  have hreferred : o ∉ objs.flatMap refs := by
    intro hin
    obtain ⟨x, hx, hox⟩ := List.mem_flatMap.mp hin
    exact ho (h.closed x hx o hox)
  refine ⟨?_, fun x hx => ?_, fun x hx y hy => ?_, fun x hx => ?_⟩
  · refine List.nodup_append.mpr ⟨h.nodup, List.nodup_singleton o, fun x hx y hy => ?_⟩
    rintro rfl
    exact ho (List.mem_singleton.mp hy ▸ hx)
  · rcases List.mem_cons.mp hx with rfl | hold
    · exact List.mem_append_right _ (List.mem_singleton_self x)
    · exact List.mem_append_left _ (h.held x hold)
  · rcases List.mem_append.mp hx with hold | hnew
    · rw [hsame x hold] at hy
      exact List.mem_append_left _ (h.closed x hold y hy)
    · rw [List.mem_singleton.mp hnew, hrefs] at hy
      exact List.mem_append_left _ (hts y hy)
  · rw [hflat, List.count_append]
    rcases List.mem_append.mp hx with hold | hnew
    · have hne : o ≠ x := fun heq => ho (heq ▸ hold)
      rw [List.count_cons_of_ne hne, hcount x hold, h.counted x hold]
      omega
    · obtain rfl := List.mem_singleton.mp hnew
      rw [hone, List.count_cons_self, List.count_eq_zero.mpr hheld, List.count_eq_zero.mpr hreferred,
        List.count_eq_zero.mpr fun hin => ho (hts x hin)]
      rfl

/-- A new object comes with a reference that is held. -/
lemma Counted.add (h : Counted objs count refs holds) (ho : o ∉ objs) (hone : count o = 1)
    (hrefs : refs o = []) : Counted (objs ++ [o]) count refs (o :: holds) :=
  h.addReferring ho hone hrefs (by simp) (by simp) fun _ _ => rfl

/-- Nothing refers to an object whose count is zero. -/
lemma Counted.unreferenced (h : Counted objs count refs holds) (ho : o ∈ objs) (hzero : count o = 0) :
    o ∉ holds ∧ o ∉ objs.flatMap refs := by
  have hcount := h.counted o ho
  rw [hzero] at hcount
  constructor
  · exact List.count_eq_zero.mp (by omega)
  · exact List.count_eq_zero.mp (by omega)

/-- An object that is not referred to and refers to nothing is removed. -/
lemma Counted.remove (h : Counted objs count refs holds) (ho : o ∈ objs) (hzero : count o = 0)
    (hrefs : refs o = []) : Counted (objs.erase o) count refs holds := by
  obtain ⟨hheld, hreferred⟩ := h.unreferenced ho hzero
  have hperm : (objs.flatMap refs).Perm ((objs.erase o).flatMap refs) := by
    have hcons := (List.perm_cons_erase ho).flatMap_right refs
    rw [List.flatMap_cons, hrefs, List.nil_append] at hcons
    exact hcons
  have hne : ∀ {x : K}, x ∈ objs → x ≠ o → x ∈ objs.erase o := fun hx hxo =>
    (List.mem_erase_of_ne hxo).mpr hx
  refine ⟨h.nodup.erase o, fun x hx => ?_, fun x hx y hy => ?_, fun x hx => ?_⟩
  · refine hne (h.held x hx) ?_
    rintro rfl
    exact hheld hx
  · have hx' := List.mem_of_mem_erase hx
    refine hne (h.closed x hx' y hy) ?_
    rintro rfl
    exact hreferred (List.mem_flatMap.mpr ⟨x, hx', hy⟩)
  · rw [h.counted x (List.mem_of_mem_erase hx), hperm.count_eq]

/-- Every object can be reached from a reference that is held, from a cycle, or from an object that nothing
refers to. -/
theorem Counted.exists_root (h : Counted objs count refs holds) (hk : k ∈ objs) :
    ∃ o ∈ objs, (o ∈ holds ∨ Relation.TransGen (Refers objs refs) o o ∨ count o = 0) ∧
      Relation.ReflTransGen (Refers objs refs) o k := by
  by_contra hno
  push Not at hno
  -- the objects from which the object can be reached
  let above := {o // o ∈ objs ∧ Relation.ReflTransGen (Refers objs refs) o k}
  have hirrefl : Std.Irrefl fun a b : above => Relation.TransGen (Refers objs refs) a b :=
    ⟨fun a ha => hno a a.2.1 (Or.inr (Or.inl ha)) a.2.2⟩
  have htrans : IsTrans above fun a b => Relation.TransGen (Refers objs refs) a b :=
    ⟨fun _ _ _ hab hbc => hab.trans hbc⟩
  have hfinite : Finite above := objs.finite_toSet.subset fun _ ho => ho.1
  have hwf := Finite.wellFounded_of_trans_of_irrefl
    fun a b : above => Relation.TransGen (Refers objs refs) a b
  obtain ⟨m, -, hmin⟩ := hwf.has_min Set.univ ⟨⟨k, hk, Relation.ReflTransGen.refl⟩, trivial⟩
  -- a least one is referred to, by one that is less
  have hcount := h.counted m m.2.1
  have hne : count (m : K) ≠ 0 := fun hzero => hno m m.2.1 (Or.inr (Or.inr hzero)) m.2.2
  have hnot : holds.count (m : K) = 0 :=
    List.count_eq_zero.mpr fun hm => hno m m.2.1 (Or.inl hm) m.2.2
  have hreferred : 0 < (objs.flatMap refs).count (m : K) := by omega
  obtain ⟨p, hp, hm⟩ := List.mem_flatMap.mp (List.count_pos_iff.mp hreferred)
  exact hmin ⟨p, hp, Relation.ReflTransGen.head ⟨hp, hm⟩ m.2.2⟩ trivial
    (Relation.TransGen.single ⟨hp, hm⟩)

/-- What can be reached from an object of the store is in it. -/
lemma Counted.mem_of_reaches (h : Counted objs count refs holds) (ho : o ∈ objs)
    (hpath : Relation.ReflTransGen (Refers objs refs) o k) : k ∈ objs := by
  induction hpath with
  | refl => exact ho
  | tail _ hstep ih => exact h.closed _ ih _ hstep.2

omit [DecidableEq K] in
/-- An object of a cycle is in the store. -/
lemma mem_of_cycle (hcycle : Relation.TransGen (Refers objs refs) o o) : o ∈ objs := by
  obtain ⟨p, hstep, -⟩ := Relation.TransGen.head'_iff.mp hcycle
  exact hstep.1

end Counted

end TiOpenCL.References
