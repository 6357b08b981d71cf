import TiOpenCL.Library.References

/-!
# The tree of the runtime's objects

Every object of the runtime counts its references (`Object`).  It holds one on its parent from its
constructor to its destructor, and its class may hold more: an event on its buffers and its kernel, a
sub-buffer on its buffer.  The end of the last reference runs the destructor, which gives these references
back and may end further objects.  An event that was taken from the list of its queue does not end its
queue (`setReleaseParent`), so that its queue can be left without references (`TreeOk.counted` allows it).

An object is an address; a new object can be given the address of one that was deleted.  The type that
`isA` checks is that of the call.  `unsigned int` does not wrap.
-/

namespace TiOpenCL.Objects

open References

/-! ### Objects -/

/-- `Object::Type`. -/
inductive Kind where
  | commandQueue
  | event
  | context
  | kernel
  | memObject
  | program
  | sampler
  deriving DecidableEq, Repr

/-- `Object`, with what its class has retained. -/
structure Object where
  /-- `p_type`. -/
  kind : Kind
  /-- `p_references`. -/
  references : ℤ
  /-- `p_parent`. -/
  parent : Option ℕ
  /-- `p_release_parent`. -/
  releaseParent : Bool
  /-- The objects that the destructor of its class releases, in order. -/
  retained : List ℕ
  deriving DecidableEq, Repr

/-- The objects. -/
structure Store where
  /-- `the_known_objects`. -/
  known : List ℕ
  /-- The object at an address. -/
  object : ℕ → Object

/-- The store with one object changed. -/
def Store.setObject (s : Store) (a : ℕ) (o : Object) : Store :=
  { s with object := Function.update s.object a o }

/-- `Object::isA`. -/
def Store.isA (s : Store) (a : ℕ) (kind : Kind) : Bool := decide (a ∈ s.known ∧ (s.object a).kind = kind)

/-- `Object::reference`. -/
def Store.reference (s : Store) (a : ℕ) : Store :=
  s.setObject a { s.object a with references := (s.object a).references + 1 }

/-- `Object::dereference`, without its result. -/
def Store.dereference (s : Store) (a : ℕ) : Store :=
  s.setObject a { s.object a with references := (s.object a).references - 1 }

/-- `Object::setReleaseParent`. -/
def Store.setReleaseParent (s : Store) (a : ℕ) (release : Bool) : Store :=
  s.setObject a { s.object a with releaseParent := release }

/-- The constructors of an object: those of its class retain what it refers to. -/
def Store.construct (s : Store) (a : ℕ) (kind : Kind) (parent : Option ℕ) (retained : List ℕ) : Store :=
  let s₁ := (retained ++ parent.toList).foldl Store.reference s
  { s₁.setObject a ⟨kind, 1, parent, true, retained⟩ with known := s.known ++ [a] }

/-- The release of an object of the type of the call, given `delete`. -/
def release (delete : Store → ℕ → Option Store) (s : Store) (a : ℕ) : Option Store :=
  if a ∈ s.known then
    if (s.object a).references = 1 then delete (s.dereference a) a else some (s.dereference a)
  else some s

/-- The releases of the destructor of a class. -/
def releaseAll (delete : Store → ℕ → Option Store) : List ℕ → Store → Option Store
  | [], s => some s
  | a :: as, s => (release delete s a).bind (releaseAll delete as)

/-- What `Object::~Object` does to the parent.  It does not ask whether the parent is known. -/
def dropParent (delete : Store → ℕ → Option Store) (s : Store) (a : ℕ) : Option Store :=
  match (s.object a).parent with
  | none => some s
  | some p =>
    if p ∈ s.known then
      if (s.object p).references = 1 ∧ (s.object a).releaseParent = true then delete (s.dereference p) p
      else some (s.dereference p)
    else none

/-- `delete`: the destructor of the class, then `Object::~Object`. -/
def delete : ℕ → Store → ℕ → Option Store
  | 0, _, _ => none
  | fuel + 1, s, a =>
    (releaseAll (delete fuel) (s.object a).retained s).bind fun s₁ =>
      (dropParent (delete fuel) s₁ a).map fun s₂ => { s₂ with known := s₂.known.erase a }

/-! ### The invariant -/

/-- The references of an object, as counted. -/
def Store.count (s : Store) (a : ℕ) : ℤ := (s.object a).references

/-- The objects that an object refers to, in the order in which it gives them up. -/
def Object.targets (o : Object) : List ℕ := o.retained ++ o.parent.toList

/-- The objects that an object still refers to. -/
def Store.refs (s : Store) (dying : List ℕ) (a : ℕ) : List ℕ :=
  if a ∈ dying then [] else (s.object a).targets

/-- What holds of the objects when some references are held from outside and some objects are being
deleted. -/
structure TreeOk (dying held : List ℕ) (s : Store) : Prop where
  counted : Counted s.known s.count (s.refs dying) held
  spent : ∀ a ∈ dying, a ∈ s.known ∧ s.count a = 0

variable {dying held : List ℕ} {s s' : Store} {a k : ℕ}

/-! ### Steps of a release -/

/-- The counts after a reference less. -/
lemma count_dereference (s : Store) (a : ℕ) :
    (s.dereference a).count = Function.update s.count a (s.count a - 1) := by
  funext x
  by_cases hxa : x = a
  · subst hxa
    simp [Store.count, Store.dereference, Store.setObject]
  · simp [Store.count, Store.dereference, Store.setObject, hxa]

/-- A reference less changes no other data. -/
lemma object_dereference (s : Store) (a x : ℕ) :
    (s.dereference a).object x =
      { s.object x with references := ((s.dereference a).object x).references } := by
  by_cases hxa : x = a
  · subst hxa
    simp [Store.dereference, Store.setObject]
  · simp [Store.dereference, Store.setObject, hxa]

/-- A reference less changes no reference of the objects. -/
lemma refs_dereference (dying : List ℕ) (s : Store) (a : ℕ) :
    (s.dereference a).refs dying = s.refs dying := by
  funext x
  rw [Store.refs, Store.refs, object_dereference]
  rfl

/-- What is held has references. -/
lemma TreeOk.pos (hok : TreeOk dying (a :: held) s) : 0 < s.count a :=
  hok.counted.pos_of_held (List.mem_cons_self ..)

/-- What is held is not being deleted. -/
lemma TreeOk.not_dying (hok : TreeOk dying (a :: held) s) : a ∉ dying := by
  intro hd
  have hpos := hok.pos
  rw [(hok.spent a hd).2] at hpos
  exact lt_irrefl _ hpos

/-- A reference that was held is given back. -/
lemma TreeOk.dereference (hok : TreeOk dying (a :: held) s) : TreeOk dying held (s.dereference a) := by
  refine ⟨?_, fun x hx => ⟨(hok.spent x hx).1, ?_⟩⟩
  · rw [count_dereference, refs_dereference]
    exact hok.counted.release
  · rw [count_dereference, Function.update_of_ne (ne_of_mem_of_not_mem hx hok.not_dying)]
    exact (hok.spent x hx).2

/-- An object without references gives up what it refers to. -/
lemma TreeOk.die (hok : TreeOk dying held s) (ha : a ∈ s.known) (hd : a ∉ dying)
    (hzero : s.count a = 0) : TreeOk (a :: dying) ((s.object a).targets ++ held) s := by
  have htargets : s.refs dying a = (s.object a).targets := if_neg hd
  have hcounted := hok.counted.letGo ha
  rw [htargets] at hcounted
  refine ⟨hcounted.congr (fun _ _ => rfl) fun x _ => ?_, fun x hx => ?_⟩
  · by_cases hxa : x = a <;> simp_all [Store.refs]
  · rcases List.mem_cons.mp hx with rfl | hold
    · exact ⟨ha, hzero⟩
    · exact hok.spent x hold

/-- The end of an object. -/
lemma TreeOk.remove (hok : TreeOk (a :: dying) held s) (hd : a ∉ dying) :
    TreeOk dying held { s with known := s.known.erase a } := by
  obtain ⟨ha, hzero⟩ := hok.spent a (List.mem_cons_self ..)
  have hcounted := hok.counted.remove ha hzero (by simp [Store.refs])
  refine ⟨hcounted.congr (fun _ _ => rfl) fun x hx => ?_, fun x hx => ?_⟩
  · have hne : x ≠ a := (hok.counted.nodup.mem_erase_iff.mp hx).1
    simp [Store.refs, hne]
  · obtain ⟨hin, hcount⟩ := hok.spent x (List.mem_cons_of_mem a hx)
    exact ⟨(List.mem_erase_of_ne (ne_of_mem_of_not_mem hx hd)).mpr hin, hcount⟩

/-! ### What a release leaves -/

/-- The data of an object without its count. -/
def Object.data (o : Object) : Kind × Option ℕ × Bool × List ℕ :=
  (o.kind, o.parent, o.releaseParent, o.retained)

/-- The store after some objects were deleted: the others are as they were but for their counts, and one
that is newly without references is the parent of a deleted object that does not release its parent. -/
structure Shrunk (dying : List ℕ) (s s' : Store) : Prop where
  known : s'.known.Sublist s.known
  data : ∀ x, (s'.object x).data = (s.object x).data
  kept : ∀ x ∈ s.known, x ∉ dying → s.count x = 0 → x ∈ s'.known ∧ s'.count x = 0
  stranded : ∀ x ∈ s'.known, x ∉ dying → s'.count x = 0 → s.count x = 0 ∨
    ∃ c ∈ s.known, c ∉ s'.known ∧ (s.object c).parent = some x ∧ (s.object c).releaseParent = false

/-- Nothing was deleted. -/
lemma Shrunk.refl (dying : List ℕ) (s : Store) : Shrunk dying s s :=
  ⟨List.Sublist.refl _, fun _ => rfl, fun _ hx _ hzero => ⟨hx, hzero⟩, fun _ _ _ hzero => Or.inl hzero⟩

/-- The parent of an object, and whether it releases it, from the data. -/
lemma parent_of_data {o o' : Object} (h : o'.data = o.data) :
    o'.parent = o.parent ∧ o'.releaseParent = o.releaseParent ∧ o'.retained = o.retained := by
  rw [Object.data, Object.data, Prod.mk.injEq, Prod.mk.injEq, Prod.mk.injEq] at h
  exact ⟨h.2.1, h.2.2.1, h.2.2.2⟩

/-- One thing after the other. -/
lemma Shrunk.trans {s₁ : Store} (hs : Shrunk dying s s₁) (hs' : Shrunk dying s₁ s') :
    Shrunk dying s s' where
  known := hs'.known.trans hs.known
  data x := (hs'.data x).trans (hs.data x)
  kept x hx hd hzero :=
    have hmid := hs.kept x hx hd hzero
    hs'.kept x hmid.1 hd hmid.2
  stranded x hx hd hzero := by
    rcases hs'.stranded x hx hd hzero with hmid | ⟨c, hc, hgone, hparent, hflag⟩
    · rcases hs.stranded x (hs'.known.subset hx) hd hmid with hold | ⟨c, hc, hgone, hparent, hflag⟩
      · exact Or.inl hold
      · exact Or.inr ⟨c, hc, fun hin => hgone (hs'.known.subset hin), hparent, hflag⟩
    · obtain ⟨hparent', hflag', -⟩ := parent_of_data (hs.data c)
      exact Or.inr ⟨c, hs.known.subset hc, hgone, hparent'.symm.trans hparent, hflag'.symm.trans hflag⟩

/-- What the deletion of an object has done. -/
structure DeletedBy (dying held : List ℕ) (s : Store) (a : ℕ) (s' : Store) : Prop where
  ok : TreeOk dying held s'
  shrunk : Shrunk (a :: dying) s s'
  gone : a ∉ s'.known

/-- A deletion that comes to its end. -/
def Deletes (delete : Store → ℕ → Option Store) (dying : List ℕ) (size : ℕ) : Prop :=
  ∀ {held : List ℕ} {s : Store} {a : ℕ}, TreeOk dying held s → s.known.length ≤ size → a ∈ s.known →
    a ∉ dying → s.count a = 0 → ∃ s', delete s a = some s' ∧ DeletedBy dying held s a s'

/-- The release of a reference, given what a deletion does. -/
lemma exists_release {u : Store → ℕ → Option Store} {size : ℕ} (hu : Deletes u dying size)
    (hok : TreeOk dying (k :: held) s) (hsize : s.known.length ≤ size) :
    ∃ s', release u s k = some s' ∧ TreeOk dying held s' ∧ Shrunk dying s s' := by
  have hk := hok.counted.held k (List.mem_cons_self ..)
  have hdata : ∀ x, ((s.dereference k).object x).data = (s.object x).data := by
    intro x
    rw [object_dereference]
    rfl
  have hsame : ∀ {x : ℕ}, x ≠ k → (s.dereference k).count x = s.count x := by
    intro x hx
    rw [count_dereference, Function.update_of_ne hx]
  have hpos := hok.pos
  rw [release, if_pos hk]
  by_cases hone : (s.object k).references = 1
  · have hzero : (s.dereference k).count k = 0 := by
      rw [count_dereference, Function.update_self, Store.count, hone]
      rfl
    rw [if_pos hone]
    obtain ⟨s', heq, hby⟩ := hu hok.dereference hsize hk hok.not_dying hzero
    refine ⟨s', heq, hby.ok, hby.shrunk.known, fun x => (hby.shrunk.data x).trans (hdata x), ?_, ?_⟩
    · intro x hx hd hcount
      have hne : x ≠ k := by
        rintro rfl
        exact hpos.ne' hcount
      exact hby.shrunk.kept x hx (List.not_mem_cons_of_ne_of_not_mem hne hd) ((hsame hne).trans hcount)
    · intro x hx hd hcount
      have hne : x ≠ k := by
        rintro rfl
        exact hby.gone hx
      rcases hby.shrunk.stranded x hx (List.not_mem_cons_of_ne_of_not_mem hne hd) hcount with
        hold | ⟨c, hc, hgone, hparent, hflag⟩
      · exact Or.inl ((hsame hne).symm.trans hold)
      · obtain ⟨hparent', hflag', -⟩ := parent_of_data (hdata c)
        exact Or.inr ⟨c, hc, hgone, hparent'.symm.trans hparent, hflag'.symm.trans hflag⟩
  · rw [if_neg hone]
    refine ⟨_, rfl, hok.dereference, List.Sublist.refl _, hdata, ?_, ?_⟩
    · intro x hx _ hcount
      have hne : x ≠ k := by
        rintro rfl
        exact hpos.ne' hcount
      exact ⟨hx, (hsame hne).trans hcount⟩
    · intro x _ _ hcount
      by_cases hne : x = k
      · subst hne
        rw [count_dereference, Function.update_self] at hcount
        exact absurd (sub_eq_zero.mp hcount) hone
      · exact Or.inl ((hsame hne).symm.trans hcount)

/-- The releases of a destructor. -/
lemma exists_releaseAll {u : Store → ℕ → Option Store} {size : ℕ} (hu : Deletes u dying size)
    {ks : List ℕ} (hok : TreeOk dying (ks ++ held) s) (hsize : s.known.length ≤ size) :
    ∃ s', releaseAll u ks s = some s' ∧ TreeOk dying held s' ∧ Shrunk dying s s' := by
  induction ks generalizing s with
  | nil => exact ⟨s, rfl, hok, Shrunk.refl _ _⟩
  | cons k ks ih =>
    obtain ⟨s₁, heq, hok₁, hs₁⟩ := exists_release hu hok hsize
    obtain ⟨s', heq', hok', hs'⟩ := ih hok₁ (hs₁.known.length_le.trans hsize)
    exact ⟨s', by rw [releaseAll, heq]; exact heq', hok', hs₁.trans hs'⟩

/-! ### Deletion -/

/-- The end of a deletion, when the references of the object are given back. -/
lemma Shrunk.erase (hs : Shrunk (a :: dying) s s') :
    Shrunk (a :: dying) s { s' with known := s'.known.erase a } where
  known := List.erase_sublist.trans hs.known
  data := hs.data
  kept x hx hd hzero := by
    obtain ⟨hin, hcount⟩ := hs.kept x hx hd hzero
    exact ⟨(List.mem_erase_of_ne (List.ne_of_not_mem_cons hd)).mpr hin, hcount⟩
  stranded x hx hd hzero := by
    rcases hs.stranded x (List.mem_of_mem_erase hx) hd hzero with hold | ⟨c, hc, hgone, hrest⟩
    · exact Or.inl hold
    · exact Or.inr ⟨c, hc, fun hin => hgone (List.mem_of_mem_erase hin), hrest⟩

/-- A parent that the object does not release loses a reference. -/
lemma Shrunk.keepParent {s₁ : Store} {p : ℕ} (hs : Shrunk (a :: dying) s s₁)
    (hok : TreeOk (a :: dying) (p :: held) s₁) (ha : a ∈ s.known)
    (hparent : (s.object a).parent = some p) (hflag : (s.object a).releaseParent = false) :
    Shrunk (a :: dying) s { s₁.dereference p with known := s₁.known.erase a } := by
  have hsame : ∀ {x : ℕ}, x ≠ p → (s₁.dereference p).count x = s₁.count x := by
    intro x hx
    rw [count_dereference, Function.update_of_ne hx]
  refine ⟨List.erase_sublist.trans hs.known, fun x => ?_, fun x hx hd hzero => ?_, fun x hx hd hzero => ?_⟩
  · refine Eq.trans ?_ (hs.data x)
    change ((s₁.dereference p).object x).data = _
    rw [object_dereference]
    rfl
  · obtain ⟨hin, hcount⟩ := hs.kept x hx hd hzero
    have hne : x ≠ p := by
      rintro rfl
      exact hok.pos.ne' hcount
    exact ⟨(List.mem_erase_of_ne (List.ne_of_not_mem_cons hd)).mpr hin, (hsame hne).trans hcount⟩
  · by_cases hne : x = p
    · subst hne
      exact Or.inr ⟨a, ha, fun hin => (hok.counted.nodup.mem_erase_iff.mp hin).1 rfl, hparent, hflag⟩
    · rcases hs.stranded x (List.mem_of_mem_erase hx) hd ((hsame hne).symm.trans hzero) with
        hold | ⟨c, hc, hgone, hrest⟩
      · exact Or.inl hold
      · exact Or.inr ⟨c, hc, fun hin => hgone (List.mem_of_mem_erase hin), hrest⟩

/-- A deletion that may recur as often as there are objects comes to its end. -/
theorem deletes (fuel : ℕ) {dying : List ℕ} {size : ℕ} (hnodup : dying.Nodup)
    (hfuel : size < fuel + dying.length) : Deletes (delete fuel) dying size := by
  induction fuel generalizing dying with
  | zero =>
    intro held s a hok hsize ha hd _
    have hsub : (a :: dying).length ≤ s.known.length := by
      refine (List.subperm_of_subset (List.nodup_cons.mpr ⟨hd, hnodup⟩) fun x hx => ?_).length_le
      rcases List.mem_cons.mp hx with rfl | hold
      · exact ha
      · exact (hok.spent x hold).1
    rw [List.length_cons] at hsub
    omega
  | succ fuel ih =>
    intro held s a hok hsize ha hd hzero
    have hu : Deletes (delete fuel) (a :: dying) size :=
      ih (List.nodup_cons.mpr ⟨hd, hnodup⟩) (by rw [List.length_cons]; omega)
    have hdie := hok.die ha hd hzero
    rw [Object.targets, List.append_assoc] at hdie
    obtain ⟨s₁, heq₁, hok₁, hs₁⟩ := exists_releaseAll hu hdie hsize
    obtain ⟨hparent, hflag, -⟩ := parent_of_data (hs₁.data a)
    have hgone : ∀ {t : Store}, TreeOk (a :: dying) held t → a ∉ t.known.erase a :=
      fun ht hin => (ht.counted.nodup.mem_erase_iff.mp hin).1 rfl
    rw [delete, heq₁, Option.bind_some, dropParent, hparent, hflag]
    cases hp : (s.object a).parent with
    | none =>
      rw [hp] at hok₁
      exact ⟨_, rfl, hok₁.remove hd, hs₁.erase, hgone hok₁⟩
    | some p =>
      rw [hp] at hok₁
      have hpin : p ∈ s₁.known := hok₁.counted.held p (List.mem_cons_self ..)
      change ∃ s', Option.map _ (if p ∈ s₁.known then _ else none) = some s' ∧ _
      rw [if_pos hpin]
      cases hr : (s.object a).releaseParent with
      | false =>
        rw [if_neg (by simp)]
        exact ⟨_, rfl, hok₁.dereference.remove hd, hs₁.keepParent hok₁ ha hp hr, hgone hok₁.dereference⟩
      | true =>
        obtain ⟨s₂, heq₂, hok₂, hs₂⟩ := exists_release hu hok₁ (hs₁.known.length_le.trans hsize)
        rw [release, if_pos hpin] at heq₂
        have hdrop : (if (s₁.object p).references = 1 ∧ true = true then delete fuel (s₁.dereference p) p
            else some (s₁.dereference p)) = some s₂ := by
          rw [← heq₂]
          exact if_congr (and_iff_left rfl) rfl rfl
        rw [hdrop]
        exact ⟨_, rfl, hok₂.remove hd, (hs₁.trans hs₂).erase, hgone hok₂⟩

end TiOpenCL.Objects
