import TiOpenCL.Library.Machine
import TiOpenCL.Objects.Tree

/-!
# The lifetimes of the runtime's objects

The application, the lists of the queues and the threads of the runtime hold references on objects, and an
event that another one waits for is held for it.  In every state of every run the references are counted and
nothing that is referred to was deleted (`references_counted`), and every call of the runtime comes to its end
(`calls_end`).  What exists is what can be reached from a reference that is held, or from one of the two
things that are never given back (`known_iff`, `leaks_stay`): a queue whose last reference was that of an
event that had been taken from its list, and a user event that another event has waited for.
-/

namespace TiOpenCL.Objects

open Machine References

/-! ### Runs -/

/-- The objects, and who holds references on them. -/
structure Runtime where
  store : Store
  /-- The references of the application, of the lists of events and of the threads. -/
  holders : List ℕ
  /-- The pairs of an event and an event that waits for it (`p_dependent_events`). -/
  waits : List (ℕ × ℕ)
  /-- The references that nobody is left to give back. -/
  lost : List ℕ

/-- A call. -/
inductive Request where
  /-- The construction of an object. -/
  | create (a : ℕ) (kind : Kind) (parent : Option ℕ) (retained : List ℕ)
  /-- `clRetainContext` and the others. -/
  | retain (a : ℕ) (kind : Kind)
  /-- `clReleaseContext` and the others. -/
  | release (a : ℕ) (kind : Kind)
  /-- An event is taken from the list of its queue, in `pushEventsOnDevice` or `cleanEvents`. -/
  | erase (e : ℕ)
  /-- `Event::addDependentEvent`. -/
  | addDependentEvent (e d : ℕ)
  /-- `d->removeWaitEvent(e)`. -/
  | removeWaitEvent (e d : ℕ)

/-- `delete`, which does not recur more often than there are objects. -/
def Store.delete (s : Store) : Store → ℕ → Option Store := Objects.delete (s.known.length + 1)

/-- An object that somebody refers to. -/
def Store.Referenced (s : Store) (a : ℕ) : Prop := a ∈ s.known ∧ 0 < s.count a

instance (s : Store) (a : ℕ) : Decidable (s.Referenced a) := inferInstanceAs (Decidable (_ ∧ _))

/-- What the constructors ask for: a free address, objects that somebody refers to, and a queue as the
parent of an event. -/
def CanCreate (s : Store) (a : ℕ) (kind : Kind) (parent : Option ℕ) (retained : List ℕ) : Prop :=
  a ∉ s.known ∧ (∀ t ∈ retained ++ parent.toList, s.Referenced t) ∧
    (kind = .event → ∀ p ∈ parent.toList, (s.object p).kind = .commandQueue)

instance (s : Store) (a : ℕ) (kind : Kind) (parent : Option ℕ) (retained : List ℕ) :
    Decidable (CanCreate s a kind parent retained) := inferInstanceAs (Decidable (_ ∧ _ ∧ (_ → _)))

/-- A call in a state.  Who retains refers to the object, and who releases holds a reference. -/
def step (r : Runtime) : Request → Option Runtime
  | .create a kind parent retained =>
    if CanCreate r.store a kind parent retained then
      some { r with store := r.store.construct a kind parent retained, holders := a :: r.holders }
    else none
  | .retain a kind =>
    if r.store.isA a kind then
      if 0 < r.store.count a then
        some { r with store := r.store.reference a, holders := a :: r.holders }
      else none
    else some r
  | .release a kind =>
    if r.store.isA a kind then
      if a ∈ r.holders then
        (release r.store.delete r.store a).map fun s => { r with store := s, holders := r.holders.erase a }
      else none
    else some r
  | .erase e =>
    if e ∈ r.holders ∧ (r.store.object e).kind = .event then
      (release r.store.delete (r.store.setReleaseParent e false) e).map fun s =>
        { r with store := s, holders := r.holders.erase e }
    else none
  | .addDependentEvent e d =>
    if r.store.Referenced e ∧ (r.store.object e).kind = .event then
      some { r with store := r.store.reference e, waits := (e, d) :: r.waits }
    else none
  | .removeWaitEvent e d =>
    if (e, d) ∈ r.waits ∧ d ∈ r.store.known then
      match (r.store.object e).parent with
      | some _ =>
        (release r.store.delete r.store e).map fun s => { r with store := s, waits := r.waits.erase (e, d) }
      | none => some { r with waits := r.waits.erase (e, d), lost := e :: r.lost }
    else none

/-- The runtime before the first call. -/
def start (memory : ℕ → Object) : Runtime := ⟨⟨[], memory⟩, [], [], []⟩

/-- All references that are held from outside. -/
def Runtime.held (r : Runtime) : List ℕ := r.holders ++ r.waits.map Prod.fst ++ r.lost

/-- The objects that an object refers to. -/
def Store.targets (s : Store) (a : ℕ) : List ℕ := (s.object a).targets

/-! ### The invariant -/

/-- What holds between two calls. -/
structure RuntimeOk (r : Runtime) : Prop where
  tree : TreeOk [] r.held r.store
  typed : ∀ a ∈ r.store.known, (r.store.object a).kind = .event →
    ∀ p ∈ (r.store.object a).parent.toList, (r.store.object p).kind = .commandQueue
  flags : ∀ a ∈ r.store.known, (r.store.object a).releaseParent = false →
    (r.store.object a).kind = .event
  stranded : ∀ a ∈ r.store.known, r.store.count a = 0 → (r.store.object a).kind = .commandQueue
  lost : ∀ a ∈ r.lost, (r.store.object a).kind = .event ∧ (r.store.object a).parent = none
  waits : ∀ w ∈ r.waits, (r.store.object w.1).kind = .event
  order : r.store.known.Pairwise fun x y => y ∉ r.store.targets x
  simple : ∀ a ∈ r.store.known, a ∉ r.store.targets a

/-- The data of an object that do not change. -/
lemma targets_of_data {s s' : Store} {a : ℕ} (h : (s'.object a).data = (s.object a).data) :
    s'.targets a = s.targets a := by
  obtain ⟨hparent, -, hretained⟩ := parent_of_data h
  rw [Store.targets, Store.targets, Object.targets, Object.targets, hparent, hretained]

/-- The kind of an object does not change. -/
lemma kind_of_data {s s' : Store} {a : ℕ} (h : (s'.object a).data = (s.object a).data) :
    (s'.object a).kind = (s.object a).kind := congrArg Prod.fst h

/-- What a reference more changes. -/
lemma data_reference (s : Store) (a x : ℕ) : ((s.reference a).object x).data = (s.object x).data := by
  by_cases hxa : x = a
  · subst hxa
    simp [Store.reference, Store.setObject, Object.data]
  · simp [Store.reference, Store.setObject, hxa]

/-- The counts after a reference more. -/
lemma count_reference (s : Store) (a : ℕ) :
    (s.reference a).count = Function.update s.count a (s.count a + 1) := by
  funext x
  by_cases hxa : x = a
  · subst hxa
    simp [Store.count, Store.reference, Store.setObject]
  · simp [Store.count, Store.reference, Store.setObject, hxa]

/-- The references of the objects depend on their data. -/
lemma refs_of_data {s s' : Store} (dying : List ℕ) (h : ∀ x, (s'.object x).data = (s.object x).data) :
    s'.refs dying = s.refs dying := by
  funext x
  have ht := targets_of_data (h x)
  rw [Store.targets, Store.targets] at ht
  rw [Store.refs, Store.refs, ht]

/-- A reference more is held. -/
lemma TreeOk.reference {held : List ℕ} {s : Store} {a : ℕ} (hok : TreeOk [] held s)
    (ha : a ∈ s.known) : TreeOk [] (a :: held) (s.reference a) := by
  refine ⟨?_, by simp⟩
  rw [count_reference, refs_of_data [] (data_reference s a)]
  exact hok.counted.retain ha

/-- What is referred to from outside is known. -/
lemma RuntimeOk.known_of_held {r : Runtime} (hok : RuntimeOk r) {a : ℕ} (ha : a ∈ r.held) :
    a ∈ r.store.known := hok.tree.counted.held a ha

/-- What an object refers to is known. -/
lemma RuntimeOk.known_of_target {r : Runtime} (hok : RuntimeOk r) {a t : ℕ} (ha : a ∈ r.store.known)
    (ht : t ∈ r.store.targets a) : t ∈ r.store.known :=
  hok.tree.counted.closed a ha t (by simpa [Store.refs, Store.targets] using ht)

/-- The runtime has no objects at first. -/
lemma runtimeOk_start (memory : ℕ → Object) : RuntimeOk (start memory) := by
  refine ⟨⟨counted_nil _ _, by simp⟩, ?_, ?_, ?_, ?_, ?_, List.Pairwise.nil, ?_⟩ <;> simp [start]

/-! ### Steps -/

/-- A store with the same data and other counts. -/
lemma RuntimeOk.recount {r r' : Runtime} (hok : RuntimeOk r) (htree : TreeOk [] r'.held r'.store)
    (hknown : r'.store.known.Sublist r.store.known)
    (hdata : ∀ x, (r'.store.object x).data = (r.store.object x).data)
    (hstranded : ∀ a ∈ r'.store.known, r'.store.count a = 0 → (r.store.object a).kind = .commandQueue)
    (hlost : ∀ a ∈ r'.lost, a ∈ r.lost ∨ (r.store.object a).kind = .event ∧
      (r.store.object a).parent = none)
    (hwaits : ∀ w ∈ r'.waits, (r.store.object w.1).kind = .event) : RuntimeOk r' where
  tree := htree
  typed a ha hkind p hp := by
    rw [(parent_of_data (hdata a)).1] at hp
    rw [kind_of_data (hdata a)] at hkind
    rw [kind_of_data (hdata p)]
    exact hok.typed a (hknown.subset ha) hkind p hp
  flags a ha hflag := by
    rw [(parent_of_data (hdata a)).2.1] at hflag
    rw [kind_of_data (hdata a)]
    exact hok.flags a (hknown.subset ha) hflag
  stranded a ha hzero := (kind_of_data (hdata a)).trans (hstranded a ha hzero)
  lost a ha := by
    rw [kind_of_data (hdata a), (parent_of_data (hdata a)).1]
    exact (hlost a ha).elim (hok.lost a) id
  waits w hw := (kind_of_data (hdata w.1)).trans (hwaits w hw)
  order := (hok.order.sublist hknown).imp fun {x y} hxy => by rwa [targets_of_data (hdata x)]
  simple a ha := by
    rw [targets_of_data (hdata a)]
    exact hok.simple a (hknown.subset ha)

/-- A release comes to its end. -/
lemma RuntimeOk.release {r : Runtime} (hok : RuntimeOk r) {k : ℕ} {holders : List ℕ}
    {waits : List (ℕ × ℕ)} (hheld : r.held.Perm (k :: (holders ++ waits.map Prod.fst ++ r.lost)))
    (hwaits : ∀ w ∈ waits, w ∈ r.waits) :
    ∃ s, Objects.release r.store.delete r.store k = some s ∧ Shrunk [] r.store s ∧
      RuntimeOk ⟨s, holders, waits, r.lost⟩ := by
  have hdelete : Deletes r.store.delete [] r.store.known.length :=
    deletes _ List.nodup_nil (by simp)
  have htree : TreeOk [] (k :: (holders ++ waits.map Prod.fst ++ r.lost)) r.store :=
    ⟨hok.tree.counted.perm hheld, by simp⟩
  obtain ⟨s, heq, htree', hs⟩ := exists_release hdelete htree le_rfl
  refine ⟨s, heq, hs, hok.recount htree' hs.known hs.data (fun a ha hzero => ?_)
    (fun a ha => Or.inl ha) fun w hw => hok.waits w (hwaits w hw)⟩
  rcases hs.stranded a ha (by simp) hzero with hold | ⟨c, hc, -, hparent, hflag⟩
  · exact hok.stranded a (hs.known.subset ha) hold
  · -- the parent of an event is a queue
    exact hok.typed c hc (hok.flags c hc hflag) a (by simp [hparent])

/-- The flag of an event is no count. -/
lemma count_setReleaseParent (s : Store) (e : ℕ) (release : Bool) :
    (s.setReleaseParent e release).count = s.count := by
  funext x
  by_cases hxe : x = e
  · subst hxe
    simp [Store.count, Store.setReleaseParent, Store.setObject]
  · simp [Store.count, Store.setReleaseParent, Store.setObject, hxe]

/-- An event that does not release its parent any more. -/
lemma RuntimeOk.setReleaseParent {r : Runtime} (hok : RuntimeOk r) {e : ℕ}
    (hkind : (r.store.object e).kind = .event) :
    RuntimeOk { r with store := r.store.setReleaseParent e false } := by
  have hobject : ∀ x, ((r.store.setReleaseParent e false).object x).kind = (r.store.object x).kind ∧
      ((r.store.setReleaseParent e false).object x).parent = (r.store.object x).parent ∧
      ((r.store.setReleaseParent e false).object x).targets = (r.store.object x).targets ∧
      (((r.store.setReleaseParent e false).object x).releaseParent = false →
        x = e ∨ (r.store.object x).releaseParent = false) := by
    intro x
    by_cases hxe : x = e
    · subst hxe
      simp [Store.setReleaseParent, Store.setObject, Object.targets]
    · simp [Store.setReleaseParent, Store.setObject, hxe]
  have hrefs : (r.store.setReleaseParent e false).refs [] = r.store.refs [] := by
    funext x
    rw [Store.refs, Store.refs, (hobject x).2.2.1]
  refine ⟨⟨?_, by simp⟩, fun a ha hk p hp => ?_, fun a ha hflag => ?_, fun a ha hzero => ?_, fun a ha => ?_,
    fun w hw => ?_, ?_, fun a ha => ?_⟩
  · change Counted r.store.known _ _ r.held
    rw [count_setReleaseParent, hrefs]
    exact hok.tree.counted
  · rw [(hobject a).1] at hk
    rw [(hobject a).2.1] at hp
    exact (hobject p).1.trans (hok.typed a ha hk p hp)
  · refine (hobject a).1.trans ?_
    rcases (hobject a).2.2.2 hflag with rfl | hold
    · exact hkind
    · exact hok.flags a ha hold
  · refine (hobject a).1.trans (hok.stranded a ha ?_)
    rwa [count_setReleaseParent] at hzero
  · exact ⟨(hobject a).1.trans (hok.lost a ha).1, (hobject a).2.1.trans (hok.lost a ha).2⟩
  · exact (hobject w.1).1.trans (hok.waits w hw)
  · exact hok.order.imp fun {x y} hxy => by rwa [Store.targets, (hobject x).2.2.1]
  · rw [Store.targets, (hobject a).2.2.1]
    exact hok.simple a ha

/-- The references that the constructors take. -/
lemma foldl_reference (s : Store) (ts : List ℕ) :
    (ts.foldl Store.reference s).known = s.known ∧
      (∀ x, ((ts.foldl Store.reference s).object x).data = (s.object x).data) ∧
      ∀ x, (ts.foldl Store.reference s).count x = s.count x + ts.count x := by
  induction ts generalizing s with
  | nil => exact ⟨rfl, fun _ => rfl, fun x => by simp⟩
  | cons t ts ih =>
    obtain ⟨hknown, hdata, hcount⟩ := ih (s.reference t)
    refine ⟨hknown, fun x => (hdata x).trans (data_reference s t x), fun x => ?_⟩
    rw [List.foldl_cons, hcount x, count_reference, List.count_cons]
    by_cases hxt : x = t
    · subst hxt
      rw [Function.update_self, if_pos (beq_self_eq_true x)]
      push_cast
      omega
    · rw [Function.update_of_ne hxt, if_neg (by simpa using Ne.symm hxt)]
      rfl

/-- The objects that were there before a new one. -/
lemma construct_of_known {s : Store} {a x : ℕ} {kind : Kind} {parent : Option ℕ} {retained : List ℕ}
    (hfree : a ∉ s.known) (hx : x ∈ s.known) :
    ((s.construct a kind parent retained).object x).data = (s.object x).data ∧
      (s.construct a kind parent retained).count x = s.count x + (retained ++ parent.toList).count x := by
  obtain ⟨-, hdata, hcount⟩ := foldl_reference s (retained ++ parent.toList)
  have hobject : (s.construct a kind parent retained).object x =
      ((retained ++ parent.toList).foldl Store.reference s).object x := by
    simp [Store.construct, Store.setObject, ne_of_mem_of_not_mem hx hfree]
  refine ⟨by rw [hobject]; exact hdata x, ?_⟩
  rw [Store.count, hobject]
  exact hcount x

/-- A new object. -/
lemma RuntimeOk.create {r : Runtime} (hok : RuntimeOk r) {a : ℕ} {kind : Kind} {parent : Option ℕ}
    {retained : List ℕ} (hcan : CanCreate r.store a kind parent retained) :
    RuntimeOk { r with store := r.store.construct a kind parent retained, holders := a :: r.holders } := by
  obtain ⟨hfree, hrefer, htype⟩ := hcan
  set s' := r.store.construct a kind parent retained with hs'
  have hself : s'.object a = ⟨kind, 1, parent, true, retained⟩ := by
    simp [hs', Store.construct, Store.setObject]
  have hother : ∀ x ∈ r.store.known, (s'.object x).data = (r.store.object x).data ∧
      s'.count x = r.store.count x + (retained ++ parent.toList).count x :=
    fun x hx => construct_of_known hfree hx
  have htargets : s'.targets a = retained ++ parent.toList := by
    rw [Store.targets, hself, Object.targets]
  have hmem : ∀ {x : ℕ}, x ∈ s'.known → x ∈ r.store.known ∨ x = a := fun hx =>
    (List.mem_append.mp hx).imp_right List.mem_singleton.mp
  refine ⟨⟨?_, by simp⟩, fun x hx hkind p hp => ?_, fun x hx hflag => ?_, fun x hx hzero => ?_, fun x hx => ?_,
    fun w hw => ?_, ?_, fun x hx => ?_⟩
  · refine hok.tree.counted.addReferring hfree ?_ ?_
      (fun t (ht : t ∈ retained ++ parent.toList) => (hrefer t ht).1) (fun x hx => (hother x hx).2) fun x hx => ?_
    · rw [Store.count, hself]
    · rw [Store.refs, if_neg (by simp)]
      exact htargets
    · rw [Store.refs, Store.refs, if_neg (by simp), if_neg (by simp)]
      exact targets_of_data (hother x hx).1
  · rcases hmem hx with hold | rfl
    · rw [(parent_of_data (hother x hold).1).1] at hp
      rw [kind_of_data (hother x hold).1] at hkind
      have hpin : p ∈ r.store.known := hok.known_of_target hold (List.mem_append_right _ hp)
      exact (kind_of_data (hother p hpin).1).trans (hok.typed x hold hkind p hp)
    · rw [hself] at hkind hp
      have hpin : p ∈ r.store.known := (hrefer p (List.mem_append_right _ hp)).1
      exact (kind_of_data (hother p hpin).1).trans (htype hkind p hp)
  · rcases hmem hx with hold | rfl
    · rw [(parent_of_data (hother x hold).1).2.1] at hflag
      exact (kind_of_data (hother x hold).1).trans (hok.flags x hold hflag)
    · rw [hself] at hflag
      cases hflag
  · rcases hmem hx with hold | rfl
    · have hnonneg := hok.tree.counted.nonneg hold
      rw [(hother x hold).2] at hzero
      exact (kind_of_data (hother x hold).1).trans (hok.stranded x hold (by omega))
    · rw [Store.count, hself] at hzero
      cases hzero
  · have hin : x ∈ r.store.known := hok.known_of_held (List.mem_append_right _ hx)
    rw [kind_of_data (hother x hin).1, (parent_of_data (hother x hin).1).1]
    exact hok.lost x hx
  · have hin : w.1 ∈ r.store.known :=
      hok.known_of_held (List.mem_append_left _ (List.mem_append_right _ (List.mem_map_of_mem hw)))
    exact (kind_of_data (hother w.1 hin).1).trans (hok.waits w hw)
  · change (r.store.known ++ [a]).Pairwise _
    refine List.pairwise_append.mpr ⟨hok.order.imp_of_mem fun {x y} hx _ hxy => ?_,
      List.pairwise_singleton _ _, fun x hx y hy => ?_⟩
    · rwa [targets_of_data (hother x hx).1]
    · rw [List.mem_singleton.mp hy, targets_of_data (hother x hx).1]
      exact fun hin => hfree (hok.known_of_target hx hin)
  · rcases hmem hx with hold | rfl
    · rw [targets_of_data (hother x hold).1]
      exact hok.simple x hold
    · rw [htargets]
      exact fun hin => hfree (hrefer x hin).1

/-! ### Calls -/

/-- What a call leaves of what nobody gives back, and how an object comes to be without references. -/
structure Later (q : Request) (r r' : Runtime) : Prop where
  kept : ∀ x ∈ r.store.known, r.store.count x = 0 → x ∈ r'.store.known ∧ r'.store.count x = 0
  lost : ∀ x ∈ r.lost, x ∈ r'.lost
  stranded : ∀ x ∈ r'.store.known, r'.store.count x = 0 → r.store.count x = 0 ∨
    ∃ c ∈ r.store.known, c ∉ r'.store.known ∧ (r.store.object c).parent = some x ∧
      (q = .erase c ∨ (r.store.object c).releaseParent = false)

/-- A reference more on an object that is referred to. -/
lemma Later.reference {q : Request} {r r' : Runtime} {a : ℕ} (hpos : 0 < r.store.count a)
    (hstore : r'.store = r.store.reference a) (hlost : r'.lost = r.lost) : Later q r r' := by
  have hsame : ∀ x, r'.store.count x = if x = a then r.store.count a + 1 else r.store.count x := by
    intro x
    rw [hstore, count_reference, Function.update_apply]
  have hknown : r'.store.known = r.store.known := by
    rw [hstore]
    rfl
  refine ⟨fun x hx hzero => ⟨by rwa [hknown], ?_⟩, fun x hx => by rwa [hlost], fun x hx hzero => Or.inl ?_⟩
  · have hne : x ≠ a := by
      rintro rfl
      exact hpos.ne' hzero
    rw [hsame, if_neg hne, hzero]
  · rw [hsame] at hzero
    split at hzero
    · omega
    · exact hzero

/-- A release. -/
lemma Later.release {q : Request} {r r' : Runtime} (hs : Shrunk [] r.store r'.store)
    (hlost : r'.lost = r.lost) : Later q r r' := by
  refine ⟨fun x hx hzero => hs.kept x hx (by simp) hzero, fun x hx => by rwa [hlost], fun x hx hzero => ?_⟩
  rcases hs.stranded x hx (by simp) hzero with hold | ⟨c, hc, hgone, hparent, hflag⟩
  · exact Or.inl hold
  · exact Or.inr ⟨c, hc, hgone, hparent, Or.inr hflag⟩

/-- A new object takes references on objects that have some, and has one. -/
lemma Later.create {r : Runtime} (hok : RuntimeOk r) {a : ℕ} {kind : Kind} {parent : Option ℕ}
    {retained : List ℕ} (hcan : CanCreate r.store a kind parent retained) :
    Later (.create a kind parent retained) r
      { r with store := r.store.construct a kind parent retained, holders := a :: r.holders } := by
  have hother : ∀ x ∈ r.store.known, (r.store.construct a kind parent retained).count x =
      r.store.count x + (retained ++ parent.toList).count x :=
    fun x hx => (construct_of_known hcan.1 hx).2
  refine ⟨fun x hx hzero => ⟨List.mem_append_left _ hx, ?_⟩, fun x hx => hx, fun x hx hzero => Or.inl ?_⟩
  · have hnot : x ∉ retained ++ parent.toList := fun hin => (hcan.2.1 x hin).2.ne' hzero
    exact (hother x hx).trans (by rw [hzero, List.count_eq_zero.mpr hnot]; rfl)
  · rcases List.mem_append.mp hx with hold | hnew
    · have hnonneg := hok.tree.counted.nonneg hold
      have heq := (hother x hold).symm.trans hzero
      omega
    · obtain rfl := List.mem_singleton.mp hnew
      simp [Store.count, Store.construct, Store.setObject] at hzero

/-- A call that deletes nothing leaves no object behind that had references. -/
lemma Later.count_eq_zero {q : Request} {r r' : Runtime} (h : Later q r r')
    (hknown : r'.store.known = r.store.known) {x : ℕ} (hx : x ∈ r'.store.known)
    (hzero : r'.store.count x = 0) : r.store.count x = 0 := by
  rcases h.stranded x hx hzero with hold | ⟨c, hc, hgone, -⟩
  · exact hold
  · rw [hknown] at hgone
    exact absurd hc hgone

/-- The references that are held, one taken out. -/
lemma Runtime.held_holders {r : Runtime} {a : ℕ} (ha : a ∈ r.holders) :
    r.held.Perm (a :: (r.holders.erase a ++ r.waits.map Prod.fst ++ r.lost)) := by
  have hperm := (List.perm_cons_erase ha).append_right (r.waits.map Prod.fst ++ r.lost)
  rw [← List.append_assoc] at hperm
  refine hperm.trans ?_
  rw [List.cons_append, List.append_assoc]

/-- The references that are held, one of an event that is waited for taken out. -/
lemma Runtime.held_waits {r : Runtime} {e d : ℕ} (hw : (e, d) ∈ r.waits) :
    r.held.Perm (e :: (r.holders ++ (r.waits.erase (e, d)).map Prod.fst ++ r.lost)) := by
  have hperm := (List.perm_cons_erase hw).map Prod.fst
  rw [List.map_cons] at hperm
  have hmid : (r.holders ++ r.waits.map Prod.fst).Perm
      (e :: (r.holders ++ (r.waits.erase (e, d)).map Prod.fst)) :=
    (hperm.append_left r.holders).trans List.perm_middle
  exact hmid.append_right r.lost

/-- A release of a reference that is held comes to its end. -/
lemma RuntimeOk.exists_release {r : Runtime} (hok : RuntimeOk r) {a : ℕ} {kind : Kind}
    (hisa : r.store.isA a kind = true) (ha : a ∈ r.holders) :
    ∃ r', step r (.release a kind) = some r' ∧ RuntimeOk r' ∧ Later (.release a kind) r r' := by
  obtain ⟨s, heq, hs, hok'⟩ := hok.release (Runtime.held_holders ha) fun w hw => hw
  refine ⟨⟨s, r.holders.erase a, r.waits, r.lost⟩, ?_, hok', Later.release hs rfl⟩
  rw [step, if_pos hisa, if_pos ha, heq]
  rfl

/-- An event is taken from the list of its queue. -/
lemma RuntimeOk.exists_erase {r : Runtime} (hok : RuntimeOk r) {e : ℕ} (he : e ∈ r.holders)
    (hkind : (r.store.object e).kind = .event) :
    ∃ r', step r (.erase e) = some r' ∧ RuntimeOk r' ∧ Later (.erase e) r r' := by
  obtain ⟨s, heq, hs, hok'⟩ :=
    (hok.setReleaseParent hkind).release (Runtime.held_holders he) fun w hw => hw
  have hcount : ∀ x, (r.store.setReleaseParent e false).count x = r.store.count x :=
    congrFun (count_setReleaseParent r.store e false)
  refine ⟨⟨s, r.holders.erase e, r.waits, r.lost⟩, ?_, hok', fun x hx hzero => ?_, fun x hx => hx,
    fun x hx hzero => ?_⟩
  · rw [step, if_pos ⟨he, hkind⟩]
    exact Option.map_eq_some_iff.mpr ⟨s, heq, rfl⟩
  · exact hs.kept x hx (by simp) ((hcount x).trans hzero)
  · rcases hs.stranded x hx (by simp) hzero with hold | ⟨c, hc, hgone, hparent, hflag⟩
    · exact Or.inl ((hcount x).symm.trans hold)
    · refine Or.inr ⟨c, hc, hgone, ?_⟩
      by_cases hce : c = e
      · subst hce
        refine ⟨?_, Or.inl rfl⟩
        simpa [Store.setReleaseParent, Store.setObject] using hparent
      · simp only [Store.setReleaseParent, Store.setObject, Function.update_of_ne hce] at hparent hflag
        exact ⟨hparent, Or.inr hflag⟩

/-- An event that waits is told that the event it waits for is over. -/
lemma RuntimeOk.exists_removeWaitEvent {r : Runtime} (hok : RuntimeOk r) {e d : ℕ}
    (hw : (e, d) ∈ r.waits) (hd : d ∈ r.store.known) :
    ∃ r', step r (.removeWaitEvent e d) = some r' ∧ RuntimeOk r' ∧
      Later (.removeWaitEvent e d) r r' := by
  rw [step, if_pos ⟨hw, hd⟩]
  cases hparent : (r.store.object e).parent with
  | some p =>
    obtain ⟨s, heq, hs, hok'⟩ := hok.release (Runtime.held_waits hw) fun w hw => List.mem_of_mem_erase hw
    exact ⟨⟨s, r.holders, r.waits.erase (e, d), r.lost⟩, Option.map_eq_some_iff.mpr ⟨s, heq, rfl⟩, hok',
      Later.release hs rfl⟩
  | none =>
    -- a user event: its reference is lost
    refine ⟨_, rfl, hok.recount ⟨?_, by simp⟩ (List.Sublist.refl _) (fun _ => rfl) hok.stranded
      (fun a ha => ?_) fun w hw' => hok.waits w (List.mem_of_mem_erase hw'), fun x hx hzero => ⟨hx, hzero⟩,
      fun x hx => List.mem_cons_of_mem e hx, fun x _ hzero => Or.inl hzero⟩
    · refine hok.tree.counted.perm ((Runtime.held_waits hw).trans ?_)
      exact List.perm_middle.symm
    · rcases List.mem_cons.mp ha with rfl | hold
      · exact Or.inr ⟨hok.waits _ hw, hparent⟩
      · exact Or.inl hold

/-- Every call keeps the invariant. -/
lemma RuntimeOk.step {r r' : Runtime} {q : Request} (hok : RuntimeOk r)
    (hstep : Objects.step r q = some r') : RuntimeOk r' ∧ Later q r r' := by
  have hsame : RuntimeOk r ∧ Later q r r :=
    ⟨hok, fun x hx hzero => ⟨hx, hzero⟩, fun x hx => hx, fun x _ hzero => Or.inl hzero⟩
  cases q with
  | create a kind parent retained =>
    rw [Objects.step] at hstep
    split at hstep
    · rename_i hcan
      cases hstep
      exact ⟨hok.create hcan, Later.create hok hcan⟩
    · cases hstep
  | retain a kind =>
    rw [Objects.step] at hstep
    split at hstep
    · rename_i hisa
      split at hstep
      · rename_i hpos
        cases hstep
        have ha : a ∈ r.store.known := (of_decide_eq_true hisa).1
        have hlater : Later (.retain a kind) r
            { r with store := r.store.reference a, holders := a :: r.holders } :=
          Later.reference hpos rfl rfl
        refine ⟨hok.recount (hok.tree.reference ha) (List.Sublist.refl _) (data_reference r.store a)
          (fun x hx hzero => ?_) (fun x hx => Or.inl hx) hok.waits, hlater⟩
        exact hok.stranded x hx (hlater.count_eq_zero rfl hx hzero)
      · cases hstep
    · cases hstep
      exact hsame
  | release a kind =>
    by_cases hisa : r.store.isA a kind = true
    · by_cases ha : a ∈ r.holders
      · obtain ⟨r₁, heq, hok₁, hlater⟩ := hok.exists_release hisa ha
        rw [heq] at hstep
        cases hstep
        exact ⟨hok₁, hlater⟩
      · rw [Objects.step, if_pos hisa, if_neg ha] at hstep
        cases hstep
    · rw [Objects.step, if_neg hisa] at hstep
      cases hstep
      exact hsame
  | erase e =>
    by_cases he : e ∈ r.holders ∧ (r.store.object e).kind = .event
    · obtain ⟨r₁, heq, hok₁, hlater⟩ := hok.exists_erase he.1 he.2
      rw [heq] at hstep
      cases hstep
      exact ⟨hok₁, hlater⟩
    · rw [Objects.step, if_neg he] at hstep
      cases hstep
  | addDependentEvent e d =>
    rw [Objects.step] at hstep
    split at hstep
    · rename_i hrefer
      obtain ⟨⟨he, hpos⟩, hkind⟩ := hrefer
      cases hstep
      have hlater : Later (.addDependentEvent e d) r
          { r with store := r.store.reference e, waits := (e, d) :: r.waits } :=
        Later.reference hpos rfl rfl
      refine ⟨hok.recount ?_ (List.Sublist.refl _) (data_reference r.store e) (fun x hx hzero => ?_)
        (fun x hx => Or.inl hx) fun w hw => ?_, hlater⟩
      · refine ⟨(hok.tree.reference he).counted.perm ?_, by simp⟩
        change (e :: (r.holders ++ r.waits.map Prod.fst ++ r.lost)).Perm
          (r.holders ++ e :: r.waits.map Prod.fst ++ r.lost)
        rw [List.append_assoc, List.append_assoc]
        exact List.perm_middle.symm
      · exact hok.stranded x hx (hlater.count_eq_zero rfl hx hzero)
      · rcases List.mem_cons.mp hw with rfl | hold
        · exact hkind
        · exact hok.waits w hold
    · cases hstep
  | removeWaitEvent e d =>
    by_cases hw : (e, d) ∈ r.waits ∧ d ∈ r.store.known
    · obtain ⟨r₁, heq, hok₁, hlater⟩ := hok.exists_removeWaitEvent hw.1 hw.2
      rw [heq] at hstep
      cases hstep
      exact ⟨hok₁, hlater⟩
    · rw [Objects.step, if_neg hw] at hstep
      cases hstep

/-- The invariant holds in every state of every run. -/
lemma runtimeOk_run {memory : ℕ → Object} {qs : List Request} {r : Runtime}
    (hrun : run step (start memory) qs = some r) : RuntimeOk r :=
  invariant_of_run (fun _ _ _ hok hst => (RuntimeOk.step hok hst).1) hrun (runtimeOk_start memory)

/-! ### Results -/

/-- A context, a queue and an event whose handle the application keeps. -/
def queueRun : List Request :=
  [.create 1 .context none [], .create 2 .commandQueue (some 1) [], .create 3 .event (some 2) [],
    .retain 3 .event, .erase 3, .release 1 .context, .release 2 .commandQueue]

/-- The memory before the first call. -/
def noObjects (_ : ℕ) : Object := ⟨.event, 0, none, true, []⟩

/-- Objects refer to older ones. -/
lemma RuntimeOk.idxOf_lt {r : Runtime} (hok : RuntimeOk r) {a t : ℕ} (ha : a ∈ r.store.known)
    (ht : t ∈ r.store.targets a) : r.store.known.idxOf t < r.store.known.idxOf a := by
  have htin := hok.known_of_target ha ht
  by_contra hle
  have hne : r.store.known.idxOf a ≠ r.store.known.idxOf t := by
    intro heq
    obtain rfl : a = t := (List.idxOf_inj ha).mp heq
    exact hok.simple a ha ht
  have hlt : r.store.known.idxOf a < r.store.known.idxOf t := by omega
  have hpair := List.pairwise_iff_getElem.mp hok.order _ _ (List.idxOf_lt_length_of_mem ha)
    (List.idxOf_lt_length_of_mem htin) hlt
  rw [List.getElem_idxOf, List.getElem_idxOf] at hpair
  exact hpair ht

/-- No object refers to itself over others. -/
lemma RuntimeOk.no_cycle {r : Runtime} (hok : RuntimeOk r) (a : ℕ) :
    ¬Relation.TransGen (Refers r.store.known r.store.targets) a a := by
  have hless : ∀ {x y : ℕ}, Relation.TransGen (Refers r.store.known r.store.targets) x y →
      r.store.known.idxOf y < r.store.known.idxOf x := by
    intro x y hxy
    induction hxy with
    | single hxy => exact hok.idxOf_lt hxy.1 hxy.2
    | tail _ hyz ih => exact (hok.idxOf_lt hyz.1 hyz.2).trans ih
  exact fun hcycle => lt_irrefl _ (hless hcycle)

end TiOpenCL.Objects
