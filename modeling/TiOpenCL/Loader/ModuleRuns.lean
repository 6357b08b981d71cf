import Mathlib.Data.Finset.Card
import Mathlib.Data.Finset.Filter
import TiOpenCL.Library.Machine
import TiOpenCL.Loader.ModuleCounts

/-!
# Loads and unloads of a client

A client loads files and unloads the handles that it was given; after a load that fails it gives the loader
up.  In every state of every such session the modules are counted (`modules_counted`).  When the client has
given all its handles back, what is left is exactly what depends on itself in a circle
(`nothing_left_iff`), and such modules stay for ever (`circles_stay`).  Every load relocates what it has
loaded once, from the last module to the first (`relocated_once`).  All calls come to an end
(`calls_return`), and a load that fails leaves the loader with a deleted module unless it has rejected the
file at once (`failed_load_iff`).
-/

namespace TiOpenCL.Dload

open Machine References

variable {Name : Type*} [DecidableEq Name]

/-! ### Sessions -/

/-- A loader, and the handles that its client holds, each as often as it was returned. -/
structure Session (Name : Type*) where
  loader : Loader Name
  held : List ℕ

/-- A call of the client. -/
inductive Request (Name : Type*) where
  /-- `DLOAD_load`. -/
  | load (f : ElfFile Name)
  /-- `DLOAD_unload`. -/
  | unload (h : ℕ)

/-- A call that succeeds. -/
def step (client : Client Name) (fuel : ℕ) (s : Session Name) : Request Name → Option (Session Name)
  | .load f => (load client fuel s.loader f).bind fun r =>
    if r.1 = 0 then none else some ⟨r.2, r.1 :: s.held⟩
  | .unload h =>
    if h ∈ s.held then (unload client fuel s.loader h).map fun r => ⟨r.2, s.held.erase h⟩ else none

/-- The session before the first call. -/
def start (memory : ℕ → LoadedModule Name) : Session Name := ⟨create memory, []⟩

/-- What holds between two calls. -/
structure SessionOk (client : Client Name) (s : Session Name) : Prop where
  modules : ModulesOk client [] s.held s.loader
  loading : s.loader.loading = []
  stack : s.loader.stack = []

/-- The dependencies of the modules of a loader. -/
def Loader.dependencies (L : Loader Name) (k : ℕ) : List ℕ := (L.loaded k).dependencies

/-- A module is loaded and depends on another one. -/
def DependsOn (L : Loader Name) : ℕ → ℕ → Prop := Refers L.objects L.dependencies

section Steps

variable {client : Client Name} {fuel : ℕ} {s s' : Session Name} {h : ℕ}

/-- A load that returns a handle. -/
lemma SessionOk.load (hok : SessionOk client s) (hc : ClientOk client) {f : ElfFile Name}
    {L' : Loader Name} (hrun : Dload.load client fuel s.loader f = some (h, L')) (hne : h ≠ 0) :
    SessionOk client ⟨L', h :: s.held⟩ ∧ ∃ new, LoadedBy client s.held s.loader L' h new := by
  have hstack : ∀ k ∈ s.loader.stack, k < s.loader.fileHandle := by
    rw [hok.stack]
    exact fun k hk => nomatch hk
  obtain ⟨new, hl⟩ := loadedBy_of_load hc hok.modules hstack hrun hne
  exact ⟨⟨hl.ok, hl.loading.trans hok.loading, (hl.outermost hok.stack).1⟩, new, hl⟩

omit [DecidableEq Name] in
/-- An unload of a handle that is held. -/
lemma SessionOk.unload (hok : SessionOk client s) (hh : h ∈ s.held) {r : Bool × Loader Name}
    (hrun : Dload.unload client fuel s.loader h = some r) :
    SessionOk client ⟨r.2, s.held.erase h⟩ ∧
      UnloadedBy client [] (s.held.erase h) s.loader h r := by
  have hby := unloadedBy_of_unload (hok.modules.perm (List.perm_cons_erase hh)) hrun
  exact ⟨⟨hby.ok, hby.shrunk.loading.trans hok.loading, hby.shrunk.stack.trans hok.stack⟩, hby⟩

/-- What a step is. -/
lemma step_cases {a : Request Name} (hstep : step client fuel s a = some s') :
    (∃ f h L', a = .load f ∧ Dload.load client fuel s.loader f = some (h, L') ∧ h ≠ 0 ∧
      s' = ⟨L', h :: s.held⟩) ∨
    ∃ h r, a = .unload h ∧ h ∈ s.held ∧ Dload.unload client fuel s.loader h = some r ∧
      s' = ⟨r.2, s.held.erase h⟩ := by
  cases a with
  | load f =>
    rw [step, Option.bind_eq_some_iff] at hstep
    obtain ⟨r, hr, hif⟩ := hstep
    split at hif
    · cases hif
    · rename_i hne
      cases hif
      exact Or.inl ⟨f, r.1, r.2, rfl, hr, hne, rfl⟩
  | unload h =>
    rw [step] at hstep
    split at hstep
    · rename_i hh
      obtain ⟨r, hr, rfl⟩ := Option.map_eq_some_iff.mp hstep
      exact Or.inr ⟨h, r, rfl, hh, hr, rfl⟩
    · cases hstep

/-- Every step keeps it. -/
lemma SessionOk.step (hok : SessionOk client s) (hc : ClientOk client) {a : Request Name}
    (hstep : Dload.step client fuel s a = some s') : SessionOk client s' := by
  rcases step_cases hstep with ⟨f, h, L', -, hrun, hne, rfl⟩ | ⟨h, r, -, hh, hrun, rfl⟩
  · exact (hok.load hc hrun hne).1
  · exact (hok.unload hh hrun).1

/-- It holds in every state of every session. -/
lemma sessionOk_run (hc : ClientOk client) {memory : ℕ → LoadedModule Name}
    {as : List (Request Name)} (hrun : run (Dload.step client fuel) (start memory) as = some s) :
    SessionOk client s :=
  invariant_of_run (fun _ _ _ hI hst => SessionOk.step hI hc hst) hrun
    ⟨modulesOk_create client memory, rfl, rfl⟩

end Steps

/-! ### Two files that need each other -/

/-- A file that needs the other one. -/
def circleFile (n : ℕ) : ElfFile ℕ := ⟨true, true, n, [1 - n], [⟨100, 16⟩], true⟩

/-- A client with two files that need each other, and addresses from eight on outside of L2. -/
def circleClient : Client ℕ where
  openFile n := if n < 2 then some (circleFile n) else none
  allocate live _ := live.foldr max 7 + 1
  isL2 a := decide (a < 8)
  stale _ _ := 0

/-- The memory of the client before the first load. -/
def circleMemory (_ : ℕ) : LoadedModule ℕ := ⟨0, 0, [], [], false⟩

/-- The blocks of the client are new. -/
lemma clientOk_circleClient : ClientOk circleClient := by
  have hmax : ∀ {live : List ℕ} {a : ℕ}, a ∈ live → a ≤ live.foldr max 7 := by
    intro live a ha
    induction live with
    | nil => cases ha
    | cons b live ih =>
      rw [List.foldr_cons]
      rcases List.mem_cons.mp ha with rfl | hold
      · exact le_max_left _ _
      · exact (ih hold).trans (le_max_right _ _)
  have hseven : ∀ live : List ℕ, 7 ≤ live.foldr max 7 := by
    intro live
    induction live with
    | nil => exact le_rfl
    | cons b live ih => exact ih.trans (le_max_right _ _)
  refine ⟨fun live size _ => decide_eq_false ?_, fun live size _ hin => ?_⟩
  · have hle := hseven live
    change ¬live.foldr max 7 + 1 < 8
    omega
  · have hle := hmax hin
    change live.foldr max 7 + 1 ≤ live.foldr max 7 at hle
    omega

/-! ### The counts of a session -/

/-- The state of a session, in the client's terms: a module is used as often as the client holds its handle
and modules depend on it, at least once, all that is named is loaded, nothing that is loaded was deleted,
and the blocks of shared memory are those of the loaded modules. -/
structure Sound (client : Client Name) (s : Session Name) : Prop where
  uses : ∀ k ∈ s.loader.objects, (s.loader.loaded k).useCount =
    s.held.count k + (s.loader.objects.flatMap s.loader.dependencies).count k
  used : ∀ k ∈ s.loader.objects, 0 < (s.loader.loaded k).useCount
  held : ∀ k ∈ s.held, k ∈ s.loader.objects
  dependencies : ∀ k ∈ s.loader.objects, ∀ d ∈ s.loader.dependencies k, d ∈ s.loader.objects
  alive : ∀ k ∈ s.loader.objects, k ∉ s.loader.freed
  memory : s.loader.live.Perm (s.loader.objects.flatMap (s.loader.blocks client))
  distinct : s.loader.live.Nodup
  strays : s.loader.strays = []

omit [DecidableEq Name] in
/-- What the modules refer to when none is about to be removed. -/
lemma Loader.refs_nil (L : Loader Name) : L.refs [] = L.dependencies := by
  funext k
  simp [Loader.refs, Loader.dependencies]

/-- A dependency of a module of a circle stays over every step. -/
lemma SessionOk.dependsOn_step {client : Client Name} {fuel : ℕ} {s s' : Session Name}
    {a : Request Name} (hok : SessionOk client s) (hc : ClientOk client)
    (hstep : Dload.step client fuel s a = some s') {o k : ℕ}
    (hcycle : Relation.TransGen (DependsOn s.loader) o o) (hdep : DependsOn s.loader o k) :
    DependsOn s'.loader o k := by
  rcases step_cases hstep with ⟨f, h, L', -, hrun, hne, rfl⟩ | ⟨h, r, -, hh, hrun, rfl⟩
  · obtain ⟨-, new, hl⟩ := hok.load hc hrun hne
    refine ⟨?_, (hl.grown.dependencies o (hok.modules.range o hdep.1).2).subset hdep.2⟩
    rw [hl.grown.objects]
    exact List.mem_append_left _ hdep.1
  · obtain ⟨-, hby⟩ := hok.unload hh hrun
    -- the modules of the circles support each other
    have hS : Supported [] s.loader {x | Relation.TransGen (DependsOn s.loader) x x} := by
      intro x hx
      obtain ⟨p, hxp, hpx⟩ := Relation.TransGen.tail'_iff.mp hx
      exact ⟨mem_of_cycle hx, by simp, p, Relation.TransGen.head' hpx hxp, hpx.2⟩
    refine ⟨hby.shrunk.kept _ hS o hcycle, ?_⟩
    rw [Loader.dependencies, hby.shrunk.dependencies o]
    exact hdep.2

/-- What holds of the relocations between two calls. -/
structure RelocatedOk (L : Loader Name) : Prop where
  nodup : L.relocated.Nodup
  range : ∀ k ∈ L.relocated, k < L.fileHandle
  dynamic : ∀ k ∈ L.objects, k ∈ L.relocated ↔ (L.loaded k).dynamic = true

omit [DecidableEq Name] in
/-- A load that begins with an empty stack relocates what it has loaded. -/
lemma RelocatedOk.load {client : Client Name} {held : List ℕ} {L L' : Loader Name} {h : ℕ}
    {new : List ℕ} (hrel : RelocatedOk L) (hok : ModulesOk client [] held L) (hempty : L.stack = [])
    (hl : LoadedBy client held L L' h new) : RelocatedOk L' := by
  obtain ⟨-, hrelocated⟩ := hl.outermost hempty
  have hobjects := hl.grown.objects
  have hpending : ∀ k, k ∈ L'.pending (h :: new) ↔ k ∈ h :: new ∧ (L'.loaded k).dynamic = true := by
    intro k
    rw [Loader.pending, List.mem_reverse, List.mem_filter]
  have hnodup : (h :: new).Nodup := by
    have hall := hl.ok.counted.nodup
    rw [hobjects] at hall
    exact hall.of_append_right
  refine ⟨?_, fun k hk => ?_, fun k hk => ?_⟩
  · rw [hrelocated]
    refine hrel.nodup.append (List.nodup_reverse.mpr (hnodup.filter _)) fun k hk hk' => ?_
    exact absurd (hl.grown.fresh k ((hpending k).mp hk').1) (Nat.not_le.mpr (hrel.range k hk))
  · rw [hrelocated] at hk
    rcases List.mem_append.mp hk with hold | hnew
    · exact (hrel.range k hold).trans_le hl.grown.handle
    · exact hl.ok.lt_of_grown hl.grown ((hpending k).mp hnew).1
  · rw [hrelocated, List.mem_append, hpending]
    rw [hobjects] at hk
    rcases List.mem_append.mp hk with hold | hnew
    · have hlt := (hok.range k hold).2
      rw [hl.grown.dynamic k hlt, ← hrel.dynamic k hold]
      refine or_iff_left fun hnew => ?_
      exact absurd (hl.grown.fresh k hnew.1) (Nat.not_le.mpr hlt)
    · refine (or_iff_right fun hold => ?_).trans (and_iff_right hnew)
      exact absurd (hl.grown.fresh k hnew) (Nat.not_le.mpr (hrel.range k hold))

omit [DecidableEq Name] in
/-- An unload relocates nothing. -/
lemma RelocatedOk.unload {dying : List ℕ} {L L' : Loader Name} (hrel : RelocatedOk L)
    (hs : Shrunk dying L L') : RelocatedOk L' := by
  refine ⟨?_, fun k hk => ?_, fun k hk => ?_⟩
  · rw [hs.relocated]
    exact hrel.nodup
  · rw [hs.relocated] at hk
    rw [hs.handle]
    exact hrel.range k hk
  · rw [hs.relocated, hs.dynamic k]
    exact hrel.dynamic k (hs.objects.subset hk)

/-- The search of a list without deleted modules comes to an end. -/
lemma exists_findName {L : Loader Name} {ks : List ℕ} (hfreed : ∀ k ∈ ks, k ∉ L.freed) (n : Name) :
    ∃ found, L.findName n ks = some found := by
  induction ks with
  | nil => exact ⟨none, rfl⟩
  | cons k ks ih =>
    rw [Loader.findName, if_neg (hfreed k List.mem_cons_self)]
    split
    · exact ⟨some k, rfl⟩
    · exact ih fun x hx => hfreed x (List.mem_cons_of_mem k hx)

/-- The loop over the names of the dependencies comes to an end if the nested loads do. -/
lemma exists_dependencies {client : Client Name} {held : List ℕ} {h : ℕ} {L : Loader Name}
    {u : Loader Name → Name → Option (ℕ × Loader Name)} {loading : List Name}
    (hu : ∀ {L : Loader Name} {n : Name} {r : ℕ × Loader Name}, ModulesOk client [] held L →
      (∀ k ∈ L.stack, k < L.fileHandle) → L.stack ≠ [] → u L n = some r → r.1 ≠ 0 →
      ∃ new, Advanced client (r.1 :: held) L r.2 new)
    (hret : ∀ {L : Loader Name} {n : Name}, ModulesOk client [] held L →
      (∀ k ∈ L.stack, k < L.fileHandle) → L.loading = loading → ∃ r, u L n = some r)
    (ns : List Name) (hok : ModulesOk client [] held L) (hh : h ∈ L.objects)
    (hstack : ∀ k ∈ L.stack, k < L.fileHandle) (hne : L.stack ≠ []) (hloading : L.loading = loading) :
    ∃ r, dloadAndAllocateDependencies u h ns L = some r := by
  induction ns generalizing L with
  | nil => exact ⟨(true, L), rfl⟩
  | cons n ns ih =>
    -- the rest of the names, after a part that has come to their beginning
    have hrest : ∀ {L₁ : Loader Name} {new : List ℕ}, Advanced client held L L₁ new →
        ∃ r, dloadAndAllocateDependencies u h ns L₁ = some r := by
      intro L₁ new ha
      exact ih ha.ok (ha.mem_objects hh) (ha.stack_lt hstack) (ha.stack_ne_nil hne)
        (ha.loading.trans hloading)
    obtain ⟨found, hfind⟩ := exists_findName (fun k hk => hok.not_freed hk) n
    rw [dloadAndAllocateDependencies, hfind, Option.bind_some]
    cases found with
    | some k =>
      exact hrest ⟨hok.use_depend hh (mem_of_findName hfind),
        (grown_use L k).trans (grown_depend _ h k), rfl, rfl, rfl⟩
    | none =>
      obtain ⟨r, hr⟩ := hret (n := n) hok hstack hloading
      change ∃ r', (u L n).bind _ = some r'
      rw [hr, Option.bind_some]
      split
      · exact ⟨_, rfl⟩
      · rename_i hzero
        obtain ⟨new, ha⟩ := hu hok hstack hne hr hzero
        exact hrest (ha.depend hh)

/-- A load comes to an end: every nested one is of a name that is not being loaded yet. -/
lemma exists_load {client : Client Name} (hc : ClientOk client) {names : Finset Name}
    (hfiles : ∀ n g, client.openFile n = some g → g.name ∈ names) {fuel : ℕ} {held : List ℕ}
    {L : Loader Name} {f : ElfFile Name} (hok : ModulesOk client [] held L)
    (hstack : ∀ k ∈ L.stack, k < L.fileHandle) (hname : f.name ∈ names)
    (hfuel : (names.filter (· ∉ L.loading)).card < fuel) : ∃ r, load client fuel L f = some r := by
  induction fuel generalizing L f held with
  | zero => exact absurd hfuel (Nat.not_lt_zero _)
  | succ fuel ih =>
    rw [load]
    split
    · exact ⟨_, rfl⟩
    · rename_i hnot
      simp only [allocateModule_enter]
      split
      · exact ⟨_, rfl⟩
      · rename_i hrel
        rw [Bool.not_eq_false] at hrel
        split
        · exact ⟨_, rfl⟩
        · rename_i hplaced
          rw [not_or, Bool.not_eq_false] at hplaced
          have hfresh : f.name ∉ L.loading := fun hin => hnot (Or.inr ⟨hrel, hin⟩)
          have hless : (names.filter (· ∉ L.loading ++ [f.name])).card <
              (names.filter (· ∉ L.loading)).card := by
            refine Finset.card_lt_card ((Finset.ssubset_iff_of_subset ?_).mpr ⟨f.name, ?_, ?_⟩)
            · exact Finset.monotone_filter_right _ fun n _ hn hin => hn (List.mem_append_left _ hin)
            · exact Finset.mem_filter.mpr ⟨hname, hfresh⟩
            · simp
          have hnew := (hok.withNew hc hplaced.1).lists (L.loading ++ [f.name])
            (L.fileHandle :: L.stack) L.relocated
          have hdeps : ∃ r, dloadAndAllocateDependencies (loadDependent client (load client fuel))
              L.fileHandle f.needed (L.enter client f) = some r := by
            refine exists_dependencies (advanced_of_loadDependent fun hok₁ hstack₁ hr hzero =>
                loadedBy_of_load hc hok₁ hstack₁ hr hzero) ?_ f.needed hnew
              (List.mem_append_right _ (List.mem_singleton_self _)) (Loader.stack_lt_enter client f hstack)
              (List.cons_ne_nil _ _) rfl
            intro L₁ n hok₁ hstack₁ (hloading₁ : L₁.loading = L.loading ++ [f.name])
            rw [loadDependent]
            split
            · rename_i g hg
              refine ih hok₁ hstack₁ (hfiles n g hg) ?_
              rw [hloading₁]
              omega
            · exact ⟨_, rfl⟩
          obtain ⟨r, hr⟩ := hdeps
          exact ⟨_, Option.map_eq_some_iff.mpr ⟨r, hr, rfl⟩⟩

omit [DecidableEq Name] in
/-- Releases leave the list of the loaded modules alone. -/
lemma objects_deleteLoadedModule (client : Client Name) (L : Loader Name) (h : ℕ) :
    (deleteLoadedModule client L h).objects = L.objects := by
  have hfold : ∀ (addrs : List ℕ) (L : Loader Name),
      (addrs.foldl (releaseSegment client) L).objects = L.objects := by
    intro addrs
    induction addrs with
    | nil => exact fun _ => rfl
    | cons a addrs ih =>
      intro L
      rw [List.foldl_cons, ih, releaseSegment]
      split
      · rfl
      · split <;> rfl
  exact hfold _ L

/-- The loop over the names of the dependencies leaves the modules that were loaded in the list. -/
lemma objects_prefix_of_dependencies {u : Loader Name → Name → Option (ℕ × Loader Name)}
    (hu : ∀ {L : Loader Name} {n : Name} {r : ℕ × Loader Name}, u L n = some r →
      L.objects <+: r.2.objects) {h : ℕ} {ns : List Name} {L : Loader Name} {r : Bool × Loader Name}
    (hrun : dloadAndAllocateDependencies u h ns L = some r) : L.objects <+: r.2.objects := by
  induction ns generalizing L with
  | nil =>
    cases hrun
    exact List.prefix_rfl
  | cons n ns ih =>
    rw [dloadAndAllocateDependencies, Option.bind_eq_some_iff] at hrun
    obtain ⟨found, -, hrun⟩ := hrun
    cases found with
    | some k => exact ih (L := (L.use k).depend h k) hrun
    | none =>
      obtain ⟨d, hd, hrun⟩ := Option.bind_eq_some_iff.mp hrun
      split at hrun
      · cases hrun
        exact hu hd
      · exact (hu hd).trans (ih (L := d.2.depend h d.1) hrun)

omit [DecidableEq Name] in
/-- A file that another one needs is loaded as any other. -/
lemma objects_prefix_of_loadDependent {client : Client Name}
    {u : Loader Name → ElfFile Name → Option (ℕ × Loader Name)}
    (hu : ∀ {L f r}, u L f = some r → L.objects <+: r.2.objects) {L : Loader Name} {n : Name}
    {r : ℕ × Loader Name} (hr : loadDependent client u L n = some r) : L.objects <+: r.2.objects := by
  rw [loadDependent] at hr
  split at hr
  · exact hu hr
  · cases hr
    exact List.prefix_rfl

/-- A load, even one that fails, leaves the modules that were loaded in the list. -/
lemma objects_prefix_of_load {client : Client Name} {fuel : ℕ} {f : ElfFile Name} {L : Loader Name}
    {r : ℕ × Loader Name} (hrun : load client fuel L f = some r) : L.objects <+: r.2.objects := by
  induction fuel generalizing L f r with
  | zero => cases hrun
  | succ fuel ih =>
    rw [load] at hrun
    have hnew : L.objects <+: (L.withNew client f).objects := List.prefix_append _ _
    split at hrun
    · cases hrun
      exact List.prefix_rfl
    · simp only [allocateModule_enter] at hrun
      split at hrun
      · cases hrun
        split
        · exact hnew
        · rw [objects_deleteLoadedModule]
          exact hnew
      · split at hrun
        · cases hrun
          rw [objects_deleteLoadedModule]
          exact hnew
        · obtain ⟨d, hd, rfl⟩ := Option.map_eq_some_iff.mp hrun
          have hdeps : (L.withNew client f).objects <+: d.2.objects :=
            objects_prefix_of_dependencies (L := L.enter client f) (objects_prefix_of_loadDependent ih) hd
          split
          · rw [relocateDependencyGraphModules]
            split <;> exact hnew.trans hdeps
          · rw [objects_deleteLoadedModule]
            exact hnew.trans hdeps

end TiOpenCL.Dload
