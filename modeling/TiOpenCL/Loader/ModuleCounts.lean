import TiOpenCL.Library.References
import TiOpenCL.Loader.Modules

/-!
# The uses of the modules are counted

Every use of a module by the client or by a dependency of another module is counted once, every
dependency is loaded, and the blocks of shared memory are those of the segments of the loaded modules
(`ModulesOk`).  A load that returns a handle keeps this at every moment of its recursion, the modules that
are being loaded counting as used from outside; so does an unload, the modules whose count has come down
to zero (`dying`) having given up their dependencies.
-/

namespace TiOpenCL.Dload

open References

variable {Name : Type*} {client : Client Name} {L L' : Loader Name} {dying held : List ℕ} {h k : ℕ}

/-! ### The invariant -/

/-- What the loader core is promised of the shared memory: a new block is new and not in L2. -/
structure ClientOk (client : Client Name) : Prop where
  global : ∀ live size, client.allocate live size ≠ 0 →
    client.isL2 (client.allocate live size) = false
  fresh : ∀ live size, client.allocate live size ≠ 0 → client.allocate live size ∉ live

/-- The blocks of a list of target addresses. -/
def globalOf (client : Client Name) (addrs : List ℕ) : List ℕ := addrs.filter fun a => !client.isL2 a

/-- The blocks of the segments of a module. -/
def Loader.blocks (client : Client Name) (L : Loader Name) (k : ℕ) : List ℕ :=
  globalOf client (L.loaded k).segments

/-- The use count of a module. -/
def Loader.count (L : Loader Name) (k : ℕ) : ℤ := (L.loaded k).useCount

/-- The dependencies of a module that it still uses. -/
def Loader.refs (L : Loader Name) (dying : List ℕ) (k : ℕ) : List ℕ :=
  if k ∈ dying then [] else (L.loaded k).dependencies

/-- What holds of the loaded modules, when some are used from outside and some are about to be removed. -/
structure ModulesOk (client : Client Name) (dying held : List ℕ) (L : Loader Name) : Prop where
  counted : Counted L.objects L.count (L.refs dying) held
  used : ∀ k ∈ L.objects, k ∉ dying → 0 < L.count k
  spent : ∀ k ∈ dying, k ∈ L.objects ∧ L.count k = 0
  handle : 0 < L.fileHandle
  range : ∀ k ∈ L.objects, 0 < k ∧ k < L.fileHandle
  freed : ∀ k ∈ L.freed, k ∉ L.objects ∧ k < L.fileHandle
  memory : L.live.Perm (L.objects.flatMap (L.blocks client))
  distinct : L.live.Nodup
  strays : L.strays = []

/-- A new loader has nothing to count. -/
lemma modulesOk_create (client : Client Name) (memory : ℕ → LoadedModule Name) :
    ModulesOk client [] [] (create memory) := by
  refine ⟨counted_nil _ _, ?_, ?_, ?_, ?_, ?_, ?_, ?_, rfl⟩ <;> simp [create]

/-- What is being loaded and what was relocated does not count. -/
lemma ModulesOk.lists (hok : ModulesOk client dying held L) (loading : List Name)
    (stack relocated : List ℕ) : ModulesOk client dying held
      { L with loading := loading, stack := stack, relocated := relocated } :=
  ⟨hok.counted, hok.used, hok.spent, hok.handle, hok.range, hok.freed, hok.memory, hok.distinct,
    hok.strays⟩

/-- The order of the uses from outside does not matter. -/
lemma ModulesOk.perm {held' : List ℕ} (hok : ModulesOk client dying held L) (hp : held.Perm held') :
    ModulesOk client dying held' L :=
  ⟨hok.counted.perm hp, hok.used, hok.spent, hok.handle, hok.range, hok.freed, hok.memory, hok.distinct,
    hok.strays⟩

/-- No loaded module was deleted. -/
lemma ModulesOk.not_freed (hok : ModulesOk client dying held L) (hk : k ∈ L.objects) : k ∉ L.freed :=
  fun hin => (hok.freed k hin).1 hk

/-! ### Segments -/

/-- If all segments are placed, the blocks are allocated for them. -/
lemma allocateSegments_live (hc : ClientOk client) {segs : List Segment} {live targets live' : List ℕ}
    (h : allocateSegments client segs live = (true, targets, live')) (hlive : live.Nodup) :
    live'.Perm (globalOf client targets ++ live) ∧ live'.Nodup ∧ targets.length = segs.length := by
  induction segs generalizing live targets with
  | nil =>
    obtain ⟨-, rfl, rfl⟩ : true = true ∧ [] = targets ∧ live = live' := by
      simpa [allocateSegments] using h
    exact ⟨List.Perm.refl _, hlive, rfl⟩
  | cons seg segs ih =>
    rw [allocateSegments] at h
    split at h
    · rename_i hl2
      simp only [Prod.mk.injEq] at h
      obtain ⟨hok, rfl, rfl⟩ := h
      obtain ⟨hperm, hnodup, hlength⟩ := ih (Prod.ext hok rfl) hlive
      refine ⟨?_, hnodup, by rw [List.length_cons, hlength, List.length_cons]⟩
      rw [globalOf, List.filter_cons_of_neg (by simp [hl2])]
      exact hperm
    · split at h
      · cases h
      · rename_i hl2 hzero
        simp only [Prod.mk.injEq] at h
        obtain ⟨hok, rfl, rfl⟩ := h
        have hfresh : (client.allocate live seg.memsz :: live).Nodup :=
          List.nodup_cons.mpr ⟨hc.fresh live seg.memsz hzero, hlive⟩
        obtain ⟨hperm, hnodup, hlength⟩ := ih (Prod.ext hok rfl) hfresh
        refine ⟨?_, hnodup, by rw [List.length_cons, hlength, List.length_cons]⟩
        rw [globalOf, List.filter_cons_of_pos (by simp [hc.global live seg.memsz hzero])]
        exact hperm.trans List.perm_middle

/-- If the blocks of a list of addresses are allocated, they are released, and nothing else is. -/
lemma foldl_releaseSegment {addrs rest : List ℕ} (hperm : L.live.Perm (globalOf client addrs ++ rest)) :
    ∃ live, addrs.foldl (releaseSegment client) L = { L with live := live } ∧ live.Perm rest := by
  induction addrs generalizing L with
  | nil => exact ⟨L.live, rfl, hperm⟩
  | cons a addrs ih =>
    rw [List.foldl_cons, releaseSegment]
    split
    · rename_i hl2
      rw [globalOf, List.filter_cons_of_neg (by simp [hl2])] at hperm
      exact ih hperm
    · rename_i hl2
      rw [globalOf, List.filter_cons_of_pos (by simpa using hl2)] at hperm
      rw [if_pos (hperm.mem_iff.mpr (List.mem_cons_self ..))]
      have hrest : (L.live.erase a).Perm (globalOf client addrs ++ rest) := by
        have herase := hperm.erase a
        rwa [List.cons_append, List.erase_cons_head] at herase
      obtain ⟨live, heq, hlive⟩ := ih (L := { L with live := L.live.erase a }) hrest
      exact ⟨live, heq, hlive⟩

/-! ### Steps of a load -/

/-- A use and a dependency more of two loaded modules. -/
lemma ModulesOk.use_depend (hok : ModulesOk client [] held L) (hh : h ∈ L.objects)
    (hk : k ∈ L.objects) : ModulesOk client [] held ((L.use k).depend h k) := by
  have hcount : ∀ x, ((L.use k).depend h k).count x =
      Function.update L.count k (L.count k + 1) x := by
    intro x
    by_cases hxh : x = h <;> by_cases hxk : x = k <;>
      simp_all [Loader.count, Loader.depend, Loader.use, Loader.setModule, Function.update_apply]
  have hrefs : ∀ x, ((L.use k).depend h k).refs [] x =
      Function.update (L.refs []) h (L.refs [] h ++ [k]) x := by
    intro x
    by_cases hxh : x = h <;> by_cases hxk : x = k <;>
      simp_all [Loader.refs, Loader.depend, Loader.use, Loader.setModule, Function.update_apply]
  have hblocks : ((L.use k).depend h k).blocks client = L.blocks client := by
    funext x
    by_cases hxh : x = h <;> by_cases hxk : x = k <;>
      simp_all [Loader.blocks, Loader.depend, Loader.use, Loader.setModule, Function.update_apply]
  refine ⟨?_, fun x hx hd => ?_, by simp, hok.handle, hok.range, hok.freed, ?_, hok.distinct,
    hok.strays⟩
  · exact ((hok.counted.retain hk).handOver hh).congr (fun x _ => hcount x) fun x _ => hrefs x
  · rw [hcount x]
    have hpos := hok.used x hx hd
    by_cases hxk : x = k
    · subst hxk
      rw [Function.update_self]
      omega
    · rw [Function.update_of_ne hxk]
      exact hpos
  · rw [hblocks]
    exact hok.memory

/-- A use from outside that becomes a dependency. -/
lemma ModulesOk.depend (hok : ModulesOk client [] (k :: held) L) (hh : h ∈ L.objects) :
    ModulesOk client [] held (L.depend h k) := by
  have hcount : (L.depend h k).count = L.count := by
    funext x
    by_cases hxh : x = h <;> simp_all [Loader.count, Loader.depend, Loader.setModule]
  have hrefs : ∀ x, (L.depend h k).refs [] x =
      Function.update (L.refs []) h (L.refs [] h ++ [k]) x := by
    intro x
    by_cases hxh : x = h <;> simp_all [Loader.refs, Loader.depend, Loader.setModule]
  have hblocks : (L.depend h k).blocks client = L.blocks client := by
    funext x
    by_cases hxh : x = h <;> simp_all [Loader.blocks, Loader.depend, Loader.setModule]
  refine ⟨?_, ?_, by simp, hok.handle, hok.range, hok.freed, ?_, hok.distinct,
    hok.strays⟩
  · rw [hcount]
    exact (hok.counted.handOver hh).congr (fun _ _ => rfl) fun x _ => hrefs x
  · rw [hcount]
    exact hok.used
  · rw [hblocks]
    exact hok.memory

/-- The loader with a new module, whose segments are placed as far as it goes. -/
def Loader.withNew (client : Client Name) (L : Loader Name) (f : ElfFile Name) : Loader Name :=
  let r := allocateSegments client f.segments L.live
  { L with
    fileHandle := L.fileHandle + 1
    objects := L.objects ++ [L.fileHandle]
    loaded := Function.update L.loaded L.fileHandle ⟨f.name, 1, [],
      r.2.1 ++ ((List.range f.segments.length).map (client.stale L.fileHandle)).drop r.2.1.length,
      f.relocatable⟩
    live := r.2.2 }

/-- A new module gets its memory. -/
lemma allocateModule_enter (client : Client Name) (L : Loader Name) (f : ElfFile Name) :
    allocateModule client (initializeLoadedModule client L f) L.fileHandle f.segments =
      ((allocateSegments client f.segments L.live).1, L.withNew client f) := by
  simp [allocateModule, initializeLoadedModule, Loader.setModule, Loader.withNew]

/-- A new module whose segments are placed is used once. -/
lemma ModulesOk.withNew (hok : ModulesOk client [] held L) (hc : ClientOk client) {f : ElfFile Name}
    (hplaced : (allocateSegments client f.segments L.live).1 = true) :
    ModulesOk client [] (L.fileHandle :: held) (L.withNew client f) := by
  obtain ⟨hperm, hnodup, hlength⟩ := allocateSegments_live hc (Prod.ext hplaced rfl) hok.distinct
  have hnew : L.fileHandle ∉ L.objects := fun hin => lt_irrefl _ (hok.range _ hin).2
  have hold : ∀ x ∈ L.objects, (L.withNew client f).loaded x = L.loaded x := fun x hx =>
    Function.update_of_ne (ne_of_mem_of_not_mem hx hnew) _ _
  have hself : (L.withNew client f).loaded L.fileHandle = ⟨f.name, 1, [],
      (allocateSegments client f.segments L.live).2.1, f.relocatable⟩ := by
    simp [Loader.withNew, hlength]
  have hmem : ∀ x ∈ (L.withNew client f).objects, x ∈ L.objects ∨ x = L.fileHandle := fun x hx =>
    (List.mem_append.mp hx).imp_right List.mem_singleton.mp
  refine ⟨?_, fun x hx hd => ?_, by simp, Nat.succ_pos _, fun x hx => ?_, fun x hx => ?_, ?_, hnodup,
    hok.strays⟩
  · have hcounted : Counted L.objects (L.withNew client f).count ((L.withNew client f).refs []) held := by
      refine hok.counted.congr (fun x hx => ?_) fun x hx => ?_
      · rw [Loader.count, hold x hx, Loader.count]
      · rw [Loader.refs, hold x hx, Loader.refs]
    refine hcounted.add hnew ?_ ?_
    · rw [Loader.count, hself]
    · rw [Loader.refs, hself]
      simp
  · rcases hmem x hx with hin | rfl
    · rw [Loader.count, hold x hin]
      exact hok.used x hin hd
    · rw [Loader.count, hself]
      exact Int.one_pos
  · rcases hmem x hx with hin | rfl
    · exact ⟨(hok.range x hin).1, (hok.range x hin).2.trans (Nat.lt_succ_self _)⟩
    · exact ⟨hok.handle, Nat.lt_succ_self _⟩
  · obtain ⟨hno, hlt⟩ := hok.freed x hx
    refine ⟨fun hin => ?_, hlt.trans (Nat.lt_succ_self _)⟩
    rcases hmem x hin with hin' | rfl
    · exact hno hin'
    · exact lt_irrefl _ hlt
  · have hflat : (L.withNew client f).objects.flatMap ((L.withNew client f).blocks client) =
        L.objects.flatMap (L.blocks client) ++
          globalOf client (allocateSegments client f.segments L.live).2.1 := by
      have hobjs : (L.withNew client f).objects = L.objects ++ [L.fileHandle] := rfl
      rw [hobjs, List.flatMap_append, List.flatMap_singleton, Loader.blocks, hself]
      congr 1
      exact List.flatMap_congr fun x hx => by rw [Loader.blocks, hold x hx]; rfl
    rw [hflat]
    exact hperm.trans (List.perm_append_comm.trans (hok.memory.append_right _))

/-! ### What a load adds -/

/-- The loader after some modules were loaded: the others are as they were, but for new dependencies. -/
structure Grown (L L' : Loader Name) (new : List ℕ) : Prop where
  objects : L'.objects = L.objects ++ new
  handle : L.fileHandle ≤ L'.fileHandle
  dynamic : ∀ k < L.fileHandle, (L'.loaded k).dynamic = (L.loaded k).dynamic
  dependencies : ∀ k < L.fileHandle, (L.loaded k).dependencies <+: (L'.loaded k).dependencies
  freed : L'.freed = L.freed
  fresh : ∀ k ∈ new, L.fileHandle ≤ k

/-- The modules of a list that are relocated, in the order in which they come from the stack. -/
def Loader.pending (L : Loader Name) (new : List ℕ) : List ℕ :=
  (new.filter fun k => (L.loaded k).dynamic).reverse

/-- The loader after a part of a load: what is new is on the stack. -/
structure Advanced (client : Client Name) (held : List ℕ) (L L' : Loader Name) (new : List ℕ) :
    Prop where
  ok : ModulesOk client [] held L'
  grown : Grown L L' new
  stack : L'.stack = L'.pending new ++ L.stack
  relocated : L'.relocated = L.relocated
  loading : L'.loading = L.loading

/-- One thing after the other. -/
lemma Grown.trans {L₁ : Loader Name} {new new' : List ℕ} (hg : Grown L L₁ new) (hg' : Grown L₁ L' new') :
    Grown L L' (new ++ new') where
  objects := by rw [hg'.objects, hg.objects, List.append_assoc]
  handle := hg.handle.trans hg'.handle
  dynamic k hk := (hg'.dynamic k (hk.trans_le hg.handle)).trans (hg.dynamic k hk)
  dependencies k hk := (hg.dependencies k hk).trans (hg'.dependencies k (hk.trans_le hg.handle))
  freed := hg'.freed.trans hg.freed
  fresh k hk := (List.mem_append.mp hk).elim (hg.fresh k) fun hk' => hg.handle.trans (hg'.fresh k hk')

/-- What is pending after two parts of a load. -/
lemma Grown.pending_append {L₁ : Loader Name} {new new' : List ℕ} (hg : Grown L₁ L' new')
    (hnew : ∀ k ∈ new, k < L₁.fileHandle) :
    L'.pending (new ++ new') = L'.pending new' ++ L₁.pending new := by
  rw [Loader.pending, List.filter_append, List.reverse_append, Loader.pending, Loader.pending]
  congr 2
  exact List.filter_congr fun k hk => hg.dynamic k (hnew k hk)

/-- The modules of a well counted loader have handles below the next one. -/
lemma ModulesOk.lt_of_grown {new : List ℕ} (hok : ModulesOk client dying held L') (hg : Grown L L' new)
    (hk : k ∈ new) : k < L'.fileHandle :=
  (hok.range k (by rw [hg.objects]; exact List.mem_append_right _ hk)).2

/-- One part of a load after the other. -/
lemma Advanced.trans {L₁ : Loader Name} {held' new new' : List ℕ}
    (ha : Advanced client held L L₁ new) (ha' : Advanced client held' L₁ L' new') :
    Advanced client held' L L' (new ++ new') where
  ok := ha'.ok
  grown := ha.grown.trans ha'.grown
  stack := by
    rw [ha'.stack, ha.stack, ha'.grown.pending_append fun k hk => ha.ok.lt_of_grown ha.grown hk,
      List.append_assoc]
  relocated := ha'.relocated.trans ha.relocated
  loading := ha'.loading.trans ha.loading

/-- What is on the stack after a part of a load has a handle below the next one. -/
lemma Advanced.stack_lt {new : List ℕ} (ha : Advanced client held L L' new)
    (hstack : ∀ k ∈ L.stack, k < L.fileHandle) : ∀ k ∈ L'.stack, k < L'.fileHandle := by
  intro k hk
  rw [ha.stack] at hk
  rcases List.mem_append.mp hk with hnew | hold
  · exact ha.ok.lt_of_grown ha.grown (List.mem_filter.mp (List.mem_reverse.mp hnew)).1
  · exact (hstack k hold).trans_le ha.grown.handle

/-- A dependency more changes nothing else. -/
lemma grown_depend (L : Loader Name) (h k : ℕ) : Grown L (L.depend h k) [] := by
  refine ⟨(List.append_nil _).symm, le_rfl, fun x _ => ?_, fun x _ => ?_, rfl, by simp⟩
  · by_cases hxh : x = h <;> simp_all [Loader.depend, Loader.setModule]
  · by_cases hxh : x = h <;> simp_all [Loader.depend, Loader.setModule]

/-- A use more changes nothing else. -/
lemma grown_use (L : Loader Name) (k : ℕ) : Grown L (L.use k) [] := by
  refine ⟨(List.append_nil _).symm, le_rfl, fun x _ => ?_, fun x _ => ?_, rfl, by simp⟩
  · by_cases hxk : x = k <;> simp_all [Loader.use, Loader.setModule]
  · by_cases hxk : x = k <;> simp_all [Loader.use, Loader.setModule]

/-- A new module is put at the end. -/
lemma grown_withNew (client : Client Name) (L : Loader Name) (f : ElfFile Name) :
    Grown L (L.withNew client f) [L.fileHandle] := by
  have hsame : ∀ k < L.fileHandle, (L.withNew client f).loaded k = L.loaded k := fun k hk =>
    Function.update_of_ne (Nat.ne_of_lt hk) _ _
  refine ⟨rfl, Nat.le_succ _, fun k hk => ?_, fun k hk => ?_, rfl, fun k hk => ?_⟩
  · rw [hsame k hk]
  · rw [hsame k hk]
  · exact (List.mem_singleton.mp hk).ge

/-- What is being loaded and what was relocated is no part of the growth. -/
lemma Grown.lists {new : List ℕ} (hg : Grown L L' new) (loading : List Name)
    (stack relocated : List ℕ) :
    Grown L { L' with loading := loading, stack := stack, relocated := relocated } new :=
  ⟨hg.objects, hg.handle, hg.dynamic, hg.dependencies, hg.freed, hg.fresh⟩

/-- The search finds modules of the list. -/
lemma mem_of_findName [DecidableEq Name] {n : Name} {ks : List ℕ}
    (hfind : L.findName n ks = some (some k)) : k ∈ ks := by
  induction ks with
  | nil => cases hfind
  | cons x ks ih =>
    rw [Loader.findName] at hfind
    split at hfind
    · cases hfind
    · split at hfind
      · cases hfind
        exact List.mem_cons_self
      · exact List.mem_cons_of_mem x (ih hfind)

/-- The modules that were loaded stay. -/
lemma Advanced.mem_objects {new : List ℕ} (ha : Advanced client held L L' new) (hh : h ∈ L.objects) :
    h ∈ L'.objects := by
  rw [ha.grown.objects]
  exact List.mem_append_left _ hh

/-- The module at the bottom of the stack stays there. -/
lemma Advanced.stack_ne_nil {new : List ℕ} (ha : Advanced client held L L' new) (hne : L.stack ≠ []) :
    L'.stack ≠ [] := by
  rw [ha.stack]
  exact List.append_ne_nil_of_right_ne_nil _ hne

/-- A use that is a dependency from now on. -/
lemma Advanced.depend {new : List ℕ} (ha : Advanced client (k :: held) L L' new) (hh : h ∈ L.objects) :
    Advanced client held L (L'.depend h k) (new ++ []) :=
  ha.trans ⟨ha.ok.depend (ha.mem_objects hh), grown_depend _ _ _, rfl, rfl, rfl⟩

/-- The loop over the names of the dependencies, given what a nested load does. -/
lemma dependencies_advanced [DecidableEq Name] {u : Loader Name → Name → Option (ℕ × Loader Name)}
    (hu : ∀ {L : Loader Name} {n : Name} {r : ℕ × Loader Name}, ModulesOk client [] held L →
      (∀ k ∈ L.stack, k < L.fileHandle) → L.stack ≠ [] → u L n = some r → r.1 ≠ 0 →
      ∃ new, Advanced client (r.1 :: held) L r.2 new)
    {ns : List Name} (hok : ModulesOk client [] held L) (hh : h ∈ L.objects)
    (hstack : ∀ k ∈ L.stack, k < L.fileHandle) (hne : L.stack ≠ [])
    (hrun : dloadAndAllocateDependencies u h ns L = some (true, L')) :
    ∃ new, Advanced client held L L' new := by
  induction ns generalizing L with
  | nil =>
    cases hrun
    exact ⟨[], hok, ⟨(List.append_nil _).symm, le_rfl, fun _ _ => rfl, fun _ _ => List.prefix_rfl,
      rfl, by simp⟩, rfl, rfl, rfl⟩
  | cons n ns ih =>
    rw [dloadAndAllocateDependencies, Option.bind_eq_some_iff] at hrun
    -- the rest of the names, after a part that has come to their beginning
    have hrest : ∀ {L₁ : Loader Name} {new : List ℕ}, Advanced client held L L₁ new →
        dloadAndAllocateDependencies u h ns L₁ = some (true, L') →
          ∃ new, Advanced client held L L' new := by
      intro L₁ new ha hrun₁
      obtain ⟨new', ha'⟩ :=
        ih ha.ok (ha.mem_objects hh) (ha.stack_lt hstack) (ha.stack_ne_nil hne) hrun₁
      exact ⟨new ++ new', ha.trans ha'⟩
    obtain ⟨found, hfind, hrun⟩ := hrun
    cases found with
    | some k =>
      have hk := mem_of_findName hfind
      exact hrest ⟨hok.use_depend hh hk, (grown_use L k).trans (grown_depend _ h k), rfl, rfl, rfl⟩
        hrun
    | none =>
      obtain ⟨r, hr, hrun⟩ := Option.bind_eq_some_iff.mp hrun
      split at hrun
      · cases hrun
      · rename_i hzero
        obtain ⟨new, ha⟩ := hu hok hstack hne hr hzero
        exact hrest (ha.depend hh) hrun

/-! ### A load -/

/-- What a load that returns a handle has done: it has appended its module and those loaded on its behalf,
and relocated them if it is the outermost one. -/
structure LoadedBy (client : Client Name) (held : List ℕ) (L L' : Loader Name) (h : ℕ) (new : List ℕ) :
    Prop where
  handle : h = L.fileHandle
  ok : ModulesOk client [] (h :: held) L'
  grown : Grown L L' (h :: new)
  loading : L'.loading = L.loading
  outermost : L.stack = [] → L'.stack = [] ∧ L'.relocated = L.relocated ++ L'.pending (h :: new)
  nested : L.stack ≠ [] → L'.stack = L'.pending (h :: new) ++ L.stack ∧ L'.relocated = L.relocated

/-- A nested load is a part of the outermost one. -/
lemma LoadedBy.advanced {new : List ℕ} (hl : LoadedBy client held L L' h new) (hne : L.stack ≠ []) :
    Advanced client (h :: held) L L' (h :: new) :=
  ⟨hl.ok, hl.grown, (hl.nested hne).1, (hl.nested hne).2, hl.loading⟩

/-- A file that another one needs is a nested load, given what loads do. -/
lemma advanced_of_loadDependent {u : Loader Name → ElfFile Name → Option (ℕ × Loader Name)}
    (hu : ∀ {L : Loader Name} {f : ElfFile Name} {r : ℕ × Loader Name}, ModulesOk client [] held L →
      (∀ k ∈ L.stack, k < L.fileHandle) → u L f = some r → r.1 ≠ 0 →
      ∃ new, LoadedBy client held L r.2 r.1 new)
    {n : Name} {r : ℕ × Loader Name} (hok : ModulesOk client [] held L)
    (hstack : ∀ k ∈ L.stack, k < L.fileHandle) (hne : L.stack ≠ [])
    (hr : loadDependent client u L n = some r) (hzero : r.1 ≠ 0) :
    ∃ new, Advanced client (r.1 :: held) L r.2 new := by
  rw [loadDependent] at hr
  split at hr
  · obtain ⟨new, hl⟩ := hu hok hstack hr hzero
    exact ⟨_, hl.advanced hne⟩
  · cases hr
    exact absurd rfl hzero

/-- The loader with a new module that is about to load its dependencies. -/
def Loader.enter (client : Client Name) (L : Loader Name) (f : ElfFile Name) : Loader Name :=
  { L.withNew client f with
    loading := L.loading ++ [f.name], stack := L.fileHandle :: L.stack }

/-- The handles on the stack are older than the next one. -/
lemma Loader.stack_lt_enter (client : Client Name) (f : ElfFile Name)
    (hstack : ∀ k ∈ L.stack, k < L.fileHandle) :
    ∀ k ∈ (L.enter client f).stack, k < (L.enter client f).fileHandle := by
  intro k hk
  rcases List.mem_cons.mp hk with rfl | hold
  · exact Nat.lt_succ_self _
  · exact (hstack k hold).trans (Nat.lt_succ_self _)

/-- Whether a new module has a dynamic segment. -/
lemma Loader.withNew_dynamic (client : Client Name) (L : Loader Name) (f : ElfFile Name) :
    ((L.withNew client f).loaded L.fileHandle).dynamic = f.relocatable := by
  simp [Loader.withNew]

/-- What is pending at the end of a load: its dependencies, then the module itself. -/
lemma Advanced.pending_cons {f : ElfFile Name} {new : List ℕ} (hrel : f.relocatable = true)
    (ha : Advanced client held (L.enter client f) L' new) :
    L'.pending (L.fileHandle :: new) = L'.pending new ++ [L.fileHandle] := by
  have hdyn : (L'.loaded L.fileHandle).dynamic = true := by
    rw [ha.grown.dynamic L.fileHandle (Nat.lt_succ_self _), ← hrel]
    exact Loader.withNew_dynamic client L f
  rw [Loader.pending, List.filter_cons, if_pos hdyn, List.reverse_cons, Loader.pending]

/-- The end of a load, after that of its dependencies. -/
lemma Advanced.leave {f : ElfFile Name} {new : List ℕ} (hrel : f.relocatable = true)
    (hstack : ∀ k ∈ L.stack, k < L.fileHandle)
    (ha : Advanced client (L.fileHandle :: held) (L.enter client f) L' new) :
    LoadedBy client held L (relocateDependencyGraphModules
      { L' with loading := L'.loading.dropLast } L.fileHandle) L.fileHandle new := by
  have hpending := ha.pending_cons hrel
  have hgrown : Grown L L' (L.fileHandle :: new) :=
    ((grown_withNew client L f).lists _ _ _).trans ha.grown
  have hloading : L'.loading.dropLast = L.loading := by
    rw [ha.loading]
    exact List.dropLast_concat
  have hwhole : L'.stack = L'.pending (L.fileHandle :: new) ++ L.stack := by
    rw [ha.stack, hpending, List.append_assoc]
    rfl
  by_cases hempty : L.stack = []
  · -- the outermost load: its module is at the bottom
    have hlast : ¬∃ b ∈ L'.stack.getLast?, b ≠ L.fileHandle := by
      rw [hwhole, hempty, List.append_nil, hpending, List.getLast?_concat]
      simp
    rw [relocateDependencyGraphModules, if_neg hlast]
    refine ⟨rfl, ha.ok.lists _ _ _, hgrown.lists _ _ _, hloading, fun _ => ⟨rfl, ?_⟩,
      fun hne => absurd hempty hne⟩
    rw [hempty, List.append_nil] at hwhole
    change L'.relocated ++ L'.stack = L.relocated ++ L'.pending (L.fileHandle :: new)
    rw [ha.relocated, hwhole]
    rfl
  · have hlast : ∃ b ∈ L'.stack.getLast?, b ≠ L.fileHandle := by
      obtain ⟨b, hb⟩ := Option.isSome_iff_exists.mp (List.getLast?_isSome.mpr hempty)
      refine ⟨b, ?_, Nat.ne_of_lt (hstack b (List.mem_of_getLast? hb))⟩
      rw [hwhole, List.getLast?_append, hb]
      rfl
    rw [relocateDependencyGraphModules, if_pos hlast]
    exact ⟨rfl, ha.ok.lists _ _ _, hgrown.lists _ _ _, hloading, fun h => absurd h hempty,
      fun _ => ⟨hwhole, ha.relocated⟩⟩

/-- A load that returns a handle keeps the modules counted. -/
theorem loadedBy_of_load [DecidableEq Name] (hc : ClientOk client) {fuel : ℕ} {f : ElfFile Name}
    (hok : ModulesOk client [] held L) (hstack : ∀ k ∈ L.stack, k < L.fileHandle)
    (hrun : load client fuel L f = some (h, L')) (hne : h ≠ 0) :
    ∃ new, LoadedBy client held L L' h new := by
  induction fuel generalizing L f held h L' with
  | zero => cases hrun
  | succ fuel ih =>
    rw [load] at hrun
    split at hrun
    · cases hrun
      exact absurd rfl hne
    · simp only [allocateModule_enter] at hrun
      split at hrun
      · -- a static executable
        rename_i hstatic
        split at hrun
        · rename_i hplaced
          cases hrun
          have hdyn : (L.withNew client f).pending [L.fileHandle] = [] := by
            simp [Loader.pending, Loader.withNew_dynamic, hstatic]
          exact ⟨[], rfl, hok.withNew hc hplaced, grown_withNew client L f, rfl,
            fun hempty => ⟨hempty, by rw [hdyn, List.append_nil]; rfl⟩,
            fun _ => ⟨by rw [hdyn]; rfl, rfl⟩⟩
        · cases hrun
          exact absurd rfl hne
      · rename_i hrel
        rw [Bool.not_eq_false] at hrel
        split at hrun
        · cases hrun
          exact absurd rfl hne
        · rename_i hplaced
          rw [not_or, Bool.not_eq_false] at hplaced
          obtain ⟨d, hd, hres⟩ := Option.map_eq_some_iff.mp hrun
          split at hres
          · rename_i hdeps
            cases hres
            have hnew := (hok.withNew hc hplaced.1).lists (L.loading ++ [f.name])
              (L.fileHandle :: L.stack) L.relocated
            have hadvanced : ∃ new, Advanced client (L.fileHandle :: held) (L.enter client f) d.2 new :=
              dependencies_advanced
                (advanced_of_loadDependent fun hok₁ hstack₁ hr hzero => ih hok₁ hstack₁ hr hzero) hnew
                (List.mem_append_right _ (List.mem_singleton_self _)) (Loader.stack_lt_enter client f hstack)
                (List.cons_ne_nil _ _) (hd.trans (congrArg some (Prod.ext hdeps rfl)))
            obtain ⟨new, ha⟩ := hadvanced
            exact ⟨new, ha.leave hrel hstack⟩
          · cases hres
            exact absurd rfl hne

/-! ### Steps of an unload -/

/-- Every module of a set is loaded, and one of the set depends on it. -/
def Supported (dying : List ℕ) (L : Loader Name) (S : Set ℕ) : Prop :=
  ∀ o ∈ S, o ∈ L.objects ∧ o ∉ dying ∧ ∃ p ∈ S, o ∈ (L.loaded p).dependencies

/-- The loader after some modules were removed: the others are as they were, but for their uses. -/
structure Shrunk (dying : List ℕ) (L L' : Loader Name) : Prop where
  objects : L'.objects.Sublist L.objects
  handle : L'.fileHandle = L.fileHandle
  dependencies : ∀ k, (L'.loaded k).dependencies = (L.loaded k).dependencies
  dynamic : ∀ k, (L'.loaded k).dynamic = (L.loaded k).dynamic
  loading : L'.loading = L.loading
  stack : L'.stack = L.stack
  relocated : L'.relocated = L.relocated
  kept : ∀ S, Supported dying L S → ∀ o ∈ S, o ∈ L'.objects

/-- Nothing was removed. -/
lemma Shrunk.refl (dying : List ℕ) (L : Loader Name) : Shrunk dying L L :=
  ⟨List.Sublist.refl _, rfl, fun _ => rfl, fun _ => rfl, rfl, rfl, rfl, fun _ hS o ho => (hS o ho).1⟩

/-- One thing after the other. -/
lemma Shrunk.trans {L₁ : Loader Name} (hs : Shrunk dying L L₁) (hs' : Shrunk dying L₁ L') :
    Shrunk dying L L' where
  objects := hs'.objects.trans hs.objects
  handle := hs'.handle.trans hs.handle
  dependencies k := (hs'.dependencies k).trans (hs.dependencies k)
  dynamic k := (hs'.dynamic k).trans (hs.dynamic k)
  loading := hs'.loading.trans hs.loading
  stack := hs'.stack.trans hs.stack
  relocated := hs'.relocated.trans hs.relocated
  kept S hS := by
    refine hs'.kept S fun o ho => ⟨hs.kept S hS o ho, (hS o ho).2.1, ?_⟩
    obtain ⟨p, hp, hop⟩ := (hS o ho).2.2
    exact ⟨p, hp, by rwa [hs.dependencies p]⟩

/-- A use less changes nothing but a count. -/
lemma shrunk_unuse (dying : List ℕ) (L : Loader Name) (h : ℕ) : Shrunk dying L (L.unuse h) := by
  refine ⟨List.Sublist.refl _, rfl, fun k => ?_, fun k => ?_, rfl, rfl, rfl,
    fun _ hS o ho => (hS o ho).1⟩
  · by_cases hkh : k = h <;> simp_all [Loader.unuse, Loader.setModule]
  · by_cases hkh : k = h <;> simp_all [Loader.unuse, Loader.setModule]

/-- The counts after a use less. -/
lemma ModulesOk.counted_unuse (hok : ModulesOk client dying (h :: held) L) :
    Counted L.objects (L.unuse h).count ((L.unuse h).refs dying) held := by
  refine hok.counted.release.congr (fun x _ => ?_) fun x _ => ?_
  · by_cases hxh : x = h <;> simp_all [Loader.count, Loader.unuse, Loader.setModule]
  · by_cases hxh : x = h <;> simp_all [Loader.refs, Loader.unuse, Loader.setModule]

/-- A use less does not touch the blocks. -/
lemma Loader.blocks_unuse (client : Client Name) (L : Loader Name) (h : ℕ) :
    (L.unuse h).blocks client = L.blocks client := by
  funext x
  by_cases hxh : x = h <;> simp_all [Loader.blocks, Loader.unuse, Loader.setModule]

/-- A use less does not touch the counts of the other modules. -/
lemma Loader.count_unuse_of_ne {x : ℕ} (hne : x ≠ h) : (L.unuse h).count x = L.count x := by
  simp [Loader.count, Loader.unuse, Loader.setModule, hne]

/-- What is used is not about to be removed. -/
lemma ModulesOk.not_dying (hok : ModulesOk client dying (h :: held) L) : h ∉ dying := by
  intro hd
  have hpos := hok.counted.pos_of_held (List.mem_cons_self ..)
  rw [(hok.spent h hd).2] at hpos
  exact lt_irrefl _ hpos

/-- A module with uses left is used once less. -/
lemma ModulesOk.unuse (hok : ModulesOk client dying (h :: held) L)
    (hleft : (L.unuse h).count h ≠ 0) : ModulesOk client dying held (L.unuse h) := by
  have hcounted := hok.counted_unuse
  have hh := hok.counted.held h (List.mem_cons_self ..)
  refine ⟨hcounted, fun x hx hd => ?_, fun x hx => ⟨(hok.spent x hx).1, ?_⟩, hok.handle, hok.range,
    hok.freed, ?_, hok.distinct, hok.strays⟩
  · by_cases hxh : x = h
    · subst hxh
      exact lt_of_le_of_ne (hcounted.nonneg hx) (Ne.symm hleft)
    · rw [Loader.count_unuse_of_ne hxh]
      exact hok.used x hx hd
  · rw [Loader.count_unuse_of_ne (ne_of_mem_of_not_mem hx hok.not_dying)]
    exact (hok.spent x hx).2
  · rw [Loader.blocks_unuse]
    exact hok.memory

/-- A module without uses left gives up its dependencies. -/
lemma ModulesOk.die (hok : ModulesOk client dying (h :: held) L) (hzero : (L.unuse h).count h = 0) :
    ModulesOk client (h :: dying) ((L.loaded h).dependencies ++ held) (L.unuse h) := by
  have hh := hok.counted.held h (List.mem_cons_self ..)
  have hdeps : (L.unuse h).refs dying h = (L.loaded h).dependencies := by
    rw [Loader.refs, if_neg hok.not_dying]
    exact (shrunk_unuse dying L h).dependencies h
  have hcounted := hok.counted_unuse.letGo hh
  rw [hdeps] at hcounted
  refine ⟨hcounted.congr (fun _ _ => rfl) fun x _ => ?_, fun x hx hd => ?_, fun x hx => ?_, hok.handle,
    hok.range, hok.freed, ?_, hok.distinct, hok.strays⟩
  · by_cases hxh : x = h <;> simp_all [Loader.refs]
  · have hxh : x ≠ h := fun heq => hd (heq ▸ List.mem_cons_self ..)
    rw [Loader.count_unuse_of_ne hxh]
    exact hok.used x hx fun hin => hd (List.mem_cons_of_mem h hin)
  · rcases List.mem_cons.mp hx with rfl | hin
    · exact ⟨hh, hzero⟩
    · refine ⟨(hok.spent x hin).1, ?_⟩
      rw [Loader.count_unuse_of_ne (ne_of_mem_of_not_mem hin hok.not_dying)]
      exact (hok.spent x hin).2
  · rw [Loader.blocks_unuse]
    exact hok.memory

/-- The end of a module, whose memory is released. -/
lemma ModulesOk.remove (hok : ModulesOk client (h :: dying) held L) (hh : h ∉ dying) :
    ModulesOk client dying held (removeLoadedModule client L h) ∧
      ∃ live, removeLoadedModule client L h =
        { L with objects := L.objects.erase h, live := live, freed := h :: L.freed } := by
  obtain ⟨hmem, hzero⟩ := hok.spent h (List.mem_cons_self ..)
  have hperm : L.live.Perm
      (globalOf client (L.loaded h).segments ++ (L.objects.erase h).flatMap (L.blocks client)) := by
    refine hok.memory.trans ?_
    exact (List.perm_cons_erase hmem).flatMap_right _
  obtain ⟨live, heq, hlive⟩ := foldl_releaseSegment (L := { L with objects := L.objects.erase h }) hperm
  have hremove : removeLoadedModule client L h =
      { L with objects := L.objects.erase h, live := live, freed := h :: L.freed } := by
    simp only [removeLoadedModule, deleteLoadedModule, heq]
  refine ⟨?_, live, hremove⟩
  rw [hremove]
  have hcounted := hok.counted.remove hmem hzero (by simp [Loader.refs])
  have hsub : ∀ {x : ℕ}, x ∈ L.objects.erase h → x ∈ L.objects ∧ x ≠ h := fun hx =>
    ⟨List.mem_of_mem_erase hx, (hok.counted.nodup.mem_erase_iff.mp hx).1⟩
  refine ⟨hcounted.congr (fun _ _ => rfl) fun x hx => ?_, fun x hx hd => ?_, fun x hx => ?_, hok.handle,
    fun x hx => hok.range x (hsub hx).1, fun x hx => ?_, hlive, ?_, hok.strays⟩
  · simp [Loader.refs, (hsub hx).2]
  · refine hok.used x (hsub hx).1 fun hin => ?_
    exact (List.mem_cons.mp hin).elim (hsub hx).2 hd
  · have hne : x ≠ h := ne_of_mem_of_not_mem hx hh
    obtain ⟨hin, hcount⟩ := hok.spent x (List.mem_cons_of_mem h hx)
    exact ⟨(List.mem_erase_of_ne hne).mpr hin, hcount⟩
  · rcases List.mem_cons.mp hx with rfl | hold
    · exact ⟨fun hin => (hsub hin).2 rfl, (hok.range x hmem).2⟩
    · exact ⟨fun hin => (hok.freed x hold).1 (hsub hin).1, (hok.freed x hold).2⟩
  · have hnodup : (globalOf client (L.loaded h).segments ++
        (L.objects.erase h).flatMap (L.blocks client)).Nodup := hperm.nodup_iff.mp hok.distinct
    exact hlive.nodup_iff.mpr (List.Nodup.of_append_right hnodup)

/-! ### An unload -/

/-- What an unload has done: a use less, and the modules without uses left are gone. -/
structure UnloadedBy (client : Client Name) (dying held : List ℕ) (L : Loader Name) (h : ℕ)
    (r : Bool × Loader Name) : Prop where
  ok : ModulesOk client dying held r.2
  shrunk : Shrunk dying L r.2
  removed : r.1 = true ↔ h ∉ r.2.objects

/-- The loop over the dependencies of a module that is about to be removed, given what a nested unload
does. -/
lemma unloadDependents_ok {u : Loader Name → ℕ → Option (Bool × Loader Name)}
    (hu : ∀ {L : Loader Name} {k : ℕ} {held : List ℕ} {r : Bool × Loader Name},
      ModulesOk client dying (k :: held) L → u L k = some r → UnloadedBy client dying held L k r)
    {ks : List ℕ} (hok : ModulesOk client dying (ks ++ held) L)
    (hrun : unloadDependents u ks L = some L') :
    ModulesOk client dying held L' ∧ Shrunk dying L L' := by
  induction ks generalizing L with
  | nil =>
    cases hrun
    exact ⟨hok, Shrunk.refl _ _⟩
  | cons k ks ih =>
    rw [unloadDependents, Option.bind_eq_some_iff] at hrun
    obtain ⟨r, hr, hrest⟩ := hrun
    have hby := hu hok hr
    obtain ⟨hok', hs'⟩ := ih hby.ok hrest
    exact ⟨hok', hby.shrunk.trans hs'⟩

/-- The search for a module that is not in the rest of the list. -/
lemma unloadFrom_of_not_mem {u : Loader Name → ℕ → Option (Bool × Loader Name)} {ks : List ℕ}
    (hfreed : ∀ k ∈ ks, k ∉ L.freed) (hh : h ∉ ks) : unloadFrom client u h ks L = some (false, L) := by
  induction ks with
  | nil => rfl
  | cons k ks ih =>
    have hne : k ≠ h := by
      rintro rfl
      exact hh List.mem_cons_self
    rw [unloadFrom, if_neg (hfreed k List.mem_cons_self), if_neg hne]
    exact ih (fun x hx => hfreed x (List.mem_cons_of_mem k hx)) fun hin => hh (List.mem_cons_of_mem k hin)

/-- The search for a module of the list comes to it. -/
lemma unloadFrom_of_mem {u : Loader Name → ℕ → Option (Bool × Loader Name)} {ks : List ℕ}
    (hfreed : ∀ k ∈ ks, k ∉ L.freed) (hnodup : ks.Nodup) (hh : h ∈ ks) :
    unloadFrom client u h ks L =
      if (L.unuse h).count h = 0 then
        (unloadDependents u (L.loaded h).dependencies (L.unuse h)).map fun L' =>
          (true, removeLoadedModule client L' h)
      else some (false, L.unuse h) := by
  induction ks with
  | nil => cases hh
  | cons k ks ih =>
    obtain ⟨hk, hrest⟩ := List.nodup_cons.mp hnodup
    have hfreed' : ∀ x ∈ ks, x ∉ L.freed := fun x hx => hfreed x (List.mem_cons_of_mem k hx)
    rw [unloadFrom, if_neg (hfreed k List.mem_cons_self)]
    by_cases heq : k = h
    · subst heq
      rw [if_pos rfl, unloadFrom_of_not_mem (L := L.unuse k) hfreed' hk]
      rfl
    · rw [if_neg heq]
      exact ih hfreed' hrest ((List.mem_cons.mp hh).resolve_left (Ne.symm heq))

/-- What is supported does not die. -/
lemma ModulesOk.not_mem_of_supported (hok : ModulesOk client dying (h :: held) L)
    (hzero : (L.unuse h).count h = 0) {S : Set ℕ} (hS : Supported dying L S) : h ∉ S := by
  intro hh
  obtain ⟨p, hp, hhp⟩ := (hS h hh).2.2
  obtain ⟨hpmem, hpdying, -⟩ := hS p hp
  have hrefers : Refers L.objects ((L.unuse h).refs dying) p h := by
    refine ⟨hpmem, ?_⟩
    rw [Loader.refs, if_neg hpdying, (shrunk_unuse dying L h).dependencies p]
    exact hhp
  have hpos := hok.counted_unuse.pos_of_refers hrefers
  rw [hzero] at hpos
  exact lt_irrefl _ hpos

/-- The end of an unload that has come to the last use of a module. -/
lemma ModulesOk.unloaded (hok : ModulesOk client dying (h :: held) L)
    (hzero : (L.unuse h).count h = 0)
    (hdeps : ModulesOk client (h :: dying) held L' ∧ Shrunk (h :: dying) (L.unuse h) L') :
    UnloadedBy client dying held L h (true, removeLoadedModule client L' h) := by
  obtain ⟨hok', hs'⟩ := hdeps
  obtain ⟨hremoved, live, heq⟩ := hok'.remove hok.not_dying
  refine ⟨hremoved, ?_, ?_⟩
  · rw [heq]
    refine ⟨List.erase_sublist.trans hs'.objects, hs'.handle, fun k => ?_, fun k => ?_, hs'.loading,
      hs'.stack, hs'.relocated, fun S hS o ho => ?_⟩
    · exact (hs'.dependencies k).trans ((shrunk_unuse dying L h).dependencies k)
    · exact (hs'.dynamic k).trans ((shrunk_unuse dying L h).dynamic k)
    · have hnot := hok.not_mem_of_supported hzero hS
      have hne : o ≠ h := fun heq => hnot (heq ▸ ho)
      refine (List.mem_erase_of_ne hne).mpr (hs'.kept S (fun x hx => ?_) o ho)
      obtain ⟨hin, hd, p, hp, hxp⟩ := hS x hx
      refine ⟨hin, fun hmem => ?_, p, hp, ?_⟩
      · exact (List.mem_cons.mp hmem).elim (fun heq => hnot (heq ▸ hx)) hd
      · rwa [(shrunk_unuse dying L h).dependencies p]
  · rw [heq]
    simpa using fun hin => (hok'.counted.nodup.mem_erase_iff.mp hin).1 rfl

/-- An unload keeps the modules counted. -/
theorem unloadedBy_of_unload {fuel : ℕ} {r : Bool × Loader Name}
    (hok : ModulesOk client dying (h :: held) L) (hrun : unload client fuel L h = some r) :
    UnloadedBy client dying held L h r := by
  induction fuel generalizing L h dying held r with
  | zero => cases hrun
  | succ fuel ih =>
    have hh := hok.counted.held h (List.mem_cons_self ..)
    rw [unload, unloadFrom_of_mem (fun k hk => hok.not_freed hk) hok.counted.nodup hh] at hrun
    split at hrun
    · rename_i hzero
      obtain ⟨L', hdeps, rfl⟩ := Option.map_eq_some_iff.mp hrun
      exact hok.unloaded hzero (unloadDependents_ok (fun hok' hr => ih hok' hr) (hok.die hzero) hdeps)
    · rename_i hleft
      cases hrun
      exact ⟨hok.unuse hleft, shrunk_unuse dying L h, iff_of_false (by simp) fun hnot => hnot hh⟩

/-- An unload comes to an end if it may recur as often as there are modules. -/
theorem exists_unload {fuel : ℕ} (hok : ModulesOk client dying (h :: held) L)
    (hfuel : L.objects.length < fuel + dying.length) (hdying : dying.Nodup) :
    ∃ r, unload client fuel L h = some r := by
  induction fuel generalizing L h dying held with
  | zero =>
    exfalso
    have hsub : dying.length ≤ L.objects.length :=
      (List.subperm_of_subset hdying fun k hk => (hok.spent k hk).1).length_le
    omega
  | succ fuel ih =>
    have hh := hok.counted.held h (List.mem_cons_self ..)
    rw [unload, unloadFrom_of_mem (fun k hk => hok.not_freed hk) hok.counted.nodup hh]
    split
    · rename_i hzero
      -- the loop over the dependencies comes to an end
      have hloop : ∀ {ks : List ℕ} {L₁ : Loader Name}, ModulesOk client (h :: dying) (ks ++ held) L₁ →
          L₁.objects.length ≤ L.objects.length →
          ∃ L', unloadDependents (unload client fuel) ks L₁ = some L' := by
        intro ks
        induction ks with
        | nil => exact fun _ _ => ⟨_, rfl⟩
        | cons k ks ihks =>
          intro L₁ hok₁ hlength
          obtain ⟨r, hr⟩ := ih hok₁ (by rw [List.length_cons]; omega)
            (List.nodup_cons.mpr ⟨hok.not_dying, hdying⟩)
          have hby := unloadedBy_of_unload hok₁ hr
          obtain ⟨L', hL'⟩ := ihks hby.ok (hby.shrunk.objects.length_le.trans hlength)
          exact ⟨L', by rw [unloadDependents, hr]; exact hL'⟩
      obtain ⟨L', hL'⟩ := hloop (hok.die hzero) le_rfl
      exact ⟨_, by rw [hL']; rfl⟩
    · exact ⟨_, rfl⟩

end TiOpenCL.Dload
