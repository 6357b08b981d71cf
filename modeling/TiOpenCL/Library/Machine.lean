import Mathlib.Data.List.Basic
import Mathlib.Data.List.Nodup
import Mathlib.Algebra.Order.BigOperators.Group.List
import Mathlib.Algebra.Order.Ring.Nat

/-!
# Machines with threads

A machine is a partial step function over states and actions; a run is a list of actions.  An
invariant that every admitted step keeps holds at the end of every run whose steps are all admitted
(`invariant_of_runOk`).

The threads of a concurrent program are a list of stacks of frames.  A step of a thread replaces its
top frame by the frames that are left to do (`advance`).
-/

namespace TiOpenCL.Machine

variable {S A : Type*}

/-- The state after a list of actions, if all of them are possible. -/
def run (step : S → A → Option S) : S → List A → Option S
  | s, [] => some s
  | s, a :: as => (step s a).bind fun s' => run step s' as

/-- Every step of a run is admitted. -/
def RunOk (step : S → A → Option S) (ok : S → A → Prop) : S → List A → Prop
  | _, [] => True
  | s, a :: as => ok s a ∧ ∀ s', step s a = some s' → RunOk step ok s' as

/-- Whether every step of a run is admitted can be computed along the run. -/
instance decidableRunOk (step : S → A → Option S) (ok : S → A → Prop)
    [∀ s a, Decidable (ok s a)] : (s : S) → (as : List A) → Decidable (RunOk step ok s as)
  | _, [] => isTrue trivial
  | s, a :: as =>
    have : Decidable (∀ s', step s a = some s' → RunOk step ok s' as) :=
      match h : step s a with
      | none => isTrue fun s' hs => by simp at hs
      | some t =>
        have := decidableRunOk step ok t as
        decidable_of_iff (RunOk step ok t as) (by simp)
    inferInstanceAs (Decidable (ok s a ∧ ∀ s', step s a = some s' → RunOk step ok s' as))

section Runs

variable {step : S → A → Option S} {ok : S → A → Prop}

/-- A run of one action and a rest. -/
lemma run_cons {s s' : S} {a : A} {as : List A} (h : run step s (a :: as) = some s') :
    ∃ t, step s a = some t ∧ run step t as = some s' := by
  rw [run, Option.bind_eq_some_iff] at h
  exact h

/-- An invariant of the admitted steps holds after every run of admitted steps. -/
theorem invariant_of_runOk {I : S → Prop}
    (hstep : ∀ s a s', I s → ok s a → step s a = some s' → I s') {s s' : S} {as : List A}
    (hok : RunOk step ok s as) (hrun : run step s as = some s') (hs : I s) : I s' := by
  induction as generalizing s with
  | nil =>
    obtain rfl : s = s' := Option.some.inj hrun
    exact hs
  | cons a as ih =>
    obtain ⟨t, ht, hrest⟩ := run_cons hrun
    exact ih (hok.2 t ht) hrest (hstep s a t hs hok.1 ht)

/-- If the admitted steps are possible and keep an invariant, all runs of them are possible. -/
theorem exists_run_of_runOk {I : S → Prop}
    (hstep : ∀ s a, I s → ok s a → ∃ s', step s a = some s' ∧ I s') {s : S} {as : List A}
    (hok : RunOk step ok s as) (hs : I s) : ∃ s', run step s as = some s' ∧ I s' := by
  induction as generalizing s with
  | nil => exact ⟨s, rfl, hs⟩
  | cons a as ih =>
    obtain ⟨t, ht, hI⟩ := hstep s a hs hok.1
    obtain ⟨s', hrun, hI'⟩ := ih (hok.2 t ht) hI
    exact ⟨s', by rw [run, ht]; exact hrun, hI'⟩

/-- Every run is one of admitted steps if all steps are. -/
lemma runOk_of_forall (h : ∀ s a, ok s a) (s : S) (as : List A) : RunOk step ok s as := by
  induction as generalizing s with
  | nil => trivial
  | cons a as ih => exact ⟨h s a, fun s' _ => ih s'⟩

/-- An invariant of all steps holds after every run. -/
theorem invariant_of_run {I : S → Prop} (hstep : ∀ s a s', I s → step s a = some s' → I s')
    {s s' : S} {as : List A} (hrun : run step s as = some s') (hs : I s) : I s' :=
  have hok : RunOk step (fun _ _ => True) s as := runOk_of_forall (fun _ _ => trivial) s as
  invariant_of_runOk (fun s a s' hI _ => hstep s a s' hI) hok hrun hs

end Runs

/-! ### Threads -/

variable {F : Type*}

/-- The stacks after the top frame of a thread is replaced. -/
def advance (threads : List (List F)) (t : ℕ) (frames : List F) : List (List F) :=
  threads.set t (frames ++ (threads.getD t []).tail)

/-- A frame of some thread. -/
def Runs (threads : List (List F)) (f : F) : Prop := ∃ stack ∈ threads, f ∈ stack

/-- The frame that some thread runs next. -/
def Next (threads : List (List F)) (f : F) : Prop := ∃ stack ∈ threads, stack.head? = some f

/-- A frame that runs next is a frame. -/
lemma Next.runs {threads : List (List F)} {f : F} (h : Next threads f) : Runs threads f := by
  obtain ⟨stack, hmem, hhead⟩ := h
  exact ⟨stack, hmem, List.mem_of_head? hhead⟩

/-- The top frame of a thread runs next. -/
lemma next_of_getElem? {threads : List (List F)} {t : ℕ} {f : F} {rest : List F}
    (h : threads[t]? = some (f :: rest)) : Next threads f :=
  ⟨f :: rest, List.mem_of_getElem? h, rfl⟩

/-- After a step, a frame is a new one or was there before. -/
lemma runs_advance {threads : List (List F)} {t : ℕ} {frames : List F} {g : F}
    (h : Runs (advance threads t frames) g) : g ∈ frames ∨ Runs threads g := by
  obtain ⟨stack, hmem, hg⟩ := h
  rcases List.mem_or_eq_of_mem_set hmem with hold | rfl
  · exact Or.inr ⟨stack, hold, hg⟩
  rcases List.mem_append.mp hg with hnew | hrest
  · exact Or.inl hnew
  · have htail := List.mem_of_mem_tail hrest
    rw [List.getD_eq_getElem?_getD] at htail
    cases hget : threads[t]? with
    | none =>
      rw [hget] at htail
      simp at htail
    | some stack =>
      rw [hget] at htail
      exact Or.inr ⟨stack, List.mem_of_getElem? hget, htail⟩

/-- A frame of a new thread is one of its frames, or was there before. -/
lemma runs_append {threads : List (List F)} {stack : List F} {g : F}
    (h : Runs (threads ++ [stack]) g) : g ∈ stack ∨ Runs threads g := by
  obtain ⟨st, hmem, hg⟩ := h
  rcases List.mem_append.mp hmem with hold | hnew
  · exact Or.inr ⟨st, hold, hg⟩
  · rw [List.mem_singleton] at hnew
    exact Or.inl (hnew ▸ hg)

/-- The frames that a step leaves: all but the one it has run. -/
lemma runs_of_runs {threads : List (List F)} {t : ℕ} {f : F} {rest : List F} (frames : List F) {g : F}
    (ht : threads[t]? = some (f :: rest)) (h : Runs threads g) :
    g = f ∨ Runs (advance threads t frames) g := by
  obtain ⟨stack, hmem, hg⟩ := h
  obtain ⟨k, hk⟩ := List.mem_iff_getElem?.mp hmem
  have htlt : t < threads.length := (List.getElem?_eq_some_iff.mp ht).1
  by_cases hkt : k = t
  · subst hkt
    obtain rfl : f :: rest = stack := Option.some.inj (ht.symm.trans hk)
    rcases List.mem_cons.mp hg with rfl | hrest
    · exact Or.inl rfl
    · refine Or.inr ⟨frames ++ rest, ?_, List.mem_append.mpr (Or.inr hrest)⟩
      rw [advance, List.getD_eq_getElem?_getD, ht]
      exact List.mem_of_getElem? (List.getElem?_set_self htlt)
  · refine Or.inr ⟨stack, ?_, hg⟩
    rw [advance]
    refine List.mem_of_getElem? (i := k) ?_
    rw [List.getElem?_set_ne (Ne.symm hkt)]
    exact hk

/-- The stack of a thread after its step, and the others. -/
lemma mem_advance {threads : List (List F)} {t : ℕ} {f : F} {rest frames : List F}
    {stack : List F} (ht : threads[t]? = some (f :: rest)) (h : stack ∈ advance threads t frames) :
    stack ∈ threads ∨ stack = frames ++ rest := by
  rw [advance, List.getD_eq_getElem?_getD, ht] at h
  exact List.mem_or_eq_of_mem_set h

/-- A new frame is there after the step. -/
lemma runs_advance_of_mem {threads : List (List F)} {t : ℕ} {f : F} {rest frames : List F} {g : F}
    (ht : threads[t]? = some (f :: rest)) (h : g ∈ frames) : Runs (advance threads t frames) g := by
  have htlt : t < threads.length := (List.getElem?_eq_some_iff.mp ht).1
  refine ⟨frames ++ rest, ?_, List.mem_append.mpr (Or.inl h)⟩
  rw [advance, List.getD_eq_getElem?_getD, ht]
  exact List.mem_of_getElem? (List.getElem?_set_self htlt)

/-! ### Counting frames -/

/-- The weights of all frames together. -/
def total (weight : F → ℕ) (threads : List (List F)) : ℕ := (threads.flatten.map weight).sum

/-- A step trades the weight of the frame it runs for those of the frames it leaves. -/
lemma total_advance (weight : F → ℕ) {threads : List (List F)} {t : ℕ} {f : F} {rest : List F}
    (frames : List F) (ht : threads[t]? = some (f :: rest)) :
    total weight (advance threads t frames) + weight f =
      total weight threads + (frames.map weight).sum := by
  induction threads generalizing t with
  | nil => simp at ht
  | cons stack others ih =>
    cases t with
    | zero =>
      obtain rfl : stack = f :: rest := by simpa using ht
      simp only [advance, total, List.getD_cons_zero, List.tail_cons, List.set_cons_zero,
        List.flatten_cons, List.map_append, List.map_cons, List.sum_append, List.sum_cons]
      omega
    | succ t =>
      have hrec := ih (by simpa using ht)
      simp only [advance, total, List.getD_cons_succ, List.set_cons_succ, List.flatten_cons,
        List.map_append, List.sum_append] at hrec ⊢
      omega

/-- A new thread adds its weights. -/
lemma total_append (weight : F → ℕ) (threads : List (List F)) (stack : List F) :
    total weight (threads ++ [stack]) = total weight threads + (stack.map weight).sum := by
  simp [total]

/-- A frame has no more weight than all together. -/
lemma Runs.weight_le {threads : List (List F)} {f : F} (h : Runs threads f) (weight : F → ℕ) :
    weight f ≤ total weight threads := by
  obtain ⟨stack, hmem, hf⟩ := h
  have hflat : f ∈ threads.flatten := List.mem_flatten.mpr ⟨stack, hmem, hf⟩
  exact List.single_le_sum (fun _ _ => Nat.zero_le _) _ (List.mem_map_of_mem hflat)

/-- If there is weight, some frame has it. -/
lemma exists_runs_of_total_pos {threads : List (List F)} {weight : F → ℕ}
    (h : 0 < total weight threads) : ∃ f, Runs threads f ∧ 0 < weight f := by
  by_contra hno
  have hzero : total weight threads = 0 := by
    refine List.sum_eq_zero fun x hx => ?_
    obtain ⟨f, hf, rfl⟩ := List.mem_map.mp hx
    obtain ⟨stack, hmem, hstack⟩ := List.mem_flatten.mp hf
    by_contra hpos
    exact hno ⟨f, ⟨stack, hmem, hstack⟩, Nat.pos_of_ne_zero hpos⟩
  omega

/-- Weights that agree on the frames that there are have the same total. -/
lemma total_congr {threads : List (List F)} {weight weight' : F → ℕ}
    (h : ∀ f, Runs threads f → weight f = weight' f) : total weight threads = total weight' threads := by
  refine congrArg List.sum (List.map_congr_left fun f hf => ?_)
  obtain ⟨stack, hmem, hstack⟩ := List.mem_flatten.mp hf
  exact h f ⟨stack, hmem, hstack⟩

end TiOpenCL.Machine
