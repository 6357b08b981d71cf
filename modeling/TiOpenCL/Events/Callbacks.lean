import Mathlib.Algebra.BigOperators.Group.List.Basic
import Mathlib.Algebra.Order.Ring.Nat
import Mathlib.Data.List.Induction
import Mathlib.Data.List.Nodup
import Mathlib.Data.List.Perm.Basic

/-!
# Callbacks of an event

`Event::setCallback` calls a callback at once if the event is in or past the status the callback is
registered for, and keeps it otherwise.  `Event::setStatus` takes the callbacks of the new status, or
those of `Complete` for an error, and calls them later, outside the lock.  A callback that is kept is
called once if and only if the event takes on its status; callbacks of statuses that are skipped are
never called.
-/

namespace TiOpenCL

namespace Callbacks

/-- The statuses that a callback can be registered for. -/
inductive CallbackType
  | submitted
  | running
  | complete
  deriving DecidableEq

/-- `CL_QUEUED`. -/
def queued : ℤ := 3

/-- The status of a callback type: `CL_SUBMITTED`, `CL_RUNNING` or `CL_COMPLETE`. -/
def CallbackType.status : CallbackType → ℤ
  | .submitted => 2
  | .running => 1
  | .complete => 0

/-- The part of an event that `setStatus` and `setCallback` work on. -/
structure EventState where
  /-- The status; an error is negative. -/
  pStatus : ℤ
  /-- The callbacks that are kept, with the status they are registered for. -/
  pCallbacks : List (ℤ × ℕ)
  /-- The callbacks that a call in progress is about to call. -/
  due : List ℕ
  /-- The calls that were made. -/
  called : List ℕ
  deriving DecidableEq

/-- An event that is created with a status. -/
def EventState.init (status : ℤ) : EventState := ⟨status, [], [], []⟩

/-- The status whose callbacks are looked up. -/
def lookupStatus (status : ℤ) : ℤ := if 0 < status then status else 0

/-- `setStatusHelper`. -/
def setStatusHelper (s : EventState) (status : ℤ) : EventState :=
  { s with
    pStatus := status
    due := s.due ++ (s.pCallbacks.filter fun e => e.1 = lookupStatus status).map Prod.snd }

/-- `setCallback` up to the call. -/
def setCallback (s : EventState) (type : CallbackType) (callback : ℕ) : EventState :=
  if s.pStatus ≤ type.status then { s with due := s.due ++ [callback] }
  else { s with pCallbacks := s.pCallbacks ++ [(type.status, callback)] }

/-- A thread makes one of the calls that are due. -/
def call (s : EventState) (k : ℕ) : EventState :=
  { s with
    due := s.due.eraseIdx k
    called := s.called ++ (s.due[k]?).toList }

/-- A step of one of the threads. -/
inductive Op
  | setStatus (status : ℤ)
  | setCallback (type : CallbackType) (callback : ℕ)
  | call (k : ℕ)
  deriving DecidableEq

/-- One step. -/
def step (s : EventState) : Op → EventState
  | .setStatus status => setStatusHelper s status
  | .setCallback type callback => setCallback s type callback
  | .call k => call s k

/-- The steps of all threads in the order in which they happen. -/
def run (s : EventState) (ops : List Op) : EventState := ops.foldl step s

/-- The statuses that are set, in order. -/
@[simp] def statuses : List Op → List ℤ
  | [] => []
  | .setStatus status :: ops => status :: statuses ops
  | _ :: ops => statuses ops

/-- The callbacks that are registered, in order. -/
@[simp] def registered : List Op → List ℕ
  | [] => []
  | .setCallback _ callback :: ops => callback :: registered ops
  | _ :: ops => registered ops

/-- The statuses of an event fall, and no status follows `Complete` or an error. -/
def StatusPath (status : ℤ) (ops : List Op) : Prop :=
  (status :: statuses ops).Pairwise fun a b => 0 < a ∧ b < a

/-- The status after some steps. -/
def lastStatus (status : ℤ) (ops : List Op) : ℤ := (statuses ops).getLastD status

/-- Whenever a callback is registered for `Submitted` or `Running` and the event is not in or past
that status, the event takes on the status later. -/
def NoneSkipped (status : ℤ) (ops : List Op) : Prop :=
  ∀ pre type callback post, ops = pre ++ .setCallback type callback :: post → type ≠ .complete →
    type.status < lastStatus status pre → type.status ∈ statuses post

instance (status : ℤ) (ops : List Op) : Decidable (StatusPath status ops) :=
  inferInstanceAs (Decidable (List.Pairwise _ _))

/-- The step at index `k` skips no status. -/
def StepSkipsNone (status : ℤ) (ops : List Op) (k : ℕ) : Prop :=
  match ops[k]? with
  | some (.setCallback type _) => type ≠ .complete → type.status < lastStatus status (ops.take k) →
      type.status ∈ statuses (ops.drop (k + 1))
  | _ => True

instance (status : ℤ) (ops : List Op) (k : ℕ) : Decidable (StepSkipsNone status ops k) :=
  match h : ops[k]? with
  | some (.setCallback type _) =>
    decidable_of_iff (type ≠ .complete → type.status < lastStatus status (ops.take k) →
      type.status ∈ statuses (ops.drop (k + 1))) (by rw [StepSkipsNone, h])
  | some (.setStatus _) => isTrue (by simp [StepSkipsNone, h])
  | some (.call _) => isTrue (by simp [StepSkipsNone, h])
  | none => isTrue (by simp [StepSkipsNone, h])

instance (status : ℤ) (ops : List Op) : Decidable (NoneSkipped status ops) :=
  decidable_of_iff (∀ k < ops.length, StepSkipsNone status ops k) <| by
    constructor
    · rintro h pre type cb post rfl
      have := h pre.length (by simp)
      simpa [StepSkipsNone] using this
    · intro h k hk
      rw [StepSkipsNone]
      split
      · next type cb hget =>
        refine h (ops.take k) type cb (ops.drop (k + 1)) ?_
        rw [← (List.getElem?_eq_some_iff.mp hget).2, List.getElem_cons_drop, List.take_append_drop]
      · trivial

variable {s : EventState} {ops pre post : List Op} {cb : ℕ} {status : ℤ}

/-! ### The status -/

lemma statuses_append (pre post : List Op) :
    statuses (pre ++ post) = statuses pre ++ statuses post := by
  induction pre with
  | nil => rfl
  | cons op pre ih => cases op <;> simp [ih]

lemma registered_append (pre post : List Op) :
    registered (pre ++ post) = registered pre ++ registered post := by
  induction pre with
  | nil => rfl
  | cons op pre ih => cases op <;> simp [ih]

lemma run_concat (s : EventState) (ops : List Op) (op : Op) :
    run s (ops ++ [op]) = step (run s ops) op := by
  simp [run]

lemma lastStatus_append (status : ℤ) (pre post : List Op) :
    lastStatus status (pre ++ post) = lastStatus (lastStatus status pre) post := by
  simp only [lastStatus, statuses_append]
  cases hpost : statuses post with
  | nil => simp
  | cons a l => simp [List.getLastD_eq_getLast?]

/-- The status of a run is the last one that was set. -/
lemma run_pStatus (s : EventState) (ops : List Op) : (run s ops).pStatus = lastStatus s.pStatus ops := by
  induction ops generalizing s with
  | nil => rfl
  | cons op ops ih =>
    rw [run, List.foldl_cons, ← run, ih]
    cases op with
    | setStatus status =>
      simp only [lastStatus, statuses, step, setStatusHelper]
      cases statuses ops <;> rfl
    | setCallback type callback =>
      simp only [lastStatus, statuses, step, setCallback]
      split <;> rfl
    | call k => rfl

/-- The statuses of a falling path are looked up at most once each. -/
lemma nodup_lookupStatus (h : StatusPath status ops) : ((statuses ops).map lookupStatus).Nodup := by
  have htail := (List.pairwise_cons.mp h).2
  refine List.pairwise_map.mpr (htail.imp ?_)
  rintro a b ⟨ha, hb⟩
  simp only [lookupStatus, if_pos ha]
  split
  · omega
  · omega

/-- A path that is finished sets its last status to zero or below. -/
lemma zero_mem_lookupStatus (hpos : 0 < status) (hfin : lastStatus status ops ≤ 0) :
    0 ∈ (statuses ops).map lookupStatus := by
  rw [lastStatus] at hfin
  generalize statuses ops = l at hfin ⊢
  cases l with
  | nil => exact absurd hfin (by simpa using hpos)
  | cons a l =>
    refine List.mem_map.mpr ⟨(a :: l).getLast (by simp), List.getLast_mem _, ?_⟩
    rw [List.getLastD_cons, ← List.getLast_eq_getLastD (List.cons_ne_nil a l)] at hfin
    rw [lookupStatus, if_neg (by omega)]

/-- Looking up `Submitted` or `Running` is setting it. -/
lemma mem_lookupStatus_iff {type : CallbackType} {l : List ℤ} (h : type ≠ .complete) :
    type.status ∈ l.map lookupStatus ↔ type.status ∈ l := by
  have hpos : 0 < type.status := by
    cases type with
    | submitted => decide
    | running => decide
    | complete => exact absurd rfl h
  constructor
  · intro hmem
    obtain ⟨a, ha, he⟩ := List.mem_map.mp hmem
    rw [lookupStatus] at he
    split at he
    · rwa [← he]
    · omega
  · intro hmem
    exact List.mem_map.mpr ⟨_, hmem, if_pos hpos⟩

/-! ### Counting calls -/

/-- The calls of a callback, made or due. -/
def calls (s : EventState) (cb : ℕ) : ℕ := s.called.count cb + s.due.count cb

/-- How often the statuses take a callback that is kept. -/
def kept (callbacks : List (ℤ × ℕ)) (cb : ℕ) (looked : List ℤ) : ℕ :=
  (callbacks.map fun e => if e.2 = cb then looked.count e.1 else 0).sum

/-- The number of callbacks that one status takes. -/
lemma kept_singleton (callbacks : List (ℤ × ℕ)) (cb : ℕ) (status : ℤ) :
    ((callbacks.filter fun e => e.1 = status).map Prod.snd).count cb = kept callbacks cb [status] := by
  induction callbacks with
  | nil => rfl
  | cons e callbacks ih =>
    simp only [kept, List.map_cons, List.sum_cons] at ih ⊢
    by_cases h1 : e.1 = status
    · by_cases h2 : e.2 = cb
      · simp [h1, h2, ih, Nat.add_comm]
      · simp [h1, h2, ih]
    · have h1' : status ≠ e.1 := fun h => h1 h.symm
      simp [h1, h1', ih]

lemma kept_cons (callbacks : List (ℤ × ℕ)) (cb : ℕ) (status : ℤ) (looked : List ℤ) :
    kept callbacks cb (status :: looked) = kept callbacks cb [status] + kept callbacks cb looked := by
  induction callbacks with
  | nil => rfl
  | cons e callbacks ih =>
    simp only [kept, List.map_cons, List.sum_cons] at ih ⊢
    rw [ih]
    by_cases h2 : e.2 = cb
    · simp only [h2, if_true]
      have hcount : (status :: looked).count e.1 = [status].count e.1 + looked.count e.1 := by
        rw [show status :: looked = [status] ++ looked from rfl, List.count_append]
      omega
    · simp only [h2, if_false]
      omega

/-- Making a call that is due does not change the number of calls. -/
lemma calls_call (s : EventState) (k cb : ℕ) : calls (call s k) cb = calls s cb := by
  simp only [calls, call]
  rcases Nat.lt_or_ge k s.due.length with hk | hk
  · have hperm := List.getElem_cons_eraseIdx_perm hk
    have hcount := hperm.count_eq cb
    rw [List.count_cons] at hcount
    rw [List.getElem?_eq_getElem hk, Option.toList_some, List.count_append, List.count_singleton]
    omega
  · rw [List.getElem?_eq_none hk, Option.toList_none, List.append_nil,
      List.eraseIdx_of_length_le hk]

/-- The calls of a callback that is not registered any more: those before, and one for each time its
status is set. -/
lemma calls_run (h : cb ∉ registered ops) :
    calls (run s ops) cb = calls s cb + kept s.pCallbacks cb ((statuses ops).map lookupStatus) := by
  induction ops generalizing s with
  | nil => simp [run, kept]
  | cons op ops ih =>
    rw [run, List.foldl_cons, ← run]
    cases op with
    | setStatus status =>
      rw [ih h]
      simp only [step, setStatusHelper, calls, List.count_append, kept_singleton, statuses]
      rw [List.map_cons, kept_cons s.pCallbacks cb (lookupStatus status)
        ((statuses ops).map lookupStatus)]
      omega
    | setCallback type callback =>
      simp only [registered, List.mem_cons, not_or] at h
      rw [ih h.2]
      simp only [step, setCallback, statuses]
      split
      · simp [calls, Ne.symm h.1]
      · simp [calls, kept, Ne.symm h.1]
    | call k =>
      rw [ih h]
      simp only [step, calls_call, statuses]
      rfl

/-- A callback that was not registered is neither kept nor called. -/
lemma calls_run_eq_zero (h : cb ∉ registered ops) :
    calls (run (.init status) ops) cb = 0 := by
  rw [calls_run h]
  rfl

/-- The callbacks that are kept were registered. -/
lemma not_mem_pCallbacks (h : cb ∉ registered ops) :
    ∀ e ∈ (run (.init status) ops).pCallbacks, e.2 ≠ cb := by
  induction ops using List.reverseRecOn with
  | nil => simp [run, EventState.init]
  | append_singleton ops op ih =>
    rw [registered_append, List.mem_append, not_or] at h
    rw [run_concat]
    cases op with
    | setStatus status => exact ih h.1
    | call k => exact ih h.1
    | setCallback type callback =>
      have hne : callback ≠ cb := by
        rintro rfl
        exact h.2 (by simp)
      simp only [step, setCallback]
      split
      · exact ih h.1
      · intro e he
        rcases List.mem_append.mp he with he | he
        · exact ih h.1 e he
        · rw [List.mem_singleton.mp he]
          exact hne

lemma kept_eq_zero {callbacks : List (ℤ × ℕ)} {looked : List ℤ} (h : ∀ e ∈ callbacks, e.2 ≠ cb) :
    kept callbacks cb looked = 0 := by
  induction callbacks with
  | nil => rfl
  | cons e callbacks ih =>
    rw [kept, List.map_cons, List.sum_cons, ← kept, if_neg (h e List.mem_cons_self),
      ih fun e he => h e (List.mem_cons_of_mem _ he)]

/-- The calls of a callback by the time it is registered. -/
lemma calls_of_registered {type : CallbackType}
    (hnd : (registered (pre ++ .setCallback type cb :: post)).Nodup) :
    calls (run (.init status) (pre ++ .setCallback type cb :: post)) cb =
      if type.status < lastStatus status pre then
        ((statuses post).map lookupStatus).count type.status
      else 1 := by
  rw [registered_append, registered, List.nodup_middle, List.nodup_cons, List.mem_append,
    not_or] at hnd
  obtain ⟨⟨hpre, hpost⟩, -⟩ := hnd
  have hzero : calls (run (.init status) pre) cb = 0 := calls_run_eq_zero hpre
  have hkept : ∀ e ∈ (run (.init status) pre).pCallbacks, e.2 ≠ cb := not_mem_pCallbacks hpre
  rw [run, List.foldl_append, List.foldl_cons, ← run, ← run, calls_run hpost]
  have hst : (run (.init status) pre).pStatus = lastStatus status pre := run_pStatus _ _
  simp only [step, setCallback, hst]
  split
  · next hle =>
    rw [if_neg (by omega), kept_eq_zero hkept]
    simp only [calls, List.count_append, List.count_singleton_self] at hzero ⊢
    omega
  · next hlt =>
    rw [if_pos (by omega)]
    simp only [calls] at hzero ⊢
    simp only [kept, List.map_append, List.sum_append, List.map_cons, List.map_nil, List.sum_cons,
      List.sum_nil, if_true]
    have hzero' : kept _ cb ((statuses post).map lookupStatus) = 0 := kept_eq_zero hkept
    rw [kept] at hzero'
    omega

/-- The step in which a callback is registered. -/
lemma exists_of_registered (h : cb ∈ registered ops) :
    ∃ pre type post, ops = pre ++ .setCallback type cb :: post := by
  induction ops with
  | nil => exact absurd h List.not_mem_nil
  | cons op ops ih =>
    cases op with
    | setStatus status =>
      obtain ⟨pre, type, post, rfl⟩ := ih h
      exact ⟨.setStatus status :: pre, type, post, rfl⟩
    | call k =>
      obtain ⟨pre, type, post, rfl⟩ := ih h
      exact ⟨.call k :: pre, type, post, rfl⟩
    | setCallback type callback =>
      rcases List.mem_cons.mp h with rfl | h
      · exact ⟨[], type, ops, rfl⟩
      · obtain ⟨pre, type', post, rfl⟩ := ih h
        exact ⟨.setCallback type callback :: pre, type', post, rfl⟩

/-- An event with callbacks for all statuses that is submitted, runs and fails; two callbacks come
late. -/
def runningOps : List Op :=
  [.setCallback .running 0, .setCallback .submitted 1, .setStatus 2, .setCallback .complete 2, .call 0,
    .setStatus 1, .setCallback .submitted 3, .setStatus (-5), .setCallback .running 4, .call 1, .call 0,
    .call 0, .call 0]

/-- A callback for `Running` of a user event that is set to `Complete`. -/
def userOps : List Op := [.setCallback .running 0, .setStatus 0]

end Callbacks

end TiOpenCL
