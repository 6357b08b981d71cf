import TiOpenCL.Protocol.Message

/-!
# The host side of the protocol

`CoreScheduler`, the recipients of a message (`mail_to`), the number of replies the host expects for
it (`numHostMails`), the reception of a message (`mail_from`) and the bookkeeping of completions
(`concurrent_map` and `HandleEventCompletion`).
-/

namespace TiOpenCL

/-! ### Core scheduler -/

/-- `CoreScheduler`: the number of out-of-order tasks on each core, and the depth to which the cores
are filled. -/
structure CoreScheduler where
  /-- Number of tasks a core takes. -/
  depth : ℕ
  /-- `count_`, an `int` for each core. -/
  count : ℕ → ℤ

namespace CoreScheduler

/-- `any_core_available`. -/
def anyCoreAvailable (s : CoreScheduler) (computeUnits : List ℕ) : Bool :=
  decide ((computeUnits.map s.count).sum < sint 32 (computeUnits.length * s.depth))

/-- `core_select`: the first core with the lowest count below the depth, or the first core.  The
count is compared as an unsigned integer. -/
def coreSelect (s : CoreScheduler) (computeUnits : List ℕ) : ℕ :=
  (computeUnits.foldl
    (fun (best : ℕ × ℕ) core =>
      if uint 32 (s.count core) < best.1 then (uint 32 (s.count core), core) else best)
    (s.depth, computeUnits.headD 0)).2

/-- `core_reserve`. -/
def coreReserve (s : CoreScheduler) (core : ℕ) : CoreScheduler :=
  { s with count := Function.update s.count core (s.count core + 1) }

/-- `core_release`. -/
def coreRelease (s : CoreScheduler) (core : ℕ) : CoreScheduler :=
  { s with count := Function.update s.count core (s.count core - 1) }

/-- `allocate`: the core for a task, or `none` while the caller waits for a core. -/
def allocate (s : CoreScheduler) (computeUnits : List ℕ) : Option (ℕ × CoreScheduler) :=
  if s.anyCoreAvailable computeUnits then
    let core := s.coreSelect computeUnits
    some (core, s.coreReserve core)
  else none

/-- The selected core is one of the compute units. -/
lemma coreSelect_mem (s : CoreScheduler) {computeUnits : List ℕ} (hne : computeUnits ≠ []) :
    s.coreSelect computeUnits ∈ computeUnits := by
  have hfold : ∀ (units : List ℕ) (best : ℕ × ℕ), best.2 ∈ computeUnits →
      (∀ core ∈ units, core ∈ computeUnits) →
      (units.foldl (fun (best : ℕ × ℕ) core =>
        if uint 32 (s.count core) < best.1 then (uint 32 (s.count core), core) else best)
        best).2 ∈ computeUnits := by
    intro units
    induction units with
    | nil => exact fun best hbest _ => hbest
    | cons core units ih =>
      intro best hbest hunits
      have hrest : ∀ c ∈ units, c ∈ computeUnits :=
        fun c hc => hunits c (List.mem_cons_of_mem core hc)
      rw [List.foldl_cons]
      by_cases hlow : uint 32 (s.count core) < best.1
      · rw [if_pos hlow]
        exact ih _ (hunits core (by simp)) hrest
      · rw [if_neg hlow]
        exact ih _ hbest hrest
  refine hfold computeUnits _ ?_ fun _ h => h
  cases computeUnits with
  | nil => exact absurd rfl hne
  | cons core _ => simp

end CoreScheduler

/-! ### Mail -/

/-- `mail_to`: the compute units a message is sent to, with the scheduler afterwards.  There is no
result while the scheduler has no core, nor for a command the host does not send. -/
def mailTo (s : CoreScheduler) (msg : Msg) (computeUnits : List ℕ) :
    Option (List ℕ × CoreScheduler) :=
  match msg.command with
  | .exit | .ndrKernel | .cacheInv | .configureMonitor | .setupDebug =>
    some (if msg.IsDebugMode then computeUnits.take 1 else computeUnits, s)
  | .task =>
    if msg.IsOooTask then (s.allocate computeUnits).map fun r => ([r.1], r.2)
    else some (computeUnits, s)
  | .frequency => some (computeUnits.take 1, s)
  | .print => none

/-- `numHostMails`: the number of replies registered for a message. -/
def numHostMails (dev : Device) (msg : Msg) : ℕ :=
  if msg.command = .exit ∨ msg.command = .cacheInv ∨ msg.command = .setupDebug ∨
      msg.command = .configureMonitor ∨ (msg.command = .ndrKernel ∧ ¬ msg.IsDebugMode) then
    dev.dspCores
  else 1

/-- `mail_from`: the id the caller sees, which is negative when the message is no completion, with
the return code and the scheduler afterwards. -/
def mailFrom (s : CoreScheduler) (computeUnits : List ℕ) (msg : Msg) (core : ℕ) :
    ℤ × ℤ × CoreScheduler :=
  match msg.command with
  | .print | .exit => (-1, clSuccess, s)
  | .task =>
    (sint 32 msg.transId, msg.retcode,
      if msg.IsOooTask ∧ core ∈ computeUnits then s.coreRelease core else s)
  | _ => (sint 32 msg.transId, msg.retcode, s)

/-- A message is sent to compute units of the device, and only an out-of-order task changes the
scheduler. -/
lemma mailTo_eq_some {s s' : CoreScheduler} {msg : Msg} {computeUnits recipients : List ℕ}
    (hne : computeUnits ≠ []) (h : mailTo s msg computeUnits = some (recipients, s')) :
    (∀ core ∈ recipients, core ∈ computeUnits) ∧
      ((msg.IsOooTask ∧ ∃ core, recipients = [core] ∧ s' = s.coreReserve core) ∨
        (¬ msg.IsOooTask ∧ s' = s)) := by
  by_cases hooo : msg.IsOooTask
  · simp only [mailTo, hooo.1, if_pos hooo, CoreScheduler.allocate] at h
    split at h
    · simp only [Option.map_some, Option.some.injEq, Prod.mk.injEq] at h
      obtain ⟨rfl, rfl⟩ := h
      refine ⟨fun core hcore => ?_, Or.inl ⟨hooo, _, rfl, rfl⟩⟩
      rw [List.mem_singleton] at hcore
      rw [hcore]
      exact s.coreSelect_mem hne
    · simp at h
  · have hsub : ∀ core ∈ computeUnits.take 1, core ∈ computeUnits :=
      fun core hcore => List.mem_of_mem_take hcore
    unfold mailTo at h
    refine ⟨?_, Or.inr ⟨hooo, ?_⟩⟩
    all_goals
      split at h
    all_goals first
      | (simp only [if_neg hooo, Option.some.injEq, Prod.mk.injEq] at h
         obtain ⟨rfl, rfl⟩ := h)
      | simp at h
    all_goals first
      | rfl
      | exact hsub
      | exact fun _ hcore => hcore
      | (split
         · exact hsub
         · exact fun _ hcore => hcore)

/-- Only the reply to an out-of-order task, from a core of the device, changes the scheduler. -/
lemma mailFrom_scheduler (s : CoreScheduler) (computeUnits : List ℕ) (msg : Msg) (core : ℕ) :
    (mailFrom s computeUnits msg core).2.2 =
      if msg.IsOooTask ∧ core ∈ computeUnits then s.coreRelease core else s := by
  unfold mailFrom
  split <;> simp_all [Msg.IsOooTask]

/-- The reply to a task or a kernel gives its id and its return code. -/
lemma mailFrom_reply (s : CoreScheduler) (computeUnits : List ℕ) {msg : Msg}
    (h : msg.command = .task ∨ msg.command = .ndrKernel) (core : ℕ) :
    (mailFrom s computeUnits msg core).1 = sint 32 msg.transId ∧
      (mailFrom s computeUnits msg core).2.1 = msg.retcode := by
  rcases h with h | h <;> simp [mailFrom, h]

/-! ### Completions -/

/-- `concurrent_map`: the events with replies to come, and the number of elements. -/
structure CompletePending (α : Type*) where
  /-- The event registered under an id and the number of replies to come. -/
  map : ℕ → Option (α × ℕ)
  /-- `num_elements`. -/
  numElements : ℤ

namespace CompletePending

variable {α : Type*}

/-- The empty map. -/
def empty : CompletePending α := ⟨fun _ => none, 0⟩

/-- `push`. -/
def push (p : CompletePending α) (index : ℕ) (data : α) (cnt : ℕ) : CompletePending α where
  map := Function.update p.map index (some (data, cnt))
  numElements := p.numElements + 1

/-- `try_pop`: one reply less for an id; the event when that was the last one. -/
def tryPop (p : CompletePending α) (idx : ℕ) : Option α × CompletePending α :=
  match p.map idx with
  | some (data, cnt) =>
    let cnt := wsub 32 cnt 1
    if cnt = 0 then
      (some data, ⟨Function.update p.map idx none, p.numElements - 1⟩)
    else (none, { p with map := Function.update p.map idx (some (data, cnt)) })
  | none => (none, p)

/-- An id that is not registered pops nothing. -/
lemma tryPop_none {p : CompletePending α} {idx : ℕ} (h : p.map idx = none) :
    p.tryPop idx = (none, p) := by
  simp only [tryPop, h]

/-- A reply to an id that is registered. -/
lemma tryPop_some {p : CompletePending α} {idx cnt : ℕ} {data : α}
    (h : p.map idx = some (data, cnt)) :
    p.tryPop idx = if wsub 32 cnt 1 = 0 then
      (some data, ⟨Function.update p.map idx none, p.numElements - 1⟩)
    else (none, { p with map := Function.update p.map idx (some (data, wsub 32 cnt 1)) }) := by
  simp only [tryPop, h]

/-- The last reply pops the event. -/
lemma tryPop_last {p : CompletePending α} {idx : ℕ} {data : α} (h : p.map idx = some (data, 1)) :
    p.tryPop idx = (some data, ⟨Function.update p.map idx none, p.numElements - 1⟩) := by
  have hcnt : wsub 32 1 1 = 0 := by decide
  rw [tryPop_some h, hcnt, if_pos rfl]

/-- Any other reply is only counted. -/
lemma tryPop_more {p : CompletePending α} {idx : ℕ} {data : α} {m : ℕ}
    (h : p.map idx = some (data, m + 1)) (hm : 0 < m) (hlt : m + 1 < 2 ^ 32) :
    p.tryPop idx = (none, { p with map := Function.update p.map idx (some (data, m)) }) := by
  have hcnt : wsub 32 (m + 1) 1 = m := by
    rw [wsub_eq (by omega) hlt]
    rfl
  rw [tryPop_some h, hcnt, if_neg hm.ne']

end CompletePending

/-- `Event::Complete`. -/
def eventComplete : ℤ := 0

/-- The status an event ends with for a return code. -/
def completionStatus (retcode : ℤ) : ℤ := if retcode = clSuccess then eventComplete else retcode

/-- An event ends with `Complete` exactly for a successful return code. -/
lemma completionStatus_eq_complete (retcode : ℤ) :
    completionStatus retcode = eventComplete ↔ retcode = clSuccess := by
  unfold completionStatus
  split
  · next h => simp [h]
  · rfl

/-- The state of the completion handler: the events with replies to come, the errors of replies that
were not the last one of their kernel, and the statuses given to events, the latest first. -/
structure Completions (α : Type*) where
  /-- `p_complete_pending`. -/
  pending : CompletePending α
  /-- `kernel_errors`, keyed by an `int`. -/
  kernelErrors : ℤ → Option ℤ
  /-- The calls of `setStatus`. -/
  statuses : List (α × ℤ)

namespace Completions

variable {α : Type*}

/-- No kernel is pending. -/
def initial : Completions α := ⟨CompletePending.empty, fun _ => none, []⟩

/-- `HandleEventCompletion` after `mail_from` returned an id and a return code. -/
def handleEventCompletion (c : Completions α) (kId retcode : ℤ) : Completions α :=
  if kId < 0 then c
  else
    match c.pending.tryPop (uint 32 kId) with
    | (none, pending) =>
      { c with
        pending := pending
        kernelErrors :=
          if retcode ≠ clSuccess then Function.update c.kernelErrors kId (some retcode)
          else c.kernelErrors }
    | (some event, pending) =>
      { pending := pending
        kernelErrors := Function.update c.kernelErrors kId none
        statuses := (event, completionStatus ((c.kernelErrors kId).getD retcode)) :: c.statuses }

end Completions

end TiOpenCL
