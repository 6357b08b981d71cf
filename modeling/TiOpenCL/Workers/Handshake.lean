import TiOpenCL.Library.Machine
import TiOpenCL.Library.OrderedMap
import TiOpenCL.Library.Words

/-!
# The dispatch and the completion thread of a device

`HandleEventDispatch` and `HandleEventCompletion` of `worker.h`.  Both threads sleep on one condition
variable: the dispatch thread while the map of kernels whose completion is pending is full, the
completion thread while it is empty.  The map has a lock of its own and is changed outside the mutex
of the condition variable, so every test of its size, every change and every critical section is a
step of its own here.

The invariant `Sound` says which broadcast is still to come whenever a thread sleeps although it
need not.  It holds in every state that any interleaving reaches.
-/

namespace TiOpenCL.Workers

/-- `MAX_NUM_COMPLETION_PENDING` -/
def maxNumCompletionPending : ℕ := 16

/-- The kinds of events the dispatch thread tells apart: kernels and everything else. -/
inductive EventKind where
  | kernel
  | other
  deriving DecidableEq

/-- The threads that take the mutex. -/
inductive Thread where
  | dispatch
  | completion
  deriving DecidableEq

/-- Where the dispatch thread is in `HandleEventDispatch`. -/
inductive DispatchPc where
  /-- In `getEvent`. -/
  | getEvent
  /-- `getEvent` has returned `stop`. -/
  | stopLock
  | stopBroadcast
  | stopUnlock
  /-- The thread has left its loop. -/
  | exited
  /-- `getEvent` has returned an event. -/
  | slotLock (kind : EventKind)
  /-- At the test of the loop that waits for a slot. -/
  | slotCheck (kind : EventKind)
  /-- The map was full; at `pthread_cond_wait`. -/
  | slotSleep
  /-- Asleep. -/
  | slotWait
  /-- Woken, and waiting for the mutex. -/
  | slotWake
  | slotUnlock (kind : EventKind)
  /-- Handling the event, up to `push_complete_pending` for a kernel. -/
  | handle (kind : EventKind)
  /-- After `push_complete_pending`. -/
  | mailTo
  | doneLock
  | doneBroadcast
  | doneUnlock
  deriving DecidableEq

/-- Where the completion thread is in `HandleEventCompletion`. -/
inductive CompletionPc where
  | workLock
  /-- At `stop()` in the test of the loop that waits for work. -/
  | workStop
  /-- At `num_complete_pending()` in that test. -/
  | workNum
  /-- There was no work; at `pthread_cond_wait`. -/
  | workSleep
  /-- Asleep. -/
  | workWait
  /-- Woken, and waiting for the mutex. -/
  | workWake
  | workUnlock
  /-- At `stop()` in the test that ends the thread. -/
  | decideStop
  /-- At `any_complete_pending()` in that test. -/
  | decideAny
  | mailFrom
  /-- At `get_complete_pending`. -/
  | tryPop (id : ℕ)
  /-- A kernel was taken out of the map. -/
  | freeLock
  | freeCheck
  | freeBroadcast
  | freeUnlock
  /-- Completing the event. -/
  | complete
  /-- The thread has left its loop. -/
  | exited
  deriving DecidableEq

/-- The threads of a device and what they share. -/
structure Handshake where
  /-- The map `M` of `concurrent_map`: the number of replies left for each kernel. -/
  pending : OrderedMap ℕ ℕ
  /-- `num_elements` -/
  numElements : ℕ
  /-- `p_events` -/
  events : List EventKind
  /-- `p_stop` -/
  stop : Bool
  /-- The owner of the mutex. -/
  owner : Option Thread
  /-- The dispatch thread. -/
  dispatch : DispatchPc
  /-- The completion thread. -/
  completion : CompletionPc

namespace Handshake

/-- A broadcast wakes the dispatch thread if it sleeps. -/
def wakeDispatch (s : Handshake) : DispatchPc :=
  if s.dispatch = .slotWait then .slotWake else s.dispatch

/-- A broadcast wakes the completion thread if it sleeps. -/
def wakeCompletion (s : Handshake) : CompletionPc :=
  if s.completion = .workWait then .workWake else s.completion

/-- The dispatch thread goes on, with the mutex if it is free. -/
def dispatchLock (s : Handshake) (pc : DispatchPc) : Option Handshake :=
  if s.owner = none then some { s with owner := some .dispatch, dispatch := pc } else none

/-- The completion thread goes on, with the mutex if it is free. -/
def completionLock (s : Handshake) (pc : CompletionPc) : Option Handshake :=
  if s.owner = none then some { s with owner := some .completion, completion := pc } else none

/-- One step of the dispatch thread.  `run` says how the run of a kernel ends: with the kernel's
number and the number of replies to expect, or with an error before anything is pushed. -/
def dispatchStep (s : Handshake) (run : Option (ℕ × ℕ)) : Option Handshake :=
  match s.dispatch with
  | .getEvent =>
    if s.stop then some { s with dispatch := .stopLock }
    else
      match s.events with
      | [] => none
      | kind :: rest => some { s with events := rest, dispatch := .slotLock kind }
  | .stopLock => s.dispatchLock .stopBroadcast
  | .stopBroadcast => some { s with completion := s.wakeCompletion, dispatch := .stopUnlock }
  | .stopUnlock => some { s with owner := none, dispatch := .exited }
  | .exited => none
  | .slotLock kind => s.dispatchLock (.slotCheck kind)
  | .slotCheck kind =>
    if kind = .kernel ∧ maxNumCompletionPending ≤ s.numElements then
      some { s with dispatch := .slotSleep }
    else some { s with dispatch := .slotUnlock kind }
  | .slotSleep => some { s with owner := none, dispatch := .slotWait }
  | .slotWait => none
  | .slotWake => s.dispatchLock (.slotCheck .kernel)
  | .slotUnlock kind => some { s with owner := none, dispatch := .handle kind }
  | .handle kind =>
    match kind, run with
    | .kernel, some (id, count) =>
      some { s with
        pending := s.pending.insert id count
        numElements := s.numElements + 1
        dispatch := .mailTo }
    | _, _ => some { s with dispatch := .getEvent }
  | .mailTo => some { s with dispatch := .doneLock }
  | .doneLock => s.dispatchLock .doneBroadcast
  | .doneBroadcast => some { s with completion := s.wakeCompletion, dispatch := .doneUnlock }
  | .doneUnlock => some { s with owner := none, dispatch := .getEvent }

/-- `try_pop`: the completion thread counts a reply down and takes the kernel out of the map with
the last one. -/
def tryPop (s : Handshake) (id : ℕ) : Handshake :=
  match s.pending.find? id with
  | none => { s with completion := .workLock }
  | some count =>
    if wsub 32 count 1 = 0 then
      { s with
        pending := s.pending.erase id
        numElements := s.numElements - 1
        completion := .freeLock }
    else
      { s with
        pending := s.pending.insert id (wsub 32 count 1)
        completion := .workLock }

/-- One step of the completion thread.  `mail` is what `mail_from` returns: the number of a kernel,
or a negative number for messages of another kind. -/
def completionStep (s : Handshake) (mail : ℤ) : Option Handshake :=
  match s.completion with
  | .workLock => s.completionLock .workStop
  | .workStop => some { s with completion := if s.stop then .workUnlock else .workNum }
  | .workNum => some { s with completion := if s.numElements = 0 then .workSleep else .workUnlock }
  | .workSleep => some { s with owner := none, completion := .workWait }
  | .workWait => none
  | .workWake => s.completionLock .workStop
  | .workUnlock => some { s with owner := none, completion := .decideStop }
  | .decideStop => some { s with completion := if s.stop then .decideAny else .mailFrom }
  | .decideAny => some { s with completion := if s.numElements = 0 then .exited else .mailFrom }
  | .mailFrom => some { s with completion := if mail < 0 then .workLock else .tryPop mail.toNat }
  | .tryPop id => some (s.tryPop id)
  | .freeLock => s.completionLock .freeCheck
  | .freeCheck =>
    some { s with
      completion := if s.numElements < maxNumCompletionPending then .freeBroadcast else .freeUnlock }
  | .freeBroadcast => some { s with dispatch := s.wakeDispatch, completion := .freeUnlock }
  | .freeUnlock => some { s with owner := none, completion := .complete }
  | .complete => some { s with completion := .workLock }
  | .exited => none

/-- What can happen: an event is pushed to the device, the device is stopped, a thread goes on, or
a thread wakes without a broadcast. -/
inductive Action where
  | pushEvent (kind : EventKind)
  | stop
  | dispatch (run : Option (ℕ × ℕ))
  | completion (mail : ℤ)
  | spurious (thread : Thread)

/-- One step of the device. -/
def step (s : Handshake) : Action → Option Handshake
  | .pushEvent kind => some { s with events := s.events ++ [kind] }
  | .stop => some { s with stop := true }
  | .dispatch run => s.dispatchStep run
  | .completion mail => s.completionStep mail
  | .spurious .dispatch => some { s with dispatch := s.wakeDispatch }
  | .spurious .completion => some { s with completion := s.wakeCompletion }

/-- The threads at their start. -/
def init : Handshake := ⟨.empty, 0, [], false, none, .getEvent, .workLock⟩

end Handshake

/-! ### Where a thread is -/

/-- The dispatch thread has the mutex. -/
@[grind] def DispatchPc.Holds (pc : DispatchPc) : Prop :=
  pc = .stopBroadcast ∨ pc = .stopUnlock ∨ (∃ kind, pc = .slotCheck kind) ∨ pc = .slotSleep ∨
    (∃ kind, pc = .slotUnlock kind) ∨ pc = .doneBroadcast ∨ pc = .doneUnlock

/-- The dispatch thread has found a slot for a kernel and has not used it yet. -/
@[grind] def DispatchPc.HasSlot (pc : DispatchPc) : Prop :=
  pc = .slotUnlock .kernel ∨ pc = .handle .kernel

/-- The dispatch thread has seen that the device is stopped. -/
@[grind] def DispatchPc.Stopping (pc : DispatchPc) : Prop :=
  pc = .stopLock ∨ pc = .stopBroadcast ∨ pc = .stopUnlock ∨ pc = .exited

/-- The call has pushed a kernel and will issue its broadcast. -/
@[grind] def DispatchPc.WillSignal (pc : DispatchPc) : Prop :=
  pc = .mailTo ∨ pc = .doneLock ∨ pc = .doneBroadcast

/-- On a device that is stopped, the call will issue the broadcast that ends it. -/
@[grind] def DispatchPc.WillStop (pc : DispatchPc) : Prop :=
  pc = .getEvent ∨ pc = .stopLock ∨ pc = .stopBroadcast

/-- The thread is awake in a call that handles an event. -/
@[grind] def DispatchPc.Busy (pc : DispatchPc) : Prop :=
  (∃ kind, pc = .slotLock kind ∨ pc = .slotCheck kind ∨ pc = .slotUnlock kind ∨
    pc = .handle kind) ∨ pc = .slotWake ∨ pc = .mailTo ∨ pc = .doneLock ∨ pc = .doneBroadcast ∨
    pc = .doneUnlock

/-- The completion thread has the mutex. -/
@[grind] def CompletionPc.Holds (pc : CompletionPc) : Prop :=
  pc = .workStop ∨ pc = .workNum ∨ pc = .workSleep ∨ pc = .workUnlock ∨ pc = .freeCheck ∨
    pc = .freeBroadcast ∨ pc = .freeUnlock

/-- The call has taken a kernel out of the map and is on its way to its broadcast. -/
@[grind] def CompletionPc.WillFree (pc : CompletionPc) : Prop :=
  pc = .freeLock ∨ pc = .freeCheck ∨ pc = .freeBroadcast

namespace Handshake

/-- What holds in every state: the mutex is with the thread that is in a critical section, the map
is not overfull, and a thread about to sleep or asleep has a reason to, or a broadcast of the other
thread is still to come. -/
structure Sound (s : Handshake) : Prop where
  dispatchOwns : s.owner = some .dispatch ↔ s.dispatch.Holds
  completionOwns : s.owner = some .completion ↔ s.completion.Holds
  size : s.pending.entries.length ≤ s.numElements
  bound : s.numElements ≤ maxNumCompletionPending
  hasSlot : s.dispatch.HasSlot → s.numElements < maxNumCompletionPending
  stopping : s.dispatch.Stopping → s.stop = true
  slotSleep : s.dispatch = .slotSleep ∨ s.dispatch = .slotWait →
    maxNumCompletionPending ≤ s.numElements ∨ s.completion.WillFree
  workStop : s.completion = .workNum ∨ s.completion = .workSleep ∨ s.completion = .workWait →
    s.dispatch ≠ .stopUnlock ∧ s.dispatch ≠ .exited
  workSleep : s.completion = .workSleep ∨ s.completion = .workWait → 0 < s.numElements →
    s.dispatch.WillSignal

/-! ### Steps of the threads -/

variable {s s' : Handshake}

/-- Assigning to a key adds at most one entry. -/
lemma length_insert_le (m : OrderedMap ℕ ℕ) (k v : ℕ) :
    (m.insert k v).entries.length ≤ m.entries.length + 1 := by
  rw [(m.insert_perm k v).length_eq, List.length_cons, OrderedMap.erase]
  exact Nat.succ_le_succ (List.length_filter_le _ _)

/-- A step of the dispatch thread keeps the state sound. -/
lemma sound_dispatchStep (h : Sound s) {run : Option (ℕ × ℕ)} (hs : s.dispatchStep run = some s') :
    Sound s' := by
  obtain ⟨h1, h2, h3, h4, h5, h6, h7, h8, h9⟩ := h
  cases hpc : s.dispatch with
  | getEvent =>
    simp only [dispatchStep, hpc] at hs
    split at hs
    · obtain rfl := Option.some.inj hs
      refine ⟨?_, h2, h3, h4, ?_, ?_, ?_, ?_, ?_⟩ <;> grind
    · split at hs
      · simp at hs
      · obtain rfl := Option.some.inj hs
        refine ⟨?_, h2, h3, h4, ?_, ?_, ?_, ?_, ?_⟩ <;> grind
  | stopLock | slotLock kind | slotWake | doneLock =>
    simp only [dispatchStep, hpc, dispatchLock, Option.ite_none_right_eq_some,
      Option.some.injEq] at hs
    obtain ⟨hfree, rfl⟩ := hs
    refine ⟨?_, ?_, h3, h4, ?_, ?_, ?_, ?_, ?_⟩ <;> grind
  | stopUnlock | slotSleep | slotUnlock kind | doneUnlock =>
    simp only [dispatchStep, hpc, Option.some.injEq] at hs
    subst hs
    refine ⟨?_, ?_, h3, h4, ?_, ?_, ?_, ?_, ?_⟩ <;> grind
  | stopBroadcast | doneBroadcast =>
    -- the completion thread has not the mutex, and is woken if it sleeps
    simp only [dispatchStep, hpc, Option.some.injEq] at hs
    subst hs
    refine ⟨?_, ?_, h3, h4, ?_, ?_, ?_, ?_, ?_⟩ <;> unfold wakeCompletion <;> grind
  | exited | slotWait => simp [dispatchStep, hpc] at hs
  | slotCheck kind =>
    simp only [dispatchStep, hpc] at hs
    split at hs
    · obtain rfl := Option.some.inj hs
      refine ⟨?_, h2, h3, h4, ?_, ?_, ?_, ?_, ?_⟩ <;> grind
    · obtain rfl := Option.some.inj hs
      refine ⟨?_, h2, h3, h4, ?_, ?_, ?_, ?_, ?_⟩ <;> grind
  | handle kind =>
    simp only [dispatchStep, hpc] at hs
    split at hs
    · next id count =>
      obtain rfl := Option.some.inj hs
      have hlen := length_insert_le s.pending id count
      have hroom : s.numElements < maxNumCompletionPending := h5 (by simp [hpc, DispatchPc.HasSlot])
      refine ⟨?_, h2, ?_, ?_, ?_, ?_, ?_, ?_, ?_⟩ <;> grind
    · obtain rfl := Option.some.inj hs
      refine ⟨?_, h2, h3, h4, ?_, ?_, ?_, ?_, ?_⟩ <;> grind
  | mailTo =>
    simp only [dispatchStep, hpc, Option.some.injEq] at hs
    subst hs
    refine ⟨?_, h2, h3, h4, ?_, ?_, ?_, ?_, ?_⟩ <;> grind

/-- Taking a kernel out of the map, or counting a reply, keeps the state sound. -/
lemma sound_tryPop (h : Sound s) {id : ℕ} (hpc : s.completion = .tryPop id) :
    Sound (s.tryPop id) := by
  obtain ⟨h1, h2, h3, h4, h5, h6, h7, h8, h9⟩ := h
  unfold tryPop
  cases hf : s.pending.find? id with
  | none => refine ⟨h1, ?_, h3, h4, h5, h6, ?_, ?_, ?_⟩ <;> grind
  | some count =>
    have hmem := OrderedMap.find?_eq_some_iff.mp hf
    have herase := (OrderedMap.erase_perm hmem).length_eq
    have hinsert := (s.pending.insert_perm id (wsub 32 count 1)).length_eq
    simp only [List.length_cons] at herase hinsert
    simp only
    split
    · refine ⟨h1, ?_, ?_, ?_, ?_, h6, ?_, ?_, ?_⟩ <;> grind
    · refine ⟨h1, ?_, ?_, h4, h5, h6, ?_, ?_, ?_⟩ <;> grind

/-- A step of the completion thread keeps the state sound. -/
lemma sound_completionStep (h : Sound s) {mail : ℤ} (hs : s.completionStep mail = some s') :
    Sound s' := by
  have hsound := h
  obtain ⟨h1, h2, h3, h4, h5, h6, h7, h8, h9⟩ := h
  cases hpc : s.completion with
  | tryPop id =>
    simp only [completionStep, hpc, Option.some.injEq] at hs
    exact hs ▸ sound_tryPop hsound hpc
  | workLock | workWake | freeLock =>
    simp only [completionStep, hpc, completionLock, Option.ite_none_right_eq_some,
      Option.some.injEq] at hs
    obtain ⟨hfree, rfl⟩ := hs
    refine ⟨?_, ?_, h3, h4, h5, h6, ?_, ?_, ?_⟩ <;> grind
  | workSleep | workUnlock | freeUnlock | complete =>
    simp only [completionStep, hpc, Option.some.injEq] at hs
    subst hs
    refine ⟨?_, ?_, h3, h4, h5, h6, ?_, ?_, ?_⟩ <;> grind
  | workWait | exited => simp [completionStep, hpc] at hs
  | workStop | workNum | decideStop | decideAny | mailFrom | freeCheck =>
    -- the device is not stopped when the thread goes on to the size of the map, so the dispatch
    -- thread is in its loop then
    simp only [completionStep, hpc, Option.some.injEq] at hs
    subst hs
    refine ⟨h1, ?_, h3, h4, h5, h6, ?_, ?_, ?_⟩ <;> grind
  | freeBroadcast =>
    -- the dispatch thread has not the mutex, and is woken if it sleeps
    simp only [completionStep, hpc, Option.some.injEq] at hs
    subst hs
    refine ⟨?_, ?_, h3, h4, ?_, ?_, ?_, ?_, ?_⟩ <;> unfold wakeDispatch <;> grind

/-- Every step keeps the state sound. -/
lemma sound_step (h : Sound s) {a : Action} (hs : s.step a = some s') : Sound s' := by
  cases a with
  | pushEvent kind =>
    obtain rfl := Option.some.inj hs
    exact ⟨h.dispatchOwns, h.completionOwns, h.size, h.bound, h.hasSlot, h.stopping, h.slotSleep,
      h.workStop, h.workSleep⟩
  | stop =>
    obtain rfl := Option.some.inj hs
    exact ⟨h.dispatchOwns, h.completionOwns, h.size, h.bound, h.hasSlot, fun _ => rfl, h.slotSleep,
      h.workStop, h.workSleep⟩
  | dispatch run => exact sound_dispatchStep h hs
  | completion mail => exact sound_completionStep h hs
  | spurious thread =>
    obtain ⟨h1, h2, h3, h4, h5, h6, h7, h8, h9⟩ := h
    cases thread with
    | dispatch =>
      obtain rfl := Option.some.inj hs
      refine ⟨?_, h2, h3, h4, ?_, ?_, ?_, ?_, ?_⟩ <;> unfold wakeDispatch <;> grind
    | completion =>
      obtain rfl := Option.some.inj hs
      refine ⟨h1, ?_, h3, h4, h5, h6, ?_, ?_, ?_⟩ <;> unfold wakeCompletion <;> grind

/-! ### Every interleaving -/

/-- Every state that the threads reach is sound. -/
lemma sound_of_run {actions : List Action} (hrun : Machine.run step init actions = some s) :
    Sound s := by
  refine Machine.invariant_of_run (fun _ _ _ h hs => sound_step h hs) hrun ?_
  constructor <;> simp [init, DispatchPc.Holds, DispatchPc.HasSlot, DispatchPc.Stopping,
    CompletionPc.Holds]

/-- The threads do not miss each other: the map holds at most the allowed number of kernels; the
dispatch thread sleeps beside a free slot only while the other thread is between taking a kernel out
and its broadcast; the completion thread sleeps beside a pending kernel only while the call that
pushed it has still to broadcast, and beside a stopped device only while the dispatch thread has
still to broadcast, in its call or, if it is busy with an event, in the next one. -/
theorem handshake_of_run (actions : List Action) (s : Handshake)
    (hrun : Machine.run step init actions = some s) :
    s.pending.entries.length ≤ maxNumCompletionPending ∧
      s.numElements ≤ maxNumCompletionPending ∧
      (s.dispatch = .slotWait → s.numElements < maxNumCompletionPending → s.completion.WillFree) ∧
      (s.completion = .workWait → 0 < s.numElements → s.dispatch.WillSignal) ∧
      (s.completion = .workWait → s.stop = true → s.dispatch.WillStop ∨ s.dispatch.Busy) := by
  obtain ⟨h1, h2, h3, h4, h5, h6, h7, h8, h9⟩ := sound_of_run hrun
  refine ⟨h3.trans h4, h4, ?_, ?_, ?_⟩
  · intro hsleep hroom
    exact (h7 (Or.inr hsleep)).resolve_left (by omega)
  · intro hsleep hwork
    exact h9 (Or.inr hsleep) hwork
  · intro hsleep _
    have hloop := h8 (Or.inr (Or.inr hsleep))
    -- a dispatch thread that sleeps does so beside a full map, which it has announced
    have hawake : s.dispatch ≠ .slotSleep ∧ s.dispatch ≠ .slotWait := by
      unfold maxNumCompletionPending at h7
      grind
    cases hpc : s.dispatch <;> grind

/-- The completion thread finds no work and sleeps, and the dispatch thread pushes a kernel. -/
def pushedWhileAsleep : List Action :=
  [.completion 0, .completion 0, .completion 0, .completion 0, .pushEvent .kernel, .dispatch none,
    .dispatch none, .dispatch none, .dispatch none, .dispatch (some (5, 1))]

/-- In this run the completion thread sleeps beside a pending kernel, and the broadcast of the
dispatch thread is still to come. -/
theorem handshake_pushedWhileAsleep : ∃ s : Handshake,
    Machine.run step init pushedWhileAsleep = some s ∧ s.completion = .workWait ∧
      s.numElements = 1 ∧ s.dispatch.WillSignal := by
  have hend : (Machine.run step init pushedWhileAsleep).map
      (fun s => (s.completion, s.numElements)) = some (.workWait, 1) := by decide
  obtain ⟨s, hrun, hs⟩ := Option.map_eq_some_iff.mp hend
  obtain ⟨hsleep, hnum⟩ := Prod.mk.inj hs
  obtain ⟨-, -, -, hsignal, -⟩ := handshake_of_run pushedWhileAsleep s hrun
  exact ⟨s, hrun, hsleep, hnum, hsignal hsleep (by omega)⟩

/-- The device gets an event that is no kernel, the completion thread finds no work and sleeps, and
the device is stopped while the dispatch thread handles the event. -/
def stoppedWhileBusy : List Action :=
  [.pushEvent .other, .completion 0, .completion 0, .completion 0, .completion 0, .dispatch none,
    .dispatch none, .dispatch none, .dispatch none, .stop]

/-- After this run the completion thread sleeps beside a stopped device, and the call of the dispatch
thread ends without a broadcast. -/
theorem asleep_stoppedWhileBusy : ∃ s s' : Handshake,
    Machine.run step init stoppedWhileBusy = some s ∧ s.completion = .workWait ∧ s.stop = true ∧
      ¬ s.dispatch.WillSignal ∧ ¬ s.dispatch.WillStop ∧
      s.step (.dispatch none) = some s' ∧ s'.dispatch = .getEvent ∧ s'.completion = .workWait := by
  have hend : ((Machine.run step init stoppedWhileBusy).bind fun s =>
      (s.step (.dispatch none)).map fun s' =>
        (s.completion, s.stop, s.dispatch, s'.dispatch, s'.completion)) =
      some (.workWait, true, .handle .other, .getEvent, .workWait) := by decide
  obtain ⟨s, hrun, hmap⟩ := Option.bind_eq_some_iff.mp hend
  obtain ⟨s', hstep, hs⟩ := Option.map_eq_some_iff.mp hmap
  simp only [Prod.mk.injEq] at hs
  obtain ⟨hc, hstop, hd, hd', hc'⟩ := hs
  exact ⟨s, s', hrun, hc, hstop, by simp [hd, DispatchPc.WillSignal],
    by simp [hd, DispatchPc.WillStop], hstep, hd', hc'⟩

end Handshake

end TiOpenCL.Workers
