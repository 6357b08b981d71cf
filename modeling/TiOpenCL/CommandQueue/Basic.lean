import Mathlib.Logic.Function.Basic
import Mathlib.Tactic.Linarith
import TiOpenCL.Library.Machine

/-!
# Events and command queues

The machine of `commandqueue.cpp`: events with their wait lists and statuses, command queues with
their lists of events, the devices that run the commands, and any number of threads that construct
events, queue them, push them on the devices and set their statuses.

Every critical section is one step.  The mutex of a queue covers a whole traversal of
`pushEventsOnDevice` or `cleanEvents`, which is one step with a pure traversal (`scan`) in it.  The
code between the critical sections is a stack of frames per thread: `Event::setStatus` is a step of
`setStatusHelper`, followed by a frame that walks the dependent events, with calls of
`pushEventsOnDevice` or of `setStatus` above it.  The lock of an event under construction is held
while it is registered with the events of its wait list; whoever wants to remove one of them from it
has to wait (`built`).

`started`, `finished`, `ended` and `queued` are a record of what has happened; no step reads them.
-/

namespace TiOpenCL.CommandQueue

open Machine

/-! ### Events and queues -/

/-- The types of events that the queues tell apart. -/
inductive Kind where
  /-- A command that a device runs. -/
  | command
  | marker
  | barrier
  | waitForEvents
  | user
  deriving DecidableEq, Repr

/-- `Event::isInstantaneous`. -/
def Kind.isInstantaneous : Kind → Bool
  | .command => false
  | _ => true

/-- The types behind which nothing is pushed while they wait. -/
def Kind.holdsBack : Kind → Bool
  | .waitForEvents | .barrier | .marker => true
  | _ => false

/-- `CL_QUEUED`. -/
def queued : ℤ := 3

/-- `CL_SUBMITTED`. -/
def submitted : ℤ := 2

/-- `CL_RUNNING`. -/
def running : ℤ := 1

/-- `CL_COMPLETE`; an error is below it. -/
def complete : ℤ := 0

/-- `CL_EXEC_STATUS_ERROR_FOR_EVENTS_IN_WAIT_LIST`. -/
def errorInWaitList : ℤ := -14

/-- An event. -/
structure Event where
  /-- Its type. -/
  kind : Kind
  /-- The queue it belongs to; a user event has none. -/
  parent : Option ℕ
  /-- The wait list it was created with. -/
  waitList : List ℕ
  /-- The part of the wait list that the constructor has not come to. -/
  unregistered : List ℕ
  /-- `p_status`. -/
  status : ℤ
  /-- `p_wait_events`. -/
  waitEvents : List ℕ
  /-- `p_dependent_events`. -/
  dependents : List ℕ
  /-- Whether the constructor has given up the lock of the event. -/
  built : Bool

/-- A command queue. -/
structure Queue where
  /-- `CL_QUEUE_OUT_OF_ORDER_EXEC_MODE_ENABLE`. -/
  outOfOrder : Bool
  /-- The device of the queue. -/
  device : ℕ
  /-- `p_events`. -/
  events : List ℕ
  /-- `p_num_events_on_device`. -/
  numOnDevice : ℤ
  /-- `p_num_events_completed`. -/
  numCompleted : ℤ

/-- Everything but the threads. -/
structure Core where
  /-- The events, by number. -/
  event : ℕ → Event
  /-- How many events were created. -/
  numEvents : ℕ
  /-- The command queues. -/
  queue : ℕ → Queue
  /-- The events that each device was given and has not begun. -/
  device : ℕ → List ℕ
  /-- The commands that are executed. -/
  executing : List ℕ
  /-- The events given to a device or taken as instantaneous, in order. -/
  started : List ℕ
  /-- The events that have reached `Complete` or an error. -/
  finished : List ℕ
  /-- The commands that a device is done with. -/
  ended : List ℕ
  /-- The events appended to the queues, in order. -/
  queuedLog : List ℕ

/-- The core with one event changed. -/
def Core.setEvent (c : Core) (e : ℕ) (x : Event) : Core :=
  { c with event := Function.update c.event e x }

/-- The core with one queue changed. -/
def Core.setQueue (c : Core) (q : ℕ) (x : Queue) : Core :=
  { c with queue := Function.update c.queue q x }

/-! ### The traversal of `pushEventsOnDevice` -/

/-- `OOO_QUEUE_PUSH_EVENTS_THRESHOLD`. -/
def pushEventsThreshold : ℕ := 64

/-- What a traversal of the events of a queue does. -/
structure Scan where
  /-- The events that stay in the list. -/
  kept : List ℕ
  /-- The events given to the device, in order. -/
  pushed : List ℕ
  /-- The finished events that are erased. -/
  removed : List ℕ
  /-- The instantaneous event that is erased and completed by the caller. -/
  taken : Option ℕ

/-- The traversal ends with the given events left. -/
def Scan.stop (es : List ℕ) : Scan := ⟨es, [], [], none⟩

/-- The traversal goes over an event. -/
def Scan.keep (e : ℕ) (s : Scan) : Scan := { s with kept := e :: s.kept }

/-- The traversal erases a finished event. -/
def Scan.remove (e : ℕ) (s : Scan) : Scan := { s with removed := e :: s.removed }

/-- The traversal gives an event to the device. -/
def Scan.push (e : ℕ) (s : Scan) : Scan := { s with pushed := e :: s.pushed }

/-- The loop of `pushEventsOnDevice` over the rest of the list, with its flag `first` and the number
of events it has traversed. -/
def scan (event : ℕ → Event) (outOfOrder : Bool) (ready : Option ℕ) :
    Bool → ℕ → List ℕ → Scan
  | _, _, [] => .stop []
  | first, traversed, e :: es =>
    if (event e).status ≤ complete then (scan event outOfOrder ready first traversed es).remove e
    else if ready = none ∧ pushEventsThreshold < traversed then .stop (e :: es)
    else if !outOfOrder && !first then .stop (e :: es)
    else if (event e).kind = .barrier ∧ first = false then .stop (e :: es)
    else if (event e).status ≠ queued then
      if ready = some e then .stop (e :: es)
      else (scan event outOfOrder ready false (traversed + 1) es).keep e
    else if (event e).waitEvents ≠ [] then
      if (event e).kind.holdsBack then .stop (e :: es)
      else (scan event outOfOrder ready false (traversed + 1) es).keep e
    else if (event e).kind.isInstantaneous then ⟨es, [], [], some e⟩
    -- the loop does not move on after a push: it meets the event again, now submitted
    else if (ready = none ∧ pushEventsThreshold < traversed + 1) ∨ outOfOrder = false ∨
        ready = some e then (Scan.stop (e :: es)).push e
    else ((scan event outOfOrder ready false (traversed + 2) es).keep e).push e

/-- The counters of a queue when `pushEventsOnDevice` is told that an event has completed. -/
def Queue.count (x : Queue) (oneCompleted : Bool) : Queue :=
  if oneCompleted then
    { x with numOnDevice := x.numOnDevice - 1, numCompleted := x.numCompleted + 1 }
  else x

/-- The device has enough to work on, and the queue is not starved. -/
def Throttled (c : Core) (x : Queue) (ready : Option ℕ) : Prop :=
  x.outOfOrder = true ∧ ready = none ∧ 2 < x.numOnDevice ∧ c.device x.device ≠ []

instance (c : Core) (x : Queue) (ready : Option ℕ) : Decidable (Throttled c x ready) :=
  inferInstanceAs (Decidable (_ ∧ _ ∧ _ ∧ _))

/-- The traversal of a queue by `pushEventsOnDevice`. -/
def Core.scan (c : Core) (q : ℕ) (ready : Option ℕ) : Scan :=
  CommandQueue.scan c.event (c.queue q).outOfOrder ready true 0 (c.queue q).events

/-- The core after a traversal: what it pushed is submitted and on the device, and the queue, with
its counters, is left with what was kept. -/
def Core.applyScan (c : Core) (q : ℕ) (x : Queue) (s : Scan) : Core :=
  { c with
    event := fun e => if e ∈ s.pushed then { c.event e with status := submitted } else c.event e
    queue := Function.update c.queue q
      { x with
        events := s.kept
        numOnDevice := x.numOnDevice + s.pushed.length + s.taken.toList.length
        numCompleted := x.numCompleted - s.removed.length }
    device := Function.update c.device x.device (c.device x.device ++ s.pushed)
    started := c.started ++ (s.pushed ++ s.taken.toList) }

/-- `CommandQueue::pushEventsOnDevice` up to the unlock; with the instantaneous event that is to be
completed then. -/
def pushEventsOnDevice (c : Core) (q : ℕ) (ready : Option ℕ) (oneCompleted : Bool) :
    Core × Option ℕ :=
  let x := (c.queue q).count oneCompleted
  if Throttled c x ready then (c.setQueue q x, none)
  else (c.applyScan q x (c.scan q ready), (c.scan q ready).taken)

/-- The loop of `cleanEvents`: the events that stay, and how many are erased. -/
def cleanLoop (event : ℕ → Event) (outOfOrder : Bool) : List ℕ → List ℕ × ℕ
  | [] => ([], 0)
  | e :: es =>
    if (event e).status = complete then
      ((cleanLoop event outOfOrder es).1, (cleanLoop event outOfOrder es).2 + 1)
    else if outOfOrder = false then (e :: es, 0)
    else (e :: (cleanLoop event outOfOrder es).1, (cleanLoop event outOfOrder es).2)

/-- `CommandQueue::cleanEvents`. -/
def cleanEvents (c : Core) (q : ℕ) : Core :=
  let x := c.queue q
  if x.numCompleted < 16 ∧ 0 < x.numOnDevice ∧ (x.events.length : ℤ) - x.numCompleted ≠ 0 then c
  else
    c.setQueue q
      { x with
        events := (cleanLoop c.event x.outOfOrder x.events).1
        numCompleted := x.numCompleted - (cleanLoop c.event x.outOfOrder x.events).2 }

/-! ### Critical sections of an event -/

/-- The constructor of an event goes on to the rest of the wait list. -/
def nextWait (c : Core) (e : ℕ) : Core :=
  c.setEvent e { c.event e with unregistered := (c.event e).unregistered.tail }

/-- `Event::addDependentEvent` and the `push_back` of its caller. -/
def addDependentEvent (c : Core) (w e : ℕ) : Core :=
  let c' := c.setEvent w { c.event w with dependents := (c.event w).dependents ++ [e] }
  c'.setEvent e { c'.event e with waitEvents := (c'.event e).waitEvents ++ [w] }

/-- The critical section of `Event::removeWaitEvent`. -/
def removeWaitEvent (c : Core) (d w : ℕ) : Core :=
  c.setEvent d { c.event d with waitEvents := (c.event d).waitEvents.filter (· ≠ w) }

/-- `Event::setStatusHelper`. -/
def setStatusHelper (c : Core) (e : ℕ) (status : ℤ) : Core :=
  { c.setEvent e { c.event e with status := status } with
    finished := if status ≤ complete then e :: c.finished else c.finished }

/-- A new event, under construction. -/
def newEvent (c : Core) (kind : Kind) (parent : Option ℕ) (waitList : List ℕ) (status : ℤ)
    (built : Bool) : Core :=
  { c.setEvent c.numEvents ⟨kind, parent, waitList, waitList, status, [], [], built⟩ with
    numEvents := c.numEvents + 1 }

/-! ### The threads -/

/-- What is left to do of the calls of a thread. -/
inductive Frame where
  /-- The constructor of an event checks the statuses of its wait list. -/
  | check (q : ℕ) (kind : Kind) (waitList rest : List ℕ) (blocking : Bool)
  /-- The constructor registers the event with its wait list; `failed` is
  `wait_events_in_error_status`. -/
  | construct (e : ℕ) (failed blocking : Bool)
  /-- `CommandQueue::queueEvent`. -/
  | queueEvent (e : ℕ) (blocking : Bool)
  /-- `Event::setStatus` with `Complete` or an error. -/
  | setStatus (e : ℕ) (status : ℤ)
  /-- The loop of `setStatus` over the dependent events of a completed event, and the push after
  it; `pushed` is `already_pushed`. -/
  | notify (e i n : ℕ) (pushed : Bool)
  /-- The loop over the dependent events of a failed event, and the push after it. -/
  | fail (e i n : ℕ)
  /-- `CommandQueue::pushEventsOnDevice`. -/
  | push (q : ℕ) (ready : Option ℕ) (oneCompleted : Bool)
  /-- `CommandQueue::cleanEvents`. -/
  | clean (q : ℕ)
  /-- `clReleaseEvent`. -/
  | release (e : ℕ)
  /-- A worker has taken a command from its device and sets its status to `Running`. -/
  | begin (e : ℕ)
  /-- The worker executes the command. -/
  | execute (e : ℕ)
  /-- A wait for the end of an event. -/
  | wait (e : ℕ)
  /-- The wait of `CommandQueue::finish`. -/
  | waitEmpty (q : ℕ)
  deriving DecidableEq, Repr

/-- The machine. -/
structure State extends Core where
  /-- The stack of each thread. -/
  threads : List (List Frame)

/-- The frames of `removeWaitEvent` after its critical section: the wait event is released by way of
its queue. -/
def releaseFrames (c : Core) (w : ℕ) : List Frame :=
  if (c.event w).parent.isSome then [.release w] else []

/-- A step of the loop of `setStatus` over the dependent events of a completed event. -/
def notifyStep (c : Core) (e i n : ℕ) (pushed : Bool) : Option (Core × List Frame) :=
  match (c.event e).dependents[i]? with
  | some d =>
    if (c.event d).built then
      let c' := removeWaitEvent c d e
      match (c.event d).parent with
      | some q =>
        if (c'.event d).waitEvents = [] then
          let own := decide ((c.event e).parent = some q)
          some (c', releaseFrames c e ++ [.push q (some d) own, .notify e (i + 1) n (pushed || own)])
        else some (c', releaseFrames c e ++ [.notify e (i + 1) n pushed])
      | none => some (c', releaseFrames c e ++ [.notify e (i + 1) n pushed])
    else none
  | none => none

/-- A step of the loop of `setStatus` over the dependent events of a failed event. -/
def failStep (c : Core) (e i n : ℕ) : Option (Core × List Frame) :=
  match (c.event e).dependents[i]? with
  | some d =>
    if (c.event d).built then
      some (removeWaitEvent c d e,
        releaseFrames c e ++ [.setStatus d errorInWaitList, .fail e (i + 1) n])
    else none
  | none => none

/-- The next critical section of a frame, with the frames that are left; `none` if the thread has to
wait. -/
def runFrame (c : Core) : Frame → Option (Core × List Frame)
  | .check q kind waitList (w :: ws) blocking =>
    if (c.event w).status < 0 then some (c, [])
    else some (c, [.check q kind waitList ws blocking])
  | .check q kind waitList [] blocking =>
    some (newEvent c kind (some q) waitList queued false, [.construct c.numEvents false blocking])
  | .construct e failed blocking =>
    match (c.event e).unregistered with
    | w :: _ =>
      if (c.event w).status = complete then some (nextWait c e, [.construct e failed blocking])
      else if (c.event w).status < 0 then some (nextWait c e, [.construct e true blocking])
      else some (addDependentEvent (nextWait c e) w e, [.construct e failed blocking])
    | [] =>
      some (c.setEvent e { c.event e with built := true },
        (if failed then [.setStatus e errorInWaitList] else []) ++ [.queueEvent e blocking])
  | .queueEvent e blocking =>
    match (c.event e).parent with
    | some q =>
      some ({ c.setQueue q { c.queue q with events := (c.queue q).events ++ [e] } with
        queuedLog := c.queuedLog ++ [e] },
        .push q none false :: if blocking then [.wait e] else [])
    | none => none
  | .setStatus e status =>
    let n := (c.event e).dependents.length
    some (setStatusHelper c e status,
      if status = complete ∧ ((c.event e).kind = .user ∨ (c.event e).parent.isSome) then
        [.notify e 0 n false]
      else if status < 0 then [.fail e 0 n]
      else [])
  | .notify e i n pushed =>
    if i < n then notifyStep c e i n pushed
    else
      match (c.event e).parent with
      | some q => some (c, if pushed then [] else [.push q none true])
      | none => some (c, [])
  | .fail e i n =>
    if i < n then failStep c e i n
    else
      match (c.event e).parent with
      | some q => some (c, [.push q none true])
      | none => some (c, [])
  | .push q ready oneCompleted =>
    let r := pushEventsOnDevice c q ready oneCompleted
    some (r.1, match r.2 with
      | some e => [.setStatus e complete, .release e]
      | none => [])
  | .clean q => some (cleanEvents c q, [])
  | .release _ => some (c, [])
  | .begin e => some (setStatusHelper c e running, [.execute e])
  | .execute e => some ({ c with executing := e :: c.executing }, [])
  | .wait e => if (c.event e).status ≤ complete then some (c, [.release e]) else none
  | .waitEmpty q => if (c.queue q).events = [] then some (c, []) else none

/-- What can happen next. -/
inductive Action where
  /-- `clCreateUserEvent`. -/
  | createUserEvent
  /-- An enqueue call with a wait list. -/
  | enqueue (q : ℕ) (kind : Kind) (waitList : List ℕ) (blocking : Bool)
  /-- `clSetUserEventStatus`, which checks the status of the event before it sets it. -/
  | setUserEventStatus (e : ℕ) (status : ℤ)
  /-- `CommandQueue::flush`. -/
  | flush (q : ℕ)
  /-- `CommandQueue::finish`. -/
  | finish (q : ℕ)
  /-- A worker takes the first event of its device. -/
  | dispatch (dev : ℕ)
  /-- A device is done with a command. -/
  | endCommand (e : ℕ) (status : ℤ)
  /-- A thread runs its next critical section. -/
  | thread (t : ℕ)
  /-- An enqueue call is given up after the registration of its event. -/
  | giveUp (t : ℕ)
  deriving DecidableEq, Repr

/-- The machine with a new thread. -/
def State.spawn (s : State) (frames : List Frame) : State :=
  { s with threads := s.threads ++ [frames] }

/-- One step of the machine. -/
def step (s : State) : Action → Option State
  | .createUserEvent =>
    some { s with toCore := newEvent s.toCore .user none [] submitted true }
  | .enqueue q kind waitList blocking =>
    if kind ≠ .user ∧ ∀ w ∈ waitList, w < s.numEvents ∧ (s.event w).built = true then
      some (s.spawn [.check q kind waitList waitList blocking])
    else none
  | .setUserEventStatus e status =>
    if e < s.numEvents ∧ (s.event e).kind = .user ∧ status ≤ complete ∧
        (s.event e).status = submitted then
      some (s.spawn [.setStatus e status])
    else none
  | .flush q => some (s.spawn [.push q none false])
  | .finish q => some (s.spawn [.clean q, .waitEmpty q])
  | .dispatch dev =>
    match s.device dev with
    | e :: es =>
      some ({ s with device := Function.update s.device dev es }.spawn [.begin e])
    | [] => none
  | .endCommand e status =>
    if e ∈ s.executing ∧ status ≤ complete then
      some ({ s with executing := s.executing.erase e, ended := e :: s.ended }.spawn
        [.setStatus e status])
    else none
  | .thread t =>
    match s.threads[t]? with
    | some (f :: _) =>
      (runFrame s.toCore f).map fun r => ⟨r.1, advance s.threads t r.2⟩
    | _ => none
  | .giveUp t =>
    match s.threads[t]? with
    | some (.queueEvent _ _ :: _) => some { s with threads := advance s.threads t [] }
    | _ => none

/-- The machine before the first call, with the properties and the devices of the queues. -/
def init (outOfOrder : ℕ → Bool) (device : ℕ → ℕ) : State where
  event := fun _ => ⟨.user, none, [], [], submitted, [], [], false⟩
  numEvents := 0
  queue := fun q => ⟨outOfOrder q, device q, [], 0, 0⟩
  device := fun _ => []
  executing := []
  started := []
  finished := []
  ended := []
  queuedLog := []
  threads := []

end TiOpenCL.CommandQueue
