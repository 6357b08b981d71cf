import Mathlib.Data.List.FinRange
import Mathlib.Data.List.Nodup
import TiOpenCL.Library.LineCopies

/-!
# The channels of the EDMA engine

A core keeps a pool of EDMA channels for the copies of kernels (`edma.c`).  A copy waits for the transfer
of the event that it is given or takes a channel of the pool, and is made by `memcpy` if it gets none.  The
channels belong to `EdmaMgr`, which is not part of the repository: what is allocated and what is still
pending there is what the calls of it say (`allocated`, `pending`).

`n` is `EDMA_MGR_MAX_NUM_CHANNELS`, which is different for each device.
-/

namespace TiOpenCL

namespace Edma

open LineCopies

/-- The memory of the core and the shared memory. -/
inductive Space where
  | localMem
  | globalMem
  deriving DecidableEq, Repr

/-- `void *`. -/
abbrev Address := Ptr Space 32

/-- The contents of the memories. -/
abbrev Contents := Memory Space 32 (BitVec 8)

/-- `STARTUP_NUM_OF_EDMA_CHANNELS`. -/
def startupNumOfEdmaChannels : ℕ := 4

/-- `MEMCPY_THRESHOLD`. -/
def memcpyThreshold : BitVec 32 := 0x800#32

/-- `EDMA_PITCH_LIMIT`. -/
def edmaPitchLimit : ℤ := 32767

/-- `copy_event_status`. -/
inductive CopyEventStatus where
  | notAllocated
  | available
  | inUse
  | memcpy
  deriving DecidableEq, Repr

/-- `copy_event`; a channel that is `NULL` is `none`. -/
structure CopyEvent (Handle : Type) where
  status : CopyEventStatus
  channel : Option Handle
  deriving DecidableEq

/-- `copy_event *`: an entry of `edma_channel_pool[DNUM]` or `&memcpy_event`. -/
inductive EventPtr (n : ℕ) where
  | pool (i : Fin n)
  | memcpyEvent
  deriving DecidableEq

/-- The pool of a device with 16 channels has a first entry. -/
scoped instance neZero_sixteen : NeZero 16 := ⟨by decide⟩

variable {n : ℕ} {Handle : Type}

/-! ### Calls of the channel manager -/

/-- A call of `EdmaMgr`, with what it returned or what it was given. -/
inductive Call (Handle : Type) where
  | alloc (channel : Option Handle)
  | free (channel : Option Handle)
  | wait (channel : Option Handle)
  | copy1D1D (channel : Option Handle) (src dst : Address) (numBytes : BitVec 32)
  | copy1D2D (channel : Option Handle) (src dst : Address) (numBytes numLines pitch : BitVec 32)
  | copy2D1D (channel : Option Handle) (src dst : Address) (numBytes numLines pitch : BitVec 32)

/-- The channel that a call uses. -/
def Call.uses : Call Handle → Option Handle
  | .alloc _ => none
  | .free h | .wait h | .copy1D1D h _ _ _ | .copy1D2D h _ _ _ _ _ | .copy2D1D h _ _ _ _ _ => h

/-- The channels that are allocated after some calls, the latest one first: `numPaRams` is not zero. -/
def allocated [DecidableEq Handle] : List (Call Handle) → List Handle
  | [] => []
  | .alloc (some h) :: calls => h :: allocated calls
  | .free (some h) :: calls => (allocated calls).filter (· ≠ h)
  | _ :: calls => allocated calls

/-- The channels with a transfer on the fly after some calls: `xferPending`. -/
def pending [DecidableEq Handle] : List (Call Handle) → List Handle
  | [] => []
  | .free (some h) :: calls | .wait (some h) :: calls => (pending calls).filter (· ≠ h)
  | .copy1D1D (some h) _ _ _ :: calls | .copy1D2D (some h) _ _ _ _ _ :: calls
  | .copy2D1D (some h) _ _ _ _ _ :: calls => h :: pending calls
  | _ :: calls => pending calls

/-- No call used a channel that was not allocated. -/
def UsesAllocated [DecidableEq Handle] : List (Call Handle) → Prop
  | [] => True
  | c :: calls => (∀ h, c.uses = some h → h ∈ allocated calls) ∧ UsesAllocated calls

/-- The stride that the engine is given: its field has 16 bits and a sign. -/
def enginePitch (pitch : BitVec 32) : BitVec 32 := (pitch.setWidth 16).signExtend 32

/-- What a call does to the memories; a transfer is complete when it is waited for. -/
def Call.contents (m : Contents) : Call Handle → Contents
  | .copy1D1D _ src dst numBytes => copyLine m dst src numBytes.toNat
  | .copy1D2D _ src dst numBytes numLines pitch =>
    copyLines m dst src numBytes.toNat (enginePitch pitch) numBytes numLines.toNat
  | .copy2D1D _ src dst numBytes numLines pitch =>
    copyLines m dst src numBytes.toNat numBytes (enginePitch pitch) numLines.toNat
  | _ => m

/-! ### The state of a core -/

/-- What a core knows about its channels. -/
structure Core (n : ℕ) (Handle : Type) where
  /-- `edma_channel_pool[DNUM]`. -/
  pool : Fin n → CopyEvent Handle
  /-- `available_edma_channel`. -/
  available : Option (Fin n)
  /-- `intra_kernel_edma_channels[DNUM]`, up to `num_intra_kernel_edma_channels`. -/
  intra : List Handle
  /-- The calls of `EdmaMgr`, the latest one first. -/
  calls : List (Call Handle)
  /-- The memories. -/
  contents : Contents

namespace Core

/-- A call of `EdmaMgr` is made. -/
def issue (s : Core n Handle) (c : Call Handle) : Core n Handle :=
  { s with calls := c :: s.calls, contents := c.contents s.contents }

/-- An entry of the pool is written. -/
def setSlot (s : Core n Handle) (i : Fin n) (e : CopyEvent Handle) : Core n Handle :=
  { s with pool := Function.update s.pool i e }

/-- The entry that is written. -/
lemma setSlot_self (s : Core n Handle) (i : Fin n) (e : CopyEvent Handle) : (s.setSlot i e).pool i = e :=
  Function.update_self _ _ _

/-- The other entries. -/
lemma setSlot_of_ne (s : Core n Handle) {i j : Fin n} (h : j ≠ i) (e : CopyEvent Handle) :
    (s.setSlot i e).pool j = s.pool j :=
  Function.update_of_ne h _ _

/-- `edma_channel_pool[DNUM][i].status = status`. -/
def setStatus (s : Core n Handle) (i : Fin n) (status : CopyEventStatus) : Core n Handle :=
  s.setSlot i { s.pool i with status := status }

/-- `edma_channel_pool[DNUM][i].channel = channel`. -/
def setChannel (s : Core n Handle) (i : Fin n) (channel : Option Handle) : Core n Handle :=
  s.setSlot i { s.pool i with channel := channel }

/-- `event->status`. -/
def status (s : Core n Handle) : EventPtr n → CopyEventStatus
  | .pool i => (s.pool i).status
  | .memcpyEvent => .memcpy

/-- `event->channel`. -/
def channel (s : Core n Handle) : EventPtr n → Option Handle
  | .pool i => (s.pool i).channel
  | .memcpyEvent => none

/-! ### The pool -/

/-- A step of the loops of `initialize_edma_channel_pool`; `none` if there is no channel. -/
def initializeSlot (answers : Fin n → Option Handle) (s : Core n Handle) (i : Fin n) :
    Option (Core n Handle) :=
  if i.val < startupNumOfEdmaChannels then
    (answers i).map fun h => (s.issue (.alloc (some h))).setSlot i ⟨.available, some h⟩
  else some (s.setSlot i ⟨.notAllocated, none⟩)

/-- `initialize_edma_channel_pool`, where `EdmaMgr_alloc` returns `answers`. -/
def initializeEdmaChannelPool [NeZero n] (answers : Fin n → Option Handle) (contents : Contents) :
    Option (Core n Handle) :=
  ((List.finRange n).foldlM (initializeSlot answers)
    ⟨fun _ => ⟨.notAllocated, none⟩, none, [], [], contents⟩).map
      fun s => { s with available := some 0 }

/-- The first entry of the pool that is not in use. -/
def findSlot (s : Core n Handle) : Option (Fin n) :=
  (List.finRange n).find? fun i => (s.pool i).status ≠ .inUse

/-- `get_edma_channel`, where `EdmaMgr_alloc` returns `answer`. -/
def getEdmaChannel (s : Core n Handle) (answer : Option Handle) : Core n Handle × Option (Fin n) :=
  match s.available with
  | some i => ({ s.setStatus i .inUse with available := none }, some i)
  | none =>
    match s.findSlot with
    | none => (s, none)
    | some i =>
      if (s.pool i).status = .notAllocated then
        let s := (s.issue (.alloc answer)).setChannel i answer
        if answer = none then (s, none) else (s.setStatus i .inUse, some i)
      else (s.setStatus i .inUse, some i)

/-! ### Copies -/

/-- `memcpy` of lines, one after the other. -/
def memcpyLines (s : Core n Handle) (dst src : Address) (bytes numLines dstStride srcStride : BitVec 32) :
    Core n Handle :=
  { s with contents := copyLines s.contents dst src bytes.toNat dstStride srcStride numLines.toNat }

/-- The first part of a copy: wait for the transfer of the event or take a channel, if the size warrants
it. -/
def acquire (s : Core n Handle) (event : Option (EventPtr n)) (warranted : Bool) (answer : Option Handle) :
    Core n Handle × Option (EventPtr n) :=
  match event.filter (fun e => s.status e ≠ .memcpy) with
  | some e => (s.issue (.wait (s.channel e)), some e)
  | none =>
    if warranted then ((s.getEdmaChannel answer).1, (s.getEdmaChannel answer).2.map .pool)
    else (s, event)

/-- The second part: the transfer of the engine or the copy of the processor. -/
def transfer (s : Core n Handle) (event : Option (EventPtr n)) (warranted : Bool)
    (edma : Option Handle → Call Handle) (memcpy : Core n Handle → Core n Handle) :
    Core n Handle × EventPtr n :=
  match event with
  | some e => if warranted then (s.issue (edma (s.channel e)), e) else (memcpy s, e)
  | none => (memcpy s, .memcpyEvent)

/-- A copy. -/
def copyWith (s : Core n Handle) (event : Option (EventPtr n)) (warranted : Bool)
    (edma : Option Handle → Call Handle) (memcpy : Core n Handle → Core n Handle) (answer : Option Handle) :
    Core n Handle × EventPtr n :=
  (s.acquire event warranted answer).1.transfer (s.acquire event warranted answer).2 warranted edma memcpy

/-- `__copy_1D1D`. -/
def copy1D1D (s : Core n Handle) (event : Option (EventPtr n)) (dst src : Address) (bytes : BitVec 32)
    (answer : Option Handle) : Core n Handle × EventPtr n :=
  s.copyWith event (decide (memcpyThreshold < bytes)) (fun h => .copy1D1D h src dst bytes)
    (fun s => { s with contents := copyLine s.contents dst src bytes.toNat }) answer

/-- `__copy_1D2D`; the offset `i * bytes * pitch` of a line is a word of 32 bits. -/
def copy1D2D (s : Core n Handle) (event : Option (EventPtr n)) (dst src : Address)
    (bytes numLines pitch : BitVec 32) (answer : Option Handle) : Core n Handle × EventPtr n :=
  s.copyWith event (decide (pitch.toInt < edmaPitchLimit))
    (fun h => .copy1D2D h src dst bytes numLines (bytes * pitch))
    (fun s => s.memcpyLines dst src bytes numLines (bytes * pitch) bytes) answer

/-- `__copy_2D1D`. -/
def copy2D1D (s : Core n Handle) (event : Option (EventPtr n)) (dst src : Address)
    (bytes numLines pitch : BitVec 32) (answer : Option Handle) : Core n Handle × EventPtr n :=
  s.copyWith event (decide (pitch.toInt < edmaPitchLimit))
    (fun h => .copy2D1D h src dst bytes numLines (bytes * pitch))
    (fun s => s.memcpyLines dst src bytes numLines bytes (bytes * pitch)) answer

/-- `__copy_wait`. -/
def copyWait (s : Core n Handle) (event : Option (EventPtr n)) : Core n Handle :=
  match event with
  | none | some .memcpyEvent => s
  | some (.pool i) =>
    if (s.pool i).status = .memcpy then s
    else { (s.issue (.wait (s.pool i).channel)).setStatus i .available with available := some i }

/-! ### Freeing channels -/

/-- A step of the loop of `free_edma_channel_pool`. -/
def freeSlot (s : Core n Handle) (i : Fin n) : Core n Handle :=
  if (s.pool i).status ≠ .notAllocated then
    (s.issue (.free (s.pool i).channel)).setStatus i .notAllocated
  else s

/-- `free_edma_channel_pool`. -/
def freeEdmaChannelPool (s : Core n Handle) : Core n Handle :=
  (List.finRange n).foldl freeSlot { s with available := none }

/-- `reset_intra_kernel_edma_channels`. -/
def resetIntraKernelEdmaChannels (s : Core n Handle) : Core n Handle := { s with intra := [] }

/-- A step of the first loop of `wait_and_free_edma_channels`. -/
def waitSlot (s : Core n Handle) (i : Fin n) : Core n Handle :=
  if (s.pool i).status = .inUse then s.copyWait (some (.pool i)) else s

/-- A step of the second loop. -/
def waitPending [DecidableEq Handle] (s : Core n Handle) (h : Handle) : Core n Handle :=
  if h ∈ allocated s.calls ∧ h ∈ pending s.calls then s.issue (.wait (some h)) else s

/-- A step of the third loop. -/
def freeIntra [DecidableEq Handle] (s : Core n Handle) (h : Handle) : Core n Handle :=
  if h ∈ allocated s.calls then s.issue (.free (some h)) else s

/-- `wait_and_free_edma_channels`, where `channels` is `EdmaMgr_channels`. -/
def waitAndFreeEdmaChannels [DecidableEq Handle] (channels : List Handle) (s : Core n Handle) :
    Core n Handle :=
  let s := (List.finRange n).foldl waitSlot s
  let s := channels.foldl waitPending s
  let s := s.intra.foldl freeIntra s
  { s with intra := [] }

/-- `__ocl_EdmaMgr_alloc_intrakernel`; the last entry of the table is not used. -/
def allocIntrakernel (s : Core n Handle) (answer : Option Handle) : Core n Handle :=
  let s := s.issue (.alloc answer)
  match answer with
  | some h => if s.intra.length < n - 1 then { s with intra := s.intra ++ [h] } else s
  | none => s

/-- `__ocl_EdmaMgr_free`. -/
def free (s : Core n Handle) (h : Handle) : Core n Handle := s.issue (.free (some h))

end Core

end Edma

end TiOpenCL
