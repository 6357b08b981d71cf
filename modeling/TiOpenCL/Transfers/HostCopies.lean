import TiOpenCL.Library.Machine
import Mathlib.Data.List.Induction

/-!
# Copied host data

A buffer with `CL_MEM_COPY_HOST_PTR` in a context with several devices keeps a private copy of the data of
the client, from which the buffers of the devices are initialised when they are first used.  Devices with
the same shared memory handler share one device buffer, and sub-buffers use those of their parent.  The copy
is there whenever a device buffer is initialised.  It is freed with the last device buffer if no device
rejects the buffer and no two devices share a handler, and never otherwise (`copiesExact_iff`).
-/

namespace TiOpenCL

namespace HostCopies

open Machine

/-! ### Memory objects -/

/-- The flags about the pointer of the client; the constructor refuses objects with both. -/
inductive HostFlag where
  | neither
  | useHostPtr
  | copyHostPtr
  deriving DecidableEq, Repr

/-- What `p_host_ptr` points to. -/
inductive HostPtr where
  | null
  | client
  /-- The block that `init` allocates. -/
  | copy
  deriving DecidableEq, Repr

/-- A device of the context. -/
structure Device (σ : Type*) where
  /-- `GetSHMHandler`; a processor of the host has the null handler. -/
  shm : σ
  /-- `createDeviceBuffer` reports an error. -/
  rejects : Bool
  deriving DecidableEq

/-- `DeviceBuffer`. -/
structure DeviceBuffer (σ : Type*) where
  /-- `GetSHMHandler`. -/
  shm : σ
  /-- `allocated`. -/
  allocated : Bool
  deriving DecidableEq

/-- What happens to the data of the client. -/
inductive Occurrence where
  /-- A device buffer is initialised from the block at the pointer. -/
  | initialised (src : HostPtr)
  /-- The block at the pointer is freed. -/
  | freed (ptr : HostPtr)
  deriving DecidableEq, Repr

/-- The block is freed. -/
def Occurrence.isFreed : Occurrence → Bool
  | .freed _ => true
  | .initialised _ => false

/-- `MemObject`, for a buffer or an image of positive size; sub-buffers have no copies. -/
structure MemObject (σ : Type*) where
  /-- `p_flags`. -/
  flag : HostFlag
  /-- `p_host_ptr`. -/
  hostPtr : HostPtr
  /-- `p_num_devices`. -/
  numDevices : ℕ
  /-- `p_devices_to_allocate`. -/
  devicesToAllocate : ℕ
  /-- `p_devicebuffers`. -/
  deviceBuffers : List (Option (DeviceBuffer σ))
  /-- What has happened. -/
  log : List Occurrence
  deriving DecidableEq

section Operations

variable {σ : Type*} [DecidableEq σ]

/-- `deviceBuffer`: the first place of a device buffer with the handler. -/
def deviceBuffer (table : List (Option (DeviceBuffer σ))) (shm : σ) : Option ℕ :=
  table.findIdx? fun slot => slot.any fun b => b.shm = shm

/-- `deviceAllocated`. -/
def MemObject.deviceAllocated (m : MemObject σ) : MemObject σ :=
  let left := m.devicesToAllocate - 1
  if left = 0 ∧ 1 < m.numDevices ∧ m.flag = .copyHostPtr then
    { m with devicesToAllocate := left, hostPtr := .null, log := m.log ++ [.freed m.hostPtr] }
  else { m with devicesToAllocate := left }

/-- The device buffer at a place of the table. -/
def MemObject.bufferAt (m : MemObject σ) (i : ℕ) : Option (DeviceBuffer σ) := m.deviceBuffers.getD i none

/-- A device buffer initialises itself. -/
def MemObject.initialise (m : MemObject σ) : MemObject σ :=
  if m.flag = .copyHostPtr then { m with log := m.log ++ [.initialised m.hostPtr] } else m

/-- `DSPBuffer::allocate` and `CPUBuffer::allocate`; `memory` tells whether there is enough. -/
def MemObject.allocateBuffer (m : MemObject σ) (i : ℕ) (memory : Bool) : MemObject σ × Bool :=
  match m.bufferAt i with
  | none => (m, false)
  | some b =>
    if b.allocated || memory then
      let m := { m with deviceBuffers := m.deviceBuffers.set i (some { b with allocated := true }) }
      (m.initialise.deviceAllocated, true)
    else (m, false)

/-- The device buffer at a place, allocated if it is not. -/
def MemObject.ensure (m : MemObject σ) (i : ℕ) (memory : Bool) : MemObject σ × Bool :=
  if (m.bufferAt i).any DeviceBuffer.allocated then (m, true) else m.allocateBuffer i memory

/-- `MemObject::allocate`; `none` if there is no device buffer, whose pointer the code follows. -/
def MemObject.allocate (m : MemObject σ) (shm : σ) (memory : Bool) : Option (MemObject σ × Bool) :=
  (deviceBuffer m.deviceBuffers shm).map fun i => m.ensure i memory

/-- `SubBuffer::allocate`, for a sub-buffer of the object. -/
def MemObject.subBufferAllocate (m : MemObject σ) (shm : σ) (memory : Bool) :
    Option (MemObject σ × Bool) :=
  m.allocate shm memory

/-- `DSPBuffer::data`, for a sub-buffer of the object. -/
def MemObject.subBufferData (m : MemObject σ) (shm : σ) (memory : Bool) : MemObject σ × Bool :=
  match deviceBuffer m.deviceBuffers shm with
  | none => (m, false)
  | some i => m.ensure i memory

/-! ### Construction -/

/-- What the loop of `init` keeps. -/
structure Creation (σ : Type*) where
  /-- The places that are filled. -/
  deviceBuffers : List (Option (DeviceBuffer σ))
  /-- `failed_devices`. -/
  failedDevices : ℕ
  /-- `rs` is an error. -/
  rejected : Bool

/-- The start of the loop. -/
def Creation.start : Creation σ := ⟨[], 0, false⟩

/-- A pass of the loop. -/
def Creation.next (flag : HostFlag) (c : Creation σ) (d : Device σ) : Creation σ :=
  if (deviceBuffer c.deviceBuffers d.shm).isSome then ⟨c.deviceBuffers ++ [none], c.failedDevices, false⟩
  else if d.rejects then ⟨c.deviceBuffers ++ [none], c.failedDevices + 1, true⟩
  else ⟨c.deviceBuffers ++ [some ⟨d.shm, flag = .useHostPtr⟩], c.failedDevices, false⟩

/-- `p_host_ptr` after `init`. -/
def initialHostPtr (flag : HostFlag) (numDevices : ℕ) : HostPtr :=
  match flag with
  | .neither => .null
  | .useHostPtr => .client
  | .copyHostPtr => if 1 < numDevices then .copy else .client

/-- `init`; `none` if it reports an error. -/
def init (flag : HostFlag) (devices : List (Device σ)) (memory : Bool) : Option (MemObject σ) :=
  let n := devices.length
  let c := devices.foldl (Creation.next flag) Creation.start
  let m : MemObject σ := ⟨flag, initialHostPtr flag n, n, n, c.deviceBuffers, []⟩
  -- the block for the copy
  if 1 < n ∧ flag = .copyHostPtr ∧ memory = false then none
  else if c.failedDevices = n then if c.rejected then none else some m
  -- a single device has its buffer at once
  else if n = 1 then
    let allocation := m.allocateBuffer 0 memory
    if allocation.2 then some allocation.1 else none
  else some m

/-! ### Uses -/

/-- A use of the object on a device of the context. -/
inductive Action where
  | allocate (device : ℕ) (memory : Bool)
  | subBufferAllocate (device : ℕ) (memory : Bool)
  | subBufferData (device : ℕ) (memory : Bool)
  deriving DecidableEq

/-- The object after a use. -/
def step (devices : List (Device σ)) (m : MemObject σ) : Action → Option (MemObject σ)
  | .allocate i memory => devices[i]?.bind fun d => (m.allocate d.shm memory).map Prod.fst
  | .subBufferAllocate i memory =>
    devices[i]?.bind fun d => (m.subBufferAllocate d.shm memory).map Prod.fst
  | .subBufferData i memory => devices[i]?.map fun d => (m.subBufferData d.shm memory).1

/-- All device buffers are allocated. -/
def MemObject.allAllocated (m : MemObject σ) : Bool :=
  m.deviceBuffers.all fun slot => slot.all DeviceBuffer.allocated

/-- How often blocks were freed. -/
def MemObject.frees (m : MemObject σ) : ℕ := m.log.countP Occurrence.isFreed

/-- Device buffers are initialised from the copy, before it is freed. -/
def Present (log : List Occurrence) : Prop :=
  ∀ before after src, log = before ++ .initialised src :: after →
    src = .copy ∧ before.countP Occurrence.isFreed = 0

/-- The copy lives exactly as long as it is needed. -/
structure MemObject.CopyExact (m : MemObject σ) : Prop where
  /-- It is there when a device buffer is initialised from it. -/
  present : Present m.log
  /-- Nothing but the copy is freed. -/
  freed : ∀ ptr, .freed ptr ∈ m.log → ptr = .copy
  /-- It is freed once, with the last device buffer. -/
  once : m.frees = if m.allAllocated then 1 else 0

/-- Every device accepts the buffer, and no two of them share a handler. -/
def Separate (devices : List (Device σ)) : Prop :=
  (∀ d ∈ devices, d.rejects = false) ∧ (devices.map Device.shm).Nodup

/-- If a copy is made, it lives exactly as long as it is needed, whatever the uses. -/
def CopiesExact (devices : List (Device σ)) : Prop :=
  ∀ memory m₀, init .copyHostPtr devices memory = some m₀ → m₀.hostPtr = .copy →
    ∀ as m, run (step devices) m₀ as = some m → m.CopyExact

end Operations

/-! ### The table of device buffers -/

section Table

variable {σ : Type*}

/-- The device buffers of a table have different handlers. -/
def Distinct (table : List (Option (DeviceBuffer σ))) : Prop :=
  ∀ (i j : ℕ) (b b' : DeviceBuffer σ), table[i]? = some (some b) → table[j]? = some (some b') →
    b.shm = b'.shm → i = j

/-- An element of a list with one more element is an old one or the last. -/
lemma getElem?_concat_cases {α : Type*} {l : List α} {a x : α} {i : ℕ} (h : (l ++ [a])[i]? = some x) :
    l[i]? = some x ∨ i = l.length ∧ x = a := by
  rw [List.getElem?_append] at h
  split at h
  · exact Or.inl h
  · rename_i hle
    obtain ⟨hlt, rfl⟩ := List.getElem?_eq_some_iff.mp h
    have hi : i = l.length := by simp at hlt; omega
    exact Or.inr ⟨hi, by simp⟩

/-- An element of a list stays where it is when one is appended. -/
lemma getElem?_concat_of {α : Type*} {l : List α} {a x : α} {i : ℕ} (h : l[i]? = some x) :
    (l ++ [a])[i]? = some x := by
  rw [List.getElem?_append_left (List.getElem?_eq_some_iff.mp h).1, h]

/-- An empty place changes nothing. -/
lemma Distinct.concat_none {table : List (Option (DeviceBuffer σ))} (hd : Distinct table) :
    Distinct (table ++ [none]) := by
  intro i j b b' hi hj hshm
  have hold : ∀ {k : ℕ} {c : DeviceBuffer σ}, (table ++ [none])[k]? = some (some c) →
      table[k]? = some (some c) := by
    intro k c hk
    rcases getElem?_concat_cases hk with hk | ⟨-, hnone⟩
    · exact hk
    · cases hnone
  exact hd i j b b' (hold hi) (hold hj) hshm

/-- A device buffer whose handler was not found keeps the handlers different. -/
lemma Distinct.concat_some {table : List (Option (DeviceBuffer σ))} (hd : Distinct table)
    {b : DeviceBuffer σ} (h : ∀ b', some b' ∈ table → b'.shm ≠ b.shm) : Distinct (table ++ [some b]) := by
  intro i j c c' hi hj hshm
  rcases getElem?_concat_cases hi with hold | ⟨hilast, hc⟩ <;>
    rcases getElem?_concat_cases hj with hold' | ⟨hjlast, hc'⟩
  · exact hd i j c c' hold hold' hshm
  · obtain rfl : c' = b := Option.some.inj hc'
    exact absurd hshm (h c (List.mem_of_getElem? hold))
  · obtain rfl : c = b := Option.some.inj hc
    exact absurd hshm.symm (h c' (List.mem_of_getElem? hold'))
  · exact hilast.trans hjlast.symm

/-! ### The loop of the construction -/

/-- What the loop has made of the devices so far. -/
structure Creation.Ok (devices : List (Device σ)) (c : Creation σ) : Prop where
  /-- A place for each device. -/
  length : c.deviceBuffers.length = devices.length
  /-- No device buffer is allocated. -/
  fresh : ∀ b, some b ∈ c.deviceBuffers → b.allocated = false
  /-- The handlers are different. -/
  distinct : Distinct c.deviceBuffers
  /-- A device buffer is at the place of a device that accepts, with its handler. -/
  belongs : ∀ (i : ℕ) (b : DeviceBuffer σ), c.deviceBuffers[i]? = some (some b) →
    ∃ d : Device σ, devices[i]? = some d ∧ d.shm = b.shm ∧ d.rejects = false
  /-- A device that accepts has a device buffer. -/
  served : ∀ d ∈ devices, d.rejects = false → ∃ b, some b ∈ c.deviceBuffers ∧ b.shm = d.shm
  /-- There are no more failures than devices. -/
  failed_le : c.failedDevices ≤ devices.length
  /-- All devices fail if all reject. -/
  failed_iff : c.failedDevices = devices.length ↔ ∀ d ∈ devices, d.rejects = true
  /-- The status is that of the last device. -/
  rejected : (∀ d ∈ devices, d.rejects = true) → devices ≠ [] → c.rejected = true
  /-- Every device has its own device buffer if all accept and have different handlers. -/
  full : none ∉ c.deviceBuffers ↔ Separate devices

/-- The loop starts well. -/
lemma Creation.Ok.start : Creation.Ok [] (Creation.start : Creation σ) where
  length := rfl
  fresh := by simp [Creation.start]
  distinct := by simp [Creation.start, Distinct]
  belongs := by simp [Creation.start]
  served := by simp
  failed_le := le_rfl
  failed_iff := by simp [Creation.start]
  rejected := by simp
  full := by simp [Creation.start, Separate]

/-- A place without a device buffer was passed, for a device whose handler is in use or that rejects. -/
lemma Creation.Ok.concat_none {devices : List (Device σ)} {c : Creation σ} (hc : c.Ok devices)
    {d : Device σ} {failed : ℕ} {rs : Bool}
    (hserved : d.rejects = false → ∃ b, some b ∈ c.deviceBuffers ∧ b.shm = d.shm)
    (hle : failed ≤ devices.length + 1)
    (hfailed : failed = devices.length + 1 ↔ (∀ e ∈ devices, e.rejects = true) ∧ d.rejects = true)
    (hrs : (∀ e ∈ devices, e.rejects = true) → d.rejects = true → rs = true) :
    Creation.Ok (devices ++ [d]) ⟨c.deviceBuffers ++ [none], failed, rs⟩ where
  length := by simp [hc.length]
  fresh := by
    intro b hb
    have hold : some b ∈ c.deviceBuffers := by simpa using hb
    exact hc.fresh b hold
  distinct := hc.distinct.concat_none
  belongs := by
    intro i b hb
    rcases getElem?_concat_cases hb with hold | ⟨-, hnone⟩
    · obtain ⟨e, he, hrest⟩ := hc.belongs i b hold
      exact ⟨e, getElem?_concat_of he, hrest⟩
    · cases hnone
  served := by
    intro e he haccepts
    rcases List.mem_append.mp he with he | he
    · obtain ⟨b, hb, hshm⟩ := hc.served e he haccepts
      exact ⟨b, List.mem_append_left _ hb, hshm⟩
    · obtain rfl := List.mem_singleton.mp he
      obtain ⟨b, hb, hshm⟩ := hserved haccepts
      exact ⟨b, List.mem_append_left _ hb, hshm⟩
  failed_le := by simpa using hle
  failed_iff := by simpa [or_imp, forall_and] using hfailed
  rejected := by
    intro hall _
    exact hrs (fun e he => hall e (List.mem_append_left _ he)) (hall d (by simp))
  full := by
    constructor
    · intro h
      exact absurd (List.mem_append_right _ (List.mem_singleton.mpr rfl)) h
    · rintro ⟨haccept, hnodup⟩
      exfalso
      obtain ⟨b, hb, hshm⟩ := hserved (haccept d (by simp))
      obtain ⟨i, hi⟩ := List.mem_iff_getElem?.mp hb
      obtain ⟨e, he, heshm, -⟩ := hc.belongs i b hi
      rw [List.map_append, List.nodup_append] at hnodup
      exact hnodup.2.2 e.shm (List.mem_map_of_mem (List.mem_of_getElem? he)) d.shm (by simp)
        (heshm.trans hshm)

/-- A device buffer was made, for a device that accepts and whose handler was not in use. -/
lemma Creation.Ok.concat_some {devices : List (Device σ)} {c : Creation σ} (hc : c.Ok devices)
    {d : Device σ} (haccepts : d.rejects = false) (hnew : ∀ b, some b ∈ c.deviceBuffers → b.shm ≠ d.shm) :
    Creation.Ok (devices ++ [d]) ⟨c.deviceBuffers ++ [some ⟨d.shm, false⟩], c.failedDevices, false⟩ where
  length := by simp [hc.length]
  fresh := by
    intro b hb
    rcases List.mem_append.mp hb with hb | hb
    · exact hc.fresh b hb
    · obtain rfl : b = ⟨d.shm, false⟩ := Option.some.inj (List.mem_singleton.mp hb)
      rfl
  distinct := hc.distinct.concat_some hnew
  belongs := by
    intro i b hb
    rcases getElem?_concat_cases hb with hold | ⟨rfl, hlast⟩
    · obtain ⟨e, he, hrest⟩ := hc.belongs i b hold
      exact ⟨e, getElem?_concat_of he, hrest⟩
    · obtain rfl : b = ⟨d.shm, false⟩ := Option.some.inj hlast
      exact ⟨d, by simp [hc.length], rfl, haccepts⟩
  served := by
    intro e he haccepts'
    rcases List.mem_append.mp he with he | he
    · obtain ⟨b, hb, hshm⟩ := hc.served e he haccepts'
      exact ⟨b, List.mem_append_left _ hb, hshm⟩
    · obtain rfl := List.mem_singleton.mp he
      exact ⟨⟨e.shm, false⟩, by simp, rfl⟩
  failed_le := by
    have := hc.failed_le
    simp only [List.length_append, List.length_singleton]
    omega
  failed_iff := by
    have := hc.failed_le
    simp only [List.length_append, List.length_singleton]
    constructor
    · intro h
      omega
    · intro h
      exact absurd (h d (by simp)) (by simp [haccepts])
  rejected := by
    intro hall _
    exact absurd (hall d (by simp)) (by simp [haccepts])
  full := by
    have hmem : none ∉ c.deviceBuffers ++ [some ⟨d.shm, false⟩] ↔ none ∉ c.deviceBuffers := by simp
    rw [hmem, hc.full]
    constructor
    · rintro ⟨haccept, hnodup⟩
      refine ⟨by simpa [or_imp, forall_and, haccepts] using haccept, ?_⟩
      rw [List.map_append, List.nodup_append]
      refine ⟨hnodup, by simp, ?_⟩
      intro a ha b hb hab
      obtain ⟨e, he, rfl⟩ := List.mem_map.mp ha
      obtain rfl : b = d.shm := by simpa using hb
      obtain ⟨b', hb', hshm⟩ := hc.served e he (haccept e he)
      exact hnew b' hb' (hshm.trans hab)
    · rintro ⟨haccept, hnodup⟩
      rw [List.map_append, List.nodup_append] at hnodup
      exact ⟨fun e he => haccept e (List.mem_append_left _ he), hnodup.1⟩

variable [DecidableEq σ]

/-- A device buffer that is found has the handler. -/
lemma exists_of_deviceBuffer {table : List (Option (DeviceBuffer σ))} {shm : σ} {i : ℕ}
    (h : deviceBuffer table shm = some i) : ∃ b, table[i]? = some (some b) ∧ b.shm = shm := by
  obtain ⟨hi, hany, -⟩ := List.findIdx?_eq_some_iff_getElem.mp h
  obtain ⟨b, hb, hshm⟩ := (Option.any_eq_true _ _).mp hany
  exact ⟨b, by rw [List.getElem?_eq_getElem hi, hb], of_decide_eq_true hshm⟩

/-- A device buffer is found if there is one with the handler. -/
lemma deviceBuffer_isSome_iff {table : List (Option (DeviceBuffer σ))} {shm : σ} :
    (deviceBuffer table shm).isSome ↔ ∃ b, some b ∈ table ∧ b.shm = shm := by
  rw [deviceBuffer, List.findIdx?_isSome, List.any_eq_true]
  constructor
  · rintro ⟨slot, hmem, hany⟩
    obtain ⟨b, rfl, hshm⟩ := (Option.any_eq_true _ _).mp hany
    exact ⟨b, hmem, of_decide_eq_true hshm⟩
  · rintro ⟨b, hmem, hshm⟩
    exact ⟨some b, hmem, by simp [hshm]⟩

/-- The place of a device buffer is found by its handler. -/
lemma Distinct.deviceBuffer_eq {table : List (Option (DeviceBuffer σ))} (hd : Distinct table) {i : ℕ}
    {b : DeviceBuffer σ} (h : table[i]? = some (some b)) : deviceBuffer table b.shm = some i := by
  have hfound : (deviceBuffer table b.shm).isSome :=
    deviceBuffer_isSome_iff.mpr ⟨b, List.mem_of_getElem? h, rfl⟩
  obtain ⟨j, hj⟩ := Option.isSome_iff_exists.mp hfound
  obtain ⟨b', hb', hshm⟩ := exists_of_deviceBuffer hj
  rw [hj, hd j i b' b hb' h hshm]

/-- A pass of the loop. -/
lemma Creation.Ok.next {devices : List (Device σ)} {c : Creation σ} (hc : c.Ok devices) (d : Device σ) :
    (c.next .copyHostPtr d).Ok (devices ++ [d]) := by
  rw [Creation.next]
  split_ifs with hfound hrejects
  · obtain ⟨b, hb, hshm⟩ := deviceBuffer_isSome_iff.mp hfound
    obtain ⟨i, hi⟩ := List.mem_iff_getElem?.mp hb
    obtain ⟨e, he, -, haccepts⟩ := hc.belongs i b hi
    have hnot : ¬ ∀ e ∈ devices, e.rejects = true := by
      intro hall
      exact absurd (hall e (List.mem_of_getElem? he)) (by simp [haccepts])
    have hle := hc.failed_le
    refine hc.concat_none (fun _ => ⟨b, hb, hshm⟩) (by omega) ?_ fun hall => absurd hall hnot
    exact ⟨fun h => by omega, fun h => absurd h.1 hnot⟩
  · have hle := hc.failed_le
    refine hc.concat_none (fun h => absurd hrejects (by simp [h])) (by omega) ?_ fun _ _ => rfl
    rw [Nat.add_right_cancel_iff, hc.failed_iff]
    exact ⟨fun h => ⟨h, hrejects⟩, And.left⟩
  · refine hc.concat_some (by simpa using hrejects) fun b hb hshm => ?_
    exact hfound (deviceBuffer_isSome_iff.mpr ⟨b, hb, hshm⟩)

/-- The whole loop. -/
lemma Creation.ok_foldl (devices : List (Device σ)) :
    (devices.foldl (Creation.next .copyHostPtr) Creation.start).Ok devices := by
  induction devices using List.reverseRecOn with
  | nil => exact Creation.Ok.start
  | append_singleton devices d ih =>
    rw [List.foldl_append]
    exact ih.next d

end Table

/-! ### The log -/

/-- Where an element of a list with one more element stands. -/
lemma split_concat {α : Type*} {l before after : List α} {x y : α}
    (h : l ++ [y] = before ++ x :: after) :
    (∃ rest, l = before ++ x :: rest) ∨ x = y ∧ l = before := by
  rcases List.eq_nil_or_concat after with rfl | ⟨rest, z, rfl⟩
  · obtain ⟨hl, hy⟩ := List.append_inj' h rfl
    exact Or.inr ⟨(List.cons.inj hy).1.symm, hl⟩
  · have hcons : l ++ [y] = (before ++ x :: rest) ++ [z] := by simpa using h
    exact Or.inl ⟨rest, (List.append_inj' hcons rfl).1⟩

/-- A device buffer is initialised from the copy. -/
lemma Present.concat_initialised {log : List Occurrence} (h : Present log)
    (hfrees : log.countP Occurrence.isFreed = 0) : Present (log ++ [.initialised .copy]) := by
  intro before after src hsplit
  rcases split_concat hsplit with ⟨rest, hold⟩ | ⟨hsrc, rfl⟩
  · exact h before rest src hold
  · exact ⟨Occurrence.initialised.inj hsrc, hfrees⟩

/-- A block is freed. -/
lemma Present.concat_freed {log : List Occurrence} (h : Present log) (ptr : HostPtr) :
    Present (log ++ [.freed ptr]) := by
  intro before after src hsplit
  rcases split_concat hsplit with ⟨rest, hold⟩ | ⟨hsrc, -⟩
  · exact h before rest src hold
  · cases hsrc

/-! ### Allocation -/

section Allocation

variable {σ : Type*}

/-- The number of device buffers that are allocated. -/
def MemObject.allocatedCount (m : MemObject σ) : ℕ :=
  m.deviceBuffers.countP fun slot => slot.any DeviceBuffer.allocated

/-- The object after the device buffer at a place was allocated, with `left` ones to allocate. -/
def MemObject.filled (m : MemObject σ) (i : ℕ) (b : DeviceBuffer σ) (left : ℕ) : MemObject σ :=
  { m with
    hostPtr := if left = 0 then .null else .copy
    devicesToAllocate := left
    deviceBuffers := m.deviceBuffers.set i (some { b with allocated := true })
    log := if left = 0 then m.log ++ [.initialised .copy] ++ [.freed .copy]
      else m.log ++ [.initialised .copy] }

/-- An object with a copy of the data: the copy is freed when the countdown ends. -/
structure MemObject.Copying (devices : List (Device σ)) (m : MemObject σ) : Prop where
  /-- The flag asks for copies. -/
  flag : m.flag = .copyHostPtr
  /-- There are several devices. -/
  several : 1 < m.numDevices
  /-- There is a place for each. -/
  length : m.deviceBuffers.length = m.numDevices
  /-- Handlers are different. -/
  distinct : Distinct m.deviceBuffers
  /-- A device buffer is at the place of its device. -/
  belongs : ∀ (i : ℕ) (b : DeviceBuffer σ), m.deviceBuffers[i]? = some (some b) →
    ∃ d : Device σ, devices[i]? = some d ∧ d.shm = b.shm
  /-- No place is empty if all devices accept and have different handlers. -/
  full : none ∉ m.deviceBuffers ↔ Separate devices
  /-- The countdown is by the device buffers that are allocated. -/
  countdown : m.devicesToAllocate + m.allocatedCount = m.numDevices
  /-- The object has the copy until the countdown ends. -/
  hostPtr : m.hostPtr = if m.devicesToAllocate = 0 then .null else .copy
  /-- The copy is freed when the countdown ends. -/
  frees : m.frees = if m.devicesToAllocate = 0 then 1 else 0
  /-- Nothing else is freed. -/
  freed : ∀ ptr, .freed ptr ∈ m.log → ptr = .copy
  /-- The copy is there when it is needed. -/
  present : Present m.log

variable {devices : List (Device σ)} {m : MemObject σ} {i : ℕ} {b : DeviceBuffer σ}

/-- While a device buffer is to be allocated, the countdown goes on. -/
lemma MemObject.Copying.exists_left (hm : m.Copying devices) (hi : m.deviceBuffers[i]? = some (some b))
    (hb : b.allocated = false) : ∃ left, m.devicesToAllocate = left + 1 := by
  have hne : m.allocatedCount ≠ m.deviceBuffers.length := by
    intro hall
    have hslot := List.countP_eq_length.mp hall (some b) (List.mem_of_getElem? hi)
    simp [hb] at hslot
  have hle : m.allocatedCount ≤ m.deviceBuffers.length := List.countP_le_length
  have hcount := hm.countdown
  have hlength := hm.length
  exact ⟨m.devicesToAllocate - 1, by omega⟩

/-- One more device buffer is allocated. -/
lemma allocatedCount_filled (hi : m.deviceBuffers[i]? = some (some b)) (hb : b.allocated = false)
    (left : ℕ) : (m.filled i b left).allocatedCount = m.allocatedCount + 1 := by
  obtain ⟨hlt, hget⟩ := List.getElem?_eq_some_iff.mp hi
  simp only [MemObject.allocatedCount, MemObject.filled]
  rw [List.countP_set hlt, hget]
  simp [hb]

/-- The device buffers keep their places and handlers. -/
lemma getElem?_filled (hi : m.deviceBuffers[i]? = some (some b)) {left j : ℕ} {c : DeviceBuffer σ}
    (hj : (m.filled i b left).deviceBuffers[j]? = some (some c)) :
    ∃ c', m.deviceBuffers[j]? = some (some c') ∧ c'.shm = c.shm := by
  by_cases hij : i = j
  · subst hij
    have hlt := (List.getElem?_eq_some_iff.mp hi).1
    rw [MemObject.filled, List.getElem?_set_self hlt] at hj
    obtain rfl := Option.some.inj (Option.some.inj hj)
    exact ⟨b, hi, rfl⟩
  · rw [MemObject.filled, List.getElem?_set_ne hij] at hj
    exact ⟨c, hj, rfl⟩

/-- Empty places stay empty. -/
lemma none_mem_filled (hi : m.deviceBuffers[i]? = some (some b)) (left : ℕ) :
    none ∈ (m.filled i b left).deviceBuffers ↔ none ∈ m.deviceBuffers := by
  have hlt := (List.getElem?_eq_some_iff.mp hi).1
  simp only [List.mem_iff_getElem?, MemObject.filled]
  refine exists_congr fun j => ?_
  by_cases hij : i = j
  · subst hij
    rw [List.getElem?_set_self hlt, hi]
    simp
  · rw [List.getElem?_set_ne hij]

/-- A device buffer is allocated: one step of the countdown. -/
lemma MemObject.Copying.filled (hm : m.Copying devices) (hi : m.deviceBuffers[i]? = some (some b))
    (hb : b.allocated = false) {left : ℕ} (hleft : m.devicesToAllocate = left + 1) :
    (m.filled i b left).Copying devices := by
  have hfrees : m.log.countP Occurrence.isFreed = 0 := by
    have := hm.frees
    rw [if_neg (by omega)] at this
    exact this
  refine ⟨hm.flag, hm.several, ?_, ?_, ?_, ?_, ?_, rfl, ?_, ?_, ?_⟩
  · simpa [MemObject.filled] using hm.length
  · intro j k c c' hj hk hshm
    obtain ⟨e, he, heshm⟩ := getElem?_filled hi hj
    obtain ⟨e', he', heshm'⟩ := getElem?_filled hi hk
    exact hm.distinct j k e e' he he' (by rw [heshm, heshm', hshm])
  · intro j c hj
    obtain ⟨e, he, heshm⟩ := getElem?_filled hi hj
    obtain ⟨d, hd, hshm⟩ := hm.belongs j e he
    exact ⟨d, hd, hshm.trans heshm⟩
  · rw [none_mem_filled hi]
    exact hm.full
  · have hcount := hm.countdown
    rw [allocatedCount_filled hi hb]
    simp only [MemObject.filled]
    omega
  · simp only [MemObject.frees, MemObject.filled]
    split_ifs with hzero <;> simp [hfrees, Occurrence.isFreed, hzero]
  · intro ptr hmem
    have hcases : .freed ptr ∈ m.log ∨ ptr = .copy := by
      simp only [MemObject.filled] at hmem
      split_ifs at hmem
      · simpa using hmem
      · exact Or.inl (by simpa using hmem)
    exact hcases.elim (hm.freed ptr) id
  · have hpresent := hm.present.concat_initialised hfrees
    simp only [MemObject.filled]
    split_ifs
    · exact hpresent.concat_freed .copy
    · exact hpresent

/-- The allocation of a device buffer. -/
lemma MemObject.Copying.allocateBuffer_eq (hm : m.Copying devices)
    (hi : m.deviceBuffers[i]? = some (some b)) {left : ℕ} (hleft : m.devicesToAllocate = left + 1) :
    m.allocateBuffer i true = (m.filled i b left, true) := by
  have hbuf : m.bufferAt i = some b := by rw [MemObject.bufferAt, List.getD_eq_getElem?_getD, hi]; rfl
  have hptr : m.hostPtr = .copy := by rw [hm.hostPtr, if_neg (by omega)]
  rw [MemObject.allocateBuffer, hbuf]
  simp only [Bool.or_true, if_true, MemObject.initialise, hm.flag, MemObject.deviceAllocated, hleft,
    Nat.add_sub_cancel, hm.several, and_true, MemObject.filled, hptr]
  split_ifs <;> rfl

/-- Ensuring a device buffer changes nothing or allocates it. -/
lemma MemObject.Copying.ensure_cases (hm : m.Copying devices) {i : ℕ} {b : DeviceBuffer σ}
    (hi : m.deviceBuffers[i]? = some (some b)) (memory : Bool) :
    (m.ensure i memory).1 = m ∨ b.allocated = false ∧
      ∃ left, m.devicesToAllocate = left + 1 ∧ (m.ensure i memory).1 = m.filled i b left := by
  have hbuf : m.bufferAt i = some b := by rw [MemObject.bufferAt, List.getD_eq_getElem?_getD, hi]; rfl
  rw [MemObject.ensure, hbuf]
  cases hb : b.allocated with
  | true => exact Or.inl (by simp [hb])
  | false =>
    cases memory with
    | false => exact Or.inl (by simp [hb, MemObject.allocateBuffer, hbuf])
    | true =>
      obtain ⟨left, hleft⟩ := hm.exists_left hi hb
      exact Or.inr ⟨rfl, left, hleft, by simp [hb, hm.allocateBuffer_eq hi hleft]⟩

/-- A device buffer is not allocated if not all are. -/
lemma exists_of_not_allAllocated (h : ¬ m.allAllocated) :
    ∃ (i : ℕ) (b : DeviceBuffer σ), m.deviceBuffers[i]? = some (some b) ∧ b.allocated = false := by
  rw [MemObject.allAllocated, List.all_eq_true] at h
  push Not at h
  obtain ⟨slot, hmem, hslot⟩ := h
  obtain ⟨i, hi⟩ := List.mem_iff_getElem?.mp hmem
  cases slot with
  | none => exact absurd rfl hslot
  | some b => exact ⟨i, b, hi, by simpa using hslot⟩

/-- If no place is empty, the countdown ends with the last device buffer. -/
lemma MemObject.Copying.allAllocated_iff (hm : m.Copying devices) (hfull : none ∉ m.deviceBuffers) :
    m.allAllocated ↔ m.devicesToAllocate = 0 := by
  have hcount := hm.countdown
  have hlength := hm.length
  have hiff : m.allAllocated ↔ m.allocatedCount = m.deviceBuffers.length := by
    rw [MemObject.allAllocated, MemObject.allocatedCount, List.all_eq_true, List.countP_eq_length]
    refine forall₂_congr fun slot hmem => ?_
    cases slot with
    | none => exact absurd hmem hfull
    | some b => simp
  rw [hiff]
  omega

/-- If a place is empty, the countdown does not end. -/
lemma MemObject.Copying.frees_eq_zero (hm : m.Copying devices) (hempty : none ∈ m.deviceBuffers) :
    m.frees = 0 := by
  have hne : m.allocatedCount ≠ m.deviceBuffers.length := by
    intro hall
    have hslot := List.countP_eq_length.mp hall none hempty
    simp at hslot
  have hcount := hm.countdown
  have hlength := hm.length
  have hle : m.allocatedCount ≤ m.deviceBuffers.length := List.countP_le_length
  rw [hm.frees, if_neg (by omega)]

/-- The copy lives as long as needed if no place is empty. -/
lemma MemObject.Copying.exact (hm : m.Copying devices) (hfull : none ∉ m.deviceBuffers) :
    m.CopyExact where
  present := hm.present
  freed := hm.freed
  once := by
    rw [hm.frees]
    simp only [hm.allAllocated_iff hfull]

/-- The pointer of the client is kept or forgotten by an allocation. -/
lemma allocateBuffer_hostPtr (m : MemObject σ) (i : ℕ) (memory : Bool) :
    (m.allocateBuffer i memory).1.hostPtr = m.hostPtr ∨
      (m.allocateBuffer i memory).1.hostPtr = .null := by
  rw [MemObject.allocateBuffer]
  split
  · exact Or.inl rfl
  · simp only [MemObject.initialise, MemObject.deviceAllocated]
    split_ifs <;> simp

end Allocation

/-! ### Runs -/

section Runs

variable {σ : Type*} [DecidableEq σ] {devices : List (Device σ)} {m m' : MemObject σ}

/-- A use changes nothing or ensures the device buffer of its device. -/
lemma step_cases {a : Action} (h : step devices m a = some m') :
    m' = m ∨ ∃ i b memory, m.deviceBuffers[i]? = some (some b) ∧ m' = (m.ensure i memory).1 := by
  have hallocate : ∀ (i : ℕ) (memory : Bool),
      (devices[i]?.bind fun d => (m.allocate d.shm memory).map Prod.fst) = some m' →
      ∃ j b memory, m.deviceBuffers[j]? = some (some b) ∧ m' = (m.ensure j memory).1 := by
    intro i memory hstep
    obtain ⟨d, -, hd⟩ := Option.bind_eq_some_iff.mp hstep
    obtain ⟨result, hresult, rfl⟩ := Option.map_eq_some_iff.mp hd
    obtain ⟨j, hj, rfl⟩ := Option.map_eq_some_iff.mp hresult
    obtain ⟨b, hb, -⟩ := exists_of_deviceBuffer hj
    exact ⟨j, b, memory, hb, rfl⟩
  cases a with
  | allocate i memory => exact Or.inr (hallocate i memory h)
  | subBufferAllocate i memory => exact Or.inr (hallocate i memory h)
  | subBufferData i memory =>
    obtain ⟨d, -, rfl⟩ := Option.map_eq_some_iff.mp h
    rw [MemObject.subBufferData]
    cases hj : deviceBuffer m.deviceBuffers d.shm with
    | none => exact Or.inl rfl
    | some j =>
      obtain ⟨b, hb, -⟩ := exists_of_deviceBuffer hj
      exact Or.inr ⟨j, b, memory, hb, rfl⟩

/-- Every use keeps the countdown right. -/
lemma MemObject.Copying.step {a : Action} (hm : m.Copying devices) (h : step devices m a = some m') :
    m'.Copying devices := by
  rcases step_cases h with rfl | ⟨i, b, memory, hi, rfl⟩
  · exact hm
  · rcases hm.ensure_cases hi memory with hsame | ⟨hb, left, hleft, heq⟩
    · rw [hsame]
      exact hm
    · rw [heq]
      exact hm.filled hi hb hleft

/-- After any uses the countdown is right. -/
lemma MemObject.Copying.run {as : List Action} (hm : m.Copying devices)
    (hrun : run (HostCopies.step devices) m as = some m') : m'.Copying devices :=
  invariant_of_run (fun _ _ _ hI hstep => MemObject.Copying.step hI hstep) hrun hm

/-- A device buffer can be allocated by using the object on its device. -/
lemma MemObject.Copying.step_allocate (hm : m.Copying devices) {i : ℕ} {b : DeviceBuffer σ}
    (hi : m.deviceBuffers[i]? = some (some b)) (hb : b.allocated = false) {left : ℕ}
    (hleft : m.devicesToAllocate = left + 1) :
    HostCopies.step devices m (.allocate i true) = some (m.filled i b left) := by
  obtain ⟨d, hd, hshm⟩ := hm.belongs i b hi
  have hbuf : m.bufferAt i = some b := by rw [MemObject.bufferAt, List.getD_eq_getElem?_getD, hi]; rfl
  simp [HostCopies.step, hd, MemObject.allocate, hshm, hm.distinct.deviceBuffer_eq hi, MemObject.ensure,
    hbuf, hb, hm.allocateBuffer_eq hi hleft]

/-- All device buffers can be allocated. -/
lemma MemObject.Copying.exists_run (hm : m.Copying devices) :
    ∃ as m', Machine.run (HostCopies.step devices) m as = some m' ∧ m'.allAllocated := by
  induction h : m.devicesToAllocate generalizing m with
  | zero =>
    refine ⟨[], m, rfl, ?_⟩
    by_contra hnot
    obtain ⟨i, b, hi, hb⟩ := exists_of_not_allAllocated hnot
    obtain ⟨left, hleft⟩ := hm.exists_left hi hb
    omega
  | succ left ih =>
    by_cases hall : m.allAllocated
    · exact ⟨[], m, rfl, hall⟩
    · obtain ⟨i, b, hi, hb⟩ := exists_of_not_allAllocated hall
      obtain ⟨as, m', hrun, hm'⟩ := ih (hm.filled hi hb h) rfl
      refine ⟨.allocate i true :: as, m', ?_, hm'⟩
      rw [Machine.run, hm.step_allocate hi hb h]
      exact hrun

/-! ### The result -/

/-- The object for several devices. -/
def created (devices : List (Device σ)) : MemObject σ :=
  ⟨.copyHostPtr, .copy, devices.length, devices.length,
    (devices.foldl (Creation.next .copyHostPtr) Creation.start).deviceBuffers, []⟩

/-- The construction for several devices fails without memory or if all devices reject. -/
lemma init_eq (hn : 1 < devices.length) (memory : Bool) :
    init .copyHostPtr devices memory =
      if memory = false ∨ ∀ d ∈ devices, d.rejects = true then none else some (created devices) := by
  have hc := Creation.ok_foldl devices
  have hne : devices ≠ [] := List.ne_nil_of_length_pos (by omega)
  simp only [init, initialHostPtr, hn, if_true, true_and, hc.failed_iff]
  by_cases hmemory : memory = false
  · simp only [hmemory, if_true, true_or]
  by_cases hall : ∀ d ∈ devices, d.rejects = true
  · rw [if_neg hmemory, if_pos hall, if_pos (hc.rejected hall hne), if_pos (Or.inr hall)]
  · rw [if_neg hmemory, if_neg hall, if_neg (by omega), if_neg (by tauto)]
    rfl

/-- At first nothing is allocated and the copy is there. -/
lemma created_copying (hn : 1 < devices.length) : (created devices).Copying devices := by
  have hc := Creation.ok_foldl devices
  have hzero : (created devices).allocatedCount = 0 := by
    rw [MemObject.allocatedCount, List.countP_eq_zero]
    intro slot hmem hany
    obtain ⟨b, rfl, hb⟩ := (Option.any_eq_true _ _).mp hany
    exact absurd hb (by simp [hc.fresh b hmem])
  have hleft : (created devices).devicesToAllocate ≠ 0 := by
    simp only [created]
    omega
  refine ⟨rfl, hn, hc.length, hc.distinct, ?_, hc.full, ?_, ?_, ?_, ?_, ?_⟩
  · intro i b hi
    obtain ⟨d, hd, hshm, -⟩ := hc.belongs i b hi
    exact ⟨d, hd, hshm⟩
  · rw [hzero]
    rfl
  · rw [if_neg hleft]
    rfl
  · rw [if_neg hleft]
    rfl
  · simp [created]
  · intro before after src hsplit
    simp [created] at hsplit

/-- A copy is only made for several devices. -/
lemma several_of_init {memory : Bool} {m₀ : MemObject σ} (h : init .copyHostPtr devices memory = some m₀)
    (hcopy : m₀.hostPtr = .copy) : 1 < devices.length := by
  by_contra hn
  simp only [init, initialHostPtr, hn, if_false, false_and] at h
  split_ifs at h with h₁ h₂ h₃ h₄
  · obtain rfl := Option.some.inj h
    cases hcopy
  · obtain rfl := Option.some.inj h
    rcases allocateBuffer_hostPtr _ _ _ with hptr | hptr <;> rw [hptr] at hcopy <;> cases hcopy
  · obtain rfl := Option.some.inj h
    cases hcopy

/-- **Copies of the client's data live exactly as long as they are needed** if no copy is made, or the object
is refused by all devices, or every device has its own device buffer; in no other context. -/
theorem copiesExact_iff (devices : List (Device σ)) :
    CopiesExact devices ↔
      devices.length ≤ 1 ∨ (∀ d ∈ devices, d.rejects = true) ∨ Separate devices := by
  constructor
  · intro h
    by_contra hno
    push Not at hno
    obtain ⟨hn, ⟨d, hd, haccepts⟩, hshared⟩ := hno
    have hnot : ¬ (true = false ∨ ∀ d ∈ devices, d.rejects = true) := by
      rintro (hmemory | hall)
      · cases hmemory
      · exact haccepts (hall d hd)
    have hinit : init .copyHostPtr devices true = some (created devices) := by
      rw [init_eq hn, if_neg hnot]
    obtain ⟨as, m, hrun, hall⟩ := (created_copying hn).exists_run
    have hm := (created_copying hn).run hrun
    have honce := (h true (created devices) hinit rfl as m hrun).once
    have hempty : none ∈ m.deviceBuffers := by
      by_contra hfull
      exact hshared (hm.full.mp hfull)
    rw [hm.frees_eq_zero hempty, if_pos hall] at honce
    cases honce
  · intro h memory m₀ hinit hcopy as m hrun
    have hn := several_of_init hinit hcopy
    rw [init_eq hn] at hinit
    split_ifs at hinit with hfail
    obtain rfl := Option.some.inj hinit
    have hm := (created_copying hn).run hrun
    rcases h with hle | hall | hseparate
    · omega
    · exact absurd (Or.inr hall) hfail
    · exact hm.exact (hm.full.mpr hseparate)

end Runs

/-- A device and one of its sub-devices use one device buffer: the copy is not freed with it. -/
theorem not_copiesExact : ¬ CopiesExact [(⟨0, false⟩ : Device ℕ), ⟨0, false⟩] := by
  intro h
  have hrun : run (step [(⟨0, false⟩ : Device ℕ), ⟨0, false⟩])
      ⟨.copyHostPtr, .copy, 2, 2, [some ⟨0, false⟩, none], []⟩ [.allocate 0 true, .allocate 1 true] =
      some ⟨.copyHostPtr, .copy, 2, 1, [some ⟨0, true⟩, none], [.initialised .copy]⟩ := by
    decide
  have honce := (h true _ (by decide) rfl _ _ hrun).once
  exact absurd honce (by decide)

end HostCopies

end TiOpenCL
