import TiOpenCL.Library.ByteLayout
import TiOpenCL.Monitor.Workgroups

/-!
# Messages between the host and the monitors

The union of `Msg_t` as bytes.  The configuration of a kernel, the kernel description and the return
code of a command are structs laid over the same bytes; their offsets follow from the field lists by
the layout rules.  `kernelMessage` is what the constructor of `DSPKernelEvent` and
`init_kernel_runtime_variables` write before a kernel is sent.
-/

namespace TiOpenCL

/-- `command_codes`. -/
inductive CommandCode
  | exit
  | task
  | ndrKernel
  | cacheInv
  | frequency
  | print
  | configureMonitor
  | setupDebug
  deriving DecidableEq

/-! ### The structs of the union -/

/-- `kernel_config_t`. -/
def kernelConfigFields : List Field :=
  [intField 4, arrayField 3 (intField 4), arrayField 3 (intField 4), arrayField 3 (intField 4),
    arrayField 3 (intField 4), intField 4, intField 4, intField 4, intField 4, intField 4]

/-- `flush_msg_t`. -/
def flushMsgFields : List Field := [intField 4, intField 4, arrayField 14 (intField 4)]

/-- `profiling_t`. -/
def profilingFields : List Field := [intField 4, intField 1, intField 1, intField 1]

/-- `kernel_msg_t`. -/
def kernelMsgFields : List Field :=
  [intField 4, intField 4, intField 4, intField 4, arrayField 20 (intField 4), intField 4,
    intField 4, intField 4, structField profilingFields, intField 1, intField 1, intField 1]

/-- The struct of a kernel message: configuration, kernel and cache operations. -/
def kernelUnionFields : List Field :=
  [structField kernelConfigFields, structField kernelMsgFields, structField flushMsgFields]

/-- `command_retcode_t`. -/
def commandRetcodeFields : List Field := [intField 4, intField 1, intField 4, intField 4]

/-- The offset of a field of the configuration in the union. -/
def configOffset (i : ℕ) : ℕ := offsetOf kernelUnionFields 0 + offsetOf kernelConfigFields i

/-- The offset of a field of the kernel description in the union. -/
def kernelOffset (i : ℕ) : ℕ := offsetOf kernelUnionFields 1 + offsetOf kernelMsgFields i

/-- The offset of a profiling field of the kernel description in the union. -/
def profilingOffset (i : ℕ) : ℕ := kernelOffset 8 + offsetOf profilingFields i

/-- The offset of a field of the return code in the union. -/
def retcodeOffset (i : ℕ) : ℕ := offsetOf commandRetcodeFields i

-- the profiling status of a reply lies over the first global size of its request
example : retcodeOffset 1 = configOffset 1 := by decide

/-- The value of `global_size[0]` in an in-order task. -/
def inOrderTaskSize : ℕ := 1

/-- The value of `global_size[0]` in an out-of-order task. -/
def outOfOrderTaskSize : ℕ := inOrderTaskSize + 1

/-- The value of `WG_gid_start[0]` that asks for normal mode. -/
def normalModeWGGidStart : ℕ := 0

/-- `CL_SUCCESS`. -/
def clSuccess : ℤ := 0

/-- The part of `Msg_t` that the protocol uses. -/
structure Msg where
  /-- What the message asks for. -/
  command : CommandCode
  /-- The id a reply carries. -/
  transId : ℕ
  /-- The bytes of the union. -/
  u : Bytes

namespace Msg

/-- `u.k.config.num_dims`. -/
def numDims (msg : Msg) : ℕ := readWord msg.u 4 (configOffset 0)

/-- `u.k.config.global_size`. -/
def globalSize (msg : Msg) : Vec3 := fun i => readWord msg.u 4 (configOffset 1 + 4 * i)

/-- `u.k.config.local_size`. -/
def localSize (msg : Msg) : Vec3 := fun i => readWord msg.u 4 (configOffset 2 + 4 * i)

/-- `u.k.config.global_offset`. -/
def globalOffset (msg : Msg) : Vec3 := fun i => readWord msg.u 4 (configOffset 3 + 4 * i)

/-- `u.k.config.WG_gid_start`. -/
def WGGidStart (msg : Msg) : Vec3 := fun i => readWord msg.u 4 (configOffset 4 + 4 * i)

/-- `u.k.kernel.Kernel_id`. -/
def kernelId (msg : Msg) : ℕ := readWord msg.u 4 (kernelOffset 0)

/-- `u.k.kernel.profiling.event_type`, an `int8_t`. -/
def eventType (msg : Msg) : ℤ := sint 8 (readWord msg.u 1 (profilingOffset 1))

/-- `u.k.kernel.from_sub_device`. -/
def fromSubDevice (msg : Msg) : ℕ := readWord msg.u 1 (kernelOffset 9)

/-- `u.k.kernel.num_cores`. -/
def numCores (msg : Msg) : ℕ := readWord msg.u 1 (kernelOffset 10)

/-- `u.k.kernel.master_core`. -/
def masterCore (msg : Msg) : ℕ := readWord msg.u 1 (kernelOffset 11)

/-- `u.command_retcode.retcode`, an `int`. -/
def retcode (msg : Msg) : ℤ := sint 32 (readWord msg.u 4 (retcodeOffset 0))

/-- The NDRange command in the message. -/
def ndrCommand (msg : Msg) : NDRCommand where
  config := ⟨msg.numDims, msg.globalSize, msg.localSize, msg.globalOffset, msg.WGGidStart⟩
  numCores := msg.numCores
  masterCore := msg.masterCore

/-- `IS_OOO_TASK`. -/
def IsOooTask (msg : Msg) : Prop := msg.command = .task ∧ msg.globalSize dim0 ≠ inOrderTaskSize

instance (msg : Msg) : Decidable msg.IsOooTask :=
  inferInstanceAs (Decidable (msg.command = .task ∧ msg.globalSize dim0 ≠ inOrderTaskSize))

/-- `IS_DEBUG_MODE`. -/
def IsDebugMode (msg : Msg) : Prop := msg.WGGidStart dim0 = debugModeWGGidStart

instance (msg : Msg) : Decidable msg.IsDebugMode :=
  inferInstanceAs (Decidable (msg.WGGidStart dim0 = debugModeWGGidStart))

end Msg

/-! ### The message of a kernel -/

/-- A root device or a sub-device.  The list of its compute units is consecutive. -/
structure Device where
  /-- The lowest compute unit. -/
  firstCore : ℕ
  /-- The number of compute units. -/
  dspCores : ℕ
  /-- Whether this is a sub-device. -/
  isSubDevice : Bool
  dspCores_pos : 1 ≤ dspCores
  /-- Compute units are numbered by an `uint8_t`. -/
  cores_le : firstCore + dspCores ≤ 2 ^ 8
  /-- The number of compute units is sent in an `uint8_t`. -/
  dspCores_lt : dspCores < 2 ^ 8

/-- The compute units in the order of the set that holds them. -/
def Device.computeUnits (dev : Device) : List ℕ := List.range' dev.firstCore dev.dspCores

/-- What a kernel event asks a device to run. -/
structure KernelEvent where
  /-- The id drawn from the counter of kernel events. -/
  kernelId : ℕ
  /-- Enqueued as a task. -/
  isTask : Bool
  /-- The queue has `CL_QUEUE_OUT_OF_ORDER_EXEC_MODE_ENABLE`. -/
  outOfOrder : Bool
  /-- `TI_OCL_DEBUG` is set. -/
  debug : Bool
  /-- Number of dimensions of the range. -/
  workDim : ℕ
  /-- Number of work items in each dimension. -/
  globalWorkSize : Vec3
  /-- Number of work items of a workgroup in each dimension. -/
  localWorkSize : Vec3
  /-- First global id in each dimension. -/
  globalWorkOffset : Vec3
  /-- The profiling event type, zero when profiling is off. -/
  profilingEventType : ℕ
  /-- The bytes of the message before it is filled in. -/
  u : Bytes

/-- A range of one work item is sent as a task. -/
def KernelEvent.effectiveTask (e : KernelEvent) : Bool :=
  e.isTask || decide (e.globalWorkSize dim0 = 1 ∧ e.globalWorkSize dim1 = 1 ∧ e.globalWorkSize dim2 = 1)

/-- The fields of `kernel_msg_t` set by the constructor of the kernel event, and the mode of
execution. -/
def kernelStores (dev : Device) (e : KernelEvent) : List Store :=
  [⟨4, kernelOffset 0, e.kernelId⟩, ⟨1, kernelOffset 9, if dev.isSubDevice then 1 else 0⟩,
    ⟨1, kernelOffset 10, dev.dspCores⟩, ⟨1, kernelOffset 11, dev.firstCore⟩,
    ⟨1, profilingOffset 1, e.profilingEventType⟩,
    ⟨4, configOffset 4, if e.debug then debugModeWGGidStart else normalModeWGGidStart⟩]

/-- The fields of `kernel_config_t` set for a range. -/
def rangeStores (e : KernelEvent) : List Store :=
  [⟨4, configOffset 0, e.workDim⟩,
    ⟨4, configOffset 1, e.globalWorkSize dim0⟩, ⟨4, configOffset 1 + 4, e.globalWorkSize dim1⟩,
    ⟨4, configOffset 1 + 8, e.globalWorkSize dim2⟩,
    ⟨4, configOffset 2, e.localWorkSize dim0⟩, ⟨4, configOffset 2 + 4, e.localWorkSize dim1⟩,
    ⟨4, configOffset 2 + 8, e.localWorkSize dim2⟩,
    ⟨4, configOffset 3, e.globalWorkOffset dim0⟩, ⟨4, configOffset 3 + 4, e.globalWorkOffset dim1⟩,
    ⟨4, configOffset 3 + 8, e.globalWorkOffset dim2⟩]

/-- The field of `kernel_config_t` set for a task: it tells in-order and out-of-order tasks apart. -/
def taskStores (e : KernelEvent) : List Store :=
  [⟨4, configOffset 1, if e.outOfOrder then outOfOrderTaskSize else inOrderTaskSize⟩]

/-- Everything that is stored into a message before it is sent. -/
def messageStores (dev : Device) (e : KernelEvent) : List Store :=
  kernelStores dev e ++ if e.effectiveTask then taskStores e else rangeStores e

/-- The message of a kernel event, as it is sent. -/
def kernelMessage (dev : Device) (e : KernelEvent) : Msg where
  command := if e.effectiveTask then .task else .ndrKernel
  transId := 0
  u := storeAll e.u (messageStores dev e)

/-! ### Reading the fields back -/

/-- A kernel event whose data fit the fields of the message, with a range that the host accepts. -/
structure KernelEvent.WellFormed (e : KernelEvent) : Prop where
  kernelId_lt : e.kernelId < 2 ^ 32
  eventType_lt : e.profilingEventType < 2 ^ 8
  dims_pos : 1 ≤ e.workDim
  dims_le : e.workDim ≤ 3
  global_pos : ∀ i, 1 ≤ e.globalWorkSize i
  global_lt : ∀ i, e.globalWorkSize i < 2 ^ 32
  local_pos : ∀ i, 1 ≤ e.localWorkSize i
  local_dvd : ∀ i, e.localWorkSize i ∣ e.globalWorkSize i
  offset_lt : ∀ i, e.globalWorkOffset i < 2 ^ 32
  unused : ∀ i : Fin 3, e.workDim ≤ i →
    e.globalWorkSize i = 1 ∧ e.localWorkSize i = 1 ∧ e.globalWorkOffset i = 0

/-- The fields of a message do not overlap. -/
lemma messageStores_apart (dev : Device) (e : KernelEvent) :
    (messageStores dev e).Pairwise Store.Apart := by
  unfold messageStores
  split
  · exact of_decide_eq_true rfl
  · exact of_decide_eq_true rfl

/-- Every field that was stored is read back. -/
lemma readWord_kernelMessage {dev : Device} {e : KernelEvent} {size offset value : ℕ}
    (h : ⟨size, offset, value⟩ ∈ messageStores dev e) (hv : value < 256 ^ size) :
    readWord (kernelMessage dev e).u size offset = value :=
  readWord_storeAll (messageStores_apart dev e) h hv e.u

lemma mem_messageStores_of_kernel {dev : Device} {e : KernelEvent} {s : Store}
    (h : s ∈ kernelStores dev e) : s ∈ messageStores dev e :=
  List.mem_append_left _ h

lemma mem_messageStores_of_range {dev : Device} {e : KernelEvent} {s : Store}
    (he : e.effectiveTask = false) (h : s ∈ rangeStores e) : s ∈ messageStores dev e := by
  unfold messageStores
  rw [he]
  exact List.mem_append_right _ h

section

variable {dev : Device} {e : KernelEvent}

@[simp] lemma kernelMessage_command :
    (kernelMessage dev e).command = if e.effectiveTask then .task else .ndrKernel := rfl

/-- The id of the kernel. -/
lemma kernelMessage_kernelId (dev : Device) (hwf : e.WellFormed) :
    (kernelMessage dev e).kernelId = e.kernelId :=
  readWord_kernelMessage (mem_messageStores_of_kernel (by simp [kernelStores])) hwf.kernelId_lt

/-- The kind of the device. -/
lemma kernelMessage_fromSubDevice :
    (kernelMessage dev e).fromSubDevice = if dev.isSubDevice then 1 else 0 :=
  readWord_kernelMessage (mem_messageStores_of_kernel (by simp [kernelStores]))
    (by split <;> decide)

/-- The number of cores of the device. -/
lemma kernelMessage_numCores : (kernelMessage dev e).numCores = dev.dspCores :=
  readWord_kernelMessage (mem_messageStores_of_kernel (by simp [kernelStores])) dev.dspCores_lt

/-- The first core of the device. -/
lemma kernelMessage_masterCore : (kernelMessage dev e).masterCore = dev.firstCore :=
  readWord_kernelMessage (mem_messageStores_of_kernel (by simp [kernelStores])) (by
    have hpos := dev.dspCores_pos
    have hle := dev.cores_le
    omega)

/-- The profiling event type. -/
lemma kernelMessage_eventType (dev : Device) (hwf : e.WellFormed) :
    (kernelMessage dev e).eventType = sint 8 e.profilingEventType := by
  have hread : readWord (kernelMessage dev e).u 1 (profilingOffset 1) = e.profilingEventType :=
    readWord_kernelMessage (mem_messageStores_of_kernel (by simp [kernelStores])) hwf.eventType_lt
  rw [Msg.eventType, hread]

/-- The mode of execution. -/
lemma kernelMessage_isDebugMode (dev : Device) (e : KernelEvent) :
    (kernelMessage dev e).IsDebugMode ↔ e.debug = true := by
  have hread : (kernelMessage dev e).WGGidStart dim0 =
      if e.debug then debugModeWGGidStart else normalModeWGGidStart :=
    readWord_kernelMessage (mem_messageStores_of_kernel (by simp [kernelStores]))
      (by split <;> decide)
  rw [Msg.IsDebugMode, hread]
  cases e.debug <;> simp [debugModeWGGidStart, normalModeWGGidStart]

/-- The order of a task. -/
lemma kernelMessage_task_globalSize (he : e.effectiveTask = true) :
    (kernelMessage dev e).globalSize dim0 =
      if e.outOfOrder then outOfOrderTaskSize else inOrderTaskSize :=
  readWord_kernelMessage
    (by
      unfold messageStores
      rw [he]
      exact List.mem_append_right _ (by simp [taskStores]))
    (by split <;> decide)

/-- A message is an out-of-order task when its event is one. -/
lemma kernelMessage_isOooTask :
    (kernelMessage dev e).IsOooTask ↔ e.effectiveTask = true ∧ e.outOfOrder = true := by
  unfold Msg.IsOooTask
  by_cases he : e.effectiveTask = true
  · rw [kernelMessage_task_globalSize he, kernelMessage_command, if_pos he]
    cases e.outOfOrder <;> simp [he, outOfOrderTaskSize, inOrderTaskSize]
  · simp [he]

/-- The range of a kernel. -/
lemma kernelMessage_range (dev : Device) (hwf : e.WellFormed) (he : e.effectiveTask = false) :
    (kernelMessage dev e).numDims = e.workDim ∧
      (kernelMessage dev e).globalSize = e.globalWorkSize ∧
      (kernelMessage dev e).localSize = e.localWorkSize ∧
      (kernelMessage dev e).globalOffset = e.globalWorkOffset := by
  have hlocal : ∀ i, e.localWorkSize i < 2 ^ 32 := fun i =>
    (Nat.le_of_dvd (hwf.global_pos i) (hwf.local_dvd i)).trans_lt (hwf.global_lt i)
  have hread : ∀ {size offset value : ℕ}, ⟨size, offset, value⟩ ∈ rangeStores e →
      value < 256 ^ size → readWord (kernelMessage dev e).u size offset = value :=
    fun h hv => readWord_kernelMessage (mem_messageStores_of_range he h) hv
  refine ⟨?_, ?_, ?_, ?_⟩
  · have hle := hwf.dims_le
    exact hread (by simp [rangeStores]) (by omega)
  · funext i
    match i with
    | 0 => exact hread (by simp [rangeStores]) (hwf.global_lt 0)
    | 1 => exact hread (by simp [rangeStores]) (hwf.global_lt 1)
    | 2 => exact hread (by simp [rangeStores]) (hwf.global_lt 2)
  · funext i
    match i with
    | 0 => exact hread (by simp [rangeStores]) (hlocal 0)
    | 1 => exact hread (by simp [rangeStores]) (hlocal 1)
    | 2 => exact hread (by simp [rangeStores]) (hlocal 2)
  · funext i
    match i with
    | 0 => exact hread (by simp [rangeStores]) (hwf.offset_lt 0)
    | 1 => exact hread (by simp [rangeStores]) (hwf.offset_lt 1)
    | 2 => exact hread (by simp [rangeStores]) (hwf.offset_lt 2)

end

end TiOpenCL
