import TiOpenCL.Protocol.Message

/-!
# What a core does with a kernel or task message

The monitor side of the protocol: which calls of the kernel's entry point a core makes for its copy
of a message, whether it replies, and the reply it builds in place (`respond_to_host`).
-/

namespace TiOpenCL

/-- The build and configuration of the monitors. -/
structure MonitorSetup where
  /-- Built with `OMP_ENABLED`. -/
  ompEnabled : Bool
  /-- Master core of the root device that configured the monitors. -/
  configMasterCore : ℕ
  /-- Number of cores of that device. -/
  configNCores : ℕ

/-- A call of the kernel's entry point. -/
inductive EntryCall
  /-- The call for a workgroup of a range. -/
  | workgroup (gidStart : Vec3)
  /-- The call of a task. -/
  | task
  deriving DecidableEq

/-- What a core does with its copy of a message. -/
structure CoreOutcome where
  /-- The calls of the entry point, in order. -/
  calls : List EntryCall
  /-- Whether the copy is sent back to the host, or else freed. -/
  replies : Bool
  deriving DecidableEq

/-- The values a core puts into a reply. -/
structure ReplyData where
  /-- The bits of `profiling_status`, an `int8_t`. -/
  profilingStatus : ℕ
  /-- `profiling_counter0_val`. -/
  profilingCounter0 : ℕ
  /-- `profiling_counter1_val`. -/
  profilingCounter1 : ℕ
  /-- The bits of `command_retcode`, an `int`. -/
  commandRetcode : ℕ

namespace Monitor

/-- `ocl_service_omp` for one message.  Only the master calls the entry point and replies; the other
cores help the OpenMP runtime and free their copy.  A message of another device than the one that
configured the monitors makes the task use a null message, which has no result here. -/
def oclServiceOmp (mon : MonitorSetup) (core : ℕ) (msg : Msg) : Option CoreOutcome :=
  if mon.configMasterCore ≠ msg.masterCore ∨ mon.configNCores ≠ msg.numCores then none
  else if core = msg.masterCore then some ⟨[.task], true⟩
  else some ⟨[], false⟩

/-- `process_task_command`. -/
def processTaskCommand (mon : MonitorSetup) (core : ℕ) (msg : Msg) : Option CoreOutcome :=
  let isInorder : Bool := msg.globalSize dim0 == inOrderTaskSize
  if mon.ompEnabled && isInorder && msg.fromSubDevice == 0 then oclServiceOmp mon core msg
  else if !mon.ompEnabled && isInorder && core != msg.masterCore then some ⟨[], true⟩
  else some ⟨[.task], true⟩

/-- The case of the main loop for a task or a kernel.  After the workgroups of a kernel
`process_cache_command` replies.  Without enough fuel for the workgroups there is no result. -/
def processMessage (mon : MonitorSetup) (core : ℕ) (returns : Workgroup → Bool) (fuel : ℕ)
    (msg : Msg) : Option CoreOutcome :=
  match msg.command with
  | .task => processTaskCommand mon core msg
  | .ndrKernel =>
    (processKernelCommand msg.ndrCommand core returns fuel).map fun wgs =>
      ⟨wgs.map fun wg => .workgroup wg.gidStart, true⟩
  | _ => none

/-- Whether a core sends its copy of a message back: for a kernel `process_cache_command` always
does. -/
def coreReplies (mon : MonitorSetup) (core : ℕ) (msg : Msg) : Bool :=
  match msg.command with
  | .task => (processTaskCommand mon core msg).any CoreOutcome.replies
  | .ndrKernel => true
  | _ => false

/-- A core that gets to the end of its command replies as `coreReplies` says. -/
lemma coreReplies_eq {mon : MonitorSetup} {core fuel : ℕ} {returns : Workgroup → Bool} {msg : Msg}
    {o : CoreOutcome} (h : processMessage mon core returns fuel msg = some o) :
    coreReplies mon core msg = o.replies := by
  unfold processMessage at h
  unfold coreReplies
  split at h
  · rw [h]
    rfl
  · obtain ⟨wgs, -, rfl⟩ := Option.map_eq_some_iff.mp h
    rfl
  · simp at h

/-- `respond_to_host`: the message with the return code, and with the profiling data when an event
type is set. -/
def respondToHost (msg : Msg) (msgId : ℕ) (data : ReplyData) : Msg :=
  let profiling : List Store :=
    if 1 ≤ msg.eventType ∧ msg.eventType ≤ 2 then
      [⟨1, retcodeOffset 1, data.profilingStatus⟩, ⟨4, retcodeOffset 2, data.profilingCounter0⟩,
        ⟨4, retcodeOffset 3, data.profilingCounter1⟩]
    else []
  { msg with
    transId := msgId
    u := storeAll msg.u (profiling ++ [⟨4, retcodeOffset 0, data.commandRetcode⟩]) }

/-- A reply carries the return code of the core. -/
lemma respondToHost_retcode (msg : Msg) (msgId : ℕ) {data : ReplyData}
    (h : data.commandRetcode < 2 ^ 32) :
    (respondToHost msg msgId data).retcode = sint 32 data.commandRetcode := by
  have hread : readWord (respondToHost msg msgId data).u 4 (retcodeOffset 0) =
      data.commandRetcode := by
    unfold respondToHost
    simp only [storeAll, List.foldl_append, List.foldl_cons, List.foldl_nil]
    exact readWord_writeWord_self _ h
  rw [Msg.retcode, hread]

end Monitor

end TiOpenCL
