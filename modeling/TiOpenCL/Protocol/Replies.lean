import Mathlib.Algebra.Order.BigOperators.Group.Finset
import TiOpenCL.Monitor.Coverage
import TiOpenCL.Protocol.Exchange

/-!
# Replies of a command

Who runs and who replies is decided by the monitors, the number of replies to wait for by the host.
For each kind of command this module determines the outcome of every recipient
(`exists_outcomes`), and from it when the protocol of an exchange holds.
-/

namespace TiOpenCL

open Exchange Monitor

/-- The work of a command was done exactly once: one call for a task, one call for each workgroup of
a range. -/
def WorkOnce (e : KernelEvent) (calls : List EntryCall) : Prop :=
  if e.effectiveTask then calls = [.task]
  else (calls : Multiset EntryCall) =
    (Fintype.piFinset fun i => Finset.range (e.globalWorkSize i / e.localWorkSize i)).val.map
      fun k => .workgroup fun i => (e.globalWorkOffset i + k i * e.localWorkSize i) % 2 ^ 32

/-- The states of the exchange of a command that was sent to the recipients. -/
def ReachesExchange (dev : Device) (mon : MonitorSetup) (e : KernelEvent)
    (returns : ℕ → Workgroup → Bool) (fuel : ℕ) (recipients : List ℕ) (s : CoreScheduler)
    (x : Exchange) : Prop :=
  Relation.ReflTransGen
    (Step (kernelMessage dev e) dev.computeUnits fun core =>
      processMessage mon core (returns core) fuel (kernelMessage dev e))
    (launched dev (kernelMessage dev e) recipients s) x

/-- Nothing is left to do in the exchange. -/
def EndsExchange (dev : Device) (mon : MonitorSetup) (e : KernelEvent)
    (returns : ℕ → Workgroup → Bool) (fuel : ℕ) (x : Exchange) : Prop :=
  Final (kernelMessage dev e) dev.computeUnits
    (fun core => processMessage mon core (returns core) fuel (kernelMessage dev e)) x

/-- The reply protocol of a command, for every order of the cores and of the replies. -/
structure ReplyProtocol (dev : Device) (mon : MonitorSetup) (e : KernelEvent)
    (returns : ℕ → Workgroup → Bool) (fuel : ℕ) (recipients : List ℕ) (s : CoreScheduler) :
    Prop where
  /-- There is no endless exchange. -/
  ends : WellFounded fun y x => Step (kernelMessage dev e) dev.computeUnits (fun core =>
    processMessage mon core (returns core) fuel (kernelMessage dev e)) x y
  /-- The event is never completed twice. -/
  atMostOnce : ∀ x, ReachesExchange dev mon e returns fuel recipients s x →
    x.completions.statuses.length ≤ 1
  /-- The event is completed only after every core that executes a part has replied. -/
  afterReplies : ∀ x, ReachesExchange dev mon e returns fuel recipients s x →
    x.completions.statuses ≠ [] → ∀ core ∈ recipients, ∀ o,
      processMessage mon core (returns core) fuel (kernelMessage dev e) = some o →
        o.calls ≠ [] → core ∈ x.replied
  /-- In the end the work was done once. -/
  work : ∀ x, ReachesExchange dev mon e returns fuel recipients s x →
    EndsExchange dev mon e returns fuel x → (∀ core wg, returns core wg = true) →
      WorkOnce e x.calls
  /-- In the end there were as many replies as were registered. -/
  replies : ∀ x, ReachesExchange dev mon e returns fuel recipients s x →
    EndsExchange dev mon e returns fuel x →
      x.replied.length = numHostMails dev (kernelMessage dev e)
  /-- In the end the event was completed. -/
  completed : ∀ x, ReachesExchange dev mon e returns fuel recipients s x →
    EndsExchange dev mon e returns fuel x → x.completions.statuses.length = 1

/-- An in-order task on several cores whose copies are not handled by the OpenMP task. -/
def BroadcastTask (dev : Device) (mon : MonitorSetup) (e : KernelEvent) : Prop :=
  e.effectiveTask = true ∧ e.outOfOrder = false ∧ 1 < dev.dspCores ∧
    (mon.ompEnabled = false ∨ dev.isSubDevice = true)

/-- The monitors were configured by the root device. -/
def ConfiguredBy (dev : Device) (mon : MonitorSetup) : Prop :=
  dev.isSubDevice = false →
    mon.configMasterCore = dev.firstCore ∧ mon.configNCores = dev.dspCores

/-! ### The outcome of the recipients -/

/-- What the recipients do with their copies: all that execute a part reply, the replies are as many
as registered unless the command is a broadcast task, and then the work is done once. -/
structure OutcomesOf (dev : Device) (mon : MonitorSetup) (e : KernelEvent)
    (returns : ℕ → Workgroup → Bool) (fuel : ℕ) (recipients : List ℕ) (out : ℕ → CoreOutcome) :
    Prop where
  outcome : ∀ core ∈ recipients,
    processMessage mon core (returns core) fuel (kernelMessage dev e) = some (out core)
  replies : ∀ core ∈ recipients, (out core).calls ≠ [] → (out core).replies = true
  agree : (recipients.filter fun core => (out core).replies).length =
    numHostMails dev (kernelMessage dev e) ↔ ¬ BroadcastTask dev mon e
  work : ¬ BroadcastTask dev mon e → (∀ core wg, returns core wg = true) →
    ∀ calls : List EntryCall, calls.Perm (recipients.flatMap fun core => (out core).calls) →
      WorkOnce e calls

variable {dev : Device} {mon : MonitorSetup} {e : KernelEvent}

/-- The compute units of a device start with the master. -/
lemma computeUnits_eq (dev : Device) :
    dev.computeUnits = dev.firstCore :: List.range' (dev.firstCore + 1) (dev.dspCores - 1) := by
  have hpos := dev.dspCores_pos
  obtain ⟨k, hk⟩ : ∃ k, dev.dspCores = k + 1 := ⟨dev.dspCores - 1, by omega⟩
  rw [Device.computeUnits, hk, List.range'_succ]
  rfl

/-- No compute unit but the first one is the master. -/
lemma ne_firstCore {core : ℕ} (h : core ∈ List.range' (dev.firstCore + 1) (dev.dspCores - 1)) :
    core ≠ dev.firstCore := by
  rw [List.mem_range'_1] at h
  omega

/-- Where only the first compute unit makes a call, a task is called once. -/
lemma flatMap_master {out : ℕ → CoreOutcome} (hmaster : (out dev.firstCore).calls = [.task])
    (hother : ∀ core, core ≠ dev.firstCore → (out core).calls = []) :
    dev.computeUnits.flatMap (fun core => (out core).calls) = [.task] := by
  rw [computeUnits_eq, List.flatMap_cons, hmaster]
  have hnil : (List.range' (dev.firstCore + 1) (dev.dspCores - 1)).flatMap
      (fun core => (out core).calls) = [] :=
    List.flatMap_eq_nil_iff.mpr fun core hcore => hother core (ne_firstCore hcore)
  rw [hnil]
  rfl

/-- The range of a well-formed event is valid. -/
lemma ndrCommand_valid (dev : Device) (hwf : e.WellFormed) (he : e.effectiveTask = false) :
    NDRCommand.Valid (kernelMessage dev e).ndrCommand := by
  obtain ⟨hd, hg, hl, ho⟩ := kernelMessage_range dev hwf he
  have hpos := dev.dspCores_pos
  have hle := dev.cores_le
  refine ⟨⟨?_, ?_, ?_, ?_, ?_, ?_, ?_, ?_, ?_, ?_⟩, ?_⟩
  all_goals simp only [Msg.ndrCommand, hd, hg, hl, ho, kernelMessage_numCores,
    kernelMessage_masterCore]
  · exact hwf.dims_pos
  · exact hwf.dims_le
  · exact hwf.global_lt
  · exact hwf.local_pos
  · exact hwf.local_dvd
  · exact hwf.offset_lt
  · exact hwf.unused
  · exact hpos
  · exact dev.dspCores_lt
  · omega
  · exact hwf.global_pos

/-- The number of replies expected for a task is one. -/
lemma numHostMails_task (he : e.effectiveTask = true) :
    numHostMails dev (kernelMessage dev e) = 1 := by
  simp [numHostMails, he]

/-- The recipients of an out-of-order task. -/
lemma outcomes_outOfOrder (he : e.effectiveTask = true) (ho : e.outOfOrder = true)
    (returns : ℕ → Workgroup → Bool) (fuel core : ℕ) :
    OutcomesOf dev mon e returns fuel [core] fun _ => ⟨[.task], true⟩ where
  outcome c _ := by
    have hsize : (kernelMessage dev e).globalSize dim0 ≠ inOrderTaskSize := by
      rw [kernelMessage_task_globalSize he, ho]
      decide
    simp [processMessage, he, processTaskCommand, hsize]
  replies _ _ _ := rfl
  agree := by
    rw [numHostMails_task he]
    simp [BroadcastTask, ho]
  work _ _ calls hcalls := by
    rw [WorkOnce, if_pos he]
    simpa using hcalls

/-- The recipients of an in-order task that the OpenMP task runs. -/
lemma outcomes_openMP (hroot : ConfiguredBy dev mon) (he : e.effectiveTask = true)
    (ho : e.outOfOrder = false) (homp : mon.ompEnabled = true) (hsub : dev.isSubDevice = false)
    (returns : ℕ → Workgroup → Bool) (fuel : ℕ) :
    OutcomesOf dev mon e returns fuel dev.computeUnits fun core =>
      if core = dev.firstCore then ⟨[.task], true⟩ else ⟨[], false⟩ where
  outcome core _ := by
    have hsize : (kernelMessage dev e).globalSize dim0 = inOrderTaskSize := by
      rw [kernelMessage_task_globalSize he, ho]
      rfl
    obtain ⟨hmaster, hcores⟩ := hroot hsub
    simp only [processMessage, kernelMessage_command, he, if_true, processTaskCommand, hsize,
      kernelMessage_fromSubDevice, hsub, homp, oclServiceOmp, kernelMessage_masterCore,
      kernelMessage_numCores, hmaster, hcores]
    by_cases hcore : core = dev.firstCore <;> simp [hcore]
  replies core _ hcalls := by
    by_cases hcore : core = dev.firstCore
    · simp [hcore]
    · simp [hcore] at hcalls
  agree := by
    rw [numHostMails_task he]
    have hfilter : dev.computeUnits.filter (fun core =>
        (if core = dev.firstCore then (⟨[.task], true⟩ : CoreOutcome) else ⟨[], false⟩).replies) =
        [dev.firstCore] := by
      rw [computeUnits_eq, List.filter_cons_of_pos (by simp)]
      congr 1
      refine List.filter_eq_nil_iff.mpr fun core hcore => ?_
      simp [ne_firstCore hcore]
    rw [hfilter]
    simp [BroadcastTask, homp, hsub]
  work _ _ calls hcalls := by
    rw [WorkOnce, if_pos he]
    rw [flatMap_master (by simp) fun core hcore => by simp [hcore]] at hcalls
    exact List.perm_singleton.mp hcalls

/-- The recipients of an in-order task that every core handles itself. -/
lemma outcomes_broadcast (he : e.effectiveTask = true) (ho : e.outOfOrder = false)
    (hbroad : mon.ompEnabled = false ∨ dev.isSubDevice = true)
    (returns : ℕ → Workgroup → Bool) (fuel : ℕ) :
    OutcomesOf dev mon e returns fuel dev.computeUnits fun core =>
      if mon.ompEnabled = true ∨ core = dev.firstCore then ⟨[.task], true⟩ else ⟨[], true⟩ where
  outcome core _ := by
    have hsize : (kernelMessage dev e).globalSize dim0 = inOrderTaskSize := by
      rw [kernelMessage_task_globalSize he, ho]
      rfl
    simp only [processMessage, kernelMessage_command, he, if_true, processTaskCommand, hsize,
      kernelMessage_fromSubDevice, kernelMessage_masterCore]
    rcases hbroad with homp | hsub
    · by_cases hcore : core = dev.firstCore <;> simp [homp, hcore]
    · cases homp : mon.ompEnabled with
      | true => simp [hsub]
      | false => by_cases hcore : core = dev.firstCore <;> simp [hcore]
  replies core _ _ := by
    split <;> rfl
  agree := by
    rw [numHostMails_task he]
    have hfilter : dev.computeUnits.filter (fun core => (if mon.ompEnabled = true ∨
        core = dev.firstCore then (⟨[.task], true⟩ : CoreOutcome) else ⟨[], true⟩).replies) =
        dev.computeUnits := by
      refine List.filter_eq_self.mpr fun core _ => ?_
      split <;> rfl
    have hpos := dev.dspCores_pos
    rw [hfilter, Device.computeUnits, List.length_range']
    simp only [BroadcastTask, he, ho, hbroad, true_and, and_true]
    omega
  work hnot _ calls hcalls := by
    have hone : dev.dspCores = 1 := by
      have hpos := dev.dspCores_pos
      simp only [BroadcastTask, he, ho, hbroad, true_and, and_true] at hnot
      omega
    rw [WorkOnce, if_pos he]
    rw [Device.computeUnits, hone] at hcalls
    simpa using hcalls

/-- The calls for the workgroups of a range make up its work. -/
lemma workOnce_of_gidStarts (hwf : e.WellFormed) (he : e.effectiveTask = false)
    {gidStarts : List Vec3}
    (h : (gidStarts : Multiset Vec3) = (Fintype.piFinset fun i => Finset.range
      (numWorkgroups (kernelMessage dev e).ndrCommand.config i)).val.map
        (gidStartOf (kernelMessage dev e).ndrCommand.config.globalOffset
          (kernelMessage dev e).ndrCommand.config.localSize))
    {calls : List EntryCall} (hcalls : calls.Perm (gidStarts.map .workgroup)) :
    WorkOnce e calls := by
  obtain ⟨-, hg, hl, ho⟩ := kernelMessage_range dev hwf he
  rw [WorkOnce, he, if_neg (by simp), Multiset.coe_eq_coe.mpr hcalls, ← Multiset.map_coe, h,
    Multiset.map_map]
  simp only [Msg.ndrCommand, numWorkgroups, hg, hl, ho]
  rfl

/-- The recipients of a range in debug mode. -/
lemma exists_outcomes_debug (hwf : e.WellFormed) (he : e.effectiveTask = false)
    (hdebug : e.debug = true) (returns : ℕ → Workgroup → Bool) :
    ∃ fuel₀, ∀ fuel, fuel₀ ≤ fuel → ∃ out,
      OutcomesOf dev mon e returns fuel [dev.firstCore] out := by
  have hmode := kernelMessage_isDebugMode dev e
  obtain ⟨runs, ⟨fuel₀, hruns⟩, hcover⟩ := processKernelCommand_debug
    (ndrCommand_valid dev hwf he) (hmode.mpr hdebug) (returns dev.firstCore)
  refine ⟨fuel₀, fun fuel hfuel => ⟨fun _ => ⟨runs.map fun wg => .workgroup wg.gidStart, true⟩,
    ?_, ?_, ?_, ?_⟩⟩
  · intro core hcore
    rw [List.mem_singleton] at hcore
    have hrun := hruns fuel hfuel
    rw [show (kernelMessage dev e).ndrCommand.masterCore = dev.firstCore from
      kernelMessage_masterCore] at hrun
    simp [processMessage, he, hcore, hrun]
  · exact fun _ _ _ => rfl
  · have hone : numHostMails dev (kernelMessage dev e) = 1 := by
      simp [numHostMails, he, hmode, hdebug]
    rw [hone]
    simp [BroadcastTask, he]
  · intro _ hret calls hcalls
    refine workOnce_of_gidStarts hwf he (hcover fun wg _ => hret _ wg) ?_
    simpa [List.map_map, Function.comp_def] using hcalls

/-- The recipients of a range in normal mode. -/
lemma exists_outcomes_normal (hwf : e.WellFormed) (he : e.effectiveTask = false)
    (hdebug : e.debug = false) (returns : ℕ → Workgroup → Bool) :
    ∃ fuel₀, ∀ fuel, fuel₀ ≤ fuel → ∃ out,
      OutcomesOf dev mon e returns fuel dev.computeUnits out := by
  have hmode : ¬ (kernelMessage dev e).IsDebugMode := by
    rw [kernelMessage_isDebugMode, hdebug]
    simp
  have hmaster : (kernelMessage dev e).ndrCommand.masterCore = dev.firstCore :=
    kernelMessage_masterCore
  have hcores : (kernelMessage dev e).ndrCommand.numCores = dev.dspCores := kernelMessage_numCores
  obtain ⟨runs, hruns, hcover⟩ := processKernelCommand_normal
    (ndrCommand_valid dev hwf he) hmode fun l => returns (dev.firstCore + l)
  rw [hmaster, hcores] at hruns
  rw [hcores] at hcover
  have hfuel : ∀ l, ∃ fuel₀, l < dev.dspCores → ∀ fuel, fuel₀ ≤ fuel → processKernelCommand
      (kernelMessage dev e).ndrCommand (dev.firstCore + l) (returns (dev.firstCore + l)) fuel =
        some (runs l) := by
    intro l
    by_cases hl : l < dev.dspCores
    · obtain ⟨fuel₀, h⟩ := hruns l hl
      exact ⟨fuel₀, fun _ => h⟩
    · exact ⟨0, fun h => absurd h hl⟩
  choose fuelOf hfuelOf using hfuel
  refine ⟨∑ l ∈ Finset.range dev.dspCores, fuelOf l, fun fuel hge =>
    ⟨fun core => ⟨(runs (core - dev.firstCore)).map fun wg => .workgroup wg.gidStart, true⟩,
    ?_, ?_, ?_, ?_⟩⟩
  · intro core hcore
    rw [Device.computeUnits, List.mem_range'_1] at hcore
    obtain ⟨l, rfl⟩ : ∃ l, core = dev.firstCore + l := ⟨core - dev.firstCore, by omega⟩
    have hl : l < dev.dspCores := by omega
    have hle : fuelOf l ≤ fuel :=
      (Finset.single_le_sum (fun _ _ => Nat.zero_le _) (Finset.mem_range.mpr hl)).trans hge
    simp [processMessage, he, hfuelOf l hl fuel hle]
  · exact fun _ _ _ => rfl
  · have hall : numHostMails dev (kernelMessage dev e) = dev.dspCores := by
      simp [numHostMails, he, hmode]
    rw [hall]
    simp [BroadcastTask, he, Device.computeUnits]
  · intro _ hret calls hcalls
    refine workOnce_of_gidStarts hwf he (hcover fun l _ wg _ => hret _ wg) (hcalls.trans ?_)
    rw [Device.computeUnits, List.range'_eq_map_range, List.flatMap_map, List.map_map,
      List.map_flatMap]
    simp [Function.comp_def]

/-- For every command that was sent, the recipients have outcomes. -/
lemma exists_outcomes (hwf : e.WellFormed) (hroot : ConfiguredBy dev mon)
    (returns : ℕ → Workgroup → Bool) {s s' : CoreScheduler} {recipients : List ℕ}
    (hmail : mailTo s (kernelMessage dev e) dev.computeUnits = some (recipients, s')) :
    ∃ fuel₀, ∀ fuel, fuel₀ ≤ fuel → ∃ out,
      OutcomesOf dev mon e returns fuel recipients out := by
  by_cases he : e.effectiveTask = true
  · simp only [mailTo, kernelMessage_command, he, if_true, kernelMessage_isOooTask,
      true_and] at hmail
    by_cases ho : e.outOfOrder = true
    · rw [if_pos ho] at hmail
      obtain ⟨r, -, hr⟩ := Option.map_eq_some_iff.mp hmail
      obtain ⟨rfl, -⟩ := Prod.mk.inj hr
      exact ⟨0, fun fuel _ => ⟨_, outcomes_outOfOrder he ho returns fuel r.1⟩⟩
    · rw [if_neg ho, Option.some.injEq, Prod.mk.injEq] at hmail
      obtain ⟨rfl, -⟩ := hmail
      rw [Bool.not_eq_true] at ho
      by_cases hbroad : mon.ompEnabled = false ∨ dev.isSubDevice = true
      · exact ⟨0, fun fuel _ => ⟨_, outcomes_broadcast he ho hbroad returns fuel⟩⟩
      · rw [not_or, Bool.not_eq_false, Bool.not_eq_true] at hbroad
        exact ⟨0, fun fuel _ => ⟨_, outcomes_openMP hroot he ho hbroad.1 hbroad.2 returns fuel⟩⟩
  · rw [Bool.not_eq_true] at he
    simp only [mailTo, kernelMessage_command, he, Bool.false_eq_true, if_false,
      kernelMessage_isDebugMode, Option.some.injEq, Prod.mk.injEq] at hmail
    obtain ⟨rfl, -⟩ := hmail
    by_cases hdebug : e.debug = true
    · rw [if_pos hdebug, computeUnits_eq]
      exact exists_outcomes_debug hwf he hdebug returns
    · rw [if_neg hdebug]
      rw [Bool.not_eq_true] at hdebug
      exact exists_outcomes_normal hwf he hdebug returns

/-- The number of replies the recipients send is the number registered, unless the command is a
broadcast task. -/
lemma length_filter_coreReplies (hwf : e.WellFormed) (hroot : ConfiguredBy dev mon)
    {s s' : CoreScheduler} {recipients : List ℕ}
    (hmail : mailTo s (kernelMessage dev e) dev.computeUnits = some (recipients, s'))
    (hnot : ¬ BroadcastTask dev mon e) :
    (recipients.filter fun core => coreReplies mon core (kernelMessage dev e)).length =
      numHostMails dev (kernelMessage dev e) := by
  obtain ⟨fuel₀, hout⟩ := exists_outcomes hwf hroot (fun _ _ => true) hmail
  obtain ⟨out, ho⟩ := hout fuel₀ le_rfl
  rw [← ho.agree.mpr hnot]
  congr 1
  exact List.filter_congr fun core hcore => coreReplies_eq (ho.outcome core hcore)

/-! ### When the protocol holds -/

section

variable {returns : ℕ → Workgroup → Bool} {s s' : CoreScheduler} {recipients : List ℕ}

/-- The command of a kernel message is a task or a kernel. -/
lemma kernelMessage_command_cases (dev : Device) (e : KernelEvent) :
    (kernelMessage dev e).command = .task ∨ (kernelMessage dev e).command = .ndrKernel := by
  rw [kernelMessage_command]
  cases e.effectiveTask <;> simp

/-- At least one reply is registered. -/
lemma numHostMails_pos (dev : Device) (msg : Msg) : 1 ≤ numHostMails dev msg := by
  have hpos := dev.dspCores_pos
  unfold numHostMails
  split <;> omega

/-- The number of registered replies fits its type. -/
lemma numHostMails_lt (dev : Device) (msg : Msg) : numHostMails dev msg < 2 ^ 32 := by
  have hlt := dev.dspCores_lt
  unfold numHostMails
  split <;> omega

/-- The invariant of the exchange in every state it reaches. -/
lemma inv_of_reachesExchange (hwf : e.WellFormed) {fuel : ℕ} {out : ℕ → CoreOutcome}
    (ho : OutcomesOf dev mon e returns fuel recipients out) {x : Exchange}
    (hreach : ReachesExchange dev mon e returns fuel recipients s x) :
    Inv (kernelMessage dev e) (numHostMails dev (kernelMessage dev e)) recipients out x :=
  (inv_launched (numHostMails_pos _ _) out).of_reaches (kernelMessage_command_cases dev e)
    (by rw [kernelMessage_kernelId dev hwf]; exact hwf.kernelId_lt) (numHostMails_pos _ _)
    (numHostMails_lt _ _) ho.outcome hreach

/-- Where the protocol holds, the id is non-negative and the command is no broadcast task. -/
lemma conditions_of_replyProtocol (hwf : e.WellFormed) (hroot : ConfiguredBy dev mon)
    (hmail : mailTo s (kernelMessage dev e) dev.computeUnits = some (recipients, s'))
    (h : ∃ fuel₀, ∀ fuel, fuel₀ ≤ fuel → ReplyProtocol dev mon e returns fuel recipients s') :
    e.kernelId < 2 ^ 31 ∧ ¬ BroadcastTask dev mon e := by
  obtain ⟨fuel₀, hprot⟩ := h
  obtain ⟨fuel₁, hout⟩ := exists_outcomes hwf hroot returns hmail
  have hp := hprot (max fuel₀ fuel₁) (le_max_left _ _)
  obtain ⟨out, ho⟩ := hout (max fuel₀ fuel₁) (le_max_right _ _)
  obtain ⟨x, hreach, hfinal⟩ := exists_final (kernelMessage dev e) dev.computeUnits
    (fun core => processMessage mon core (returns core) (max fuel₀ fuel₁) (kernelMessage dev e))
    (launched dev (kernelMessage dev e) recipients s')
  have hinv := inv_of_reachesExchange hwf ho hreach
  have hagree := (hinv.final_replied ho.outcome hfinal).symm.trans (hp.replies x hreach hfinal)
  refine ⟨?_, ho.agree.mp hagree⟩
  rw [← kernelMessage_kernelId dev hwf]
  exact (hinv.final_completed ho.outcome hagree hfinal).mp (hp.completed x hreach hfinal)

/-- The protocol holds when the id is non-negative and the command is no broadcast task. -/
lemma replyProtocol_of_conditions (hwf : e.WellFormed) (hroot : ConfiguredBy dev mon)
    (hmail : mailTo s (kernelMessage dev e) dev.computeUnits = some (recipients, s'))
    (hlow : e.kernelId < 2 ^ 31) (hnot : ¬ BroadcastTask dev mon e) :
    ∃ fuel₀, ∀ fuel, fuel₀ ≤ fuel → ReplyProtocol dev mon e returns fuel recipients s' := by
  obtain ⟨fuel₁, hout⟩ := exists_outcomes hwf hroot returns hmail
  refine ⟨fuel₁, fun fuel hfuel => ?_⟩
  obtain ⟨out, ho⟩ := hout fuel hfuel
  have hagree := ho.agree.mpr hnot
  rw [← kernelMessage_kernelId dev hwf] at hlow
  refine ⟨?_, ?_, ?_, ?_, ?_, ?_⟩
  · exact Subrelation.wf (fun h => budget_lt h) (measure budget).wf
  · exact fun x hreach => ((inv_of_reachesExchange hwf ho hreach).completed hlow hagree).1
  · intro x hreach hdone core hcore o hoc hcalls
    obtain rfl : out core = o := Option.some.inj ((ho.outcome core hcore).symm.trans hoc)
    exact ((inv_of_reachesExchange hwf ho hreach).completed hlow hagree).2 hdone core hcore
      (ho.replies core hcore hcalls)
  · intro x hreach hfinal hret
    exact ho.work hnot hret x.calls
      ((inv_of_reachesExchange hwf ho hreach).final_calls ho.outcome hfinal)
  · exact fun x hreach hfinal =>
      ((inv_of_reachesExchange hwf ho hreach).final_replied ho.outcome hfinal).trans hagree
  · exact fun x hreach hfinal =>
      ((inv_of_reachesExchange hwf ho hreach).final_completed ho.outcome hagree hfinal).mpr hlow

end

/-- For a command that was sent to a device, the reply protocol holds exactly when the id of the
kernel is non-negative as an `int` and the command is no broadcast task. -/
theorem replyProtocol_iff (dev : Device) (mon : MonitorSetup) (e : KernelEvent)
    (hwf : e.WellFormed) (hroot : ConfiguredBy dev mon) (returns : ℕ → Workgroup → Bool)
    (s s' : CoreScheduler) (recipients : List ℕ)
    (hmail : mailTo s (kernelMessage dev e) dev.computeUnits = some (recipients, s')) :
    (∃ fuel₀, ∀ fuel, fuel₀ ≤ fuel → ReplyProtocol dev mon e returns fuel recipients s') ↔
      e.kernelId < 2 ^ 31 ∧ ¬ BroadcastTask dev mon e :=
  ⟨conditions_of_replyProtocol hwf hroot hmail,
    fun h => replyProtocol_of_conditions hwf hroot hmail h.1 h.2⟩

/-- A root device with one core. -/
def oneCore : Device where
  firstCore := 0
  dspCores := 1
  isSubDevice := false
  dspCores_pos := by decide
  cores_le := by decide
  dspCores_lt := by decide

/-- A root device with two cores. -/
def twoCores : Device where
  firstCore := 0
  dspCores := 2
  isSubDevice := false
  dspCores_pos := by decide
  cores_le := by decide
  dspCores_lt := by decide

/-- An in-order task. -/
def inOrderTask : KernelEvent where
  kernelId := 5
  isTask := true
  outOfOrder := false
  debug := false
  workDim := 1
  globalWorkSize := fun _ => 1
  localWorkSize := fun _ => 1
  globalWorkOffset := fun _ => 0
  profilingEventType := 0
  u := zeroBytes

/-- The in-order task is well-formed. -/
lemma inOrderTask_wellFormed : inOrderTask.WellFormed := by
  constructor <;> decide

/-- With OpenMP in the monitors the protocol of an in-order task on two cores holds. -/
theorem replyProtocol_inOrderTask_openMP : ∃ fuel₀, ∀ fuel, fuel₀ ≤ fuel →
    ReplyProtocol twoCores ⟨true, 0, 2⟩ inOrderTask (fun _ _ => true) fuel [0, 1]
      ⟨4, fun _ => 0⟩ :=
  (replyProtocol_iff twoCores ⟨true, 0, 2⟩ inOrderTask inOrderTask_wellFormed
    (fun _ => ⟨rfl, rfl⟩) (fun _ _ => true) ⟨4, fun _ => 0⟩ ⟨4, fun _ => 0⟩ [0, 1] rfl).mpr
    ⟨by decide, by simp [BroadcastTask, twoCores]⟩

/-- Without OpenMP in the monitors both cores reply to an in-order task on two cores, and the host
waits for one reply. -/
theorem not_replyProtocol_inOrderTask : ¬ ∃ fuel₀, ∀ fuel, fuel₀ ≤ fuel →
    ReplyProtocol twoCores ⟨false, 0, 2⟩ inOrderTask (fun _ _ => true) fuel [0, 1]
      ⟨4, fun _ => 0⟩ := by
  intro h
  have hmail : mailTo ⟨4, fun _ => 0⟩ (kernelMessage twoCores inOrderTask)
      twoCores.computeUnits = some ([0, 1], ⟨4, fun _ => 0⟩) := rfl
  have hcond := conditions_of_replyProtocol inOrderTask_wellFormed (fun _ => ⟨rfl, rfl⟩) hmail h
  exact hcond.2 ⟨rfl, rfl, by decide, Or.inl rfl⟩

end TiOpenCL
