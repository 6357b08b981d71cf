import TiOpenCL.Protocol.Replies

/-!
# Scheduler accounting through the message format

The host tells a reply to an out-of-order task from other replies by the field `global_size[0]` that
it had put into the request.  The reply is built in place, and with profiling its status byte lies
over the low byte of that field.  `respondToHost_isOooTask_iff` says when the reply still tells what
the request did; over runs in which all replies do, the count of the scheduler is the number of
out-of-order tasks that have not been replied to.
-/

namespace TiOpenCL

open Monitor

/-- The condition on a reply to a kernel or task: no profiling event type is set, or the profiling
status is one exactly for an in-order task. -/
def KeepsOrder (msg : Msg) (data : ReplyData) : Prop :=
  msg.command = .task → 1 ≤ msg.eventType → msg.eventType ≤ 2 →
    (data.profilingStatus = inOrderTaskSize ↔ msg.globalSize dim0 = inOrderTaskSize)

/-- The first global size in a reply. -/
lemma respondToHost_globalSize (msg : Msg) (msgId : ℕ) {data : ReplyData}
    (hstatus : data.profilingStatus < 2 ^ 8) :
    (respondToHost msg msgId data).globalSize dim0 =
      if 1 ≤ msg.eventType ∧ msg.eventType ≤ 2 then
        data.profilingStatus + msg.globalSize dim0 / 256 * 256
      else msg.globalSize dim0 := by
  have hoff : configOffset 1 = retcodeOffset 1 := by decide
  unfold Msg.globalSize respondToHost
  simp only [Fin.val_zero, Nat.mul_zero, Nat.add_zero]
  rw [hoff]
  split
  · simp only [storeAll, List.cons_append, List.nil_append, List.foldl_cons, List.foldl_nil]
    rw [readWord_writeWord_of_disjoint _ _ (Or.inl (by decide)),
      readWord_writeWord_of_disjoint _ _ (Or.inr (by decide)),
      readWord_writeWord_of_disjoint _ _ (Or.inr (by decide)),
      readWord_writeByte_low _ hstatus]
  · simp only [storeAll, List.nil_append, List.foldl_cons, List.foldl_nil]
    rw [readWord_writeWord_of_disjoint _ _ (Or.inl (by decide))]

/-- The reply to a task tells what the request did exactly when it keeps the order. -/
lemma respondToHost_isOooTask_iff {dev : Device} {e : KernelEvent} (msgId : ℕ) {data : ReplyData}
    (hstatus : data.profilingStatus < 2 ^ 8) :
    ((respondToHost (kernelMessage dev e) msgId data).IsOooTask ↔
        (kernelMessage dev e).IsOooTask) ↔ KeepsOrder (kernelMessage dev e) data := by
  have hcmd : (respondToHost (kernelMessage dev e) msgId data).command =
      (kernelMessage dev e).command := rfl
  unfold Msg.IsOooTask KeepsOrder
  rw [hcmd, respondToHost_globalSize _ _ hstatus]
  by_cases htask : (kernelMessage dev e).command = .task
  · have he : e.effectiveTask = true := by
      by_contra hne
      rw [kernelMessage_command, if_neg hne] at htask
      simp at htask
    have hsmall : (kernelMessage dev e).globalSize dim0 / 256 * 256 = 0 := by
      rw [kernelMessage_task_globalSize he]
      split <;> decide
    rw [hsmall, Nat.add_zero]
    by_cases hprof : 1 ≤ (kernelMessage dev e).eventType ∧ (kernelMessage dev e).eventType ≤ 2
    · rw [if_pos hprof]
      simp only [htask, true_and, forall_const, hprof.1, hprof.2]
      exact not_iff_not
    · rw [if_neg hprof]
      simp only [htask, forall_const]
      tauto
  · simp only [htask, false_and, IsEmpty.forall_iff]

/-! ### Runs -/

/-- A copy of a message at a core. -/
structure Copy where
  /-- The core. -/
  core : ℕ
  /-- The device the message was sent to. -/
  dev : Device
  /-- The kernel event. -/
  e : KernelEvent

/-- The message of a copy. -/
def Copy.msg (c : Copy) : Msg := kernelMessage c.dev c.e

/-- The state of the scheduler, with the copies of messages at the cores and the replies the host
has not received yet. -/
structure Scheduling where
  /-- The scheduler of the root device. -/
  scheduler : CoreScheduler
  /-- Copies that have not been answered yet. -/
  sent : List Copy
  /-- Copies that have been answered, with the reply on its way to the host. -/
  replies : List (Copy × Msg)

namespace Scheduling

/-- What can happen next. -/
inductive Action
  /-- A kernel event is sent to a device. -/
  | send (dev : Device) (e : KernelEvent)
  /-- A core is done with a copy and replies. -/
  | respond (c : Copy) (data : ReplyData)
  /-- A core is done with a copy and frees it. -/
  | discard (c : Copy)
  /-- The host receives a reply. -/
  | receive (c : Copy)

/-- No kernel event has been sent. -/
def initial (depth : ℕ) : Scheduling := ⟨⟨depth, fun _ => 0⟩, [], []⟩

/-- One step on a root device with the given compute units and on its sub-devices. -/
inductive Step (computeUnits : List ℕ) (mon : MonitorSetup) :
    Scheduling → Action → Scheduling → Prop
  /-- The host sends a message to the compute units of a device. -/
  | send {x : Scheduling} {dev : Device} {e : KernelEvent} {recipients : List ℕ}
      {s : CoreScheduler} (hdev : ∀ core ∈ dev.computeUnits, core ∈ computeUnits)
      (hmail : mailTo x.scheduler (kernelMessage dev e) dev.computeUnits = some (recipients, s)) :
      Step computeUnits mon x (.send dev e)
        { x with
          scheduler := s
          sent := recipients.map (fun core => ⟨core, dev, e⟩) ++ x.sent }
  /-- A core is done with its copy and replies. -/
  | respond {x : Scheduling} {before after : List Copy} {c : Copy} {data : ReplyData}
      (hsent : x.sent = before ++ c :: after) (hstatus : data.profilingStatus < 2 ^ 8)
      (hreply : coreReplies mon c.core c.msg = true) :
      Step computeUnits mon x (.respond c data)
        { x with
          sent := before ++ after
          replies := (c, respondToHost c.msg c.msg.kernelId data) :: x.replies }
  /-- A core is done with its copy and frees it. -/
  | discard {x : Scheduling} {before after : List Copy} {c : Copy}
      (hsent : x.sent = before ++ c :: after)
      (hreply : coreReplies mon c.core c.msg = false) :
      Step computeUnits mon x (.discard c) { x with sent := before ++ after }
  /-- The host receives a reply. -/
  | receive {x : Scheduling} {before after : List (Copy × Msg)} {c : Copy} {reply : Msg}
      (hreplies : x.replies = before ++ (c, reply) :: after) :
      Step computeUnits mon x (.receive c)
        { x with
          scheduler := (mailFrom x.scheduler computeUnits reply c.core).2.2
          replies := before ++ after }

/-- The condition on an action: replies keep the order. -/
def ActionOk : Action → Prop
  | .respond c data => KeepsOrder c.msg data
  | _ => True

/-- The number of out-of-order tasks sent to a core whose reply the host has not received. -/
def outstanding (x : Scheduling) (core : ℕ) : ℕ :=
  x.sent.countP (fun c => c.core = core ∧ c.msg.IsOooTask) +
    x.replies.countP fun r => r.1.core = core ∧ r.1.msg.IsOooTask

/-- A run of steps that all meet a condition. -/
def Runs (computeUnits : List ℕ) (mon : MonitorSetup) (ok : Action → Prop) :
    Scheduling → Scheduling → Prop :=
  Relation.ReflTransGen fun x y => ∃ a, Step computeUnits mon x a y ∧ ok a

/-- The invariant: the counts are right, every copy is at a compute unit of the root device and
every reply tells what its request did. -/
structure Inv (computeUnits : List ℕ) (x : Scheduling) : Prop where
  count : ∀ core, x.scheduler.count core = x.outstanding core
  sent : ∀ c ∈ x.sent, c.core ∈ computeUnits
  replies : ∀ r ∈ x.replies, r.1.core ∈ computeUnits ∧ (r.2.IsOooTask ↔ r.1.msg.IsOooTask)

section

variable {computeUnits : List ℕ} {mon : MonitorSetup} {x y : Scheduling}

/-- A task that is freed by its core is no out-of-order task. -/
lemma not_isOooTask_of_discard {c : Copy} (h : coreReplies mon c.core c.msg = false) :
    ¬ c.msg.IsOooTask := by
  intro hooo
  simp [coreReplies, hooo.1, processTaskCommand, hooo.2] at h

/-- Sending a message keeps the invariant. -/
lemma Inv.send (h : Inv computeUnits x) {dev : Device} {e : KernelEvent} {recipients : List ℕ}
    {s : CoreScheduler} (hdev : ∀ core ∈ dev.computeUnits, core ∈ computeUnits)
    (hmail : mailTo x.scheduler (kernelMessage dev e) dev.computeUnits = some (recipients, s)) :
    Inv computeUnits
      { x with
        scheduler := s
        sent := recipients.map (fun core => ⟨core, dev, e⟩) ++ x.sent } := by
  have hne : dev.computeUnits ≠ [] := by
    rw [computeUnits_eq]
    simp
  obtain ⟨hrec, hcases⟩ := mailTo_eq_some hne hmail
  refine ⟨fun core => ?_, ?_, h.replies⟩
  · have hcount := h.count core
    simp only [outstanding, List.countP_append, List.countP_map] at hcount ⊢
    rcases hcases with ⟨hooo, core', rfl, rfl⟩ | ⟨hooo, rfl⟩
    · by_cases hcore : core = core'
      · subst hcore
        simp only [CoreScheduler.coreReserve, Function.update_self, hcount]
        simp [Function.comp_def, Copy.msg, hooo]
        omega
      · simp only [CoreScheduler.coreReserve, Function.update_of_ne hcore, hcount]
        simp [Function.comp_def, Ne.symm hcore]
    · rw [hcount]
      simp [Function.comp_def, Copy.msg, hooo]
  · intro c hc
    rcases List.mem_append.mp hc with hc | hc
    · obtain ⟨core, hcore, rfl⟩ := List.mem_map.mp hc
      exact hdev core (hrec core hcore)
    · exact h.sent c hc

/-- A reply that keeps the order keeps the invariant. -/
lemma Inv.respond (h : Inv computeUnits x) {before after : List Copy} {c : Copy} {data : ReplyData}
    (hsent : x.sent = before ++ c :: after) (hstatus : data.profilingStatus < 2 ^ 8)
    (hok : KeepsOrder c.msg data) :
    Inv computeUnits
      { x with
        sent := before ++ after
        replies := (c, respondToHost c.msg c.msg.kernelId data) :: x.replies } := by
  refine ⟨fun core => ?_, fun c' hc' => ?_, fun r hr => ?_⟩
  · have hcount := h.count core
    simp only [outstanding, hsent, List.countP_append, List.countP_cons] at hcount ⊢
    omega
  · refine h.sent c' ?_
    rw [hsent]
    simp only [List.mem_append, List.mem_cons] at hc' ⊢
    tauto
  · rcases List.mem_cons.mp hr with rfl | hr
    · exact ⟨h.sent c (by rw [hsent]; simp), (respondToHost_isOooTask_iff _ hstatus).mpr hok⟩
    · exact h.replies r hr

/-- Freeing a copy keeps the invariant. -/
lemma Inv.discard (h : Inv computeUnits x) {before after : List Copy} {c : Copy}
    (hsent : x.sent = before ++ c :: after) (hreply : coreReplies mon c.core c.msg = false) :
    Inv computeUnits { x with sent := before ++ after } := by
  have hooo := not_isOooTask_of_discard hreply
  refine ⟨fun core => ?_, fun c' hc' => ?_, h.replies⟩
  · have hcount := h.count core
    simp only [outstanding, hsent, List.countP_append, List.countP_cons, hooo, and_false,
      decide_false, Bool.false_eq_true, if_false] at hcount ⊢
    omega
  · refine h.sent c' ?_
    rw [hsent]
    simp only [List.mem_append, List.mem_cons] at hc' ⊢
    tauto

/-- Receiving a reply keeps the invariant. -/
lemma Inv.receive (h : Inv computeUnits x) {before after : List (Copy × Msg)} {c : Copy}
    {reply : Msg} (hreplies : x.replies = before ++ (c, reply) :: after) :
    Inv computeUnits
      { x with
        scheduler := (mailFrom x.scheduler computeUnits reply c.core).2.2
        replies := before ++ after } := by
  obtain ⟨hcore, hooo⟩ := h.replies (c, reply) (by rw [hreplies]; simp)
  refine ⟨fun core => ?_, h.sent, fun r hr => ?_⟩
  · have hcount := h.count core
    simp only [outstanding, hreplies, List.countP_append, List.countP_cons] at hcount ⊢
    simp only at hooo
    rw [mailFrom_scheduler]
    by_cases hreq : c.msg.IsOooTask
    · rw [if_pos ⟨hooo.mpr hreq, hcore⟩]
      by_cases heq : core = c.core
      · subst heq
        simp only [CoreScheduler.coreRelease, Function.update_self, hcount, hreq]
        simp only [and_self, decide_true, if_true]
        push_cast
        omega
      · simp only [CoreScheduler.coreRelease, Function.update_of_ne heq, hcount]
        simp [Ne.symm heq]
    · rw [if_neg fun hcond => hreq (hooo.mp hcond.1), hcount]
      simp [hreq]
  · refine h.replies r ?_
    rw [hreplies]
    simp only [List.mem_append, List.mem_cons] at hr ⊢
    tauto

/-- Every step that meets the condition keeps the invariant. -/
lemma Inv.step (h : Inv computeUnits x) {a : Action} (hstep : Step computeUnits mon x a y)
    (hok : ActionOk a) : Inv computeUnits y := by
  cases hstep with
  | send hdev hmail => exact h.send hdev hmail
  | respond hsent hstatus _ => exact h.respond hsent hstatus hok
  | discard hsent hreply => exact h.discard hsent hreply
  | receive hreplies => exact h.receive hreplies

/-- The invariant holds in every state of a run whose replies keep the order. -/
lemma Inv.of_runs (h : Inv computeUnits x) (hruns : Runs computeUnits mon ActionOk x y) :
    Inv computeUnits y := by
  induction hruns with
  | refl => exact h
  | tail _ hstep ih =>
    obtain ⟨a, hstep, hok⟩ := hstep
    exact ih.step hstep hok

/-- No kernel event has been sent. -/
lemma inv_initial (computeUnits : List ℕ) (depth : ℕ) : Inv computeUnits (initial depth) where
  count _ := rfl
  sent _ h := by simp [initial] at h
  replies _ h := by simp [initial] at h

end

/-- A reply is taken for the reply to an out-of-order task exactly when its request was one, if and
only if it keeps the order; in every run of tasks and kernels on a root device and its sub-devices
whose replies keep the order, the count of the scheduler for each core is the number of out-of-order
tasks sent to it and not yet replied. -/
theorem count_eq_outstanding (computeUnits : List ℕ) (mon : MonitorSetup) (depth : ℕ)
    (x : Scheduling) (hruns : Runs computeUnits mon ActionOk (initial depth) x) :
    (∀ (dev : Device) (e : KernelEvent) (msgId : ℕ) (data : ReplyData),
      data.profilingStatus < 2 ^ 8 →
        (((respondToHost (kernelMessage dev e) msgId data).IsOooTask ↔
          (kernelMessage dev e).IsOooTask) ↔ KeepsOrder (kernelMessage dev e) data)) ∧
    ∀ core, x.scheduler.count core = x.outstanding core :=
  ⟨fun _ _ msgId _ hstatus => respondToHost_isOooTask_iff msgId hstatus,
    ((inv_initial computeUnits depth).of_runs hruns).count⟩

/-! ### Profiled tasks -/

/-- A task on the first core of a device with profiling of stall events. -/
def profiledTask (outOfOrder : Bool) : KernelEvent :=
  { inOrderTask with
    outOfOrder := outOfOrder
    profilingEventType := 1 }

/-- The profiled tasks are well-formed. -/
lemma profiledTask_wellFormed (outOfOrder : Bool) : (profiledTask outOfOrder).WellFormed := by
  cases outOfOrder <;> constructor <;> decide

/-- An out-of-order task that was sent is counted. -/
theorem count_eq_outstanding_outOfOrder : ∃ x,
    Runs [0] ⟨false, 0, 1⟩ ActionOk (initial 4) x ∧ x.scheduler.count 0 = 1 ∧
      x.outstanding 0 = 1 := by
  have hmail : mailTo (initial 4).scheduler (kernelMessage oneCore (profiledTask true))
      oneCore.computeUnits =
      some ([0], (initial 4).scheduler.coreReserve 0) := by
    have hooo : (kernelMessage oneCore (profiledTask true)).IsOooTask :=
      kernelMessage_isOooTask.mpr ⟨rfl, rfl⟩
    simp only [mailTo, hooo.1, if_pos hooo]
    rfl
  have hrun : Runs [0] ⟨false, 0, 1⟩ ActionOk (initial 4)
      ⟨(initial 4).scheduler.coreReserve 0, [⟨0, oneCore, profiledTask true⟩], []⟩ :=
    .single ⟨.send oneCore (profiledTask true), .send (fun _ h => h) hmail, trivial⟩
  have hone : ((initial 4).scheduler.coreReserve 0).count 0 = 1 := rfl
  have hcount := (count_eq_outstanding [0] ⟨false, 0, 1⟩ 4 _ hrun).2 0
  rw [hone] at hcount
  exact ⟨_, hrun, hone, by exact_mod_cast hcount.symm⟩

/-- The reply to an in-order task with a successful profiling status is taken for the reply to an
out-of-order task, and the count of its core drops below zero. -/
theorem count_negative_after_profiled_task :
    ¬ (kernelMessage oneCore (profiledTask false)).IsOooTask ∧
    (respondToHost (kernelMessage oneCore (profiledTask false)) 5 ⟨0, 0, 0, 0⟩).IsOooTask ∧
    ∃ x, Runs [0] ⟨false, 0, 1⟩ (fun _ => True) (initial 4) x ∧ x.scheduler.count 0 = -1 ∧
      x.outstanding 0 = 0 := by
  have hwf := profiledTask_wellFormed false
  have hreq : ¬ (kernelMessage oneCore (profiledTask false)).IsOooTask := by
    rw [kernelMessage_isOooTask]
    simp [profiledTask]
  have hreply : ∀ msgId, (respondToHost (kernelMessage oneCore (profiledTask false)) msgId
      ⟨0, 0, 0, 0⟩).IsOooTask := by
    intro msgId
    refine ⟨rfl, ?_⟩
    have htype : (kernelMessage oneCore (profiledTask false)).eventType = 1 := by
      rw [kernelMessage_eventType oneCore hwf]
      decide
    rw [respondToHost_globalSize _ _ (by decide), htype, kernelMessage_task_globalSize rfl]
    decide
  refine ⟨hreq, hreply 5, ?_⟩
  set c : Copy := ⟨0, oneCore, profiledTask false⟩ with hc
  have hmail : mailTo (initial 4).scheduler (kernelMessage oneCore (profiledTask false))
      oneCore.computeUnits = some ([0], (initial 4).scheduler) := by
    simp only [mailTo, kernelMessage_command, if_neg hreq]
    rfl
  have hsend : Runs [0] ⟨false, 0, 1⟩ (fun _ => True) (initial 4)
      ⟨(initial 4).scheduler, [c], []⟩ :=
    .single ⟨.send oneCore (profiledTask false), .send (fun _ h => h) hmail, trivial⟩
  have hcore : coreReplies ⟨false, 0, 1⟩ c.core c.msg = true := by
    have hmaster : c.msg.masterCore = 0 := kernelMessage_masterCore
    have hcmd : c.msg.command = .task := rfl
    have hzero : c.core = 0 := rfl
    rw [coreReplies, hcmd]
    simp [processTaskCommand, hmaster, hzero]
  have hsent : (⟨(initial 4).scheduler, [c], []⟩ : Scheduling).sent = [] ++ c :: [] := rfl
  have hrespond := hsend.tail ⟨.respond c ⟨0, 0, 0, 0⟩,
    .respond hsent (show (0 : ℕ) < 2 ^ 8 by decide) hcore, trivial⟩
  have hreplies : (⟨(initial 4).scheduler, [],
      [(c, respondToHost c.msg c.msg.kernelId ⟨0, 0, 0, 0⟩)]⟩ : Scheduling).replies =
      [] ++ (c, respondToHost c.msg c.msg.kernelId ⟨0, 0, 0, 0⟩) :: [] := rfl
  have hreceive := hrespond.tail ⟨.receive c, .receive hreplies, trivial⟩
  refine ⟨_, hreceive, ?_, rfl⟩
  simp only [mailFrom_scheduler]
  rw [if_pos ⟨hreply _, by simp [hc]⟩]
  rfl

end Scheduling

end TiOpenCL
