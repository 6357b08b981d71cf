import Mathlib.Data.List.Perm.Basic
import Mathlib.Logic.Relation
import TiOpenCL.Protocol.Monitor
import TiOpenCL.Protocol.Host

/-!
# The exchange of one command

One kernel or task from the moment its message was sent: the cores take their copies in any order,
run and reply, and the host receives the replies in any order.  The invariant `Exchange.Inv` counts
the replies against the number registered for the command.  When that number is the number of cores
that reply, the event is completed once, after the last reply (`Inv.completed`).
-/

namespace TiOpenCL

/-- The state of the exchange of one command. -/
structure Exchange where
  /-- Cores that have not taken their copy yet. -/
  waiting : List ℕ
  /-- Cores that run their part. -/
  running : List ℕ
  /-- Cores that are done with their copy. -/
  finished : List ℕ
  /-- The calls of the entry point so far. -/
  calls : List EntryCall
  /-- Replies the host has not received yet, with the core they come from. -/
  inFlight : List (ℕ × Msg)
  /-- Cores that replied. -/
  replied : List ℕ
  /-- The scheduler of the host. -/
  scheduler : CoreScheduler
  /-- The completion handler of the host. -/
  completions : Completions Unit

namespace Exchange

/-- The exchange right after `push_complete_pending` and `mail_to`. -/
def launched (dev : Device) (msg : Msg) (recipients : List ℕ) (s : CoreScheduler) : Exchange where
  waiting := recipients
  running := []
  finished := []
  calls := []
  inFlight := []
  replied := []
  scheduler := s
  completions :=
    { Completions.initial with
      pending := CompletePending.empty.push msg.kernelId () (numHostMails dev msg) }

/-- One step of a core or of the host.  The host receives nothing while it has no pending event. -/
inductive Step (msg : Msg) (computeUnits : List ℕ) (outcome : ℕ → Option CoreOutcome) :
    Exchange → Exchange → Prop
  /-- A core takes its copy and runs its part. -/
  | start {x : Exchange} {core : ℕ} {o : CoreOutcome} (hcore : core ∈ x.waiting)
      (ho : outcome core = some o) :
      Step msg computeUnits outcome x
        { x with
          waiting := x.waiting.erase core
          running := core :: x.running
          calls := x.calls ++ o.calls }
  /-- A core is done and replies. -/
  | respond {x : Exchange} {core : ℕ} {o : CoreOutcome} (data : ReplyData)
      (hcore : core ∈ x.running) (ho : outcome core = some o) (hreply : o.replies = true) :
      Step msg computeUnits outcome x
        { x with
          running := x.running.erase core
          finished := core :: x.finished
          inFlight := (core, Monitor.respondToHost msg msg.kernelId data) :: x.inFlight
          replied := core :: x.replied }
  /-- A core is done and frees its copy. -/
  | discard {x : Exchange} {core : ℕ} {o : CoreOutcome} (hcore : core ∈ x.running)
      (ho : outcome core = some o) (hreply : o.replies = false) :
      Step msg computeUnits outcome x
        { x with
          running := x.running.erase core
          finished := core :: x.finished }
  /-- The host receives one of the replies. -/
  | receive {x : Exchange} {before after : List (ℕ × Msg)} {core : ℕ} {reply : Msg}
      (hflight : x.inFlight = before ++ (core, reply) :: after)
      (hpending : 0 < x.completions.pending.numElements) :
      Step msg computeUnits outcome x
        { x with
          inFlight := before ++ after
          scheduler := (mailFrom x.scheduler computeUnits reply core).2.2
          completions := x.completions.handleEventCompletion
            (mailFrom x.scheduler computeUnits reply core).1
            (mailFrom x.scheduler computeUnits reply core).2.1 }

/-- No core and no reply is left to go on with. -/
def Final (msg : Msg) (computeUnits : List ℕ) (outcome : ℕ → Option CoreOutcome)
    (x : Exchange) : Prop :=
  ∀ y, ¬ Step msg computeUnits outcome x y

/-- The steps the exchange can still take at most. -/
def budget (x : Exchange) : ℕ := 3 * x.waiting.length + 2 * x.running.length + x.inFlight.length

/-- Every step uses up some of the budget. -/
lemma budget_lt {msg : Msg} {computeUnits : List ℕ} {outcome : ℕ → Option CoreOutcome}
    {x y : Exchange} (h : Step msg computeUnits outcome x y) : y.budget < x.budget := by
  cases h with
  | start hcore _ =>
    have hlen := List.length_erase_of_mem hcore
    have hpos := List.length_pos_of_mem hcore
    simp only [budget, List.length_cons]
    omega
  | respond _ hcore _ _ =>
    have hlen := List.length_erase_of_mem hcore
    have hpos := List.length_pos_of_mem hcore
    simp only [budget, List.length_cons]
    omega
  | discard hcore _ _ =>
    have hlen := List.length_erase_of_mem hcore
    have hpos := List.length_pos_of_mem hcore
    simp only [budget]
    omega
  | receive hflight _ =>
    simp only [budget, hflight, List.length_append, List.length_cons]
    omega

/-- Every exchange can run to an end. -/
lemma exists_final (msg : Msg) (computeUnits : List ℕ) (outcome : ℕ → Option CoreOutcome)
    (x : Exchange) : ∃ y, Relation.ReflTransGen (Step msg computeUnits outcome) x y ∧
      Final msg computeUnits outcome y := by
  induction hb : x.budget using Nat.strong_induction_on generalizing x with
  | _ b ih =>
    by_cases hfinal : Final msg computeUnits outcome x
    · exact ⟨x, .refl, hfinal⟩
    · obtain ⟨y, hstep⟩ : ∃ y, Step msg computeUnits outcome x y := by
        by_contra hnone
        exact hfinal fun y hy => hnone ⟨y, hy⟩
      obtain ⟨z, hreach, hz⟩ := ih y.budget (hb ▸ budget_lt hstep) y rfl
      exact ⟨z, .head hstep hreach, hz⟩

/-! ### The invariant -/

/-- The host side of the invariant: after `k` replies of the command have been received, `n` replies
were registered under `id`. -/
def Counted (id n k : ℕ) (c : Completions Unit) : Prop :=
  if id < 2 ^ 31 ∧ n ≤ k then
    k = n ∧ c.pending.numElements = 0 ∧ c.statuses.length = 1
  else
    c.pending.numElements = 1 ∧ c.statuses = [] ∧
      c.pending.map id = some ((), if id < 2 ^ 31 then n - k else n)

/-- The invariant of an exchange with the given recipients and outcomes. -/
structure Inv (msg : Msg) (n : ℕ) (recipients : List ℕ) (out : ℕ → CoreOutcome)
    (x : Exchange) : Prop where
  /-- Every recipient is in one phase. -/
  phases : (x.waiting ++ x.running ++ x.finished).Perm recipients
  /-- The calls are those of the cores that took their copy. -/
  calls : x.calls.Perm ((x.running ++ x.finished).flatMap fun core => (out core).calls)
  /-- The cores that replied. -/
  replied : x.replied.Perm (x.finished.filter fun core => (out core).replies)
  /-- Every reply carries the id of the kernel. -/
  replies : ∀ r ∈ x.inFlight, r.2.command = msg.command ∧ r.2.transId = msg.kernelId
  /-- The host has counted the replies that are not in flight. -/
  counted : ∃ k, k + x.inFlight.length = x.replied.length ∧
    Counted msg.kernelId n k x.completions

section

variable {msg : Msg} {computeUnits recipients : List ℕ} {outcome : ℕ → Option CoreOutcome}
  {out : ℕ → CoreOutcome} {n : ℕ}

/-- Receiving a reply of the command counts it. -/
lemma counted_receive {k : ℕ} {c : Completions Unit} {id : ℕ} {retcode : ℤ} (hid : id < 2 ^ 32)
    (hn : 1 ≤ n) (hn32 : n < 2 ^ 32) (hc : Counted id n k c) (hpending : 0 < c.pending.numElements) :
    Counted id n (k + 1) (c.handleEventCompletion (sint 32 id) retcode) := by
  by_cases hlow : id < 2 ^ 31
  · -- the id is a non-negative `int`
    have hsint : sint 32 id = (id : ℤ) := sint_of_lt (by omega) (by omega)
    by_cases hdone : n ≤ k
    · rw [Counted, if_pos ⟨hlow, hdone⟩] at hc
      omega
    · rw [Counted, if_neg (by omega), if_pos hlow] at hc
      obtain ⟨hnum, hstat, hmap⟩ := hc
      rw [Completions.handleEventCompletion, hsint, if_neg (by omega), uint_natCast hid]
      by_cases hlast : n = k + 1
      · have hone : n - k = 1 := by omega
        rw [hone] at hmap
        rw [CompletePending.tryPop_last hmap, Counted, if_pos ⟨hlow, hlast.le⟩]
        refine ⟨hlast.symm, ?_, ?_⟩
        · simp only [hnum, sub_self]
        · simp only [hstat, List.length_singleton]
      · obtain ⟨m, hm⟩ : ∃ m, n - k = m + 1 := ⟨n - k - 1, by omega⟩
        have hrest : n - (k + 1) = m := by omega
        rw [hm] at hmap
        rw [CompletePending.tryPop_more hmap (by omega) (by omega), Counted, if_neg (by omega),
          if_pos hlow, hrest]
        exact ⟨hnum, hstat, by simp only [Function.update_self]⟩
  · -- the id is negative as an `int`, so the reply is taken for printf traffic
    have hsint : sint 32 id < 0 := sint_neg_of_le (by omega) hid
    rw [Completions.handleEventCompletion, if_pos hsint]
    rw [Counted, if_neg (by omega), if_neg hlow] at hc ⊢
    exact hc

/-- Every step keeps the invariant. -/
lemma Inv.step (hcmd : msg.command = .task ∨ msg.command = .ndrKernel)
    (hid : msg.kernelId < 2 ^ 32) (hn : 1 ≤ n) (hn32 : n < 2 ^ 32)
    (hout : ∀ core ∈ recipients, outcome core = some (out core)) {x y : Exchange}
    (h : Inv msg n recipients out x) (hstep : Step msg computeUnits outcome x y) :
    Inv msg n recipients out y := by
  have hmem : ∀ core, core ∈ x.waiting ∨ core ∈ x.running → core ∈ recipients := by
    intro core hcore
    refine h.phases.mem_iff.mp ?_
    rcases hcore with hw | hr
    · exact List.mem_append_left _ (List.mem_append_left _ hw)
    · exact List.mem_append_left _ (List.mem_append_right _ hr)
  cases hstep with
  | @start core o hcore ho =>
    obtain rfl : out core = o :=
      Option.some.inj ((hout core (hmem core (Or.inl hcore))).symm.trans ho)
    refine ⟨?_, ?_, h.replied, h.replies, h.counted⟩
    · refine List.Perm.trans ?_ h.phases
      refine List.Perm.append_right _ ?_
      refine List.perm_middle.trans ?_
      exact List.Perm.append_right x.running (List.perm_cons_erase hcore).symm
    · simp only [List.cons_append, List.flatMap_cons]
      exact List.perm_append_comm.trans (h.calls.append_left _)
  | @respond core o data hcore ho hreply =>
    obtain rfl : out core = o :=
      Option.some.inj ((hout core (hmem core (Or.inr hcore))).symm.trans ho)
    have hmove : (x.running.erase core ++ core :: x.finished).Perm (x.running ++ x.finished) :=
      List.perm_middle.trans (List.Perm.append_right x.finished (List.perm_cons_erase hcore).symm)
    refine ⟨?_, ?_, ?_, ?_, ?_⟩
    · refine List.Perm.trans ?_ h.phases
      rw [List.append_assoc, List.append_assoc]
      exact hmove.append_left _
    · exact h.calls.trans (hmove.symm.flatMap_right _)
    · rw [List.filter_cons_of_pos (by simpa using hreply)]
      exact h.replied.cons core
    · intro r hr
      rcases List.mem_cons.mp hr with rfl | hr
      · exact ⟨rfl, rfl⟩
      · exact h.replies r hr
    · obtain ⟨k, hk, hc⟩ := h.counted
      exact ⟨k, by simp only [List.length_cons]; omega, hc⟩
  | @discard core o hcore ho hreply =>
    obtain rfl : out core = o :=
      Option.some.inj ((hout core (hmem core (Or.inr hcore))).symm.trans ho)
    have hmove : (x.running.erase core ++ core :: x.finished).Perm (x.running ++ x.finished) :=
      List.perm_middle.trans (List.Perm.append_right x.finished (List.perm_cons_erase hcore).symm)
    refine ⟨?_, ?_, ?_, h.replies, h.counted⟩
    · refine List.Perm.trans ?_ h.phases
      rw [List.append_assoc, List.append_assoc]
      exact hmove.append_left _
    · exact h.calls.trans (hmove.symm.flatMap_right _)
    · rw [List.filter_cons_of_neg (by simpa using hreply)]
      exact h.replied
  | @receive before after core reply hflight hpending =>
    have hreply : reply.command = msg.command ∧ reply.transId = msg.kernelId :=
      h.replies (core, reply) (by rw [hflight]; simp)
    have hid' : (mailFrom x.scheduler computeUnits reply core).1 = sint 32 msg.kernelId := by
      rw [← hreply.1] at hcmd
      rw [(mailFrom_reply x.scheduler computeUnits hcmd core).1, hreply.2]
    refine ⟨h.phases, h.calls, h.replied, ?_, ?_⟩
    · intro r hr
      refine h.replies r ?_
      rw [hflight]
      simp only [List.mem_append, List.mem_cons] at hr ⊢
      tauto
    · obtain ⟨k, hk, hc⟩ := h.counted
      refine ⟨k + 1, ?_, ?_⟩
      · rw [hflight] at hk
        simp only [List.length_append, List.length_cons] at hk ⊢
        omega
      · rw [hid']
        exact counted_receive hid hn hn32 hc hpending

/-- The invariant holds when the message was sent. -/
lemma inv_launched {dev : Device} {s : CoreScheduler} (hn : 1 ≤ numHostMails dev msg)
    (out : ℕ → CoreOutcome) :
    Inv msg (numHostMails dev msg) recipients out (launched dev msg recipients s) where
  phases := by simp [launched]
  calls := by simp [launched]
  replied := by simp [launched]
  replies := by simp [launched]
  counted := by
    refine ⟨0, by simp [launched], ?_⟩
    rw [Counted, if_neg (by omega)]
    simp [launched, CompletePending.push, CompletePending.empty, Completions.initial]

/-- The invariant holds in every reachable state. -/
lemma Inv.of_reaches (hcmd : msg.command = .task ∨ msg.command = .ndrKernel)
    (hid : msg.kernelId < 2 ^ 32) (hn : 1 ≤ n) (hn32 : n < 2 ^ 32)
    (hout : ∀ core ∈ recipients, outcome core = some (out core)) {x y : Exchange}
    (h : Inv msg n recipients out x)
    (hreach : Relation.ReflTransGen (Step msg computeUnits outcome) x y) :
    Inv msg n recipients out y := by
  induction hreach with
  | refl => exact h
  | tail _ hstep ih => exact ih.step hcmd hid hn hn32 hout hstep

/-- At the end every recipient is done. -/
lemma Inv.final_finished (hout : ∀ core ∈ recipients, outcome core = some (out core))
    {x : Exchange} (h : Inv msg n recipients out x)
    (hfinal : Final msg computeUnits outcome x) :
    x.waiting = [] ∧ x.running = [] ∧ x.finished.Perm recipients ∧
      (x.inFlight = [] ∨ x.completions.pending.numElements ≤ 0) := by
  have hwaiting : x.waiting = [] := by
    refine List.eq_nil_iff_forall_not_mem.mpr fun core hcore => ?_
    have hrec := h.phases.mem_iff.mp (List.mem_append_left _ (List.mem_append_left _ hcore))
    exact hfinal _ (.start hcore (hout core hrec))
  have hrunning : x.running = [] := by
    refine List.eq_nil_iff_forall_not_mem.mpr fun core hcore => ?_
    have hrec := h.phases.mem_iff.mp (List.mem_append_left _ (List.mem_append_right _ hcore))
    by_cases hreply : (out core).replies = true
    · exact hfinal _ (.respond ⟨0, 0, 0, 0⟩ hcore (hout core hrec) hreply)
    · exact hfinal _ (.discard hcore (hout core hrec) (by simpa using hreply))
  refine ⟨hwaiting, hrunning, ?_, ?_⟩
  · simpa [hwaiting, hrunning] using h.phases
  · cases hflight : x.inFlight with
    | nil => exact Or.inl rfl
    | cons r rest =>
      refine Or.inr (not_lt.mp fun hpos => ?_)
      have hfirst : x.inFlight = [] ++ (r.1, r.2) :: rest := hflight
      exact hfinal _ (.receive hfirst hpos)

/-- At the end the calls are those of all recipients. -/
lemma Inv.final_calls (hout : ∀ core ∈ recipients, outcome core = some (out core))
    {x : Exchange} (h : Inv msg n recipients out x)
    (hfinal : Final msg computeUnits outcome x) :
    x.calls.Perm (recipients.flatMap fun core => (out core).calls) := by
  obtain ⟨-, hrun, hfin, -⟩ := h.final_finished hout hfinal
  refine h.calls.trans ?_
  rw [hrun, List.nil_append]
  exact hfin.flatMap_right _

/-- At the end the number of replies is the number of recipients that reply. -/
lemma Inv.final_replied (hout : ∀ core ∈ recipients, outcome core = some (out core))
    {x : Exchange} (h : Inv msg n recipients out x)
    (hfinal : Final msg computeUnits outcome x) :
    x.replied.length = (recipients.filter fun core => (out core).replies).length := by
  obtain ⟨-, -, hfin, -⟩ := h.final_finished hout hfinal
  exact (h.replied.trans (hfin.filter _)).length_eq

/-- When the cores that reply are as many as the replies registered, the event is completed at most
once, and only when all of these cores have replied. -/
lemma Inv.completed (hlow : msg.kernelId < 2 ^ 31)
    (hagree : (recipients.filter fun core => (out core).replies).length = n) {x : Exchange}
    (h : Inv msg n recipients out x) :
    x.completions.statuses.length ≤ 1 ∧ (x.completions.statuses ≠ [] →
      ∀ core ∈ recipients, (out core).replies = true → core ∈ x.replied) := by
  obtain ⟨k, hk, hc⟩ := h.counted
  by_cases hdone : n ≤ k
  · rw [Counted, if_pos ⟨hlow, hdone⟩] at hc
    refine ⟨by omega, fun _ core hcore hreply => ?_⟩
    -- the cores that are done hold `n` of the `n` cores that reply, so there are no others
    have hsub : (x.finished.filter fun c => (out c).replies).Sublist
        ((x.waiting ++ x.running ++ x.finished).filter fun c => (out c).replies) :=
      (List.sublist_append_right _ _).filter _
    have hlen : ((x.waiting ++ x.running ++ x.finished).filter fun c => (out c).replies).length =
        n := by
      rw [← hagree]
      exact (h.phases.filter _).length_eq
    have heq := hsub.eq_of_length_le (by
      rw [hlen, ← h.replied.length_eq]
      omega)
    refine h.replied.mem_iff.mpr ?_
    rw [heq]
    exact List.mem_filter.mpr ⟨h.phases.mem_iff.mpr hcore, hreply⟩
  · rw [Counted, if_neg (by omega)] at hc
    rw [hc.2.1]
    simp

/-- At the end the event was completed exactly when the id is non-negative and the replies are at
least as many as registered. -/
lemma Inv.final_completed (hout : ∀ core ∈ recipients, outcome core = some (out core))
    (hagree : (recipients.filter fun core => (out core).replies).length = n) {x : Exchange}
    (h : Inv msg n recipients out x) (hfinal : Final msg computeUnits outcome x) :
    x.completions.statuses.length = 1 ↔ msg.kernelId < 2 ^ 31 := by
  obtain ⟨-, -, -, hflight⟩ := h.final_finished hout hfinal
  have hreplied := h.final_replied hout hfinal
  obtain ⟨k, hk, hc⟩ := h.counted
  by_cases hlow : msg.kernelId < 2 ^ 31
  · refine ⟨fun _ => hlow, fun _ => ?_⟩
    by_cases hdone : n ≤ k
    · rw [Counted, if_pos ⟨hlow, hdone⟩] at hc
      exact hc.2.2
    · rw [Counted, if_neg (by omega)] at hc
      rcases hflight with hnil | hnone
      · rw [hnil, List.length_nil] at hk
        omega
      · omega
  · rw [Counted, if_neg (by omega)] at hc
    simp only [hc.2.1, hlow, List.length_nil, iff_false]
    omega

end

end Exchange

end TiOpenCL
