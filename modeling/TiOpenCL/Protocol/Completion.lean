import TiOpenCL.Protocol.Replies

/-!
# Completions of many kernels

All the kernels of a process: kernel events draw their ids from one counter, are sent in any order,
and their replies reach the host mixed with each other and with printf traffic.  As long as the
counter has not passed the non-negative `int`s and every command gets as many replies as were
registered for it, each reply is counted against its own event and the last one gives the event its
status (`Traffic.Inv`).
-/

namespace TiOpenCL

open Monitor

/-- A message on its way to the host; a reply is tagged with the number of its kernel event. -/
structure Letter where
  /-- The event the message replies to, if it is a reply. -/
  event : Option ℕ
  /-- The core that sent it. -/
  core : ℕ
  /-- The message. -/
  msg : Msg

/-- A command that was sent: its message and the number of replies registered for it. -/
structure Launch where
  /-- The message. -/
  msg : Msg
  /-- `numHostMails` of the message. -/
  registered : ℕ

/-- The state of host and cores; kernel events are numbered in the order of construction. -/
structure Traffic where
  /-- The bits of the counter `kernelID`. -/
  kernelID : ℕ
  /-- The ids given to the kernel events. -/
  ids : List ℕ
  /-- The commands that were sent. -/
  launches : ℕ → Option Launch
  /-- The number of replies the cores will still send for an event. -/
  toReply : ℕ → ℕ
  /-- Messages the host has not received yet. -/
  inFlight : List Letter
  /-- The return codes of the replies received for an event, the latest first. -/
  received : ℕ → List ℤ
  /-- The scheduler of the host. -/
  scheduler : CoreScheduler
  /-- The completion handler of the host. -/
  completions : Completions ℕ

namespace Traffic

/-- What can happen next. -/
inductive Action
  /-- A kernel event is constructed. -/
  | construct
  /-- A kernel event is sent to a device. -/
  | launch (event : ℕ) (dev : Device) (mon : MonitorSetup) (e : KernelEvent)
  /-- A core replies to a kernel. -/
  | reply (event core : ℕ) (data : ReplyData)
  /-- A kernel prints. -/
  | print (core transId : ℕ) (u : Bytes)
  /-- The host receives a message. -/
  | receive (letter : Letter)

/-- Nothing has happened yet. -/
def initial (s : CoreScheduler) : Traffic :=
  ⟨0, [], fun _ => none, fun _ => 0, [], fun _ => [], s, .initial⟩

/-- The message a kernel sends when it prints. -/
def printMessage (transId : ℕ) (u : Bytes) : Msg := ⟨.print, transId, u⟩

/-- One step of the host or of a core. -/
inductive Step (computeUnits : List ℕ) : Traffic → Action → Traffic → Prop
  /-- `DSPKernelEvent` draws an id with `__sync_fetch_and_add`. -/
  | construct {x : Traffic} :
      Step computeUnits x .construct
        { x with
          kernelID := wadd 32 x.kernelID 1
          ids := x.ids ++ [x.kernelID] }
  /-- `DSPKernelEvent::run` registers the replies and then sends the message. -/
  | launch {x : Traffic} {event : ℕ} {dev : Device} {mon : MonitorSetup} {e : KernelEvent}
      {recipients : List ℕ} {s : CoreScheduler}
      (hid : x.ids[event]? = some e.kernelId) (hnew : x.launches event = none)
      (hwf : e.WellFormed) (hroot : ConfiguredBy dev mon)
      (hmail : mailTo x.scheduler (kernelMessage dev e) dev.computeUnits = some (recipients, s)) :
      Step computeUnits x (.launch event dev mon e)
        { x with
          launches := Function.update x.launches event
            (some ⟨kernelMessage dev e, numHostMails dev (kernelMessage dev e)⟩)
          toReply := Function.update x.toReply event
            (recipients.filter fun core => coreReplies mon core (kernelMessage dev e)).length
          scheduler := s
          completions :=
            { x.completions with
              pending := x.completions.pending.push e.kernelId event
                (numHostMails dev (kernelMessage dev e)) } }
  /-- A core sends one of the replies to come. -/
  | reply {x : Traffic} {event core : ℕ} {l : Launch} (data : ReplyData)
      (hl : x.launches event = some l) (hpos : 0 < x.toReply event) :
      Step computeUnits x (.reply event core data)
        { x with
          toReply := Function.update x.toReply event (x.toReply event - 1)
          inFlight := ⟨some event, core, respondToHost l.msg l.msg.kernelId data⟩ :: x.inFlight }
  /-- A core sends a print message. -/
  | print {x : Traffic} (core transId : ℕ) (u : Bytes) :
      Step computeUnits x (.print core transId u)
        { x with inFlight := ⟨none, core, printMessage transId u⟩ :: x.inFlight }
  /-- The completion thread receives a message, in any order, while events are pending. -/
  | receive {x : Traffic} {before after : List Letter} {letter : Letter}
      (hflight : x.inFlight = before ++ letter :: after)
      (hpending : 0 < x.completions.pending.numElements) :
      Step computeUnits x (.receive letter)
        { x with
          inFlight := before ++ after
          received := match letter.event with
            | some event =>
              Function.update x.received event (letter.msg.retcode :: x.received event)
            | none => x.received
          scheduler := (mailFrom x.scheduler computeUnits letter.msg letter.core).2.2
          completions := x.completions.handleEventCompletion
            (mailFrom x.scheduler computeUnits letter.msg letter.core).1
            (mailFrom x.scheduler computeUnits letter.msg letter.core).2.1 }

/-- The condition on an action: kernel events are constructed only while the counter is a
non-negative `int`, and no broadcast task is sent. -/
def ActionOk (x : Traffic) : Action → Prop
  | .construct => x.ids.length < 2 ^ 31
  | .launch _ dev mon e => ¬ BroadcastTask dev mon e
  | _ => True

/-- A run of steps that all meet a condition. -/
def Runs (computeUnits : List ℕ) (ok : Traffic → Action → Prop) : Traffic → Traffic → Prop :=
  Relation.ReflTransGen fun x y => ∃ a, Step computeUnits x a y ∧ ok x a

/-! ### The verdict -/

/-- The return code that decides on the last reply: the latest error of an earlier reply, or else the
return code of the last one. -/
def decidingCode : List ℤ → ℤ
  | [] => clSuccess
  | r :: rs => (rs.find? fun c => c ≠ clSuccess).getD r

/-- The deciding code is success exactly when all return codes are. -/
lemma decidingCode_eq_success (rs : List ℤ) :
    decidingCode rs = clSuccess ↔ ∀ r ∈ rs, r = clSuccess := by
  cases rs with
  | nil => simp [decidingCode]
  | cons r rs =>
    rw [decidingCode]
    cases hfind : rs.find? fun c => c ≠ clSuccess with
    | none =>
      have hall : ∀ c ∈ rs, c = clSuccess := by simpa using List.find?_eq_none.mp hfind
      simp only [Option.getD_none, List.mem_cons, forall_eq_or_imp]
      exact ⟨fun h => ⟨h, hall⟩, fun h => h.1⟩
    | some c =>
      have hc : c ≠ clSuccess := by simpa using List.find?_some hfind
      simp only [Option.getD_some, List.mem_cons, forall_eq_or_imp]
      exact ⟨fun h => absurd h hc, fun h => absurd (h.2 c (List.mem_of_find?_eq_some hfind)) hc⟩

/-- A deciding code other than success is one of the return codes. -/
lemma decidingCode_mem {rs : List ℤ} (h : decidingCode rs ≠ clSuccess) : decidingCode rs ∈ rs := by
  cases rs with
  | nil => exact absurd rfl h
  | cons r rs =>
    rw [decidingCode]
    cases hfind : rs.find? fun c => c ≠ clSuccess with
    | none => simp
    | some c => exact List.mem_cons_of_mem r (List.mem_of_find?_eq_some hfind)

/-! ### The invariant -/

/-- The completion handler has counted the replies of an event for which `n` were registered, and
has given the event its status if these were all. -/
def Accounted (c : Completions ℕ) (event n : ℕ) (rs : List ℤ) : Prop :=
  if rs.length < n then
    c.pending.map event = some (event, n - rs.length) ∧
      c.kernelErrors event = rs.find? (fun r => r ≠ clSuccess) ∧
      c.statuses.filter (fun s => s.1 = event) = []
  else
    c.kernelErrors event = none ∧
      c.statuses.filter (fun s => s.1 = event) = [(event, completionStatus (decidingCode rs))]

/-- The invariant of runs whose actions meet `ActionOk`. -/
structure Inv (x : Traffic) : Prop where
  /-- An event has its own number as id. -/
  ids_eq : x.ids = List.range x.ids.length
  /-- The counter has not passed the non-negative `int`s. -/
  ids_le : x.ids.length ≤ 2 ^ 31
  /-- The counter is the number of events. -/
  kernelID_eq : x.kernelID = x.ids.length
  /-- A command that was sent carries the id of its event. -/
  launch : ∀ event l, x.launches event = some l → event < x.ids.length ∧
    l.msg.kernelId = event ∧ 1 ≤ l.registered ∧ l.registered < 2 ^ 32 ∧
    (l.msg.command = .task ∨ l.msg.command = .ndrKernel)
  /-- Nothing is known of an event that was not sent. -/
  idle : ∀ event, x.launches event = none → x.received event = [] ∧
    x.completions.kernelErrors event = none ∧
    x.completions.statuses.filter (fun s => s.1 = event) = []
  /-- A message in flight is a print message or a reply to a command that was sent. -/
  letters : ∀ letter ∈ x.inFlight, match letter.event with
    | none => letter.msg.command = .print
    | some event => ∃ l, x.launches event = some l ∧ letter.msg.command = l.msg.command ∧
        letter.msg.transId = event
  /-- The replies to come, in flight and received make up the replies registered. -/
  balance : ∀ event l, x.launches event = some l →
    x.toReply event + x.inFlight.countP (fun letter => letter.event = some event) +
      (x.received event).length = l.registered
  /-- The completion handler has counted the replies received. -/
  accounted : ∀ event l, x.launches event = some l →
    Accounted x.completions event l.registered (x.received event)

/-! ### One reply -/

/-- A reply to an event does not touch what is known of another one. -/
lemma handleEventCompletion_frame {c : Completions ℕ} {event other : ℕ} (retcode : ℤ)
    (hlt : event < 2 ^ 31) (hne : other ≠ event) (hentry : ∀ d n, c.pending.map event = some (d, n) →
      d = event) :
    (c.handleEventCompletion (sint 32 event) retcode).pending.map other = c.pending.map other ∧
    (c.handleEventCompletion (sint 32 event) retcode).kernelErrors other = c.kernelErrors other ∧
    (c.handleEventCompletion (sint 32 event) retcode).statuses.filter (fun s => s.1 = other) =
      c.statuses.filter fun s => s.1 = other := by
  have hsint : sint 32 event = (event : ℤ) := sint_of_lt (by omega) hlt
  have hcast : (other : ℤ) ≠ (event : ℤ) := by exact_mod_cast hne
  have hidx : uint 32 (event : ℤ) = event := uint_natCast (by omega)
  rw [Completions.handleEventCompletion, hsint, if_neg (by omega), hidx]
  cases hmap : c.pending.map event with
  | none =>
    rw [CompletePending.tryPop_none hmap]
    simp only [true_and, and_true]
    split
    · rw [Function.update_of_ne hcast]
    · rfl
  | some entry =>
    obtain ⟨d, n⟩ := entry
    obtain rfl := hentry d n hmap
    rw [CompletePending.tryPop_some hmap]
    generalize wsub 32 n 1 = m
    by_cases hm : m = 0
    · rw [if_pos hm]
      refine ⟨Function.update_of_ne hne _ _, Function.update_of_ne hcast _ _, ?_⟩
      rw [List.filter_cons_of_neg (by simpa using hne.symm)]
    · rw [if_neg hm]
      refine ⟨Function.update_of_ne hne _ _, ?_, rfl⟩
      simp only
      split
      · rw [Function.update_of_ne hcast]
      · rfl

/-- A reply to an event is counted against it. -/
lemma Accounted.receive {c : Completions ℕ} {event n : ℕ} {rs : List ℤ} {retcode : ℤ}
    (hlt : event < 2 ^ 31) (hn : n < 2 ^ 32) (hmore : rs.length < n)
    (h : Accounted c event n rs) :
    Accounted (c.handleEventCompletion (sint 32 event) retcode) event n (retcode :: rs) := by
  have hsint : sint 32 event = (event : ℤ) := sint_of_lt (by omega) hlt
  have hidx : uint 32 (event : ℤ) = event := uint_natCast (by omega)
  rw [Accounted, if_pos hmore] at h
  obtain ⟨hmap, herr, hstat⟩ := h
  rw [Completions.handleEventCompletion, hsint, if_neg (by omega), hidx]
  by_cases hlast : rs.length + 1 = n
  · have hone : n - rs.length = 1 := by omega
    rw [hone] at hmap
    rw [CompletePending.tryPop_last hmap, Accounted, List.length_cons,
      if_neg (by omega : ¬ rs.length + 1 < n)]
    refine ⟨Function.update_self .., ?_⟩
    simp only
    rw [List.filter_cons_of_pos (by simp), hstat, herr]
    rfl
  · obtain ⟨m, hm⟩ : ∃ m, n - rs.length = m + 1 := ⟨n - rs.length - 1, by omega⟩
    have hrest : n - (rs.length + 1) = m := by omega
    rw [hm] at hmap
    rw [CompletePending.tryPop_more hmap (by omega) (by omega), Accounted, List.length_cons,
      if_pos (by omega : rs.length + 1 < n), hrest]
    refine ⟨Function.update_self .., ?_, hstat⟩
    simp only [List.find?_cons]
    by_cases hret : retcode = clSuccess
    · simp [hret, herr]
    · simp [hret]

/-- A print message is never taken for a completion. -/
lemma handleEventCompletion_print (c : Completions ℕ) (s : CoreScheduler) (computeUnits : List ℕ)
    {msg : Msg} (hmsg : msg.command = .print) (core : ℕ) :
    c.handleEventCompletion (mailFrom s computeUnits msg core).1
      (mailFrom s computeUnits msg core).2.1 = c := by
  have hid : (mailFrom s computeUnits msg core).1 = -1 := by simp [mailFrom, hmsg]
  rw [Completions.handleEventCompletion, hid, if_pos (by decide)]

/-! ### Runs -/

/-- Nothing has happened yet. -/
lemma inv_initial (s : CoreScheduler) : Inv (initial s) where
  ids_eq := rfl
  ids_le := by simp [initial]
  kernelID_eq := rfl
  launch _ _ h := by simp [initial] at h
  idle _ _ := by simp [initial, Completions.initial]
  letters _ h := by simp [initial] at h
  balance _ _ h := by simp [initial] at h
  accounted _ _ h := by simp [initial] at h

/-- Drawing an id. -/
lemma Inv.construct {x : Traffic} (h : Inv x) (hlt : x.ids.length < 2 ^ 31) :
    Inv { x with kernelID := wadd 32 x.kernelID 1, ids := x.ids ++ [x.kernelID] } where
  ids_eq := by
    simp only [List.length_append, List.length_singleton, List.range_succ]
    rw [← h.ids_eq, h.kernelID_eq]
  ids_le := by
    simp only [List.length_append, List.length_singleton]
    omega
  kernelID_eq := by
    simp only [List.length_append, List.length_singleton]
    rw [h.kernelID_eq, wadd_eq (by omega)]
  launch event l hl := by
    obtain ⟨hev, hrest⟩ := h.launch event l hl
    simp only [List.length_append, List.length_singleton]
    exact ⟨by omega, hrest⟩
  idle := h.idle
  letters := h.letters
  balance := h.balance
  accounted := h.accounted

/-- Sending a command. -/
lemma Inv.send {x : Traffic} (h : Inv x) {event : ℕ} {dev : Device} {mon : MonitorSetup}
    {e : KernelEvent} {recipients : List ℕ} {s : CoreScheduler}
    (hid : x.ids[event]? = some e.kernelId) (hnew : x.launches event = none)
    (hwf : e.WellFormed) (hroot : ConfiguredBy dev mon)
    (hmail : mailTo x.scheduler (kernelMessage dev e) dev.computeUnits = some (recipients, s))
    (hok : ¬ BroadcastTask dev mon e) :
    Inv { x with
      launches := Function.update x.launches event
        (some ⟨kernelMessage dev e, numHostMails dev (kernelMessage dev e)⟩)
      toReply := Function.update x.toReply event
        (recipients.filter fun core => coreReplies mon core (kernelMessage dev e)).length
      scheduler := s
      completions :=
        { x.completions with
          pending := x.completions.pending.push e.kernelId event
            (numHostMails dev (kernelMessage dev e)) } } := by
  have hkid : e.kernelId = event ∧ event < x.ids.length := by
    rw [h.ids_eq] at hid
    obtain ⟨hlt, heq⟩ := List.getElem?_eq_some_iff.mp hid
    simp only [List.length_range] at hlt
    exact ⟨by simpa using heq.symm, hlt⟩
  obtain ⟨hkid, hevlt⟩ := hkid
  have hpos := numHostMails_pos dev (kernelMessage dev e)
  obtain ⟨hrec, herr, hstat⟩ := h.idle event hnew
  -- no message in flight is a reply to an event that was not sent
  have hnone : x.inFlight.countP (fun letter => letter.event = some event) = 0 := by
    refine List.countP_eq_zero.mpr fun letter hletter hev => ?_
    have hlet := h.letters letter hletter
    rw [decide_eq_true_eq] at hev
    rw [hev] at hlet
    obtain ⟨l, hl, -⟩ := hlet
    rw [hnew] at hl
    simp at hl
  refine ⟨h.ids_eq, h.ids_le, h.kernelID_eq, ?_, ?_, ?_, ?_, ?_⟩
  · intro ev l hl
    by_cases hev : ev = event
    · subst hev
      simp only [Function.update_self, Option.some.injEq] at hl
      subst hl
      exact ⟨hevlt, (kernelMessage_kernelId dev hwf).trans hkid, hpos, numHostMails_lt _ _,
        kernelMessage_command_cases dev e⟩
    · simp only [Function.update_of_ne hev] at hl
      exact h.launch ev l hl
  · intro ev hl
    have hev : ev ≠ event := by
      rintro rfl
      simp at hl
    simp only [Function.update_of_ne hev] at hl
    exact h.idle ev hl
  · intro letter hletter
    have hlet := h.letters letter hletter
    split at hlet
    · next hev =>
      simpa only [hev] using hlet
    · next ev hev =>
      obtain ⟨l, hl, hlrest⟩ := hlet
      have hne : ev ≠ event := by
        rintro rfl
        rw [hnew] at hl
        simp at hl
      simp only
      exact ⟨l, by rw [Function.update_of_ne hne]; exact hl, hlrest⟩
  · intro ev l hl
    by_cases hev : ev = event
    · subst hev
      simp only [Function.update_self, Option.some.injEq] at hl ⊢
      subst hl
      rw [hnone, hrec, length_filter_coreReplies hwf hroot hmail hok]
      simp
    · simp only [Function.update_of_ne hev] at hl ⊢
      exact h.balance ev l hl
  · intro ev l hl
    by_cases hev : ev = event
    · subst hev
      simp only [Function.update_self, Option.some.injEq] at hl
      subst hl
      rw [Accounted, hrec, if_pos (show ([] : List ℤ).length < _ from hpos)]
      refine ⟨?_, herr, hstat⟩
      simp [CompletePending.push, hkid]
    · simp only [Function.update_of_ne hev] at hl
      have hacc := h.accounted ev l hl
      unfold Accounted at hacc ⊢
      simp only [CompletePending.push, hkid, Function.update_of_ne hev]
      exact hacc

/-- Sending a reply. -/
lemma Inv.sendReply {x : Traffic} (h : Inv x) {event core : ℕ} {l : Launch} (data : ReplyData)
    (hl : x.launches event = some l) (hpos : 0 < x.toReply event) :
    Inv { x with
      toReply := Function.update x.toReply event (x.toReply event - 1)
      inFlight := ⟨some event, core, respondToHost l.msg l.msg.kernelId data⟩ :: x.inFlight } := by
  refine ⟨h.ids_eq, h.ids_le, h.kernelID_eq, h.launch, h.idle, ?_, ?_, h.accounted⟩
  · intro letter hletter
    rcases List.mem_cons.mp hletter with rfl | hmem
    · exact ⟨l, hl, rfl, (h.launch event l hl).2.1⟩
    · exact h.letters letter hmem
  · intro ev l' hl'
    have hbal := h.balance ev l' hl'
    simp only [List.countP_cons, Option.some.injEq, decide_eq_true_eq]
    by_cases hev : event = ev
    · subst hev
      rw [Function.update_self, if_pos rfl]
      omega
    · rw [Function.update_of_ne (Ne.symm hev), if_neg hev]
      exact hbal

/-- Sending a print message. -/
lemma Inv.sendPrint {x : Traffic} (h : Inv x) (core transId : ℕ) (u : Bytes) :
    Inv { x with inFlight := ⟨none, core, printMessage transId u⟩ :: x.inFlight } := by
  refine ⟨h.ids_eq, h.ids_le, h.kernelID_eq, h.launch, h.idle, ?_, ?_, h.accounted⟩
  · intro letter hletter
    rcases List.mem_cons.mp hletter with rfl | hmem
    · rfl
    · exact h.letters letter hmem
  · intro ev l hl
    simpa using h.balance ev l hl

/-- Receiving a message. -/
lemma Inv.take {x : Traffic} (h : Inv x) (computeUnits : List ℕ) {before after : List Letter}
    {letter : Letter} (hflight : x.inFlight = before ++ letter :: after) :
    Inv { x with
      inFlight := before ++ after
      received := match letter.event with
        | some event =>
          Function.update x.received event (letter.msg.retcode :: x.received event)
        | none => x.received
      scheduler := (mailFrom x.scheduler computeUnits letter.msg letter.core).2.2
      completions := x.completions.handleEventCompletion
        (mailFrom x.scheduler computeUnits letter.msg letter.core).1
        (mailFrom x.scheduler computeUnits letter.msg letter.core).2.1 } := by
  have hlet := h.letters letter (by rw [hflight]; simp)
  have hletters : ∀ l ∈ before ++ after, l ∈ x.inFlight := by
    intro l hl
    rw [hflight]
    simp only [List.mem_append, List.mem_cons] at hl ⊢
    tauto
  cases hev : letter.event with
  | none =>
    rw [hev] at hlet
    simp only [handleEventCompletion_print x.completions x.scheduler computeUnits hlet letter.core]
    refine ⟨h.ids_eq, h.ids_le, h.kernelID_eq, h.launch, h.idle,
      fun l hl => h.letters l (hletters l hl), ?_, h.accounted⟩
    intro ev l hl
    have hbal := h.balance ev l hl
    rw [hflight] at hbal
    simpa [List.countP_append, List.countP_cons, hev] using hbal
  | some event =>
    rw [hev] at hlet
    obtain ⟨l, hl, hcmd, htrans⟩ := hlet
    obtain ⟨hevlt, -, -, hn, hcmds⟩ := h.launch event l hl
    have hlow : event < 2 ^ 31 := by
      have hle := h.ids_le
      omega
    rw [← hcmd] at hcmds
    have hfrom := mailFrom_reply x.scheduler computeUnits hcmds letter.core
    rw [hfrom.1, hfrom.2, htrans]
    have hbal := h.balance event l hl
    rw [hflight, List.countP_append, List.countP_cons, hev] at hbal
    simp only [decide_true, if_true] at hbal
    have hmore : (x.received event).length < l.registered := by omega
    have hacc := h.accounted event l hl
    have hentry : ∀ d n, x.completions.pending.map event = some (d, n) → d = event := by
      intro d n hd
      rw [Accounted, if_pos hmore] at hacc
      rw [hacc.1] at hd
      simp only [Option.some.injEq, Prod.mk.injEq] at hd
      exact hd.1.symm
    refine ⟨h.ids_eq, h.ids_le, h.kernelID_eq, h.launch, ?_,
      fun l hl => h.letters l (hletters l hl), ?_, ?_⟩
    · intro ev hnew
      have hne : ev ≠ event := by
        rintro rfl
        rw [hl] at hnew
        simp at hnew
      obtain ⟨-, herr, hstat⟩ :=
        handleEventCompletion_frame letter.msg.retcode hlow hne hentry
      simp only [Function.update_of_ne hne, herr, hstat]
      exact h.idle ev hnew
    · intro ev l' hl'
      by_cases hne : ev = event
      · subst hne
        obtain rfl : l = l' := Option.some.inj (hl.symm.trans hl')
        simp only [Function.update_self, List.length_cons, List.countP_append]
        omega
      · have hbal' := h.balance ev l' hl'
        have hother : letter.event ≠ some ev := by
          rw [hev, Ne, Option.some.injEq]
          exact fun heq => hne heq.symm
        rw [hflight, List.countP_append, List.countP_cons_of_neg (by simpa using hother)] at hbal'
        simp only [Function.update_of_ne hne, List.countP_append]
        exact hbal'
    · intro ev l' hl'
      by_cases hne : ev = event
      · subst hne
        obtain rfl : l = l' := Option.some.inj (hl.symm.trans hl')
        simp only [Function.update_self]
        exact hacc.receive hlow hn hmore
      · obtain ⟨hmap, herr, hstat⟩ :=
          handleEventCompletion_frame letter.msg.retcode hlow hne hentry
        have hacc' := h.accounted ev l' hl'
        unfold Accounted at hacc' ⊢
        simp only [Function.update_of_ne hne, hmap, herr, hstat]
        exact hacc'

/-- Every step that meets the condition keeps the invariant. -/
lemma Inv.step {computeUnits : List ℕ} {x y : Traffic} {a : Action} (h : Inv x)
    (hstep : Step computeUnits x a y) (hok : ActionOk x a) : Inv y := by
  cases hstep with
  | construct => exact h.construct hok
  | launch hid hnew hwf hroot hmail => exact h.send hid hnew hwf hroot hmail hok
  | reply data hl hpos => exact h.sendReply data hl hpos
  | print core transId u => exact h.sendPrint core transId u
  | receive hflight _ => exact h.take computeUnits hflight

/-- The invariant holds in every state of such a run. -/
lemma Inv.of_runs {computeUnits : List ℕ} {x y : Traffic} (h : Inv x)
    (hruns : Runs computeUnits ActionOk x y) : Inv y := by
  induction hruns with
  | refl => exact h
  | tail _ hstep ih =>
    obtain ⟨a, hstep, hok⟩ := hstep
    exact ih.step hstep hok

/-- What is promised for a command that was sent: its entry in the map belongs to its event and counts
down with the replies received, and after the last reply the event has one status, which is
`Complete` if all replies carried success and otherwise the error code of a reply. -/
structure Routed (x : Traffic) (event : ℕ) (l : Launch) : Prop where
  id : x.ids[event]? = some l.msg.kernelId
  counted : (x.received event).length < l.registered →
    x.completions.pending.map l.msg.kernelId =
      some (event, l.registered - (x.received event).length) ∧
    ∀ s ∈ x.completions.statuses, s.1 ≠ event
  finished : x.toReply event = 0 → (∀ letter ∈ x.inFlight, letter.event ≠ some event) →
    ∃ status, x.completions.statuses.filter (fun s => s.1 = event) = [(event, status)] ∧
      (status = eventComplete ↔ ∀ r ∈ x.received event, r = clSuccess) ∧
      (status ≠ eventComplete → status ∈ x.received event)

/-- The invariant gives the promises for every command that was sent. -/
lemma Inv.routed {x : Traffic} (h : Inv x) {event : ℕ} {l : Launch}
    (hl : x.launches event = some l) : Routed x event l := by
  obtain ⟨hlt, hid, -, -, -⟩ := h.launch event l hl
  have hacc := h.accounted event l hl
  refine ⟨?_, fun hmore => ?_, fun hzero hnone => ?_⟩
  · rw [h.ids_eq, hid, List.getElem?_range hlt]
  · rw [Accounted, if_pos hmore] at hacc
    rw [hid]
    refine ⟨hacc.1, fun s hs heq => ?_⟩
    have hmem : s ∈ x.completions.statuses.filter (fun s => s.1 = event) :=
      List.mem_filter.mpr ⟨hs, by simpa using heq⟩
    rw [hacc.2.2] at hmem
    simp at hmem
  · have hcount : x.inFlight.countP (fun letter => letter.event = some event) = 0 :=
      List.countP_eq_zero.mpr fun letter hmem => by simpa using hnone letter hmem
    have hbal := h.balance event l hl
    rw [Accounted, if_neg (by omega)] at hacc
    refine ⟨_, hacc.2, ?_, fun hne => ?_⟩
    · rw [completionStatus_eq_complete]
      exact decidingCode_eq_success _
    · have hcode : decidingCode (x.received event) ≠ clSuccess :=
        fun hs => hne ((completionStatus_eq_complete _).mpr hs)
      rw [completionStatus, if_neg hcode]
      exact decidingCode_mem hcode

/-- In every run in which kernel events are constructed only while the counter is a non-negative
`int` and no broadcast task is sent, every reply is counted against its own event, the last one
gives the event the right status, and a print message is never counted. -/
theorem replies_routed (computeUnits : List ℕ) (s : CoreScheduler) (x : Traffic)
    (hruns : Runs computeUnits ActionOk (initial s) x) :
    (∀ event l, x.launches event = some l → Routed x event l) ∧
      ∀ msg core, msg.command = .print → x.completions.handleEventCompletion
        (mailFrom x.scheduler computeUnits msg core).1
        (mailFrom x.scheduler computeUnits msg core).2.1 = x.completions :=
  ⟨fun _ _ hl => ((inv_initial s).of_runs hruns).routed hl,
    fun _ core hmsg => handleEventCompletion_print _ _ _ hmsg core⟩

/-! ### A run with one kernel -/

/-- The in-order task with the given id. -/
def taskWithId (k : ℕ) : KernelEvent := { inOrderTask with kernelId := k }

/-- The in-order task with an id that fits is well-formed. -/
lemma taskWithId_wellFormed {k : ℕ} (hk : k < 2 ^ 32) : (taskWithId k).WellFormed where
  kernelId_lt := hk
  eventType_lt := inOrderTask_wellFormed.eventType_lt
  dims_pos := inOrderTask_wellFormed.dims_pos
  dims_le := inOrderTask_wellFormed.dims_le
  global_pos := inOrderTask_wellFormed.global_pos
  global_lt := inOrderTask_wellFormed.global_lt
  local_pos := inOrderTask_wellFormed.local_pos
  local_dvd := inOrderTask_wellFormed.local_dvd
  offset_lt := inOrderTask_wellFormed.offset_lt
  unused := inOrderTask_wellFormed.unused

/-- The state after `n` kernel events have been constructed. -/
def afterConstructs (s : CoreScheduler) (n : ℕ) : Traffic :=
  { initial s with
    kernelID := n % 2 ^ 32
    ids := (List.range n).map fun i => i % 2 ^ 32 }

/-- Any number of kernel events can be constructed. -/
lemma runs_afterConstructs {computeUnits : List ℕ} {ok : Traffic → Action → Prop}
    (s : CoreScheduler) (n : ℕ) (hok : ∀ m < n, ok (afterConstructs s m) .construct) :
    Runs computeUnits ok (initial s) (afterConstructs s n) := by
  induction n with
  | zero => exact .refl
  | succ n ih =>
    refine (ih fun m hm => hok m (by omega)).tail ⟨.construct, ?_, hok n (by omega)⟩
    have hnext : afterConstructs s (n + 1) =
        { afterConstructs s n with
          kernelID := wadd 32 (afterConstructs s n).kernelID 1
          ids := (afterConstructs s n).ids ++ [(afterConstructs s n).kernelID] } := by
      simp only [afterConstructs, wadd, List.range_succ, List.map_append, List.map_cons,
        List.map_nil, Nat.mod_add_mod]
    rw [hnext]
    exact .construct

/-- The completion handler after the task of the last constructed event was sent. -/
def afterLaunch (k : ℕ) : Completions ℕ :=
  { Completions.initial with pending := CompletePending.empty.push k k 1 }

/-- After `k + 1` constructions the last event can be sent to a device with one core, which replies
with success, and the host can receive the reply. -/
lemma exists_solo_run (ok : Traffic → Action → Prop) (s : CoreScheduler) {k : ℕ}
    (hk : k < 2 ^ 32) (hok : ∀ x a, (a = .construct → x.ids.length ≤ k) →
      (∀ event dev mon e, a = .launch event dev mon e → dev = oneCore) → ok x a) :
    ∃ x l, Runs [0] ok (initial s) x ∧ x.launches k = some l ∧ l.registered = 1 ∧
      x.toReply k = 0 ∧ x.inFlight = [] ∧ x.received k = [clSuccess] ∧
      x.completions = (afterLaunch k).handleEventCompletion (sint 32 k) clSuccess := by
  have hwf := taskWithId_wellFormed hk
  have hkid : (kernelMessage oneCore (taskWithId k)).kernelId = k :=
    kernelMessage_kernelId oneCore hwf
  have hcmd : (kernelMessage oneCore (taskWithId k)).command = .task := rfl
  have hooo : ¬ (kernelMessage oneCore (taskWithId k)).IsOooTask := by
    rw [kernelMessage_isOooTask]
    simp [taskWithId, inOrderTask]
  have hmail : mailTo s (kernelMessage oneCore (taskWithId k)) oneCore.computeUnits =
      some ([0], s) := by
    simp only [mailTo, hcmd, if_neg hooo]
    rfl
  have hmails : numHostMails oneCore (kernelMessage oneCore (taskWithId k)) = 1 :=
    numHostMails_task rfl
  have hreplies : ([0].filter fun core =>
      coreReplies ⟨false, 0, 1⟩ core (kernelMessage oneCore (taskWithId k))).length = 1 := by
    rw [length_filter_coreReplies hwf (fun _ => ⟨rfl, rfl⟩) hmail
      (by simp [BroadcastTask, oneCore]), hmails]
  have hret : (respondToHost (kernelMessage oneCore (taskWithId k)) k ⟨0, 0, 0, 0⟩).retcode =
      clSuccess := by
    rw [respondToHost_retcode _ _ (by decide)]
    decide
  have h₁ : Runs [0] ok (initial s) (afterConstructs s (k + 1)) :=
    runs_afterConstructs s (k + 1) fun m hm => hok _ _
      (fun _ => by simp only [afterConstructs, List.length_map, List.length_range]; omega)
      fun _ _ _ _ h => Action.noConfusion h
  have hids : (afterConstructs s (k + 1)).ids[k]? = some (taskWithId k).kernelId := by
    simp only [afterConstructs, List.getElem?_map, List.getElem?_range (Nat.lt_succ_self k),
      Option.map_some, Nat.mod_eq_of_lt hk]
    rfl
  -- the message is sent
  obtain ⟨x, hx, hl, hto, hfl, hrec, hc⟩ : ∃ x : Traffic, Runs [0] ok (initial s) x ∧
      x.launches k = some ⟨kernelMessage oneCore (taskWithId k), 1⟩ ∧ x.toReply k = 1 ∧
      x.inFlight = [] ∧ x.received k = [] ∧ x.completions = afterLaunch k := by
    refine ⟨_, h₁.tail ⟨.launch k oneCore ⟨false, 0, 1⟩ (taskWithId k),
      .launch hids rfl hwf (fun _ => ⟨rfl, rfl⟩) hmail, hok _ _ (fun h => Action.noConfusion h)
        fun _ _ _ _ h => (Action.launch.inj h).2.1.symm⟩, ?_, ?_, rfl, rfl, ?_⟩
    · simp only [Function.update_self, hmails]
    · simp only [Function.update_self, hreplies]
    · simp only [hmails]
      rfl
  -- the core replies
  obtain ⟨y, hy, hyl, hyto, hyfl, hyrec, hyc⟩ : ∃ y : Traffic, Runs [0] ok (initial s) y ∧
      y.launches k = some ⟨kernelMessage oneCore (taskWithId k), 1⟩ ∧ y.toReply k = 0 ∧
      y.inFlight = [⟨some k, 0, respondToHost (kernelMessage oneCore (taskWithId k)) k
        ⟨0, 0, 0, 0⟩⟩] ∧ y.received k = [] ∧ y.completions = afterLaunch k := by
    refine ⟨_, hx.tail ⟨.reply k 0 ⟨0, 0, 0, 0⟩, .reply ⟨0, 0, 0, 0⟩ hl (by omega),
      hok _ _ (fun h => Action.noConfusion h) fun _ _ _ _ h => Action.noConfusion h⟩,
      hl, ?_, ?_, hrec, hc⟩
    · simp only [Function.update_self, hto]
    · simp only [hfl, hkid]
  -- the host receives the reply
  have hflight : y.inFlight = [] ++ ⟨some k, 0, respondToHost
      (kernelMessage oneCore (taskWithId k)) k ⟨0, 0, 0, 0⟩⟩ :: [] := hyfl
  have hpending : 0 < y.completions.pending.numElements := by
    rw [hyc]
    exact Int.one_pos
  refine ⟨_, _, hy.tail ⟨.receive _, .receive hflight hpending,
    hok _ _ (fun h => Action.noConfusion h) fun _ _ _ _ h => Action.noConfusion h⟩,
    hyl, rfl, hyto, rfl, ?_, ?_⟩
  · simp only [Function.update_self, hyrec, hret]
  · have hreply : (respondToHost (kernelMessage oneCore (taskWithId k)) k
        ⟨0, 0, 0, 0⟩).command = .task := hcmd
    have hfrom := mailFrom_reply y.scheduler [0] (Or.inl hreply) 0
    simp only [hfrom.1, hfrom.2, hret, hyc]
    rfl

/-- The first kernel of a process, sent to a device with one core, ends with one status. -/
theorem replies_routed_first_kernel : ∃ x status,
    Runs [0] ActionOk (initial ⟨4, fun _ => 0⟩) x ∧ x.received 0 = [clSuccess] ∧
      x.completions.statuses.filter (fun s => s.1 = 0) = [(0, status)] ∧
      status = eventComplete := by
  obtain ⟨x, l, hx, hl, -, hto, hfl, hrec, -⟩ :=
    exists_solo_run ActionOk (k := 0) ⟨4, fun _ => 0⟩ (by decide) (by
      rintro x (_ | ⟨event, dev, mon, e⟩ | _ | _ | _) hids hdev
      · have hzero := hids rfl
        simp only [ActionOk]
        omega
      · obtain rfl := hdev event dev mon e rfl
        simp [ActionOk, BroadcastTask, oneCore]
      · trivial
      · trivial
      · trivial)
  obtain ⟨status, hstatus, hcomplete, -⟩ :=
    ((replies_routed [0] ⟨4, fun _ => 0⟩ x hx).1 0 l hl).finished hto (by simp [hfl])
  exact ⟨x, status, hx, hrec, hstatus, hcomplete.mpr (by simp [hrec])⟩

/-- The id of the kernel event number `2 ^ 31` is negative as an `int`: its only reply is received,
but the event gets no status. -/
theorem reply_dropped_after_two_pow_31 : ∃ x l,
    Runs [0] (fun _ _ => True) (initial ⟨4, fun _ => 0⟩) x ∧ x.launches (2 ^ 31) = some l ∧
      l.registered = 1 ∧ x.toReply (2 ^ 31) = 0 ∧ x.inFlight = [] ∧
      x.received (2 ^ 31) = [clSuccess] ∧ x.completions.statuses = [] := by
  obtain ⟨x, l, hx, hl, hreg, hto, hfl, hrec, hc⟩ :=
    exists_solo_run (fun _ _ => True) (k := 2 ^ 31) ⟨4, fun _ => 0⟩ (by decide)
      (fun _ _ _ _ => trivial)
  refine ⟨x, l, hx, hl, hreg, hto, hfl, hrec, ?_⟩
  have hneg : sint 32 (2 ^ 31) < 0 := by decide
  rw [hc, Completions.handleEventCompletion, if_pos hneg]
  rfl

end Traffic

end TiOpenCL
