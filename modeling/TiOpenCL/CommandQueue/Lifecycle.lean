import TiOpenCL.CommandQueue.Invariant

/-!
# The way of a command through its device

A command that is started is in exactly one place: in the list of its device, in the hands of a
worker that begins it, in execution, or ended (`DevicesOk.token`).  No event is started twice.
-/

namespace TiOpenCL.CommandQueue

open Machine

/-- The list of the device that an event belongs to. -/
def deviceList (c : Core) (e : ℕ) : List ℕ :=
  match (c.event e).parent with
  | some q => c.device (c.queue q).device
  | none => []

/-- The workers that have taken a command and do not execute it yet. -/
def workerWeight (e : ℕ) : Frame → ℕ
  | .begin e' | .execute e' => if e' = e then 1 else 0
  | _ => 0

/-- The places in which a command is, the workers apart. -/
def places (c : Core) (e : ℕ) : ℕ :=
  (deviceList c e).count e + c.executing.count e + c.ended.count e

/-- How often a command was started. -/
def starts (c : Core) (e : ℕ) : ℕ :=
  if (c.event e).kind = .command then c.started.count e else 0

/-- What holds of the devices and of the started events. -/
structure DevicesOk (s : State) : Prop where
  listed : ∀ dev, ∀ e ∈ s.device dev, e < s.numEvents ∧
    ∃ q, (s.event e).parent = some q ∧ (s.queue q).device = dev
  executing : ∀ e ∈ s.executing, e < s.numEvents
  ended : ∀ e ∈ s.ended, e < s.numEvents
  started : ∀ e ∈ s.started, e < s.numEvents ∧ e ∈ s.queuedLog
  nodup : s.started.Nodup
  fresh : ∀ q, ∀ e ∈ (s.queue q).events, e ∈ s.started → (s.event e).status ≠ queued
  token : ∀ e < s.numEvents, places s.toCore e + total (workerWeight e) s.threads = starts s.toCore e

/-- What a traversal starts is a part of the list. -/
lemma started_sublist_scan (event : ℕ → Event) (outOfOrder : Bool) (ready : Option ℕ) (first : Bool)
    (traversed : ℕ) (es : List ℕ) :
    (scan event outOfOrder ready first traversed es).started.Sublist es := by
  fun_induction scan event outOfOrder ready first traversed es <;>
    simp_all [Scan.started, Scan.stop, Scan.keep, Scan.remove, Scan.push, List.Sublist.cons]

/-- A traversal gives commands to the device and takes the others. -/
lemma kind_of_scan (event : ℕ → Event) (outOfOrder : Bool) (ready : Option ℕ) (first : Bool)
    (traversed : ℕ) (es : List ℕ) :
    (∀ e ∈ (scan event outOfOrder ready first traversed es).pushed,
        (event e).kind = .command) ∧
      ∀ e, (scan event outOfOrder ready first traversed es).taken = some e →
        (event e).kind ≠ .command := by
  fun_induction scan event outOfOrder ready first traversed es <;>
    grind [Scan.stop, Scan.keep, Scan.remove, Scan.push, Kind.isInstantaneous]

/-- What is taken does not stay in the list. -/
lemma not_mem_kept_of_taken {event : ℕ → Event} {outOfOrder : Bool} {ready : Option ℕ}
    {first : Bool} {traversed : ℕ} {es : List ℕ} {e : ℕ} (hes : es.Nodup)
    (h : (scan event outOfOrder ready first traversed es).taken = some e) :
    e ∉ (scan event outOfOrder ready first traversed es).kept := by
  fun_induction scan event outOfOrder ready first traversed es <;>
    grind [Scan.stop, Scan.keep, Scan.remove, Scan.push, mem_started_scan, Scan.started]

/-- The places of an event depend on its queue and the lists alone. -/
lemma places_congr {c c' : Core} {e : ℕ} (hp : (c'.event e).parent = (c.event e).parent)
    (hq : ∀ q, (c'.queue q).device = (c.queue q).device) (hd : c'.device = c.device)
    (hx : c'.executing = c.executing) (he : c'.ended = c.ended) : places c' e = places c e := by
  simp only [places, deviceList, hp, hq, hd, hx, he]

/-- A traversal gives to the device what it starts. -/
lemma places_applyScan (c : Core) {q : ℕ} (ready : Option ℕ) (oneCompleted : Bool)
    (hl : ∀ e ∈ (c.queue q).events, (c.event e).parent = some q) (e : ℕ) :
    places (c.applyScan q ((c.queue q).count oneCompleted) (c.scan q ready)) e + starts c e =
      places c e + starts (c.applyScan q ((c.queue q).count oneCompleted) (c.scan q ready)) e := by
  have hkind := kind_of_scan c.event (c.queue q).outOfOrder ready true 0 (c.queue q).events
  rw [← Core.scan] at hkind
  have hmem : ∀ e ∈ (c.scan q ready).pushed, (c.event e).parent = some q := fun e he =>
    hl e (mem_started_scan (List.mem_append.mpr (Or.inl he))).1
  obtain ⟨-, hdev, -⟩ := Queue.count_outOfOrder_device (c.queue q) oneCompleted
  have hle := Core.le_applyScan c q (c.scan q ready)
    (Queue.count_outOfOrder_device (c.queue q) oneCompleted).1 hdev
  generalize hsc : c.scan q ready = sc at *
  have hpar : ∀ e, ((c.applyScan q ((c.queue q).count oneCompleted) sc).event e).parent =
      (c.event e).parent := by
    intro e
    simp only [Core.applyScan]
    split <;> rfl
  have hkd : ∀ e, ((c.applyScan q ((c.queue q).count oneCompleted) sc).event e).kind =
      (c.event e).kind := by
    intro e
    simp only [Core.applyScan]
    split <;> rfl
  have hstart : starts (c.applyScan q ((c.queue q).count oneCompleted) sc) e =
      starts c e + sc.pushed.count e := by
    simp only [starts, hkd]
    simp only [Core.applyScan]
    by_cases hcmd : (c.event e).kind = .command
    · have htaken : sc.taken.toList.count e = 0 := by
        rw [List.count_eq_zero]
        intro hin
        exact hkind.2 e (by simpa using hin) hcmd
      rw [if_pos hcmd, if_pos hcmd, List.count_append, List.count_append, htaken]
      omega
    · have hpush : sc.pushed.count e = 0 := by
        rw [List.count_eq_zero]
        exact fun hin => hcmd (hkind.1 e hin)
      rw [if_neg hcmd, if_neg hcmd, hpush]
  have hplace : (deviceList (c.applyScan q ((c.queue q).count oneCompleted) sc) e).count e =
      (deviceList c e).count e + sc.pushed.count e := by
    simp only [deviceList, hpar]
    cases hp : (c.event e).parent with
    | none =>
      have hpush : sc.pushed.count e = 0 := by
        rw [List.count_eq_zero]
        intro hin
        rw [hmem e hin] at hp
        cases hp
      simp [hpush]
    | some q' =>
      simp only [hle.device]
      simp only [Core.applyScan, hdev]
      by_cases hsame : (c.queue q').device = (c.queue q).device
      · rw [hsame, Function.update_self, List.count_append]
      · have hpush : sc.pushed.count e = 0 := by
          rw [List.count_eq_zero]
          intro hin
          rw [hmem e hin] at hp
          cases hp
          exact hsame rfl
        rw [Function.update_of_ne hsame, hpush, Nat.add_zero]
  have hrest : (c.applyScan q ((c.queue q).count oneCompleted) sc).executing = c.executing ∧
      (c.applyScan q ((c.queue q).count oneCompleted) sc).ended = c.ended := ⟨rfl, rfl⟩
  simp only [places, hplace, hstart, hrest.1, hrest.2]
  omega

/-- A critical section moves a command on, or starts it. -/
lemma Effect.tokens {c c' : Core} {f : Frame} {fs : List Frame} (h : Effect c f c' fs)
    (hl : ∀ q, ∀ e ∈ (c.queue q).events, (c.event e).parent = some q) {e : ℕ}
    (he : e < c.numEvents) :
    (fs.map (workerWeight e)).sum + places c' e + starts c e =
      workerWeight e f + places c e + starts c' e := by
  have hle := h.le
  have hsame : c'.device = c.device → c'.executing = c.executing → c'.ended = c.ended →
      c'.started = c.started → places c' e = places c e ∧ starts c' e = starts c e := by
    intro hd hx hend hst
    exact ⟨places_congr (hle.parent e he) hle.device hd hx hend,
      by simp only [starts, hle.kind e he, hst]⟩
  cases h
  case pushed q ready oneCompleted _ _ | took q _ ready oneCompleted _ _ =>
    have hplaces := places_applyScan c ready oneCompleted (hl q) e
    simp only [List.map_nil, List.sum_nil, List.map_cons, List.sum_cons, workerWeight]
    omega
  case executed e' =>
    simp only [List.map_nil, List.sum_nil, places, deviceList, starts, workerWeight,
      List.count_cons, beq_iff_eq]
    omega
  case cleaned q =>
    obtain ⟨hp, hst⟩ := hsame (by rw [cleanEvents]; split <;> rfl)
      (by rw [cleanEvents]; split <;> rfl) (by rw [cleanEvents]; split <;> rfl)
      (by rw [cleanEvents]; split <;> rfl)
    simp only [hp, hst, List.map_nil, List.sum_nil, workerWeight]
  case built failed blocking _ =>
    obtain ⟨hp, hst⟩ := hsame rfl rfl rfl rfl
    rw [hp, hst]
    cases failed <;> simp [workerWeight]
  case appended blocking _ =>
    obtain ⟨hp, hst⟩ := hsame rfl rfl rfl rfl
    rw [hp, hst]
    cases blocking <;> simp [workerWeight]
  case notifiedAll pushed _ _ => cases pushed <;> simp [workerWeight]
  case notifiedReady | notified | propagated =>
    obtain ⟨hp, hst⟩ := hsame rfl rfl rfl rfl
    rw [hp, hst, releaseFrames]
    split <;> simp [workerWeight]
  all_goals
    obtain ⟨hp, hst⟩ := hsame rfl rfl rfl rfl
    rw [hp, hst]
    simp [workerWeight]

/-! ### Steps keep it -/

/-- What is started or executed after a critical section. -/
lemma Effect.started {c c' : Core} {f : Frame} {fs : List Frame} (h : Effect c f c' fs) :
    c'.started = c.started ∨ ∃ q ready oneCompleted, f = .push q ready oneCompleted ∧
      c'.started = c.started ++ (c.scan q ready).started ∧
      c' = c.applyScan q ((c.queue q).count oneCompleted) (c.scan q ready) := by
  cases h
  case pushed q ready oneCompleted _ _ | took q _ ready oneCompleted _ _ =>
    exact Or.inr ⟨q, ready, oneCompleted, rfl, rfl, rfl⟩
  case cleaned =>
    rw [cleanEvents]
    split <;> exact Or.inl rfl
  all_goals exact Or.inl rfl

/-- The devices after a critical section: only a traversal gives them events. -/
lemma Effect.device {c c' : Core} {f : Frame} {fs : List Frame} (h : Effect c f c' fs)
    {dev e : ℕ} (he : e ∈ c'.device dev) :
    e ∈ c.device dev ∨ ∃ q, e ∈ (c.queue q).events ∧ (c.queue q).device = dev := by
  cases h
  case pushed q ready oneCompleted _ _ | took q _ ready oneCompleted _ _ =>
    obtain ⟨-, hdev, -⟩ := Queue.count_outOfOrder_device (c.queue q) oneCompleted
    simp only [Core.applyScan, hdev] at he
    by_cases hd : dev = (c.queue q).device
    · rw [hd, Function.update_self, List.mem_append] at he
      rcases he with hold | hnew
      · exact Or.inl (hd ▸ hold)
      · exact Or.inr ⟨q, (mem_started_scan (List.mem_append.mpr (Or.inl hnew))).1, hd.symm⟩
    · rw [Function.update_of_ne hd] at he
      exact Or.inl he
  case cleaned =>
    rw [cleanEvents] at he
    split at he <;> exact Or.inl he
  all_goals exact Or.inl he

/-- The commands in execution and those that have ended, after a critical section. -/
lemma Effect.executing {c c' : Core} {f : Frame} {fs : List Frame} (h : Effect c f c' fs) :
    c'.ended = c.ended ∧ (c'.executing = c.executing ∨
      ∃ e, f = .execute e ∧ c'.executing = e :: c.executing) := by
  cases h
  case executed e => exact ⟨rfl, Or.inr ⟨e, rfl, rfl⟩⟩
  case cleaned =>
    rw [cleanEvents]
    split <;> exact ⟨rfl, Or.inl rfl⟩
  all_goals exact ⟨rfl, Or.inl rfl⟩

/-- No critical section makes an event queued again. -/
lemma Effect.status_ne_queued {c c' : Core} {f : Frame} {fs : List Frame} (h : Effect c f c' fs)
    (hf : FrameOk c f) {e : ℕ} (he : e < c.numEvents) (hs : (c.event e).status ≠ queued) :
    (c'.event e).status ≠ queued := by
  cases h
  case cleaned =>
    rw [cleanEvents]
    split <;> exact hs
  case completed | failed | set | began =>
    simp only [setStatusHelper, Core.setEvent, Function.update_apply]
    grind [FrameOk, queued, complete, running]
  case created =>
    simp only [newEvent, Core.setEvent, Function.update_of_ne (Nat.ne_of_lt he)]
    exact hs
  case skipped | noticed | registered | built | notifiedReady | notified | propagated =>
    simp only [nextWait, addDependentEvent, removeWaitEvent, Core.setEvent, Function.update_apply]
    grind
  case pushed | took =>
    simp only [Core.applyScan]
    grind [submitted, queued]
  all_goals exact hs

/-- Nothing is known of an event that is not there yet, and a new event adds nothing. -/
lemma DevicesOk.token_new {s : State} (h : DevicesOk s) (hw : Wellformed s) {c : Core} {e : ℕ}
    (he : s.numEvents ≤ e) (hd : c.device = s.device) (hx : c.executing = s.executing)
    (hend : c.ended = s.ended) (hst : c.started = s.started) :
    places c e + total (workerWeight e) s.threads = starts c e := by
  have hdev : ∀ dev, e ∉ c.device dev := fun dev hin => by
    rw [hd] at hin
    exact absurd (h.listed dev e hin).1 (not_lt.mpr he)
  have hlist : (deviceList c e).count e = 0 := by
    rw [List.count_eq_zero, deviceList]
    split
    · exact hdev _
    · exact List.not_mem_nil
  have hexec : c.executing.count e = 0 := by
    rw [List.count_eq_zero, hx]
    exact fun hin => absurd (h.executing e hin) (not_lt.mpr he)
  have hended : c.ended.count e = 0 := by
    rw [List.count_eq_zero, hend]
    exact fun hin => absurd (h.ended e hin) (not_lt.mpr he)
  have hstarts : starts c e = 0 := by
    rw [starts, hst, List.count_eq_zero.mpr fun hin => absurd (h.started e hin).1 (not_lt.mpr he)]
    split <;> rfl
  have hwork : total (workerWeight e) s.threads = 0 := by
    by_contra hpos
    obtain ⟨f, hf, hwt⟩ := exists_runs_of_total_pos (Nat.pos_of_ne_zero hpos)
    have hok := hw.frames f hf
    cases f <;> grind [workerWeight, FrameOk]
  rw [places, hlist, hexec, hended, hstarts, hwork]

/-- A step of a thread keeps the devices in order. -/
lemma DevicesOk.thread {s : State} {c : Core} {f : Frame} {rest fs : List Frame} {t : ℕ}
    (h : DevicesOk s) (hw : Wellformed s) (ht : s.threads[t]? = some (f :: rest))
    (heff : Effect s.toCore f c fs) : DevicesOk ⟨c, advance s.threads t fs⟩ := by
  have hle := heff.le
  have hf := hw.frames _ (next_of_getElem? ht).runs
  have hpar : ∀ q, ∀ e ∈ (s.queue q).events, (s.event e).parent = some q := fun q e he =>
    (hw.queues.listed q e he).2.2.1
  constructor
  · intro dev e he
    rcases heff.device he with hold | ⟨q, hmem, hd⟩
    · obtain ⟨hlt, q, hq, hdev⟩ := h.listed dev e hold
      exact ⟨hlt.trans_le hle.num, q, (hle.parent e hlt).trans hq, (hle.device q).trans hdev⟩
    · obtain ⟨hlt, -, hp, -⟩ := hw.queues.listed q e hmem
      exact ⟨hlt.trans_le hle.num, q, (hle.parent e hlt).trans hp, (hle.device q).trans hd⟩
  · intro e he
    rcases heff.executing.2 with hsame | ⟨e', rfl, hcons⟩
    · exact (h.executing e (hsame ▸ he)).trans_le hle.num
    · rcases List.mem_cons.mp (hcons ▸ he) with rfl | hold
      · exact Nat.lt_of_lt_of_le hf hle.num
      · exact (h.executing e hold).trans_le hle.num
  · intro e he
    exact (h.ended e (heff.executing.1 ▸ he)).trans_le hle.num
  · intro e he
    have hold : e ∈ s.started → e < c.numEvents ∧ e ∈ c.queuedLog := fun hin =>
      ⟨(h.started e hin).1.trans_le hle.num, hle.queuedLog.subset (h.started e hin).2⟩
    rcases heff.started with hsame | ⟨q, ready, o, -, happ, -⟩
    · exact hold (hsame ▸ he)
    · rcases List.mem_append.mp (happ ▸ he) with hin | hnew
      · exact hold hin
      · obtain ⟨hlt, -, -, hlog⟩ := hw.queues.listed q e (mem_started_scan hnew).1
        exact ⟨hlt.trans_le hle.num, hle.queuedLog.subset hlog⟩
  · rcases heff.started with hsame | ⟨q, ready, o, -, happ, -⟩
    · exact hsame ▸ h.nodup
    · have hnew : (s.scan q ready).started.Nodup :=
        (hw.queues.nodup q).sublist (started_sublist_scan _ _ _ _ _ _)
      change c.started.Nodup
      rw [happ, List.nodup_append]
      refine ⟨h.nodup, hnew, fun x hx y hy => ?_⟩
      rintro rfl
      obtain ⟨hmem, hst, -⟩ := mem_started_scan hy
      exact h.fresh q x hmem hx hst
  · intro q e he hst
    have hkeep : e ∈ (s.queue q).events → e ∈ s.started → (c.event e).status ≠ queued :=
      fun hmem hin => heff.status_ne_queued hf (hw.queues.listed q e hmem).1 (h.fresh q e hmem hin)
    rcases heff.started with hsame | ⟨q', ready, o, rfl, happ, hc⟩
    · have hin : e ∈ s.started := hsame ▸ hst
      rcases heff.events q with hsub | ⟨e', blocking, rfl, -, hev, -⟩
      · exact hkeep (hsub.subset he) hin
      · rcases List.mem_append.mp (hev ▸ he) with hmem | hlast
        · exact hkeep hmem hin
        · rw [List.mem_singleton] at hlast
          subst hlast
          exact absurd (h.started e hin).2
            (hw.queues.not_mem_queuedLog (next_of_getElem? ht).runs (by simp [entryWeight]))
    · have hmem : e ∈ (s.queue q).events := by
        rcases heff.events q with hsub | ⟨e', blocking, hfr, -⟩
        · exact hsub.subset he
        · cases hfr
      rcases List.mem_append.mp (happ ▸ hst) with hin | hnew
      · exact hkeep hmem hin
      · have hq : q = q' := Option.some.inj
          ((hpar q e hmem).symm.trans (hpar q' e (mem_started_scan hnew).1))
        subst hq
        rcases List.mem_append.mp hnew with hpush | htake
        · have hsub : (c.event e).status = submitted := by
            rw [hc]
            simp only [Core.applyScan, if_pos hpush]
          rw [hsub]
          decide
        · have hkept : e ∈ (s.scan q ready).kept := by
            have he' : e ∈ (c.queue q).events := he
            rw [hc] at he'
            simpa [Core.applyScan] using he'
          have htaken : (s.scan q ready).taken = some e := by simpa using htake
          exact absurd hkept (not_mem_kept_of_taken (hw.queues.nodup q) htaken)
  · intro e he
    by_cases hold : e < s.numEvents
    · have htok := heff.tokens hpar hold
      have htot := total_advance (workerWeight e) fs ht
      have hinv := h.token e hold
      change places c e + total (workerWeight e) (advance s.threads t fs) = starts c e
      omega
    · -- the event is the one that this step has created
      have hcreated : c.device = s.device ∧ c.executing = s.executing ∧ c.ended = s.ended ∧
          c.started = s.started ∧ total (workerWeight e) (advance s.threads t fs) =
            total (workerWeight e) s.threads := by
        have htot := total_advance (workerWeight e) fs ht
        cases heff
        case created => exact ⟨rfl, rfl, rfl, rfl, by simpa [workerWeight] using htot⟩
        case cleaned =>
          rw [cleanEvents] at he
          split at he <;> exact absurd he hold
        all_goals exact absurd he hold
      obtain ⟨hd, hx, hend, hst, hwork⟩ := hcreated
      have hnew := h.token_new hw (not_lt.mp hold) hd hx hend hst
      change places c e + total (workerWeight e) (advance s.threads t fs) = starts c e
      rw [hwork]
      exact hnew

/-- A new thread keeps the devices in order if the places of the commands and its frames together
do. -/
lemma DevicesOk.spawn {s : State} {c : Core} {frames : List Frame} (h : DevicesOk s)
    (hev : c.event = s.event) (hq : c.queue = s.queue) (hnum : c.numEvents = s.numEvents)
    (hlog : c.queuedLog = s.queuedLog) (hst : c.started = s.started)
    (hdev : ∀ dev, c.device dev ⊆ s.device dev) (hexec : c.executing ⊆ s.executing)
    (hended : ∀ e ∈ c.ended, e < s.numEvents)
    (htok : ∀ e < s.numEvents,
      places c e + (frames.map (workerWeight e)).sum = places s.toCore e) :
    DevicesOk (State.spawn ⟨c, s.threads⟩ frames) := by
  constructor
  · intro dev e he
    obtain ⟨hlt, q, hp, hd⟩ := h.listed dev e (hdev dev he)
    simp only [State.spawn, hev, hq, hnum]
    exact ⟨hlt, q, hp, hd⟩
  · intro e he
    simp only [State.spawn, hnum]
    exact h.executing e (hexec he)
  · intro e he
    simp only [State.spawn, hnum]
    exact hended e he
  · intro e he
    simp only [State.spawn, hnum, hlog] at he ⊢
    exact h.started e (hst ▸ he)
  · simp only [State.spawn, hst]
    exact h.nodup
  · intro q e he hin
    simp only [State.spawn, hq, hst, hev] at he hin ⊢
    exact h.fresh q e he hin
  · intro e he
    simp only [State.spawn, hnum] at he ⊢
    rw [total_append]
    have hstarts : starts c e = starts s.toCore e := by simp only [starts, hev, hst]
    have hold := h.token e he
    have hnew := htok e he
    rw [hstarts]
    omega

/-- Every step keeps the devices in order. -/
theorem DevicesOk.move {s s' : State} {a : Action} (h : DevicesOk s) (hw : Wellformed s)
    (hm : Move s a s') : DevicesOk s' := by
  cases hm with
  | createUserEvent =>
    have hle := Core.le_newEvent s.toCore .user none [] submitted true
    constructor
    · intro dev e he
      obtain ⟨hlt, q, hp, hd⟩ := h.listed dev e he
      exact ⟨hlt.trans_le hle.num, q, (hle.parent e hlt).trans hp, hd⟩
    · exact fun e he => (h.executing e he).trans_le hle.num
    · exact fun e he => (h.ended e he).trans_le hle.num
    · exact fun e he => ⟨(h.started e he).1.trans_le hle.num, (h.started e he).2⟩
    · exact h.nodup
    · intro q e he hin
      have hlt := (hw.queues.listed q e he).1
      simp only [newEvent, Core.setEvent, Function.update_of_ne (Nat.ne_of_lt hlt)]
      exact h.fresh q e he hin
    · intro e he
      by_cases hold : e < s.numEvents
      · have hp : places (newEvent s.toCore .user none [] submitted true) e = places s.toCore e :=
          places_congr (hle.parent e hold) hle.device rfl rfl rfl
        have hst : starts (newEvent s.toCore .user none [] submitted true) e = starts s.toCore e := by
          simp only [starts, hle.kind e hold]
          rfl
        simp only [hp, hst]
        exact h.token e hold
      · exact h.token_new hw (not_lt.mp hold) rfl rfl rfl rfl
  | enqueue hk hwl =>
    exact h.spawn rfl rfl rfl rfl rfl (fun _ _ hx => hx) (fun _ hx => hx) h.ended
      (by simp [workerWeight])
  | setUserEventStatus he hk hs hsub =>
    exact h.spawn rfl rfl rfl rfl rfl (fun _ _ hx => hx) (fun _ hx => hx) h.ended
      (by simp [workerWeight])
  | flush =>
    exact h.spawn rfl rfl rfl rfl rfl (fun _ _ hx => hx) (fun _ hx => hx) h.ended
      (by simp [workerWeight])
  | finish =>
    exact h.spawn rfl rfl rfl rfl rfl (fun _ _ hx => hx) (fun _ hx => hx) h.ended
      (by simp [workerWeight])
  | @dispatch dev e es hd =>
    refine h.spawn (c := { s.toCore with device := Function.update s.device dev es }) rfl rfl rfl
      rfl rfl ?_ (fun _ hx => hx) h.ended ?_
    · intro dev' x hx
      have hx' : x ∈ Function.update s.device dev es dev' := hx
      by_cases hdd : dev' = dev
      · subst hdd
        rw [Function.update_self] at hx'
        rw [hd]
        exact List.mem_cons_of_mem _ hx'
      · rwa [Function.update_of_ne hdd] at hx'
    · intro e' he'
      simp only [places, deviceList, List.map_cons, List.map_nil, List.sum_cons, List.sum_nil,
        workerWeight]
      by_cases heq : e = e'
      · subst heq
        obtain ⟨-, q, hp, hdev⟩ := h.listed dev e (by rw [hd]; simp)
        rw [hp]
        simp only [hdev, Function.update_self, hd, List.count_cons_self, if_true]
        omega
      · rw [if_neg heq]
        cases hp : (s.event e').parent with
        | none => rfl
        | some q =>
          simp only
          by_cases hdd : (s.queue q).device = dev
          · rw [hdd, Function.update_self, hd, List.count_cons_of_ne heq]
            omega
          · rw [Function.update_of_ne hdd]
            omega
  | @endCommand e status he hs =>
    refine h.spawn (c := { s.toCore with
      executing := s.executing.erase e, ended := e :: s.ended }) rfl rfl rfl rfl rfl
      (fun _ _ hx => hx) List.erase_subset ?_ ?_
    · intro x hx
      rcases List.mem_cons.mp hx with rfl | hold
      · exact h.executing x he
      · exact h.ended x hold
    · intro e' he'
      have hpos := List.count_pos_iff.mpr he
      simp only [places, deviceList, List.map_cons, List.map_nil, List.sum_cons, List.sum_nil,
        workerWeight, List.count_cons, List.count_erase, beq_iff_eq]
      by_cases heq : e = e'
      · subst heq
        simp only [if_true]
        omega
      · simp only [if_neg heq]
        omega
  | thread ht hf => exact h.thread hw ht hf
  | giveUp ht =>
    refine ⟨h.listed, h.executing, h.ended, h.started, h.nodup, h.fresh, fun e' he' => ?_⟩
    have htot := total_advance (workerWeight e') [] ht
    have hold := h.token e' he'
    simp only [workerWeight, List.map_nil, List.sum_nil, Nat.add_zero] at htot
    simp only [htot]
    exact hold

end TiOpenCL.CommandQueue
