import TiOpenCL.Edma.Channels

/-!
# The pool of EDMA channels

The pool and the channel manager agree if the entries that have a channel have different ones and all of
them are allocated (`PoolOk`).  The functions of the pool keep this: the copies (`CopySpec.copy`), the
waits, freeing the pool, and the startup (`poolOk_startUp`).
-/

namespace TiOpenCL

namespace Edma

variable {n : ℕ} {Handle : Type} [DecidableEq Handle]

/-! ### The pool and the channel manager -/

/-- An entry of the pool has a channel. -/
def Core.Held (s : Core n Handle) (i : Fin n) : Prop := (s.pool i).status ≠ .notAllocated

/-- The pool and the channel manager agree. -/
structure PoolOk (s : Core n Handle) : Prop where
  /-- No entry has the status of `memcpy_event`. -/
  notMemcpy : ∀ i, (s.pool i).status ≠ .memcpy
  /-- The entries that have a channel have one that is allocated. -/
  held : ∀ i, s.Held i → ∃ h ∈ allocated s.calls, (s.pool i).channel = some h
  /-- They have different ones. -/
  distinct : ∀ i j, s.Held i → s.Held j → (s.pool i).channel = (s.pool j).channel → i = j
  /-- The entry that is taken first is available. -/
  available : ∀ i, s.available = some i → (s.pool i).status = .available
  /-- Only channels that were allocated have been used. -/
  uses : UsesAllocated s.calls

/-- A channel that a call does not get or give back is allocated as before. -/
def Call.Keeps (c : Call Handle) : Prop := ∀ calls, allocated (c :: calls) = allocated calls

namespace PoolOk

variable {s : Core n Handle}

/-- A call that uses an allocated channel and keeps it. -/
lemma issue (h : PoolOk s) {c : Call Handle} (hkeeps : c.Keeps)
    (huses : ∀ x, c.uses = some x → x ∈ allocated s.calls) : PoolOk (s.issue c) := by
  refine ⟨h.notMemcpy, fun i hi => ?_, h.distinct, h.available, huses, h.uses⟩
  obtain ⟨x, hx, hchannel⟩ := h.held i hi
  refine ⟨x, ?_, hchannel⟩
  show x ∈ allocated (c :: s.calls)
  rwa [hkeeps]

/-- Only the memories change. -/
lemma of_contents (h : PoolOk s) (m : Contents) : PoolOk { s with contents := m } :=
  ⟨h.notMemcpy, h.held, h.distinct, h.available, h.uses⟩

/-- The table of the channels of the kernel changes. -/
lemma of_intra (h : PoolOk s) (l : List Handle) : PoolOk { s with intra := l } :=
  ⟨h.notMemcpy, h.held, h.distinct, h.available, h.uses⟩

/-- The channel of an entry is allocated. -/
lemma channel_mem (h : PoolOk s) {i : Fin n} (hi : s.Held i) {x : Handle}
    (hx : (s.pool i).channel = some x) : x ∈ allocated s.calls := by
  obtain ⟨y, hy, hchannel⟩ := h.held i hi
  obtain rfl : y = x := Option.some.inj (hchannel.symm.trans hx)
  exact hy

/-- An entry that keeps its channel gets another status. -/
lemma setStatus (h : PoolOk s) {i : Fin n} (hi : s.Held i) {status : CopyEventStatus}
    (hstatus : status ≠ .memcpy) {available : Option (Fin n)}
    (hav : ∀ j, available = some j → ((s.setStatus i status).pool j).status = .available) :
    PoolOk { s.setStatus i status with available := available } := by
  have hpool : ∀ j, ((s.setStatus i status).pool j).channel = (s.pool j).channel := by
    intro j
    show (Function.update s.pool i { s.pool i with status := status } j).channel = _
    rcases eq_or_ne j i with rfl | hne
    · rw [Function.update_self]
    · rw [Function.update_of_ne hne]
  have hheld : ∀ j, (s.setStatus i status).Held j → s.Held j := by
    intro j hj
    rcases eq_or_ne j i with rfl | hne
    · exact hi
    · have hsame : (s.setStatus i status).pool j = s.pool j := Function.update_of_ne hne _ _
      rwa [Core.Held, hsame] at hj
  refine ⟨fun j => ?_, fun j hj => ?_, fun j k hj hk hjk => ?_, hav, h.uses⟩
  · show (Function.update s.pool i { s.pool i with status := status } j).status ≠ _
    rcases eq_or_ne j i with rfl | hne
    · rw [Function.update_self]
      exact hstatus
    · rw [Function.update_of_ne hne]
      exact h.notMemcpy j
  · obtain ⟨x, hx, hchannel⟩ := h.held j (hheld j hj)
    exact ⟨x, hx, (hpool j).trans hchannel⟩
  · exact h.distinct j k (hheld j hj) (hheld k hk) ((hpool j).symm.trans (hjk.trans (hpool k)))

/-- An entry without a channel gets a fresh one. -/
lemma allocSlot (h : PoolOk s) {i : Fin n} {x : Handle} (hfresh : x ∉ allocated s.calls)
    {status : CopyEventStatus} (hstatus : status ≠ .memcpy) (hav : s.available = none) :
    PoolOk ((s.issue (.alloc (some x))).setSlot i ⟨status, some x⟩) := by
  have hself : ((s.issue (.alloc (some x))).setSlot i ⟨status, some x⟩).pool i = ⟨status, some x⟩ :=
    Core.setSlot_self _ _ _
  have hother : ∀ j, j ≠ i →
      ((s.issue (.alloc (some x))).setSlot i ⟨status, some x⟩).pool j = s.pool j :=
    fun j hne => Core.setSlot_of_ne _ hne _
  -- The channels of the other entries were allocated before, so they are not the fresh one.
  have hapart : ∀ j, s.Held j → (s.pool j).channel ≠ some x := fun j hj hx => hfresh (h.channel_mem hj hx)
  refine ⟨fun j => ?_, fun j hj => ?_, fun j k hj hk hjk => ?_, fun j hj => ?_, fun y hy => ?_, h.uses⟩
  · rcases eq_or_ne j i with rfl | hne
    · rw [hself]
      exact hstatus
    · rw [hother j hne]
      exact h.notMemcpy j
  · rcases eq_or_ne j i with rfl | hne
    · rw [hself]
      exact ⟨x, List.mem_cons_self, rfl⟩
    · rw [Core.Held, hother j hne] at hj
      obtain ⟨y, hy, hchannel⟩ := h.held j hj
      rw [hother j hne]
      exact ⟨y, List.mem_cons_of_mem _ hy, hchannel⟩
  · rcases eq_or_ne j i with hji | hjne <;> rcases eq_or_ne k i with hki | hkne
    · exact hji.trans hki.symm
    · rw [Core.Held, hother k hkne] at hk
      rw [hji, hself, hother k hkne] at hjk
      exact absurd hjk.symm (hapart k hk)
    · rw [Core.Held, hother j hjne] at hj
      rw [hki, hself, hother j hjne] at hjk
      exact absurd hjk (hapart j hj)
    · rw [Core.Held, hother j hjne] at hj
      rw [Core.Held, hother k hkne] at hk
      rw [hother j hjne, hother k hkne] at hjk
      exact h.distinct j k hj hk hjk
  · have hnone : s.available = some j := hj
    rw [hav] at hnone
    simp at hnone
  · simp [Call.uses] at hy

/-- An entry without a channel is cleared. -/
lemma clearSlot (h : PoolOk s) {i : Fin n} (hi : ¬s.Held i) :
    PoolOk (s.setSlot i ⟨.notAllocated, none⟩) := by
  have hstatus : ∀ j, ((s.setSlot i ⟨.notAllocated, none⟩).pool j).status = (s.pool j).status := by
    intro j
    rcases eq_or_ne j i with rfl | hne
    · rw [s.setSlot_self, not_not.mp hi]
    · rw [s.setSlot_of_ne hne]
  have hheld : ∀ j, (s.setSlot i ⟨.notAllocated, none⟩).Held j → s.Held j := by
    intro j hj
    rwa [Core.Held, hstatus j] at hj
  have hother : ∀ j, s.Held j → (s.setSlot i ⟨.notAllocated, none⟩).pool j = s.pool j := by
    intro j hj
    exact s.setSlot_of_ne (fun heq : j = i => hi (heq ▸ hj)) _
  refine ⟨fun j => (hstatus j).trans_ne (h.notMemcpy j), fun j hj => ?_, fun j k hj hk hjk => ?_,
    fun j hj => (hstatus j).trans (h.available j hj), h.uses⟩
  · rw [hother j (hheld j hj)]
    exact h.held j (hheld j hj)
  · rw [hother j (hheld j hj), hother k (hheld k hk)] at hjk
    exact h.distinct j k (hheld j hj) (hheld k hk) hjk

/-- An entry whose channel could not be allocated. -/
lemma allocFails (h : PoolOk s) {i : Fin n} (hi : ¬s.Held i) :
    PoolOk ((s.issue (.alloc none)).setChannel i none) := by
  have hcall : PoolOk (s.issue (.alloc none)) := h.issue (fun _ => rfl) (by simp [Call.uses])
  have hclear : (s.issue (.alloc none)).setChannel i none =
      (s.issue (.alloc none)).setSlot i ⟨.notAllocated, none⟩ := by
    rw [← not_not.mp hi]
    rfl
  rw [hclear]
  exact hcall.clearSlot hi

end PoolOk

/-! ### What a copy does to the pool -/

namespace Core

variable {s : Core n Handle}

/-- What `get_edma_channel` can do: fail, take an entry that is available, or fill one. -/
lemma getEdmaChannel_cases (h : PoolOk s) (answer : Option Handle) :
    ((s.getEdmaChannel answer).2 = none ∧
      ((s.getEdmaChannel answer).1 = s ∨
        ∃ i, ¬s.Held i ∧ (s.getEdmaChannel answer).1 = (s.issue (.alloc none)).setChannel i none)) ∨
    (∃ i, (s.pool i).status = .available ∧
      s.getEdmaChannel answer = ({ s.setStatus i .inUse with available := none }, some i)) ∨
    (∃ i x, ¬s.Held i ∧ s.available = none ∧ answer = some x ∧
      s.getEdmaChannel answer = ((s.issue (.alloc (some x))).setSlot i ⟨.inUse, some x⟩, some i)) := by
  cases hav : s.available with
  | some i =>
    refine Or.inr (Or.inl ⟨i, h.available i hav, ?_⟩)
    simp only [getEdmaChannel, hav]
  | none =>
    cases hfind : s.findSlot with
    | none => exact Or.inl ⟨by simp only [getEdmaChannel, hav, hfind], Or.inl (by simp only [getEdmaChannel, hav, hfind])⟩
    | some i =>
      have hstatus : (s.pool i).status ≠ .inUse := by
        have hfound := List.find?_some hfind
        exact of_decide_eq_true hfound
      by_cases hheld : (s.pool i).status = .notAllocated
      · have hnot : ¬s.Held i := not_not.mpr hheld
        cases answer with
        | none =>
          refine Or.inl ⟨?_, Or.inr ⟨i, hnot, ?_⟩⟩ <;> simp only [getEdmaChannel, hav, hfind, if_pos hheld, if_true]
        | some x =>
          refine Or.inr (Or.inr ⟨i, x, hnot, rfl, rfl, ?_⟩)
          simp only [getEdmaChannel, hav, hfind, if_pos hheld, if_neg (Option.some_ne_none x)]
          simp [setChannel, setStatus, setSlot, issue]
      · -- Only entries that are available are left.
        have hidle : (s.pool i).status = .available := by
          have hmemcpy := h.notMemcpy i
          cases hcase : (s.pool i).status with
          | notAllocated => exact absurd hcase hheld
          | available => rfl
          | inUse => exact absurd hcase hstatus
          | memcpy => exact absurd hcase hmemcpy
        refine Or.inr (Or.inl ⟨i, hidle, ?_⟩)
        simp only [getEdmaChannel, hav, hfind, if_neg hheld]
        rw [← hav]
        rfl

end Core

/-- What a copy, or a part of it, does to the pool. -/
structure CopySpec (s : Core n Handle) (event : Option (EventPtr n)) (answer : Option Handle)
    (s' : Core n Handle) (event' : Option (EventPtr n)) : Prop where
  /-- The pool and the channel manager agree. -/
  ok : PoolOk s'
  /-- The table of the channels of the kernel is kept. -/
  intra : s'.intra = s.intra
  /-- The entries in use stay so. -/
  inUse : ∀ i, (s.pool i).status = .inUse → (s'.pool i).status = .inUse
  /-- The event is an entry in use. -/
  taken : ∀ i, event' = some (.pool i) → (s'.pool i).status = .inUse
  /-- It is the event that was given or an entry that was not in use. -/
  new : ∀ i, event' = some (.pool i) → event = some (.pool i) ∨ (s.pool i).status ≠ .inUse
  /-- No channel is freed. -/
  allocated : ∀ x ∈ allocated s.calls, x ∈ allocated s'.calls
  /-- Channels that are allocated come from the channel manager. -/
  fresh : ∀ x ∈ Edma.allocated s'.calls, x ∈ Edma.allocated s.calls ∨ answer = some x
  /-- Channels that get into the pool come from the channel manager. -/
  channels : ∀ i x, s'.Held i → (s'.pool i).channel = some x →
    (s.Held i ∧ (s.pool i).channel = some x) ∨ answer = some x

namespace CopySpec

variable {s s' : Core n Handle} {event event' : Option (EventPtr n)} {answer : Option Handle}

/-- Nothing is done, and the event is the one that was given or none of the pool. -/
lemma same (h : PoolOk s)
    (hevent : ∀ i, event' = some (.pool i) → event = some (.pool i) ∧ (s.pool i).status = .inUse) :
    CopySpec s event answer s event' :=
  ⟨h, rfl, fun _ hi => hi, fun i hi => (hevent i hi).2, fun i hi => Or.inl (hevent i hi).1, fun _ hx => hx,
    fun _ hx => Or.inl hx, fun _ _ hi hx => Or.inl ⟨hi, hx⟩⟩

/-- A call that uses an allocated channel. -/
lemma issue (h : CopySpec s event answer s' event') {c : Call Handle} (hkeeps : c.Keeps)
    (huses : ∀ x, c.uses = some x → x ∈ Edma.allocated s'.calls) :
    CopySpec s event answer (s'.issue c) event' := by
  refine ⟨h.ok.issue hkeeps huses, h.intra, h.inUse, h.taken, h.new, fun x hx => ?_, fun x hx => ?_,
    h.channels⟩
  · show x ∈ Edma.allocated (c :: s'.calls)
    rw [hkeeps]
    exact h.allocated x hx
  · have hmem : x ∈ Edma.allocated (c :: s'.calls) := hx
    rw [hkeeps] at hmem
    exact h.fresh x hmem

/-- Only the memories change. -/
lemma of_contents (h : CopySpec s event answer s' event') (m : Contents) :
    CopySpec s event answer { s' with contents := m } event' :=
  ⟨h.ok.of_contents m, h.intra, h.inUse, h.taken, h.new, h.allocated, h.fresh, h.channels⟩

/-- The event is none of the pool. -/
lemma of_event (h : CopySpec s event answer s' event') {e : Option (EventPtr n)}
    (he : ∀ i, e ≠ some (.pool i)) : CopySpec s event answer s' e :=
  ⟨h.ok, h.intra, h.inUse, fun i hi => absurd hi (he i), fun i hi => absurd hi (he i), h.allocated, h.fresh,
    h.channels⟩

/-- The channel of an event is allocated. -/
lemma channel_mem (h : CopySpec s event answer s' event') {e : EventPtr n} (he : event' = some e) {x : Handle}
    (hx : s'.channel e = some x) : x ∈ Edma.allocated s'.calls := by
  cases e with
  | memcpyEvent => exact absurd hx (Option.some_ne_none x).symm
  | pool i =>
    have hheld : s'.Held i := by
      rw [Core.Held, h.taken i he]
      decide
    exact h.ok.channel_mem hheld hx

/-- An entry that is available is taken. -/
lemma takeIdle (h : PoolOk s) {i : Fin n} (hidle : (s.pool i).status = .available) :
    CopySpec s event answer { s.setStatus i .inUse with available := none } (some (.pool i)) := by
  have hheld : s.Held i := by
    rw [Core.Held, hidle]
    decide
  have hself : (s.setStatus i .inUse).pool i = { s.pool i with status := .inUse } := Function.update_self _ _ _
  have hother : ∀ j, j ≠ i → (s.setStatus i .inUse).pool j = s.pool j :=
    fun j hne => Function.update_of_ne hne _ _
  refine ⟨h.setStatus hheld (by decide) (by simp), rfl, fun j hj => ?_, fun j hj => ?_, fun j hj => ?_,
    fun x hx => hx, fun x hx => Or.inl hx, fun j x hj hx => Or.inl ?_⟩
  · show ((s.setStatus i .inUse).pool j).status = _
    rcases eq_or_ne j i with heq | hne
    · rw [heq, hself]
    · rw [hother j hne, hj]
  · obtain rfl : i = j := by simpa using hj
    show ((s.setStatus i .inUse).pool i).status = _
    rw [hself]
  · obtain rfl : i = j := by simpa using hj
    rw [hidle]
    exact Or.inr (by decide)
  · have hchannel : ((s.setStatus i .inUse).pool j).channel = some x := hx
    have hstatus : ((s.setStatus i .inUse).pool j).status ≠ .notAllocated := hj
    rcases eq_or_ne j i with heq | hne
    · rw [heq, hself] at hchannel
      rw [heq]
      exact ⟨hheld, hchannel⟩
    · rw [hother j hne] at hchannel hstatus
      exact ⟨hstatus, hchannel⟩

/-- An entry is filled with a fresh channel and taken. -/
lemma takeFresh (h : PoolOk s) {i : Fin n} {x : Handle} (hnot : ¬s.Held i) (hav : s.available = none)
    (hfresh : x ∉ Edma.allocated s.calls) :
    CopySpec s event (some x) ((s.issue (.alloc (some x))).setSlot i ⟨.inUse, some x⟩) (some (.pool i)) := by
  have hself : ((s.issue (.alloc (some x))).setSlot i ⟨.inUse, some x⟩).pool i = ⟨.inUse, some x⟩ :=
    Function.update_self _ _ _
  have hother : ∀ j, j ≠ i →
      ((s.issue (.alloc (some x))).setSlot i ⟨.inUse, some x⟩).pool j = s.pool j :=
    fun j hne => Function.update_of_ne hne _ _
  refine ⟨h.allocSlot hfresh (by decide) hav, rfl, fun j hj => ?_, fun j hj => ?_, fun j hj => ?_,
    fun y hy => List.mem_cons_of_mem _ hy, fun y hy => ?_, fun j y hj hy => ?_⟩
  · rcases eq_or_ne j i with heq | hne
    · rw [heq, hself]
    · rw [hother j hne, hj]
  · obtain rfl : i = j := by simpa using hj
    rw [hself]
  · obtain rfl : i = j := by simpa using hj
    rw [not_not.mp hnot]
    exact Or.inr (by decide)
  · rcases List.mem_cons.mp hy with rfl | hold
    · exact Or.inr rfl
    · exact Or.inl hold
  · rcases eq_or_ne j i with heq | hne
    · rw [heq, hself] at hy
      exact Or.inr hy
    · rw [Core.Held, hother j hne] at hj
      rw [hother j hne] at hy
      exact Or.inl ⟨hj, hy⟩

/-- A channel could not be allocated. -/
lemma allocFails (h : PoolOk s) {i : Fin n} (hnot : ¬s.Held i) :
    CopySpec s event answer ((s.issue (.alloc none)).setChannel i none) none := by
  have hself : ((s.issue (.alloc none)).setChannel i none).pool i = ⟨.notAllocated, none⟩ := by
    rw [← not_not.mp hnot]
    exact Function.update_self _ _ _
  have hother : ∀ j, j ≠ i → ((s.issue (.alloc none)).setChannel i none).pool j = s.pool j :=
    fun j hne => Function.update_of_ne hne _ _
  refine ⟨h.allocFails hnot, rfl, fun j hj => ?_, by simp, by simp, fun x hx => hx, fun x hx => Or.inl hx,
    fun j x hj hx => Or.inl ?_⟩
  · rcases eq_or_ne j i with rfl | hne
    · rw [not_not.mp hnot] at hj
      exact absurd hj (by decide)
    · rw [hother j hne, hj]
  · rcases eq_or_ne j i with rfl | hne
    · rw [Core.Held, hself] at hj
      exact absurd rfl hj
    · rw [Core.Held, hother j hne] at hj
      rw [hother j hne] at hx
      exact ⟨hj, hx⟩

/-- Taking a channel. -/
lemma getEdmaChannel (h : PoolOk s) (hfresh : ∀ x, answer = some x → x ∉ Edma.allocated s.calls) :
    CopySpec s event answer (s.getEdmaChannel answer).1 ((s.getEdmaChannel answer).2.map .pool) := by
  rcases Core.getEdmaChannel_cases h answer with ⟨hnone, hsame | ⟨i, hnot, hfail⟩⟩ | ⟨i, hidle, heq⟩ |
      ⟨i, x, hnot, hav, rfl, heq⟩
  · rw [hnone, hsame]
    exact same h (by simp)
  · rw [hnone, hfail]
    exact allocFails h hnot
  · rw [heq]
    exact takeIdle h hidle
  · rw [heq]
    exact takeFresh h hnot hav (hfresh x rfl)

/-- The first part of a copy. -/
lemma acquire (h : PoolOk s) (hevent : ∀ i, event = some (.pool i) → (s.pool i).status = .inUse)
    (hfresh : ∀ x, answer = some x → x ∉ Edma.allocated s.calls) (warranted : Bool) :
    CopySpec s event answer (s.acquire event warranted answer).1 (s.acquire event warranted answer).2 := by
  have hsame : CopySpec s event answer s event := same h fun i hi => ⟨hi, hevent i hi⟩
  unfold Core.acquire
  cases hfilter : event.filter (fun e => s.status e ≠ .memcpy) with
  | some e =>
    obtain ⟨rfl, -⟩ := Option.filter_eq_some_iff.mp hfilter
    exact hsame.issue (fun _ => rfl) fun x hx => hsame.channel_mem rfl hx
  | none =>
    cases warranted with
    | false => exact hsame
    | true => exact getEdmaChannel h hfresh

/-- A copy. -/
lemma copyWith (h : PoolOk s) (hevent : ∀ i, event = some (.pool i) → (s.pool i).status = .inUse)
    (hfresh : ∀ x, answer = some x → x ∉ Edma.allocated s.calls) (warranted : Bool)
    {edma : Option Handle → Call Handle} (huses : ∀ x, (edma x).uses = x) (hkeeps : ∀ x, (edma x).Keeps)
    {memcpy : Core n Handle → Core n Handle} (hmemcpy : ∀ t, ∃ m, memcpy t = { t with contents := m }) :
    CopySpec s event answer (s.copyWith event warranted edma memcpy answer).1
      (some (s.copyWith event warranted edma memcpy answer).2) := by
  have hfirst := acquire h hevent hfresh warranted
  unfold Core.copyWith
  generalize s.acquire event warranted answer = r at hfirst
  obtain ⟨t, e⟩ := r
  obtain ⟨m, hm⟩ := hmemcpy t
  cases e with
  | none =>
    show CopySpec s event answer (memcpy t) (some .memcpyEvent)
    rw [hm]
    exact (hfirst.of_contents m).of_event (by simp)
  | some e =>
    cases warranted with
    | false =>
      show CopySpec s event answer (memcpy t) (some e)
      rw [hm]
      exact hfirst.of_contents m
    | true =>
      exact hfirst.issue (hkeeps _) fun x hx => hfirst.channel_mem rfl (by rwa [huses] at hx)

end CopySpec

/-! ### Waiting and freeing -/

namespace PoolOk

variable {s : Core n Handle}

/-- `__copy_wait` for an entry in use. -/
lemma copyWait (h : PoolOk s) {i : Fin n} (hi : (s.pool i).status = .inUse) :
    PoolOk (s.copyWait (some (.pool i))) := by
  have hheld : s.Held i := by
    rw [Core.Held, hi]
    decide
  have hwait : PoolOk (s.issue (.wait (s.pool i).channel)) :=
    h.issue (fun _ => rfl) fun x hx => h.channel_mem hheld hx
  rw [Core.copyWait, if_neg (h.notMemcpy i)]
  have hne : CopyEventStatus.available ≠ .memcpy := by decide
  refine hwait.setStatus hheld hne fun j hj => ?_
  obtain rfl : i = j := by simpa using hj
  show (Function.update s.pool i { s.pool i with status := .available } i).status = _
  rw [Function.update_self]

/-- A step of `free_edma_channel_pool`. -/
lemma freeSlot (h : PoolOk s) (hav : s.available = none) (i : Fin n) :
    PoolOk (s.freeSlot i) ∧ (s.freeSlot i).available = none := by
  unfold Core.freeSlot
  by_cases hheld : (s.pool i).status = .notAllocated
  · rw [if_neg (not_not.mpr hheld)]
    exact ⟨h, hav⟩
  rw [if_pos hheld]
  refine ⟨?_, hav⟩
  obtain ⟨x, hx, hchannel⟩ := h.held i hheld
  rw [hchannel]
  have hself : ((s.issue (.free (some x))).setStatus i .notAllocated).pool i =
      { s.pool i with status := .notAllocated } := Function.update_self _ _ _
  have hother : ∀ j, ((s.issue (.free (some x))).setStatus i .notAllocated).Held j → j ≠ i ∧ s.Held j ∧
      ((s.issue (.free (some x))).setStatus i .notAllocated).pool j = s.pool j := by
    intro j hj
    have hne : j ≠ i := by
      rintro rfl
      rw [Core.Held, hself] at hj
      exact hj rfl
    have hsame : ((s.issue (.free (some x))).setStatus i .notAllocated).pool j = s.pool j :=
      Function.update_of_ne hne _ _
    rw [Core.Held, hsame] at hj
    exact ⟨hne, hj, hsame⟩
  refine ⟨fun j => ?_, fun j hj => ?_, fun j k hj hk hjk => ?_, fun j hj => ?_, fun y hy => ?_, h.uses⟩
  · rcases eq_or_ne j i with rfl | hne
    · rw [hself]
      exact CopyEventStatus.noConfusion
    · have hsame : ((s.issue (.free (some x))).setStatus i .notAllocated).pool j = s.pool j :=
        Function.update_of_ne hne _ _
      rw [hsame]
      exact h.notMemcpy j
  · -- The other entries have other channels, which are still allocated.
    obtain ⟨hne, hold, hsame⟩ := hother j hj
    obtain ⟨y, hy, hychannel⟩ := h.held j hold
    refine ⟨y, List.mem_filter.mpr ⟨hy, ?_⟩, by rw [hsame, hychannel]⟩
    have hyx : y ≠ x := by
      rintro rfl
      exact hne (h.distinct j i hold hheld (hychannel.trans hchannel.symm))
    simpa using hyx
  · obtain ⟨-, hjold, hjsame⟩ := hother j hj
    obtain ⟨-, hkold, hksame⟩ := hother k hk
    rw [hjsame, hksame] at hjk
    exact h.distinct j k hjold hkold hjk
  · have hnone : s.available = some j := hj
    rw [hav] at hnone
    simp at hnone
  · obtain rfl : x = y := Option.some.inj hy
    exact hx

/-- `free_edma_channel_pool`. -/
lemma freeEdmaChannelPool (h : PoolOk s) : PoolOk s.freeEdmaChannelPool := by
  have hstart : PoolOk { s with available := none } :=
    ⟨h.notMemcpy, h.held, h.distinct, by simp, h.uses⟩
  have hloop : PoolOk s.freeEdmaChannelPool ∧ s.freeEdmaChannelPool.available = none :=
    List.foldlRecOn (motive := fun t => PoolOk t ∧ t.available = none) _ _ ⟨hstart, rfl⟩
      fun t ht i _ => ht.1.freeSlot ht.2 i
  exact hloop.1

/-- A step of the first loop of `wait_and_free_edma_channels`. -/
lemma waitSlot (h : PoolOk s) (i : Fin n) : PoolOk (s.waitSlot i) := by
  unfold Core.waitSlot
  split_ifs with hi
  · exact h.copyWait hi
  · exact h

/-- A step of the second loop. -/
lemma waitPending (h : PoolOk s) (x : Handle) : PoolOk (s.waitPending x) := by
  unfold Core.waitPending
  split_ifs with hx
  · refine h.issue (fun _ => rfl) fun y hy => ?_
    obtain rfl : x = y := Option.some.inj hy
    exact hx.1
  · exact h

end PoolOk

namespace Core

/-- The part of `wait_and_free_edma_channels` that waits. -/
def waitLoops (channels : List Handle) (s : Core n Handle) : Core n Handle :=
  channels.foldl waitPending ((List.finRange n).foldl waitSlot s)

/-- A property that both loops keep. -/
lemma waitLoops_induction {P : Core n Handle → Prop} {channels : List Handle} {s : Core n Handle} (hs : P s)
    (hslot : ∀ t i, P t → P (t.waitSlot i)) (hpending : ∀ t x, P t → P (t.waitPending x)) :
    P (s.waitLoops channels) := by
  refine List.foldlRecOn (motive := P) _ _ ?_ fun t ht x _ => hpending t x ht
  exact List.foldlRecOn (motive := P) _ _ hs fun t ht i _ => hslot t i ht

/-- Waiting keeps the table of the channels of the kernel. -/
lemma waitLoops_intra (channels : List Handle) (s : Core n Handle) :
    (s.waitLoops channels).intra = s.intra := by
  refine waitLoops_induction (P := fun t => t.intra = s.intra) rfl (fun t i ht => ?_) fun t x ht => ?_
  · refine Eq.trans ?_ ht
    unfold waitSlot copyWait
    dsimp only
    split_ifs <;> rfl
  · refine Eq.trans ?_ ht
    unfold waitPending
    split_ifs <;> rfl

/-- `wait_and_free_edma_channels` waits, and then frees the channels of the table. -/
lemma waitAndFreeEdmaChannels_eq (channels : List Handle) (s : Core n Handle) :
    s.waitAndFreeEdmaChannels channels =
      { s.intra.foldl freeIntra (s.waitLoops channels) with intra := [] } := by
  rw [← waitLoops_intra channels s]
  rfl

end Core

omit [DecidableEq Handle] in
/-- Freeing the pool keeps the table of the channels of the kernel. -/
lemma Core.freeEdmaChannelPool_intra (s : Core n Handle) : s.freeEdmaChannelPool.intra = s.intra := by
  refine List.foldlRecOn (motive := fun t : Core n Handle => t.intra = s.intra) _ _ rfl fun t ht i _ => ?_
  refine Eq.trans ?_ ht
  unfold freeSlot
  split_ifs <;> rfl

/-- The loops that wait keep the pool. -/
lemma PoolOk.waitLoops {s : Core n Handle} (h : PoolOk s) (channels : List Handle) :
    PoolOk (s.waitLoops channels) :=
  Core.waitLoops_induction h (fun _ i ht => ht.waitSlot i) fun _ x ht => ht.waitPending x

/-! ### The startup of the pool -/

/-- After the first steps of the loops of `initialize_edma_channel_pool`. -/
structure StartupOk (answers : Fin n → Option Handle) (done : List (Fin n)) (s : Core n Handle) : Prop where
  ok : PoolOk s
  available : s.available = none
  intra : s.intra = []
  held : ∀ i, s.Held i → i ∈ done
  startup : ∀ i ∈ done, i.val < startupNumOfEdmaChannels → (s.pool i).status = .available
  allocated : ∀ x ∈ allocated s.calls, ∃ i ∈ done, answers i = some x

/-- The channel manager never returns a channel twice. -/
def Distinct (answers : Fin n → Option Handle) : Prop :=
  ∀ i j x, answers i = some x → answers j = some x → i = j

namespace StartupOk

variable {answers : Fin n → Option Handle} {done : List (Fin n)} {s s' : Core n Handle}

/-- A step of the loops. -/
lemma step (h : StartupOk answers done s) (hdistinct : Distinct answers) {i : Fin n} (hi : i ∉ done)
    (hstep : s.initializeSlot answers i = some s') : StartupOk answers (i :: done) s' := by
  have hnot : ¬s.Held i := fun hheld => hi (h.held i hheld)
  unfold Core.initializeSlot at hstep
  split_ifs at hstep with hlt
  · obtain ⟨x, hx, rfl⟩ := Option.map_eq_some_iff.mp hstep
    have hfresh : x ∉ Edma.allocated s.calls := by
      intro hmem
      obtain ⟨j, hj, hjx⟩ := h.allocated x hmem
      exact hi (hdistinct j i x hjx hx ▸ hj)
    refine ⟨h.ok.allocSlot hfresh (by decide) h.available, h.available, h.intra, fun j hj => ?_,
      fun j hj hjlt => ?_, fun y hy => ?_⟩
    · rcases eq_or_ne j i with rfl | hne
      · exact List.mem_cons_self
      · rw [Core.Held, Core.setSlot_of_ne _ hne] at hj
        exact List.mem_cons_of_mem _ (h.held j hj)
    · rcases eq_or_ne j i with rfl | hne
      · rw [Core.setSlot_self]
      · rw [Core.setSlot_of_ne _ hne]
        exact h.startup j ((List.mem_cons.mp hj).resolve_left hne) hjlt
    · rcases List.mem_cons.mp hy with rfl | hold
      · exact ⟨i, List.mem_cons_self, hx⟩
      · obtain ⟨j, hj, hjy⟩ := h.allocated y hold
        exact ⟨j, List.mem_cons_of_mem _ hj, hjy⟩
  · obtain rfl : s.setSlot i ⟨.notAllocated, none⟩ = s' := Option.some.inj hstep
    refine ⟨h.ok.clearSlot hnot, h.available, h.intra, fun j hj => ?_, fun j hj hjlt => ?_, fun y hy => ?_⟩
    · rcases eq_or_ne j i with rfl | hne
      · exact List.mem_cons_self
      · rw [Core.Held, Core.setSlot_of_ne _ hne] at hj
        exact List.mem_cons_of_mem _ (h.held j hj)
    · rcases eq_or_ne j i with rfl | hne
      · exact absurd hjlt hlt
      · rw [Core.setSlot_of_ne _ hne]
        exact h.startup j ((List.mem_cons.mp hj).resolve_left hne) hjlt
    · obtain ⟨j, hj, hjy⟩ := h.allocated y hy
      exact ⟨j, List.mem_cons_of_mem _ hj, hjy⟩

/-- The loops. -/
lemma loop (hdistinct : Distinct answers) {l : List (Fin n)} (hl : l.Nodup) (hapart : ∀ i ∈ l, i ∉ done)
    (h : StartupOk answers done s) (hloop : l.foldlM (Core.initializeSlot answers) s = some s') :
    StartupOk answers (l.reverse ++ done) s' := by
  induction l generalizing done s with
  | nil =>
    obtain rfl : s = s' := Option.some.inj hloop
    exact h
  | cons i l ih =>
    rw [List.foldlM_cons] at hloop
    obtain ⟨t, ht, hrest⟩ := Option.bind_eq_some_iff.mp hloop
    obtain ⟨hil, hlnodup⟩ := List.nodup_cons.mp hl
    have hstep := h.step hdistinct (hapart i List.mem_cons_self) ht
    have hrestOk := ih hlnodup (fun j hj hjdone => ?_) hstep hrest
    · rwa [List.reverse_cons, List.append_assoc]
    · rcases List.mem_cons.mp hjdone with rfl | hold
      · exact hil hj
      · exact hapart j (List.mem_cons_of_mem _ hj) hold

end StartupOk

/-- The pool after `initialize_edma_channel_pool`. -/
lemma poolOk_startUp [NeZero n] {answers : Fin n → Option Handle} (hdistinct : Distinct answers)
    {contents : Contents} {s : Core n Handle}
    (h : Core.initializeEdmaChannelPool answers contents = some s) : PoolOk s ∧ s.intra = [] := by
  obtain ⟨t, ht, rfl⟩ := Option.map_eq_some_iff.mp h
  have hstart : StartupOk answers [] (⟨fun _ => ⟨.notAllocated, none⟩, none, [], [], contents⟩ : Core n Handle) :=
    ⟨⟨by simp, by simp [Core.Held], by simp [Core.Held], by simp, trivial⟩, rfl, rfl, by simp [Core.Held],
      by simp, by simp [allocated]⟩
  have hend := hstart.loop hdistinct (List.nodup_finRange n) (by simp) ht
  refine ⟨⟨hend.ok.notMemcpy, hend.ok.held, hend.ok.distinct, fun i hi => ?_, hend.ok.uses⟩, hend.intra⟩
  obtain rfl : 0 = i := Option.some.inj hi
  exact hend.startup 0 (by simp) (by rw [Fin.val_zero]; decide)

/-! ### Copies -/

/-- A copy and its arguments. -/
inductive Copy (n : ℕ) where
  | copy1D1D (event : Option (EventPtr n)) (dst src : Address) (bytes : BitVec 32)
  | copy1D2D (event : Option (EventPtr n)) (dst src : Address) (bytes numLines pitch : BitVec 32)
  | copy2D1D (event : Option (EventPtr n)) (dst src : Address) (bytes numLines pitch : BitVec 32)

/-- The event that is given to a copy. -/
def Copy.event : Copy n → Option (EventPtr n)
  | .copy1D1D event _ _ _ | .copy1D2D event _ _ _ _ _ | .copy2D1D event _ _ _ _ _ => event

/-- The state after a copy and the event that it returns. -/
def Core.copy (s : Core n Handle) (answer : Option Handle) : Copy n → Core n Handle × EventPtr n
  | .copy1D1D event dst src bytes => s.copy1D1D event dst src bytes answer
  | .copy1D2D event dst src bytes numLines pitch => s.copy1D2D event dst src bytes numLines pitch answer
  | .copy2D1D event dst src bytes numLines pitch => s.copy2D1D event dst src bytes numLines pitch answer

/-- What the copies do to the pool. -/
theorem CopySpec.copy {s : Core n Handle} (h : PoolOk s) (c : Copy n)
    (hevent : ∀ i, c.event = some (.pool i) → (s.pool i).status = .inUse) {answer : Option Handle}
    (hfresh : ∀ x, answer = some x → x ∉ Edma.allocated s.calls) :
    CopySpec s c.event answer (s.copy answer c).1 (some (s.copy answer c).2) := by
  cases c with
  | copy1D1D event dst src bytes =>
    exact copyWith h hevent hfresh _ (fun _ => rfl) (fun _ _ => rfl) fun t => ⟨_, rfl⟩
  | copy1D2D event dst src bytes numLines pitch =>
    exact copyWith h hevent hfresh _ (fun _ => rfl) (fun _ _ => rfl) fun t => ⟨_, rfl⟩
  | copy2D1D event dst src bytes numLines pitch =>
    exact copyWith h hevent hfresh _ (fun _ => rfl) (fun _ _ => rfl) fun t => ⟨_, rfl⟩

end Edma

end TiOpenCL
