import TiOpenCL.Transfers.Ranges

/-!
# The maps of a buffer

A buffer keeps the list of its maps, and of those of its sub-buffers, by increasing offset.
`addMapEvent` walks over the whole list: it looks for a map that shares a byte with the new one, where
either writes, and for the place of the new one.  The place is the last map with a larger offset where
the first one was meant, and a map of no bytes has its last byte below its first one.  In every run that
keeps clear of both, the list is sorted, no two of its maps conflict, and a map is rejected if and only
if it conflicts with one of the list.
-/

namespace TiOpenCL

namespace Storage

variable {w : ℕ}

/-! ### The list of maps -/

/-- `MapBufferEvent`, as the list of maps has it. -/
structure MapEvent (w : ℕ) where
  /-- The offset of the sub-buffer that is mapped, if it is one. -/
  subBuffer : Option (BitVec w)
  /-- The offset in the buffer or sub-buffer. -/
  offset : BitVec w
  /-- The number of bytes. -/
  cb : BitVec w
  /-- The flags of the map. -/
  flags : BitVec 64
  /-- The pointer that the application got. -/
  ptr : BitVec 64
  deriving DecidableEq

namespace MapEvent

/-- `mbe_offset` and `e_offset`: the offset in the parent. -/
def start (e : MapEvent w) : BitVec w :=
  match e.subBuffer with
  | none => e.offset
  | some offset => e.offset + offset

/-- Does the map write? -/
def writes (e : MapEvent w) : Bool :=
  anySet e.flags mapWrite || anySet e.flags mapWriteInvalidateRegion

/-- The test of `addMapEvent` for a common byte of two maps. -/
def Overlaps (m e : MapEvent w) : Prop := m.start ≤ e.start + e.cb - 1 ∧ e.start ≤ m.start + m.cb - 1

instance (m e : MapEvent w) : Decidable (m.Overlaps e) := inferInstanceAs (Decidable (_ ∧ _))

end MapEvent

/-- The loop of `addMapEvent` over the list from an index on: `none` if a map conflicts with the new
one, and otherwise the place to insert it, where `none` is the end of the list. -/
def scanMaps (m : MapEvent w) : ℕ → Option ℕ → List (MapEvent w) → Option (Option ℕ)
  | _, insert, [] => some insert
  | i, insert, e :: es =>
    if m.Overlaps e ∧ (m.writes ∨ e.writes) then none
    else scanMaps m (i + 1) (if m.start < e.start then some i else insert) es

/-- `Buffer::addMapEvent`: the result and the list of maps after it. -/
def addMapEvent (l : List (MapEvent w)) (m : MapEvent w) : Bool × List (MapEvent w) :=
  match scanMaps m 0 none l with
  | none => (false, l)
  | some none => (true, l ++ [m])
  | some (some i) => (true, l.take i ++ m :: l.drop i)

/-- `Buffer::removeMapEvent`: the first map with the pointer is taken out of the list. -/
def removeMapEvent (l : List (MapEvent w)) (ptr : BitVec 64) :
    Option (MapEvent w) × List (MapEvent w) :=
  (l.find? fun e => e.ptr == ptr, l.eraseP fun e => e.ptr == ptr)

/-- The calls on a buffer and its sub-buffers. -/
inductive MapOp (w : ℕ)
  | add (m : MapEvent w)
  | remove (ptr : BitVec 64)

/-- The list of maps after a call. -/
def MapOp.apply (l : List (MapEvent w)) : MapOp w → List (MapEvent w)
  | .add m => (addMapEvent l m).2
  | .remove ptr => (removeMapEvent l ptr).2

/-- The list of maps after a sequence of calls, from the empty list on. -/
def mapsAfter (ops : List (MapOp w)) : List (MapEvent w) := ops.foldl MapOp.apply []

/-! ### Bytes of maps -/

namespace MapEvent

/-- The offset in the parent, without wrap-around. -/
def absolute (e : MapEvent w) : ℕ := e.offset.toNat + (e.subBuffer.getD 0).toNat

/-- Two maps have a byte in common. -/
def SharesByte (m e : MapEvent w) : Prop :=
  ∃ i, m.absolute ≤ i ∧ i < m.absolute + m.cb.toNat ∧ e.absolute ≤ i ∧ i < e.absolute + e.cb.toNat

/-- Two maps have a byte in common, and either writes. -/
def Conflicts (m e : MapEvent w) : Prop := m.SharesByte e ∧ (m.writes ∨ e.writes)

/-- The start and the end of the map do not wrap around. -/
structure Fits (e : MapEvent w) : Prop where
  start : e.absolute < 2 ^ w
  stop : e.absolute + e.cb.toNat ≤ 2 ^ w

variable {m e : MapEvent w}

/-- The start of a map is its offset in the parent up to a wrap-around. -/
lemma start_eq (e : MapEvent w) : e.start = BitVec.ofNat w e.absolute := by
  unfold MapEvent.start absolute
  cases e.subBuffer with
  | none => simp
  | some offset => simp [BitVec.ofNat_add]

/-- The start of a map that does not wrap around. -/
lemma Fits.toNat_start (h : e.Fits) : e.start.toNat = e.absolute := by
  rw [e.start_eq, BitVec.toNat_ofNat, Nat.mod_eq_of_lt h.start]

/-- The last byte of a map that has bytes and does not wrap around. -/
lemma Fits.toNat_last (h : e.Fits) (hcb : e.cb ≠ 0) :
    (e.start + e.cb - 1).toNat = e.absolute + e.cb.toNat - 1 := by
  have hpos := BufferRect.toNat_pos hcb
  have hstop := h.stop
  have hlast : e.start + e.cb - 1 = BitVec.ofNat w (e.absolute + e.cb.toNat - 1) := by
    have hone : (1 : BitVec w) = BitVec.ofNat w 1 := rfl
    have hword : e.cb = BitVec.ofNat w e.cb.toNat := by simp
    rw [BitVec.sub_eq_iff_eq_add, hone, ← BitVec.ofNat_add, Nat.sub_add_cancel (by omega),
      BitVec.ofNat_add, ← hword, e.start_eq]
  rw [hlast, BitVec.toNat_ofNat, Nat.mod_eq_of_lt (by omega)]

/-- The test finds a common byte of two maps that have bytes and do not wrap around. -/
lemma overlaps_iff (hm : m.Fits) (he : e.Fits) (hmcb : m.cb ≠ 0) (hecb : e.cb ≠ 0) :
    m.Overlaps e ↔ m.SharesByte e := by
  have hmpos := BufferRect.toNat_pos hmcb
  have hepos := BufferRect.toNat_pos hecb
  rw [Overlaps, BitVec.le_def, BitVec.le_def, he.toNat_last hecb, hm.toNat_last hmcb, hm.toNat_start,
    he.toNat_start]
  constructor
  · rintro ⟨hle, hle'⟩
    exact ⟨max m.absolute e.absolute, by omega, by omega, by omega, by omega⟩
  · rintro ⟨i, h1, h2, h3, h4⟩
    omega

lemma SharesByte.symm (h : m.SharesByte e) : e.SharesByte m := by
  obtain ⟨i, h1, h2, h3, h4⟩ := h
  exact ⟨i, h3, h4, h1, h2⟩

lemma Conflicts.symm (h : m.Conflicts e) : e.Conflicts m := ⟨h.1.symm, h.2.symm⟩

/-- A map of no bytes shares none. -/
lemma SharesByte.cb_ne_zero (h : m.SharesByte e) : m.cb ≠ 0 := by
  intro hzero
  obtain ⟨i, h1, h2, -⟩ := h
  have hcb : m.cb.toNat = 0 := by
    rw [hzero]
    simp
  omega

end MapEvent

/-! ### What `addMapEvent` does -/

/-- The loop finds a conflict if and only if there is one, by its own test. -/
lemma scanMaps_eq_none_iff {m : MapEvent w} {l : List (MapEvent w)} :
    ∀ {i : ℕ} {insert : Option ℕ}, scanMaps m i insert l = none ↔
      ∃ e ∈ l, m.Overlaps e ∧ (m.writes ∨ e.writes) := by
  induction l with
  | nil => simp [scanMaps]
  | cons e es ih =>
    intro i insert
    rw [scanMaps]
    split
    · next hconflict => exact iff_of_true rfl ⟨e, List.mem_cons_self, hconflict⟩
    · next hno =>
      rw [ih, List.exists_mem_cons_iff, or_iff_right hno]

/-- Where the loop wants to insert the new map: at the last map with a larger offset. -/
lemma scanMaps_place {m : MapEvent w} {l : List (MapEvent w)} :
    ∀ {i : ℕ} {insert place : Option ℕ}, scanMaps m i insert l = some place →
      place = insert ∧ (∀ e ∈ l, ¬m.start < e.start) ∨
        ∃ l₁ e l₂, l = l₁ ++ e :: l₂ ∧ m.start < e.start ∧ (∀ e' ∈ l₂, ¬m.start < e'.start) ∧
          place = some (i + l₁.length) := by
  induction l with
  | nil =>
    intro i insert place hscan
    exact Or.inl ⟨(Option.some.inj hscan).symm, by simp⟩
  | cons e es ih =>
    intro i insert place hscan
    rw [scanMaps] at hscan
    split at hscan
    · cases hscan
    · rcases ih hscan with ⟨rfl, hes⟩ | ⟨l₁, e', l₂, rfl, hlt, hrest, rfl⟩
      · split
        · next hlt => exact Or.inr ⟨[], e, es, rfl, hlt, hes, rfl⟩
        · next hge => exact Or.inl ⟨rfl, List.forall_mem_cons.mpr ⟨hge, hes⟩⟩
      · refine Or.inr ⟨e :: l₁, e', l₂, rfl, hlt, hrest, ?_⟩
        rw [List.length_cons, Nat.add_assoc, Nat.add_comm 1]

/-- `addMapEvent` rejects the map because of a conflict and leaves the list as it is, or it inserts the
map in front of the last map with a larger offset, or at the end if there is none. -/
lemma addMapEvent_cases (l : List (MapEvent w)) (m : MapEvent w) :
    ((∃ e ∈ l, m.Overlaps e ∧ (m.writes ∨ e.writes)) ∧ addMapEvent l m = (false, l)) ∨
      (¬∃ e ∈ l, m.Overlaps e ∧ (m.writes ∨ e.writes)) ∧
        ((∀ e ∈ l, ¬m.start < e.start) ∧ addMapEvent l m = (true, l ++ [m]) ∨
          ∃ l₁ e l₂, l = l₁ ++ e :: l₂ ∧ m.start < e.start ∧ (∀ e' ∈ l₂, ¬m.start < e'.start) ∧
            addMapEvent l m = (true, l₁ ++ m :: e :: l₂)) := by
  unfold addMapEvent
  split
  · next hscan => exact Or.inl ⟨scanMaps_eq_none_iff.mp hscan, rfl⟩
  · next hscan =>
    have hno : ¬∃ e ∈ l, m.Overlaps e ∧ (m.writes ∨ e.writes) := by
      rw [← scanMaps_eq_none_iff, hscan]
      simp
    refine Or.inr ⟨hno, ?_⟩
    rcases scanMaps_place hscan with ⟨-, hall⟩ | ⟨l₁, e, l₂, -, -, -, hplace⟩
    · exact Or.inl ⟨hall, rfl⟩
    · cases hplace
  · next i hscan =>
    have hno : ¬∃ e ∈ l, m.Overlaps e ∧ (m.writes ∨ e.writes) := by
      rw [← scanMaps_eq_none_iff, hscan]
      simp
    refine Or.inr ⟨hno, ?_⟩
    rcases scanMaps_place hscan with ⟨hplace, -⟩ | ⟨l₁, e, l₂, rfl, hlt, hrest, hplace⟩
    · cases hplace
    · obtain rfl : i = l₁.length := by simpa using hplace
      refine Or.inr ⟨l₁, e, l₂, rfl, hlt, hrest, ?_⟩
      rw [List.take_left', List.drop_left'] <;> rfl

/-! ### Runs -/

/-- No map of no bytes looks as if it shared one. -/
def EmptyOk (l : List (MapEvent w)) (m : MapEvent w) : Prop :=
  ∀ e ∈ l, m.cb = 0 ∨ e.cb = 0 → m.writes ∨ e.writes → ¬m.Overlaps e

/-- At most one map of the list has a larger offset. -/
def PlaceOk (l : List (MapEvent w)) (m : MapEvent w) : Prop :=
  (l.filter fun e => m.start < e.start).length ≤ 1

instance (l : List (MapEvent w)) (m : MapEvent w) : Decidable (PlaceOk l m) :=
  inferInstanceAs (Decidable (_ ≤ _))

/-- The condition on a call. -/
def MapOp.Ok (l : List (MapEvent w)) : MapOp w → Prop
  | .add m => m.Fits ∧ EmptyOk l m ∧ PlaceOk l m
  | .remove _ => True

/-- Every call of a sequence meets its condition in the list that it finds. -/
def MapsOk (l : List (MapEvent w)) : List (MapOp w) → Prop
  | [] => True
  | op :: ops => op.Ok l ∧ MapsOk (op.apply l) ops

/-- The maps do not wrap around, they are sorted, and no two of them conflict. -/
structure Recorded (l : List (MapEvent w)) : Prop where
  fits : ∀ e ∈ l, e.Fits
  sorted : l.Pairwise fun a b => a.absolute ≤ b.absolute
  apart : l.Pairwise fun a b => ¬a.Conflicts b

/-- The test of `addMapEvent` is exact for maps that do not wrap around. -/
lemma Recorded.conflict_iff {l : List (MapEvent w)} (h : Recorded l) {m : MapEvent w} (hm : m.Fits)
    (hempty : EmptyOk l m) {e : MapEvent w} (he : e ∈ l) :
    m.Overlaps e ∧ (m.writes ∨ e.writes) ↔ m.Conflicts e := by
  by_cases hcb : m.cb = 0 ∨ e.cb = 0
  · refine iff_of_false (fun hover => hempty e he hcb hover.2 hover.1) fun hconf => ?_
    rcases hcb with hm0 | he0
    · exact hconf.1.cb_ne_zero hm0
    · exact hconf.1.symm.cb_ne_zero he0
  · rw [not_or] at hcb
    rw [MapEvent.Conflicts, MapEvent.overlaps_iff hm (h.fits e he) hcb.1 hcb.2]

/-- `addMapEvent` rejects a map if and only if it conflicts with one of the list. -/
lemma Recorded.addMapEvent_eq_false_iff {l : List (MapEvent w)} (h : Recorded l) {m : MapEvent w}
    (hm : m.Fits) (hempty : EmptyOk l m) :
    ((addMapEvent l m).1 = false ↔ ∃ e ∈ l, m.Conflicts e) ∧
      ((addMapEvent l m).1 = false → (addMapEvent l m).2 = l) := by
  have hsame : (∃ e ∈ l, m.Overlaps e ∧ (m.writes ∨ e.writes)) ↔ ∃ e ∈ l, m.Conflicts e :=
    exists_congr fun e => and_congr_right fun he => h.conflict_iff hm hempty he
  rw [← hsame]
  rcases addMapEvent_cases l m with ⟨hconf, heq⟩ | ⟨hno, ⟨-, heq⟩ | ⟨l₁, e, l₂, -, -, -, heq⟩⟩
  · rw [heq]
    exact ⟨iff_of_true rfl hconf, fun _ => rfl⟩
  · rw [heq]
    exact ⟨iff_of_false (by simp) hno, fun hfalse => by cases hfalse⟩
  · rw [heq]
    exact ⟨iff_of_false (by simp) hno, fun hfalse => by cases hfalse⟩

/-- A part of a list of recorded maps. -/
lemma Recorded.sublist {l l' : List (MapEvent w)} (h : Recorded l) (hsub : l'.Sublist l) : Recorded l' where
  fits e he := h.fits e (hsub.subset he)
  sorted := h.sorted.sublist hsub
  apart := h.apart.sublist hsub

/-- A map without a conflict goes between two parts of the list of which one has no larger and the
other no smaller offsets. -/
lemma Recorded.insert {l₁ l₂ : List (MapEvent w)} (h : Recorded (l₁ ++ l₂)) {m : MapEvent w}
    (hm : m.Fits) (hno : ∀ e ∈ l₁ ++ l₂, ¬m.Conflicts e) (hlow : ∀ e ∈ l₁, e.absolute ≤ m.absolute)
    (hhigh : ∀ e ∈ l₂, m.absolute ≤ e.absolute) : Recorded (l₁ ++ m :: l₂) := by
  obtain ⟨hsorted₁, hsorted₂, hsorted⟩ := List.pairwise_append.mp h.sorted
  obtain ⟨hapart₁, hapart₂, hapart⟩ := List.pairwise_append.mp h.apart
  refine ⟨fun e he => ?_, ?_, ?_⟩
  · rcases List.mem_append.mp he with he | he
    · exact h.fits e (List.mem_append_left _ he)
    · rcases List.mem_cons.mp he with rfl | he
      · exact hm
      · exact h.fits e (List.mem_append_right _ he)
  · refine List.pairwise_append.mpr ⟨hsorted₁, List.pairwise_cons.mpr ⟨hhigh, hsorted₂⟩, ?_⟩
    intro a ha
    exact List.forall_mem_cons.mpr ⟨hlow a ha, hsorted a ha⟩
  · refine List.pairwise_append.mpr ⟨hapart₁, List.pairwise_cons.mpr ⟨fun e he => ?_, hapart₂⟩, ?_⟩
    · exact hno e (List.mem_append_right _ he)
    · intro a ha
      refine List.forall_mem_cons.mpr ⟨fun hconf => ?_, hapart a ha⟩
      exact hno a (List.mem_append_left _ ha) hconf.symm

/-- `addMapEvent` keeps the list recorded. -/
lemma Recorded.add {l : List (MapEvent w)} (h : Recorded l) {m : MapEvent w} (hm : m.Fits)
    (hempty : EmptyOk l m) (hplace : PlaceOk l m) : Recorded (addMapEvent l m).2 := by
  have hlt : ∀ e ∈ l, (m.start < e.start ↔ m.absolute < e.absolute) := by
    intro e he
    rw [BitVec.lt_def, hm.toNat_start, (h.fits e he).toNat_start]
  have hno : (¬∃ e ∈ l, m.Overlaps e ∧ (m.writes ∨ e.writes)) → ∀ e ∈ l, ¬m.Conflicts e := by
    intro hnone e he hconf
    exact hnone ⟨e, he, (h.conflict_iff hm hempty he).mpr hconf⟩
  rcases addMapEvent_cases l m with ⟨-, heq⟩ | ⟨hnone, ⟨hall, heq⟩ | ⟨l₁, e, l₂, rfl, hlast, hrest, heq⟩⟩
  · rw [heq]
    exact h
  · rw [heq]
    have hend : Recorded (l ++ []) := by rwa [List.append_nil]
    refine hend.insert hm (by simpa using hno hnone) ?_ (by simp)
    intro e he
    exact not_lt.mp fun hcon => hall e he ((hlt e he).mpr hcon)
  · rw [heq]
    refine Recorded.insert h hm (hno hnone) (fun a ha => not_lt.mp fun hcon => ?_) fun b hb => ?_
    · -- The map in front of which the new one goes is the only one with a larger offset.
      have hfilter : [a, e].Sublist ((l₁ ++ e :: l₂).filter fun e' => m.start < e'.start) := by
        have hpair : [a, e].Sublist (l₁ ++ e :: l₂) :=
          (List.singleton_sublist.mpr ha).append ((List.nil_sublist l₂).cons_cons e)
        have hkeep := hpair.filter fun e' => decide (m.start < e'.start)
        have ha' : m.start < a.start := (hlt a (List.mem_append_left _ ha)).mpr hcon
        simpa [ha', hlast] using hkeep
      exact absurd (hfilter.length_le.trans hplace) (by simp)
    · have he := (hlt e (by simp)).mp hlast
      rcases List.mem_cons.mp hb with rfl | hb
      · exact he.le
      · have hsorted := (List.pairwise_append.mp h.sorted).2.1
        exact he.le.trans ((List.pairwise_cons.mp hsorted).1 b hb)

/-- A call that meets its condition keeps the list recorded. -/
lemma Recorded.apply {l : List (MapEvent w)} (h : Recorded l) {op : MapOp w} (hok : op.Ok l) :
    Recorded (op.apply l) := by
  cases op with
  | add m => exact h.add hok.1 hok.2.1 hok.2.2
  | remove ptr => exact h.sublist List.eraseP_sublist

/-- A sequence of calls that meet their conditions keeps the list recorded. -/
lemma Recorded.foldl {ops : List (MapOp w)} : ∀ {l : List (MapEvent w)}, Recorded l → MapsOk l ops →
    Recorded (ops.foldl MapOp.apply l) := by
  induction ops with
  | nil => exact fun h _ => h
  | cons op ops ih => exact fun h hok => ih (h.apply hok.1) hok.2

/-- After every sequence of calls whose maps do not wrap around, have no false conflict with a map of no
bytes and find at most one map with a larger offset, the recorded maps are sorted by their offsets in
the parent and no two of them that share a byte include a writing one; and a further map is rejected,
with the list as it was, if and only if it shares a byte with a recorded one and either writes. -/
theorem maps_recorded_of_run (ops : List (MapOp w)) (hok : MapsOk [] ops) :
    (mapsAfter ops).Pairwise (fun a b => a.absolute ≤ b.absolute) ∧
      (mapsAfter ops).Pairwise (fun a b => ¬a.Conflicts b) ∧
      ∀ m : MapEvent w, m.Fits → EmptyOk (mapsAfter ops) m →
        ((addMapEvent (mapsAfter ops) m).1 = false ↔ ∃ e ∈ mapsAfter ops, m.Conflicts e) ∧
        ((addMapEvent (mapsAfter ops) m).1 = false →
          (addMapEvent (mapsAfter ops) m).2 = mapsAfter ops) := by
  have hempty : Recorded ([] : List (MapEvent w)) := ⟨by simp, by simp, by simp⟩
  have h := hempty.foldl hok
  exact ⟨h.sorted, h.apart, fun m hm hmap => h.addMapEvent_eq_false_iff hm hmap⟩

/-- A map of four bytes of a buffer. -/
def fourBytes (offset : BitVec 32) (flags : BitVec 64) : MapEvent 32 :=
  ⟨none, offset, 4, flags, 0x1000 + offset.setWidth 64⟩

/-- Two maps of four bytes are recorded, and a third one that shares bytes with the second is
rejected. -/
theorem maps_recorded_fourBytes :
    MapsOk [] [.add (fourBytes 0 mapRead), .add (fourBytes 8 mapWrite)] ∧
      (addMapEvent (mapsAfter [.add (fourBytes 0 mapRead), .add (fourBytes 8 mapWrite)])
        (fourBytes 10 mapRead)).1 = false := by
  have hcb : ∀ offset flags, (fourBytes offset flags).cb ≠ 0 := fun _ _ => by
    show (4 : BitVec 32) ≠ 0
    decide
  have hok : MapsOk [] [.add (fourBytes 0 mapRead), .add (fourBytes 8 mapWrite)] := by
    refine ⟨⟨⟨by decide, by decide⟩, ?_, by decide⟩, ⟨⟨by decide, by decide⟩, ?_, by decide⟩, trivial⟩
    · intro e he
      cases he
    · intro e he hzero
      rw [List.mem_singleton.mp he] at hzero
      exact absurd hzero (not_or.mpr ⟨hcb _ _, hcb _ _⟩)
  refine ⟨hok, ?_⟩
  have hadd := (maps_recorded_of_run _ hok).2.2 (fourBytes 10 mapRead) ⟨by decide, by decide⟩ ?_
  · refine hadd.1.mpr ⟨fourBytes 8 mapWrite, by decide, ⟨10, by decide, by decide, by decide, by decide⟩, ?_⟩
    exact Or.inr (by decide)
  · intro e he hzero
    rcases List.mem_pair.mp he with rfl | rfl
    · exact absurd hzero (not_or.mpr ⟨hcb _ _, hcb _ _⟩)
    · exact absurd hzero (not_or.mpr ⟨hcb _ _, hcb _ _⟩)

/-- Three maps that only read, the last one below the others: it is recorded between them. -/
theorem not_maps_recorded :
    mapsAfter [.add (fourBytes 10 mapRead), .add (fourBytes 20 mapRead), .add (fourBytes 0 mapRead)] =
        [fourBytes 10 mapRead, fourBytes 0 mapRead, fourBytes 20 mapRead] ∧
      ¬(mapsAfter [.add (fourBytes 10 mapRead), .add (fourBytes 20 mapRead),
        .add (fourBytes 0 mapRead)]).Pairwise fun a b => a.absolute ≤ b.absolute := by
  decide

end Storage

end TiOpenCL
