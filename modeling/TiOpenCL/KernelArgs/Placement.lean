import Mathlib.Data.List.Nodup
import TiOpenCL.KernelArgs.Layout
import TiOpenCL.KernelArgs.Registers

/-!
# Places of the arguments

Every argument that `callArgs` accepts gets a place of its own: register pairs, bytes of
`args_on_stack`, or bytes of `args_of_argref` with a word that refers to them.  The bytes of the place
were not in use before, and the stores of the argument are made there.
-/

namespace TiOpenCL

namespace KernelArgs

/-- Where an argument is. -/
inductive Place
  /-- The word of a buffer. -/
  | word (slot : Slot)
  /-- A value in a register pair, or in a quad, that starts at an index. -/
  | inReg (index : ℕ)
  /-- A value on the stack. -/
  | onStack (offset : ℕ)
  /-- A value in `args_of_argref`, with the word that refers to it. -/
  | byRef (slot : Slot) (offset : ℕ)
  deriving DecidableEq

/-- The place that the next argument gets. -/
def placeArg (clMem : ℕ) (s : CallState) (a : Arg) : Place :=
  let size := a.vecValueSize clMem
  if a.kind = .buffer then .word (setWord s 0).1
  else
    match getargInregIndex size s.cursors with
    | (some index, _) => .inReg index
    | (none, cursors) =>
      if size ≤ 16 then .onStack (roundup s.moreArgOffset size)
      else .byRef (setWord { s with cursors } 0).1 s.argrefOffset

/-- The places of a list of arguments. -/
def places (clMem maxArgsSize : ℕ) : CallState → List Arg → List Place
  | _, [] => []
  | s, a :: args =>
    placeArg clMem s a ::
      match callArg clMem maxArgsSize s a with
      | .ok s' => places clMem maxArgsSize s' args
      | .error _ => []

/-! ### Bytes of a place -/

/-- The three arrays. -/
inductive Region
  | reg
  | stack
  | argref
  deriving DecidableEq

/-- Some bytes of one of the arrays. -/
structure Extent where
  /-- The array. -/
  region : Region
  /-- The first byte. -/
  offset : ℕ
  /-- The number of bytes. -/
  size : ℕ

/-- The bytes of a word; in registers it takes a pair. -/
def Slot.extent : Slot → Extent
  | .inReg index => ⟨.reg, 4 * index, 8⟩
  | .onStack offset => ⟨.stack, offset, 4⟩

/-- The bytes of a place of a value of some size. -/
def Place.extents (size : ℕ) : Place → List Extent
  | .word slot => [slot.extent]
  | .inReg index => (pairsOf size (index / 2)).map fun j => ⟨.reg, 8 * j, 8⟩
  | .onStack offset => [⟨.stack, offset, size⟩]
  | .byRef slot offset => [slot.extent, ⟨.argref, offset, size⟩]

/-- Two extents have no byte in common. -/
def Extent.Apart (e e' : Extent) : Prop :=
  e.region = e'.region → e.offset + e.size ≤ e'.offset ∨ e'.offset + e'.size ≤ e.offset

/-- An extent is in use. -/
def Extent.Used (s : CallState) (e : Extent) : Prop :=
  match e.region with
  | .reg => ∃ j, e.offset = 8 * j ∧ e.size = 8 ∧ j < 10 ∧ Taken s.cursors j
  | .stack => e.offset + e.size ≤ s.moreArgOffset
  | .argref => e.offset + e.size ≤ s.argrefOffset

/-- An extent is not in use, also not in part. -/
def Extent.Fresh (s : CallState) (e : Extent) : Prop :=
  match e.region with
  | .reg => ∃ j, e.offset = 8 * j ∧ e.size = 8 ∧ ¬ Taken s.cursors j
  | .stack => s.moreArgOffset ≤ e.offset
  | .argref => s.argrefOffset ≤ e.offset

/-- What is in use is apart from what is not. -/
theorem Extent.Used.apart {s : CallState} {e e' : Extent} (he : e.Used s) (he' : e'.Fresh s) :
    e.Apart e' := by
  intro hregion
  unfold Extent.Used at he
  unfold Extent.Fresh at he'
  rw [← hregion] at he'
  cases hr : e.region with
  | reg =>
    rw [hr] at he he'
    obtain ⟨j, hj, hsize, -, htaken⟩ := he
    obtain ⟨j', hj', hsize', hfree⟩ := he'
    have hne : j ≠ j' := by
      rintro rfl
      exact hfree htaken
    omega
  | stack =>
    rw [hr] at he he'
    exact Or.inl (he.trans he')
  | argref =>
    rw [hr] at he he'
    exact Or.inl (he.trans he')

/-! ### Stores of a place -/

/-- The stores that a place of an argument stands for are made. -/
def Stored (clMem : ℕ) (s : CallState) (a : Arg) : Place → Prop
  | .word (.inReg index) => a.kind = .buffer ∧ ⟨4, 4 * index, bufPtr a⟩ ∈ s.argsInReg
  | .word (.onStack offset) =>
    a.kind = .buffer ∧ 4 ∣ offset ∧ ⟨4, offset, bufPtr a⟩ ∈ s.argsOnStack
  | .inReg index =>
    a.kind ≠ .buffer ∧ a.vecValueSize clMem ≤ 16 ∧ index % 2 = 0 ∧
      ∀ t ∈ setValueInreg index (a.vecValueSize clMem) a, t ∈ s.argsInReg
  | .onStack offset =>
    a.kind ≠ .buffer ∧ a.vecValueSize clMem ∣ offset ∧
      ⟨a.vecValueSize clMem, offset, a.data⟩ ∈ s.argsOnStack
  | .byRef slot offset =>
    a.kind ≠ .buffer ∧ 8 ∣ offset ∧ ⟨a.vecValueSize clMem, offset, a.data⟩ ∈ s.argsOfArgref ∧
      match slot with
      | .inReg index => ⟨4, 4 * index, 0⟩ ∈ s.argsInReg
      | .onStack o => 4 ∣ o ∧ ⟨4, o, 0⟩ ∈ s.argsOnStack

/-- What `callArgs` adds to a state. -/
structure Extends (s s' : CallState) : Prop where
  regs : s.argsInReg ⊆ s'.argsInReg
  stack : s.argsOnStack ⊆ s'.argsOnStack
  argref : s.argsOfArgref ⊆ s'.argsOfArgref
  offset : s.moreArgOffset ≤ s'.moreArgOffset
  argrefOffset : s.argrefOffset ≤ s'.argrefOffset
  taken : ∀ j, Taken s.cursors j → Taken s'.cursors j

/-- Stores that are made stay made. -/
theorem Stored.mono {clMem : ℕ} {s s' : CallState} (h : Extends s s') {a : Arg} {p : Place}
    (hp : Stored clMem s a p) : Stored clMem s' a p := by
  rcases p with (index | offset) | index | offset | ⟨index | o, offset⟩
  · exact ⟨hp.1, h.regs hp.2⟩
  · exact ⟨hp.1, hp.2.1, h.stack hp.2.2⟩
  · exact ⟨hp.1, hp.2.1, hp.2.2.1, fun t ht => h.regs (hp.2.2.2 t ht)⟩
  · exact ⟨hp.1, hp.2.1, h.stack hp.2.2⟩
  · exact ⟨hp.1, hp.2.1, h.argref hp.2.2.1, h.regs hp.2.2.2⟩
  · exact ⟨hp.1, hp.2.1, h.argref hp.2.2.1, hp.2.2.2.1, h.stack hp.2.2.2.2⟩

/-- What is in use stays in use. -/
theorem Extent.Used.mono {s s' : CallState} (h : Extends s s') {e : Extent} (he : e.Used s) :
    e.Used s' := by
  unfold Extent.Used at he ⊢
  cases hr : e.region with
  | reg =>
    rw [hr] at he
    obtain ⟨j, hj, hsize, hlt, htaken⟩ := he
    exact ⟨j, hj, hsize, hlt, h.taken j htaken⟩
  | stack =>
    rw [hr] at he
    exact he.trans h.offset
  | argref =>
    rw [hr] at he
    exact he.trans h.argrefOffset

/-! ### Stores to registers -/

/-- The stores to registers are at different pairs that are taken. -/
structure RegsOk (c : Cursors) (l : List Store) : Prop where
  /-- The cursors are meaningful. -/
  cursors : CursorsOk c
  /-- Every store is at a pair that is taken. -/
  stores : ∀ t ∈ l, t.size ≤ 8 ∧ ∃ j, t.offset = 8 * j ∧ Taken c j
  /-- No two stores are at the same pair. -/
  nodup : (l.map Store.offset).Nodup

/-- At the start there is no store. -/
theorem regsOk_init : RegsOk CallState.init.cursors CallState.init.argsInReg where
  cursors := ⟨by unfold SideOk; decide, by unfold SideOk; decide⟩
  stores := by simp [CallState.init]
  nodup := List.nodup_nil

/-- Stores at the pairs that an argument takes. -/
theorem RegsOk.append {c c' : Cursors} {l new : List Store} {pairs : List ℕ} (h : RegsOk c l)
    (htakes : Takes c c' pairs) (hnodup : pairs.Nodup)
    (hoffset : new.map Store.offset = pairs.map (8 * ·)) (hsize : ∀ t ∈ new, t.size ≤ 8) :
    RegsOk c' (l ++ new) := by
  have hnew : ∀ t ∈ new, ∃ j ∈ pairs, t.offset = 8 * j := by
    intro t ht
    have hmem : t.offset ∈ new.map Store.offset := List.mem_map_of_mem ht
    rw [hoffset] at hmem
    obtain ⟨j, hj, heq⟩ := List.mem_map.1 hmem
    exact ⟨j, hj, heq.symm⟩
  refine ⟨htakes.ok, ?_, ?_⟩
  · intro t ht
    rcases List.mem_append.1 ht with ht | ht
    · obtain ⟨hle, j, hj, htaken⟩ := h.stores t ht
      exact ⟨hle, j, hj, htakes.mono j htaken⟩
    · obtain ⟨j, hj, heq⟩ := hnew t ht
      exact ⟨hsize t ht, j, heq, htakes.taken j hj⟩
  · rw [List.map_append, List.nodup_append]
    refine ⟨h.nodup, ?_, ?_⟩
    · rw [hoffset]
      exact List.Nodup.map (fun a b hab => Nat.eq_of_mul_eq_mul_left (show 0 < 8 by norm_num) hab) hnodup
    · intro o ho o' ho' heq
      obtain ⟨t, ht, rfl⟩ := List.mem_map.1 ho
      obtain ⟨t', ht', rfl⟩ := List.mem_map.1 ho'
      obtain ⟨-, j, hj, htaken⟩ := h.stores t ht
      obtain ⟨j', hj', hnew'⟩ := hnew t' ht'
      have hjj : j = j' := by omega
      exact htakes.free j' hj' (hjj ▸ htaken)

/-- Stores at different pairs do not overlap. -/
theorem RegsOk.apart {c : Cursors} {l : List Store} (h : RegsOk c l) : l.Pairwise Store.Apart := by
  have hne : l.Pairwise fun s t => s.offset ≠ t.offset := List.pairwise_map.1 h.nodup
  refine hne.imp_of_mem fun {s t} hs ht hst => ?_
  obtain ⟨hsize, j, hj, -⟩ := h.stores s hs
  obtain ⟨hsize', j', hj', -⟩ := h.stores t ht
  unfold Store.Apart
  omega

/-- A store to registers is read back as a word of the pair. -/
theorem RegsOk.readWord {c : Cursors} {l : List Store} (h : RegsOk c l) {t : Store} (ht : t ∈ l)
    (hv : t.value < 256 ^ t.size) {n : ℕ} (hn : t.size ≤ n) (hn8 : n ≤ 8) :
    readWord (storeAll zeroBytes l) n t.offset = t.value := by
  obtain ⟨k, rfl⟩ := Nat.exists_eq_add_of_le hn
  refine readWord_storeAll_of_room h.apart ht hv k fun t' ht' => ?_
  obtain ⟨-, j, hj, -⟩ := h.stores t ht
  obtain ⟨hsize', j', hj', -⟩ := h.stores t' ht'
  unfold Store.Apart
  by_cases hjj : j = j'
  · have heq : t' = t := List.inj_on_of_nodup_map h.nodup ht' ht (by omega)
    subst heq
    exact Or.inr le_rfl
  · dsimp only
    omega

/-- The pairs of an argument are different. -/
theorem nodup_pairsOf (sz j : ℕ) : (pairsOf sz j).Nodup := by
  unfold pairsOf
  split <;> simp

/-- The stores of `setarg_inreg` are at the pairs of the argument. -/
theorem setargInreg_offsets {sz : ℕ} (hsz : sz ≤ 8 ∨ sz = 16) (j v : ℕ) :
    (setargInreg (2 * j) sz v).map Store.offset = (pairsOf sz j).map (8 * ·) ∧
      ∀ t ∈ setargInreg (2 * j) sz v, t.size ≤ 8 := by
  unfold setargInreg pairsOf
  rcases hsz with hle | rfl
  · rw [if_pos hle, if_pos hle]
    refine ⟨by simp only [List.map_cons, List.map_nil, List.cons.injEq, and_true]; omega, ?_⟩
    intro t ht
    rw [List.mem_singleton.1 ht]
    exact hle
  · refine ⟨by simp; omega, ?_⟩
    intro t ht
    have ht' : t = ⟨8, 4 * (2 * j), v % 256 ^ 8⟩ ∨ t = ⟨8, 4 * (2 * j + 4), v / 256 ^ 8⟩ := by
      simpa using ht
    rcases ht' with rfl | rfl <;> exact le_rfl

/-- The stores of a value in registers are at the pairs of the argument. -/
theorem setValueInreg_offsets {sz : ℕ} (hsz : sz ≤ 8 ∨ sz = 16) (j : ℕ) (a : Arg) :
    (setValueInreg (2 * j) sz a).map Store.offset = (pairsOf sz j).map (8 * ·) ∧
      ∀ t ∈ setValueInreg (2 * j) sz a, t.size ≤ 8 := by
  unfold setValueInreg
  dsimp only
  split
  · exact setargInreg_offsets hsz j a.data
  · next hdummy =>
    have hsmall : sz ≤ 8 := by
      by_contra hlarge
      refine hdummy ?_
      rw [extendSubword, if_neg (by omega), if_neg (by omega)]
    have h := setargInreg_offsets (Or.inl (show 4 ≤ 8 by norm_num)) j
      (extendSubword a.isSubwordIntUns sz a.data)
    rw [pairsOf, if_pos hsmall]
    exact h

/-! ### One argument -/

/-- The word in a slot is stored. -/
def SlotStored (s : CallState) (value : ℕ) : Slot → Prop
  | .inReg index => ⟨4, 4 * index, value⟩ ∈ s.argsInReg
  | .onStack offset => 4 ∣ offset ∧ ⟨4, offset, value⟩ ∈ s.argsOnStack

/-- The slot of a word depends on the cursors and the offset only. -/
theorem setWord_fst_congr {s s' : CallState} (hcursors : s.cursors = s'.cursors)
    (hoffset : s.moreArgOffset = s'.moreArgOffset) (value value' : ℕ) :
    (setWord s value).1 = (setWord s' value').1 := by
  unfold setWord
  rw [hcursors, hoffset]
  rcases getargInregIndex 4 s'.cursors with ⟨_ | index, cursors⟩ <;> rfl

/-- What a word in a register or on the stack does. -/
structure WordSet (s s' : CallState) (value : ℕ) (slot : Slot) : Prop where
  regs : RegsOk s'.cursors s'.argsInReg
  extends' : Extends s s'
  stored : SlotStored s' value slot
  fresh : slot.extent.Fresh s
  used : slot.extent.Used s'

/-- A word gets a slot of its own. -/
theorem wordSet_setWord {s : CallState} (hs : StackOk s) (hregs : RegsOk s.cursors s.argsInReg)
    (value : ℕ) : WordSet s (setWord s value).2 value (setWord s value).1 := by
  have hspec := getargInregIndex_spec hregs.cursors 4
  unfold setWord
  rcases hget : getargInregIndex 4 s.cursors with ⟨_ | index, cursors⟩
  · have hcursors : cursors = s.cursors := by
      rw [hget] at hspec
      rcases hspec with ⟨-, hc⟩ | ⟨j, hj, -⟩
      · exact hc
      · cases hj
    subst hcursors
    obtain ⟨hle, -, hend, -⟩ := setMoreArg_spec hs (show 2 ≤ 7 by norm_num) value
    have hoffset := hs.offset
    have hbound : s.moreArgOffset + 2 ^ 2 ≤ 2 ^ 32 := by omega
    obtain ⟨hlow, -, hdvd⟩ := roundup_bounds (show 2 ≤ 32 by norm_num) hbound
    refine ⟨hregs, ⟨List.Subset.refl _, ?_, List.Subset.refl _, hle, le_rfl, fun j hj => hj⟩,
      ⟨hdvd, ?_⟩, hlow, hend.le⟩
    · exact List.subset_append_left _ _
    · exact List.mem_append_right _ (List.mem_singleton_self _)
  · rw [hget] at hspec
    rcases hspec with ⟨hnone, -⟩ | ⟨j, hj, -, htakes⟩
    · cases hnone
    · obtain rfl := Option.some.inj hj
      obtain ⟨hoffsets, hsizes⟩ :=
        setargInreg_offsets (Or.inl (show 4 ≤ 8 by norm_num)) j value
      have hmem : j ∈ pairsOf 4 j := by simp [pairsOf]
      have hpair : 4 * (2 * j) = 8 * j := by omega
      refine ⟨hregs.append htakes (nodup_pairsOf 4 j) hoffsets hsizes,
        ⟨?_, List.Subset.refl _, List.Subset.refl _, le_rfl, le_rfl, htakes.mono⟩, ?_,
        ⟨j, hpair, rfl, htakes.free j hmem⟩, ⟨j, hpair, rfl, htakes.lt j hmem, htakes.taken j hmem⟩⟩
      · exact List.subset_append_left _ _
      · exact List.mem_append_right _ (List.mem_singleton_self _)

/-- What an argument does. -/
structure ArgSet (clMem : ℕ) (s s' : CallState) (a : Arg) (p : Place) : Prop where
  regs : RegsOk s'.cursors s'.argsInReg
  extends' : Extends s s'
  stored : Stored clMem s' a p
  fresh : ∀ e ∈ p.extents (a.vecValueSize clMem), e.Fresh s
  used : ∀ e ∈ p.extents (a.vecValueSize clMem), e.Used s'

/-- The notes on a buffer leave the registers alone. -/
theorem noteBuffer_regs (s : CallState) (a : Arg) (slot : Slot) :
    (noteBuffer s a slot).cursors = s.cursors ∧ (noteBuffer s a slot).argsInReg = s.argsInReg := by
  unfold noteBuffer
  split
  · exact ⟨rfl, rfl⟩
  · split
    · exact ⟨rfl, rfl⟩
    · split <;> exact ⟨rfl, rfl⟩

/-- The notes on a buffer keep what a word did. -/
theorem WordSet.noteBuffer {s s' : CallState} {value : ℕ} {slot : Slot}
    (h : WordSet s s' value slot) (a : Arg) (slot' : Slot) :
    WordSet s (noteBuffer s' a slot') value slot := by
  obtain ⟨hcursors, hregs⟩ := noteBuffer_regs s' a slot'
  obtain ⟨hoffset, hstack, -, hargref, hargrefOffset⟩ := noteBuffer_frame s' a slot'
  have hext := h.extends'
  refine ⟨?_, ⟨?_, ?_, ?_, ?_, ?_, ?_⟩, ?_, h.fresh, ?_⟩
  · rw [hcursors, hregs]
    exact h.regs
  · rw [hregs]
    exact hext.regs
  · rw [hstack]
    exact hext.stack
  · rw [hargref]
    exact hext.argref
  · rw [hoffset]
    exact hext.offset
  · rw [hargrefOffset]
    exact hext.argrefOffset
  · rw [hcursors]
    exact hext.taken
  · have hstored := h.stored
    cases slot with
    | inReg index =>
      simp only [SlotStored] at hstored ⊢
      rw [hregs]
      exact hstored
    | onStack offset =>
      simp only [SlotStored] at hstored ⊢
      rw [hstack]
      exact hstored
  · have hused := h.used
    cases slot with
    | inReg index =>
      simp only [Extent.Used, Slot.extent] at hused ⊢
      rw [hcursors]
      exact hused
    | onStack offset =>
      simp only [Extent.Used, Slot.extent] at hused ⊢
      rw [hoffset]
      exact hused

/-- A buffer argument gets a word of its own. -/
theorem argSet_buffer {clMem size : ℕ} {s : CallState} (hs : StackOk s)
    (hregs : RegsOk s.cursors s.argsInReg) {a : Arg} (hkind : a.kind = .buffer) :
    ArgSet clMem s
      (noteBuffer (setWord { s with argsTotalSize := s.argsTotalSize + size } (bufPtr a)).2 a
        (setWord { s with argsTotalSize := s.argsTotalSize + size } (bufPtr a)).1) a
      (placeArg clMem s a) := by
  have hs' : StackOk { s with argsTotalSize := s.argsTotalSize + size } :=
    ⟨hs.stores, hs.slots, hs.offset⟩
  have hplace : placeArg clMem s a =
      .word (setWord { s with argsTotalSize := s.argsTotalSize + size } (bufPtr a)).1 := by
    rw [placeArg, if_pos hkind]
    refine congrArg Place.word ?_
    apply setWord_fst_congr <;> rfl
  have hword := (wordSet_setWord hs' hregs (bufPtr a)).noteBuffer a
    (setWord { s with argsTotalSize := s.argsTotalSize + size } (bufPtr a)).1
  rw [hplace]
  generalize (setWord { s with argsTotalSize := s.argsTotalSize + size } (bufPtr a)).1 = slot at *
  refine ⟨hword.regs, ?_, ?_, ?_, ?_⟩
  · exact ⟨hword.extends'.regs, hword.extends'.stack, hword.extends'.argref, hword.extends'.offset,
      hword.extends'.argrefOffset, hword.extends'.taken⟩
  · have hstored := hword.stored
    cases slot with
    | inReg index => exact ⟨hkind, hstored⟩
    | onStack offset => exact ⟨hkind, hstored⟩
  · intro e he
    rw [List.mem_singleton.1 he]
    exact hword.fresh
  · intro e he
    rw [List.mem_singleton.1 he]
    exact hword.used

/-- A value gets a place of its own. -/
theorem argSet_value {clMem k : ℕ} {s : CallState} (hs : StackOk s)
    (hregs : RegsOk s.cursors s.argsInReg) (haligned : 8 ∣ s.argrefOffset)
    (href : s.argrefOffset < 2 ^ 16) {a : Arg} (hkind : a.kind ≠ .buffer) (hk : k ≤ 7)
    (hsize : a.vecValueSize clMem = 2 ^ k) :
    ArgSet clMem s (setValue { s with argsTotalSize := s.argsTotalSize + 2 ^ k } (2 ^ k) a) a
      (placeArg clMem s a) := by
  have hspec := getargInregIndex_spec hregs.cursors (2 ^ k)
  have hpow : 2 ^ k ≤ 2 ^ 7 := Nat.pow_le_pow_right (by norm_num) hk
  have hoffset := hs.offset
  unfold placeArg setValue
  rw [if_neg hkind, hsize]
  rcases hget : getargInregIndex (2 ^ k) s.cursors with ⟨_ | index, cursors⟩
  · have hcursors : cursors = s.cursors := by
      rw [hget] at hspec
      rcases hspec with ⟨-, hc⟩ | ⟨j, hj, -⟩
      · exact hc
      · cases hj
    subst hcursors
    dsimp only
    split
    · next hsmall =>
      obtain ⟨hle, -, hend, -⟩ := setMoreArg_spec hs hk a.data
      have hbound : s.moreArgOffset + 2 ^ k ≤ 2 ^ 32 := by omega
      obtain ⟨hlow, -, hdvd⟩ := roundup_bounds (show k ≤ 32 by omega) hbound
      refine ⟨hregs, ⟨List.Subset.refl _, List.subset_append_left _ _, List.Subset.refl _, hle,
        le_rfl, fun j hj => hj⟩, ⟨hkind, ?_, ?_⟩, ?_, ?_⟩
      · rw [hsize]
        exact hdvd
      · rw [hsize]
        exact List.mem_append_right _ (List.mem_singleton_self _)
      · intro e he
        rw [List.mem_singleton.1 he]
        exact hlow
      · intro e he
        rw [List.mem_singleton.1 he, hsize]
        exact hend.le
    · next hlarge =>
      have hs' : StackOk { s with argsTotalSize := s.argsTotalSize + 2 ^ k } :=
        ⟨hs.stores, hs.slots, hs.offset⟩
      have hword := wordSet_setWord hs' hregs 0
      obtain ⟨-, -, hrefs, hrefOffset⟩ :=
        setWord_frame { s with argsTotalSize := s.argsTotalSize + 2 ^ k } 0
      have hslot : (setWord s 0).1 =
          (setWord { s with argsTotalSize := s.argsTotalSize + 2 ^ k } 0).1 := by
        apply setWord_fst_congr <;> rfl
      change ArgSet clMem s _ a (.byRef (setWord s 0).1 s.argrefOffset)
      rw [hslot]
      generalize setWord { s with argsTotalSize := s.argsTotalSize + 2 ^ k } 0 = r at *
      dsimp only at hrefs hrefOffset
      have hbound : s.argrefOffset + 2 ^ k + 2 ^ 3 ≤ 2 ^ 32 := by omega
      have hlow : s.argrefOffset + 2 ^ k ≤ roundup (r.2.argrefOffset + 2 ^ k) 8 := by
        rw [hrefOffset]
        exact (roundup_bounds (show 3 ≤ 32 by norm_num) hbound).1
      have hext := hword.extends'
      have hmem : (⟨2 ^ k, s.argrefOffset, a.data⟩ : Store) ∈
          r.2.argsOfArgref ++ [⟨2 ^ k, r.2.argrefOffset, a.data⟩] := by
        rw [hrefOffset]
        exact List.mem_append_right _ (List.mem_singleton_self _)
      refine ⟨hword.regs, ⟨hext.regs, hext.stack, ?_, hext.offset, ?_, hext.taken⟩, ?_, ?_, ?_⟩
      · change s.argsOfArgref ⊆ r.2.argsOfArgref ++ _
        rw [hrefs]
        exact List.subset_append_left _ _
      · exact (Nat.le_add_right _ _).trans hlow
      · have hstored := hword.stored
        rcases hr : r.1 with index | o
        · rw [hr] at hstored
          refine ⟨hkind, haligned, ?_, hstored⟩
          rw [hsize]
          exact hmem
        · rw [hr] at hstored
          refine ⟨hkind, haligned, ?_, hstored⟩
          rw [hsize]
          exact hmem
      · intro e he
        rcases List.mem_cons.1 he with rfl | he
        · exact hword.fresh
        · rw [List.mem_singleton.1 he]
          exact le_rfl
      · intro e he
        rcases List.mem_cons.1 he with rfl | he
        · have hused := hword.used
          rcases hr : r.1 with index | o
          · rw [hr] at hused
            exact hused
          · rw [hr] at hused
            exact hused
        · rw [List.mem_singleton.1 he, hsize]
          exact hlow
  · rw [hget] at hspec
    rcases hspec with ⟨hnone, -⟩ | ⟨j, hj, hsmall, htakes⟩
    · cases hnone
    · obtain rfl := Option.some.inj hj
      have hsz : 2 ^ k ≤ 8 ∨ 2 ^ k = 16 := by
        interval_cases k <;> simp_all
      obtain ⟨hoffsets, hsizes⟩ := setValueInreg_offsets hsz j a
      have hhalf : 2 * j / 2 = j := by omega
      refine ⟨hregs.append htakes (nodup_pairsOf _ j) hoffsets hsizes,
        ⟨List.subset_append_left _ _, List.Subset.refl _, List.Subset.refl _, le_rfl, le_rfl,
          htakes.mono⟩, ⟨hkind, ?_, by omega, ?_⟩, ?_, ?_⟩
      · rw [hsize]
        exact hsmall
      · rw [hsize]
        exact fun t ht => List.mem_append_right _ ht
      · intro e he
        simp only [Place.extents, hhalf, List.mem_map] at he
        obtain ⟨i, hi, rfl⟩ := he
        rw [hsize] at hi
        exact ⟨i, rfl, rfl, htakes.free i hi⟩
      · intro e he
        simp only [Place.extents, hhalf, List.mem_map] at he
        obtain ⟨i, hi, rfl⟩ := he
        rw [hsize] at hi
        exact ⟨i, rfl, rfl, htakes.lt i hi, htakes.taken i hi⟩

end KernelArgs

end TiOpenCL
