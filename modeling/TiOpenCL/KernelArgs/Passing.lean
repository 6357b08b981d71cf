import Mathlib.Data.List.Forall2
import TiOpenCL.KernelArgs.Placement

/-!
# Passing arguments to a kernel

After `callArgs` the places of the arguments do not overlap and hold the arguments, the device loads
those in registers into the registers they stand for, and the words that are noted for later are the
places of their arguments.  Integers of one or two bytes are extended to a word in registers; on the
stack they have their own bytes only.
-/

namespace TiOpenCL

namespace KernelArgs

/-! ### Notes for later -/

/-- The entry of `p_local_bufs` of an argument. -/
def localNote (a : Arg) : Place → Option (Slot × ℕ)
  | .word slot => if a.file = .loc then some (slot, a.allocAtKernelRuntime) else none
  | _ => none

/-- The entry of `p_hostptr_tmpbufs` of an argument. -/
def tmpbufNote (a : Arg) : Place → Option (MemObject × Slot)
  | .word slot =>
    if a.file = .loc then none
    else a.memObject.bind fun b =>
      if b.useHostPtr && !b.hostPtrClMalloced then some (b, slot) else none
  | _ => none

/-- The entry of `p_64bit_bufs` of an argument. -/
def buf64Note (a : Arg) : Place → Option (ℕ × Slot × ℕ)
  | .word slot =>
    if a.file = .loc then none
    else a.memObject.bind fun b =>
      if b.useHostPtr && !b.hostPtrClMalloced then none
      else if b.data < 0xFFFFFFFF then none else some (b.data, slot, b.size)
  | _ => none

/-- The entry of `p_argrefs` of an argument. -/
def argrefNote : Place → Option (Slot × ℕ)
  | .byRef slot offset => some (slot, offset)
  | _ => none

/-- The notes that are taken of arguments with their places. -/
structure Noted (s s' : CallState) (l : List (Arg × Place)) : Prop where
  localBufs : s'.localBufs = s.localBufs ++ l.filterMap fun ap => localNote ap.1 ap.2
  hostptrTmpbufs :
    s'.hostptrTmpbufs = s.hostptrTmpbufs ++ l.filterMap fun ap => tmpbufNote ap.1 ap.2
  bufs64bit : s'.bufs64bit = s.bufs64bit ++ l.filterMap fun ap => buf64Note ap.1 ap.2
  argrefs : s'.argrefs = s.argrefs ++ l.filterMap fun ap => argrefNote ap.2

/-- The notes of two lists of arguments. -/
theorem Noted.append {s s₁ s₂ : CallState} {l₁ l₂ : List (Arg × Place)} (h₁ : Noted s s₁ l₁)
    (h₂ : Noted s₁ s₂ l₂) : Noted s s₂ (l₁ ++ l₂) where
  localBufs := by rw [h₂.localBufs, h₁.localBufs, List.filterMap_append, List.append_assoc]
  hostptrTmpbufs := by
    rw [h₂.hostptrTmpbufs, h₁.hostptrTmpbufs, List.filterMap_append, List.append_assoc]
  bufs64bit := by rw [h₂.bufs64bit, h₁.bufs64bit, List.filterMap_append, List.append_assoc]
  argrefs := by rw [h₂.argrefs, h₁.argrefs, List.filterMap_append, List.append_assoc]

/-- A word is not noted by itself. -/
theorem setWord_notes (s : CallState) (value : ℕ) :
    (setWord s value).2.localBufs = s.localBufs ∧
      (setWord s value).2.hostptrTmpbufs = s.hostptrTmpbufs ∧
      (setWord s value).2.bufs64bit = s.bufs64bit ∧ (setWord s value).2.argrefs = s.argrefs := by
  unfold setWord
  rcases getargInregIndex 4 s.cursors with ⟨_ | index, cursors⟩ <;> exact ⟨rfl, rfl, rfl, rfl⟩

/-- The notes on a buffer. -/
theorem noted_noteBuffer (s : CallState) (a : Arg) (slot : Slot) :
    Noted s (noteBuffer s a slot) [(a, .word slot)] := by
  unfold noteBuffer
  by_cases hloc : a.file = .loc
  · rw [if_pos hloc]
    constructor <;> simp [localNote, tmpbufNote, buf64Note, argrefNote, hloc]
  · rw [if_neg hloc]
    cases hobj : a.memObject with
    | none =>
      constructor <;> simp [localNote, tmpbufNote, buf64Note, argrefNote, hloc, hobj]
    | some b =>
      dsimp only
      by_cases htmp : (b.useHostPtr && !b.hostPtrClMalloced) = true
      · rw [if_pos htmp]
        constructor <;> simp only [localNote, tmpbufNote, buf64Note, argrefNote, hloc, hobj, htmp,
          if_true, if_false, Option.bind_some, List.filterMap_cons, List.filterMap_nil,
          List.append_nil]
      · rw [if_neg htmp]
        by_cases hlow : b.data < 0xFFFFFFFF
        · constructor <;> simp only [localNote, tmpbufNote, buf64Note, argrefNote, hloc, hobj, htmp,
            hlow, if_true, if_false, Option.bind_some, List.filterMap_cons, List.filterMap_nil,
            List.append_nil, Bool.false_eq_true]
        · constructor <;> simp only [localNote, tmpbufNote, buf64Note, argrefNote, hloc, hobj, htmp,
            hlow, if_false, Option.bind_some, List.filterMap_cons, List.filterMap_nil,
            List.append_nil, Bool.false_eq_true]

/-- The notes on a buffer argument. -/
theorem noted_buffer {clMem size value : ℕ} (s : CallState) {a : Arg} (hkind : a.kind = .buffer) :
    Noted s (noteBuffer (setWord { s with argsTotalSize := s.argsTotalSize + size } value).2 a
      (setWord { s with argsTotalSize := s.argsTotalSize + size } value).1)
      [(a, placeArg clMem s a)] := by
  have hplace : placeArg clMem s a =
      .word (setWord { s with argsTotalSize := s.argsTotalSize + size } value).1 := by
    rw [placeArg, if_pos hkind]
    refine congrArg Place.word ?_
    apply setWord_fst_congr <;> rfl
  obtain ⟨hlocal, htmp, h64, href⟩ :=
    setWord_notes { s with argsTotalSize := s.argsTotalSize + size } value
  have h := noted_noteBuffer (setWord { s with argsTotalSize := s.argsTotalSize + size } value).2 a
    (setWord { s with argsTotalSize := s.argsTotalSize + size } value).1
  rw [hplace]
  refine ⟨?_, ?_, ?_, ?_⟩
  · rw [h.localBufs, hlocal]
  · rw [h.hostptrTmpbufs, htmp]
  · rw [h.bufs64bit, h64]
  · rw [h.argrefs, href]

/-- The notes on a value. -/
theorem noted_value {clMem size : ℕ} (s : CallState) {a : Arg} (hkind : a.kind ≠ .buffer)
    (hsize : a.vecValueSize clMem = size) :
    Noted s (setValue { s with argsTotalSize := s.argsTotalSize + size } size a)
      [(a, placeArg clMem s a)] := by
  unfold placeArg setValue
  rw [if_neg hkind, hsize]
  rcases getargInregIndex size s.cursors with ⟨_ | index, cursors⟩
  · dsimp only
    split
    · constructor <;> exact (List.append_nil _).symm
    · have hslot : (setWord { s with cursors } 0).1 =
          (setWord { s with argsTotalSize := s.argsTotalSize + size, cursors } 0).1 := by
        apply setWord_fst_congr <;> rfl
      obtain ⟨hlocal, htmp, h64, href⟩ :=
        setWord_notes { s with argsTotalSize := s.argsTotalSize + size, cursors } 0
      obtain ⟨-, -, -, hoffset⟩ :=
        setWord_frame { s with argsTotalSize := s.argsTotalSize + size, cursors } 0
      rw [hslot]
      refine ⟨?_, ?_, ?_, ?_⟩
      · exact hlocal.trans (List.append_nil _).symm
      · exact htmp.trans (List.append_nil _).symm
      · exact h64.trans (List.append_nil _).symm
      · simp only [List.filterMap_cons, List.filterMap_nil, argrefNote]
        rw [href, hoffset]
  · constructor <;> exact (List.append_nil _).symm

/-- One argument: its place and its notes. -/
theorem callArg_spec {clMem : ℕ} {s s' : CallState} {n : ℕ} {a : Arg} (h : Laid s n)
    (hregs : RegsOk s.cursors s.argsInReg) (ha : a.Sized clMem)
    (hcall : callArg clMem maxArgsTotalSize s a = .ok s') :
    ArgSet clMem s s' a (placeArg clMem s a) ∧ Noted s s' [(a, placeArg clMem s a)] := by
  unfold callArg at hcall
  simp only at hcall
  split at hcall
  · cases hcall
  · next hsize =>
    split at hcall
    · cases hcall
    · next htotal =>
      by_cases hkind : a.kind = .buffer
      · rw [hkind] at hcall
        obtain rfl := Except.ok.inj hcall
        exact ⟨argSet_buffer h.stackOk hregs hkind, noted_buffer s hkind⟩
      · obtain ⟨k, hk, hpow⟩ : ∃ k ≤ 7, a.vecValueSize clMem = 2 ^ k :=
          ha.resolve_left fun hbuffer => hkind hbuffer.1
        have href : s.argrefOffset < 2 ^ 16 :=
          lt_of_le_of_lt (h.refsTotal.trans h.total) (by decide)
        rw [hpow] at hcall
        split at hcall
        · next hbuffer => exact absurd hbuffer hkind
        · cases hcall
        · cases hcall
        · obtain rfl := Except.ok.inj hcall
          exact ⟨argSet_value h.stackOk hregs h.aligned href hkind hk hpow,
            noted_value s hkind hpow⟩

/-! ### All arguments -/

/-- The bytes of an argument at a place. -/
def bytesOf (clMem : ℕ) (ap : Arg × Place) : List Extent := ap.2.extents (ap.1.vecValueSize clMem)

/-- What a list of arguments does. -/
structure ArgsSet (clMem : ℕ) (s s' : CallState) (args : List Arg) (ps : List Place) : Prop where
  regs : RegsOk s'.cursors s'.argsInReg
  extends' : Extends s s'
  stored : List.Forall₂ (Stored clMem s') args ps
  fresh : ∀ ap ∈ args.zip ps, ∀ e ∈ bytesOf clMem ap, e.Fresh s
  used : ∀ ap ∈ args.zip ps, ∀ e ∈ bytesOf clMem ap, e.Used s'
  apart : (args.zip ps).Pairwise fun ap bq =>
    ∀ e ∈ bytesOf clMem ap, ∀ e' ∈ bytesOf clMem bq, e.Apart e'
  noted : Noted s s' (args.zip ps)

/-- The relation of a state with itself. -/
theorem Extends.refl (s : CallState) : Extends s s :=
  ⟨List.Subset.refl _, List.Subset.refl _, List.Subset.refl _, le_rfl, le_rfl, fun _ h => h⟩

/-- Two steps. -/
theorem Extends.trans {s s₁ s₂ : CallState} (h : Extends s s₁) (h' : Extends s₁ s₂) :
    Extends s s₂ where
  regs := List.Subset.trans h.regs h'.regs
  stack := List.Subset.trans h.stack h'.stack
  argref := List.Subset.trans h.argref h'.argref
  offset := h.offset.trans h'.offset
  argrefOffset := h.argrefOffset.trans h'.argrefOffset
  taken := fun j hj => h'.taken j (h.taken j hj)

/-- What is not in use was not in use before. -/
theorem Extent.Fresh.anti {s s' : CallState} (h : Extends s s') {e : Extent} (he : e.Fresh s') :
    e.Fresh s := by
  unfold Extent.Fresh at he ⊢
  cases hr : e.region with
  | reg =>
    rw [hr] at he
    obtain ⟨j, hj, hsize, hfree⟩ := he
    exact ⟨j, hj, hsize, fun htaken => hfree (h.taken j htaken)⟩
  | stack =>
    rw [hr] at he
    exact h.offset.trans he
  | argref =>
    rw [hr] at he
    exact h.argrefOffset.trans he

/-- The places of all arguments. -/
theorem argsSet_of_callArgs {clMem : ℕ} (hmem : 4 ≤ clMem) {args : List Arg} {s s' : CallState}
    {n : ℕ} (h : Laid s n) (hregs : RegsOk s.cursors s.argsInReg)
    (hargs : ∀ a ∈ args, a.Sized clMem)
    (hcall : args.foldlM (callArg clMem maxArgsTotalSize) s = .ok s') :
    ArgsSet clMem s s' args (places clMem maxArgsTotalSize s args) := by
  induction args generalizing s n with
  | nil =>
    obtain rfl := Except.ok.inj hcall
    refine ⟨hregs, Extends.refl s, List.Forall₂.nil, ?_, ?_, List.Pairwise.nil, ?_⟩
    · simp
    · simp
    · constructor <;> exact (List.append_nil _).symm
  | cons a args ih =>
    rw [List.foldlM_cons] at hcall
    cases hfirst : callArg clMem maxArgsTotalSize s a with
    | error e =>
      rw [hfirst] at hcall
      cases hcall
    | ok s₁ =>
      rw [hfirst] at hcall
      have hsized := hargs a List.mem_cons_self
      obtain ⟨hset, hnoted⟩ := callArg_spec h hregs hsized hfirst
      have hrest := ih (h.callArg hmem hsized hfirst) hset.regs
        (fun b hb => hargs b (List.mem_cons_of_mem a hb)) hcall
      have hplaces : places clMem maxArgsTotalSize s (a :: args) =
          placeArg clMem s a :: places clMem maxArgsTotalSize s₁ args := by
        rw [places, hfirst]
      rw [hplaces]
      refine ⟨hrest.regs, hset.extends'.trans hrest.extends',
        List.Forall₂.cons (hset.stored.mono hrest.extends') hrest.stored, ?_, ?_,
        List.pairwise_cons.2 ⟨?_, hrest.apart⟩, hnoted.append hrest.noted⟩
      · intro ap hap e he
        rcases List.mem_cons.1 hap with rfl | hap
        · exact hset.fresh e he
        · exact (hrest.fresh ap hap e he).anti hset.extends'
      · intro ap hap e he
        rcases List.mem_cons.1 hap with rfl | hap
        · exact (hset.used e he).mono hrest.extends'
        · exact hrest.used ap hap e he
      · intro bq hbq e he e' he'
        exact (hset.used e he).apart (hrest.fresh bq hbq e' he')

/-! ### What the places hold -/

/-- The words of `args_in_reg`, which are zero before the first argument. -/
def CallState.regMem (s : CallState) : Bytes := storeAll zeroBytes s.argsInReg

/-- The word in a slot, for some contents of `args_on_stack` before the first argument. -/
def CallState.slotWord (s : CallState) (m : Bytes) : Slot → ℕ
  | .inReg index => readWord s.regMem 4 (4 * index)
  | .onStack offset => readWord (storeAll m s.argsOnStack) 4 offset

/-- A word is the value of an integer of fewer than four bytes. -/
def IsExtension (uns : Bool) (size value word : ℕ) : Prop :=
  if uns then word = value else sint 32 word = sint (8 * size) value

/-- The slot of a word is aligned. -/
def Slot.Aligned : Slot → Prop
  | .inReg _ => True
  | .onStack offset => 4 ∣ offset

/-- A place holds an argument. -/
def Holds (clMem : ℕ) (s : CallState) (m : Bytes) (a : Arg) : Place → Prop
  | .word slot => a.kind = .buffer ∧ slot.Aligned ∧ s.slotWord m slot = bufPtr a
  | .inReg index =>
    a.kind ≠ .buffer ∧ index % 2 = 0 ∧
      if a.vecValueSize clMem < 4 then
        IsExtension a.isSubwordIntUns (a.vecValueSize clMem) a.data (readWord s.regMem 4 (4 * index))
      else if a.vecValueSize clMem ≤ 8 then
        readWord s.regMem (a.vecValueSize clMem) (4 * index) = a.data
      else
        a.vecValueSize clMem = 16 ∧
          readWord s.regMem 8 (4 * index) + 256 ^ 8 * readWord s.regMem 8 (4 * (index + 4)) = a.data
  | .onStack offset =>
    a.kind ≠ .buffer ∧ a.vecValueSize clMem ∣ offset ∧
      readWord (storeAll m s.argsOnStack) (a.vecValueSize clMem) offset = a.data
  | .byRef slot offset =>
    a.kind ≠ .buffer ∧ slot.Aligned ∧ 8 ∣ offset ∧
      readWord (storeAll m s.argsOfArgref) (a.vecValueSize clMem) offset = a.data

/-- The arguments that a kernel can have, with values of their size. -/
structure Arg.WellFormed (clMem : ℕ) (a : Arg) : Prop where
  sized : a.Sized clMem
  noImage : a.kind ≠ .image2D ∧ a.kind ≠ .image3D
  data : a.data < 256 ^ a.vecValueSize clMem

/-- The word of a buffer fits. -/
theorem bufPtr_lt (a : Arg) : bufPtr a < 256 ^ 4 := by
  unfold bufPtr
  split
  · norm_num
  · split
    · norm_num
    · split
      · norm_num
      · split
        · omega
        · norm_num

/-- A number of one or two bytes is extended, and it is zero if its extension is. -/
theorem isExtension_extendSubword {uns : Bool} {size value : ℕ} (hsize : size = 1 ∨ size = 2)
    (hvalue : value < 256 ^ size) :
    IsExtension uns size value (extendSubword uns size value) ∧
      extendSubword uns size value < 256 ^ 4 ∧
      (extendSubword uns size value = 0 → value = 0) := by
  rcases hsize with rfl | rfl
  · rw [pow_one] at hvalue
    cases uns with
    | true => simp [IsExtension, extendSubword, Nat.mod_eq_of_lt hvalue]; omega
    | false =>
      simp only [IsExtension, extendSubword, Nat.mod_eq_of_lt hvalue, if_true, Bool.false_eq_true,
        if_false]
      unfold uint sint
      norm_num
      split <;> omega
  · norm_num at hvalue
    cases uns with
    | true => simp [IsExtension, extendSubword, Nat.mod_eq_of_lt hvalue]; omega
    | false =>
      simp only [IsExtension, extendSubword, Nat.mod_eq_of_lt hvalue, if_true, Bool.false_eq_true,
        if_false, OfNat.ofNat_ne_one]
      unfold uint sint
      norm_num
      split <;> omega

/-- A value in registers is held there. -/
theorem holds_inReg {clMem k index : ℕ} {s : CallState} (hregs : RegsOk s.cursors s.argsInReg)
    {a : Arg} (hsize : a.vecValueSize clMem = 2 ^ k) (hdata : a.data < 256 ^ a.vecValueSize clMem)
    (hp : Stored clMem s a (.inReg index)) (m : Bytes) : Holds clMem s m a (.inReg index) := by
  obtain ⟨hkind, hle, heven, hstores⟩ := hp
  have hk : k ≤ 4 := by
    rw [hsize] at hle
    exact (Nat.pow_le_pow_iff_right (by norm_num)).1 (show 2 ^ k ≤ 2 ^ 4 from hle)
  refine ⟨hkind, heven, ?_⟩
  unfold setValueInreg at hstores
  dsimp only at hstores
  split
  · next hsub =>
    -- One or two bytes: the extension is stored, or the value is zero like the bytes behind it.
    have htwo : a.vecValueSize clMem = 1 ∨ a.vecValueSize clMem = 2 := by
      rw [hsize] at hsub ⊢
      interval_cases k <;> omega
    obtain ⟨hext, hlt, hzero⟩ := @isExtension_extendSubword a.isSubwordIntUns _ _ htwo hdata
    split at hstores
    · next hdummy =>
      have hword := hregs.readWord (hstores ⟨a.vecValueSize clMem, 4 * index, a.data⟩ (by
        rw [setargInreg, if_pos (by omega)]
        exact List.mem_singleton_self _)) hdata (show _ ≤ 4 by dsimp only; omega) (by norm_num)
      rw [hdummy, ← hzero hdummy] at hext
      exact hword.symm ▸ hext
    · have hword := hregs.readWord (hstores ⟨4, 4 * index, _⟩ (by
        rw [setargInreg, if_pos (by norm_num)]
        exact List.mem_singleton_self _)) hlt le_rfl (by norm_num)
      exact hword.symm ▸ hext
  · next hsub =>
    have hdummy : extendSubword a.isSubwordIntUns (a.vecValueSize clMem) a.data = 0 := by
      rw [extendSubword, if_neg (by omega), if_neg (by omega)]
    rw [if_pos hdummy] at hstores
    split
    · next hpair =>
      exact hregs.readWord (hstores ⟨a.vecValueSize clMem, 4 * index, a.data⟩ (by
        rw [setargInreg, if_pos hpair]
        exact List.mem_singleton_self _)) hdata le_rfl hpair
    · next hquad =>
      have hsixteen : a.vecValueSize clMem = 16 := by
        rw [hsize] at hquad ⊢
        interval_cases k <;> omega
      rw [setargInreg, if_neg hquad, if_pos hsixteen] at hstores
      rw [hsixteen] at hdata
      have hlow := hregs.readWord (hstores ⟨8, 4 * index, a.data % 256 ^ 8⟩ (by simp))
        (Nat.mod_lt _ (by norm_num)) le_rfl le_rfl
      have hhigh := hregs.readWord (hstores ⟨8, 4 * (index + 4), a.data / 256 ^ 8⟩ (by simp))
        (Nat.div_lt_of_lt_mul (by rw [← pow_add]; exact hdata)) le_rfl le_rfl
      refine ⟨hsixteen, ?_⟩
      unfold CallState.regMem
      dsimp only at hlow hhigh
      rw [hlow, hhigh]
      exact Nat.mod_add_div a.data (256 ^ 8)

/-- An argument whose stores are made is held by its place. -/
theorem Stored.holds {clMem n : ℕ} {s : CallState} (hlaid : Laid s n)
    (hregs : RegsOk s.cursors s.argsInReg) {a : Arg} (ha : a.WellFormed clMem) {p : Place}
    (hp : Stored clMem s a p) (m : Bytes) : Holds clMem s m a p := by
  rcases p with (index | offset) | index | offset | ⟨index | o, offset⟩
  · exact ⟨hp.1, trivial, hregs.readWord hp.2 (bufPtr_lt a) le_rfl (by norm_num)⟩
  · exact ⟨hp.1, hp.2.1, readWord_storeAll hlaid.stores.apart hp.2.2 (bufPtr_lt a) m⟩
  · obtain ⟨k, hk, hsize⟩ := ha.sized.resolve_left fun h => hp.1 h.1
    exact holds_inReg hregs hsize ha.data hp m
  · exact ⟨hp.1, hp.2.1, readWord_storeAll hlaid.stores.apart hp.2.2 ha.data m⟩
  · exact ⟨hp.1, trivial, hp.2.1, readWord_storeAll hlaid.refs.apart hp.2.2.1 ha.data m⟩
  · exact ⟨hp.1, hp.2.2.2.1, hp.2.1, readWord_storeAll hlaid.refs.apart hp.2.2.1 ha.data m⟩

/-- A value leaves the sum of the sizes alone. -/
theorem setValue_total (s : CallState) (size : ℕ) (a : Arg) :
    (setValue s size a).argsTotalSize = s.argsTotalSize := by
  unfold setValue
  rcases getargInregIndex size s.cursors with ⟨_ | index, cursors⟩
  · dsimp only
    split
    · rfl
    · exact (setWord_frame { s with cursors } 0).2.1
  · rfl

/-- A size that an argument can have is not zero. -/
theorem Arg.Sized.pos {clMem : ℕ} (hmem : 4 ≤ clMem) {a : Arg} (h : a.Sized clMem) :
    0 < a.vecValueSize clMem := by
  rcases h with ⟨hkind, hdim⟩ | ⟨k, -, hsize⟩
  · rw [Arg.vecValueSize, hkind, hdim, if_neg (by norm_num), Nat.mul_one]
    exact lt_of_lt_of_le (by norm_num) hmem
  · rw [hsize]
    positivity

/-- An argument is accepted if its size does not exceed the limit. -/
theorem exists_callArg {clMem : ℕ} (hmem : 4 ≤ clMem) {a : Arg} (ha : a.WellFormed clMem)
    (s : CallState) (htotal : s.argsTotalSize + a.vecValueSize clMem ≤ maxArgsTotalSize) :
    ∃ s', callArg clMem maxArgsTotalSize s a = .ok s' ∧
      s'.argsTotalSize = s.argsTotalSize + a.vecValueSize clMem := by
  have hpos := ha.sized.pos hmem
  unfold callArg
  dsimp only
  rw [if_neg (by omega), if_neg (by omega)]
  split
  · refine ⟨_, rfl, ?_⟩
    rw [(noteBuffer_frame _ _ _).2.2.1, (setWord_frame _ _).2.1]
  · next hkind => exact absurd hkind ha.noImage.1
  · next hkind => exact absurd hkind ha.noImage.2
  · exact ⟨_, rfl, setValue_total _ _ _⟩

/-- Arguments are accepted while their sizes do not exceed the limit. -/
theorem exists_callArgs {clMem : ℕ} (hmem : 4 ≤ clMem) {args : List Arg}
    (hargs : ∀ a ∈ args, a.WellFormed clMem) (s : CallState)
    (htotal : s.argsTotalSize + (args.map (Arg.vecValueSize clMem)).sum ≤ maxArgsTotalSize) :
    ∃ s', args.foldlM (callArg clMem maxArgsTotalSize) s = .ok s' := by
  induction args generalizing s with
  | nil => exact ⟨s, rfl⟩
  | cons a args ih =>
    rw [List.map_cons, List.sum_cons] at htotal
    obtain ⟨s₁, hfirst, hsum⟩ := exists_callArg hmem (hargs a List.mem_cons_self) s (by omega)
    obtain ⟨s', hrest⟩ := ih (fun b hb => hargs b (List.mem_cons_of_mem a hb)) s₁ (by omega)
    refine ⟨s', ?_⟩
    rw [List.foldlM_cons, hfirst]
    exact hrest

/-- What holds when the arguments of a kernel are passed at their places. -/
structure Passed (clMem : ℕ) (m : Bytes) (s : CallState) (args : List Arg) (ps : List Place) :
    Prop where
  /-- Every place holds its argument. -/
  holds : List.Forall₂ (Holds clMem s m) args ps
  /-- The places do not overlap. -/
  apart : (args.zip ps).Pairwise fun ap bq =>
    ∀ e ∈ bytesOf clMem ap, ∀ e' ∈ bytesOf clMem bq, e.Apart e'
  /-- The number of words that are loaded is a multiple of four, and at most twenty. -/
  size : argsInRegSize s.cursors % 4 = 0 ∧ argsInRegSize s.cursors ≤ 20
  /-- The words of the places in registers are loaded into the registers they stand for. -/
  loaded : ∀ regs, ∀ ap ∈ args.zip ps, ∀ e ∈ bytesOf clMem ap, e.region = .reg →
    ∀ i, e.offset ≤ 4 * i → 4 * i + 4 ≤ e.offset + e.size → i < argsInRegSize s.cursors ∧
      dspRpcRegs (fun i => readWord s.regMem 4 (4 * i)) (argsInRegSize s.cursors) regs (sideOf i)
        (regOf i) = readWord s.regMem 4 (4 * i)
  /-- The words that are noted for later are the places of their arguments. -/
  noted : Noted CallState.init s (args.zip ps)

/-- Arguments of a kernel whose sizes do not exceed the limit are passed at places of their own. -/
theorem callArgs_passed {clMem : ℕ} (hmem : 4 ≤ clMem) (args : List Arg)
    (hargs : ∀ a ∈ args, a.WellFormed clMem)
    (htotal : (args.map (Arg.vecValueSize clMem)).sum ≤ maxArgsTotalSize) (m : Bytes) :
    ∃ s, callArgs clMem maxArgsTotalSize args = .ok s ∧
      Passed clMem m s args (places clMem maxArgsTotalSize CallState.init args) := by
  obtain ⟨s, hcall⟩ := exists_callArgs hmem hargs CallState.init
    (by rw [show CallState.init.argsTotalSize = 0 from rfl, Nat.zero_add]; exact htotal)
  have hsized : ∀ a ∈ args, a.Sized clMem := fun a ha => (hargs a ha).sized
  have hlaid := laid_init.callArgs hmem hsized hcall
  have hset := argsSet_of_callArgs hmem laid_init regsOk_init hsized hcall
  have hsize := argsInRegSize_mod hset.regs.cursors
  refine ⟨s, hcall, ?_, hset.apart, hsize, ?_, hset.noted⟩
  · have hstored := (List.forall₂_and_left _ _).2 ⟨hargs, hset.stored⟩
    exact hstored.imp fun a p h => h.2.holds hlaid hset.regs h.1 m
  · intro regs ap hap e he hreg i hlow hhigh
    have hused := hset.used ap hap e he
    rw [Extent.Used, hreg] at hused
    obtain ⟨j, hj, hsize8, hlt, htaken⟩ := hused
    have hindex := lt_argsInRegSize_of_taken hset.regs.cursors hlt htaken
    have hi : i < argsInRegSize s.cursors := by omega
    exact ⟨hi, dspRpcRegs_apply (fun i => readWord s.regMem 4 (4 * i)) regs hsize.1 hsize.2 hi⟩

theorem callArgs_passed_mixedArgs :
    ∃ s, callArgs 4 maxArgsTotalSize mixedArgs = .ok s ∧
      Passed 4 (fun _ => 0) s mixedArgs (places 4 maxArgsTotalSize CallState.init mixedArgs) := by
  refine callArgs_passed le_rfl mixedArgs ?_ (by decide) fun _ => 0
  intro a ha
  simp only [mixedArgs, List.mem_cons, List.not_mem_nil, or_false] at ha
  rcases ha with rfl | rfl | rfl
  · exact ⟨Or.inr ⟨7, by decide, by decide⟩, by decide, by decide⟩
  · exact ⟨Or.inr ⟨0, by decide, by decide⟩, by decide, by decide⟩
  · exact ⟨Or.inl ⟨rfl, rfl⟩, by decide, by decide⟩

/-- Ten integers, which take all register pairs, and a `char` with the value minus one. -/
def spilledChar : List Arg :=
  List.replicate 10 ⟨1, .priv, .int32, false, 0, none, 0⟩ ++ [⟨1, .priv, .int8, false, 255, none, 0⟩]

theorem spilledChar_not_extended :
    ¬ ∀ (args : List Arg) (s : CallState) (m : Bytes), (∀ a ∈ args, a.WellFormed 4) →
      callArgs 4 maxArgsTotalSize args = .ok s →
      ∀ ap ∈ args.zip (places 4 maxArgsTotalSize CallState.init args), ∀ slot,
        ap.2 = .onStack slot → ap.1.vecValueSize 4 < 4 →
        IsExtension ap.1.isSubwordIntUns (ap.1.vecValueSize 4) ap.1.data
          (readWord (storeAll m s.argsOnStack) 4 slot) := by
  intro h
  have hwell : ∀ a ∈ spilledChar, a.WellFormed 4 := by
    intro a ha
    have ha' : a = ⟨1, .priv, .int32, false, 0, none, 0⟩ ∨ a = ⟨1, .priv, .int8, false, 255, none, 0⟩ := by
      simpa [spilledChar] using ha
    rcases ha' with rfl | rfl
    · exact ⟨Or.inr ⟨2, by decide, by decide⟩, by decide, by decide⟩
    · exact ⟨Or.inr ⟨0, by decide, by decide⟩, by decide, by decide⟩
  have hext := h spilledChar _ (fun _ => 0) hwell rfl
    (⟨1, .priv, .int8, false, 255, none, 0⟩, .onStack 4) (by decide) 4 rfl (by decide)
  revert hext
  unfold IsExtension
  decide

end KernelArgs

end TiOpenCL
