import TiOpenCL.KernelArgs.CallArgs

/-!
# The arrays of the arguments

Every argument takes at most twice its size, less one byte, of `args_on_stack`, padding included, and
at most 31 bytes.  With the limit on the sum of the sizes this bounds all stores to `args_on_stack` by
its size, and with it the rounded copy that is made of it.
-/

namespace TiOpenCL

namespace KernelArgs

/-! ### Rounding up -/

/-- Rounding up to a power of two. -/
theorem roundup_two_pow {val k : ℕ} (hk : k ≤ 32) (h : val + 2 ^ k ≤ 2 ^ 32) :
    roundup val (2 ^ k) = (val + 2 ^ k - 1) / 2 ^ k * 2 ^ k := by
  have hpos : 0 < 2 ^ k := by positivity
  exact and_wnot_two_pow hk (by omega)

/-- What rounding up to a power of two gives. -/
theorem roundup_bounds {val k : ℕ} (hk : k ≤ 32) (h : val + 2 ^ k ≤ 2 ^ 32) :
    val ≤ roundup val (2 ^ k) ∧ roundup val (2 ^ k) < val + 2 ^ k ∧ 2 ^ k ∣ roundup val (2 ^ k) := by
  have hpos : 0 < 2 ^ k := by positivity
  rw [roundup_two_pow hk h]
  have hdiv := Nat.div_add_mod (val + 2 ^ k - 1) (2 ^ k)
  have hmod := Nat.mod_lt (val + 2 ^ k - 1) hpos
  rw [Nat.mul_comm] at hdiv
  exact ⟨by omega, by omega, Dvd.intro_left _ rfl⟩

/-- A number below a multiple of a power of two is not rounded up above it. -/
theorem roundup_le {val k limit : ℕ} (hk : k ≤ 32) (hlimit : 2 ^ k ∣ limit) (hval : val ≤ limit)
    (h : val + 2 ^ k ≤ 2 ^ 32) : roundup val (2 ^ k) ≤ limit := by
  obtain ⟨hle, hlt, hdvd⟩ := roundup_bounds hk h
  by_contra hgt
  have hstep := add_le_of_dvd hlimit hdvd (not_le.1 hgt)
  omega

/-! ### Stores to the stack -/

/-- The state of the stack: the stores and the slots that are written later lie below the offset. -/
structure StackOk (s : CallState) : Prop where
  /-- The stores do not overlap and lie below the offset. -/
  stores : Packed s.argsOnStack s.moreArgOffset
  /-- The slots that are written later lie below the offset. -/
  slots : ∀ o, Slot.onStack o ∈ s.patched → o + 4 ≤ s.moreArgOffset
  /-- The offset is a number that rounding does not wrap around. -/
  offset : s.moreArgOffset < 2 ^ 16

/-- A value on the stack. -/
theorem setMoreArg_spec {s : CallState} (hs : StackOk s) {k : ℕ} (hk : k ≤ 7) (value : ℕ) :
    s.moreArgOffset ≤ (setMoreArg s (2 ^ k) value).moreArgOffset ∧
      (setMoreArg s (2 ^ k) value).moreArgOffset < s.moreArgOffset + 2 * 2 ^ k ∧
      roundup s.moreArgOffset (2 ^ k) + 2 ^ k = (setMoreArg s (2 ^ k) value).moreArgOffset ∧
      Packed (setMoreArg s (2 ^ k) value).argsOnStack
        (setMoreArg s (2 ^ k) value).moreArgOffset := by
  have hoffset := hs.offset
  have hpow : 2 ^ k ≤ 2 ^ 7 := Nat.pow_le_pow_right (by norm_num) hk
  have hbound : s.moreArgOffset + 2 ^ k ≤ 2 ^ 32 := by omega
  obtain ⟨hle, hlt, -⟩ := roundup_bounds (show k ≤ 32 by omega) hbound
  refine ⟨?_, ?_, rfl, hs.stores.append hle⟩
  · exact hle.trans (Nat.le_add_right _ _)
  · change roundup s.moreArgOffset (2 ^ k) + 2 ^ k < _
    omega

/-- A word in a register or on the stack takes at most seven bytes of the stack, and its slot is
below the new offset. -/
theorem setWord_spec {s : CallState} (hs : StackOk s) (value : ℕ) :
    s.moreArgOffset ≤ (setWord s value).2.moreArgOffset ∧
      (setWord s value).2.moreArgOffset ≤ s.moreArgOffset + 7 ∧
      Packed (setWord s value).2.argsOnStack (setWord s value).2.moreArgOffset ∧
      ∀ o, (setWord s value).1 = .onStack o → o + 4 ≤ (setWord s value).2.moreArgOffset := by
  unfold setWord
  rcases getargInregIndex 4 s.cursors with ⟨_ | index, cursors⟩
  · have hs' : StackOk { s with cursors } := ⟨hs.stores, hs.slots, hs.offset⟩
    obtain ⟨hle, hlt, hend, hpacked⟩ := setMoreArg_spec hs' (show 2 ≤ 7 by norm_num) value
    refine ⟨hle, Nat.le_of_lt_succ hlt, hpacked, ?_⟩
    rintro o ho
    obtain rfl := Slot.onStack.inj ho
    exact hend.le
  · exact ⟨le_rfl, Nat.le_add_right _ _, hs.stores, fun o ho => by cases ho⟩

/-- What a word in a register or on the stack leaves alone. -/
theorem setWord_frame (s : CallState) (value : ℕ) :
    (setWord s value).2.patched = s.patched ∧
      (setWord s value).2.argsTotalSize = s.argsTotalSize ∧
      (setWord s value).2.argsOfArgref = s.argsOfArgref ∧
      (setWord s value).2.argrefOffset = s.argrefOffset := by
  unfold setWord
  rcases getargInregIndex 4 s.cursors with ⟨_ | index, cursors⟩ <;> exact ⟨rfl, rfl, rfl, rfl⟩

/-- The notes on a buffer leave the arrays alone. -/
theorem noteBuffer_frame (s : CallState) (a : Arg) (slot : Slot) :
    (noteBuffer s a slot).moreArgOffset = s.moreArgOffset ∧
      (noteBuffer s a slot).argsOnStack = s.argsOnStack ∧
      (noteBuffer s a slot).argsTotalSize = s.argsTotalSize ∧
      (noteBuffer s a slot).argsOfArgref = s.argsOfArgref ∧
      (noteBuffer s a slot).argrefOffset = s.argrefOffset := by
  unfold noteBuffer
  split
  · exact ⟨rfl, rfl, rfl, rfl, rfl⟩
  · split
    · exact ⟨rfl, rfl, rfl, rfl, rfl⟩
    · split <;> exact ⟨rfl, rfl, rfl, rfl, rfl⟩

/-- The notes on a buffer add no other slot. -/
theorem mem_patched_noteBuffer {s : CallState} {a : Arg} {slot slot' : Slot}
    (h : slot' ∈ (noteBuffer s a slot).patched) : slot' ∈ s.patched ∨ slot' = slot := by
  unfold noteBuffer at h
  split at h
  · simp only [CallState.patched, List.map_append, List.mem_append, List.map_cons, List.map_nil,
      List.mem_singleton] at h ⊢
    tauto
  · split at h
    · exact Or.inl h
    · split at h
      · simp only [CallState.patched, List.map_append, List.mem_append, List.map_cons, List.map_nil,
          List.mem_singleton] at h ⊢
        tauto
      · simp only [CallState.patched] at h ⊢
        split at h
        · exact Or.inl h
        · simp only [List.map_append, List.mem_append, List.map_cons, List.map_nil,
            List.mem_singleton] at h ⊢
          tauto

/-! ### All arguments -/

/-- The sizes that a kernel argument can have: a power of two up to 128, or a pointer. -/
def Arg.Sized (clMem : ℕ) (a : Arg) : Prop :=
  (a.kind = .buffer ∧ a.vecDim = 1) ∨ ∃ k ≤ 7, a.vecValueSize clMem = 2 ^ k

/-- The arrays after some arguments. -/
structure Laid (s : CallState) (n : ℕ) : Prop where
  /-- The stores to `args_on_stack` do not overlap and lie below the offset. -/
  stores : Packed s.argsOnStack s.moreArgOffset
  /-- The slots that are written later lie below the offset. -/
  slots : ∀ o, Slot.onStack o ∈ s.patched → o + 4 ≤ s.moreArgOffset
  /-- An argument takes less than twice its size. -/
  amortised : s.moreArgOffset + n ≤ 4 + 2 * s.argsTotalSize
  /-- An argument takes at most 31 bytes. -/
  few : s.moreArgOffset ≤ 4 + 31 * n
  /-- The sum of the sizes is limited. -/
  total : s.argsTotalSize ≤ maxArgsTotalSize
  /-- The stores to `args_of_argref` do not overlap and lie below the offset. -/
  refs : Packed s.argsOfArgref s.argrefOffset
  /-- Values by reference are aligned. -/
  aligned : 8 ∣ s.argrefOffset
  /-- Values by reference have no padding. -/
  refsTotal : s.argrefOffset ≤ s.argsTotalSize

/-- The stack of a state that is laid out. -/
theorem Laid.stackOk {s : CallState} {n : ℕ} (h : Laid s n) : StackOk s := by
  have hamortised := h.amortised
  have htotal := h.total
  rw [maxArgsTotalSize] at htotal
  exact ⟨h.stores, h.slots, by omega⟩

/-- The state before the first argument. -/
theorem laid_init : Laid CallState.init 0 where
  stores := Packed.nil _
  slots := by simp [CallState.patched, CallState.init]
  amortised := by decide
  few := by decide
  total := by decide
  refs := Packed.nil _
  aligned := by decide
  refsTotal := by decide

/-- A pointer has at least four bytes. -/
theorem four_le_of_buffer {clMem : ℕ} (hmem : 4 ≤ clMem) {a : Arg} (hkind : a.kind = .buffer)
    (hsize : a.vecValueSize clMem ≠ 0) : 4 ≤ a.vecValueSize clMem := by
  unfold Arg.vecValueSize at hsize ⊢
  rw [hkind] at hsize ⊢
  exact hmem.trans (Nat.le_mul_of_pos_right clMem
    (Nat.pos_of_ne_zero (right_ne_zero_of_mul hsize)))

/-- A buffer argument keeps the arrays laid out. -/
theorem Laid.buffer {s : CallState} {n size : ℕ} (h : Laid s n) (hsize : 4 ≤ size)
    (htotal : s.argsTotalSize + size ≤ maxArgsTotalSize) (a : Arg) (value : ℕ) :
    Laid (noteBuffer (setWord { s with argsTotalSize := s.argsTotalSize + size } value).2 a
      (setWord { s with argsTotalSize := s.argsTotalSize + size } value).1) (n + 1) := by
  have hok : StackOk { s with argsTotalSize := s.argsTotalSize + size } :=
    ⟨h.stores, h.slots, h.stackOk.offset⟩
  obtain ⟨hle, hseven, hpacked, hslot⟩ := setWord_spec hok value
  obtain ⟨hpatched, htotal', hrefs, hrefOffset⟩ := 
    setWord_frame { s with argsTotalSize := s.argsTotalSize + size } value
  generalize setWord { s with argsTotalSize := s.argsTotalSize + size } value = r at *
  obtain ⟨hoffset, hstack, hsum, hrefs', hrefOffset'⟩ := noteBuffer_frame r.2 a r.1
  have hamortised := h.amortised
  have hfew := h.few
  have hrefsTotal := h.refsTotal
  dsimp only at hle hseven htotal' hrefOffset hrefs
  refine ⟨?_, ?_, ?_, ?_, ?_, ?_, ?_, ?_⟩
  · rw [hoffset, hstack]
    exact hpacked
  · intro o ho
    rw [hoffset]
    rcases mem_patched_noteBuffer ho with ho | ho
    · rw [hpatched] at ho
      exact (h.slots o ho).trans hle
    · exact hslot o ho.symm
  · rw [hoffset, hsum, htotal']
    omega
  · rw [hoffset]
    omega
  · rw [hsum, htotal']
    exact htotal
  · rw [hrefs', hrefOffset', hrefs, hrefOffset]
    exact h.refs
  · rw [hrefOffset', hrefOffset]
    exact h.aligned
  · rw [hrefOffset', hrefOffset, hsum, htotal']
    omega

/-- A value keeps the arrays laid out. -/
theorem Laid.value {s : CallState} {n k : ℕ} (h : Laid s n) (hk : k ≤ 7)
    (htotal : s.argsTotalSize + 2 ^ k ≤ maxArgsTotalSize) (a : Arg) :
    Laid (setValue { s with argsTotalSize := s.argsTotalSize + 2 ^ k } (2 ^ k) a) (n + 1) := by
  have hpos : 0 < 2 ^ k := by positivity
  have hamortised := h.amortised
  have hfew := h.few
  have hrefsTotal := h.refsTotal
  unfold setValue
  rcases getargInregIndex (2 ^ k) s.cursors with ⟨_ | index, cursors⟩
  · dsimp only
    have hok : StackOk { s with argsTotalSize := s.argsTotalSize + 2 ^ k, cursors } :=
      ⟨h.stores, h.slots, h.stackOk.offset⟩
    split
    · next hsmall =>
      -- On the stack: padding and value take less than twice the size, and at most 31 bytes.
      obtain ⟨hle, hlt, -, hpacked⟩ := setMoreArg_spec hok hk a.data
      refine ⟨hpacked, ?_, ?_, ?_, htotal, h.refs, h.aligned, ?_⟩
      · exact fun o ho => (h.slots o ho).trans hle
      · change _ + (n + 1) ≤ 4 + 2 * (s.argsTotalSize + 2 ^ k)
        dsimp only at hlt
        omega
      · dsimp only at hlt
        omega
      · change s.argrefOffset ≤ s.argsTotalSize + 2 ^ k
        omega
    · next hlarge =>
      -- By reference: a word on the stack at most, and a multiple of eight bytes of the other array.
      obtain ⟨hle, hseven, hpacked, hslot⟩ := setWord_spec hok 0
      obtain ⟨hpatched, htotal', hrefs, hrefOffset⟩ :=
        setWord_frame { s with argsTotalSize := s.argsTotalSize + 2 ^ k, cursors } 0
      generalize setWord { s with argsTotalSize := s.argsTotalSize + 2 ^ k, cursors } 0 = r at *
      dsimp only at hle hseven htotal' hrefs hrefOffset
      have hdvd : 8 ∣ 2 ^ k := by
        have hk3 : 3 ≤ k := by
          by_contra hlt
          have := Nat.pow_le_pow_right (show 0 < 2 by norm_num) (show k ≤ 4 by omega)
          omega
        exact pow_dvd_pow 2 hk3
      have hsum : roundup (r.2.argrefOffset + 2 ^ k) 8 = s.argrefOffset + 2 ^ k := by
        have htotal'' := htotal
        rw [maxArgsTotalSize] at htotal''
        have hbound : s.argrefOffset + 2 ^ k + 2 ^ 3 ≤ 2 ^ 32 := by omega
        have hlow := (roundup_bounds (show 3 ≤ 32 by norm_num) hbound).1
        have hhigh := roundup_le (show 3 ≤ 32 by norm_num) (Nat.dvd_add h.aligned hdvd) le_rfl hbound
        rw [hrefOffset]
        exact le_antisymm hhigh hlow
      refine ⟨hpacked, ?_, ?_, ?_, ?_, ?_, ?_, ?_⟩
      · intro o ho
        simp only [CallState.patched, List.map_append, List.mem_append, List.map_cons, List.map_nil,
          List.mem_singleton] at ho
        rcases ho with ho | ho | ho
        · exact (h.slots o (hpatched ▸ List.mem_append.2 (Or.inl (by
            simpa only [List.mem_append] using ho)))).trans hle
        · exact (h.slots o (hpatched ▸ List.mem_append.2 (Or.inr ho))).trans hle
        · exact hslot o ho.symm
      · change r.2.moreArgOffset + (n + 1) ≤ 4 + 2 * r.2.argsTotalSize
        omega
      · change r.2.moreArgOffset ≤ _
        omega
      · change r.2.argsTotalSize ≤ _
        rw [htotal']
        exact htotal
      · change Packed (r.2.argsOfArgref ++ [⟨2 ^ k, r.2.argrefOffset, a.data⟩])
          (roundup (r.2.argrefOffset + 2 ^ k) 8)
        rw [hsum, hrefs, hrefOffset]
        exact h.refs.append le_rfl
      · change 8 ∣ roundup (r.2.argrefOffset + 2 ^ k) 8
        rw [hsum]
        exact Nat.dvd_add h.aligned hdvd
      · change roundup (r.2.argrefOffset + 2 ^ k) 8 ≤ r.2.argsTotalSize
        rw [hsum, htotal']
        omega
  · refine ⟨h.stores, h.slots, ?_, ?_, htotal, h.refs, h.aligned, ?_⟩
    · change s.moreArgOffset + (n + 1) ≤ 4 + 2 * (s.argsTotalSize + 2 ^ k)
      omega
    · change s.moreArgOffset ≤ _
      omega
    · change s.argrefOffset ≤ s.argsTotalSize + 2 ^ k
      omega

/-- One argument keeps the arrays laid out. -/
theorem Laid.callArg {clMem : ℕ} (hmem : 4 ≤ clMem) {s s' : CallState} {n : ℕ} {a : Arg}
    (h : Laid s n) (ha : a.Sized clMem)
    (hcall : callArg clMem maxArgsTotalSize s a = .ok s') : Laid s' (n + 1) := by
  unfold KernelArgs.callArg at hcall
  simp only at hcall
  split at hcall
  · cases hcall
  · next hsize =>
    split at hcall
    · cases hcall
    · next htotal =>
      have htotal' := not_lt.1 htotal
      by_cases hkind : a.kind = .buffer
      · rw [hkind] at hcall
        obtain rfl := Except.ok.inj hcall
        exact h.buffer (four_le_of_buffer hmem hkind hsize) htotal' a _
      · obtain ⟨k, hk, hpow⟩ : ∃ k ≤ 7, a.vecValueSize clMem = 2 ^ k :=
          ha.resolve_left fun hbuffer => hkind hbuffer.1
        rw [hpow] at hcall htotal'
        split at hcall
        · next hbuffer => exact absurd hbuffer hkind
        · cases hcall
        · cases hcall
        · obtain rfl := Except.ok.inj hcall
          exact h.value hk htotal' a

/-- All arguments keep the arrays laid out. -/
theorem Laid.callArgs {clMem : ℕ} (hmem : 4 ≤ clMem) {args : List Arg} {s s' : CallState} {n : ℕ}
    (h : Laid s n) (hargs : ∀ a ∈ args, a.Sized clMem)
    (hcall : args.foldlM (KernelArgs.callArg clMem maxArgsTotalSize) s = .ok s') :
    Laid s' (n + args.length) := by
  induction args generalizing s n with
  | nil =>
    obtain rfl := Except.ok.inj hcall
    exact h
  | cons a args ih =>
    rw [List.foldlM_cons] at hcall
    cases hfirst : KernelArgs.callArg clMem maxArgsTotalSize s a with
    | error e =>
      rw [hfirst] at hcall
      cases hcall
    | ok s₁ =>
      rw [hfirst] at hcall
      have hlaid := ih (h.callArg hmem (hargs a (by simp)) hfirst)
        (fun b hb => hargs b (List.mem_cons_of_mem a hb)) hcall
      rw [List.length_cons, Nat.add_comm args.length, ← Nat.add_assoc]
      exact hlaid

/-- Few arguments take little of the stack, and many have their padding paid by their sizes. -/
theorem Laid.moreArgOffset_le {s : CallState} {n : ℕ} (h : Laid s n) :
    s.moreArgOffset ≤ arraySize := by
  have hamortised := h.amortised
  have hfew := h.few
  have htotal := h.total
  unfold arraySize
  rw [maxArgsTotalSize] at htotal ⊢
  by_cases hn : n ≤ 3 <;> omega

/-- Every store to the arrays of the arguments stays inside them: the stores of `callArgs`, the slots
that are written later, and the rounded copies. -/
theorem callArgs_stores_inside {clMem : ℕ} (hmem : 4 ≤ clMem) (args : List Arg) (s : CallState)
    (hargs : ∀ a ∈ args, a.Sized clMem) (h : callArgs clMem maxArgsTotalSize args = .ok s) :
    (∀ t ∈ s.argsOnStack, t.offset + t.size ≤ arraySize) ∧
      (∀ o, Slot.onStack o ∈ s.patched → o + 4 ≤ arraySize) ∧
      roundedArgsOnStackSize s ≤ arraySize ∧
      (∀ t ∈ s.argsOfArgref, t.offset + t.size ≤ arraySize) ∧
      s.argrefOffset ≤ arraySize := by
  have hlaid := laid_init.callArgs hmem hargs h
  have hoffset := hlaid.moreArgOffset_le
  have hrefs : s.argrefOffset ≤ arraySize :=
    (hlaid.refsTotal.trans hlaid.total).trans (by decide)
  refine ⟨?_, ?_, ?_, ?_, hrefs⟩
  · exact fun t ht => (hlaid.stores.inside t ht).trans hoffset
  · exact fun o ho => (hlaid.slots o ho).trans hoffset
  · have hlimit : arraySize = 2048 := rfl
    rw [hlimit] at hoffset ⊢
    have hsize : argsOnStackSize s ≤ 2048 := by
      unfold argsOnStackSize
      split
      · exact roundup_le (show 3 ≤ 32 by norm_num) (by norm_num) hoffset (by omega)
      · exact Nat.zero_le _
    exact roundup_le (show 7 ≤ 32 by norm_num) (by norm_num) hsize (by omega)
  · exact fun t ht => (hlaid.refs.inside t ht).trans hrefs

/-- A `double16`, a `char` and a local buffer. -/
def mixedArgs : List Arg :=
  [⟨16, .priv, .double, false, 1, none, 0⟩, ⟨1, .priv, .int8, false, 255, none, 0⟩,
    ⟨1, .loc, .buffer, false, 0, none, 64⟩]

theorem callArgs_stores_inside_mixedArgs :
    ∃ s, callArgs 4 maxArgsTotalSize mixedArgs = .ok s ∧
      (∀ t ∈ s.argsOnStack, t.offset + t.size ≤ arraySize) ∧
      (∀ o, Slot.onStack o ∈ s.patched → o + 4 ≤ arraySize) ∧
      roundedArgsOnStackSize s ≤ arraySize ∧
      (∀ t ∈ s.argsOfArgref, t.offset + t.size ≤ arraySize) ∧
      s.argrefOffset ≤ arraySize :=
  ⟨_, rfl, callArgs_stores_inside le_rfl mixedArgs _ (by unfold Arg.Sized; decide) rfl⟩

end KernelArgs

end TiOpenCL
