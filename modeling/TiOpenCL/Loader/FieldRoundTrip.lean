import TiOpenCL.Loader.Relocation

/-!
# What a relocation leaves in its field

`reloc_do` writes every type but three into its word exactly as the target reads it, in either byte
order (`relocDo_word`): the four switches agree on range, shift, mask and place.  The exceptions are

* the scaled types, whose range check accepts values that are no multiple of the scale;
* `R_C6000_PREL31`, whose field has 31 bits of which 30 are cleared before the result is joined in;
* the halfword and the byte of a module in the other byte order: the whole word is swapped around
  the write, so that the result lands at the far end of the word (`relocDo_half`, `relocDo_byte`).

`relocated_iff` gives the exact condition under which an accepted relocation is carried out.
-/

namespace TiOpenCL.Reloc

open BitFields

/-! ### Swapping the word around the write -/

/-- The masks and shifts reverse the bytes. -/
lemma changeEndian32_eq (x : BitVec 32) : changeEndian32 x = swapBytes x := by
  have h0 : 0x000000FF#32 = fieldMask 8 0 := by decide
  have h1 : 0x0000FF00#32 = fieldMask 8 8 := by decide
  have h2 : 0x00FF0000#32 = fieldMask 8 16 := by decide
  have h3 : 0xFF000000#32 = fieldMask 8 24 := by decide
  -- the four masked bytes do not meet, so that the sums are joins
  have hsum : changeEndian32 x = (x &&& fieldMask 8 0) <<< 24 ||| (x &&& fieldMask 8 8) <<< 8 |||
      (x &&& fieldMask 8 16) >>> 8 ||| (x &&& fieldMask 8 24) >>> 24 := by
    rw [changeEndian32, h0, h1, h2, h3]
    rw [BitVec.add_eq_or_of_and_eq_zero ((x &&& fieldMask 8 0) <<< 24),
      BitVec.add_eq_or_of_and_eq_zero _ ((x &&& fieldMask 8 16) >>> 8),
      BitVec.add_eq_or_of_and_eq_zero _ ((x &&& fieldMask 8 24) >>> 24)]
    all_goals
      refine BitVec.eq_of_getLsbD_eq fun j hj => ?_
      simp only [BitVec.getLsbD_and, BitVec.getLsbD_or, getLsbD_maskByte_shiftLeft x _ _ hj,
        getLsbD_maskByte_ushiftRight]
      grind
  rw [hsum]
  refine eq_of_bytes (n := 4) fun k hk i hi => ?_
  have hj : 8 * k + i < 32 := by omega
  simp only [getLsbD_swapBytes x hk hi, BitVec.getLsbD_or, getLsbD_maskByte_shiftLeft x _ _ hj,
    getLsbD_maskByte_ushiftRight]
  rcases (by omega : k = 0 ∨ k = 1 ∨ k = 2 ∨ k = 3) with rfl | rfl | rfl | rfl
  · grind
  · grind
  · grind
  · grind

/-- The swap in place reverses the four bytes. -/
lemma changeEndianAt_apply (host : ByteOrder) (m : Memory) (a : ℕ) {k : ℕ} (hk : k < 4) :
    changeEndianAt host m a (a + k) = m (a + (3 - k)) := by
  rw [changeEndianAt, store_apply host m a _ hk, changeEndian32_eq]
  refine BitVec.eq_of_getLsbD_eq fun i hi => ?_
  have hlane := host.lane_lt hk
  rw [getLsbD_byteOf _ hi, swapBytes_loadWord, getLsbD_loadWord host.flip m a hlane hi,
    host.lane_flip hlane, host.lane_lane hk]

/-- The swap in place leaves the other bytes. -/
lemma changeEndianAt_apply_of_not_mem (host : ByteOrder) (m : Memory) {a b : ℕ}
    (h : ¬(a ≤ b ∧ b < a + 4)) : changeEndianAt host m a b = m b :=
  store_apply_of_not_mem host m _ h

/-- A word written between two swaps is written in the other byte order. -/
lemma changeEndianAt_store (host : ByteOrder) (m : Memory) (a : ℕ) (f : BitVec 32 → BitVec 32) :
    changeEndianAt host (store host 4 (changeEndianAt host m a) a
        (f (loadWord host (changeEndianAt host m a) a))) a =
      store host.flip 4 m a (f (loadWord host.flip m a)) := by
  rw [changeEndianAt, changeEndianAt, loadWord_store, loadWord_store, store_store, store_store,
    changeEndian32_eq, changeEndian32_eq, swapBytes_loadWord, store_swapBytes]

/-- A shorter item written between two swaps lands at the far end of the word. -/
lemma changeEndianAt_store_short (host : ByteOrder) (m : Memory) (a : ℕ) {w n : ℕ} (x : BitVec w)
    (hn : n ≤ 2) :
    changeEndianAt host (store host n (changeEndianAt host m a) a x) a =
      store host.flip n m (a + (4 - n)) x := by
  funext b
  by_cases hb : a ≤ b ∧ b < a + 4
  · obtain ⟨k, rfl⟩ := Nat.exists_eq_add_of_le hb.1
    have hk : k < 4 := by omega
    rw [changeEndianAt_apply host _ a hk]
    by_cases hfar : 3 - k < n
    · obtain ⟨j, rfl⟩ : ∃ j, k = 4 - n + j := ⟨k - (4 - n), by omega⟩
      have hj : j < n := by omega
      rw [store_apply host _ a x hfar, ← Nat.add_assoc, store_apply host.flip m _ x hj,
        host.lane_flip hj]
      congr 1
      cases host <;> simp only [ByteOrder.lane] <;> omega
    · rw [store_apply_of_not_mem host _ x (by omega), changeEndianAt_apply host m a (by omega),
        store_apply_of_not_mem host.flip m x (by omega)]
      congr 2
      omega
  · rw [changeEndianAt_apply_of_not_mem host _ hb, store_apply_of_not_mem host _ x (by omega),
      changeEndianAt_apply_of_not_mem host _ hb, store_apply_of_not_mem host.flip m x (by omega)]

/-! ### The bits of a field -/

/-- The bit of the value at which the field of a type starts. -/
def Field.shift (f : Field) : ℕ :=
  match f.reading with
  | .bits low => f.scale + low
  | _ => f.scale

/-- The masked result that `reloc_do` writes. -/
def fieldBits (t : RelocType) (v : BitVec 32) : BitVec 32 :=
  (maskResult ((packResult v t).getD 0) t).getD 0

/-- The range of the values that a field can hold, multiples of the scale or not. -/
def Field.InRange (f : Field) (v : ℤ) : Prop :=
  match f.reading with
  | .signed => 0 < f.width ∧ -2 ^ (f.width - 1) * 2 ^ f.scale ≤ v ∧
      v < 2 ^ (f.width - 1) * 2 ^ f.scale
  | .unsigned => 0 ≤ v ∧ v < 2 ^ f.width * 2 ^ f.scale
  | .either => f.scale = 0 ∧ -2 ^ f.width ≤ 2 * v ∧ v < 2 ^ f.width
  | .bits _ => True

/-- A value that the scale of its field loses nothing of. -/
def Field.Multiple (f : Field) (v : ℤ) : Prop :=
  match f.reading with
  | .bits _ => True
  | _ => (2 : ℤ) ^ f.scale ∣ v

/-- Shifting and masking keep the bits from `k` to `k + n`. -/
lemma toNat_sshiftRight_and (v : BitVec 32) {k n : ℕ} (hn : n ≤ 32) :
    ((v.sshiftRight k &&& BitVec.ofNat 32 (2 ^ n - 1)).toNat : ℤ) = v.toInt / 2 ^ k % 2 ^ n := by
  have hpow : (2 : ℕ) ^ n ≤ 2 ^ 32 := Nat.pow_le_pow_right (by decide) hn
  have hpos := Nat.two_pow_pos n
  have hdvd : (2 : ℤ) ^ n ∣ 2 ^ 32 := pow_dvd_pow 2 hn
  have hint : (v.sshiftRight k).toInt = v.toInt / 2 ^ k := by
    rw [BitVec.toInt_sshiftRight, Int.shiftRight_eq_div_pow]
    norm_cast
  have hnat : ((v.sshiftRight k).toNat : ℤ) = v.toInt / 2 ^ k % 2 ^ 32 := by
    have hlt := (v.sshiftRight k).isLt
    rw [← hint, BitVec.toInt_eq_toNat_cond]
    split <;> omega
  rw [BitVec.toNat_and, BitVec.toNat_ofNat, Nat.mod_eq_of_lt (by omega),
    Nat.and_two_pow_sub_one_eq_mod]
  push_cast
  rw [hnat, Int.emod_emod_of_dvd _ hdvd]

/-- Masking alone keeps the low bits. -/
lemma toNat_and_two_pow (v : BitVec 32) {n : ℕ} (hn : n ≤ 32) :
    ((v &&& BitVec.ofNat 32 (2 ^ n - 1)).toNat : ℤ) = v.toInt / 2 ^ 0 % 2 ^ n := by
  have h := toNat_sshiftRight_and v (k := 0) hn
  rwa [BitVec.sshiftRight_zero] at h

/-- The masked result of an accepted relocation: the bits of the value from the shift of its type
on. -/
lemma toNat_fieldBits {t : RelocType} {v : BitVec 32} (h : relOverflow t v = some false) :
    ((fieldBits t v).toNat : ℤ) =
      v.toInt / 2 ^ (targetField t).shift % 2 ^ (targetField t).width := by
  cases t
  case abs32 =>
    have hmask := toNat_and_two_pow v (n := 32) (by decide)
    rw [show BitVec.ofNat 32 (2 ^ 32 - 1) = BitVec.allOnes 32 by decide,
      BitVec.and_allOnes] at hmask
    exact hmask
  case abs16 | absS16 | absL16 | sbrS16 | sbrL16B =>
    exact toNat_and_two_pow v (n := 16) (by decide)
  case abs8 => exact toNat_and_two_pow v (n := 8) (by decide)
  case pcrS21 => exact toNat_sshiftRight_and v (k := 2) (n := 21) (by decide)
  case pcrS12 => exact toNat_sshiftRight_and v (k := 2) (n := 12) (by decide)
  case pcrS10 => exact toNat_sshiftRight_and v (k := 2) (n := 10) (by decide)
  case pcrS7 => exact toNat_sshiftRight_and v (k := 2) (n := 7) (by decide)
  case absH16 | sbrH16B => exact toNat_sshiftRight_and v (k := 16) (n := 16) (by decide)
  case sbrU15B => exact toNat_and_two_pow v (n := 15) (by decide)
  case sbrU15H => exact toNat_sshiftRight_and v (k := 1) (n := 15) (by decide)
  case sbrU15W | dsbtIndex => exact toNat_sshiftRight_and v (k := 2) (n := 15) (by decide)
  case sbrL16H => exact toNat_sshiftRight_and v (k := 1) (n := 16) (by decide)
  case sbrL16W => exact toNat_sshiftRight_and v (k := 2) (n := 16) (by decide)
  case sbrH16H => exact toNat_sshiftRight_and v (k := 17) (n := 16) (by decide)
  case sbrH16W => exact toNat_sshiftRight_and v (k := 18) (n := 16) (by decide)
  case prel31 => exact toNat_sshiftRight_and v (k := 1) (n := 31) (by decide)
  all_goals simp [relOverflow] at h

/-- The range check of a type accepts only what its field can hold. -/
lemma inRange_of_relOverflow {t : RelocType} {v : BitVec 32} (h : relOverflow t v = some false) :
    (targetField t).InRange v.toInt := by
  have hlo := BitVec.le_two_mul_toInt (x := v)
  have hhi := BitVec.two_mul_toInt_lt (x := v)
  have hcond := BitVec.toInt_eq_toNat_cond v
  have hbit : v.toNat < 2 ^ 31 → v.toInt = v.toNat := fun hlt => by
    rw [hcond, if_pos (by omega)]
  cases t
  all_goals
    simp only [relOverflow, Option.some.injEq, Bool.or_eq_false_iff, decide_eq_false_iff_not,
      reduceCtorEq] at h
    try simp only [targetField, Field.InRange]
  case abs16 | abs8 | abs32 => exact ⟨trivial, by omega, by omega⟩
  case sbrU15B | sbrU15H | sbrU15W | dsbtIndex =>
    have := hbit (by omega)
    omega
  all_goals omega

/-- A residue read with its sign is the number, if that lies in the middle of the residues. -/
lemma bmod_eq_iff {x w : ℕ} {q : ℤ} (hx : x < w) (hlo : -(w : ℤ) ≤ 2 * q) (hhi : 2 * q < w) :
    Int.bmod x w = q ↔ (x : ℤ) = q % w := by
  constructor
  · rintro rfl
    rw [Int.bmod_emod, Int.emod_eq_of_lt (by omega) (by omega)]
  · intro hmod
    rw [hmod, Int.emod_bmod, Int.bmod_eq_of_le (by omega) (by omega)]

/-- Scaling a quotient gives the number back if it is a multiple. -/
lemma mul_eq_iff_of_ediv {b v S : ℤ} (hS : 0 < S) : b * S = v ↔ b = v / S ∧ S ∣ v := by
  constructor
  · rintro rfl
    exact ⟨(Int.mul_ediv_cancel b hS.ne').symm, Int.dvd_mul_left _ _⟩
  · rintro ⟨rfl, hdvd⟩
    exact Int.ediv_mul_cancel hdvd

/-- A field of the right width denotes exactly the value whose bits it holds, if the scale loses
nothing. -/
lemma Field.denotes_iff {f : Field} {x : ℕ} {v : ℤ} (hx : x < 2 ^ f.width) (hr : f.InRange v) :
    f.Denotes x v ↔ (x : ℤ) = v / 2 ^ f.shift % 2 ^ f.width ∧ f.Multiple v := by
  obtain ⟨item, pos, width, scale, reading⟩ := f
  have hS : (0 : ℤ) < 2 ^ scale := by positivity
  have hW : ((2 ^ width : ℕ) : ℤ) = 2 ^ width := by push_cast; rfl
  have hxW : (x : ℤ) < 2 ^ width := by rw [← hW]; exact_mod_cast hx
  cases reading with
  | signed =>
    obtain ⟨hpos, hlo, hhi⟩ := hr
    have hhalf : (2 : ℤ) ^ width = 2 * 2 ^ (width - 1) := by
      rw [← pow_succ', Nat.sub_add_cancel hpos]
    have hqlo : -2 ^ (width - 1) ≤ v / 2 ^ scale := (Int.le_ediv_iff_mul_le hS).mpr hlo
    have hqhi : v / 2 ^ scale < 2 ^ (width - 1) := Int.ediv_lt_of_lt_mul hS hhi
    have hbmod : Int.bmod x (2 ^ width) = v / 2 ^ scale ↔ (x : ℤ) = v / 2 ^ scale % 2 ^ width := by
      rw [bmod_eq_iff hx (by rw [hW]; omega) (by rw [hW]; omega), hW]
    simp only [Denotes, shift, Multiple]
    rw [mul_eq_iff_of_ediv hS, hbmod]
  | unsigned =>
    have hlo : 0 ≤ v / 2 ^ scale := Int.ediv_nonneg hr.1 hS.le
    have hhi : v / 2 ^ scale < 2 ^ width := Int.ediv_lt_of_lt_mul hS hr.2
    simp only [Denotes, shift, Multiple]
    rw [mul_eq_iff_of_ediv hS, Int.emod_eq_of_lt hlo hhi]
  | either =>
    obtain ⟨rfl, hlo, hhi⟩ := hr
    simp only [Denotes, shift, Multiple, pow_zero, mul_one, Int.ediv_one, one_dvd, and_true]
    constructor
    · rintro (rfl | rfl)
      · rw [← hW, Int.bmod_emod, hW, Int.emod_eq_of_lt (by omega) hxW]
      · rw [Int.emod_eq_of_lt (by omega) hxW]
    · intro hmod
      by_cases hmid : 2 * v < 2 ^ width
      · exact Or.inl ((bmod_eq_iff hx (by rw [hW]; exact hlo) (by rw [hW]; exact hmid)).mpr
          (by rw [hW]; exact hmod))
      · exact Or.inr (by rw [hmod, Int.emod_eq_of_lt (by omega) hhi])
  | bits low =>
    simp only [Denotes, shift, Multiple, and_true]
    rw [Int.ediv_ediv_of_nonneg hS.le, pow_add]

/-! ### The write -/

/-- The word that a type leaves in place of a word. -/
def newWord (t : RelocType) (w r : BitVec 32) : BitVec 32 :=
  match t with
  | .abs32 => r
  | .prel31 => insertField 30 0 w r
  | _ => insertField (targetField t).width (targetField t).pos w r

/-- The types with a word as item read, patch and write it. -/
lemma writeReloc_word {t : RelocType} {v : BitVec 32} (h : relOverflow t v = some false)
    (hitem : (targetField t).item = .word) (host : ByteOrder) (m : Memory) (a : ℕ)
    (r : BitVec 32) :
    writeReloc host m a t r = some (store host 4 m a (newWord t (loadWord host m a) r)) := by
  cases t
  case abs16 | abs8 => simp [targetField] at hitem
  case none | sbrGotU15W | sbrGotL16W | sbrGotH16W | copy => simp [relOverflow] at h
  all_goals rfl

/-- A type with a word as item patches the word of the module's byte order. -/
lemma relocDo_word (host : ByteOrder) (m : Memory) {c : RelocCall} {v : BitVec 32}
    (hv : relocValue c = some v) (h : relOverflow c.rType v = some false)
    (hitem : (targetField c.rType).item = .word) :
    relocDo host m c = store (c.order host) 4 m c.spc.toNat
      (newWord c.rType (loadWord (c.order host) m c.spc.toNat) (fieldBits c.rType v)) := by
  have hwrite := writeReloc_word h hitem host
  simp only [relocDo, hv, Option.getD_some, hwrite]
  cases hend : c.wrongEndian with
  | false =>
    rw [RelocCall.order, hend]
    rfl
  | true =>
    rw [RelocCall.order, hend]
    exact changeEndianAt_store host m c.spc.toNat
      fun w => newWord c.rType w (fieldBits c.rType v)

/-- The address at which an item shorter than a word is written. -/
def RelocCall.place (c : RelocCall) (n : ℕ) : ℕ :=
  if c.wrongEndian then c.spc.toNat + (4 - n) else c.spc.toNat

/-- A shorter item is written at its place in the module's byte order, or at the far end of the word
if that order is not the host's. -/
lemma relocDo_short (host : ByteOrder) (m : Memory) {c : RelocCall} {v : BitVec 32} {n w : ℕ}
    {x : BitVec w} (hv : relocValue c = some v) (hn : n ≤ 2)
    (hwrite : ∀ m a, writeReloc host m a c.rType (fieldBits c.rType v) =
      some (store host n m a x)) :
    relocDo host m c = store (c.order host) n m (c.place n) x := by
  rw [fieldBits] at hwrite
  simp only [relocDo, hv, Option.getD_some, hwrite]
  cases hend : c.wrongEndian with
  | false =>
    rw [RelocCall.order, RelocCall.place, hend]
    rfl
  | true =>
    rw [RelocCall.order, RelocCall.place, hend]
    exact changeEndianAt_store_short host m c.spc.toNat x hn

/-- Masking before a cut to the same width does nothing. -/
lemma setWidth_and_fieldMask (v : BitVec 32) {n : ℕ} (hn : n ≤ 32) :
    (v &&& fieldMask n 0).setWidth n = v.setWidth n := by
  refine BitVec.eq_of_getLsbD_eq fun i hi => ?_
  rw [BitVec.getLsbD_setWidth, BitVec.getLsbD_setWidth, BitVec.getLsbD_and,
    getLsbD_fieldMask (by omega)]
  simp [hi]

/-- Where the halfword of an entry ends up. -/
lemma relocDo_half (host : ByteOrder) (m : Memory) {c : RelocCall} {v : BitVec 32}
    (hv : relocValue c = some v) (ht : c.rType = .abs16) :
    relocDo host m c = store (c.order host) 2 m (c.place 2) (v.setWidth 16) := by
  refine relocDo_short host m hv le_rfl fun m a => ?_
  rw [ht]
  exact congrArg (fun x => some (store host 2 m a x)) (setWidth_and_fieldMask v (by decide))

/-- Where the byte of an entry ends up. -/
lemma relocDo_byte (host : ByteOrder) (m : Memory) {c : RelocCall} {v : BitVec 32}
    (hv : relocValue c = some v) (ht : c.rType = .abs8) :
    relocDo host m c = store (c.order host) 1 m (c.place 1) (v.setWidth 8) := by
  refine relocDo_short host m hv (by decide) fun m a => ?_
  rw [ht]
  exact congrArg (fun x => some (store host 1 m a x)) (setWidth_and_fieldMask v (by decide))

/-! ### What the field holds afterwards -/

/-- The masked result fits the field. -/
lemma fieldBits_lt {t : RelocType} {v : BitVec 32} (h : relOverflow t v = some false) :
    (fieldBits t v).toNat < 2 ^ (targetField t).width := by
  have hbits := toNat_fieldBits h
  have hlt := Int.emod_lt_of_pos (v.toInt / 2 ^ (targetField t).shift)
    (by positivity : (0 : ℤ) < 2 ^ (targetField t).width)
  rw [← hbits] at hlt
  exact_mod_cast hlt

/-- What is read from a field fits it. -/
lemma Field.read_lt (f : Field) (o : ByteOrder) (m : Memory) (a : ℕ) :
    f.read o m a < 2 ^ f.width := by
  unfold Field.read
  cases f.item <;> exact BitVec.isLt _

/-- A relocation is carried out when the field holds the masked result, the scale loses nothing and
the other bits are kept. -/
lemma relocated_iff_read (host : ByteOrder) (m : Memory) {c : RelocCall} {v : BitVec 32}
    (hv : relocValue c = some v) (h : relOverflow c.rType v = some false) :
    Relocated host m c ↔
      ((targetField c.rType).read (c.order host) (relocDo host m c) c.spc.toNat =
          (fieldBits c.rType v).toNat ∧ (targetField c.rType).Multiple v.toInt) ∧
        ∀ b i, i < 8 → ¬(targetField c.rType).Holds (c.order host) c.spc.toNat b i →
          (relocDo host m c b).getLsbD i = (m b).getLsbD i := by
  have hden := Field.denotes_iff
    ((targetField c.rType).read_lt (c.order host) (relocDo host m c) c.spc.toNat)
    (inRange_of_relOverflow h)
  rw [← toNat_fieldBits h, Nat.cast_inj] at hden
  simp only [Relocated, hv, Option.getD_some, hden]

/-- A word write keeps the bits outside its field. -/
lemma frame_word (host : ByteOrder) (m : Memory) {c : RelocCall} {v : BitVec 32}
    (hv : relocValue c = some v) (h : relOverflow c.rType v = some false)
    (hitem : (targetField c.rType).item = .word) {b i : ℕ} (hi : i < 8)
    (hout : ¬(targetField c.rType).Holds (c.order host) c.spc.toNat b i) :
    (relocDo host m c b).getLsbD i = (m b).getLsbD i := by
  rw [relocDo_word host m hv h hitem]
  refine getLsbD_storeWord_of_agree _ m _ _ hi fun hlo hhi => ?_
  have hlane := (c.order host).lane_lt (by omega : b - c.spc.toNat < 4)
  simp only [Field.Holds, hitem, Item.bytes, hlo, hhi, true_and] at hout
  have hbits := fieldBits_lt h
  generalize (c.order host).lane 4 (b - c.spc.toNat) = k at hlane hout ⊢
  cases ht : c.rType
  case abs32 =>
    rw [ht] at hout
    simp only [targetField] at hout
    omega
  case prel31 =>
    rw [ht] at hout hbits
    exact getLsbD_insertField_of_outside hbits (by decide) (by omega) hout
  all_goals
    rw [ht] at hout hbits
    exact getLsbD_insertField_of_outside hbits le_rfl (by omega) hout

/-- Every word type but `R_C6000_PREL31` reads back its masked result. -/
lemma read_word (host : ByteOrder) (m : Memory) {c : RelocCall} {v : BitVec 32}
    (hv : relocValue c = some v) (h : relOverflow c.rType v = some false)
    (hitem : (targetField c.rType).item = .word) (hprel : c.rType ≠ .prel31) :
    (targetField c.rType).read (c.order host) (relocDo host m c) c.spc.toNat =
      (fieldBits c.rType v).toNat := by
  have hbits := fieldBits_lt h
  rw [relocDo_word host m hv h hitem]
  simp only [Field.read, hitem, loadWord_store]
  cases ht : c.rType
  case prel31 => exact absurd ht hprel
  case abs32 => simp [newWord, targetField]
  all_goals
    rw [ht] at hbits
    exact extractLsb'_insertField hbits (by decide)

/-- Bit 30 of the old word is joined into the field of `R_C6000_PREL31`. -/
lemma extractLsb'_prel31 (w r : BitVec 32) (hr : r.toNat < 2 ^ 31) :
    ((insertField 30 0 w r).extractLsb' 0 31).toNat = r.toNat ↔
      (w.getLsbD 30 = true → r.getLsbD 30 = true) := by
  have hset : r.toNat = (r.setWidth 31).toNat := by
    rw [BitVec.toNat_setWidth, Nat.mod_eq_of_lt hr]
  rw [hset, BitVec.toNat_inj]
  have hbit : ∀ i < 31, ((insertField 30 0 w r).extractLsb' 0 31).getLsbD i =
      (w.getLsbD i && !decide (i < 30) || r.getLsbD i) := by
    intro i hi
    rw [BitVec.getLsbD_extractLsb', getLsbD_insertField w r (by omega)]
    simp [hi]
  constructor
  · intro heq hold
    have h30 := hbit 30 (by decide)
    rw [heq, BitVec.getLsbD_setWidth, hold] at h30
    simpa using h30
  · intro himp
    refine BitVec.eq_of_getLsbD_eq fun i hi => ?_
    rw [hbit i hi, BitVec.getLsbD_setWidth, decide_eq_true hi, Bool.true_and]
    by_cases hlow : i < 30
    · simp [hlow]
    · obtain rfl : i = 30 := by omega
      cases hw : w.getLsbD 30 with
      | false => simp
      | true => simp [himp hw]

/-- Bit 30 of the masked result is the sign of the value. -/
lemma getLsbD_fieldBits_prel31 (v : BitVec 32) :
    (fieldBits .prel31 v).getLsbD 30 = true ↔ v.toInt < 0 := by
  have hmask : fieldBits .prel31 v = v.sshiftRight 1 &&& fieldMask 31 0 := rfl
  have hsign : v.getLsbD (1 + 30) = decide (v.toInt < 0) := by
    rw [← BitVec.msb_eq_toInt, BitVec.msb_eq_getLsbD_last]
  rw [hmask, BitVec.getLsbD_and, getLsbD_fieldMask (by decide), BitVec.getLsbD_sshiftRight,
    if_pos (by decide), hsign]
  simp

/-! ### The condition -/

/-- The condition under which an accepted relocation is carried out: the scale of the field loses
nothing of the value; the bit of the old word that `R_C6000_PREL31` does not clear is clear, or is
set in the result; a shorter item of a module in the other byte order is already there, and so is
its copy at the far end of the word. -/
def Fits (host : ByteOrder) (m : Memory) (c : RelocCall) : Prop :=
  let v := (relocValue c).getD 0
  let o := c.order host
  let a := c.spc.toNat
  (targetField c.rType).Multiple v.toInt ∧
    (c.rType = .prel31 → (loadWord o m a).getLsbD 30 = true → v.toInt < 0) ∧
    (c.rType = .abs16 → c.wrongEndian = true →
      loadHalf o m a = v.setWidth 16 ∧ loadHalf o m (a + 2) = v.setWidth 16) ∧
    (c.rType = .abs8 → c.wrongEndian = true →
      m a = v.setWidth 8 ∧ m (a + 3) = v.setWidth 8)

/-- An accepted relocation has a value. -/
lemma exists_relocValue {c : RelocCall}
    (h : relOverflow c.rType ((relocValue c).getD 0) = some false) : ∃ v, relocValue c = some v := by
  unfold relocValue at h ⊢
  cases ht : c.rType
  case none | sbrGotU15W | sbrGotL16W | sbrGotH16W | copy => simp [ht, relOverflow] at h
  all_goals exact ⟨_, rfl⟩

/-- The low bits that a shorter item takes. -/
lemma toNat_and_fieldMask (v : BitVec 32) {n : ℕ} (hn : n ≤ 32) :
    (v &&& fieldMask n 0).toNat = (v.setWidth n).toNat := by
  have hpow : (2 : ℕ) ^ n ≤ 2 ^ 32 := Nat.pow_le_pow_right (by decide) hn
  have hpos := Nat.two_pow_pos n
  rw [fieldMask, pow_zero, Nat.mul_one, BitVec.toNat_and, BitVec.toNat_ofNat,
    Nat.mod_eq_of_lt (by omega), Nat.and_two_pow_sub_one_eq_mod, BitVec.toNat_setWidth]

/-- A store of an item is not seen if the item was there. -/
lemma store_eq_self_iff {w n : ℕ} (o : ByteOrder) (m : Memory) (a : ℕ) (x : BitVec w) :
    (∀ b i, i < 8 → (store o n m a x b).getLsbD i = (m b).getLsbD i) ↔
      ∀ k < n, m (a + k) = byteOf x (o.lane n k) := by
  constructor
  · intro h k hk
    refine (BitVec.eq_of_getLsbD_eq fun i hi => ?_).symm
    rw [← store_apply o m a x hk]
    exact h (a + k) i hi
  · intro h b i _
    by_cases hb : a ≤ b ∧ b < a + n
    · obtain ⟨k, rfl⟩ := Nat.exists_eq_add_of_le hb.1
      rw [store_apply o m a x (by omega), h k (by omega)]
    · rw [store_apply_of_not_mem o m x hb]

/-- The relocation of an item shorter than a word, which fills the item. -/
lemma relocated_short (host : ByteOrder) (m : Memory) {c : RelocCall} {v : BitVec 32} {n : ℕ}
    {x : BitVec (8 * n)} (hv : relocValue c = some v)
    (h : relOverflow c.rType v = some false)
    (hn : (targetField c.rType).item.bytes = n) (hn2 : 0 < n ∧ n ≤ 2)
    (hpos : (targetField c.rType).pos = 0) (hwidth : (targetField c.rType).width = 8 * n)
    (hmult : (targetField c.rType).Multiple v.toInt)
    (hdo : relocDo host m c = store (c.order host) n m (c.place n) x)
    (hread : ∀ m' : Memory,
      (targetField c.rType).read (c.order host) m' c.spc.toNat = (fieldBits c.rType v).toNat ↔
        ∀ k < n, m' (c.spc.toNat + k) = byteOf x ((c.order host).lane n k)) :
    Relocated host m c ↔ (c.wrongEndian = true →
      (∀ k < n, m (c.spc.toNat + k) = byteOf x ((c.order host).lane n k)) ∧
        ∀ k < n, m (c.spc.toNat + (4 - n) + k) = byteOf x ((c.order host).lane n k)) := by
  -- the field is the whole item, so the other bits are those of the other bytes
  have hholds : ∀ b i, i < 8 → ((targetField c.rType).Holds (c.order host) c.spc.toNat b i ↔
      c.spc.toNat ≤ b ∧ b < c.spc.toNat + n) := by
    intro b i hi
    rw [Field.Holds, hn, hpos, hwidth]
    constructor
    · exact fun hall => ⟨hall.1, hall.2.1⟩
    · intro hb
      have hlane := (c.order host).lane_lt (by omega : b - c.spc.toNat < n)
      exact ⟨hb.1, hb.2, by omega, by omega⟩
  rw [relocated_iff_read host m hv h, and_iff_left hmult, hread, hdo]
  cases hend : c.wrongEndian with
  | false =>
    rw [RelocCall.place, hend]
    refine iff_of_true ⟨fun k hk => store_apply _ m _ x hk, fun b i hi hout => ?_⟩ (by simp)
    rw [hholds b i hi] at hout
    simp only [Bool.false_eq_true, if_false]
    rw [store_apply_of_not_mem _ m x hout]
  | true =>
    rw [RelocCall.place, hend, if_pos rfl, forall_prop_of_true rfl,
      ← store_eq_self_iff _ m (c.spc.toNat + (4 - n))]
    refine and_congr ?_ ?_
    · refine forall₂_congr fun k hk => ?_
      rw [store_apply_of_not_mem _ m x (by omega)]
    · refine forall₃_congr fun b i hi => ?_
      rw [hholds b i hi]
      constructor
      · intro hframe
        by_cases hb : c.spc.toNat ≤ b ∧ b < c.spc.toNat + n
        · rw [store_apply_of_not_mem _ m x (by omega)]
        · exact hframe hb
      · exact fun hsame _ => hsame

/-- A halfword is its two bytes. -/
lemma loadHalf_eq_iff (o : ByteOrder) (m : Memory) (a : ℕ) (x : BitVec 16) :
    loadHalf o m a = x ↔ ∀ k < 2, m (a + k) = byteOf x (o.lane 2 k) := by
  constructor
  · rintro rfl k hk
    refine BitVec.eq_of_getLsbD_eq fun i hi => ?_
    rw [getLsbD_byteOf _ hi, getLsbD_loadHalf o m a (o.lane_lt hk) hi, o.lane_lane hk]
  · intro h
    have hstore : loadHalf o m a = loadHalf o (store o 2 m a x) a :=
      loadHalf_congr o fun k hk => (h k hk).trans (store_apply o m a x hk).symm
    rw [hstore, loadHalf_store]

/-- A byte is its one byte. -/
lemma byte_eq_iff (o : ByteOrder) (m : Memory) (a : ℕ) (x : BitVec 8) :
    m a = x ↔ ∀ k < 1, m (a + k) = byteOf x (o.lane 1 k) := by
  have hbyte : byteOf x (o.lane 1 0) = x := by
    refine BitVec.eq_of_getLsbD_eq fun i hi => ?_
    rw [getLsbD_byteOf x hi, Nat.lt_one_iff.mp (o.lane_lt Nat.one_pos), Nat.mul_zero, Nat.zero_add]
  constructor
  · rintro h k hk
    obtain rfl : k = 0 := by omega
    rw [hbyte]
    exact h
  · intro h
    rw [← hbyte]
    exact h 0 Nat.one_pos

/-- The relocation of a halfword. -/
lemma relocated_half (host : ByteOrder) (m : Memory) {c : RelocCall} {v : BitVec 32}
    (hv : relocValue c = some v) (h : relOverflow c.rType v = some false)
    (ht : c.rType = .abs16) :
    Relocated host m c ↔ (c.wrongEndian = true →
      loadHalf (c.order host) m c.spc.toNat = v.setWidth 16 ∧
        loadHalf (c.order host) m (c.spc.toNat + 2) = v.setWidth 16) := by
  have hread : ∀ m' : Memory, (targetField c.rType).read (c.order host) m' c.spc.toNat =
      (fieldBits c.rType v).toNat ↔
        ∀ k < 2, m' (c.spc.toNat + k) = byteOf (v.setWidth 16) ((c.order host).lane 2 k) := by
    intro m'
    have hbits : (fieldBits .abs16 v).toNat = (v.setWidth 16).toNat :=
      toNat_and_fieldMask v (n := 16) (by decide)
    rw [← loadHalf_eq_iff, ht, hbits, ← BitVec.toNat_inj]
    simp [Field.read, targetField]
  rw [relocated_short host m hv h (by rw [ht]; rfl) ⟨by decide, by decide⟩ (by rw [ht]; rfl)
    (by rw [ht]; rfl) (by rw [ht]; exact one_dvd _) (relocDo_half host m hv ht) hread]
  rw [loadHalf_eq_iff, loadHalf_eq_iff]

/-- The relocation of a byte. -/
lemma relocated_byte (host : ByteOrder) (m : Memory) {c : RelocCall} {v : BitVec 32}
    (hv : relocValue c = some v) (h : relOverflow c.rType v = some false)
    (ht : c.rType = .abs8) :
    Relocated host m c ↔ (c.wrongEndian = true →
      m c.spc.toNat = v.setWidth 8 ∧ m (c.spc.toNat + 3) = v.setWidth 8) := by
  have hread : ∀ m' : Memory, (targetField c.rType).read (c.order host) m' c.spc.toNat =
      (fieldBits c.rType v).toNat ↔
        ∀ k < 1, m' (c.spc.toNat + k) = byteOf (v.setWidth 8) ((c.order host).lane 1 k) := by
    intro m'
    have hbits : (fieldBits .abs8 v).toNat = (v.setWidth 8).toNat :=
      toNat_and_fieldMask v (n := 8) (by decide)
    rw [← byte_eq_iff, ht, hbits, ← BitVec.toNat_inj]
    simp [Field.read, targetField]
  rw [relocated_short host m hv h (by rw [ht]; rfl) ⟨by decide, by decide⟩ (by rw [ht]; rfl)
    (by rw [ht]; rfl) (by rw [ht]; exact one_dvd _) (relocDo_byte host m hv ht) hread]
  rw [byte_eq_iff (c.order host), byte_eq_iff (c.order host)]

/-- The relocation of a word. -/
lemma relocated_word (host : ByteOrder) (m : Memory) {c : RelocCall} {v : BitVec 32}
    (hv : relocValue c = some v) (h : relOverflow c.rType v = some false)
    (hitem : (targetField c.rType).item = .word) :
    Relocated host m c ↔ (targetField c.rType).Multiple v.toInt ∧ (c.rType = .prel31 →
      (loadWord (c.order host) m c.spc.toNat).getLsbD 30 = true → v.toInt < 0) := by
  rw [relocated_iff_read host m hv h,
    and_iff_left fun b i hi hout => frame_word host m hv h hitem hi hout, and_comm]
  refine and_congr_right fun _ => ?_
  by_cases ht : c.rType = .prel31
  · have hbits := fieldBits_lt h
    rw [relocDo_word host m hv h hitem, forall_prop_of_true ht]
    rw [ht] at hbits ⊢
    rw [← getLsbD_fieldBits_prel31, ← extractLsb'_prel31 _ _ hbits]
    simp only [Field.read, targetField, loadWord_store, newWord]
  · exact iff_of_true (read_word host m hv h hitem ht) fun heq => absurd heq ht

/-- An accepted relocation is carried out, with its field denoting the value and every other bit of
memory kept, exactly if it fits. -/
theorem relocated_iff (host : ByteOrder) (m : Memory) (c : RelocCall)
    (h : relOverflow c.rType ((relocValue c).getD 0) = some false) :
    Relocated host m c ↔ Fits host m c := by
  obtain ⟨v, hv⟩ := exists_relocValue h
  rw [hv, Option.getD_some] at h
  simp only [Fits, hv, Option.getD_some]
  by_cases hhalf : c.rType = .abs16
  · rw [relocated_half host m hv h hhalf]
    simp [hhalf, Field.Multiple, targetField]
  by_cases hbyte : c.rType = .abs8
  · rw [relocated_byte host m hv h hbyte]
    simp [hbyte, Field.Multiple, targetField]
  have hitem : (targetField c.rType).item = .word := by
    cases ht : c.rType <;> first | rfl | contradiction
  rw [relocated_word host m hv h hitem]
  simp [hhalf, hbyte]

/-- A place-relative entry at address `0x1000` of a module in the host's byte order. -/
def prelCall (symval : BitVec 32) : RelocCall where
  rType := .prel31
  segmentVaddr := 0x1000
  addend := 0
  symval := symval
  spc := 0
  wrongEndian := false
  basePointer := 0
  dsbtIndex := 0

/-- A backward reference goes into the field over any old word. -/
theorem relocated_prelCall_backward :
    relOverflow (prelCall 0xff8).rType ((relocValue (prelCall 0xff8)).getD 0) = some false ∧
      Relocated .little (fun _ => 0xff) (prelCall 0xff8) := by
  refine ⟨rfl, (relocated_iff .little _ (prelCall 0xff8) rfl).mpr ⟨?_, fun _ _ => by decide, ?_, ?_⟩⟩
  · exact (by decide : (2 : ℤ) ^ 1 ∣ -8)
  · exact fun ht => nomatch ht
  · exact fun ht => nomatch ht

/-- A forward reference over a word whose bit 30 is set is read back as another one: that bit stays
set. -/
theorem not_relocated_prelCall_forward :
    relOverflow (prelCall 0x1008).rType ((relocValue (prelCall 0x1008)).getD 0) = some false ∧
      ¬Relocated .little (fun _ => 0x40) (prelCall 0x1008) := by
  refine ⟨rfl, fun h => ?_⟩
  have hden := h.1
  revert hden
  decide

end TiOpenCL.Reloc
