import TiOpenCL.Library.BitFields

/-!
# Relocation of a word by the C6000 dynamic loader

The loader of the device programs patches one place of a segment per relocation entry: `reloc_do`
computes the value of the relocation, checks its range, packs and masks it and writes it into the
field of its type.  The five functions of `c60_reloc.c` that share the switch over the relocation
type are modelled as they stand, over a segment in byte addressed memory and a host of either byte
order.  A type that a switch does not list takes its default branch; here it is `none`, and
`relocDo` puts the source's default value and its error message in.
-/

namespace TiOpenCL.Reloc

open BitFields

/-- The relocation types of `c60_elf32.h`. -/
inductive RelocType where
  | none
  | abs32
  | abs16
  | abs8
  | pcrS21
  | pcrS12
  | pcrS10
  | pcrS7
  | absS16
  | absL16
  | absH16
  | sbrU15B
  | sbrU15H
  | sbrU15W
  | sbrS16
  | sbrL16B
  | sbrL16H
  | sbrL16W
  | sbrH16B
  | sbrH16H
  | sbrH16W
  | sbrGotU15W
  | sbrGotL16W
  | sbrGotH16W
  | dsbtIndex
  | prel31
  | copy
  deriving DecidableEq, Repr

/-- The arguments of `reloc_do`, without the segment. -/
structure RelocCall where
  /-- The relocation type of the entry. -/
  rType : RelocType
  /-- The address at which the segment runs. -/
  segmentVaddr : BitVec 32
  /-- The addend of the entry. -/
  addend : BitVec 32
  /-- The value of the symbol. -/
  symval : BitVec 32
  /-- The place of the relocation, as an offset into the segment. -/
  spc : BitVec 32
  /-- Whether the module's byte order is not the host's. -/
  wrongEndian : Bool
  /-- The static base. -/
  basePointer : BitVec 32
  /-- The index of the module in the table of static bases. -/
  dsbtIndex : BitVec 32

/-- The value of a relocation, in the wrapping arithmetic of 32 bits. -/
def relocValue (c : RelocCall) : Option (BitVec 32) :=
  match c.rType with
  | .abs32 | .abs16 | .abs8 | .absS16 | .absL16 | .absH16 => some (c.symval + c.addend)
  | .pcrS21 | .pcrS12 | .pcrS10 | .pcrS7 =>
    -- the place is taken down to the start of its fetch packet
    some (c.symval + c.addend - ((c.spc + c.segmentVaddr) &&& 0xffffffe0#32))
  | .prel31 => some (c.symval + c.addend - (c.spc + c.segmentVaddr))
  | .sbrU15B | .sbrU15H | .sbrU15W | .sbrS16 | .sbrL16B | .sbrL16H | .sbrL16W | .sbrH16B
  | .sbrH16H | .sbrH16W => some (c.symval + c.addend - c.basePointer)
  | .dsbtIndex => some (c.symval + c.addend - c.basePointer + c.dsbtIndex <<< 2)
  | .none | .sbrGotU15W | .sbrGotL16W | .sbrGotH16W | .copy => Option.none

/-- Whether a value is out of the range of its type. -/
def relOverflow (t : RelocType) (v : BitVec 32) : Option Bool :=
  match t with
  | .abs16 => some (decide (65535 < v.toInt) || decide (v.toInt < -32768))
  | .abs8 => some (decide (255 < v.toInt) || decide (v.toInt < -128))
  | .pcrS21 => some (decide (0x400000 ≤ v.toInt) || decide (v.toInt < -0x400000))
  | .pcrS12 => some (decide (0x2000 ≤ v.toInt) || decide (v.toInt < -0x2000))
  | .pcrS10 => some (decide (0x800 ≤ v.toInt) || decide (v.toInt < -0x800))
  | .pcrS7 => some (decide (0x100 ≤ v.toInt) || decide (v.toInt < -0x100))
  | .sbrS16 | .absS16 => some (decide (0x8000 ≤ v.toInt) || decide (v.toInt < -0x8000))
  | .sbrU15B => some (decide (0x8000 ≤ v.toNat))
  | .sbrU15H => some (decide (0xFFFF ≤ v.toNat))
  | .dsbtIndex | .sbrU15W => some (decide (0x1FFFD ≤ v.toNat))
  | .absL16 | .absH16 | .sbrL16B | .sbrL16H | .sbrL16W | .sbrH16B | .sbrH16H | .sbrH16W =>
    some false
  | .abs32 | .prel31 => some false
  | .none | .sbrGotU15W | .sbrGotL16W | .sbrGotH16W | .copy => Option.none

/-- The value moved to the low end of its field: an arithmetic shift. -/
def packResult (v : BitVec 32) (t : RelocType) : Option (BitVec 32) :=
  match t with
  | .abs32 | .abs16 | .abs8 | .absS16 | .absL16 | .sbrU15B | .sbrS16 | .sbrL16B => some v
  | .sbrU15H | .sbrL16H | .prel31 => some (v.sshiftRight 1)
  | .pcrS21 | .pcrS12 | .pcrS10 | .pcrS7 | .sbrU15W | .sbrL16W | .dsbtIndex =>
    some (v.sshiftRight 2)
  | .absH16 | .sbrH16B => some (v.sshiftRight 16)
  | .sbrH16H => some (v.sshiftRight 17)
  | .sbrH16W => some (v.sshiftRight 18)
  | .none | .sbrGotU15W | .sbrGotL16W | .sbrGotH16W | .copy => Option.none

/-- The packed value cut to the width of its field. -/
def maskResult (v : BitVec 32) (t : RelocType) : Option (BitVec 32) :=
  match t with
  | .abs8 => some (v &&& 0xFF#32)
  | .abs32 => some v
  | .abs16 | .absS16 | .absL16 | .absH16 | .sbrS16 | .sbrL16B | .sbrL16H | .sbrL16W | .sbrH16B
  | .sbrH16H | .sbrH16W => some (v &&& 0xFFFF#32)
  | .pcrS21 => some (v &&& 0x1FFFFF#32)
  | .pcrS12 => some (v &&& 0xFFF#32)
  | .pcrS10 => some (v &&& 0x3FF#32)
  | .pcrS7 => some (v &&& 0x7F#32)
  | .sbrU15B | .sbrU15H | .sbrU15W | .dsbtIndex => some (v &&& 0x7FFF#32)
  | .prel31 => some (v &&& 0x7FFFFFFF#32)
  | .none | .sbrGotU15W | .sbrGotL16W | .sbrGotH16W | .copy => Option.none

/-- The read-modify-write of a field of `n` bits at bit `s` of the word at an address. -/
def patchWord (host : ByteOrder) (m : Memory) (a n s : ℕ) (r : BitVec 32) : Memory :=
  store host 4 m a (insertField n s (loadWord host m a) r)

/-- The write of a masked result into the segment. -/
def writeReloc (host : ByteOrder) (m : Memory) (a : ℕ) (t : RelocType) (r : BitVec 32) :
    Option Memory :=
  match t with
  | .abs32 => some (store host 4 m a r)
  | .prel31 => some (patchWord host m a 30 0 r)
  | .abs16 => some (store host 2 m a (r.setWidth 16))
  | .abs8 => some (store host 1 m a (r.setWidth 8))
  | .pcrS21 => some (patchWord host m a 21 7 r)
  | .pcrS12 => some (patchWord host m a 12 16 r)
  | .pcrS10 => some (patchWord host m a 10 13 r)
  | .pcrS7 => some (patchWord host m a 7 16 r)
  | .absS16 | .absL16 | .absH16 => some (patchWord host m a 16 7 r)
  | .sbrU15B | .sbrU15H | .sbrU15W | .dsbtIndex => some (patchWord host m a 15 8 r)
  | .sbrS16 | .sbrL16B | .sbrL16H | .sbrL16W | .sbrH16B | .sbrH16H | .sbrH16W =>
    some (patchWord host m a 16 7 r)
  | .none | .sbrGotU15W | .sbrGotL16W | .sbrGotH16W | .copy => Option.none

/-- A word with its bytes swapped, by masks and shifts. -/
def changeEndian32 (x : BitVec 32) : BitVec 32 :=
  ((x &&& 0x000000FF#32) <<< 24) + ((x &&& 0x0000FF00#32) <<< 8) +
    ((x &&& 0x00FF0000#32) >>> 8) + ((x &&& 0xFF000000#32) >>> 24)

/-- The segment with the word at an address swapped in place. -/
def changeEndianAt (host : ByteOrder) (m : Memory) (a : ℕ) : Memory :=
  store host 4 m a (changeEndian32 (loadWord host m a))

/-- The errors that a relocation reports, in their order.  Whether the write is refused depends on the
type alone. -/
def relocErrors (c : RelocCall) : List String :=
  let v := (relocValue c).getD 0
  (if (relocValue c).isNone then ["reloc_do called with invalid relocation type!\n"] else []) ++
  (if (relOverflow c.rType v).isNone then
    ["rel_overflow called with invalid relocation type!\n"] else []) ++
  (if (relOverflow c.rType v).getD true then ["relocation overflow!\n"] else []) ++
  (if (packResult v c.rType).isNone then
    ["pack_result called with invalid relocation type!\n"] else []) ++
  (if (maskResult ((packResult v c.rType).getD 0) c.rType).isNone then
    ["mask_result called with invalid relocation type!\n"] else []) ++
  (if (writeReloc .little (fun _ => 0) 0 c.rType 0).isNone then
    ["write_reloc_r called with invalid relocation type!\n"] else [])

/-- A relocation reports no error exactly if its range check accepts the value. -/
lemma relocErrors_eq_nil_iff (c : RelocCall) :
    relocErrors c = [] ↔ relOverflow c.rType ((relocValue c).getD 0) = some false := by
  unfold relocErrors relocValue
  cases ht : c.rType <;> simp [relOverflow, packResult, maskResult, writeReloc]

/-- One relocation.  Errors are reported and do not stop it. -/
def relocDo (host : ByteOrder) (m : Memory) (c : RelocCall) : Memory :=
  let v := (relocValue c).getD 0
  let packed := (packResult v c.rType).getD 0
  let masked := (maskResult packed c.rType).getD 0
  let m₁ := if c.wrongEndian then changeEndianAt host m c.spc.toNat else m
  let m₂ := (writeReloc host m₁ c.spc.toNat c.rType masked).getD m₁
  if c.wrongEndian then changeEndianAt host m₂ c.spc.toNat else m₂

/-- The byte order of the module that is relocated. -/
def RelocCall.order (c : RelocCall) (host : ByteOrder) : ByteOrder :=
  if c.wrongEndian then host.flip else host

/-! ### The field of a type, as the target reads it -/

/-- The item of memory that holds a field. -/
inductive Item where
  | word
  | half
  | byte
  deriving DecidableEq, Repr

/-- The number of bytes of an item. -/
def Item.bytes : Item → ℕ
  | .word => 4
  | .half => 2
  | .byte => 1

/-- How the bits of a field stand for a value. -/
inductive Reading where
  /-- Sign extended. -/
  | signed
  /-- Zero extended. -/
  | unsigned
  /-- Data that the program may load with either extension. -/
  | either
  /-- Sixteen bits of the scaled value, from the given bit on. -/
  | bits (low : ℕ)
  deriving DecidableEq, Repr

/-- A field: where it lies and how it is read. -/
structure Field where
  /-- The item that holds it. -/
  item : Item
  /-- Its lowest bit. -/
  pos : ℕ
  /-- Its width. -/
  width : ℕ
  /-- The power of two by which the target scales it. -/
  scale : ℕ
  /-- What its bits stand for. -/
  reading : Reading

/-- The field of each type.  The types that the loader does not support have none. -/
def targetField : RelocType → Field
  | .abs32 => ⟨.word, 0, 32, 0, .either⟩
  | .abs16 => ⟨.half, 0, 16, 0, .either⟩
  | .abs8 => ⟨.byte, 0, 8, 0, .either⟩
  | .pcrS21 => ⟨.word, 7, 21, 2, .signed⟩
  | .pcrS12 => ⟨.word, 16, 12, 2, .signed⟩
  | .pcrS10 => ⟨.word, 13, 10, 2, .signed⟩
  | .pcrS7 => ⟨.word, 16, 7, 2, .signed⟩
  | .absS16 | .sbrS16 => ⟨.word, 7, 16, 0, .signed⟩
  | .absL16 | .sbrL16B => ⟨.word, 7, 16, 0, .bits 0⟩
  | .absH16 | .sbrH16B => ⟨.word, 7, 16, 0, .bits 16⟩
  | .sbrL16H => ⟨.word, 7, 16, 1, .bits 0⟩
  | .sbrH16H => ⟨.word, 7, 16, 1, .bits 16⟩
  | .sbrL16W => ⟨.word, 7, 16, 2, .bits 0⟩
  | .sbrH16W => ⟨.word, 7, 16, 2, .bits 16⟩
  | .sbrU15B => ⟨.word, 8, 15, 0, .unsigned⟩
  | .sbrU15H => ⟨.word, 8, 15, 1, .unsigned⟩
  | .sbrU15W | .dsbtIndex => ⟨.word, 8, 15, 2, .unsigned⟩
  | .prel31 => ⟨.word, 0, 31, 1, .signed⟩
  | .none | .sbrGotU15W | .sbrGotL16W | .sbrGotH16W | .copy => ⟨.word, 0, 0, 0, .unsigned⟩

/-- The bits of a field, as a number. -/
def Field.read (f : Field) (o : ByteOrder) (m : Memory) (a : ℕ) : ℕ :=
  match f.item with
  | .word => ((loadWord o m a).extractLsb' f.pos f.width).toNat
  | .half => ((loadHalf o m a).extractLsb' f.pos f.width).toNat
  | .byte => ((m a).extractLsb' f.pos f.width).toNat

/-- Whether a bit of memory belongs to a field. -/
def Field.Holds (f : Field) (o : ByteOrder) (a b i : ℕ) : Prop :=
  a ≤ b ∧ b < a + f.item.bytes ∧
    f.pos ≤ 8 * o.lane f.item.bytes (b - a) + i ∧
    8 * o.lane f.item.bytes (b - a) + i < f.pos + f.width

/-- Whether the bits of a field stand for a value. -/
def Field.Denotes (f : Field) (x : ℕ) (v : ℤ) : Prop :=
  match f.reading with
  | .signed => Int.bmod x (2 ^ f.width) * 2 ^ f.scale = v
  | .unsigned => (x : ℤ) * 2 ^ f.scale = v
  | .either => Int.bmod x (2 ^ f.width) * 2 ^ f.scale = v ∨ (x : ℤ) * 2 ^ f.scale = v
  | .bits low => (x : ℤ) = v / 2 ^ f.scale / 2 ^ low % 2 ^ f.width

instance (f : Field) (x : ℕ) (v : ℤ) : Decidable (f.Denotes x v) :=
  match f with
  | ⟨_, _, width, scale, .signed⟩ =>
    inferInstanceAs (Decidable (Int.bmod x (2 ^ width) * 2 ^ scale = v))
  | ⟨_, _, _, scale, .unsigned⟩ => inferInstanceAs (Decidable ((x : ℤ) * 2 ^ scale = v))
  | ⟨_, _, width, scale, .either⟩ =>
    inferInstanceAs (Decidable (Int.bmod x (2 ^ width) * 2 ^ scale = v ∨ (x : ℤ) * 2 ^ scale = v))
  | ⟨_, _, width, scale, .bits low⟩ =>
    inferInstanceAs (Decidable ((x : ℤ) = v / 2 ^ scale / 2 ^ low % 2 ^ width))

/-- A relocation does what its entry asks for: the field of its type denotes the value, and no other
bit of memory has changed. -/
def Relocated (host : ByteOrder) (m : Memory) (c : RelocCall) : Prop :=
  let f := targetField c.rType
  let o := c.order host
  let m' := relocDo host m c
  f.Denotes (f.read o m' c.spc.toNat) ((relocValue c).getD 0).toInt ∧
    ∀ b i, i < 8 → ¬f.Holds o c.spc.toNat b i → (m' b).getLsbD i = (m b).getLsbD i

end TiOpenCL.Reloc
