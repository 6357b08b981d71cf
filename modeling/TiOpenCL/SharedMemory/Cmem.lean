import Mathlib.Data.BitVec
import Mathlib.Data.List.Pairwise
import Mathlib.Tactic.Ring

/-!
# The CMEM block

`cmem_init` takes the CMEM block off chip, splits off what lies behind the memory of persistent mappings,
gives the rest an address of 32 bits, and leaves out the memory of the monitor.  `CMEMMapPolicyPersistent`
goes back from this address to the physical one, with a test of its own.

Both agree on a block exactly if it is one for which the addresses were designed (`Supported`): on AM57 a
block below 4 GB with room for the monitor, on the other devices one above the 36-bit base, or one below 4
GB that is not where the 32-bit addresses are.
-/

namespace TiOpenCL

namespace Cmem

/-! ### Addresses -/

/-- `DSPDevicePtr64` and `uint64_t`. -/
abbrev Word64 := BitVec 64

/-- `DSP_36BIT_ADDR`. -/
def dsp36BitAddr : Word64 := 0x800000000#64

/-- `MPAX_USER_MAPPED_DSP_ADDR`. -/
def mpaxUserMappedDspAddr : Word64 := 0x840000000#64

/-- `ALL_PERSISTENT_MAX_DSP_ADDR`. -/
def allPersistentMaxDspAddr : Word64 := 0x880000000#64

/-- `RESERVED_CMEM_SIZE`. -/
def reservedCmemSize : Word64 := 0x02000000#64

/-- Whether the host is built for `DEVICE_AM57`. -/
inductive Family where
  | am57
  | other
  deriving DecidableEq, Repr

/-- `CMEM_ADJUST`. -/
def Family.cmemAdjust : Family → Word64
  | .am57 => reservedCmemSize
  | .other => 0

/-- A CMEM block. -/
structure Block where
  /-- `phys_base`. -/
  base : Word64
  /-- `size`. -/
  size : Word64
  /-- The block is in the physical address space. -/
  fits : base.toNat + size.toNat < 2 ^ 64

/-- The kinds of ranges of a CMEM block. -/
inductive RangeKind where
  | persistent
  | onDemand
  deriving DecidableEq, Repr

/-- `MemoryRange`, for a range off chip. -/
structure MemoryRange where
  start : Word64
  size : Word64
  kind : RangeKind
  startAdjust : Word64
  deriving DecidableEq

/-! ### The split -/

/-- The part of a block that goes past the memory of persistent mappings: `size1`, `addr2` and `size2`. -/
def split (base size : Word64) : Word64 × Word64 × Word64 :=
  if allPersistentMaxDspAddr < base + size then
    let size2 := base + size - mpaxUserMappedDspAddr
    let size1 := size - size2
    (size1, base + size1, size2)
  else (size, 0, 0)

/-- The address of the first part and its size, if there is an address of 32 bits. -/
def translate (base size1 : Word64) : Word64 × Word64 :=
  if dsp36BitAddr < base then
    let limit := allPersistentMaxDspAddr - base
    (base + 0x80000000#64 - 0x800000000#64, if limit < size1 then limit else size1)
  else (base, size1)

/-- `cmem_init`, for the block off chip; `none` if it is rejected. -/
def cmemInit (f : Family) (blk : Block) : Option (List MemoryRange) :=
  if mpaxUserMappedDspAddr ≤ blk.base then none
  else
    let (size1, addr2, size2) := split blk.base blk.size
    let (addr1, size1) := translate blk.base size1
    some (⟨addr1 + f.cmemAdjust, size1 - f.cmemAdjust, .persistent, f.cmemAdjust⟩ ::
      if 0 < size2 then [⟨addr2, size2, .onDemand, 0⟩] else [])

/-! ### The mapping -/

variable {w : ℕ}

/-- `CMEMMapPolicyPersistent`, on a host with pointers of `w` bits. -/
structure CmemMapPolicyPersistent (w : ℕ) where
  /-- `dsp_addr_`. -/
  dspAddr : Word64
  /-- `size_`. -/
  size : Word64
  /-- `host_addr_`. -/
  hostAddr : BitVec w
  /-- `xlate_dsp_to_host_offset_`. -/
  xlateDspToHostOffset : Word64

/-- The physical address that `Configure` maps. -/
def cmemAddr (f : Family) (dspAddr : Word64) : Word64 :=
  if f = .other ∧ 0x80000000#64 ≤ dspAddr ∧ dspAddr < 0xFFFFFFFF#64 then
    dspAddr - 0x80000000#64 + 0x800000000#64
  else dspAddr

/-- `Configure`; `none` if the block cannot be mapped. -/
def configure (f : Family) (cmemMap : Word64 → Word64 → BitVec w) (r : MemoryRange) :
    Option (CmemMapPolicyPersistent w) :=
  let hostAddr := cmemMap (cmemAddr f r.start) r.size
  if hostAddr = 0 then none else some ⟨r.start, r.size, hostAddr, hostAddr.setWidth 64 - r.start⟩

/-- `Map`; `none` if the address is not in the range. -/
def CmemMapPolicyPersistent.map (p : CmemMapPolicyPersistent w) (dspAddr size : Word64) : Option (BitVec w) :=
  if p.hostAddr = 0 ∨ dspAddr < p.dspAddr ∨ p.dspAddr + p.size < dspAddr + size then none
  else some (dspAddr.setWidth w + p.xlateDspToHostOffset.setWidth w)

/-- What `CMEM_map` promises: null, or the start of a mapping in the address space of the host. -/
def MapsInto (cmemMap : Word64 → Word64 → BitVec w) : Prop :=
  ∀ phys size, cmemMap phys size ≠ 0 → (cmemMap phys size).toNat + size.toNat ≤ 2 ^ w

/-- An address of the host refers to a physical byte through a mapping of `size` bytes. -/
def RefersTo (host : BitVec w) (phys size : Word64) (addr : BitVec w) (byte : ℕ) : Prop :=
  ∃ k < size.toNat, addr = host + BitVec.ofNat w k ∧ byte = phys.toNat + k

/-! ### What is claimed of the ranges -/

/-- The physical address of a range: the persistent one starts behind the memory of the monitor. -/
def physical (blk : Block) (r : MemoryRange) : ℕ :=
  match r.kind with
  | .persistent => blk.base.toNat + r.startAdjust.toNat
  | .onDemand => r.start.toNat

/-- The sizes do not underflow, the ranges are apart and in the block, the persistent one has addresses of
32 bits, and each of them is mapped to the physical byte that it stands for. -/
structure RangesOk (w : ℕ) (f : Family) (blk : Block) (ranges : List MemoryRange) : Prop where
  size : ∀ r ∈ ranges, r.startAdjust.toNat + r.size.toNat ≤ blk.size.toNat
  inside : ∀ r ∈ ranges, blk.base.toNat ≤ physical blk r ∧
    physical blk r + r.size.toNat ≤ blk.base.toNat + blk.size.toNat
  disjoint : ranges.Pairwise fun r s =>
    physical blk r + r.size.toNat ≤ physical blk s ∨ physical blk s + s.size.toNat ≤ physical blk r
  addressable : ∀ r ∈ ranges, r.kind = .persistent → r.start.toNat + r.size.toNat ≤ 2 ^ 32
  mapped : ∀ cmemMap : Word64 → Word64 → BitVec w, MapsInto cmemMap → ∀ r ∈ ranges, r.kind = .persistent →
    ∀ p, configure f cmemMap r = some p → ∀ k < r.size.toNat, ∃ addr,
      p.map (r.start + BitVec.ofNat 64 k) 1 = some addr ∧
        RefersTo p.hostAddr (cmemAddr f r.start) r.size addr (physical blk r + k)

/-- The bytes of a block that go to persistent mappings, with the memory of the monitor. -/
def persistentSize (blk : Block) : ℕ :=
  if allPersistentMaxDspAddr.toNat < blk.base.toNat + blk.size.toNat then
    mpaxUserMappedDspAddr.toNat - blk.base.toNat
  else blk.size.toNat

/-- The blocks for which the addresses were designed. -/
def Supported (f : Family) (blk : Block) : Prop :=
  match f with
  | .am57 =>
    (blk.base ≤ dsp36BitAddr ∧ blk.base.toNat + blk.size.toNat ≤ 2 ^ 32 ∧
      reservedCmemSize ≤ blk.size) ∨
    (dsp36BitAddr < blk.base ∧ persistentSize blk = reservedCmemSize.toNat)
  | .other =>
    dsp36BitAddr < blk.base ∨
    (blk.base.toNat + blk.size.toNat ≤ 2 ^ 32 ∧
      (blk.base < 0x80000000#64 ∨ 0xFFFFFFFF#64 ≤ blk.base ∨ blk.size = 0))

/-! ### The split in natural numbers -/

variable {f : Family} {blk : Block}

/-- The base of the persistent range before the adjustment. -/
def dspBase (base : Word64) : ℕ :=
  if dsp36BitAddr < base then base.toNat - 0x780000000 else base.toNat

/-- The limit of the size is never reached. -/
lemma translate_eq {base size1 : Word64} (h : base < mpaxUserMappedDspAddr)
    (hsize : base.toNat + size1.toNat ≤ allPersistentMaxDspAddr.toNat) :
    (translate base size1).1.toNat = dspBase base ∧ (translate base size1).2 = size1 := by
  unfold translate dspBase
  by_cases hbase : dsp36BitAddr < base
  · have hlimit : ¬allPersistentMaxDspAddr - base < size1 := by
      simp only [mpaxUserMappedDspAddr, allPersistentMaxDspAddr] at *
      bv_omega
    rw [if_pos hbase, if_pos hbase]
    refine ⟨?_, if_neg hlimit⟩
    simp only [dsp36BitAddr, mpaxUserMappedDspAddr] at *
    bv_omega
  · rw [if_neg hbase, if_neg hbase]
    exact ⟨rfl, rfl⟩

/-- The first part ends where the second one starts. -/
lemma split_eq (h : blk.base < mpaxUserMappedDspAddr) :
    ∃ size1 : Word64, size1.toNat = persistentSize blk ∧
      blk.base.toNat + size1.toNat ≤ allPersistentMaxDspAddr.toNat ∧
      split blk.base blk.size =
        if allPersistentMaxDspAddr.toNat < blk.base.toNat + blk.size.toNat then
          (size1, mpaxUserMappedDspAddr, blk.base + blk.size - mpaxUserMappedDspAddr)
        else (size1, 0, 0) := by
  have hlt : allPersistentMaxDspAddr < blk.base + blk.size ↔
      allPersistentMaxDspAddr.toNat < blk.base.toNat + blk.size.toNat := by
    rw [BitVec.lt_def, BitVec.toNat_add, Nat.mod_eq_of_lt blk.fits]
  unfold persistentSize
  by_cases hpast : allPersistentMaxDspAddr.toNat < blk.base.toNat + blk.size.toNat
  · refine ⟨mpaxUserMappedDspAddr - blk.base, ?_, ?_, ?_⟩
    · rw [if_pos hpast]
      simp only [mpaxUserMappedDspAddr] at *
      bv_omega
    · simp only [mpaxUserMappedDspAddr, allPersistentMaxDspAddr] at *
      bv_omega
    · rw [split, if_pos (hlt.mpr hpast), if_pos hpast]
      simp only [Prod.mk.injEq, and_true]
      constructor <;> ring
  · refine ⟨blk.size, by rw [if_neg hpast], by omega, ?_⟩
    rw [split, if_neg (mt hlt.mp hpast), if_neg hpast]

/-- The second part is not empty if the block is split. -/
lemma size2_pos
    (hpast : allPersistentMaxDspAddr.toNat < blk.base.toNat + blk.size.toNat) :
    (blk.base + blk.size - mpaxUserMappedDspAddr).toNat =
      blk.base.toNat + blk.size.toNat - mpaxUserMappedDspAddr.toNat ∧
    0 < blk.base + blk.size - mpaxUserMappedDspAddr := by
  have hfits := blk.fits
  simp only [mpaxUserMappedDspAddr, allPersistentMaxDspAddr] at *
  constructor <;> bv_omega

/-- The ranges that are registered. -/
lemma cmemInit_eq (f : Family) (h : blk.base < mpaxUserMappedDspAddr) :
    ∃ addr1 size1 : Word64, addr1.toNat = dspBase blk.base ∧ size1.toNat = persistentSize blk ∧
      cmemInit f blk = some (⟨addr1 + f.cmemAdjust, size1 - f.cmemAdjust, .persistent, f.cmemAdjust⟩ ::
        if allPersistentMaxDspAddr.toNat < blk.base.toNat + blk.size.toNat then
          [⟨mpaxUserMappedDspAddr, blk.base + blk.size - mpaxUserMappedDspAddr, .onDemand, 0⟩] else []) := by
  obtain ⟨size1, hsize1, hmax, hsplit⟩ := split_eq h
  obtain ⟨haddr, hkeep⟩ := translate_eq h hmax
  refine ⟨(translate blk.base size1).1, size1, haddr, hsize1, ?_⟩
  rw [cmemInit, if_neg (BitVec.not_le.mpr h), hsplit]
  by_cases hpast : allPersistentMaxDspAddr.toNat < blk.base.toNat + blk.size.toNat
  · rw [if_pos hpast, if_pos hpast]
    dsimp only
    rw [hkeep, if_pos (size2_pos hpast).2]
  · rw [if_neg hpast, if_neg hpast]
    dsimp only
    rw [hkeep, if_neg (by decide)]

/-! ### The mapping of a range -/

/-- A byte of a mapped range has the address of the host at the same distance from the start. -/
lemma map_eq {cmemMap : Word64 → Word64 → BitVec w} {r : MemoryRange} {p : CmemMapPolicyPersistent w}
    (hw : w ≤ 64) (hend : r.start.toNat + r.size.toNat < 2 ^ 64) (hp : configure f cmemMap r = some p) {k : ℕ}
    (hk : k < r.size.toNat) :
    p.hostAddr = cmemMap (cmemAddr f r.start) r.size ∧
      p.map (r.start + BitVec.ofNat 64 k) 1 = some (p.hostAddr + BitVec.ofNat w k) := by
  unfold configure at hp
  dsimp only at hp
  split_ifs at hp with hnull
  obtain rfl := Option.some.inj hp
  refine ⟨rfl, ?_⟩
  have hin : ¬(cmemMap (cmemAddr f r.start) r.size = 0 ∨ r.start + BitVec.ofNat 64 k < r.start ∨
      r.start + r.size < r.start + BitVec.ofNat 64 k + 1) := by
    rintro (hzero | hlow | hhigh)
    · exact hnull hzero
    · bv_omega
    · bv_omega
  rw [CmemMapPolicyPersistent.map, if_neg hin]
  dsimp only
  rw [BitVec.sub_eq_add_neg, BitVec.setWidth_add _ _ hw, BitVec.setWidth_add _ _ hw,
    BitVec.setWidth_neg_of_le hw, BitVec.setWidth_setWidth_of_le _ hw,
    BitVec.setWidth_eq]
  have hcount : (BitVec.ofNat 64 k).setWidth w = BitVec.ofNat w k := by
    apply BitVec.eq_of_toNat_eq
    rw [BitVec.toNat_setWidth, BitVec.toNat_ofNat, BitVec.toNat_ofNat,
      Nat.mod_mod_of_dvd _ (Nat.pow_dvd_pow 2 hw)]
  rw [hcount]
  congr 1
  ring

/-- Bytes of a mapping have addresses of their own. -/
lemma refersTo_iff {host : BitVec w} {phys size : Word64} (hfits : host.toNat + size.toNat ≤ 2 ^ w) {k byte : ℕ}
    (hk : k < size.toNat) :
    RefersTo host phys size (host + BitVec.ofNat w k) byte ↔ byte = phys.toNat + k := by
  constructor
  · rintro ⟨j, hj, haddr, rfl⟩
    have hoff := add_left_cancel haddr
    have hnat := congrArg BitVec.toNat hoff
    rw [BitVec.toNat_ofNat, BitVec.toNat_ofNat, Nat.mod_eq_of_lt (by omega), Nat.mod_eq_of_lt (by omega)] at hnat
    omega
  · rintro rfl
    exact ⟨k, hk, rfl, rfl⟩

/-! ### The ranges that are right -/

/-- The start of the persistent range. -/
def persistentStart (f : Family) (blk : Block) : Word64 := BitVec.ofNat 64 (dspBase blk.base) + f.cmemAdjust

/-- The persistent range. -/
def persistentRange (f : Family) (blk : Block) : MemoryRange :=
  ⟨persistentStart f blk, BitVec.ofNat 64 (persistentSize blk) - f.cmemAdjust, .persistent, f.cmemAdjust⟩

/-- The range behind it. -/
def onDemandRanges (blk : Block) : List MemoryRange :=
  if allPersistentMaxDspAddr.toNat < blk.base.toNat + blk.size.toNat then
    [⟨mpaxUserMappedDspAddr, blk.base + blk.size - mpaxUserMappedDspAddr, .onDemand, 0⟩]
  else []

/-- The ranges that are registered. -/
lemma cmemInit_ranges (f : Family) (h : blk.base < mpaxUserMappedDspAddr) :
    cmemInit f blk = some (persistentRange f blk :: onDemandRanges blk) := by
  obtain ⟨addr1, size1, haddr1, hsize1, hinit⟩ := cmemInit_eq f h
  have haddr : BitVec.ofNat 64 (dspBase blk.base) = addr1 := by
    rw [← haddr1, BitVec.ofNat_toNat, BitVec.setWidth_eq]
  have hsize : BitVec.ofNat 64 (persistentSize blk) = size1 := by
    rw [← hsize1, BitVec.ofNat_toNat, BitVec.setWidth_eq]
  rw [hinit, persistentRange, persistentStart, onDemandRanges, haddr, hsize]

/-- The bounds of the numbers. -/
lemma bounds (f : Family) (h : blk.base < mpaxUserMappedDspAddr) :
    dspBase blk.base ≤ blk.base.toNat ∧ blk.base.toNat < mpaxUserMappedDspAddr.toNat ∧
      persistentSize blk ≤ blk.size.toNat ∧
      blk.base.toNat + persistentSize blk ≤ allPersistentMaxDspAddr.toNat ∧
      f.cmemAdjust.toNat ≤ reservedCmemSize.toNat := by
  have hbase := BitVec.lt_def.mp h
  have hmpax : mpaxUserMappedDspAddr.toNat = 0x840000000 := rfl
  have hlimit : allPersistentMaxDspAddr.toNat = 0x880000000 := rfl
  refine ⟨?_, hbase, ?_, ?_, by cases f <;> decide⟩
  · unfold dspBase
    split_ifs <;> omega
  · unfold persistentSize
    split_ifs <;> omega
  · unfold persistentSize
    split_ifs <;> omega

/-- The size of the persistent range does not underflow. -/
lemma persistentRange_size (f : Family) (h : blk.base < mpaxUserMappedDspAddr) :
    f.cmemAdjust.toNat + (persistentRange f blk).size.toNat ≤ blk.size.toNat ↔
      f.cmemAdjust.toNat ≤ persistentSize blk := by
  obtain ⟨-, -, hsize, -, hadjust⟩ := bounds f h
  have hlt := blk.size.isLt
  have hreserved : reservedCmemSize.toNat = 0x02000000 := rfl
  have hval : (persistentRange f blk).size.toNat =
      (2 ^ 64 - f.cmemAdjust.toNat + persistentSize blk) % 2 ^ 64 := by
    rw [persistentRange, BitVec.toNat_sub, BitVec.toNat_ofNat, Nat.mod_eq_of_lt (a := persistentSize blk) (by omega)]
  rw [hval]
  omega

/-- The values of the persistent range, if its size does not underflow. -/
lemma persistentRange_toNat (f : Family) (h : blk.base < mpaxUserMappedDspAddr)
    (hsize : f.cmemAdjust.toNat ≤ persistentSize blk) :
    (persistentRange f blk).start.toNat = dspBase blk.base + f.cmemAdjust.toNat ∧
      (persistentRange f blk).size.toNat = persistentSize blk - f.cmemAdjust.toNat := by
  obtain ⟨hbase, hmpax, hpsize, -, hadjust⟩ := bounds f h
  have hlt := blk.size.isLt
  have hreserved : reservedCmemSize.toNat = 0x02000000 := rfl
  have hlimit : mpaxUserMappedDspAddr.toNat = 0x840000000 := rfl
  constructor
  · rw [persistentRange, persistentStart, BitVec.toNat_add, BitVec.toNat_ofNat]
    omega
  · rw [persistentRange, BitVec.toNat_sub, BitVec.toNat_ofNat]
    omega

/-- The physical address that is mapped is the one that the range stands for, or the range is where the
addresses of 32 bits are. -/
lemma cmemAddr_cases (f : Family) (h : blk.base < mpaxUserMappedDspAddr) :
    (cmemAddr f (persistentStart f blk)).toNat = blk.base.toNat + f.cmemAdjust.toNat ∨
      0x80000000 ≤ dspBase blk.base := by
  by_cases hbase : dsp36BitAddr < blk.base
  · right
    unfold dspBase
    rw [if_pos hbase]
    simp only [dsp36BitAddr] at hbase
    bv_omega
  · have hsame : dspBase blk.base = blk.base.toNat := if_neg hbase
    by_cases hlow : 0x80000000 ≤ dspBase blk.base
    · exact Or.inr hlow
    · left
      have hstart : persistentStart f blk = blk.base + f.cmemAdjust := by
        rw [persistentStart, hsame, BitVec.ofNat_toNat, BitVec.setWidth_eq]
      have hadjust : (blk.base + f.cmemAdjust).toNat = blk.base.toNat + f.cmemAdjust.toNat := by
        obtain ⟨-, hmpax, -, -, hle⟩ := bounds f h
        have hreserved : reservedCmemSize.toNat = 0x02000000 := rfl
        have hlimit : mpaxUserMappedDspAddr.toNat = 0x840000000 := rfl
        rw [BitVec.toNat_add, Nat.mod_eq_of_lt (by omega)]
      rw [hstart, cmemAddr, if_neg, hadjust]
      rintro ⟨rfl, hge, -⟩
      rw [BitVec.le_def, hadjust] at hge
      have hzero : Family.other.cmemAdjust.toNat = 0 := rfl
      have hnum : (0x80000000#64).toNat = 0x80000000 := rfl
      omega

/-- The ranges are right if and only if the memory of the monitor fits, the addresses have 32 bits and the
physical address that is mapped is right, or nothing is left to map. -/
theorem rangesOk_iff (hw : 32 ≤ w) (hw' : w ≤ 64) (f : Family) (h : blk.base < mpaxUserMappedDspAddr) :
    RangesOk w f blk (persistentRange f blk :: onDemandRanges blk) ↔
      f.cmemAdjust.toNat ≤ persistentSize blk ∧ dspBase blk.base + persistentSize blk ≤ 2 ^ 32 ∧
        (persistentSize blk = f.cmemAdjust.toNat ∨
          (cmemAddr f (persistentStart f blk)).toNat = blk.base.toNat + f.cmemAdjust.toNat) := by
  have hmem : persistentRange f blk ∈ persistentRange f blk :: onDemandRanges blk := List.mem_cons_self
  constructor
  · intro hok
    have hsize := (persistentRange_size f h).mp (hok.size _ hmem)
    obtain ⟨hstart, hlen⟩ := persistentRange_toNat f h hsize
    have hend := hok.addressable _ hmem rfl
    rw [hstart, hlen] at hend
    refine ⟨hsize, by omega, ?_⟩
    by_contra hwrong
    obtain ⟨hempty, haddr⟩ := not_or.mp hwrong
    -- The range is small, so it can be mapped; its first byte goes to another physical one.
    have hhigh := (cmemAddr_cases f h).resolve_left haddr
    have hpow : 2 ^ 32 ≤ 2 ^ w := Nat.pow_le_pow_right (by decide) hw
    have hone : (1#w).toNat = 1 := by
      rw [BitVec.toNat_ofNat, Nat.mod_eq_of_lt (by omega)]
    have hmaps : MapsInto fun _ size : Word64 => if size.toNat + 1 ≤ 2 ^ w then 1#w else 0#w := by
      intro phys size hne
      by_cases hroom : size.toNat + 1 ≤ 2 ^ w
      · dsimp only
        rw [if_pos hroom, hone]
        omega
      · exact absurd (if_neg hroom) hne
    have hroom : (persistentRange f blk).size.toNat + 1 ≤ 2 ^ w := by rw [hlen]; omega
    have hconfigure : configure f (fun _ size : Word64 => if size.toNat + 1 ≤ 2 ^ w then 1#w else 0#w)
        (persistentRange f blk) = some ⟨(persistentRange f blk).start, (persistentRange f blk).size, 1#w,
          (1#w).setWidth 64 - (persistentRange f blk).start⟩ := by
      have hnonzero : (1#w : BitVec w) ≠ 0 := fun hzero => by
        have hcast := congrArg BitVec.toNat hzero
        rw [hone] at hcast
        simp at hcast
      simp only [configure, if_pos hroom, if_neg hnonzero]
    obtain ⟨addr, hmap, hrefers⟩ := hok.mapped _ hmaps _ hmem rfl _ hconfigure 0 (by rw [hlen]; omega)
    have hspec := (map_eq hw' (by rw [hstart, hlen]; omega) hconfigure (k := 0) (by rw [hlen]; omega)).2
    obtain rfl := Option.some.inj (hspec.symm.trans hmap)
    rw [refersTo_iff (by dsimp only; omega) (by rw [hlen]; omega)] at hrefers
    exact haddr hrefers.symm
  · rintro ⟨hsize, hend, hmapped⟩
    obtain ⟨hstart, hlen⟩ := persistentRange_toNat f h hsize
    obtain ⟨hbase, hmpax, hpsize, hmax, hadjust⟩ := bounds f h
    have hphysical : physical blk (persistentRange f blk) = blk.base.toNat + f.cmemAdjust.toNat := rfl
    have honDemand : ∀ r ∈ onDemandRanges blk, r.kind = .onDemand ∧ r.startAdjust.toNat = 0 ∧
        physical blk r = blk.base.toNat + persistentSize blk ∧
        physical blk r + r.size.toNat = blk.base.toNat + blk.size.toNat := by
      intro r hr
      unfold onDemandRanges at hr
      split_ifs at hr with hpast
      · obtain rfl := List.mem_singleton.mp hr
        have hlimit : allPersistentMaxDspAddr.toNat = 0x880000000 := rfl
        have hnum : mpaxUserMappedDspAddr.toNat = 0x840000000 := rfl
        refine ⟨rfl, rfl, ?_, ?_⟩
        · rw [persistentSize, if_pos hpast]
          show mpaxUserMappedDspAddr.toNat = _
          omega
        · show mpaxUserMappedDspAddr.toNat + (blk.base + blk.size - mpaxUserMappedDspAddr).toNat = _
          rw [(size2_pos hpast).1]
          omega
      · exact absurd hr List.not_mem_nil
    refine ⟨fun r hr => ?_, fun r hr => ?_, List.pairwise_cons.mpr ⟨fun r hr => Or.inl ?_, ?_⟩,
      fun r hr hkind => ?_, fun cmemMap hmaps r hr hkind p hp k hk => ?_⟩
    · rcases List.mem_cons.mp hr with rfl | hrest
      · exact (persistentRange_size f h).mpr hsize
      · obtain ⟨-, hzero, hphys, hlast⟩ := honDemand r hrest
        omega
    · rcases List.mem_cons.mp hr with rfl | hrest
      · rw [hphysical, hlen]
        omega
      · obtain ⟨-, -, hphys, hlast⟩ := honDemand r hrest
        omega
    · obtain ⟨-, -, hphys, -⟩ := honDemand r hr
      rw [hphysical, hlen, hphys]
      omega
    · unfold onDemandRanges
      split_ifs
      · exact List.pairwise_singleton _ _
      · exact List.Pairwise.nil
    · rcases List.mem_cons.mp hr with rfl | hrest
      · rw [hstart, hlen]
        omega
      · rw [(honDemand r hrest).1] at hkind
        cases hkind
    · rcases List.mem_cons.mp hr with rfl | hrest
      · have hright := hmapped.resolve_left (by omega)
        obtain ⟨hhost, hmap⟩ := map_eq hw' (by rw [hstart, hlen]; omega) hp hk
        have hfits : p.hostAddr.toNat + (persistentRange f blk).size.toNat ≤ 2 ^ w := by
          rw [hhost]
          refine hmaps _ _ fun hzero => ?_
          simp [configure, hzero] at hp
        refine ⟨_, hmap, (refersTo_iff hfits hk).mpr ?_⟩
        rw [hphysical, ← hright]
        rfl
      · rw [(honDemand r hrest).1] at hkind
        cases hkind

/-! ### The blocks that are supported -/

/-- `cmem_init` and the mapping do what they should for a block. -/
def Correct (w : ℕ) (f : Family) (blk : Block) : Prop :=
  ∃ ranges, cmemInit f blk = some ranges ∧ RangesOk w f blk ranges

/-- The physical address that is mapped on the other devices. -/
lemma cmemAddr_other {dspAddr : Word64} (h : dspAddr.toNat < 0x900000000) :
    (cmemAddr .other dspAddr).toNat =
      if 0x80000000 ≤ dspAddr.toNat ∧ dspAddr.toNat < 0xFFFFFFFF then dspAddr.toNat + 0x780000000
      else dspAddr.toNat := by
  by_cases hrange : 0x80000000 ≤ dspAddr.toNat ∧ dspAddr.toNat < 0xFFFFFFFF
  · rw [cmemAddr, if_pos ⟨rfl, by bv_omega, by bv_omega⟩, if_pos hrange]
    bv_omega
  · rw [cmemAddr, if_neg, if_neg hrange]
    rintro ⟨-, hge, hlt⟩
    exact hrange ⟨by bv_omega, by bv_omega⟩

/-- The conditions of `rangesOk_iff` for AM57, where the physical address is the one of the range. -/
lemma supported_am57 (h : blk.base < mpaxUserMappedDspAddr) :
    (Family.am57.cmemAdjust.toNat ≤ persistentSize blk ∧ dspBase blk.base + persistentSize blk ≤ 2 ^ 32 ∧
      (persistentSize blk = Family.am57.cmemAdjust.toNat ∨
        (cmemAddr .am57 (persistentStart .am57 blk)).toNat = blk.base.toNat + Family.am57.cmemAdjust.toNat)) ↔
      Supported .am57 blk := by
  obtain ⟨hbase, hmpax, -, hmax, -⟩ := bounds .am57 h
  have hadjust : Family.am57.cmemAdjust.toNat = 0x02000000 := rfl
  have hreserved : reservedCmemSize.toNat = 0x02000000 := rfl
  have hnum : mpaxUserMappedDspAddr.toNat = 0x840000000 := rfl
  have hlimit : allPersistentMaxDspAddr.toNat = 0x880000000 := rfl
  have hdsp : dsp36BitAddr.toNat = 0x800000000 := rfl
  have hstart : (cmemAddr .am57 (persistentStart .am57 blk)).toNat =
      dspBase blk.base + Family.am57.cmemAdjust.toNat := by
    rw [cmemAddr, if_neg (by rintro ⟨hfamily, -⟩; cases hfamily), persistentStart, BitVec.toNat_add,
      BitVec.toNat_ofNat]
    omega
  rw [hstart, Supported, BitVec.le_def, BitVec.le_def, BitVec.lt_def]
  by_cases hhigh : dsp36BitAddr < blk.base
  · have hlow : dspBase blk.base = blk.base.toNat - 0x780000000 := if_pos hhigh
    rw [BitVec.lt_def] at hhigh
    omega
  · have hlow : dspBase blk.base = blk.base.toNat := if_neg hhigh
    rw [BitVec.lt_def] at hhigh
    unfold persistentSize
    split_ifs <;> omega

/-- The conditions of `rangesOk_iff` for the other devices. -/
lemma supported_other (h : blk.base < mpaxUserMappedDspAddr) :
    (Family.other.cmemAdjust.toNat ≤ persistentSize blk ∧ dspBase blk.base + persistentSize blk ≤ 2 ^ 32 ∧
      (persistentSize blk = Family.other.cmemAdjust.toNat ∨
        (cmemAddr .other (persistentStart .other blk)).toNat =
          blk.base.toNat + Family.other.cmemAdjust.toNat)) ↔
      Supported .other blk := by
  obtain ⟨hbase, hmpax, -, hmax, -⟩ := bounds .other h
  have hadjust : Family.other.cmemAdjust.toNat = 0 := rfl
  have hnum : mpaxUserMappedDspAddr.toNat = 0x840000000 := rfl
  have hlimit : allPersistentMaxDspAddr.toNat = 0x880000000 := rfl
  have hdsp : dsp36BitAddr.toNat = 0x800000000 := rfl
  have hlow : (0x80000000#64).toNat = 0x80000000 := rfl
  have hend : (0xFFFFFFFF#64).toNat = 0xFFFFFFFF := rfl
  have hempty : blk.size = 0 ↔ blk.size.toNat = 0 := (BitVec.toNat_inj (y := (0 : Word64))).symm
  have hstart : (persistentStart .other blk).toNat = dspBase blk.base := by
    rw [persistentStart, BitVec.toNat_add, BitVec.toNat_ofNat]
    omega
  rw [cmemAddr_other (by omega), hstart, Supported, BitVec.lt_def, BitVec.lt_def, BitVec.le_def, hempty]
  by_cases hhigh : dsp36BitAddr < blk.base
  · have hsame : dspBase blk.base = blk.base.toNat - 0x780000000 := if_pos hhigh
    rw [BitVec.lt_def] at hhigh
    split_ifs <;> omega
  · have hsame : dspBase blk.base = blk.base.toNat := if_neg hhigh
    rw [BitVec.lt_def] at hhigh
    unfold persistentSize
    split_ifs <;> omega

/-- A block that is not rejected is split and mapped right if and only if it is one for which the addresses
were designed. -/
theorem correct_iff {w : ℕ} (hw : 32 ≤ w) (hw' : w ≤ 64) (f : Family) {blk : Block}
    (h : blk.base < mpaxUserMappedDspAddr) : Correct w f blk ↔ Supported f blk := by
  have hcorrect : Correct w f blk ↔ RangesOk w f blk (persistentRange f blk :: onDemandRanges blk) := by
    rw [Correct, cmemInit_ranges f h]
    simp
  rw [hcorrect, rangesOk_iff hw hw' f h]
  cases f with
  | am57 => exact supported_am57 h
  | other => exact supported_other h

/-- The memory of AM57 fits. -/
lemma am57Block_fits : (0xA0000000#64).toNat + (0x10000000#64).toNat < 2 ^ 64 := by decide

/-- The CMEM block of AM57. -/
def am57Block : Block := ⟨0xA0000000#64, 0x10000000#64, am57Block_fits⟩

/-- The block is below the addresses that MPAX maps for users. -/
lemma am57Block_base : am57Block.base < mpaxUserMappedDspAddr := by decide

/-- The CMEM block of AM57 is supported. -/
theorem correct_am57 : Correct 32 .am57 am57Block :=
  (correct_iff (by decide) (by decide) .am57 am57Block_base).mpr
    (Or.inl ⟨by decide, by decide, by decide⟩)

/-- The memory at the 36-bit base fits. -/
lemma lowBlock_fits : (0x800000000#64).toNat + (0x20000000#64).toNat < 2 ^ 64 := by decide

/-- A block that starts at the 36-bit base. -/
def lowBlock : Block := ⟨0x800000000#64, 0x20000000#64, lowBlock_fits⟩

/-- A block that starts at the 36-bit base is registered with addresses of 36 bits. -/
theorem not_correct :
    ¬∀ (f : Family) (blk : Block), blk.base < mpaxUserMappedDspAddr → Correct 32 f blk := by
  intro h
  obtain ⟨ranges, hinit, hok⟩ := h .other lowBlock (by decide)
  have hranges : cmemInit .other lowBlock = some [⟨0x800000000#64, 0x20000000#64, .persistent, 0⟩] := by decide
  obtain rfl := Option.some.inj (hranges.symm.trans hinit)
  have hend := hok.addressable _ List.mem_cons_self rfl
  exact absurd hend (by decide)

end Cmem

end TiOpenCL
