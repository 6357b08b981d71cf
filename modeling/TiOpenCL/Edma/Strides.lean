import TiOpenCL.Edma.Channels

/-!
# Strided copies by the engine and by the processor

`__copy_1D2D` and `__copy_2D1D` compare the pitch with the limit of the engine's stride field, but the
engine is given the number of bytes times the pitch, and keeps 16 bits of it.  Whether a channel is
available makes no difference exactly if there is nothing to copy, if there is one line at most, if the
pitch is too large for the engine to be asked at all, or if the product fits the field
(`pathsAgree_iff`).
-/

namespace TiOpenCL

namespace Edma

open LineCopies

variable {n : ℕ} {Handle : Type}

/-! ### What a copy does to the memories -/

namespace Core

variable {s : Core n Handle} {event : Option (EventPtr n)} {warranted : Bool} {answer : Option Handle}
  {edma : Option Handle → Call Handle} {memcpy : Core n Handle → Core n Handle}

/-- Taking a channel does nothing to the memories. -/
@[simp] lemma getEdmaChannel_contents : (s.getEdmaChannel answer).1.contents = s.contents := by
  unfold getEdmaChannel
  split
  · rfl
  · split
    · rfl
    · split_ifs <;> rfl

/-- The first part of a copy does nothing to the memories. -/
lemma acquire_contents : (s.acquire event warranted answer).1.contents = s.contents := by
  unfold acquire
  split
  · rfl
  · cases warranted with
    | false => rfl
    | true => exact getEdmaChannel_contents

variable (s event warranted edma memcpy answer) in
/-- A copy is made by the processor, or by the engine if it is warranted. -/
lemma copyWith_contents (f : Contents → Contents) (hf : ∀ t, (memcpy t).contents = f t.contents) :
    (s.copyWith event warranted edma memcpy answer).1.contents = f s.contents ∨
      warranted = true ∧
        ∃ h, (s.copyWith event warranted edma memcpy answer).1.contents = (edma h).contents s.contents := by
  have hkeep : (s.acquire event warranted answer).1.contents = s.contents := acquire_contents
  unfold copyWith
  generalize s.acquire event warranted answer = r at hkeep
  obtain ⟨t, e⟩ := r
  rw [← hkeep]
  cases e with
  | none => exact Or.inl (hf t)
  | some e =>
    cases warranted with
    | false => exact Or.inl (hf t)
    | true => exact Or.inr ⟨rfl, t.channel e, rfl⟩

end Core

/-! ### The stride of the engine -/

/-- The engine keeps a stride if and only if it fits 16 bits with a sign. -/
lemma enginePitch_eq_iff {pitch : BitVec 32} :
    enginePitch pitch = pitch ↔ -32768 ≤ pitch.toInt ∧ pitch.toInt ≤ 32767 := by
  have hint : (enginePitch pitch).toInt = pitch.toInt.bmod (2 ^ 16) := by
    rw [enginePitch, BitVec.toInt_signExtend_of_le (by decide), BitVec.toInt_setWidth]
    rw [BitVec.toInt_eq_toNat_bmod, Int.bmod_bmod_of_dvd (by decide)]
  rw [← BitVec.toInt_inj, hint]
  constructor
  · intro h
    have hle := Int.le_bmod (x := pitch.toInt) (m := 2 ^ 16) (by decide)
    have hlt := Int.bmod_lt (x := pitch.toInt) (m := 2 ^ 16) (by decide)
    rw [h] at hle hlt
    omega
  · rintro ⟨hlow, hhigh⟩
    exact Int.bmod_eq_of_le (by omega) (by omega)

/-! ### The two paths -/

/-- The memories after `__copy_1D2D` from the memory of the core to the shared memory do not depend on the
event and the channels. -/
def Agree1D2D (n : ℕ) (Handle : Type) (bytes numLines pitch : BitVec 32) : Prop :=
  ∀ (s t : Core n Handle) (e f : Option (EventPtr n)) (a b : Option Handle) (dst src : BitVec 32),
    s.contents = t.contents →
      (s.copy1D2D e ⟨.globalMem, dst⟩ ⟨.localMem, src⟩ bytes numLines pitch a).1.contents =
        (t.copy1D2D f ⟨.globalMem, dst⟩ ⟨.localMem, src⟩ bytes numLines pitch b).1.contents

/-- The memories after `__copy_2D1D` from the shared memory to the memory of the core do not depend on the
event and the channels. -/
def Agree2D1D (n : ℕ) (Handle : Type) (bytes numLines pitch : BitVec 32) : Prop :=
  ∀ (s t : Core n Handle) (e f : Option (EventPtr n)) (a b : Option Handle) (dst src : BitVec 32),
    s.contents = t.contents →
      (s.copy2D1D e ⟨.localMem, dst⟩ ⟨.globalMem, src⟩ bytes numLines pitch a).1.contents =
        (t.copy2D1D f ⟨.localMem, dst⟩ ⟨.globalMem, src⟩ bytes numLines pitch b).1.contents

/-- Both copies produce the same memory contents whether or not a channel is available. -/
def PathsAgree (n : ℕ) (Handle : Type) (bytes numLines pitch : BitVec 32) : Prop :=
  Agree1D2D n Handle bytes numLines pitch ∧ Agree2D1D n Handle bytes numLines pitch

/-- Nothing to copy, at most one line, a pitch for which the engine is not asked, or a stride that its
field holds. -/
def StrideFits (bytes numLines pitch : BitVec 32) : Prop :=
  bytes = 0 ∨ numLines.toNat ≤ 1 ∨ edmaPitchLimit ≤ pitch.toInt ∨
    (-32768 ≤ (bytes * pitch).toInt ∧ (bytes * pitch).toInt ≤ 32767)

instance (bytes numLines pitch : BitVec 32) : Decidable (StrideFits bytes numLines pitch) :=
  inferInstanceAs (Decidable (_ ∨ _ ∨ _ ∨ _ ∧ _))

variable {bytes numLines pitch : BitVec 32}

/-- A copy whose stride fits is the same by the engine, if the engine is asked. -/
lemma StrideFits.copyLines_eq (h : StrideFits bytes numLines pitch) (hlt : pitch.toInt < edmaPitchLimit)
    {m : Contents} {dst src : Address} :
    (copyLines m dst src bytes.toNat (enginePitch (bytes * pitch)) bytes numLines.toNat =
      copyLines m dst src bytes.toNat (bytes * pitch) bytes numLines.toNat) ∧
    (copyLines m dst src bytes.toNat bytes (enginePitch (bytes * pitch)) numLines.toNat =
      copyLines m dst src bytes.toNat bytes (bytes * pitch) numLines.toNat) := by
  rcases h with rfl | hone | hlimit | hfits
  · constructor <;> exact (copyLines_zero_bytes _).trans (copyLines_zero_bytes _).symm
  · exact ⟨copyLines_le_one hone _ _, copyLines_le_one hone _ _⟩
  · omega
  · rw [enginePitch_eq_iff.mpr hfits]
    exact ⟨rfl, rfl⟩

/-- The contents after a copy whose stride fits, on both paths. -/
lemma StrideFits.contents_eq (h : StrideFits bytes numLines pitch) (s : Core n Handle)
    (e : Option (EventPtr n)) (a : Option Handle) (dst src : Address) :
    (s.copy1D2D e dst src bytes numLines pitch a).1.contents =
      copyLines s.contents dst src bytes.toNat (bytes * pitch) bytes numLines.toNat ∧
    (s.copy2D1D e dst src bytes numLines pitch a).1.contents =
      copyLines s.contents dst src bytes.toNat bytes (bytes * pitch) numLines.toNat := by
  constructor
  · rcases s.copyWith_contents e (decide (pitch.toInt < edmaPitchLimit)) a
        (fun h => .copy1D2D h src dst bytes numLines (bytes * pitch))
        (fun s => s.memcpyLines dst src bytes numLines (bytes * pitch) bytes)
        (fun m => copyLines m dst src bytes.toNat (bytes * pitch) bytes numLines.toNat)
        (fun _ => rfl) with hcpu | ⟨hlt, _, hedma⟩
    · exact hcpu
    · exact hedma.trans (h.copyLines_eq (of_decide_eq_true hlt)).1
  · rcases s.copyWith_contents e (decide (pitch.toInt < edmaPitchLimit)) a
        (fun h => .copy2D1D h src dst bytes numLines (bytes * pitch))
        (fun s => s.memcpyLines dst src bytes numLines bytes (bytes * pitch))
        (fun m => copyLines m dst src bytes.toNat bytes (bytes * pitch) numLines.toNat)
        (fun _ => rfl) with hcpu | ⟨hlt, _, hedma⟩
    · exact hcpu
    · exact hedma.trans (h.copyLines_eq (of_decide_eq_true hlt)).2

/-- Copies whose stride fits do not depend on the channels. -/
lemma StrideFits.pathsAgree (h : StrideFits bytes numLines pitch) : PathsAgree n Handle bytes numLines pitch := by
  constructor
  · intro s t e f a b dst src hst
    rw [(h.contents_eq s e a _ _).1, (h.contents_eq t f b _ _).1, hst]
  · intro s t e f a b dst src hst
    rw [(h.contents_eq s e a _ _).2, (h.contents_eq t f b _ _).2, hst]

/-! ### A stride that does not fit -/

/-- A core without channels. -/
def withoutChannels (n : ℕ) (Handle : Type) (m : Contents) : Core n Handle :=
  ⟨fun _ => ⟨.notAllocated, none⟩, none, [], [], m⟩

/-- A core with one channel, which is available. -/
def withChannel [NeZero n] (h : Handle) (m : Contents) : Core n Handle :=
  ⟨fun i => if i = 0 then ⟨.available, some h⟩ else ⟨.notAllocated, none⟩, some 0, [], [.alloc (some h)], m⟩

/-- Without channels a copy is made by the processor. -/
lemma withoutChannels_acquire (n : ℕ) [NeZero n] (Handle : Type) (m : Contents) :
    ∃ t, (withoutChannels n Handle m).acquire none true none = (t, none) ∧ t.contents = m := by
  have hfind : (withoutChannels n Handle m).findSlot = some 0 := by
    rw [Core.findSlot, List.find?_eq_some_iff_append]
    refine ⟨by simp [withoutChannels], [], (List.finRange n).tail, ?_, by simp⟩
    obtain ⟨k, rfl⟩ := Nat.exists_eq_succ_of_ne_zero (NeZero.ne n)
    rw [List.finRange_succ]
    rfl
  refine ⟨((withoutChannels n Handle m).getEdmaChannel none).1, ?_, Core.getEdmaChannel_contents⟩
  have hnone : ((withoutChannels n Handle m).getEdmaChannel none).2 = none := by
    simp only [Core.getEdmaChannel, hfind]
    rfl
  simp only [Core.acquire, Option.filter_none, if_true, hnone, Option.map_none]

/-- The paths are told apart if the engine is asked. -/
lemma Agree2D1D.copyLines_eq [NeZero n] [Inhabited Handle] (h : Agree2D1D n Handle bytes numLines pitch)
    (hlt : pitch.toInt < edmaPitchLimit) (m : Contents) :
    copyLines m ⟨.localMem, 0⟩ ⟨.globalMem, 0⟩ bytes.toNat bytes (enginePitch (bytes * pitch)) numLines.toNat =
      copyLines m ⟨.localMem, 0⟩ ⟨.globalMem, 0⟩ bytes.toNat bytes (bytes * pitch) numLines.toNat := by
  obtain ⟨t, ht, hcontents⟩ := withoutChannels_acquire n Handle m
  have hboth := h (withChannel default m) (withoutChannels n Handle m) none none none none 0 0 rfl
  simp only [Core.copy2D1D, Core.copyWith, decide_eq_true hlt, ht] at hboth
  have hpaths : copyLines m ⟨.localMem, 0⟩ ⟨.globalMem, 0⟩ bytes.toNat bytes (enginePitch (bytes * pitch)) numLines.toNat =
      copyLines t.contents ⟨.localMem, 0⟩ ⟨.globalMem, 0⟩ bytes.toNat bytes (bytes * pitch) numLines.toNat := hboth
  rw [hpaths, hcontents]

/-- The paths are told apart if the engine is asked. -/
lemma Agree1D2D.copyLines_eq [NeZero n] [Inhabited Handle] (h : Agree1D2D n Handle bytes numLines pitch)
    (hlt : pitch.toInt < edmaPitchLimit) (m : Contents) :
    copyLines m ⟨.globalMem, 0⟩ ⟨.localMem, 0⟩ bytes.toNat (enginePitch (bytes * pitch)) bytes numLines.toNat =
      copyLines m ⟨.globalMem, 0⟩ ⟨.localMem, 0⟩ bytes.toNat (bytes * pitch) bytes numLines.toNat := by
  obtain ⟨t, ht, hcontents⟩ := withoutChannels_acquire n Handle m
  have hboth := h (withChannel default m) (withoutChannels n Handle m) none none none none 0 0 rfl
  simp only [Core.copy1D2D, Core.copyWith, decide_eq_true hlt, ht] at hboth
  have hpaths : copyLines m ⟨.globalMem, 0⟩ ⟨.localMem, 0⟩ bytes.toNat (enginePitch (bytes * pitch)) bytes numLines.toNat =
      copyLines t.contents ⟨.globalMem, 0⟩ ⟨.localMem, 0⟩ bytes.toNat (bytes * pitch) bytes numLines.toNat := hboth
  rw [hpaths, hcontents]

/-- A stride that tells apart what the engine and the processor do does not fit. -/
lemma strideFits_of_eq (h : 0 < bytes.toNat → 2 ≤ numLines.toNat → pitch.toInt < edmaPitchLimit →
    enginePitch (bytes * pitch) = bytes * pitch) : StrideFits bytes numLines pitch := by
  by_contra hnot
  simp only [StrideFits, not_or] at hnot
  obtain ⟨hbytes, hlines, hpitch, hfits⟩ := hnot
  have hpos : bytes.toNat ≠ 0 := fun h0 => hbytes (BitVec.eq_of_toNat_eq (by simpa using h0))
  exact hfits (enginePitch_eq_iff.mp (h (by omega) (by omega) (by omega)))

/-- `__copy_2D1D` does not depend on the channels if and only if the stride fits. -/
theorem agree2D1D_iff [NeZero n] [Inhabited Handle] :
    Agree2D1D n Handle bytes numLines pitch ↔ StrideFits bytes numLines pitch := by
  refine ⟨fun h => strideFits_of_eq fun hpos hlines hpitch => ?_, fun h => h.pathsAgree.2⟩
  have hbyte : Nontrivial (BitVec 8) := ⟨0, 1, by decide⟩
  have hne : (⟨.globalMem, 0⟩ : Address).space ≠ (⟨.localMem, 0⟩ : Address).space := by decide
  refine stride_eq_of_gather (β := BitVec 8) hne hpos bytes.isLt hlines fun m => ?_
  rw [BitVec.ofNat_toNat, BitVec.setWidth_eq]
  exact h.copyLines_eq hpitch m

/-- `__copy_1D2D` does not depend on the channels if and only if the stride fits, for a packed side that
the address space has room for. -/
theorem agree1D2D_iff [NeZero n] [Inhabited Handle] (hroom : numLines.toNat * bytes.toNat ≤ 2 ^ 32) :
    Agree1D2D n Handle bytes numLines pitch ↔ StrideFits bytes numLines pitch := by
  refine ⟨fun h => strideFits_of_eq fun hpos hlines hpitch => ?_, fun h => h.pathsAgree.1⟩
  have hbyte : Nontrivial (BitVec 8) := ⟨0, 1, by decide⟩
  have hne : (⟨.localMem, 0⟩ : Address).space ≠ (⟨.globalMem, 0⟩ : Address).space := by decide
  refine stride_eq_of_scatter (β := BitVec 8) hne hpos bytes.isLt hlines hroom fun m => ?_
  rw [BitVec.ofNat_toNat, BitVec.setWidth_eq]
  exact h.copyLines_eq hpitch m

/-- Both copies do not depend on the channels if and only if the stride fits. -/
theorem pathsAgree_iff (n : ℕ) [NeZero n] (Handle : Type) [Inhabited Handle]
    (bytes numLines pitch : BitVec 32) :
    PathsAgree n Handle bytes numLines pitch ↔ StrideFits bytes numLines pitch :=
  ⟨fun h => agree2D1D_iff.mp h.2, fun h => h.pathsAgree⟩

/-- Lines of 4 bytes, 100 elements apart. -/
theorem pathsAgree_hundred : PathsAgree 16 ℕ 4#32 8#32 100#32 :=
  (pathsAgree_iff 16 ℕ 4#32 8#32 100#32).mpr (by decide)

/-- Two lines of 16 bytes that are 4096 elements apart: the engine is given a stride of zero. -/
theorem not_pathsAgree : ¬∀ bytes numLines pitch, PathsAgree 16 ℕ bytes numLines pitch := by
  intro h
  have hstrided : Agree2D1D 16 ℕ 16#32 2#32 4096#32 := (h 16#32 2#32 4096#32).2
  exact absurd (agree2D1D_iff.mp hstrided) (by decide)

end Edma

end TiOpenCL
