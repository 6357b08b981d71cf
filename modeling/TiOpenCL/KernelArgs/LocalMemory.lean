import Mathlib.Algebra.Order.BigOperators.Group.List
import TiOpenCL.KernelArgs.Layout

/-!
# Local memory of a kernel

The local memory of a core holds, behind a section of the program, the static local buffers of the
kernel, the local buffers that are arguments, the area of `alloca` if there is room, and the scratch
area.  A cursor and a remaining size are passed on in 32 bit arithmetic.  The size of the `alloca` area
is set to zero before the cursor is moved by it, so that the scratch area always overlaps an `alloca`
area in local memory.
-/

namespace TiOpenCL

namespace LocalMemory

open KernelArgs

/-- Some bytes of memory. -/
structure Region where
  /-- The first byte. -/
  start : ℕ
  /-- The number of bytes. -/
  size : ℕ
  deriving DecidableEq

/-- No byte belongs to both regions. -/
def Region.Disjoint (r t : Region) : Prop :=
  ∀ x, ¬ (r.start ≤ x ∧ x < r.start + r.size ∧ t.start ≤ x ∧ x < t.start + t.size)

/-- The local memory of a core; it ends a block before the address space does. -/
structure L2Extent where
  /-- The first byte. -/
  start : ℕ
  /-- The number of bytes. -/
  size : ℕ
  /-- The memory is in the address space. -/
  fits : start + size + 128 ≤ 2 ^ 32

/-- A region is in local memory. -/
def Region.Inside (r : Region) (l2 : L2Extent) : Prop :=
  l2.start ≤ r.start ∧ r.start + r.size ≤ l2.start + l2.size

/-- The section `.mem_l2` of a program. -/
structure Section where
  /-- The first byte. -/
  addr : ℕ
  /-- The number of bytes. -/
  size : ℕ
  /-- The section is in the address space. -/
  fits : addr + size < 2 ^ 32

/-- What the layout of local memory depends on. -/
structure Request where
  /-- The local memory. -/
  l2 : L2Extent
  /-- The section of the program. -/
  memL2 : Section
  /-- Is the program one of built-in kernels? -/
  builtIn : Bool
  /-- The attribute `_kernel_local_size`. -/
  kernelLocalSize : Fin (2 ^ 32)
  /-- The sizes of the local buffers that are arguments. -/
  localBufs : List ℕ
  /-- The size of the `alloca` area of a work item. -/
  wiAllocaSize : ℕ
  /-- The size of a work group. -/
  localSize : ℕ × ℕ × ℕ
  /-- The number of cores. -/
  dspCores : ℕ
  /-- `AllocateMSMC`; zero is a failure. -/
  allocateMSMC : ℕ → ℕ
  /-- `AllocateGlobal`. -/
  allocateGlobal : ℕ → ℕ

/-- Where the `alloca` area is. -/
inductive Alloca
  /-- The kernel has none. -/
  | none
  /-- In local memory. -/
  | inL2 (region : Region)
  /-- In shared memory, with the number of bytes that are allocated. -/
  | shared (start chipAllocaSize : ℕ)
  deriving DecidableEq

/-- The regions that are handed to a kernel. -/
structure Layout where
  /-- The static local buffers. -/
  static : Region
  /-- The local buffers that are arguments. -/
  locals : List Region
  /-- The `alloca` area. -/
  alloca : Alloca
  /-- The scratch area. -/
  scratch : Region
  deriving DecidableEq

/-- The errors. -/
inductive Error
  | memObjectAllocationFailure
  | outOfResources
  deriving DecidableEq

/-! ### The layout -/

/-- The size of the static local buffers. -/
def Request.staticSize (r : Request) : ℕ := if r.builtIn then r.memL2.size else r.kernelLocalSize

/-- `locals_in_kernel_extent`. -/
def localsInKernelExtent (r : Request) : ℕ × ℕ :=
  (wadd 32 r.memL2.addr r.memL2.size, roundup r.staticSize 128)

/-- The loop of `allocate_and_assign_local_buffers`. -/
def assignLocalBuffers :
    List ℕ → ℕ → ℕ → Except Error (List Region × ℕ × ℕ)
  | [], localScratch, remaining => .ok ([], localScratch, remaining)
  | size :: sizes, localScratch, remaining =>
    let rounded := roundup (size % 2 ^ 32) 128
    if remaining < rounded then .error .memObjectAllocationFailure
    else
      match assignLocalBuffers sizes (wadd 32 localScratch rounded) (wsub 32 remaining rounded) with
      | .error e => .error e
      | .ok (regions, rest) => .ok (⟨localScratch, size⟩ :: regions, rest)

/-- `allocate_and_assign_local_buffers`: the regions, `local_scratch` and `remaining_l2_size`. -/
def allocateAndAssignLocalBuffers (r : Request) : Except Error (List Region × ℕ × ℕ) :=
  let (addr, size) := localsInKernelExtent r
  let localScratch := wadd 32 addr size
  let remaining := wsub 32 r.l2.size (wsub 32 localScratch r.l2.start)
  assignLocalBuffers r.localBufs localScratch remaining

/-- The bytes that a work group allocates. -/
def Request.wgAllocaSize (r : Request) : ℕ :=
  r.wiAllocaSize * r.localSize.1 * r.localSize.2.1 * r.localSize.2.2

/-- The part of `init_kernel_runtime_variables` that places the `alloca` area and the scratch area. -/
def initKernelRuntimeVariables (r : Request) (remaining localScratch : ℕ) :
    Except Error (Alloca × Region) :=
  let wgAllocaSize := r.wgAllocaSize % 2 ^ 32
  if wgAllocaSize = 0 then .ok (.none, ⟨localScratch, remaining⟩)
  else
    let chipAllocaSize := wmul 32 wgAllocaSize r.dspCores
    if wgAllocaSize ≤ remaining then
      -- `WG_alloca_size` is zero when it is rounded up here.
      let rounded := roundup 0 128
      if localScratch = 0 then .error .outOfResources
      else
        .ok (.inL2 ⟨localScratch, wgAllocaSize⟩,
          ⟨wadd 32 localScratch rounded, wsub 32 remaining rounded⟩)
    else
      let msmc := r.allocateMSMC chipAllocaSize
      let start := if msmc = 0 then r.allocateGlobal chipAllocaSize else msmc
      if start = 0 then .error .outOfResources
      else .ok (.shared start chipAllocaSize, ⟨localScratch, remaining⟩)

/-- The layout that `run` hands to a kernel. -/
def run (r : Request) : Except Error Layout :=
  match allocateAndAssignLocalBuffers r with
  | .error e => .error e
  | .ok (locals, localScratch, remaining) =>
    match initKernelRuntimeVariables r remaining localScratch with
    | .error e => .error e
    | .ok (alloca, scratch) =>
      .ok ⟨⟨(localsInKernelExtent r).1, r.staticSize⟩, locals, alloca, scratch⟩

/-! ### What a layout should be -/

/-- The regions in local memory. -/
def Layout.regions (y : Layout) : List Region :=
  y.static :: y.locals ++ (match y.alloca with | .inL2 region => [region] | _ => []) ++ [y.scratch]

/-- The regions are disjoint and in local memory, and an `alloca` area in shared memory has room for
all cores. -/
structure Sound (r : Request) (y : Layout) : Prop where
  /-- No two regions overlap. -/
  disjoint : y.regions.Pairwise Region.Disjoint
  /-- All regions are in local memory. -/
  inside : ∀ t ∈ y.regions, t.Inside r.l2
  /-- The size of an area in shared memory did not wrap around. -/
  shared : ∀ start size, y.alloca = .shared start size → size = r.dspCores * r.wgAllocaSize

/-- A number of bytes in whole blocks. -/
def blocks (n : ℕ) : ℕ := (n + 127) / 128 * 128

/-- The end of the local buffers, without wrap-around. -/
def Request.localsEnd (r : Request) : ℕ :=
  r.memL2.addr + r.memL2.size + blocks r.staticSize + (r.localBufs.map blocks).sum

/-- The static buffers and the arguments fit in local memory, and the `alloca` area is empty, or it
does not fit in the rest of local memory and the areas of all cores together have a size of 32
bits. -/
structure Fits (r : Request) : Prop where
  start : r.l2.start ≤ r.memL2.addr + r.memL2.size
  localsEnd : r.localsEnd ≤ r.l2.start + r.l2.size
  alloca : r.wgAllocaSize % 2 ^ 32 = 0 ∨
    r.l2.start + r.l2.size - r.localsEnd < r.wgAllocaSize % 2 ^ 32 ∧
      r.dspCores * r.wgAllocaSize < 2 ^ 32

/-! ### Local buffers -/

/-- Whole blocks hold a number of bytes, with less than a block of padding. -/
theorem le_blocks (n : ℕ) : n ≤ blocks n ∧ blocks n < n + 128 := by
  unfold blocks
  omega

/-- Rounding up to blocks does not wrap around below the last block of the address space. -/
theorem roundup_eq_blocks {n : ℕ} (h : n + 128 ≤ 2 ^ 32) : roundup n 128 = blocks n :=
  roundup_two_pow (show 7 ≤ 32 by norm_num) h

/-- Regions in a row are disjoint. -/
theorem Region.disjoint_of_le {r t : Region} (h : r.start + r.size ≤ t.start) : r.Disjoint t := by
  intro x hx
  omega

/-- The regions of local buffers have the sizes of the buffers. -/
theorem size_of_assignLocalBuffers {sizes : List ℕ} {c rem : ℕ} {regions : List Region}
    {rest : ℕ × ℕ} (h : assignLocalBuffers sizes c rem = .ok (regions, rest)) :
    regions.map Region.size = sizes := by
  induction sizes generalizing c rem regions with
  | nil =>
    obtain ⟨rfl, -⟩ := Prod.mk.inj (Except.ok.inj h)
    rfl
  | cons size sizes ih =>
    rw [assignLocalBuffers] at h
    split at h
    · cases h
    · split at h
      · cases h
      · next regions' rest' hrest =>
        obtain ⟨rfl, rfl⟩ := Prod.mk.inj (Except.ok.inj h)
        rw [List.map_cons, ih hrest]

/-- Local buffers that are smaller than the memory are put in a row, in whole blocks. -/
theorem assignLocalBuffers_spec {limit : ℕ} (hlimit : limit + 128 ≤ 2 ^ 32) {sizes : List ℕ}
    {c c' rem' : ℕ} {regions : List Region} (hc : c ≤ limit) (hsizes : ∀ n ∈ sizes, n ≤ limit)
    (h : assignLocalBuffers sizes c (limit - c) = .ok (regions, c', rem')) :
    c' = c + (sizes.map blocks).sum ∧ c' ≤ limit ∧ rem' = limit - c' ∧
      (∀ t ∈ regions, c ≤ t.start ∧ t.start + t.size ≤ c') ∧ regions.Pairwise Region.Disjoint := by
  induction sizes generalizing c regions with
  | nil =>
    obtain ⟨rfl, hrest⟩ := Prod.mk.inj (Except.ok.inj h)
    obtain ⟨rfl, rfl⟩ := Prod.mk.inj hrest
    exact ⟨rfl, hc, rfl, by simp, List.Pairwise.nil⟩
  | cons size sizes ih =>
    have hsize := hsizes size List.mem_cons_self
    have hrounded : roundup (size % 2 ^ 32) 128 = blocks size := by
      rw [Nat.mod_eq_of_lt (by omega)]
      exact roundup_eq_blocks (by omega)
    have hblocks := le_blocks size
    rw [assignLocalBuffers, hrounded] at h
    split at h
    · cases h
    · next hroom =>
      rw [wadd_eq (by omega), wsub_eq (not_lt.1 hroom) (by omega), Nat.sub_sub] at h
      split at h
      · cases h
      · next regions' rest hrest =>
        obtain ⟨rfl, rfl⟩ := Prod.mk.inj (Except.ok.inj h)
        obtain ⟨hc', hle, hrem, hinside, hdisjoint⟩ := ih (show c + blocks size ≤ limit by omega)
          (fun n hn => hsizes n (List.mem_cons_of_mem size hn)) hrest
        refine ⟨?_, hle, hrem, ?_, List.pairwise_cons.2 ⟨?_, hdisjoint⟩⟩
        · rw [hc', List.map_cons, List.sum_cons, Nat.add_assoc]
        · intro t ht
          rcases List.mem_cons.1 ht with rfl | ht
          · exact ⟨le_rfl, by dsimp only; omega⟩
          · have := hinside t ht
            omega
        · intro t ht
          refine Region.disjoint_of_le ?_
          have := hinside t ht
          dsimp only
          omega

/-- The first region of local buffers starts at the cursor. -/
theorem start_of_assignLocalBuffers {sizes : List ℕ} {c rem c' rem' : ℕ} {regions : List Region}
    (h : assignLocalBuffers sizes c rem = .ok (regions, c', rem')) :
    c' = c ∨ ∃ t ∈ regions, t.start = c := by
  cases sizes with
  | nil =>
    obtain ⟨-, hrest⟩ := Prod.mk.inj (Except.ok.inj h)
    exact Or.inl (Prod.mk.inj hrest).1.symm
  | cons size sizes =>
    rw [assignLocalBuffers] at h
    split at h
    · cases h
    · split at h
      · cases h
      · obtain ⟨rfl, -⟩ := Prod.mk.inj (Except.ok.inj h)
        exact Or.inr ⟨_, List.mem_cons_self, rfl⟩

/-! ### The whole layout -/

/-- Where the scratch area is put behind the local buffers. -/
theorem initKernelRuntimeVariables_scratch {r : Request} {rem c : ℕ} (hc : c < 2 ^ 32)
    (hrem : rem < 2 ^ 32) {alloca : Alloca} {scratch : Region}
    (h : initKernelRuntimeVariables r rem c = .ok (alloca, scratch)) :
    scratch = ⟨c, rem⟩ ∧
      (alloca = .none ∧ r.wgAllocaSize % 2 ^ 32 = 0 ∨
        alloca = .inL2 ⟨c, r.wgAllocaSize % 2 ^ 32⟩ ∧ 0 < r.wgAllocaSize % 2 ^ 32 ∧
          r.wgAllocaSize % 2 ^ 32 ≤ rem ∨
        (∃ start, alloca = .shared start (wmul 32 (r.wgAllocaSize % 2 ^ 32) r.dspCores)) ∧
          rem < r.wgAllocaSize % 2 ^ 32) := by
  have hzero : roundup 0 128 = 0 := by decide
  unfold initKernelRuntimeVariables at h
  dsimp only at h
  split at h
  · next hnone =>
    obtain ⟨rfl, rfl⟩ := Prod.mk.inj (Except.ok.inj h)
    exact ⟨rfl, Or.inl ⟨rfl, hnone⟩⟩
  · next hsome =>
    split at h
    · next hroom =>
      split at h
      · cases h
      · rw [hzero, wadd_eq (by omega), wsub_eq (Nat.zero_le _) hrem, Nat.add_zero, Nat.sub_zero] at h
        obtain ⟨rfl, rfl⟩ := Prod.mk.inj (Except.ok.inj h)
        exact ⟨rfl, Or.inr (Or.inl ⟨rfl, Nat.pos_of_ne_zero hsome, hroom⟩)⟩
    · next hroom =>
      generalize (if r.allocateMSMC _ = 0 then _ else _) = start at h
      split at h
      · cases h
      · obtain ⟨rfl, rfl⟩ := Prod.mk.inj (Except.ok.inj h)
        exact ⟨rfl, Or.inr (Or.inr ⟨⟨_, rfl⟩, not_le.1 hroom⟩)⟩

/-- The cursor and the remaining size stay words. -/
theorem assignLocalBuffers_lt {sizes : List ℕ} {c rem c' rem' : ℕ} {regions : List Region}
    (hc : c < 2 ^ 32) (hrem : rem < 2 ^ 32)
    (h : assignLocalBuffers sizes c rem = .ok (regions, c', rem')) : c' < 2 ^ 32 ∧ rem' < 2 ^ 32 := by
  induction sizes generalizing c rem regions with
  | nil =>
    obtain ⟨-, hrest⟩ := Prod.mk.inj (Except.ok.inj h)
    obtain ⟨rfl, rfl⟩ := Prod.mk.inj hrest
    exact ⟨hc, hrem⟩
  | cons size sizes ih =>
    rw [assignLocalBuffers] at h
    split at h
    · cases h
    · split at h
      · cases h
      · next regions' rest hrest =>
        obtain ⟨-, rfl⟩ := Prod.mk.inj (Except.ok.inj h)
        exact ih (wadd_lt _ _ _) (wsub_lt _ _ _) hrest

/-- The static buffers and the arguments are in local memory. -/
structure LocalsFit (r : Request) : Prop where
  start : r.l2.start ≤ r.memL2.addr + r.memL2.size
  localsEnd : r.localsEnd ≤ r.l2.start + r.l2.size

/-- What a layout looks like when the buffers fit. -/
structure InRow (r : Request) (y : Layout) : Prop where
  /-- The static buffers are behind the section. -/
  static : y.static = ⟨r.memL2.addr + r.memL2.size, r.staticSize⟩
  /-- The arguments are behind the static buffers. -/
  locals : ∀ t ∈ y.locals, r.memL2.addr + r.memL2.size + r.staticSize ≤ t.start ∧
    t.start + t.size ≤ r.localsEnd
  /-- The arguments do not overlap. -/
  disjoint : y.locals.Pairwise Region.Disjoint
  /-- The scratch area is the rest of local memory. -/
  scratch : y.scratch = ⟨r.localsEnd, r.l2.start + r.l2.size - r.localsEnd⟩
  /-- The `alloca` area is empty, at the start of the scratch area, or in shared memory. -/
  alloca : y.alloca = .none ∧ r.wgAllocaSize % 2 ^ 32 = 0 ∨
    y.alloca = .inL2 ⟨r.localsEnd, r.wgAllocaSize % 2 ^ 32⟩ ∧ 0 < r.wgAllocaSize % 2 ^ 32 ∧
      r.wgAllocaSize % 2 ^ 32 ≤ r.l2.start + r.l2.size - r.localsEnd ∨
    (∃ start, y.alloca = .shared start (wmul 32 (r.wgAllocaSize % 2 ^ 32) r.dspCores)) ∧
      r.l2.start + r.l2.size - r.localsEnd < r.wgAllocaSize % 2 ^ 32

/-- A layout whose regions are in local memory has its buffers there in a row. -/
theorem inRow_of_run {r : Request} {y : Layout} (h : run r = .ok y)
    (hfit : LocalsFit r ∨ ∀ t ∈ y.regions, t.Inside r.l2) : LocalsFit r ∧ InRow r y := by
  have hl2 := r.l2.fits
  have hsection := r.memL2.fits
  have haddr : (localsInKernelExtent r).1 = r.memL2.addr + r.memL2.size := wadd_eq hsection
  unfold run at h
  split at h
  · cases h
  · next locals c rem hassign =>
    split at h
    · cases h
    · next alloca scratch hinit =>
      obtain rfl := Except.ok.inj h
      have hassign' : assignLocalBuffers r.localBufs
          (wadd 32 (r.memL2.addr + r.memL2.size) (roundup r.staticSize 128))
          (wsub 32 r.l2.size (wsub 32
            (wadd 32 (r.memL2.addr + r.memL2.size) (roundup r.staticSize 128)) r.l2.start)) =
          .ok (locals, c, rem) := by
        rw [← haddr]
        exact hassign
      obtain ⟨hclt, hremlt⟩ := assignLocalBuffers_lt (wadd_lt _ _ _) (wsub_lt _ _ _) hassign'
      obtain ⟨hscratch, halloca⟩ := initKernelRuntimeVariables_scratch hclt hremlt hinit
      have hblocks := le_blocks r.staticSize
      -- The static buffers end in local memory, so that their rounded size is exact.
      have hstatic : r.l2.start ≤ r.memL2.addr + r.memL2.size ∧
          r.memL2.addr + r.memL2.size + r.staticSize ≤ r.l2.start + r.l2.size := by
        rcases hfit with hfit | hinside
        · have hend := hfit.localsEnd
          unfold Request.localsEnd at hend
          exact ⟨hfit.start, by omega⟩
        · have hin := hinside ⟨(localsInKernelExtent r).1, r.staticSize⟩ (by simp [Layout.regions])
          rw [haddr] at hin
          exact hin
      rw [roundup_eq_blocks (by omega), wadd_eq (by omega)] at hassign'
      have hcursor : r.memL2.addr + r.memL2.size + blocks r.staticSize ≤
          r.l2.start + r.l2.size := by
        rcases hfit with hfit | hinside
        · have hend := hfit.localsEnd
          unfold Request.localsEnd at hend
          omega
        · rcases start_of_assignLocalBuffers hassign' with hc | ⟨t, ht, hstart⟩
          · have hin := hinside scratch (by simp [Layout.regions])
            rw [hscratch] at hin
            have := hin.2
            dsimp only at this
            omega
          · have hin := hinside t (by simp [Layout.regions, ht])
            have := hin.2
            omega
      have hrem : wsub 32 r.l2.size (wsub 32
          (r.memL2.addr + r.memL2.size + blocks r.staticSize) r.l2.start) =
          r.l2.start + r.l2.size - (r.memL2.addr + r.memL2.size + blocks r.staticSize) := by
        have hinner : wsub 32 (r.memL2.addr + r.memL2.size + blocks r.staticSize) r.l2.start =
            r.memL2.addr + r.memL2.size + blocks r.staticSize - r.l2.start :=
          wsub_eq (by omega) (by omega)
        rw [hinner, wsub_eq (by omega) (by omega)]
        omega
      rw [hrem] at hassign'
      have hsizes : ∀ n ∈ r.localBufs, n ≤ r.l2.start + r.l2.size := by
        rcases hfit with hfit | hinside
        · intro n hn
          have hend := hfit.localsEnd
          have hsum := List.single_le_sum (fun _ _ => Nat.zero_le _) _
            (List.mem_map_of_mem hn : blocks n ∈ r.localBufs.map blocks)
          have hn' := le_blocks n
          unfold Request.localsEnd at hend
          omega
        · intro n hn
          rw [← size_of_assignLocalBuffers hassign'] at hn
          obtain ⟨t, ht, rfl⟩ := List.mem_map.1 hn
          have hin := hinside t (by simp [Layout.regions, ht])
          have := hin.2
          omega
      obtain ⟨hc, hle, hrem', hregions, hdisjoint⟩ :=
        assignLocalBuffers_spec (by omega) hcursor hsizes hassign'
      have hend : c = r.localsEnd := hc
      refine ⟨⟨hstatic.1, hend ▸ hle⟩, ?_, ?_, hdisjoint, ?_, ?_⟩
      · rw [haddr]
      · intro t ht
        have := hregions t ht
        rw [← hend]
        omega
      · rw [hscratch, hrem', hend]
      · rw [hrem', hend] at halloca
        exact halloca

/-- Buffers in a row, with the scratch area behind them, are disjoint and in local memory. -/
theorem InRow.sound {r : Request} {y : Layout} (hfit : LocalsFit r) (h : InRow r y)
    (hl2 : ∀ region, y.alloca ≠ .inL2 region)
    (hshared : ∀ start size, y.alloca = .shared start size → size = r.dspCores * r.wgAllocaSize) :
    Sound r y := by
  have hregions : y.regions = y.static :: (y.locals ++ [y.scratch]) := by
    unfold Layout.regions
    cases halloca : y.alloca with
    | inL2 region => exact absurd halloca (hl2 region)
    | none => simp
    | shared start size => simp
  have hend := hfit.localsEnd
  have hstart := hfit.start
  have hstatic := le_blocks r.staticSize
  have hbehind : r.memL2.addr + r.memL2.size + r.staticSize ≤ r.localsEnd := by
    unfold Request.localsEnd
    omega
  refine ⟨?_, ?_, hshared⟩
  · rw [hregions, h.static, h.scratch]
    refine List.pairwise_cons.2 ⟨?_, List.pairwise_append.2
      ⟨h.disjoint, List.pairwise_singleton _ _, ?_⟩⟩
    · intro t ht
      refine Region.disjoint_of_le ?_
      rcases List.mem_append.1 ht with ht | ht
      · exact (h.locals t ht).1
      · rw [List.mem_singleton.1 ht]
        exact hbehind
    · intro t ht t' ht'
      rw [List.mem_singleton.1 ht']
      exact Region.disjoint_of_le (h.locals t ht).2
  · intro t ht
    rw [hregions] at ht
    rcases List.mem_cons.1 ht with rfl | ht
    · rw [h.static]
      exact ⟨hstart, hbehind.trans hend⟩
    · rcases List.mem_append.1 ht with ht | ht
      · have := h.locals t ht
        exact ⟨by omega, by omega⟩
      · rw [List.mem_singleton.1 ht, h.scratch]
        exact ⟨by dsimp only; omega, by dsimp only; omega⟩

/-- The regions that a kernel gets in local memory are disjoint and inside it, and its `alloca` area
in shared memory is large enough, if and only if the buffers fit and no `alloca` area is put in local
memory. -/
theorem sound_iff_fits (r : Request) (y : Layout) (h : run r = .ok y) : Sound r y ↔ Fits r := by
  constructor
  · intro hsound
    obtain ⟨hfit, hrow⟩ := inRow_of_run h (Or.inr hsound.inside)
    refine ⟨hfit.start, hfit.localsEnd, ?_⟩
    rcases hrow.alloca with ⟨-, hnone⟩ | ⟨halloca, hpos, hroom⟩ | ⟨⟨start, halloca⟩, hroom⟩
    · exact Or.inl hnone
    · -- The first byte of the `alloca` area is the first byte of the scratch area.
      exfalso
      have hpair := hsound.disjoint
      unfold Layout.regions at hpair
      rw [halloca, hrow.scratch] at hpair
      have hdisjoint := (List.pairwise_append.1 hpair).2.2 ⟨r.localsEnd, r.wgAllocaSize % 2 ^ 32⟩
        (by simp) _ (List.mem_singleton_self _)
      exact hdisjoint r.localsEnd ⟨le_rfl, by dsimp only; omega, le_rfl, by dsimp only; omega⟩
    · refine Or.inr ⟨hroom, ?_⟩
      rw [← hsound.shared start _ halloca]
      exact Nat.mod_lt _ (by norm_num)
  · intro hfits
    obtain ⟨hfit, hrow⟩ := inRow_of_run h (Or.inl ⟨hfits.start, hfits.localsEnd⟩)
    refine hrow.sound hfit ?_ ?_
    · intro region hregion
      rcases hrow.alloca with ⟨halloca, -⟩ | ⟨halloca, hpos, hroom⟩ | ⟨⟨start, halloca⟩, -⟩
      · rw [halloca] at hregion
        cases hregion
      · rcases hfits.alloca with hzero | ⟨hlarge, -⟩ <;> omega
      · rw [halloca] at hregion
        cases hregion
    · intro start size hshared
      rcases hrow.alloca with ⟨halloca, -⟩ | ⟨halloca, -⟩ | ⟨⟨start', halloca⟩, hroom⟩
      · rw [halloca] at hshared
        cases hshared
      · rw [halloca] at hshared
        cases hshared
      · rw [halloca] at hshared
        obtain ⟨-, rfl⟩ := Alloca.shared.inj hshared
        rcases hfits.alloca with hzero | ⟨-, hword⟩
        · omega
        · rw [wmul, Nat.mod_mul_mod, Nat.mul_comm, Nat.mod_eq_of_lt hword]

/-- A kernel with 4 bytes of static local buffers and one local buffer of 64 bytes, that allocates
`n` bytes in each of 16 work items. -/
def smallKernel (n : ℕ) : Request :=
  { l2 := ⟨0x800000, 0x20000, by norm_num⟩, memL2 := ⟨0x800000, 0x400, by norm_num⟩,
    builtIn := false, kernelLocalSize := ⟨4, by norm_num⟩, localBufs := [64], wiAllocaSize := n,
    localSize := (16, 1, 1), dspCores := 8, allocateMSMC := fun _ => 0xC000000,
    allocateGlobal := fun _ => 0 }

theorem sound_smallKernel_zero : ∃ y, run (smallKernel 0) = .ok y ∧ Sound (smallKernel 0) y := by
  refine ⟨_, rfl, (sound_iff_fits (smallKernel 0) _ rfl).2 ⟨by decide, by decide, Or.inl ?_⟩⟩
  decide

theorem not_sound_smallKernel_four :
    ∃ y, run (smallKernel 4) = .ok y ∧ ¬ Sound (smallKernel 4) y := by
  refine ⟨_, rfl, fun hsound => ?_⟩
  have hlast := (List.pairwise_append.1 hsound.disjoint).2.2 ⟨0x800500, 64⟩ (by decide)
    ⟨0x800500, 0x1FB00⟩ (by decide)
  exact hlast 0x800500 (by decide)

end LocalMemory

end TiOpenCL
