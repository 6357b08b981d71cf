import TiOpenCL.Library.ByteLayout
import TiOpenCL.Library.Words

/-!
# Arguments of a kernel

`DSPKernelEvent::callArgs` gives every argument of a kernel its place: a register pair, a register
quad, a place in `args_on_stack`, or a place in `args_of_argref` with a reference to it in a register
pair or in `args_on_stack`.  The arrays are described by the stores that are made to them.
-/

namespace TiOpenCL

namespace KernelArgs

/-- `ROUNDUP`: round up to a multiple of a power of two. -/
def roundup (val pow2 : ℕ) : ℕ := (val + pow2 - 1) &&& wnot 32 (pow2 - 1)

/-- `MAX_ARGS_TOTAL_SIZE`. -/
def maxArgsTotalSize : ℕ := 1024

/-- The size of `args_on_stack` and of `args_of_argref`. -/
def arraySize : ℕ := maxArgsTotalSize * 2

/-- `TOTAL_REGS`. -/
def totalRegs : ℕ := 20

/-- `REG_START`. -/
def regStart : ℕ := 4

/-- `Kernel::Arg::File`. -/
inductive File
  | priv
  | global
  | constant
  | loc
  deriving DecidableEq

/-- `Kernel::Arg::Kind`. -/
inductive Kind
  | invalid
  | int8
  | int16
  | int32
  | int64
  | sampler
  | float
  | double
  | buffer
  | image2D
  | image3D
  deriving DecidableEq

/-- What `callArgs` reads of a memory object. -/
structure MemObject where
  /-- The identity of the object. -/
  handle : ℕ
  /-- `CL_MEM_USE_HOST_PTR`. -/
  useHostPtr : Bool
  /-- `get_host_ptr_clMalloced`. -/
  hostPtrClMalloced : Bool
  /-- `CL_MEM_WRITE_ONLY`. -/
  deviceWriteOnly : Bool
  /-- The address of the device buffer. -/
  data : ℕ
  /-- The size of the buffer. -/
  size : ℕ
  deriving DecidableEq

/-- `Kernel::Arg`. -/
structure Arg where
  /-- The number of elements of a vector. -/
  vecDim : ℕ
  /-- The address space. -/
  file : File
  /-- The type of an element. -/
  kind : Kind
  /-- Is the argument an unsigned integer of less than four bytes? -/
  isSubwordIntUns : Bool
  /-- The bytes of the value as a little endian number. -/
  data : ℕ
  /-- The memory object that `data` refers to if the argument is a buffer. -/
  memObject : Option MemObject
  /-- The size of a local buffer. -/
  allocAtKernelRuntime : ℕ
  deriving DecidableEq

/-- `valueSize`, for the size of a pointer on the host. -/
def Kind.valueSize (clMem : ℕ) : Kind → ℕ
  | .invalid => 0
  | .int8 => 1
  | .int16 => 2
  | .int32 => 4
  | .sampler => 4
  | .int64 => 8
  | .float => 4
  | .double => 8
  | .buffer => clMem
  | .image2D => clMem
  | .image3D => clMem

/-- `vecValueSize`. -/
def Arg.vecValueSize (clMem : ℕ) (a : Arg) : ℕ :=
  a.kind.valueSize clMem * if a.vecDim = 3 then 4 else a.vecDim

/-! ### Registers -/

/-- The first free register pairs and quads of the two sides. -/
structure Cursors where
  /-- `first_apair`. -/
  apair : ℕ
  /-- `first_bpair`. -/
  bpair : ℕ
  /-- `first_aquad`. -/
  aquad : ℕ
  /-- `first_bquad`. -/
  bquad : ℕ
  deriving DecidableEq

/-- `getarg_inreg_index`; minus one is `none`. -/
def getargInregIndex (sz : ℕ) (c : Cursors) : Option ℕ × Cursors :=
  if sz ≤ 8 then
    if c.apair ≤ c.bpair then
      let index := (c.apair - regStart) * 2
      if totalRegs ≤ index + 1 then (none, c)
      else
        let apair := c.apair + 2
        (some index,
          if apair % 4 ≠ 0 then { c with apair, aquad := c.aquad + 4 }
          else if apair < c.aquad then { c with apair := c.aquad }
          else { c with apair })
    else
      let index := (c.bpair - regStart) * 2 + 2
      if totalRegs ≤ index + 1 then (none, c)
      else
        let bpair := c.bpair + 2
        (some index,
          if bpair % 4 ≠ 0 then { c with bpair, bquad := c.bquad + 4 }
          else if bpair < c.bquad then { c with bpair := c.bquad }
          else { c with bpair })
  else if sz ≤ 16 then
    if c.aquad ≤ c.bquad then
      let index := (c.aquad - regStart) * 2
      if totalRegs ≤ index + 5 then (none, c)
      else
        (some index,
          { c with
            apair := if c.apair = c.aquad then c.apair + 4 else c.apair
            aquad := c.aquad + 4 })
    else
      let index := (c.bquad - regStart) * 2 + 2
      if totalRegs ≤ index + 5 then (none, c)
      else
        (some index,
          { c with
            bpair := if c.bpair = c.bquad then c.bpair + 4 else c.bpair
            bquad := c.bquad + 4 })
  else (none, c)

/-- `setarg_inreg`: the stores to `args_in_reg`, at byte offsets. -/
def setargInreg (index sz value : ℕ) : List Store :=
  if sz ≤ 8 then [⟨sz, 4 * index, value⟩]
  else if sz = 16 then [⟨8, 4 * index, value % 256 ^ 8⟩, ⟨8, 4 * (index + 4), value / 256 ^ 8⟩]
  else []

/-! ### The loop over the arguments -/

/-- The address of a word that is written later. -/
inductive Slot
  /-- `&args_in_reg[index]`. -/
  | inReg (index : ℕ)
  /-- A byte offset in `args_on_stack`. -/
  | onStack (offset : ℕ)
  deriving DecidableEq

/-- The state of the loop over the arguments. -/
structure CallState where
  /-- `args_total_size`. -/
  argsTotalSize : ℕ
  /-- `AP`, `BP`, `AQ` and `BQ`. -/
  cursors : Cursors
  /-- The stores to `args_in_reg`, at byte offsets. -/
  argsInReg : List Store
  /-- The stores to `args_on_stack`. -/
  argsOnStack : List Store
  /-- `more_arg_offset`. -/
  moreArgOffset : ℕ
  /-- The stores to `args_of_argref`. -/
  argsOfArgref : List Store
  /-- `argref_offset`. -/
  argrefOffset : ℕ
  /-- `p_local_bufs`. -/
  localBufs : List (Slot × ℕ)
  /-- `p_hostptr_tmpbufs`. -/
  hostptrTmpbufs : List (MemObject × Slot)
  /-- `p_64bit_bufs`. -/
  bufs64bit : List (ℕ × Slot × ℕ)
  /-- `p_hostptr_clMalloced_bufs`. -/
  hostptrClMallocedBufs : List MemObject
  /-- `p_flush_bufs`. -/
  flushBufs : List (ℕ × Slot × ℕ)
  /-- `p_argrefs`. -/
  argrefs : List (Slot × ℕ)

/-- The state before the first argument. -/
def CallState.init : CallState :=
  { argsTotalSize := 0, cursors := ⟨regStart, regStart, regStart, regStart⟩, argsInReg := [],
    argsOnStack := [], moreArgOffset := 4, argsOfArgref := [], argrefOffset := 0, localBufs := [],
    hostptrTmpbufs := [], bufs64bit := [], hostptrClMallocedBufs := [], flushBufs := [],
    argrefs := [] }

/-- The errors of `callArgs`. -/
inductive Error
  | invalidArgSize
  | invalidKernelArgs
  deriving DecidableEq

/-- `SETMOREARG`. -/
def setMoreArg (s : CallState) (sz value : ℕ) : CallState :=
  let offset := roundup s.moreArgOffset sz
  { s with
    argsOnStack := s.argsOnStack ++ [⟨sz, offset, value⟩]
    moreArgOffset := offset + sz }

/-- A word in a register pair if there is one, on the stack otherwise, and its address. -/
def setWord (s : CallState) (value : ℕ) : Slot × CallState :=
  let (index, cursors) := getargInregIndex 4 s.cursors
  let s := { s with cursors }
  match index with
  | some index =>
    (.inReg index, { s with argsInReg := s.argsInReg ++ setargInreg index 4 value })
  | none => (.onStack (roundup s.moreArgOffset 4), setMoreArg s 4 value)

/-- The word that is put in the slot of a buffer argument: zero for what is patched later. -/
def bufPtr (a : Arg) : ℕ :=
  if a.file = .loc then 0
  else
    match a.memObject with
    | none => 0
    | some buffer =>
      if buffer.useHostPtr && !buffer.hostPtrClMalloced then 0
      else if buffer.data < 0xFFFFFFFF then buffer.data
      else 0

/-- The notes that are taken of a buffer argument in a slot. -/
def noteBuffer (s : CallState) (a : Arg) (slot : Slot) : CallState :=
  if a.file = .loc then { s with localBufs := s.localBufs ++ [(slot, a.allocAtKernelRuntime)] }
  else
    match a.memObject with
    | none => s
    | some buffer =>
      if buffer.useHostPtr && !buffer.hostPtrClMalloced then
        { s with hostptrTmpbufs := s.hostptrTmpbufs ++ [(buffer, slot)] }
      else
        { s with
          bufs64bit :=
            if buffer.data < 0xFFFFFFFF then s.bufs64bit
            else s.bufs64bit ++ [(buffer.data, slot, buffer.size)]
          hostptrClMallocedBufs :=
            if buffer.hostPtrClMalloced then s.hostptrClMallocedBufs ++ [buffer]
            else s.hostptrClMallocedBufs
          flushBufs :=
            if buffer.deviceWriteOnly then s.flushBufs
            else s.flushBufs ++ [(buffer.data, slot, buffer.size)] }

/-- A number of one or two bytes, extended to four bytes; zero for other sizes. -/
def extendSubword (uns : Bool) (size value : ℕ) : ℕ :=
  if size = 1 then
    if uns then value % 256 else uint 32 (sint 8 (value % 256))
  else if size = 2 then
    if uns then value % 65536 else uint 32 (sint 16 (value % 65536))
  else 0

/-- The stores of a value in registers. -/
def setValueInreg (index size : ℕ) (a : Arg) : List Store :=
  let dummy := extendSubword a.isSubwordIntUns size a.data
  if dummy = 0 then setargInreg index size a.data else setargInreg index 4 dummy

/-- A value that is not a buffer. -/
def setValue (s : CallState) (size : ℕ) (a : Arg) : CallState :=
  let (index, cursors) := getargInregIndex size s.cursors
  let s := { s with cursors }
  match index with
  | some index => { s with argsInReg := s.argsInReg ++ setValueInreg index size a }
  | none =>
    if size ≤ 16 then setMoreArg s size a.data
    else
      -- A reference to the value, which is filled in when the value has its address.
      let (slot, s) := setWord s 0
      { s with
        argrefs := s.argrefs ++ [(slot, s.argrefOffset)]
        argsOfArgref := s.argsOfArgref ++ [⟨size, s.argrefOffset, a.data⟩]
        argrefOffset := roundup (s.argrefOffset + size) 8 }

/-- One argument. -/
def callArg (clMem maxArgsSize : ℕ) (s : CallState) (a : Arg) : Except Error CallState :=
  let size := a.vecValueSize clMem
  if size = 0 then .error .invalidArgSize
  else
    let s := { s with argsTotalSize := s.argsTotalSize + size }
    if maxArgsSize < s.argsTotalSize then .error .invalidKernelArgs
    else
      match a.kind with
      | .buffer =>
        let (slot, s) := setWord s (bufPtr a)
        .ok (noteBuffer s a slot)
      | .image2D => .error .invalidKernelArgs
      | .image3D => .error .invalidKernelArgs
      | _ => .ok (setValue s size a)

/-- `args_in_reg_size`, from the cursors. -/
def argsInRegSize (c : Cursors) : ℕ :=
  -- The last register that is used, plus two.
  let last := max (max c.apair c.aquad) (max c.bpair c.bquad)
  if regStart + 2 ≤ last then min ((last - 2 - regStart) * 2 + 4) totalRegs else 0

/-- `args_on_stack_size`. -/
def argsOnStackSize (s : CallState) : ℕ :=
  if 4 < s.moreArgOffset then roundup s.moreArgOffset 8 else 0

/-- `callArgs`. -/
def callArgs (clMem maxArgsSize : ℕ) (args : List Arg) : Except Error CallState :=
  args.foldlM (callArg clMem maxArgsSize) CallState.init

/-- The number of bytes of `args_on_stack` that `setup_stack_based_arguments` copies. -/
def roundedArgsOnStackSize (s : CallState) : ℕ := roundup (argsOnStackSize s) 128

/-- The slots that are written after `callArgs`. -/
def CallState.patched (s : CallState) : List Slot :=
  s.localBufs.map Prod.fst ++ s.hostptrTmpbufs.map Prod.snd ++
    s.bufs64bit.map (fun b => b.2.1) ++ s.argrefs.map Prod.fst

end KernelArgs

end TiOpenCL
