import TiOpenCL.KernelArgs.CallArgs
import TiOpenCL.Library.Machine

/-!
# Setting the arguments of a kernel

`Kernel::setArg` stores an argument.  A pointer to local memory only has a size, a sampler is recognised by
the value, a buffer or an image is stored as a pointer to its object, and any other argument as the bytes
that the value points to.  As long as the index is not the number of arguments, no vector of three elements
is stored, and only sampler arguments are given samplers, every call is exact: it does nothing if it reports
an error, and stores exactly the bytes of a value otherwise (`exact_of_run`).
-/

namespace TiOpenCL

namespace SetArg

open KernelArgs (File Kind)
open Machine

/-- A byte. -/
abbrev Byte := BitVec 8

/-! ### Parameters -/

/-- The elements of arguments that are passed by value. -/
inductive Scalar where
  | int8
  | int16
  | int32
  | int64
  | float
  | double
  deriving DecidableEq, Repr

/-- What `addFunction` makes of a type. -/
def Scalar.kind : Scalar → Kind
  | .int8 => .int8
  | .int16 => .int16
  | .int32 => .int32
  | .int64 => .int64
  | .float => .float
  | .double => .double

/-- What a pointer refers to. -/
inductive Referent where
  | buffer
  | image2D
  | image3D
  deriving DecidableEq, Repr

/-- What `addFunction` makes of a type. -/
def Referent.kind : Referent → Kind
  | .buffer => .buffer
  | .image2D => .image2D
  | .image3D => .image3D

/-- A parameter of a kernel. -/
inductive Param where
  /-- A scalar or a vector. -/
  | value (scalar : Scalar) (vecDim : ℕ)
  /-- A `sampler_t`, which is an integer of 32 bits for the compiler. -/
  | sampler
  | pointer (file : File) (referent : Referent)
  deriving DecidableEq

/-- `p_vec_dim`. -/
def Param.vecDim : Param → ℕ
  | .value _ vecDim => vecDim
  | .sampler | .pointer _ _ => 1

/-- `p_file`. -/
def Param.file : Param → File
  | .value _ _ | .sampler => .priv
  | .pointer file _ => file

/-- The first `p_kind`. -/
def Param.kind : Param → Kind
  | .value scalar _ => scalar.kind
  | .sampler => .int32
  | .pointer _ referent => referent.kind

/-- The argument is passed by value and no sampler. -/
def Param.isValue : Param → Bool
  | .value _ _ => true
  | .sampler | .pointer _ _ => false

/-! ### Arguments -/

/-- What `setArg` depends on. -/
structure Host where
  /-- The size of a pointer. -/
  clMem : ℕ
  /-- The bit field of the sampler whose address has these bytes, if there is one among the known objects. -/
  samplerAt : List Byte → Option (Fin 4 → Byte)
  /-- `pobj`, from a handle to the pointer to its object. -/
  pobj : List Byte → List Byte
  /-- The result is a pointer. -/
  length_pobj : ∀ handle, (pobj handle).length = clMem

/-- `Kernel::Arg`. -/
structure Arg where
  /-- The parameter. -/
  param : Param
  /-- `p_kind`. -/
  kind : Kind
  /-- The block that `p_data` points to; a byte that was not written is `none`. -/
  data : Option (List (Option Byte))
  /-- `p_defined`. -/
  defined : Bool
  /-- `p_runtime_alloc`. -/
  runtimeAlloc : ℕ
  deriving DecidableEq

/-- The constructor. -/
def Arg.new (param : Param) : Arg := ⟨param, param.kind, none, false, 0⟩

/-- `vecValueSize`. -/
def Arg.vecValueSize (clMem : ℕ) (a : Arg) : ℕ :=
  a.kind.valueSize clMem * if a.param.vecDim = 3 then 4 else a.param.vecDim

/-- `alloc`. -/
def Arg.alloc (clMem : ℕ) (a : Arg) : Arg :=
  match a.data with
  | some _ => a
  | none => { a with data := some (List.replicate (a.vecValueSize clMem) none) }

/-- `loadData`; `none` if the copy does not stay within the block and the source. -/
def Arg.loadData (clMem : ℕ) (a : Arg) (src : List Byte) : Option Arg :=
  match a.data with
  | none => none
  | some block =>
    let count := a.param.vecDim * a.kind.valueSize clMem
    if count ≤ block.length ∧ count ≤ src.length then
      some { a with data := some ((src.take count).map some ++ block.drop count), defined := true }
    else none

/-- `setAllocAtKernelRuntime`. -/
def Arg.setAllocAtKernelRuntime (a : Arg) (size : ℕ) : Arg := { a with runtimeAlloc := size, defined := true }

/-- `refineKind`. -/
def Arg.refineKind (a : Arg) (kind : Kind) : Arg := { a with kind }

/-- The argument is stored as a pointer to an object. -/
def isObject : Kind → Bool
  | .buffer | .image2D | .image3D => true
  | _ => false

/-! ### Calls -/

/-- What `setArg` returns. -/
inductive Code where
  | success
  | invalidArgIndex
  | invalidArgSize
  | invalidArgValue
  deriving DecidableEq, Repr

/-- The arguments of a call; a value that is not null has as many bytes as the application says. -/
structure Call where
  index : ℕ
  size : ℕ
  value : Option (List Byte)
  length_value : ∀ bytes ∈ value, bytes.length = size

/-- The sampler that the value is taken for. -/
def recognised (host : Host) (a : Arg) (c : Call) : Option (Fin 4 → Byte) :=
  if c.size = host.clMem ∧ a.vecValueSize host.clMem = 4 then c.value.bind host.samplerAt else none

/-- `setArg` after the argument is found; `none` if memory is used that is not the argument's. -/
def Arg.set (host : Host) (a : Arg) (c : Call) : Option (Code × Arg) :=
  if a.param.file = .loc then
    if c.size = 0 then some (.invalidArgSize, a)
    else if c.value.isSome then some (.invalidArgValue, a)
    else some (.success, a.setAllocAtKernelRuntime c.size)
  else
    match recognised host a c with
    | some bitfield =>
      (((a.refineKind .sampler).alloc host.clMem).loadData host.clMem (List.ofFn bitfield)).map
        fun a' => (.success, a')
    | none =>
      if c.size ≠ a.vecValueSize host.clMem then some (.invalidArgSize, a)
      else if isObject a.kind then
        let memValue := (c.value.map host.pobj).getD (List.replicate host.clMem 0)
        ((a.alloc host.clMem).loadData host.clMem memValue).map fun a' => (.success, a')
      else
        match c.value with
        | none => some (.invalidArgValue, a)
        | some bytes => ((a.alloc host.clMem).loadData host.clMem bytes).map fun a' => (.success, a')

/-- `setArg`, with the arguments after it; `none` if it uses memory that is not an argument's. -/
def setArg (host : Host) (args : List Arg) (c : Call) : Option (Code × List Arg) :=
  if args.length < c.index then some (.invalidArgIndex, args)
  else
    -- `p_args[index]` is outside the vector if the index is the number of arguments.
    args[c.index]?.bind fun a => (a.set host c).map fun (code, a') => (code, args.set c.index a')

/-- `argsSpecified`. -/
def argsSpecified (args : List Arg) : Bool := args.all Arg.defined

/-! ### Exactness -/

/-- A call uses no memory that is not an argument's, changes nothing if it reports an error, and otherwise
stores exactly the bytes of a value and keeps the other arguments. -/
def Exact (host : Host) (args : List Arg) (c : Call) : Prop :=
  ∃ code args', setArg host args c = some (code, args') ∧
    (code ≠ .success → args' = args) ∧
    (code = .success → ∀ i, i ≠ c.index → args'[i]? = args[i]?) ∧
    (code = .success → ∀ a, args[c.index]? = some a → a.param.isValue = true →
      ∃ bytes a', c.value = some bytes ∧ args'[c.index]? = some a' ∧ a'.data = some (bytes.map some))

/-- The index is not the number of arguments, and the argument is not a vector of three elements that is
stored and is not given a sampler unless it is one. -/
def Regular (host : Host) (args : List Arg) (c : Call) : Prop :=
  c.index ≠ args.length ∧
    ∀ a ∈ args[c.index]?, a.param.file ≠ .loc →
      (recognised host a c ≠ none → a.param = .sampler) ∧
        (a.param.vecDim = 3 → c.size ≠ a.vecValueSize host.clMem ∨ c.value = none)

instance (host : Host) (args : List Arg) (c : Call) : Decidable (Regular host args c) :=
  inferInstanceAs (Decidable (_ ∧ ∀ a ∈ args[c.index]?, _))

/-- The arguments, and the indices of the calls that succeeded. -/
structure State where
  args : List Arg
  succeeded : List ℕ

/-- A new kernel. -/
def State.start (params : List Param) : State := ⟨params.map Arg.new, []⟩

/-- A call. -/
def step (host : Host) (s : State) (c : Call) : Option State :=
  (setArg host s.args c).map fun (code, args') =>
    ⟨args', if code = .success then c.index :: s.succeeded else s.succeeded⟩

/-! ### Storing bytes -/

/-- The block of an argument has the size of the argument, and only a sampler changes its kind. -/
structure Arg.Ok (clMem : ℕ) (a : Arg) : Prop where
  block : ∀ block ∈ a.data, block.length = a.vecValueSize clMem
  kind : a.kind = a.param.kind ∨ a.param = .sampler ∧ a.kind = .sampler

/-- The bytes that are copied are not more than the bytes of the argument. -/
lemma count_le (clMem : ℕ) (a : Arg) :
    a.param.vecDim * a.kind.valueSize clMem ≤ a.vecValueSize clMem := by
  rw [Arg.vecValueSize, Nat.mul_comm]
  apply Nat.mul_le_mul_left
  split_ifs with h <;> omega

/-- Bytes are stored in an argument: the block is filled, but for the last element of a vector of three. -/
lemma store_spec {clMem : ℕ} {a : Arg} (hblock : ∀ block ∈ a.data, block.length = a.vecValueSize clMem)
    (src : List Byte) (hsrc : a.param.vecDim * a.kind.valueSize clMem ≤ src.length) :
    ∃ block, (a.alloc clMem).loadData clMem src = some { a with data := some block, defined := true } ∧
      block.length = a.vecValueSize clMem ∧
      (a.param.vecDim ≠ 3 → src.length = a.vecValueSize clMem → block = src.map some) := by
  obtain ⟨old, halloc, hold⟩ : ∃ old, a.alloc clMem = { a with data := some old } ∧
      old.length = a.vecValueSize clMem := by
    unfold Arg.alloc
    cases hdata : a.data with
    | some old =>
      refine ⟨old, ?_, hblock old hdata⟩
      cases a
      cases hdata
      rfl
    | none => exact ⟨_, rfl, List.length_replicate⟩
  have hcount := count_le clMem a
  refine ⟨(src.take (a.param.vecDim * a.kind.valueSize clMem)).map some ++
    old.drop (a.param.vecDim * a.kind.valueSize clMem), ?_, ?_, fun hdim hlen => ?_⟩
  · rw [halloc]
    exact if_pos ⟨hold ▸ hcount, hsrc⟩
  · rw [List.length_append, List.length_map, List.length_take, List.length_drop, hold]
    omega
  · have hall : a.param.vecDim * a.kind.valueSize clMem = a.vecValueSize clMem := by
      rw [Arg.vecValueSize, if_neg hdim, Nat.mul_comm]
    rw [hall, List.take_of_length_le hlen.le, List.drop_of_length_le hold.le, List.append_nil]

/-- What a regular call does to its argument. -/
structure SetSpec (host : Host) (a : Arg) (c : Call) (code : Code) (a' : Arg) : Prop where
  param : a'.param = a.param
  ok : a'.Ok host.clMem
  unchanged : code ≠ .success → a' = a
  defined : code = .success → a'.defined = true
  exact : code = .success → a.param.isValue = true →
    ∃ bytes, c.value = some bytes ∧ a'.data = some (bytes.map some)

/-- An error. -/
lemma SetSpec.error {host : Host} {a : Arg} {c : Call} (h : a.Ok host.clMem) {code : Code}
    (hcode : code ≠ .success) : SetSpec host a c code a :=
  ⟨rfl, h, fun _ => rfl, fun hs => absurd hs hcode, fun hs => absurd hs hcode⟩

/-- Bytes are stored in an argument that is defined then. -/
lemma SetSpec.stored {host : Host} {a : Arg} {c : Call} {kind : Kind}
    (hkind : kind = a.param.kind ∨ a.param = .sampler ∧ kind = .sampler) {block : List (Option Byte)}
    (hblock : block.length = Arg.vecValueSize host.clMem { a with kind })
    (hexact : a.param.isValue = true → ∃ bytes, c.value = some bytes ∧ block = bytes.map some) :
    SetSpec host a c .success { a with kind, data := some block, defined := true } := by
  refine ⟨rfl, ⟨fun b hb => ?_, hkind⟩, fun hs => absurd rfl hs, fun _ => rfl, fun _ hvalue => ?_⟩
  · obtain rfl : block = b := Option.some.inj hb
    exact hblock
  · obtain ⟨bytes, hbytes, rfl⟩ := hexact hvalue
    exact ⟨bytes, hbytes, rfl⟩

/-- A value is in no address space but the private one. -/
lemma file_of_isValue {param : Param} (h : param.isValue = true) : param.file = .priv := by
  cases param with
  | value scalar vecDim => rfl
  | sampler => cases h
  | pointer file referent => cases h

/-- A value is no object. -/
lemma Arg.Ok.not_isObject {clMem : ℕ} {a : Arg} (h : a.Ok clMem) (hvalue : a.param.isValue = true) :
    isObject a.kind = false := by
  cases hparam : a.param with
  | value scalar vecDim =>
    rcases h.kind with hkind | ⟨hsampler, -⟩
    · rw [hkind, hparam]
      cases scalar <;> rfl
    · rw [hparam] at hsampler
      cases hsampler
  | sampler => rw [hparam] at hvalue; cases hvalue
  | pointer file referent => rw [hparam] at hvalue; cases hvalue

/-- An object is a pointer. -/
lemma Arg.Ok.count_of_isObject {clMem : ℕ} {a : Arg} (h : a.Ok clMem) (hobject : isObject a.kind = true) :
    a.param.vecDim * a.kind.valueSize clMem = clMem := by
  have hkind : a.kind = a.param.kind := by
    refine h.kind.resolve_right fun hsampler => ?_
    rw [hsampler.2] at hobject
    cases hobject
  rw [hkind] at hobject ⊢
  cases hparam : a.param with
  | value scalar vecDim =>
    rw [hparam] at hobject
    cases scalar <;> cases hobject
  | sampler =>
    rw [hparam] at hobject
    cases hobject
  | pointer file referent => cases referent <;> exact Nat.one_mul clMem

/-- The size of a sampler does not depend on whether it was recognised before. -/
lemma Arg.Ok.vecValueSize_sampler {clMem : ℕ} {a : Arg} (h : a.Ok clMem) (hparam : a.param = .sampler) :
    a.vecValueSize clMem = 4 := by
  rw [Arg.vecValueSize, hparam]
  rcases h.kind with hkind | ⟨-, hkind⟩
  · rw [hkind, hparam]
    rfl
  · rw [hkind]
    rfl

/-- What `setArg` does to the argument. -/
theorem set_spec {host : Host} {a : Arg} (h : a.Ok host.clMem) {c : Call}
    (hreg : a.param.file ≠ .loc → (recognised host a c ≠ none → a.param = .sampler) ∧
      (a.param.vecDim = 3 → c.size ≠ a.vecValueSize host.clMem ∨ c.value = none)) :
    ∃ code a', a.set host c = some (code, a') ∧ SetSpec host a c code a' := by
  unfold Arg.set
  by_cases hfile : a.param.file = .loc
  · rw [if_pos hfile]
    split_ifs with hsize hvalue
    · exact ⟨_, _, rfl, .error h (by decide)⟩
    · exact ⟨_, _, rfl, .error h (by decide)⟩
    · refine ⟨_, _, rfl, rfl, ⟨h.block, h.kind⟩, fun hs => absurd rfl hs, fun _ => rfl, fun _ hisValue => ?_⟩
      rw [file_of_isValue hisValue] at hfile
      cases hfile
  rw [if_neg hfile]
  obtain ⟨hsampler, hthree⟩ := hreg hfile
  cases hrec : recognised host a c with
  | some bitfield =>
    have hparam : a.param = .sampler := hsampler (by rw [hrec]; exact Option.some_ne_none bitfield)
    have hsize := h.vecValueSize_sampler hparam
    have hrefined : (a.refineKind .sampler).vecValueSize host.clMem = 4 := by
      rw [Arg.vecValueSize, Arg.refineKind, hparam]
      rfl
    have hblocks : ∀ b ∈ (a.refineKind .sampler).data,
        b.length = (a.refineKind .sampler).vecValueSize host.clMem := by
      intro b hb
      rw [hrefined, ← hsize]
      exact h.block b hb
    obtain ⟨block, hstore, hlen, -⟩ := store_spec hblocks (List.ofFn bitfield)
      (by rw [List.length_ofFn, Arg.refineKind, hparam]; exact Nat.le_refl 4)
    refine ⟨.success, _, ?_, .stored (Or.inr ⟨hparam, rfl⟩) hlen fun hisValue => ?_⟩
    · dsimp only
      rw [hstore]
      rfl
    · rw [hparam] at hisValue
      cases hisValue
  | none =>
    dsimp only
    by_cases hsize : c.size = a.vecValueSize host.clMem
    · rw [if_neg (not_not.mpr hsize)]
      cases hobject : isObject a.kind with
      | true =>
        rw [if_pos rfl]
        have hlen : ((c.value.map host.pobj).getD (List.replicate host.clMem 0)).length = host.clMem := by
          cases c.value with
          | none => exact List.length_replicate
          | some bytes => exact host.length_pobj bytes
        obtain ⟨block, hstore, hblock, -⟩ := store_spec h.block
          ((c.value.map host.pobj).getD (List.replicate host.clMem 0))
          (by rw [hlen, h.count_of_isObject hobject])
        refine ⟨.success, _, ?_, .stored h.kind hblock fun hisValue => ?_⟩
        · rw [hstore]
          rfl
        · rw [h.not_isObject hisValue] at hobject
          cases hobject
      | false =>
        rw [if_neg Bool.false_ne_true]
        cases hvalue : c.value with
        | none => exact ⟨_, _, rfl, .error h (by decide)⟩
        | some bytes =>
          have hlen : bytes.length = a.vecValueSize host.clMem := (c.length_value bytes hvalue).trans hsize
          obtain ⟨block, hstore, hblock, hall⟩ := store_spec h.block bytes
            (hlen ▸ count_le host.clMem a)
          refine ⟨.success, _, ?_, .stored h.kind hblock fun _ => ⟨bytes, hvalue, hall (fun hdim => ?_) hlen⟩⟩
          · dsimp only
            rw [hstore]
            rfl
          · rcases hthree hdim with hne | hnone
            · exact hne hsize
            · rw [hvalue] at hnone
              cases hnone
    · rw [if_pos hsize]
      exact ⟨_, _, rfl, .error h (by decide)⟩

/-! ### Runs -/

/-- The arguments agree with the parameters, and those are defined for which a call succeeded. -/
structure StateOk (host : Host) (params : List Param) (s : State) : Prop where
  params : s.args.map Arg.param = params
  ok : ∀ a ∈ s.args, a.Ok host.clMem
  defined : ∀ (i : ℕ) (a : Arg), s.args[i]? = some a → (a.defined = true ↔ i ∈ s.succeeded)

/-- A new kernel. -/
lemma StateOk.start (host : Host) (params : List Param) : StateOk host params (.start params) := by
  refine ⟨?_, fun a ha => ?_, fun i a ha => ?_⟩
  · rw [State.start, List.map_map]
    exact List.map_id params
  · obtain ⟨param, -, rfl⟩ := List.mem_map.mp ha
    exact ⟨by simp [Arg.new], Or.inl rfl⟩
  · obtain ⟨param, -, rfl⟩ := List.mem_map.mp (List.mem_of_getElem? ha)
    simp [Arg.new, State.start]

namespace StateOk

variable {host : Host} {params : List Param} {s : State}

/-- A regular call with an index that is too large, or the argument that it is about. -/
lemma setArg_cases (h : StateOk host params s) {c : Call} (hreg : Regular host s.args c) :
    (s.args.length < c.index ∧ setArg host s.args c = some (.invalidArgIndex, s.args)) ∨
      ∃ a code a', s.args[c.index]? = some a ∧ SetSpec host a c code a' ∧
        setArg host s.args c = some (code, s.args.set c.index a') := by
  rcases Nat.lt_trichotomy s.args.length c.index with hlt | heq | hlt
  · exact Or.inl ⟨hlt, if_pos hlt⟩
  · exact absurd heq.symm hreg.1
  · have ha : s.args[c.index]? = some s.args[c.index] := List.getElem?_eq_getElem hlt
    obtain ⟨code, a', hset, hspec⟩ := set_spec (h.ok _ (List.mem_of_getElem? ha)) (hreg.2 _ ha)
    refine Or.inr ⟨_, code, a', ha, hspec, ?_⟩
    rw [setArg, if_neg (Nat.not_lt.mpr hlt.le), ha, Option.bind_some, hset]
    rfl

/-- A regular call is exact. -/
lemma exact (h : StateOk host params s) {c : Call} (hreg : Regular host s.args c) : Exact host s.args c := by
  rcases h.setArg_cases hreg with ⟨-, heq⟩ | ⟨a, code, a', ha, hspec, heq⟩
  · exact ⟨_, _, heq, fun _ => rfl, fun hs => Code.noConfusion hs, fun hs => Code.noConfusion hs⟩
  refine ⟨code, _, heq, fun hs => ?_, fun _ i hi => List.getElem?_set_ne hi.symm, fun hs b hb hisValue => ?_⟩
  · rw [hspec.unchanged hs]
    obtain ⟨hlt, rfl⟩ := List.getElem?_eq_some_iff.mp ha
    exact List.set_getElem_self hlt
  · obtain rfl : a = b := Option.some.inj (ha.symm.trans hb)
    obtain ⟨bytes, hbytes, hdata⟩ := hspec.exact hs hisValue
    obtain ⟨hlt, -⟩ := List.getElem?_eq_some_iff.mp ha
    exact ⟨bytes, a', hbytes, List.getElem?_set_self hlt, hdata⟩

/-- A regular call is possible and keeps the invariant. -/
lemma step (h : StateOk host params s) {c : Call} (hreg : Regular host s.args c) :
    ∃ s', SetArg.step host s c = some s' ∧ StateOk host params s' := by
  rcases h.setArg_cases hreg with ⟨-, heq⟩ | ⟨a, code, a', ha, hspec, heq⟩
  · exact ⟨_, by rw [SetArg.step, heq]; rfl, h.params, h.ok, h.defined⟩
  have hstep : SetArg.step host s c = some
      ⟨s.args.set c.index a', if code = .success then c.index :: s.succeeded else s.succeeded⟩ := by
    rw [SetArg.step, heq]
    rfl
  refine ⟨_, hstep, ?_, fun b hb => ?_, fun i b hb => ?_⟩
  · have hparam : (s.args.map Arg.param)[c.index]? = some a.param := by
      rw [List.getElem?_map, ha]
      rfl
    obtain ⟨hlt, hget⟩ := List.getElem?_eq_some_iff.mp hparam
    rw [← h.params, List.map_set, hspec.param, ← hget]
    exact List.set_getElem_self hlt
  · rcases List.mem_or_eq_of_mem_set hb with hold | rfl
    · exact h.ok b hold
    · exact hspec.ok
  · by_cases hi : i = c.index
    · subst hi
      obtain ⟨hlt, -⟩ := List.getElem?_eq_some_iff.mp ha
      obtain rfl : a' = b := Option.some.inj ((List.getElem?_set_self hlt).symm.trans hb)
      by_cases hs : code = .success
      · rw [if_pos hs, hspec.defined hs]
        simp
      · rw [if_neg hs, hspec.unchanged hs]
        exact h.defined _ a ha
    · rw [List.getElem?_set_ne (Ne.symm hi)] at hb
      rw [h.defined i b hb]
      split_ifs
      · rw [List.mem_cons, or_iff_right hi]
      · rfl

/-- All arguments are specified if and only if a call succeeded for each of them. -/
lemma argsSpecified_iff (h : StateOk host params s) :
    argsSpecified s.args = true ↔ ∀ i < params.length, i ∈ s.succeeded := by
  have hlen : s.args.length = params.length := by rw [← h.params, List.length_map]
  rw [argsSpecified, List.all_eq_true, ← hlen]
  constructor
  · intro hall i hi
    have ha : s.args[i]? = some s.args[i] := List.getElem?_eq_getElem hi
    exact (h.defined i _ ha).mp (hall _ (List.mem_of_getElem? ha))
  · intro hall a ha
    obtain ⟨i, hi⟩ := List.getElem?_of_mem ha
    have hlt := (List.getElem?_eq_some_iff.mp hi).1
    exact (h.defined i a hi).mpr (hall i hlt)

end StateOk

/-- Any regular calls are possible on a new kernel; every further one is exact, and the arguments are
specified if and only if a call succeeded for each of them. -/
theorem exact_of_run (host : Host) (params : List Param) {calls : List Call}
    (hreg : RunOk (step host) (fun s c => Regular host s.args c) (.start params) calls) :
    ∃ s, run (step host) (.start params) calls = some s ∧ s.args.length = params.length ∧
      (∀ c, Regular host s.args c → Exact host s.args c) ∧
      (argsSpecified s.args = true ↔ ∀ i < params.length, i ∈ s.succeeded) := by
  obtain ⟨s, hrun, hok⟩ := exists_run_of_runOk (I := StateOk host params) (fun s c h hc => h.step hc) hreg
    (StateOk.start host params)
  refine ⟨s, hrun, ?_, fun c hc => hok.exact hc, hok.argsSpecified_iff⟩
  rw [← hok.params, List.length_map]

/-- A value of some bytes has these bytes. -/
lemma length_of_mem_some (bytes : List Byte) : ∀ b ∈ some bytes, b.length = bytes.length := by
  rintro b ⟨⟩
  rfl

/-- A null value has no bytes. -/
lemma length_of_mem_none (size : ℕ) : ∀ b ∈ (none : Option (List Byte)), b.length = size := nofun

/-- A call with a value. -/
def Call.ofBytes (index : ℕ) (bytes : List Byte) : Call :=
  ⟨index, bytes.length, some bytes, length_of_mem_some bytes⟩

/-- A call without a value. -/
def Call.null (index size : ℕ) : Call := ⟨index, size, none, length_of_mem_none size⟩

/-- The objects of a handle are found four bytes before it. -/
def samplePobj (handle : List Byte) : List Byte :=
  match handle with
  | [b₀, b₁, b₂, b₃] => [b₀ - 4, b₁, b₂, b₃]
  | _ => [0, 0, 0, 0]

/-- The result is a pointer. -/
lemma length_samplePobj (handle : List Byte) : (samplePobj handle).length = 4 := by
  unfold samplePobj
  split <;> rfl

/-- A host with pointers of four bytes and one sampler. -/
def sampleHost : Host where
  clMem := 4
  samplerAt bytes := if bytes = [0x10, 0, 0, 0x80] then some (fun i => if i.val = 0 then 2 else 0) else none
  pobj := samplePobj
  length_pobj := length_samplePobj

/-- An integer, two floats, a buffer, local memory and a sampler. -/
def sampleParams : List Param :=
  [.value .int32 1, .value .float 2, .pointer .global .buffer, .pointer .loc .buffer, .sampler]

/-- Every argument is set, some calls fail. -/
def sampleCalls : List Call :=
  [.ofBytes 0 [1, 2, 3, 4], .ofBytes 6 [1, 2, 3, 4], .ofBytes 1 [1, 2, 3, 4],
    .ofBytes 1 [1, 2, 3, 4, 5, 6, 7, 8], .ofBytes 2 [0x20, 0, 0, 0x80], .null 3 64, .null 0 4,
    .ofBytes 4 [0x10, 0, 0, 0x80]]

/-- The calls of the sample. -/
theorem exact_of_run_sample :
    ∃ s, run (step sampleHost) (.start sampleParams) sampleCalls = some s ∧
      s.args.length = sampleParams.length ∧ (∀ c, Regular sampleHost s.args c → Exact sampleHost s.args c) ∧
      (argsSpecified s.args = true ↔ ∀ i < sampleParams.length, i ∈ s.succeeded) :=
  exact_of_run sampleHost sampleParams (by decide)

/-- A kernel with one argument: the argument with the index one is outside the vector. -/
theorem not_exact :
    ¬∀ (calls : List Call) (s : State) (c : Call),
      run (step sampleHost) (.start [.value .int32 1]) calls = some s → Exact sampleHost s.args c := by
  intro h
  obtain ⟨code, args', houtside, -⟩ := h [] _ (.ofBytes 1 [1, 2, 3, 4]) rfl
  cases houtside

end SetArg

end TiOpenCL
