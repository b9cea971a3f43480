/-
InfiniOps.Core.CacheKey — the key of the per-thread operator cache in
`Operator<Key>::Call` (`src/operator.h`).

`CacheKey::Build` folds the implementation index and every argument of a
call into two 64-bit chains and one list of tensors:

* a plain tensor and each element of a `std::vector<Tensor>` go into
  `hash` and are stored in `tensors`, the vector's size goes into `hash`;
* everything else (plain and optional scalars, optional tensors) goes
  through the generic `Absorb` into `hash` and `scalar_hash` only.

`Args σ` is an argument list of the type pack `σ`, so two argument lists
"of the same types" are two values of one Lean type. The module ends with
what a cache hit is (`SameEntry`) and what a hit ought to imply
(`CallsAgree`); the two are compared in `CacheKeyTheorems`.
-/
import InfiniOps.Core.Hash

namespace InfiniOps

/-- `Config`. -/
structure Config where
  implementationIndex : SizeT := 0
  deriving DecidableEq, Repr

/-! ## Arguments -/

/-- The scalar types that operators take. -/
inductive ScalarTy where
  | bool | int | int64 | sizeT | float | double
  deriving DecidableEq, Repr

/-- A scalar is its bit pattern. -/
abbrev ScalarTy.Val : ScalarTy → Type
  | .bool => Bool
  | .int => BitVec 32
  | .int64 => BitVec 64
  | .sizeT => BitVec 64
  | .float => BitVec 32
  | .double => BitVec 64

/-- `std::hash` of a scalar: the identity on integers, sign-extended for
`int`. -/
def ScalarTy.hash (H : StdHash) : (s : ScalarTy) → s.Val → SizeT
  | .bool, b => if b then 1 else 0
  | .int, v => v.signExtend 64
  | .int64, v => v
  | .sizeT, v => v
  | .float, v => H.ofFloat v
  | .double, v => H.ofDouble v

/-- The types whose `std::hash` is the value itself. -/
def ScalarTy.Integral : ScalarTy → Prop
  | .bool | .int | .int64 | .sizeT => True
  | .float | .double => False

/-- The argument types of `Call`. -/
inductive ArgTy where
  | tensor
  | tensors
  | optTensor
  | scalar (s : ScalarTy)
  | optScalar (s : ScalarTy)
  deriving DecidableEq, Repr

abbrev ArgTy.Val : ArgTy → Type
  | .tensor => Tensor
  | .tensors => List Tensor
  | .optTensor => Option Tensor
  | .scalar s => s.Val
  | .optScalar s => Option s.Val

/-- Argument lists of a type pack. -/
inductive Args : List ArgTy → Type where
  | nil : Args []
  | cons {τ : ArgTy} {σ : List ArgTy} (v : τ.Val) (rest : Args σ) : Args (τ :: σ)

/-! ## `CacheKey::Build` -/

/-- `CacheKey`. -/
structure CacheKey where
  hash : SizeT := 0
  tensors : List Tensor := []
  scalarHash : SizeT := 0
  deriving DecidableEq

namespace CacheKey

/-- `Absorb(const Tensor&)`. -/
def absorbTensor (key : CacheKey) (t : Tensor) : CacheKey :=
  { key with hash := hashCombine key.hash t.hash, tensors := key.tensors ++ [t] }

/-- `Absorb(const std::vector<Tensor>&)`. -/
def absorbTensors (key : CacheKey) (ts : List Tensor) : CacheKey :=
  ts.foldl absorbTensor { key with hash := hashCombine key.hash (BitVec.ofNat 64 ts.length) }

/-- The generic `Absorb(const T&)`, given `std::hash` of the value. -/
def absorbHash (key : CacheKey) (h : SizeT) : CacheKey :=
  { key with hash := hashCombine key.hash h, scalarHash := hashCombine key.scalarHash h }

/-- `std::hash` of an argument that takes the generic `Absorb`. An
optional that holds a value hashes as the value. -/
def optHash (H : StdHash) {α : Type} (f : α → SizeT) : Option α → SizeT
  | none => H.ofNullopt
  | some v => f v

/-- The overload of `Absorb` that an argument's type selects. -/
def absorb (H : StdHash) (key : CacheKey) : (τ : ArgTy) → τ.Val → CacheKey
  | .tensor, t => key.absorbTensor t
  | .tensors, ts => key.absorbTensors ts
  | .optTensor, t => key.absorbHash (optHash H Tensor.hash t)
  | .scalar s, v => key.absorbHash (s.hash H v)
  | .optScalar s, v => key.absorbHash (optHash H (s.hash H) v)

/-- The fold `(key.Absorb(args), ...)`. -/
def absorbAll (H : StdHash) (key : CacheKey) : {σ : List ArgTy} → Args σ → CacheKey
  | _, .nil => key
  | _, .cons (τ := τ) v rest => absorbAll H (key.absorb H τ v) rest

/-- `CacheKey::Build(config.implementation_index(), args...)`. -/
def build (H : StdHash) (config : Config) {σ : List ArgTy} (args : Args σ) : CacheKey :=
  ({} : CacheKey).absorbHash config.implementationIndex |>.absorbAll H args

/-- `std::equal_to<Tensor>`. -/
def tensorEq (a b : Tensor) : Bool :=
  a.dtype == b.dtype && a.device == b.device && a.shape == b.shape && a.strides == b.strides

/-- `std::equal_to<CacheKey>`. -/
def equalTo (a b : CacheKey) : Bool :=
  if a.scalarHash ≠ b.scalarHash then false
  else if a.tensors.length ≠ b.tensors.length then false
  else (a.tensors.zip b.tensors).all fun p => tensorEq p.1 p.2

/-- What `cache.find` takes for one entry: equal stored hashes, then
`equal_to`. -/
def SameEntry (a b : CacheKey) : Prop := a.hash = b.hash ∧ a.equalTo b = true

instance (a b : CacheKey) : Decidable (SameEntry a b) :=
  inferInstanceAs (Decidable (_ ∧ _))

end CacheKey

/-! ## Agreement of two calls -/

/-- Agreement of one argument: metadata for tensors, values for scalars,
and the same length for tensor vectors. -/
def ArgTy.Agree : (τ : ArgTy) → τ.Val → τ.Val → Prop
  | .tensor, a, b => a.SameMeta b
  | .tensors, a, b => List.Forall₂ Tensor.SameMeta a b
  | .optTensor, a, b => Option.Rel Tensor.SameMeta a b
  | .scalar _, a, b => a = b
  | .optScalar _, a, b => a = b

/-- Agreement of two argument lists, position by position. -/
def Args.Agree : {σ : List ArgTy} → Args σ → Args σ → Prop
  | _, .nil, .nil => True
  | _, .cons (τ := τ) v x, .cons w y => τ.Agree v w ∧ x.Agree y

/-- Two calls that an operator instance may serve alike: the same
implementation index and agreeing arguments. -/
def CallsAgree (c₁ c₂ : Config) {σ : List ArgTy} (x y : Args σ) : Prop :=
  c₁.implementationIndex = c₂.implementationIndex ∧ x.Agree y

end InfiniOps
