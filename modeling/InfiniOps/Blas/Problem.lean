/-
InfiniOps.Blas.Problem — the inputs a GEMM is defined for, what it has to
compute, and when the three implementations can.

A `Problem` carries its own well-formedness: operands are matrices or
batches of matrices of consistent shapes, each row-major or column-major,
and sizes and strides fit the types that hold them. `specAt` is the wanted
value of one element of `c`, written over `elemOffset`, the strided address
of the tensor and nothing else. `Agrees` asks it of all three
implementations, for all data and scalars and over every library with the
documented semantics; `Fits` is the condition it turns out to hold under.
-/
import InfiniOps.Blas.Gemm

namespace InfiniOps.Blas

/-- The offset of element (`r`, `c`) of matrix `p` of a tensor. -/
def elemOffset (t : Tensor) (p r c : Nat) : Int :=
  p * batchStride t + (r * t.stride (-2) + c * t.stride (-1))

/-- The offset of element (`r`, `c`) of op(`t`). -/
def opOffset (t : Tensor) (trans : Bool) (p r c : Nat) : Int :=
  if trans then elemOffset t p c r else elemOffset t p r c

def RowMajor (t : Tensor) : Prop := t.stride (-1) = 1 ∧ (t.size (-1) : Int) ≤ t.stride (-2)

def ColMajor (t : Tensor) : Prop := t.stride (-2) = 1 ∧ (t.size (-2) : Int) ≤ t.stride (-1)

instance (t : Tensor) : Decidable (RowMajor t) := inferInstanceAs (Decidable (_ ∧ _))

instance (t : Tensor) : Decidable (ColMajor t) := inferInstanceAs (Decidable (_ ∧ _))

/-- A row- or column-major matrix, or a batch of such matrices. -/
structure IsMatrix (t : Tensor) (batch rows cols : Nat) : Prop where
  shape : t.shape = [rows, cols] ∨ t.shape = [batch, rows, cols]
  length_strides : t.strides.length = t.shape.length
  layout : RowMajor t ∨ ColMajor t
  /-- Strides are `ptrdiff_t`. -/
  stride_lt : ∀ s ∈ t.strides, s < 2 ^ 63

/-- Consistent operands. `a` and `b` may be shared over the batch. -/
structure Problem where
  a : Tensor
  b : Tensor
  c : Tensor
  transA : Option Bool
  transB : Option Bool
  batch : Nat
  m : Nat
  n : Nat
  k : Nat
  m_pos : 0 < m
  n_pos : 0 < n
  k_pos : 0 < k
  /-- Sizes are `size_t`. -/
  size_lt : m < 2 ^ 64 ∧ n < 2 ^ 64 ∧ k < 2 ^ 64
  batch_lt : batch < 2 ^ 31
  a_matrix : IsMatrix a batch (if transA.getD false then k else m) (if transA.getD false then m else k)
  b_matrix : IsMatrix b batch (if transB.getD false then n else k) (if transB.getD false then k else n)
  c_matrix : IsMatrix c batch m n
  /-- A `c` without a batch extent is one matrix. -/
  c_batch : c.shape.length = 2 → batch = 1

namespace Problem

variable (p : Problem)

/-- The scalar arguments of a call; a transpose flag is 0 or 1. -/
def scalars (alpha beta : Option ℚ) : Scalars where
  alpha
  beta
  transA := p.transA.map fun t => if t then 1 else 0
  transB := p.transB.map fun t => if t then 1 else 0

def ta : Bool := p.transA.getD false

def tb : Bool := p.transB.getD false

/-- alpha * op(a) * op(b) + beta * c at batch `q`, row `i`, column `j`. -/
def specAt (alpha beta : ℚ) (A B C : Data) (q i j : Nat) : ℚ :=
  alpha * ((List.range p.k).map fun l =>
      A (opOffset p.a p.ta q i l) * B (opOffset p.b p.tb q l j)).sum
    + beta * C (elemOffset p.c q i j)

/-- What `BlasGemm`, the cuBLASLt operator and the CPU loop leave in `c`. -/
def blasResult (lib : BlasLib) (A B C : Data) (s : Scalars) : Data :=
  (CudaGemm.new p.a p.b s p.c).blasGemm lib A B s C

@[inherit_doc blasResult]
def ltResult (lib : LtLib) (A B C : Data) (s : Scalars) : Data :=
  (CudaGemm.new p.a p.b s p.c).ltGemm lib A B s C

@[inherit_doc blasResult]
def cpuResult (A B C : Data) (s : Scalars) : Data :=
  (Gemm.new p.a p.b s p.c).compute A B s C

/-- All three compute the wanted value at every batch, row and column. -/
def Agrees : Prop :=
  ∀ (blas : BlasLib) (lt : LtLib) (alpha beta : Option ℚ) (A B C : Data) (q i j : Nat),
    q < p.batch → i < p.m → j < p.n →
      let want := p.specAt (alpha.getD 1) (beta.getD 1) A B C q i j
      p.blasResult blas A B C (p.scalars alpha beta) (elemOffset p.c q i j) = want ∧
      p.ltResult lt A B C (p.scalars alpha beta) (elemOffset p.c q i j) = want ∧
      p.cpuResult A B C (p.scalars alpha beta) (elemOffset p.c q i j) = want

/-- The extent that the leading dimension multiplies. -/
def ldExtent (t : Tensor) : Nat := if t.stride (-1) = 1 then t.size (-2) else t.size (-1)

/-- The leading dimension survives a conversion to `int`, or is only ever
multiplied by 0. -/
def LdFits (t : Tensor) : Prop := leadingDim t < 2 ^ 31 ∨ ldExtent t = 1

/-- No two elements of `c` share an address, and what `BlasGemm` passes as
`int` is one. -/
structure Fits : Prop where
  distinct : ∀ q i j q' i' j', q < p.batch → i < p.m → j < p.n → q' < p.batch → i' < p.m →
    j' < p.n → elemOffset p.c q i j = elemOffset p.c q' i' j' → (q, i, j) = (q', i', j')
  m_lt : p.m < 2 ^ 31
  n_lt : p.n < 2 ^ 31
  k_lt : p.k < 2 ^ 31
  a_ld : LdFits p.a
  b_ld : LdFits p.b
  c_ld : LdFits p.c

end Problem

end InfiniOps.Blas
