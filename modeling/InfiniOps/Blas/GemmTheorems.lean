/-
InfiniOps.Blas.GemmTheorems — the three GEMM implementations against
alpha * op(a) * op(b) + beta * c.

`BlasGemm` and the cuBLASLt operator describe the same product through
swapped operands and layout flags. `argsOf` is the common description with
the numbers left open (`Dims`), `pos` takes a (batch, row, column) position
of `c` to the position the library sees, and under it every layout reads
alike (`cOffset_pos`, `newValue_pos`).

From there the cuBLASLt operator, whose numbers pass through 64-bit types,
is right whenever the elements of `c` are distinct. `BlasGemm` converts
sizes and leading dimensions to `int`, and it is right exactly when they
survive it (`agrees_iff`). For the converse the data are chosen so that
the result counts: doubling `c` counts visits, which pins down the written
positions and the leading dimension of `c`; all-ones operands count the
inner dimension; an operand that holds its own addresses sums them, which
pins down its leading dimension.
-/
import InfiniOps.Blas.OperandTheorems

namespace InfiniOps.Blas

open StridedStore

/-! ## The arguments of the two CUDA operators in one form -/

/-- The numbers of a call, as the library receives them. -/
structure Dims where
  m : Int
  n : Int
  k : Int
  lda : Int
  ldb : Int
  ldc : Int
  strideA : Int
  strideB : Int
  strideC : Int
  batch : Int

namespace Problem

variable (p : Problem) (alpha beta : Option ℚ) (A B C : Data)

/-- Whether the operands are swapped. -/
def swaps : Bool := p.c.stride (-1) = 1

/-- A strided-batched GEMM over the operands of `p`. -/
def argsOf (d : Dims) : BlasArgs where
  opA := if p.swaps then (opFor p.b p.tb).flip else opFor p.a p.ta
  opB := if p.swaps then (opFor p.a p.ta).flip else opFor p.b p.tb
  m := if p.swaps then d.n else d.m
  n := if p.swaps then d.m else d.n
  k := d.k
  alpha := alpha.getD 1
  A := if p.swaps then B else A
  lda := if p.swaps then d.ldb else d.lda
  strideA := if p.swaps then d.strideB else d.strideA
  B := if p.swaps then A else B
  ldb := if p.swaps then d.lda else d.ldb
  strideB := if p.swaps then d.strideA else d.strideB
  beta := beta.getD 1
  ldc := d.ldc
  strideC := d.strideC
  batchCount := d.batch

/-- The numbers before any conversion. -/
def dims : Dims where
  m := p.m
  n := p.n
  k := p.k
  lda := leadingDim p.a
  ldb := leadingDim p.b
  ldc := leadingDim p.c
  strideA := batchStride p.a
  strideB := batchStride p.b
  strideC := batchStride p.c
  batch := p.batch

/-- The numbers as `cublasGemmStridedBatchedEx` receives them. -/
def dims32 : Dims where
  m := toInt32 p.m
  n := toInt32 p.n
  k := toInt32 p.k
  lda := toInt32 (leadingDim p.a)
  ldb := toInt32 (leadingDim p.b)
  ldc := toInt32 (leadingDim p.c)
  strideA := batchStride p.a
  strideB := batchStride p.b
  strideC := batchStride p.c
  batch := toInt32 p.batch

/-- The numbers of the cuBLASLt layouts: without batch attributes a layout
is one matrix. -/
def dimsLt : Dims :=
  if p.batch > 1 then p.dims else { p.dims with batch := 1, strideA := 0, strideB := 0, strideC := 0 }

theorem transValue_scalars (trans : Option Bool) :
    transValue (trans.map fun t => if t then 1 else 0)
      (transFlag (trans.map fun t => if t then 1 else 0)) = if trans.getD false then 1 else 0 := by
  rcases trans with _ | _ | _ <;> rfl

theorem transFlag_scalars (trans : Option Bool) :
    transFlag (trans.map fun t => if t then 1 else 0) = trans.getD false := by
  rcases trans with _ | _ | _ <;> rfl

theorem transA_value : transValue (p.scalars alpha beta).transA
    (Gemm.new p.a p.b (p.scalars alpha beta) p.c).transA = if p.ta then 1 else 0 :=
  transValue_scalars p.transA

theorem transB_value : transValue (p.scalars alpha beta).transB
    (Gemm.new p.a p.b (p.scalars alpha beta) p.c).transB = if p.tb then 1 else 0 :=
  transValue_scalars p.transB

theorem alpha_value : (p.scalars alpha beta).alpha.getD
    (Gemm.new p.a p.b (p.scalars alpha beta) p.c).alpha = alpha.getD 1 := by
  cases alpha <;> rfl

theorem beta_value : (p.scalars alpha beta).beta.getD
    (Gemm.new p.a p.b (p.scalars alpha beta) p.c).beta = beta.getD 1 := by
  cases beta <;> rfl

theorem getOpA_eq (s : Scalars) :
    (CudaGemm.new p.a p.b s p.c).getOpA (if p.ta then 1 else 0) (if p.tb then 1 else 0)
      = if p.swaps then (opFor p.b p.tb).flip else opFor p.a p.ta := by
  simp only [CudaGemm.getOpA, CudaGemm.new, CudaGemm.boolToInt, swaps, opFor]
  cases p.ta <;> cases p.tb <;> by_cases ha : p.a.stride (-1) = 1 <;>
    by_cases hb : p.b.stride (-1) = 1 <;> simp [ha, hb, BlasOp.flip]

theorem getOpB_eq (s : Scalars) :
    (CudaGemm.new p.a p.b s p.c).getOpB (if p.ta then 1 else 0) (if p.tb then 1 else 0)
      = if p.swaps then (opFor p.a p.ta).flip else opFor p.b p.tb := by
  simp only [CudaGemm.getOpB, CudaGemm.new, CudaGemm.boolToInt, swaps, opFor]
  cases p.ta <;> cases p.tb <;> by_cases ha : p.a.stride (-1) = 1 <;>
    by_cases hb : p.b.stride (-1) = 1 <;> simp [ha, hb, BlasOp.flip]

/-! ### The sizes that the base class reads -/

theorem new_m (s : Scalars) : (Gemm.new p.a p.b s p.c).m = p.m := p.c_matrix.size_rows

theorem new_n (s : Scalars) : (Gemm.new p.a p.b s p.c).n = p.n := p.c_matrix.size_cols

theorem new_k : (Gemm.new p.a p.b (p.scalars alpha beta) p.c).k = p.k := by
  have hrows := p.a_matrix.size_rows
  have hcols := p.a_matrix.size_cols
  simp only [Gemm.new, scalars, transFlag_scalars, hrows, hcols]
  cases p.transA.getD false <;> rfl

theorem new_batchCount (s : Scalars) : (Gemm.new p.a p.b s p.c).batchCount = p.batch := by
  have hlen := p.c_matrix.length_strides
  rcases p.c_matrix.shape with hs | hs
  · have hbatch := p.c_batch (by simp [hs])
    simp [Gemm.new, hlen, hs, hbatch]
  · simp [Gemm.new, hlen, hs, Tensor.size, Tensor.effectiveIndex]

theorem blasArgs_eq :
    (CudaGemm.new p.a p.b (p.scalars alpha beta) p.c).blasArgs A B (p.scalars alpha beta)
      = p.argsOf alpha beta A B p.dims32 := by
  have hswap : (CudaGemm.new p.a p.b (p.scalars alpha beta) p.c).swapAAndB = p.swaps := rfl
  have hbase : (CudaGemm.new p.a p.b (p.scalars alpha beta) p.c).toGemm
      = Gemm.new p.a p.b (p.scalars alpha beta) p.c := rfl
  unfold CudaGemm.blasArgs
  simp only [transA_value, transB_value, getOpA_eq, getOpB_eq, hswap, hbase, new_m, new_n, new_k,
    new_batchCount, alpha_value, beta_value, argsOf, dims32]
  cases p.swaps <;> simp [Gemm.new]

/-- A size that goes through `int64_t` into a layout. -/
theorem layout_size {x : Nat} (h : x < 2 ^ 64) : toUInt64 (toInt64 x) = x := toUInt64_toInt64 h

/-- A leading dimension that goes through `uint64_t` into a layout. -/
theorem layout_ld {t : Tensor} {batch rows cols : Nat} (h : IsMatrix t batch rows cols) :
    toInt64 (toUInt64 (leadingDim t)) = leadingDim t :=
  toInt64_toUInt64 (by have := h.leadingDim_pos; omega) h.leadingDim_lt

theorem toInt32_batch : toInt32 p.batch = p.batch := toInt32_natCast p.batch_lt

/-- The call that the cuBLASLt operator makes. -/
def ltCall : LtArgs :=
  (CudaGemm.new p.a p.b (p.scalars alpha beta) p.c).ltArgs A B (p.scalars alpha beta)

theorem ltCall_spec :
    (p.ltCall alpha beta A B).Valid ∧
      (p.ltCall alpha beta A B).toBlas = p.argsOf alpha beta A B p.dimsLt := by
  have hswap : (CudaGemm.new p.a p.b (p.scalars alpha beta) p.c).swapAAndB = p.swaps := rfl
  have hbase : (CudaGemm.new p.a p.b (p.scalars alpha beta) p.c).toGemm
      = Gemm.new p.a p.b (p.scalars alpha beta) p.c := rfl
  have hlda : (Gemm.new p.a p.b (p.scalars alpha beta) p.c).lda = leadingDim p.a := rfl
  have hldb : (Gemm.new p.a p.b (p.scalars alpha beta) p.c).ldb = leadingDim p.b := rfl
  have hldc : (Gemm.new p.a p.b (p.scalars alpha beta) p.c).ldc = leadingDim p.c := rfl
  have hm := layout_size p.size_lt.1
  have hn := layout_size p.size_lt.2.1
  have hk := layout_size p.size_lt.2.2
  have ha := layout_ld p.a_matrix
  have hb := layout_ld p.b_matrix
  have hc := layout_ld p.c_matrix
  have hbatch := p.toInt32_batch
  unfold ltCall CudaGemm.ltArgs
  simp only [transA_value, transB_value, getOpA_eq, getOpB_eq, hswap, hbase, new_m, new_n, new_k,
    new_batchCount, alpha_value, beta_value, CudaGemm.setStridedBatchAttributes, hlda, hldb, hldc]
  rcases hopA : opFor p.a p.ta <;> rcases hopB : opFor p.b p.tb <;>
    cases hsw : p.swaps <;> by_cases hone : p.batch > 1 <;>
    simp [LtArgs.Valid, LtArgs.toBlas, LtArgs.inner, argsOf, dimsLt, dims, BlasOp.flip, hopA, hopB,
      hsw, hone, hm, hn, hk, ha, hb, hc, hbatch, Gemm.new]

/-! ## Positions of `c` as the library sees them -/

/-- Swapped operands give the transposed product. -/
def pos (v : Nat × Nat × Nat) : Nat × Nat × Nat := if p.swaps then (v.1, v.2.2, v.2.1) else v

/-- The address of a position of `c` under given numbers. -/
def cAddr (d : Dims) (v : Nat × Nat × Nat) : Int :=
  (opFor p.c false).offset d.ldc d.strideC v.1 v.2.1 v.2.2

/-- The product at a position of `c` under given numbers. -/
def productAt (d : Dims) (v : Nat × Nat × Nat) : ℚ :=
  ((List.range d.k.toNat).map fun l =>
    A ((opFor p.a p.ta).offset d.lda d.strideA v.1 v.2.1 l)
      * B ((opFor p.b p.tb).offset d.ldb d.strideB v.1 l v.2.2)).sum

/-- The positions that a call with given numbers covers. -/
def covered (d : Dims) : List (Nat × Nat × Nat) := triples d.batch.toNat d.m.toNat d.n.toNat

variable (d : Dims)

theorem pos_pos (v : Nat × Nat × Nat) : p.pos (p.pos v) = v := by
  unfold pos
  cases p.swaps <;> rfl

theorem mem_positions_iff (v : Nat × Nat × Nat) :
    v ∈ (p.argsOf alpha beta A B d).positions ↔ p.pos v ∈ covered d := by
  obtain ⟨q, i, j⟩ := v
  unfold BlasArgs.positions argsOf covered pos
  cases p.swaps <;> simp only [Bool.false_eq_true, if_false, if_true, mem_triples]
  exact and_congr_right fun _ => and_comm

theorem positions_perm :
    (p.argsOf alpha beta A B d).positions.Perm ((covered d).map p.pos) := by
  have hinj : Function.Injective p.pos := Function.Involutive.injective p.pos_pos
  have hpositions : (p.argsOf alpha beta A B d).positions.Nodup := nodup_triples _ _ _
  refine (List.perm_ext_iff_of_nodup hpositions
    ((nodup_triples _ _ _).map hinj)).mpr fun v => ?_
  rw [mem_positions_iff, List.mem_map]
  constructor
  · exact fun hv => ⟨p.pos v, hv, p.pos_pos v⟩
  · rintro ⟨w, hw, rfl⟩
    rwa [pos_pos]

theorem cOffset_pos (v : Nat × Nat × Nat) :
    (p.argsOf alpha beta A B d).cOffset (p.pos v) = p.cAddr d v := by
  obtain ⟨q, i, j⟩ := v
  by_cases hone : p.c.stride (-1) = 1 <;>
    simp [BlasArgs.cOffset, argsOf, pos, cAddr, swaps, opFor, hone, BlasOp.offset]

/-- The addresses that the library writes. -/
theorem map_cOffset_perm :
    ((p.argsOf alpha beta A B d).positions.map (p.argsOf alpha beta A B d).cOffset).Perm
      ((covered d).map (p.cAddr d)) := by
  have hperm := (p.positions_perm alpha beta A B d).map (p.argsOf alpha beta A B d).cOffset
  rw [List.map_map] at hperm
  have hcomp : (p.argsOf alpha beta A B d).cOffset ∘ p.pos = p.cAddr d :=
    funext fun v => p.cOffset_pos alpha beta A B d v
  rwa [hcomp] at hperm

theorem newValue_pos (v : Nat × Nat × Nat) (cVal : ℚ) :
    (p.argsOf alpha beta A B d).newValue (p.pos v) cVal
      = alpha.getD 1 * p.productAt A B d v + beta.getD 1 * cVal := by
  obtain ⟨q, i, j⟩ := v
  have hbeta : ∀ x y : ℚ, (if beta.getD 1 = 0 then x else x + beta.getD 1 * y)
      = x + beta.getD 1 * y := by
    intro x y
    split
    · rename_i hzero
      rw [hzero, zero_mul, add_zero]
    · rfl
  unfold BlasArgs.newValue productAt argsOf pos
  cases p.swaps
  · simp only [Bool.false_eq_true, if_false, hbeta]
  · simp only [if_true, hbeta, BlasOp.offset_flip, mul_comm (B _)]

/-! ## Numbers that describe the problem -/

/-- The numbers are those of the problem, as far as they matter. -/
structure Exact : Prop where
  m : d.m = p.m
  n : d.n = p.n
  k : d.k = p.k
  batch : d.batch = p.batch
  lda : d.lda = leadingDim p.a ∨ ldExtent p.a = 1
  ldb : d.ldb = leadingDim p.b ∨ ldExtent p.b = 1
  ldc : d.ldc = leadingDim p.c ∨ ldExtent p.c = 1
  strides : (d.strideA = batchStride p.a ∧ d.strideB = batchStride p.b ∧
    d.strideC = batchStride p.c) ∨ p.batch ≤ 1

/-- The element of `c` at a position. -/
def cElem (v : Nat × Nat × Nat) : Int := elemOffset p.c v.1 v.2.1 v.2.2

/-- All positions of `c`. -/
def elements : List (Nat × Nat × Nat) := triples p.batch p.m p.n

/-- The wanted product at a position of `c`. -/
def wantedProduct (v : Nat × Nat × Nat) : ℚ :=
  ((List.range p.k).map fun l =>
    A (opOffset p.a p.ta v.1 v.2.1 l) * B (opOffset p.b p.tb v.1 l v.2.2)).sum

/-- The first matrix of a batch does not move with the batch stride. -/
theorem offset_congr_stride (op : BlasOp) (ld : Int) {s s' : Int} {q r c : Nat}
    (h : s = s' ∨ q = 0) : op.offset ld s q r c = op.offset ld s' q r c := by
  rcases h with rfl | rfl
  · rfl
  · cases op <;> simp [BlasOp.offset]

section Exact

variable {p d} (h : p.Exact d)
include h

theorem Exact.covered_eq : covered d = p.elements := by
  simp only [covered, elements, h.m, h.n, h.batch, Int.toNat_natCast]

theorem Exact.cAddr_eq {v : Nat × Nat × Nat} (hv : v ∈ p.elements) : p.cAddr d v = p.cElem v := by
  obtain ⟨q, i, j⟩ := v
  obtain ⟨hq, hi, hj⟩ := mem_triples.mp hv
  have hstride : d.strideC = batchStride p.c ∨ q = 0 :=
    h.strides.imp (fun hs => hs.2.2) fun hle => by omega
  have hview : opOffset p.c false q i j
      = (opFor p.c false).offset d.ldc (batchStride p.c) q i j :=
    p.c_matrix.opOffset_eq_offset h.ldc q hi hj
  rw [cAddr, offset_congr_stride _ _ hstride, ← hview]
  rfl

theorem Exact.productAt_eq {v : Nat × Nat × Nat} (hv : v ∈ p.elements) :
    p.productAt A B d v = p.wantedProduct A B v := by
  obtain ⟨q, i, j⟩ := v
  obtain ⟨hq, hi, hj⟩ := mem_triples.mp hv
  have hstrideA : d.strideA = batchStride p.a ∨ q = 0 :=
    h.strides.imp (fun hs => hs.1) fun hle => by omega
  have hstrideB : d.strideB = batchStride p.b ∨ q = 0 :=
    h.strides.imp (fun hs => hs.2.1) fun hle => by omega
  unfold productAt wantedProduct
  rw [h.k, Int.toNat_natCast]
  refine congrArg List.sum (List.map_congr_left fun l hl => ?_)
  rw [List.mem_range] at hl
  have hA : opOffset p.a p.ta q i l = (opFor p.a p.ta).offset d.lda (batchStride p.a) q i l :=
    p.a_matrix.opOffset_eq_offset h.lda q hi hl
  have hB : opOffset p.b p.tb q l j = (opFor p.b p.tb).offset d.ldb (batchStride p.b) q l j :=
    p.b_matrix.opOffset_eq_offset h.ldb q hl hj
  rw [hA, hB, offset_congr_stride _ _ hstrideA, offset_congr_stride _ _ hstrideB]

end Exact

theorem specAt_eq (v : Nat × Nat × Nat) :
    p.specAt (alpha.getD 1) (beta.getD 1) A B C v.1 v.2.1 v.2.2
      = alpha.getD 1 * p.wantedProduct A B v + beta.getD 1 * C (p.cElem v) := rfl

theorem map_cElem_nodup_iff :
    (p.elements.map p.cElem).Nodup ↔ ∀ v ∈ p.elements, ∀ w ∈ p.elements,
      p.cElem v = p.cElem w → v = w := by
  constructor
  · exact fun h v hv w hw heq => List.inj_on_of_nodup_map h hv hw heq
  · exact fun h => (nodup_triples _ _ _).map_on h

/-! ## The CPU loop -/

theorem foldl_add_eq_sum (L : List Nat) (f : Nat → ℚ) (init : ℚ) :
    L.foldl (fun sum l => sum + f l) init = init + (L.map f).sum := by
  induction L generalizing init with
  | nil => simp
  | cons l L ih => rw [List.foldl_cons, ih, List.map_cons, List.sum_cons, add_assoc]

/-- The strides that the loop picks are those of op(`t`). -/
theorem pickStrides {t : Tensor} {batch rows cols : Nat} (h : IsMatrix t batch rows cols)
    (trans : Bool) (q r c : Nat) :
    opOffset t trans q r c = q * batchStride t +
      (r * (if trans then strideFromEnd t.strides 1 else strideFromEnd t.strides 2)
        + c * (if trans then strideFromEnd t.strides 2 else strideFromEnd t.strides 1)) := by
  have hlen := h.two_le_length
  rw [strideFromEnd_eq t 1 (by omega) (by omega), strideFromEnd_eq t 2 (by omega) (by omega)]
  cases trans
  · rfl
  · simp only [opOffset, elemOffset, if_true]
    push_cast
    ring

/-- The loop is one read-modify-write per element of `c`. -/
theorem cpuResult_eq : p.cpuResult A B C (p.scalars alpha beta) =
    storeAll p.cElem (fun v cVal => alpha.getD 1 * p.wantedProduct A B v + beta.getD 1 * cVal)
      C p.elements := by
  have hnonzero : ∀ t : Bool, (if t then (1 : Int) else 0) ≠ 0 ↔ t = true := by decide
  have hbeta : ∀ c : ℚ, beta.getD 1 * (if beta.getD 1 = 0 then 0 else c) = beta.getD 1 * c := by
    intro c
    split <;> simp_all
  have hC : ∀ q i j : Nat, (q : Int) * batchStride p.c + (i * strideFromEnd p.c.strides 2
      + j * strideFromEnd p.c.strides 1) = elemOffset p.c q i j :=
    fun q i j => (pickStrides p.c_matrix false q i j).symm
  unfold cpuResult Gemm.compute
  simp only [transA_value, transB_value, alpha_value, beta_value, new_m, new_n, new_k,
    new_batchCount, hnonzero, foldl_add_eq_sum, zero_add, hbeta]
  rw [foldl_triples]
  unfold storeAll elements
  congr 1
  funext C v
  simp only [Gemm.new, hC, wantedProduct, cElem, pickStrides p.a_matrix p.ta,
    pickStrides p.b_matrix p.tb]

theorem cpuResult_at (hnodup : (p.elements.map p.cElem).Nodup) {v : Nat × Nat × Nat}
    (hv : v ∈ p.elements) :
    p.cpuResult A B C (p.scalars alpha beta) (p.cElem v)
      = p.specAt (alpha.getD 1) (beta.getD 1) A B C v.1 v.2.1 v.2.2 := by
  rw [cpuResult_eq, storeAll_at_of_nodup _ _ _ hnodup hv, specAt_eq]

/-! ## The libraries under the right numbers -/

/-- The numbers make the library write exactly the elements of `c`. -/
structure WritesC : Prop where
  covered_eq : covered d = p.elements
  cAddr_eq : ∀ v ∈ p.elements, p.cAddr d v = p.cElem v
  k_nonneg : 0 ≤ d.k

theorem Exact.writesC {p : Problem} {d : Dims} (h : p.Exact d) : p.WritesC d :=
  ⟨h.covered_eq, fun _ hv => h.cAddr_eq hv, by rw [h.k]; omega⟩

section Library

variable {p d} (h : p.WritesC d) (hnodup : (p.elements.map p.cElem).Nodup) (hbatch : 0 < p.batch)
include h hnodup

theorem WritesC.cOffset_nodup :
    ((p.argsOf alpha beta A B d).positions.map (p.argsOf alpha beta A B d).cOffset).Nodup := by
  rw [(p.map_cOffset_perm alpha beta A B d).nodup_iff, h.covered_eq,
    List.map_congr_left h.cAddr_eq]
  exact hnodup

omit hnodup in
theorem WritesC.mem_positions {v : Nat × Nat × Nat} (hv : v ∈ p.elements) :
    p.pos v ∈ (p.argsOf alpha beta A B d).positions := by
  rw [mem_positions_iff, pos_pos, h.covered_eq]
  exact hv

omit hnodup in
include hbatch in
/-- No size of the call is negative, since `c` has an element. -/
theorem WritesC.valid : (p.argsOf alpha beta A B d).Valid := by
  have hfirst : (0, 0, 0) ∈ covered d := by
    rw [h.covered_eq]
    exact mem_triples.mpr ⟨hbatch, p.m_pos, p.n_pos⟩
  obtain ⟨hb, hm, hn⟩ := mem_triples.mp hfirst
  have hk := h.k_nonneg
  unfold BlasArgs.Valid argsOf
  cases p.swaps <;> simp only [Bool.false_eq_true, if_false, if_true] <;> omega

include hbatch in
theorem WritesC.gemm_at (lib : BlasLib) {v : Nat × Nat × Nat} (hv : v ∈ p.elements) :
    lib.gemm (p.argsOf alpha beta A B d) C (p.cElem v)
      = alpha.getD 1 * p.productAt A B d v + beta.getD 1 * C (p.cElem v) := by
  have helement := lib.gemm_element _ C (h.valid alpha beta A B hbatch)
    (h.cOffset_nodup alpha beta A B hnodup) _ (h.mem_positions alpha beta A B hv)
  rwa [newValue_pos, cOffset_pos, h.cAddr_eq v hv] at helement

theorem WritesC.matmul_at (lib : LtLib) {x : LtArgs} (hvalid : x.Valid)
    (hx : x.toBlas = p.argsOf alpha beta A B d) {v : Nat × Nat × Nat} (hv : v ∈ p.elements) :
    lib.matmul x C (p.cElem v)
      = alpha.getD 1 * p.productAt A B d v + beta.getD 1 * C (p.cElem v) := by
  have helement := lib.matmul_element x C hvalid
  rw [hx] at helement
  have helement := helement (h.cOffset_nodup alpha beta A B hnodup) _
    (h.mem_positions alpha beta A B hv)
  rwa [newValue_pos, cOffset_pos, h.cAddr_eq v hv] at helement

end Library

theorem exact_dimsLt (hbatch : 0 < p.batch) : p.Exact p.dimsLt := by
  unfold dimsLt
  split
  · exact ⟨rfl, rfl, rfl, rfl, .inl rfl, .inl rfl, .inl rfl, .inl ⟨rfl, rfl, rfl⟩⟩
  · rename_i hone
    refine ⟨rfl, rfl, rfl, ?_, .inl rfl, .inl rfl, .inl rfl, .inr (by omega)⟩
    show (1 : Int) = p.batch
    omega

theorem toInt32_ld {t : Tensor} {batch rows cols : Nat} (h : IsMatrix t batch rows cols)
    (hfits : LdFits t) : toInt32 (leadingDim t) = leadingDim t ∨ ldExtent t = 1 :=
  hfits.imp_left (toInt32_eq_self_iff (by have := h.leadingDim_pos; omega)).mpr

theorem Fits.exact_dims32 {p : Problem} (h : p.Fits) : p.Exact p.dims32 := by
  have hm : toInt32 p.m = p.m := toInt32_natCast h.m_lt
  have hn : toInt32 p.n = p.n := toInt32_natCast h.n_lt
  have hk : toInt32 p.k = p.k := toInt32_natCast h.k_lt
  exact ⟨hm, hn, hk, p.toInt32_batch, toInt32_ld p.a_matrix h.a_ld, toInt32_ld p.b_matrix h.b_ld,
    toInt32_ld p.c_matrix h.c_ld, .inl ⟨rfl, rfl, rfl⟩⟩

theorem Fits.nodup {p : Problem} (h : p.Fits) : (p.elements.map p.cElem).Nodup := by
  rw [map_cElem_nodup_iff]
  rintro ⟨q, i, j⟩ hv ⟨q', i', j'⟩ hw heq
  obtain ⟨hq, hi, hj⟩ := mem_triples.mp hv
  obtain ⟨hq', hi', hj'⟩ := mem_triples.mp hw
  exact h.distinct q i j q' i' j' hq hi hj hq' hi' hj' heq

/-- The cuBLASLt operator needs nothing but a `c` of distinct elements. -/
theorem ltResult_at (lib : LtLib) (hnodup : (p.elements.map p.cElem).Nodup)
    {v : Nat × Nat × Nat} (hv : v ∈ p.elements) :
    p.ltResult lib A B C (p.scalars alpha beta) (p.cElem v)
      = p.specAt (alpha.getD 1) (beta.getD 1) A B C v.1 v.2.1 v.2.2 := by
  obtain ⟨hq, -⟩ := mem_triples.mp hv
  have hexact := p.exact_dimsLt (by omega)
  obtain ⟨hvalid, hlt⟩ := p.ltCall_spec alpha beta A B
  have hmatmul := hexact.writesC.matmul_at alpha beta A B C hnodup lib hvalid hlt hv
  rwa [hexact.productAt_eq A B hv] at hmatmul

theorem agrees_of_fits {p : Problem} (h : p.Fits) : p.Agrees := by
  intro blas lt alpha beta A B C q i j hq hi hj
  have hv : (q, i, j) ∈ p.elements := mem_triples.mpr ⟨hq, hi, hj⟩
  have hnodup := h.nodup
  have hblas :=
    h.exact_dims32.writesC.gemm_at alpha beta A B C hnodup (by omega) blas hv
  rw [h.exact_dims32.productAt_eq A B hv] at hblas
  refine ⟨?_, p.ltResult_at alpha beta A B C lt hnodup hv,
    p.cpuResult_at alpha beta A B C hnodup hv⟩
  rw [blasResult, CudaGemm.blasGemm, blasArgs_eq]
  exact hblas

/-! ## A library to test against -/

end Problem

instance (x : BlasArgs) : Decidable x.Valid := inferInstanceAs (Decidable (_ ∧ _))

/-- The library that runs through C position by position. -/
def BlasLib.sequential : BlasLib where
  gemm x C := if x.Valid then storeAll x.cOffset x.newValue C x.positions else C
  gemm_of_not_valid _ _ h := if_neg h
  gemm_element _ _ h hnodup _ hv := by
    rw [if_pos h, storeAll_at_of_nodup _ _ _ hnodup hv]
  gemm_frame _ _ h _ o ho := by
    rw [if_pos h, storeAll_of_notMem _ _ _ ho]

@[inherit_doc BlasLib.sequential]
def LtLib.sequential : LtLib where
  matmul x C := storeAll x.toBlas.cOffset x.toBlas.newValue C x.toBlas.positions
  matmul_element _ _ _ hnodup _ hv := storeAll_at_of_nodup _ _ _ hnodup hv

namespace Problem

variable {p : Problem} {A B : Data} (h : p.Agrees) (hbatch : 0 < p.batch)

/-! ## What agreement says about the numbers -/

theorem iterate_double (n : Nat) : (fun x : ℚ => 2 * x)^[n] 1 = 2 ^ n := by
  induction n with
  | zero => rfl
  | succ n ih => rw [Function.iterate_succ_apply', ih, pow_succ, mul_comm]

theorem two_pow_eq_two {n : Nat} (h : (2 : ℚ) ^ n = 2) : n = 1 := by
  have hnat : 2 ^ n = 2 ^ 1 := by exact_mod_cast h
  exact Nat.pow_right_injective (le_refl 2) hnat

/-- A product of sizes that may only shrink and does not is of the same
sizes. -/
theorem sizes_eq_of_le {b m n m' n' : Nat} (hb : 0 < b) (hm : 0 < m) (hn : 0 < n)
    (hm' : m' ≤ m) (hn' : n' ≤ n) (hle : b * (m * n) ≤ b * (m' * n')) : m' = m ∧ n' = n := by
  have hle := Nat.le_of_mul_le_mul_left hle hb
  constructor
  · by_contra hne
    have hlt : m' * n' < m * n := Nat.mul_lt_mul_of_lt_of_le (by omega) hn' hn
    omega
  · by_contra hne
    have hlt : m' * n' < m * n := Nat.mul_lt_mul_of_le_of_lt hm' (by omega) hm
    omega

/-- An offset, split at the leading dimension. -/
theorem offset_split (op : BlasOp) (ld stride : Int) (q r c : Nat) :
    op.offset ld stride q r c
      = (q * stride + if op = .t then (c : Int) else r) + (if op = .t then (r : Int) else c) * ld := by
  cases op <;> simp [BlasOp.offset] <;> ring

theorem exists_element (hbatch : 0 < p.batch) : (0, 0, 0) ∈ p.elements :=
  mem_triples.mpr ⟨hbatch, p.m_pos, p.n_pos⟩

theorem sum_map_cast (L : List Nat) (f : Nat → Int) :
    (L.map fun l => (f l : ℚ)).sum = ((L.map f).sum : Int) := by
  induction L with
  | nil => simp
  | cons l L ih => simp [ih]

include h

/-- Doubling an all-ones `c` shows that the CPU loop visits every address
once. -/
theorem Agrees.nodup : (p.elements.map p.cElem).Nodup := by
  rw [List.nodup_iff_count_eq_one]
  intro o ho
  obtain ⟨⟨q, i, j⟩, hv, rfl⟩ := List.mem_map.mp ho
  obtain ⟨hq, hi, hj⟩ := mem_triples.mp hv
  have hcpu := (h .sequential .sequential (some 0) (some 2) 0 0 (fun _ => 1) q i j hq hi hj).2.2
  rw [cpuResult_eq] at hcpu
  have hupd : (fun (v : Nat × Nat × Nat) (cVal : ℚ) =>
      (some 0).getD 1 * p.wantedProduct 0 0 v + (some 2).getD 1 * cVal)
        = fun _ => fun x : ℚ => 2 * x := by
    funext v cVal
    simp
  rw [hupd, show elemOffset p.c q i j = p.cElem (q, i, j) from rfl, storeAll_const,
    iterate_double] at hcpu
  exact two_pow_eq_two (by simpa [specAt] using hcpu)

/-- The same for the addresses that `BlasGemm` has the library write, which
also shows that the call is not rejected. -/
theorem Agrees.count_cOffset {v : Nat × Nat × Nat} (hv : v ∈ p.elements) :
    (p.argsOf (some 0) (some 2) 0 0 p.dims32).Valid ∧
      ((p.argsOf (some 0) (some 2) 0 0 p.dims32).positions.map
        (p.argsOf (some 0) (some 2) 0 0 p.dims32).cOffset).count (p.cElem v) = 1 := by
  obtain ⟨q, i, j⟩ := v
  obtain ⟨hq, hi, hj⟩ := mem_triples.mp hv
  have hblas := (h .sequential .sequential (some 0) (some 2) 0 0 (fun _ => 1) q i j hq hi hj).1
  rw [blasResult, CudaGemm.blasGemm, blasArgs_eq,
    show elemOffset p.c q i j = p.cElem (q, i, j) from rfl] at hblas
  generalize hx : p.argsOf (some 0) (some 2) 0 0 p.dims32 = x at hblas ⊢
  have hwant : p.specAt ((some 0).getD 1) ((some 2).getD 1) 0 0 (fun _ => 1) q i j = 2 := by
    simp [specAt]
  rw [hwant, BlasLib.sequential] at hblas
  by_cases hvalid : x.Valid
  · refine ⟨hvalid, ?_⟩
    have hupd : x.newValue = fun _ => fun y : ℚ => 2 * y := by
      funext v cVal
      simp [← hx, BlasArgs.newValue, argsOf]
    simp only [if_pos hvalid, hupd, storeAll_const, iterate_double] at hblas
    exact two_pow_eq_two hblas
  · simp [if_neg hvalid] at hblas

/-- The elements of `c` are among the addresses written. -/
theorem Agrees.subperm :
    (p.elements.map p.cElem).Subperm ((covered p.dims32).map (p.cAddr p.dims32)) := by
  refine List.Nodup.subperm h.nodup ?_
  intro o ho
  obtain ⟨v, hv, rfl⟩ := List.mem_map.mp ho
  have hcount := (h.count_cOffset hv).2
  rw [(p.map_cOffset_perm (some 0) (some 2) 0 0 p.dims32).count_eq] at hcount
  exact List.count_pos_iff.mp (by omega)

include hbatch

/-- The library receives the sizes of `c`. -/
theorem Agrees.sizes : toInt32 p.m = p.m ∧ toInt32 p.n = p.n := by
  have hlength := h.subperm.length_le
  have hb := p.toInt32_batch
  have hm := toInt32_le (x := p.m) (by omega)
  have hn := toInt32_le (x := p.n) (by omega)
  have hmpos := p.m_pos
  have hnpos := p.n_pos
  simp only [List.length_map, elements, covered, length_triples, dims32, hb,
    Int.toNat_natCast] at hlength
  obtain ⟨hm', hn'⟩ := sizes_eq_of_le hbatch hmpos hnpos (by omega) (by omega) hlength
  omega

theorem Agrees.covered_eq : covered p.dims32 = p.elements := by
  obtain ⟨hm, hn⟩ := h.sizes hbatch
  have hb := p.toInt32_batch
  simp only [covered, dims32, elements, hm, hn, hb, Int.toNat_natCast]

/-- The addresses written are those of the elements of `c`, so their sums
agree. -/
theorem Agrees.sum_cAddr :
    (p.elements.map (p.cAddr p.dims32)).sum = (p.elements.map p.cElem).sum := by
  have hsub := h.subperm
  rw [h.covered_eq hbatch] at hsub
  exact (hsub.perm_of_length_le (by simp)).sum_eq.symm

theorem Agrees.ldc : toInt32 (leadingDim p.c) = leadingDim p.c ∨ ldExtent p.c = 1 := by
  have hext : ldExtent p.c = if opFor p.c false = .t then p.m else p.n :=
    p.c_matrix.ldExtent_eq
  by_cases hone : ldExtent p.c = 1
  · exact .inr hone
  · refine .inl ?_
    let base (v : Nat × Nat × Nat) : Int :=
      v.1 * batchStride p.c + if opFor p.c false = .t then (v.2.2 : Int) else v.2.1
    let mult (v : Nat × Nat × Nat) : Int := if opFor p.c false = .t then (v.2.1 : Int) else v.2.2
    have hwritten : ∀ v ∈ p.elements,
        p.cAddr p.dims32 v = base v + mult v * toInt32 (leadingDim p.c) :=
      fun v _ => offset_split (opFor p.c false) _ _ v.1 v.2.1 v.2.2
    have hexact : ∀ v ∈ p.elements, p.cElem v = base v + mult v * leadingDim p.c := by
      intro v hv
      obtain ⟨hq, hi, hj⟩ := mem_triples.mp hv
      have hview : opOffset p.c false v.1 v.2.1 v.2.2
          = (opFor p.c false).offset (leadingDim p.c) (batchStride p.c) v.1 v.2.1 v.2.2 :=
        p.c_matrix.opOffset_eq_offset (.inl rfl) v.1 hi hj
      exact hview.trans (offset_split (opFor p.c false) _ _ v.1 v.2.1 v.2.2)
    have hsum := h.sum_cAddr hbatch
    rw [List.map_congr_left hwritten, List.map_congr_left hexact] at hsum
    refine ld_unique mult ?_ ?_ hsum
    · intro v _
      simp only [mult]
      split <;> omega
    · have hmpos := p.m_pos
      have hnpos := p.n_pos
      split at hext
      · exact ⟨(0, 1, 0), mem_triples.mpr ⟨hbatch, by omega, hnpos⟩, by simp [mult, *]⟩
      · exact ⟨(0, 0, 1), mem_triples.mpr ⟨hbatch, hmpos, by omega⟩, by simp [mult, *]⟩

theorem Agrees.writesC : p.WritesC p.dims32 := by
  refine ⟨h.covered_eq hbatch, ?_, ?_⟩
  · intro v hv
    obtain ⟨hq, hi, hj⟩ := mem_triples.mp hv
    have hview : opOffset p.c false v.1 v.2.1 v.2.2
        = (opFor p.c false).offset (toInt32 (leadingDim p.c)) (batchStride p.c) v.1 v.2.1 v.2.2 :=
      p.c_matrix.opOffset_eq_offset (h.ldc hbatch) v.1 hi hj
    exact hview.symm
  · have hvalid := (h.count_cOffset (exists_element hbatch)).1
    exact hvalid.2.2.1

/-- The product that the library computes is the wanted one, for all
operands. -/
theorem Agrees.productAt_eq {v : Nat × Nat × Nat} (hv : v ∈ p.elements) :
    p.productAt A B p.dims32 v = p.wantedProduct A B v := by
  obtain ⟨hq, hi, hj⟩ := mem_triples.mp hv
  have hblas := (h .sequential .sequential (some 1) (some 0) A B 0 v.1 v.2.1 v.2.2 hq hi hj).1
  have hgemm := (h.writesC hbatch).gemm_at (some 1) (some 0) A B 0 h.nodup hbatch .sequential hv
  rw [blasResult, CudaGemm.blasGemm, blasArgs_eq, specAt_eq] at hblas
  have heq := hgemm.symm.trans hblas
  simpa using heq

/-- All-ones operands count the inner dimension. -/
theorem Agrees.k : toInt32 p.k = p.k := by
  have hprod := h.productAt_eq hbatch (A := fun _ => 1) (B := fun _ => 1) (exists_element hbatch)
  have hk : (p.dims32).k.toNat = p.k := by
    simpa [productAt, wantedProduct] using hprod
  have hkpos := p.k_pos
  have : (p.dims32).k = p.k := by omega
  exact this

theorem Agrees.k_toNat : (p.dims32).k.toNat = p.k := by
  have hk : (p.dims32).k = p.k := h.k hbatch
  omega

/-- An operand `a` that holds its own addresses sums them. -/
theorem Agrees.sum_aOffset {i : Nat} (hi : i < p.m) :
    ((List.range p.k).map fun l =>
        (opFor p.a p.ta).offset (toInt32 (leadingDim p.a)) (batchStride p.a) 0 i l).sum
      = ((List.range p.k).map fun l =>
        (opFor p.a p.ta).offset (leadingDim p.a) (batchStride p.a) 0 i l).sum := by
  have hv : (0, i, 0) ∈ p.elements := mem_triples.mpr ⟨hbatch, hi, p.n_pos⟩
  have hprod := h.productAt_eq hbatch (A := fun o => o) (B := fun _ => 1) hv
  have hexact : ∀ l ∈ List.range p.k, opOffset p.a p.ta 0 i l
      = (opFor p.a p.ta).offset (leadingDim p.a) (batchStride p.a) 0 i l :=
    fun l hl => p.a_matrix.opOffset_eq_offset (.inl rfl) 0 hi (List.mem_range.mp hl)
  simp only [productAt, wantedProduct, h.k_toNat hbatch, mul_one, sum_map_cast] at hprod
  rw [List.map_congr_left hexact] at hprod
  exact_mod_cast hprod

@[inherit_doc Agrees.sum_aOffset]
theorem Agrees.sum_bOffset {j : Nat} (hj : j < p.n) :
    ((List.range p.k).map fun l =>
        (opFor p.b p.tb).offset (toInt32 (leadingDim p.b)) (batchStride p.b) 0 l j).sum
      = ((List.range p.k).map fun l =>
        (opFor p.b p.tb).offset (leadingDim p.b) (batchStride p.b) 0 l j).sum := by
  have hv : (0, 0, j) ∈ p.elements := mem_triples.mpr ⟨hbatch, p.m_pos, hj⟩
  have hprod := h.productAt_eq hbatch (A := fun _ => 1) (B := fun o => o) hv
  have hexact : ∀ l ∈ List.range p.k, opOffset p.b p.tb 0 l j
      = (opFor p.b p.tb).offset (leadingDim p.b) (batchStride p.b) 0 l j :=
    fun l hl => p.b_matrix.opOffset_eq_offset (.inl rfl) 0 (List.mem_range.mp hl) hj
  simp only [productAt, wantedProduct, h.k_toNat hbatch, one_mul, sum_map_cast] at hprod
  rw [List.map_congr_left hexact] at hprod
  exact_mod_cast hprod

omit h hbatch in
/-- The sums over the lines of a view determine its leading dimension, if it
is multiplied by anything but 0. -/
theorem ld_of_line_sums (op : BlasOp) {ld ld' : Int} (stride : Int) {lines len : Nat}
    (hlines : 0 < lines) (hlen : 0 < len) (hmul : (if op = .t then lines else len) ≠ 1)
    (hsum : ∀ i < lines, ((List.range len).map fun l => op.offset ld' stride 0 i l).sum
      = ((List.range len).map fun l => op.offset ld stride 0 i l).sum) : ld' = ld := by
  by_cases ht : op = .t
  · -- the index of the line is multiplied, so the second line shows it
    rw [if_pos ht] at hmul
    have hline := hsum 1 (by omega)
    simp only [offset_split, if_pos ht] at hline
    exact ld_unique (fun _ => ((1 : Nat) : Int)) (by simp) ⟨0, List.mem_range.mpr hlen, by simp⟩
      hline
  · rw [if_neg ht] at hmul
    have hline := hsum 0 hlines
    simp only [offset_split, if_neg ht] at hline
    exact ld_unique (fun l => ((l : Nat) : Int)) (by simp)
      ⟨1, List.mem_range.mpr (by omega), by simp⟩ hline

theorem Agrees.lda : toInt32 (leadingDim p.a) = leadingDim p.a ∨ ldExtent p.a = 1 := by
  have hext : ldExtent p.a = if opFor p.a p.ta = .t then p.m else p.k := p.a_matrix.ldExtent_eq
  by_cases hone : ldExtent p.a = 1
  · exact .inr hone
  · rw [hext] at hone
    exact .inl (ld_of_line_sums _ _ p.m_pos p.k_pos hone fun i hi => h.sum_aOffset hbatch hi)

/-- The lines of `b` are its columns. -/
theorem Agrees.ldb : toInt32 (leadingDim p.b) = leadingDim p.b ∨ ldExtent p.b = 1 := by
  have hext : ldExtent p.b = if opFor p.b p.tb = .t then p.k else p.n := p.b_matrix.ldExtent_eq
  have hflip : (if (opFor p.b p.tb).flip = .t then p.n else p.k) = ldExtent p.b := by
    rw [hext]
    cases opFor p.b p.tb <;> rfl
  by_cases hone : ldExtent p.b = 1
  · exact .inr hone
  · rw [← hflip] at hone
    refine .inl (ld_of_line_sums _ (batchStride p.b) p.n_pos p.k_pos hone ?_)
    intro j hj
    simpa only [BlasOp.offset_flip] using h.sum_bOffset hbatch hj

omit h hbatch in
theorem ldFits_of {t : Tensor} {batch rows cols : Nat} (ht : IsMatrix t batch rows cols)
    (h : toInt32 (leadingDim t) = leadingDim t ∨ ldExtent t = 1) : LdFits t :=
  h.imp_left (toInt32_eq_self_iff (by have := ht.leadingDim_pos; omega)).mp

theorem Agrees.fits : p.Fits where
  distinct q i j q' i' j' hq hi hj hq' hi' hj' heq :=
    p.map_cElem_nodup_iff.mp h.nodup (q, i, j) (mem_triples.mpr ⟨hq, hi, hj⟩) (q', i', j')
      (mem_triples.mpr ⟨hq', hi', hj'⟩) heq
  m_lt := by exact_mod_cast (toInt32_eq_self_iff (by omega)).mp (h.sizes hbatch).1
  n_lt := by exact_mod_cast (toInt32_eq_self_iff (by omega)).mp (h.sizes hbatch).2
  k_lt := by exact_mod_cast (toInt32_eq_self_iff (by omega)).mp (h.k hbatch)
  a_ld := ldFits_of p.a_matrix (h.lda hbatch)
  b_ld := ldFits_of p.b_matrix (h.ldb hbatch)
  c_ld := ldFits_of p.c_matrix (h.ldc hbatch)

omit h hbatch

/-- The three implementations compute alpha * op(a) * op(b) + beta * c, for
all data and scalars, if and only if there is nothing to compute or the
elements of `c` are distinct and the sizes and leading dimensions that
`BlasGemm` passes fit an `int`. -/
theorem agrees_iff (p : Problem) : p.Agrees ↔ p.batch = 0 ∨ p.Fits := by
  constructor
  · intro h
    rcases Nat.eq_zero_or_pos p.batch with hzero | hpos
    · exact .inl hzero
    · exact .inr (h.fits hpos)
  · rintro (hzero | hfits)
    · intro blas lt alpha beta A B C q i j hq
      omega
    · exact agrees_of_fits hfits

/-- A column of 2^32 + 1 rows times a 1 × 1 matrix. -/
def tallColumn : Problem where
  a := { data := 4096, shape := [2 ^ 32 + 1, 1], strides := [1, 1] }
  b := { data := 8192, shape := [1, 1], strides := [1, 1] }
  c := { data := 12288, shape := [2 ^ 32 + 1, 1], strides := [1, 1] }
  transA := some false
  transB := some false
  batch := 1
  m := 2 ^ 32 + 1
  n := 1
  k := 1
  m_pos := by decide
  n_pos := by decide
  k_pos := by decide
  size_lt := by decide
  batch_lt := by decide
  a_matrix := ⟨.inl rfl, rfl, .inl (by decide), by decide⟩
  b_matrix := ⟨.inl rfl, rfl, .inl (by decide), by decide⟩
  c_matrix := ⟨.inl rfl, rfl, .inl (by decide), by decide⟩
  c_batch := fun _ => rfl

/-- `BlasGemm` passes 1 for the number of rows, so every library leaves the
second row of `c` as it was. -/
theorem tallColumn_second_row (lib : BlasLib) (alpha beta : Option ℚ) (A B C : Data) :
    tallColumn.blasResult lib A B C (tallColumn.scalars alpha beta) 1 = C 1 := by
  rw [blasResult, CudaGemm.blasGemm, blasArgs_eq]
  have hone : toInt32 1 = 1 := by
    unfold toInt32
    decide
  have hm : tallColumn.dims32.m = 1 := by
    show toInt32 (2 ^ 32 + 1) = 1
    unfold toInt32
    decide
  have hn : tallColumn.dims32.n = 1 := hone
  have hk : tallColumn.dims32.k = 1 := hone
  have hbatch : tallColumn.dims32.batch = 1 := hone
  have hcovered : covered tallColumn.dims32 = [(0, 0, 0)] := by
    rw [covered, hm, hn, hbatch]
    decide
  have hperm := tallColumn.map_cOffset_perm alpha beta A B tallColumn.dims32
  have haddr : tallColumn.cAddr tallColumn.dims32 (0, 0, 0) = 0 := by
    simp [cAddr, opFor, dims32, tallColumn, Tensor.stride, Tensor.effectiveIndex, BlasOp.offset]
  rw [hcovered, List.map_singleton, haddr] at hperm
  have hvalid : (tallColumn.argsOf alpha beta A B tallColumn.dims32).Valid := by
    have hswap : tallColumn.swaps = true := by decide
    simp [BlasArgs.Valid, argsOf, hswap, hm, hn, hk, hbatch]
  refine lib.gemm_frame _ C hvalid (hperm.nodup_iff.mpr (List.nodup_singleton 0)) 1 ?_
  rw [hperm.mem_iff]
  decide

/-- The second row of the product of ones is never computed. -/
theorem tallColumn_not_agrees : ¬ tallColumn.Agrees := by
  intro h
  have hblas := (h .sequential .sequential (some 1) (some 0) (fun _ => 1) (fun _ => 1) (fun _ => 0)
    0 1 0 (by decide) (by decide) (by decide)).1
  have haddr : elemOffset tallColumn.c 0 1 0 = 1 := by decide
  have hwant : tallColumn.specAt ((some 1).getD 1) ((some 0).getD 1) (fun _ => 1) (fun _ => 1)
      (fun _ => 0) 0 1 0 = 1 := by
    simp [specAt, tallColumn]
  rw [haddr, tallColumn_second_row, hwant] at hblas
  exact absurd hblas (by decide)

end Problem

end InfiniOps.Blas
