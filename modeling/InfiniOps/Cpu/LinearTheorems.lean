/-
InfiniOps.Cpu.LinearTheorems — when the CPU `Linear` is a batched matrix
product.

Both the offsets that the code computes and those of the elements are a
batch offset plus a step inside the matrix (`opOffset_eq`). The addresses
that are written are therefore two families of sums with the same second
summand, and if one covers the other the batch offsets agree
(`Sumset.perm_of_sums_perm`). The values then tell the batch offsets of
`a` and `b`, by reading an operand whose elements are their own offsets.

`meets_iff` puts the two directions together.
-/
import InfiniOps.Cpu.Linear
import InfiniOps.Lib.Sumset
import Mathlib.Algebra.BigOperators.Ring.List
import Mathlib.Tactic.Ring

namespace InfiniOps.Cpu

open RowMajor StridedStore Sumset

/-! ## Offsets in a batch -/

section Offsets

variable {t : StoredTensor}

/-- The extents of op of a matrix. -/
def opRows (t : Tensor) (trans : Bool) : Nat := if trans then t.size (-1) else t.size (-2)

@[inherit_doc opRows]
def opCols (t : Tensor) (trans : Bool) : Nat := if trans then t.size (-2) else t.size (-1)

theorem shape_eq (h : 2 ≤ t.shape.length) :
    t.shape = batchShape t.toTensor ++ [t.size (-2), t.size (-1)] := by
  rw [Tensor.size_neg_one _ h, Tensor.size_neg_two _ h]
  exact eq_take_append_pair t.shape 0 h

theorem opOffset_eq (h : 2 ≤ t.shape.length) {shape q : List Nat}
    (hbroadcast : Broadcasts (batchShape t.toTensor) shape) (hq : Valid shape q) (trans : Bool)
    (row col : Nat) :
    opOffset t.toTensor trans q row col
      = LinearProblem.batchOffset t.toTensor q
        + matrixStep trans t.shape.length t.strides row col := by
  have hlen : (broadcastIndex (batchShape t.toTensor) q).length
      = (t.strides.take (t.shape.length - 2)).length := by
    rw [(broadcastIndex_valid hbroadcast hq).length_eq, batchShape, Tensor.ndim, List.length_take,
      List.length_take, t.rank_eq]
  have hstrides := eq_take_append_pair t.strides 0 (t.rank_eq ▸ h)
  rw [t.rank_eq] at hstrides
  rw [opOffset, Tensor.offset, hstrides, dot_append hlen, LinearProblem.batchOffset, Tensor.ndim,
    matrixStep, ← hstrides]
  cases trans <;> simp [Int.add_comm]

theorem opOffset_mem_elements (h : 2 ≤ t.shape.length) {shape q : List Nat}
    (hbroadcast : Broadcasts (batchShape t.toTensor) shape) (hq : Valid shape q) {trans : Bool}
    {row col : Nat} (hrow : row < opRows t.toTensor trans) (hcol : col < opCols t.toTensor trans) :
    opOffset t.toTensor trans q row col ∈ elements t.toTensor := by
  have hmatrix : Valid [t.size (-2), t.size (-1)] (if trans then [col, row] else [row, col]) := by
    cases trans with
    | false => exact .cons hrow (.cons hcol .nil)
    | true => exact .cons hcol (.cons hrow .nil)
  have hvalid := (broadcastIndex_valid hbroadcast hq).append hmatrix
  rw [← shape_eq h] at hvalid
  refine List.mem_map.mpr ⟨ravel t.shape _, List.mem_range.mpr (ravel_lt hvalid), ?_⟩
  rw [unravel_ravel hvalid, opOffset]

end Offsets

namespace LinearProblem

variable (x : LinearProblem)

/-- The members of the call. -/
def members : Linear :=
  Linear.ofTensors x.a.toTensor x.b.toTensor (x.bias.map (·.toTensor)) x.transA x.transB
    x.out.toTensor

/-- What the constructor checks. -/
structure Checked : Prop where
  new_eq : Linear.new x.a.toTensor x.b.toTensor (x.bias.map (·.toTensor)) x.transA x.transB
    x.out.toTensor = .ok x.members
  m_eq : x.m = opRows x.a.toTensor x.transA
  k_eq : x.k = opRows x.b.toTensor x.transB
  n_eq : x.n = opCols x.b.toTensor x.transB
  bias_eq : ∀ t ∈ x.bias, t.shape = [x.n]

theorem bind_checkBias_eq_ok {bias : Option Tensor} {out : Tensor} {α : Type}
    {f : Unit → Except Failure α} {r : α} :
    (Linear.checkBias bias out >>= f) = .ok r ↔
      (∀ t ∈ bias, t.dtype = out.dtype ∧ t.ndim = 1 ∧ t.size 0 = out.size (-1)) ∧ f () = .ok r := by
  cases bias with
  | none =>
    simp only [Option.mem_def, reduceCtorEq, false_implies, implies_true, true_and]
    exact Iff.rfl
  | some t => simp [Linear.checkBias, bind_assertion_eq_ok, bind_assoc, and_assoc]

theorem checked : x.Checked := by
  obtain ⟨members, h⟩ := x.accepted
  have hnew := h
  simp only [Linear.new, bind_assertion_eq_ok, bind_checkBias_eq_ok] at h
  obtain ⟨-, -, hinner, ⟨hrows, hcols⟩, hbias, hmembers⟩ := h
  rw [← Except.ok.inj hmembers] at hnew
  have hk : x.k = opRows x.b.toTensor x.transB := hinner
  refine ⟨hnew, hrows, hk, hcols, ?_⟩
  intro t ht
  obtain ⟨-, hrank, hsize⟩ := hbias t.toTensor (Option.mem_map_of_mem _ ht)
  obtain ⟨d, hshape⟩ := List.length_eq_one_iff.mp hrank
  have hd : t.size 0 = d := by
    simp [Tensor.size, Tensor.effectiveIndex, hshape]
  rw [hshape, ← hd, hsize, n]

/-! ## Positions -/

/-- The batch shape, the number of batches and of iterations of the loops. -/
abbrev batches : List Nat := batchShape x.out.toTensor

def positions : List (Nat × Nat × Nat) := triples x.batches.prod x.m x.n

theorem members_m : x.members.m = x.m := (Tensor.size_neg_two _ x.out_rank).symm

theorem members_n : x.members.n = x.n := (Tensor.size_neg_one _ x.out_rank).symm

theorem members_k : x.members.k x.transA = x.k := by
  rw [k, Tensor.size_neg_one _ x.a_rank, Tensor.size_neg_two _ x.a_rank]
  rfl

theorem prod_shape : x.out.shape.prod = x.batches.prod * (x.m * x.n) := by
  rw [shape_eq x.out_rank, List.prod_append]
  simp [m, n]

/-- The batches are counted in `size_t`. -/
theorem batchCount_eq : x.members.batchCount = toUInt64 x.batches.prod := by
  have hprefix : ∀ i ≤ x.out.shape.length,
      (List.range i).foldl (fun count i => toUInt64 (count * x.out.shape.getD i 0 : Nat)) 1
        = toUInt64 (x.out.shape.take i).prod := by
    intro i hi
    induction i with
    | zero => exact (toUInt64_eq_self (show 1 < 2 ^ 64 by decide)).symm
    | succ i ih =>
      rw [List.range_succ, List.foldl_append, ih (Nat.le_of_succ_le hi), take_succ_getD _ 0 hi,
        List.prod_append, List.prod_singleton]
      simp only [List.foldl_cons, List.foldl_nil, Nat.cast_mul, toUInt64_natCast_mul]
  exact hprefix _ (Nat.sub_le _ _)

/-- The loops visit every position, and only those. -/
theorem triples_members : triples x.members.batchCount x.members.m x.members.n = x.positions := by
  rw [members_m, members_n, batchCount_eq, positions]
  rcases Nat.eq_zero_or_pos (x.m * x.n) with hempty | hpos
  · rw [triples_eq_nil (by rw [hempty, Nat.mul_zero]),
      triples_eq_nil (by rw [hempty, Nat.mul_zero])]
  · have hlt := StoredTensor.prod_lt x.injective
    rw [prod_shape] at hlt
    rw [toUInt64_eq_self (Nat.lt_of_le_of_lt (Nat.le_mul_of_pos_right _ hpos) hlt)]

theorem mem_positions {p i j : Nat} :
    (p, i, j) ∈ x.positions ↔ p < x.batches.prod ∧ i < x.m ∧ j < x.n :=
  mem_triples

/-! ## Values -/

/-- The offset of an element of `out`. -/
def trueIndex (v : Nat × Nat × Nat) : Int :=
  x.out.offset (unravel x.batches v.1 ++ [v.2.1, v.2.2])

/-- What the body of the loops reads is in the tensors. -/
structure ReadsInside (v : Nat × Nat × Nat) : Prop where
  a : ∀ l < x.k, x.members.aIndex x.transA v.1 v.2.1 l ∈ elements x.a.toTensor
  b : ∀ l < x.k, x.members.bIndex x.transB v.1 l v.2.2 ∈ elements x.b.toTensor
  bias : ∀ t ∈ x.bias, v.2.2 * t.strides.getD (t.shape.length - 1) 0 ∈ elements t.toTensor

/-- The value it stores then. -/
def stored (A B bias : Data) (v : Nat × Nat × Nat) : ℚ :=
  ((List.range x.k).map fun l =>
      A (x.members.aIndex x.transA v.1 v.2.1 l) * B (x.members.bIndex x.transB v.1 l v.2.2)).sum
    + match x.bias with
      | none => 0
      | some t => bias (v.2.2 * t.strides.getD (t.shape.length - 1) 0)

theorem loadOf_of_mem {t : Tensor} {A : Data} {o : Int} (h : o ∈ elements t) :
    loadOf t A o = some (A o) := if_pos h

theorem mem_of_isSome_loadOf {t : Tensor} {A : Data} {o : Int} (h : (loadOf t A o).isSome) :
    o ∈ elements t := by
  by_contra hnot
  rw [loadOf, if_neg hnot] at h
  cases h

theorem isSome_of_term {g : Linear} {A B : Load} {transA transB : Bool} {p i j l : Nat}
    (h : (g.term A B transA transB p i j l).isSome) :
    (A (g.aIndex transA p i l)).isSome ∧ (B (g.bIndex transB p l j)).isSome := by
  rw [Linear.term] at h
  cases hA : A (g.aIndex transA p i l) with
  | none =>
    rw [hA] at h
    cases h
  | some aVal =>
    cases hB : B (g.bIndex transB p l j) with
    | none =>
      rw [hA, hB] at h
      cases h
    | some bVal => exact ⟨rfl, rfl⟩

/-- The bias, as the call passes it on. -/
abbrev biasArg (bias : Data) : Option (Tensor × Load) :=
  x.bias.map fun t => (t.toTensor, loadOf t.toTensor bias)

theorem foldl_add (f : Nat → ℚ) (ls : List Nat) (s : ℚ) :
    ls.foldl (fun s l => s + f l) s = s + (ls.map f).sum := by
  induction ls generalizing s with
  | nil => simp
  | cons l ls ih => rw [List.foldl_cons, ih, List.map_cons, List.sum_cons, add_assoc]

section Value

variable (A B bias : Data)

/-- `value` on the tensors of the call. -/
abbrev valueAt (v : Nat × Nat × Nat) : Option ℚ :=
  x.members.value (loadOf x.a.toTensor A) (loadOf x.b.toTensor B) (x.biasArg bias) x.transA
    x.transB v

theorem value_of_readsInside {v : Nat × Nat × Nat} (h : x.ReadsInside v) :
    x.valueAt A B bias v = some (x.stored A B bias v) := by
  obtain ⟨p, i, j⟩ := v
  have hterm : ∀ l ∈ List.range x.k,
      x.members.term (loadOf x.a.toTensor A) (loadOf x.b.toTensor B) x.transA x.transB p i j l
        = some (A (x.members.aIndex x.transA p i l) * B (x.members.bIndex x.transB p l j)) := by
    intro l hl
    have hl := List.mem_range.mp hl
    rw [Linear.term, loadOf_of_mem (h.a l hl), loadOf_of_mem (h.b l hl)]
    rfl
  have hsum := foldlM_eq_some _ (fun (s : ℚ) _ y => s + y) _ hterm 0
  rw [foldl_add, zero_add] at hsum
  rw [valueAt, Linear.value, members_k, hsum, stored, biasArg]
  have hbias := h.bias
  cases hx : x.bias with
  | none => simp [Linear.addBias]
  | some t =>
    rw [hx] at hbias
    simp only [Option.map_some, Option.bind_eq_bind, Option.bind_some, Linear.addBias,
      loadOf_of_mem (hbias t rfl)]

theorem readsInside_of_value {v : Nat × Nat × Nat} (h : (x.valueAt A B bias v).isSome) :
    x.ReadsInside v := by
  obtain ⟨p, i, j⟩ := v
  obtain ⟨y, hy⟩ := Option.isSome_iff_exists.mp h
  rw [valueAt, Linear.value, members_k] at hy
  obtain ⟨sum, hsum, hrest⟩ := Option.bind_eq_some_iff.mp hy
  have hterms := isSome_of_foldlM_eq_some _ _ hsum
  refine ⟨fun l hl => ?_, fun l hl => ?_, fun t ht => ?_⟩
  · exact mem_of_isSome_loadOf (isSome_of_term (hterms l (List.mem_range.mpr hl))).1
  · exact mem_of_isSome_loadOf (isSome_of_term (hterms l (List.mem_range.mpr hl))).2
  · have hx : x.bias = some t := ht
    simp only [biasArg, hx, Option.map_some, Linear.addBias] at hrest
    obtain ⟨b, hb, -⟩ := Option.map_eq_some_iff.mp hrest
    exact mem_of_isSome_loadOf (Option.isSome_of_eq_some hb)

/-- The stores, in order, once every read is inside. -/
theorem compute_eq_some (C : Data) (h : ∀ v ∈ x.positions, x.ReadsInside v) :
    x.members.compute (loadOf x.a.toTensor A) (loadOf x.b.toTensor B) (x.biasArg bias) x.transA
        x.transB C
      = some (storeAll x.members.outIndex (fun v _ => x.stored A B bias v) C x.positions) := by
  rw [Linear.compute, triples_members]
  exact foldlM_eq_some _ (fun C v => Function.update C (x.members.outIndex v)) _
    (fun v hv => x.value_of_readsInside A B bias (h v hv)) C

theorem readsInside_of_compute {C C' : Data}
    (h : x.members.compute (loadOf x.a.toTensor A) (loadOf x.b.toTensor B) (x.biasArg bias) x.transA
      x.transB C = some C') : ∀ v ∈ x.positions, x.ReadsInside v := by
  rw [Linear.compute, triples_members] at h
  intro v hv
  exact x.readsInside_of_value A B bias (isSome_of_foldlM_eq_some _ _ h v hv)

/-- A call is the loops, dispatched over the type of `out`. -/
theorem result_eq_dispatch (C : Data) :
    x.result A B bias C = (dispatchFunc DataType.code true (fun _ => true) allFloatTypes x.out.dtype
      (fun dtype => (⟨[dtype], .ok (x.members.compute (loadOf x.a.toTensor A)
          (loadOf x.b.toTensor B)
        (x.biasArg bias) x.transA x.transB C)⟩ : Run DataType (Option Data)))
      "`Operator<Linear, Device::Type::kCpu>::operator()`").ending := by
  have hfst : (x.biasArg bias).map Prod.fst = x.bias.map (·.toTensor) := by
    rw [biasArg, Option.map_map]
    rfl
  rw [result, linear, hfst, x.checked.new_eq]
  rfl

theorem result_eq (C : Data) (hdtype : x.out.dtype ∈ allFloatTypes) :
    x.result A B bias C = .ok (x.members.compute (loadOf x.a.toTensor A) (loadOf x.b.toTensor B)
      (x.biasArg bias) x.transA x.transB C) := by
  rw [result_eq_dispatch, dispatchFunc_of_mem _ _ _ _ hdtype rfl]

theorem dtype_of_result {C : Data} {C' : Option Data} (h : x.result A B bias C = .ok C') :
    x.out.dtype ∈ allFloatTypes := by
  by_contra hnot
  rw [result_eq_dispatch] at h
  obtain ⟨message, habort⟩ : ∃ message, _ = Run.abort message :=
    dispatchFunc_of_not DataType.code true _ _ fun hsupported => hnot hsupported.1
  rw [habort] at h
  cases h

end Value

/-! ## Addresses -/

/-- The steps inside a matrix of `out`. -/
def steps : List Int :=
  (List.range x.m).flatMap fun i => (List.range x.n).map fun j =>
    matrixStep false x.out.shape.length x.out.strides i j

theorem map_positions (start : Nat → Int) :
    (x.positions.map fun v => start v.1
        + matrixStep false x.out.shape.length x.out.strides v.2.1 v.2.2)
      = sums ((List.range x.batches.prod).map start) x.steps := by
  simp [positions, triples, sums, steps, List.map_flatMap, List.flatMap_map, Function.comp_def]

/-- The code's addresses. -/
theorem map_outIndex : x.positions.map x.members.outIndex
    = sums ((List.range x.batches.prod).map fun (p : Nat) =>
        p * batchStride x.out.shape.length x.out.strides) x.steps :=
  x.map_positions fun (p : Nat) => p * batchStride x.out.shape.length x.out.strides

theorem offset_eq {q : List Nat} (hq : Valid x.batches q) (i j : Nat) :
    x.out.offset (q ++ [i, j])
      = batchOffset x.out.toTensor q + matrixStep false x.out.shape.length x.out.strides i j := by
  have hself : Broadcasts x.batches x.batches := by
    refine ⟨Nat.le_refl _, ?_⟩
    rw [Nat.sub_self, List.drop_zero]
    exact List.forall₂_same.mpr fun _ _ => Or.inl rfl
  have h := opOffset_eq x.out_rank hself hq false i j
  rwa [opOffset, broadcastIndex_self hq] at h

/-- The elements' own offsets. -/
theorem map_trueIndex : x.positions.map x.trueIndex
    = sums ((List.range x.batches.prod).map fun p =>
        batchOffset x.out.toTensor (unravel x.batches p)) x.steps := by
  rw [← map_positions]
  refine List.map_congr_left ?_
  rintro ⟨p, i, j⟩ hv
  have hp := (x.mem_positions.mp hv).1
  exact x.offset_eq (unravel_valid (Nat.zero_lt_of_lt hp) p) i j

theorem trueIndex_valid {p i j : Nat} (hv : (p, i, j) ∈ x.positions) :
    Valid x.out.shape (unravel x.batches p ++ [i, j]) := by
  obtain ⟨hp, hi, hj⟩ := x.mem_positions.mp hv
  rw [shape_eq x.out_rank]
  exact (unravel_valid (Nat.zero_lt_of_lt hp) p).append (.cons hi (.cons hj .nil))

theorem nodup_trueIndex : (x.positions.map x.trueIndex).Nodup := by
  refine (nodup_triples _ _ _).map_on ?_
  rintro ⟨p, i, j⟩ hv ⟨p', i', j'⟩ hv' heq
  have hidx := x.injective _ _ (x.trueIndex_valid hv) (x.trueIndex_valid hv') heq
  have hlen : (unravel x.batches p).length = (unravel x.batches p').length := by
    rw [length_unravel, length_unravel]
  obtain ⟨hbatch, hinner⟩ := List.append_inj hidx hlen
  have hp := unravel_inj (x.mem_positions.mp hv).1 (x.mem_positions.mp hv').1 hbatch
  simp only [List.cons.injEq, and_true] at hinner
  rw [hp, hinner.1, hinner.2]

/-- Elements of `out` that are all written are written once each, and
nothing else is. -/
theorem perm_of_covered
    (h : ∀ v ∈ x.positions, x.trueIndex v ∈ x.positions.map x.members.outIndex) :
    (x.positions.map x.trueIndex).Perm (x.positions.map x.members.outIndex) := by
  have hsubset : x.positions.map x.trueIndex ⊆ x.positions.map x.members.outIndex := by
    intro o ho
    obtain ⟨v, hv, rfl⟩ := List.mem_map.mp ho
    exact h v hv
  exact (x.nodup_trueIndex.subperm hsubset).perm_of_length_le (by simp)

/-! ## Batches that agree -/

section Agree

variable {x} {p i j : Nat} {q : List Nat}

theorem aIndex_eq_opOffset (hq : Valid x.batches q)
    (h : p * batchStride x.a.shape.length x.a.strides = batchOffset x.a.toTensor q) (l : Nat) :
    x.members.aIndex x.transA p i l = opOffset x.a.toTensor x.transA q i l := by
  rw [opOffset_eq x.a_rank x.a_broadcasts hq, ← h]
  rfl

theorem bIndex_eq_opOffset (hq : Valid x.batches q)
    (h : p * batchStride x.b.shape.length x.b.strides = batchOffset x.b.toTensor q) (l : Nat) :
    x.members.bIndex x.transB p l j = opOffset x.b.toTensor x.transB q l j := by
  rw [opOffset_eq x.b_rank x.b_broadcasts hq, ← h]
  rfl

theorem bias_offset {t : StoredTensor} (ht : t ∈ x.bias) (j : Nat) :
    j * t.strides.getD (t.shape.length - 1) 0 = t.offset [j] := by
  have hshape := x.checked.bias_eq t ht
  have hlen : t.strides.length = 1 := by
    rw [t.rank_eq, hshape]
    rfl
  obtain ⟨s, hs⟩ := List.length_eq_one_iff.mp hlen
  simp [Tensor.offset, hs, hshape]

theorem readsInside_of_agree (hq : Valid x.batches q) (hi : i < x.m) (hj : j < x.n)
    (h : x.k = 0 ∨ p * batchStride x.a.shape.length x.a.strides = batchOffset x.a.toTensor q ∧
      p * batchStride x.b.shape.length x.b.strides = batchOffset x.b.toTensor q) :
    x.ReadsInside (p, i, j) := by
  refine ⟨fun l hl => ?_, fun l hl => ?_, fun t ht => ?_⟩
  · have ha := (h.resolve_left (Nat.ne_zero_of_lt hl)).1
    dsimp only
    rw [aIndex_eq_opOffset hq ha]
    exact opOffset_mem_elements x.a_rank x.a_broadcasts hq (x.checked.m_eq ▸ hi) hl
  · have hb := (h.resolve_left (Nat.ne_zero_of_lt hl)).2
    dsimp only
    rw [bIndex_eq_opOffset hq hb]
    exact opOffset_mem_elements x.b_rank x.b_broadcasts hq (x.checked.k_eq ▸ hl)
      (x.checked.n_eq ▸ hj)
  · have hvalid : Valid t.shape [j] := by
      rw [x.checked.bias_eq t ht]
      exact .cons hj .nil
    dsimp only
    rw [bias_offset ht]
    refine List.mem_map.mpr ⟨ravel t.shape [j], List.mem_range.mpr (ravel_lt hvalid), ?_⟩
    rw [unravel_ravel hvalid]

theorem stored_of_agree (A B bias : Data) (hq : Valid x.batches q)
    (h : x.k = 0 ∨ p * batchStride x.a.shape.length x.a.strides = batchOffset x.a.toTensor q ∧
      p * batchStride x.b.shape.length x.b.strides = batchOffset x.b.toTensor q) :
    x.stored A B bias (p, i, j) = x.specAt A B bias q i j := by
  rw [stored, specAt]
  congr 1
  · rcases h with hk | ⟨ha, hb⟩
    · rw [hk]
      rfl
    · simp only [aIndex_eq_opOffset hq ha, bIndex_eq_opOffset hq hb]
  · cases hx : x.bias with
    | none => rfl
    | some t =>
      dsimp only
      rw [bias_offset hx]

end Agree

variable {x}

theorem outIndex_eq_offset {p : Nat} {q : List Nat} (hq : Valid x.batches q)
    (h : p * batchStride x.out.shape.length x.out.strides = batchOffset x.out.toTensor q)
    (i j : Nat) :
    x.members.outIndex (p, i, j) = x.out.offset (q ++ [i, j]) := by
  rw [x.offset_eq hq, ← h]
  rfl

theorem BatchesAgree.perm (h : x.BatchesAgree) :
    (x.positions.map x.trueIndex).Perm (x.positions.map x.members.outIndex) := by
  refine x.perm_of_covered ?_
  rintro ⟨r, i, j⟩ hv
  obtain ⟨hr, hi, hj⟩ := x.mem_positions.mp hv
  have hq := unravel_valid (Nat.zero_lt_of_lt hr) r
  obtain ⟨p, hp, hout, -⟩ := h _ hq
  exact List.mem_map.mpr ⟨(p, i, j), x.mem_positions.mpr ⟨hp, hi, hj⟩,
      outIndex_eq_offset hq hout i j⟩

/-- Every iteration is at a batch that agrees: the one that the element it
writes belongs to. -/
theorem BatchesAgree.readsInside (h : x.BatchesAgree) : ∀ v ∈ x.positions, x.ReadsInside v := by
  intro v hv
  have hnodup : (x.positions.map x.members.outIndex).Nodup := h.perm.nodup_iff.mp x.nodup_trueIndex
  obtain ⟨⟨r, i, j⟩, hw, heq⟩ :=
    List.mem_map.mp (h.perm.mem_iff.mpr (List.mem_map_of_mem hv))
  obtain ⟨hr, hi, hj⟩ := x.mem_positions.mp hw
  have hq := unravel_valid (Nat.zero_lt_of_lt hr) r
  obtain ⟨p, hp, hout, hread⟩ := h _ hq
  have hsame : x.members.outIndex (p, i, j) = x.members.outIndex v := by
    rw [outIndex_eq_offset hq hout]
    exact heq
  have hv' : (p, i, j) = v :=
    List.inj_on_of_nodup_map hnodup (x.mem_positions.mpr ⟨hp, hi, hj⟩) hv hsame
  exact hv' ▸ readsInside_of_agree hq hi hj hread

theorem BatchesAgree.meets (h : x.BatchesAgree) (hdtype : x.out.dtype ∈ allFloatTypes) :
    x.Meets := by
  intro A B bias C
  refine ⟨_, (x.result_eq A B bias C hdtype).trans
    (congrArg _ (x.compute_eq_some A B bias C h.readsInside)), ?_⟩
  intro q i j hq hi hj
  obtain ⟨p, hp, hout, hread⟩ := h q hq
  have hnodup : (x.positions.map x.members.outIndex).Nodup := h.perm.nodup_iff.mp x.nodup_trueIndex
  rw [← outIndex_eq_offset hq hout, storeAll_at_of_nodup _ _ C hnodup
      (x.mem_positions.mpr ⟨hp, hi, hj⟩),
    stored_of_agree A B bias hq hread]

/-- With nothing to write, nothing is read either. -/
theorem meets_of_empty (hdtype : x.out.dtype ∈ allFloatTypes) (hempty : x.out.numel = 0) :
    x.Meets := by
  rw [Tensor.numel_eq, prod_shape] at hempty
  have hpositions : x.positions = [] := triples_eq_nil hempty
  intro A B bias C
  have hinside : ∀ v ∈ x.positions, x.ReadsInside v := by
    intro v hv
    rw [hpositions] at hv
    cases hv
  refine ⟨_, (x.result_eq A B bias C hdtype).trans
    (congrArg _ (x.compute_eq_some A B bias C hinside)), ?_⟩
  intro q i j hq hi hj
  have hposition := x.mem_positions.mpr ⟨ravel_lt hq, hi, hj⟩
  rw [hpositions] at hposition
  cases hposition

/-! ## What the values tell -/

/-- A sum of offsets determines where the batch starts. -/
theorem sum_add_offset (k : Nat) (c : Int) (f : Nat → Int) :
    ((List.range k).map fun l => ((c + f l : Int) : ℚ)).sum
      = k * c + ((List.range k).map fun l => (f l : ℚ)).sum := by
  induction k with
  | zero => simp
  | succ k ih =>
    rw [List.range_succ, List.map_append, List.map_append, List.sum_append, List.sum_append, ih]
    push_cast [List.map_cons, List.map_nil, List.sum_singleton]
    ring

theorem eq_of_sum_add_eq {k : Nat} (hk : k ≠ 0) {c d : Int} {f : Nat → Int}
    (h : ((List.range k).map fun l => ((c + f l : Int) : ℚ)).sum
      = ((List.range k).map fun l => ((d + f l : Int) : ℚ)).sum) : c = d := by
  rw [sum_add_offset, sum_add_offset] at h
  have hk' : (k : ℚ) ≠ 0 := Nat.cast_ne_zero.mpr hk
  exact Int.cast_injective (mul_left_cancel₀ hk' (add_right_cancel h))

theorem Meets.readsInside (h : x.Meets) : ∀ v ∈ x.positions, x.ReadsInside v := by
  obtain ⟨C', hresult, -⟩ := h (fun _ => 0) (fun _ => 0) (fun _ => 0) (fun _ => 0)
  have hdtype := x.dtype_of_result _ _ _ hresult
  rw [result_eq _ _ _ _ _ hdtype] at hresult
  exact x.readsInside_of_compute _ _ _ (Except.ok.inj hresult)

/-- The stores of a call give the batched product, for all data. -/
theorem Meets.storeAll_eq (h : x.Meets) (A B bias C : Data) {q : List Nat} {i j : Nat}
    (hq : Valid x.batches q) (hi : i < x.m) (hj : j < x.n) :
    storeAll x.members.outIndex (fun v _ => x.stored A B bias v) C x.positions
      (x.out.offset (q ++ [i, j])) = x.specAt A B bias q i j := by
  obtain ⟨C', hresult, hspec⟩ := h A B bias C
  have hdtype := x.dtype_of_result A B bias hresult
  rw [result_eq _ _ _ _ _ hdtype, compute_eq_some _ _ _ _ _ h.readsInside] at hresult
  rw [Option.some.inj (Except.ok.inj hresult)]
  exact hspec q i j hq hi hj

/-- An element that is not written keeps what it had. -/
theorem Meets.perm (h : x.Meets) :
    (x.positions.map x.trueIndex).Perm (x.positions.map x.members.outIndex) := by
  refine x.perm_of_covered ?_
  rintro ⟨r, i, j⟩ hv
  obtain ⟨hr, hi, hj⟩ := x.mem_positions.mp hv
  by_contra hnotMem
  have heq := h.storeAll_eq (fun _ => 0) (fun _ => 0) (fun _ => 0) (fun _ => 1)
    (unravel_valid (Nat.zero_lt_of_lt hr) r) hi hj
  rw [← trueIndex.eq_def x (r, i, j), storeAll_of_notMem _ _ _ hnotMem] at heq
  have hzero : x.specAt (fun _ => 0) (fun _ => 0) (fun _ => 0) (unravel x.batches r) i j = 0 := by
    rw [specAt]
    cases x.bias <;> simp
  rw [hzero] at heq
  exact one_ne_zero heq

theorem steps_ne_nil (hm : 0 < x.m) (hn : 0 < x.n) : x.steps ≠ [] := by
  refine List.ne_nil_of_mem (a := matrixStep false x.out.shape.length x.out.strides 0 0) ?_
  exact List.mem_flatMap.mpr ⟨0, List.mem_range.mpr hm,
    List.mem_map.mpr ⟨0, List.mem_range.mpr hn, rfl⟩⟩

/-- The batches of `out` start at the multiples of its batch stride. -/
theorem Meets.exists_multiple (h : x.Meets) (hm : 0 < x.m) (hn : 0 < x.n) {q : List Nat}
    (hq : Valid x.batches q) : ∃ p < x.batches.prod,
      p * batchStride x.out.shape.length x.out.strides = batchOffset x.out.toTensor q := by
  have hperm := h.perm
  rw [map_trueIndex, map_outIndex] at hperm
  have hstarts := perm_of_sums_perm (steps_ne_nil hm hn) hperm
  have hmem : batchOffset x.out.toTensor q ∈ (List.range x.batches.prod).map fun p =>
      batchOffset x.out.toTensor (unravel x.batches p) :=
    List.mem_map.mpr ⟨ravel x.batches q, List.mem_range.mpr (ravel_lt hq), by rw [unravel_ravel hq]⟩
  obtain ⟨p, hp, heq⟩ := List.mem_map.mp (hstarts.mem_iff.mp hmem)
  exact ⟨p, List.mem_range.mp hp, heq⟩

theorem Meets.batchesAgree (h : x.Meets) (hm : 0 < x.m) (hn : 0 < x.n) : x.BatchesAgree := by
  intro q hq
  obtain ⟨p, hp, hout⟩ := h.exists_multiple hm hn hq
  refine ⟨p, hp, hout, ?_⟩
  by_cases hk : x.k = 0
  · exact Or.inl hk
  have hnodup : (x.positions.map x.members.outIndex).Nodup := h.perm.nodup_iff.mp x.nodup_trueIndex
  have hvalue : ∀ A B : Data,
      x.stored A B (fun _ => 0) (p, 0, 0) = x.specAt A B (fun _ => 0) q 0 0 := by
    intro A B
    rw [← h.storeAll_eq A B (fun _ => 0) (fun _ => 0) hq hm hn, ← outIndex_eq_offset hq hout,
      storeAll_at_of_nodup _ _ _ hnodup (x.mem_positions.mpr ⟨hp, hm, hn⟩)]
  have hdrop : ∀ A B : Data,
      ((List.range x.k).map fun l =>
          A (x.members.aIndex x.transA p 0 l) * B (x.members.bIndex x.transB p l 0)).sum
        = ((List.range x.k).map fun l => A (opOffset x.a.toTensor x.transA q 0 l)
            * B (opOffset x.b.toTensor x.transB q l 0)).sum := by
    intro A B
    have hAB := hvalue A B
    rw [stored, specAt] at hAB
    cases hx : x.bias <;> simpa [hx] using hAB
  refine Or.inr ⟨?_, ?_⟩
  · -- Elements of `a` that are their own offsets.
    have ha := hdrop (fun o => o) (fun _ => 1)
    simp only [mul_one, opOffset_eq x.a_rank x.a_broadcasts hq] at ha
    exact eq_of_sum_add_eq hk ha
  · have hb := hdrop (fun _ => 1) (fun o => o)
    simp only [one_mul, opOffset_eq x.b_rank x.b_broadcasts hq] at hb
    exact eq_of_sum_add_eq hk hb

variable (x) in
/-- The CPU `Linear` is the batched matrix product exactly when one stride
reaches the batches of each operand. -/
theorem meets_iff : x.Meets ↔ x.Fits := by
  constructor
  · intro h
    obtain ⟨C', hresult, -⟩ := h (fun _ => 0) (fun _ => 0) (fun _ => 0) (fun _ => 0)
    refine ⟨x.dtype_of_result _ _ _ hresult, ?_⟩
    by_cases hempty : x.out.numel = 0
    · exact Or.inl hempty
    · rw [Tensor.numel_eq, prod_shape, Nat.mul_eq_zero, Nat.mul_eq_zero, not_or, not_or] at hempty
      exact Or.inr (h.batchesAgree (Nat.pos_of_ne_zero hempty.2.1) (Nat.pos_of_ne_zero hempty.2.2))
  · rintro ⟨hdtype, hempty | hagree⟩
    · exact meets_of_empty hdtype hempty
    · exact hagree.meets hdtype

/-- One `b` and `bias` for a batch of two. -/
def sharedWeight : LinearProblem where
  a :=
    { data := 0, shape := [2, 1, 2], strides := [2, 2, 1], rank_eq := rfl
      addressable := forall_valid_iff.mpr (by decide) }
  b :=
    { data := 0, shape := [3, 2], strides := [2, 1], rank_eq := by decide
      addressable := forall_valid_iff.mpr (by decide) }
  bias := some
    { data := 0, shape := [3], strides := [1], rank_eq := rfl
      addressable := forall_valid_iff.mpr (by decide) }
  transA := false
  transB := true
  out :=
    { data := 0, shape := [2, 1, 3], strides := [3, 3, 1], rank_eq := rfl
      addressable := forall_valid_iff.mpr (by decide) }
  a_rank := by decide
  b_rank := by decide
  out_rank := by decide
  accepted := ⟨_, rfl⟩
  a_broadcasts := by decide
  b_broadcasts := by decide
  injective := by decide

theorem meets_sharedWeight : sharedWeight.Meets := (meets_iff _).mpr (by decide)

/-- A batch of one matrix in `a` for a batch of two in `out`. -/
def batchOfOne : LinearProblem where
  a :=
    { data := 0, shape := [1, 1, 1], strides := [1, 1, 1], rank_eq := rfl
      addressable := forall_valid_iff.mpr (by decide) }
  b :=
    { data := 0, shape := [2, 1, 1], strides := [1, 1, 1], rank_eq := rfl
      addressable := forall_valid_iff.mpr (by decide) }
  bias := none
  transA := false
  transB := false
  out :=
    { data := 0, shape := [2, 1, 1], strides := [1, 1, 1], rank_eq := rfl
      addressable := forall_valid_iff.mpr (by decide) }
  a_rank := by decide
  b_rank := by decide
  out_rank := by decide
  accepted := ⟨_, rfl⟩
  a_broadcasts := by decide
  b_broadcasts := by decide
  injective := by decide

/-- The second batch reads past the end of `a`. -/
theorem batchOfOne_reads_outside : ¬ batchOfOne.Meets := by
  intro h
  have hposition : (1, 0, 0) ∈ batchOfOne.positions := by decide
  exact absurd ((h.readsInside _ hposition).a 0 (by decide)) (by decide)

end LinearProblem

end InfiniOps.Cpu
