/-
InfiniOps.Cpu.CastTheorems — when `Cast` pairs the elements of its operands
by position.

* `compute_eq_moveAll`: below the rank of `input` the loop is one of
  `BlockStore.moveAll`, with the read at `readAddress`.
* `readAddress_eq_iff_rankFits`: those reads are in order just if the
  ranks fit.
* `cast_meets_iff`: the call is right for every conversion, schedule and
  memory just for operands that fit.
-/
import InfiniOps.Cpu.Cast

namespace InfiniOps.Cpu

open RowMajor BlockStore

/-! ## Dispatch -/

namespace Cast

theorem typeOfCode_code (dtype : DataType) : typeOfCode dtype.code = some dtype := by
  cases dtype <;> rfl

theorem mem_allTypes (dtype : DataType) : dtype ∈ allTypes := by
  cases dtype <;> decide

/-- Both types are supported, so the call is the loop for them. -/
theorem call_eq (m : Cast) (caster : Caster) (schedule : Nat → List Nat) (input out : Tensor)
    (mem : Int → UInt8) :
    m.call caster schedule input out mem
      = .ok (m.compute caster m.inputDtype m.outDtype input out (schedule m.outputSize) mem) := by
  have hspec := (dispatchFuncMulti_spec
    (m.functor caster input out (schedule m.outputSize) mem)
    "`Operator<Cast, Device::Type::kCpu>::operator()`" [m.inputDtype.code, m.outDtype.code]
    [.ofDataTypes allTypes (by decide), .ofDataTypes allTypes (by decide)] 0 [] rfl).1
  have hcast : castKeys [.ofDataTypes allTypes (by decide), .ofDataTypes allTypes (by decide)]
      [m.inputDtype.code, m.outDtype.code] = [m.inputDtype.code, m.outDtype.code] := by
    simp [castKeys, cast_ofDataTypes]
  rw [List.drop_zero, hcast, List.nil_append] at hspec
  rw [call, dispatchKeys, hspec]
  · simp [functor, Functor.total, typeOfCode_code]
  · exact ⟨⟨mem_ofDataTypes.mpr (mem_allTypes _), rfl⟩,
      ⟨mem_ofDataTypes.mpr (mem_allTypes _), rfl⟩, trivial⟩

/-- `get_idx`, where both arrays of the tensor have its rank. -/
theorem getIdx_eq (m : Cast) (i : Nat) (isContig : Bool) {shape : List Nat} {strides : List Int}
    (hlen : strides.length = shape.length) :
    m.getIdx i isContig shape strides
      = if isContig ∨ m.ndim ≤ shape.length then
          some (if isContig then i else indexToOffset i m.ndim shape strides)
        else none := by
  cases isContig <;> simp [getIdx, hlen]

end Cast

namespace CastProblem

open Cast

variable (x : CastProblem)

/-! ## Addresses -/

/-- The members for these operands. -/
def members : Cast := ofTensors x.input.toTensor x.out.toTensor

theorem new_eq : Cast.new x.input.toTensor x.out.toTensor = .ok x.members :=
  bind_assertion_eq_ok.mpr ⟨x.accepted, rfl⟩

theorem outputSize_eq : x.members.outputSize = x.out.shape.prod := by
  rw [members, ofTensors, Tensor.numel_eq, toUInt64_eq_self (StoredTensor.prod_lt x.injective)]

/-- `input` has as many elements as the loop has iterations, or more. -/
theorem prod_le : x.out.shape.prod ≤ x.input.shape.prod := by
  have haccepted := x.accepted
  rw [Tensor.numel_eq, Tensor.numel_eq, toUInt64_eq_self (StoredTensor.prod_lt x.injective)]
    at haccepted
  exact haccepted ▸ toUInt64_le _

/-- Where the loop reads, as an offset. -/
def readOffset (i : Nat) : Int :=
  if x.input.isContiguous then x.input.offset (unravel x.input.shape i) else x.leadingOffset i

/-- Where the loop reads. -/
def readAddress (i : Nat) : Int := x.input.data + x.input.elementSize * x.readOffset i

/-- `get_idx` stays inside the arrays of `input`. -/
def Readable : Prop := x.input.isContiguous ∨ x.out.ndim ≤ x.input.ndim

instance : Decidable x.Readable := inferInstanceAs (Decidable (_ ∨ _))

/-- The leading dimensions are an index of `input` with the rest 0. -/
theorem elementAt_leading (h : x.out.ndim ≤ x.input.ndim) (hpos : 0 < x.input.shape.prod)
    (i : Nat) : elementAt (indexToOffset i x.out.ndim x.input.shape x.input.strides)
      = x.leadingOffset i := by
  have hsplit := List.take_append_drop x.out.ndim x.input.shape
  have hvalid : Valid x.input.shape (unravel (x.input.shape.take x.out.ndim) i
      ++ unravel (x.input.shape.drop x.out.ndim) 0) := by
    rw [← hsplit, List.prod_append] at hpos
    have hleading := unravel_valid (Nat.pos_of_mul_pos_right hpos) i
    have htrailing := unravel_valid (Nat.pos_of_mul_pos_left hpos) 0
    have hwhole := hleading.append htrailing
    rwa [hsplit] at hwhole
  have hoffset : x.input.offset (unravel (x.input.shape.take x.out.ndim) i
      ++ unravel (x.input.shape.drop x.out.ndim) 0) = x.leadingOffset i := by
    have hlen : (unravel (x.input.shape.take x.out.ndim) i).length
        = (x.input.strides.take x.out.ndim).length := by simp [x.input.rank_eq]
    rw [Tensor.offset, ← List.take_append_drop x.out.ndim x.input.strides, dot_append hlen]
    simp [leadingOffset]
  rw [indexToOffset_leading x.input.rank_eq h, ← leadingOffset, ← hoffset,
    x.input.elementAt_offset hvalid]

section Iteration

variable {i : Nat} (hi : i < x.out.shape.prod)
include hi

theorem outAddress_eq :
    Elementwise.elementAddress x.out.data x.out.dtype
        (if x.out.isContiguous then i
          else indexToOffset i x.out.ndim x.out.shape x.out.strides)
      = elementAddress x.out.toTensor i := by
  rw [Elementwise.elementAddress, elementAddress, Tensor.address, Tensor.elementSize]
  split
  · rename_i hcontiguous
    rw [StoredTensor.elementAt_of_isContiguous hcontiguous hi]
  · rw [Tensor.ndim, StoredTensor.elementAt_indexToOffset x.out hi]

theorem inAddress_eq (h : x.Readable) :
    Elementwise.elementAddress x.input.data x.input.dtype
        (if x.input.isContiguous then i
          else indexToOffset i x.out.ndim x.input.shape x.input.strides)
      = x.readAddress i := by
  have hlt : i < x.input.shape.prod := hi.trans_le x.prod_le
  rw [Elementwise.elementAddress, readAddress, readOffset, Tensor.elementSize]
  split
  · rename_i hcontiguous
    rw [StoredTensor.elementAt_of_isContiguous hcontiguous hlt]
  · rename_i hcontiguous
    rw [x.elementAt_leading (h.resolve_left hcontiguous) (Nat.zero_lt_of_lt hlt)]

/-- The two addresses of an iteration, or none if the rank is too large. -/
theorem pointers_eq :
    x.members.pointers x.input.dtype x.out.dtype x.input.toTensor x.out.toTensor i
      = if x.Readable then some (elementAddress x.out.toTensor i, x.readAddress i) else none := by
  have hout : x.members.getIdx i x.members.isOutContiguous x.members.outShape x.members.outStrides
      = some (if x.out.isContiguous then i
          else indexToOffset i x.out.ndim x.out.shape x.out.strides) :=
    (getIdx_eq _ _ _ x.out.rank_eq).trans (if_pos (Or.inr (Nat.le_refl _)))
  have hin : x.members.getIdx i x.members.isInputContiguous x.members.inputShape
        x.members.inputStrides
      = if x.Readable then some (if x.input.isContiguous then i
          else indexToOffset i x.out.ndim x.input.shape x.input.strides) else none :=
    getIdx_eq _ _ _ x.input.rank_eq
  rw [pointers, hin, hout]
  by_cases hreadable : x.Readable
  · rw [if_pos hreadable, if_pos hreadable, ← x.inAddress_eq hi hreadable, ← x.outAddress_eq hi]
    rfl
  · rw [if_neg hreadable, if_neg hreadable]
    rfl

end Iteration

/-! ## The loop -/

/-- The loop with addresses that are always there. -/
def moves (caster : Caster) (mem : Int → UInt8) (order : List Nat) : Int → UInt8 :=
  moveAll (elementAddress x.out.toTensor) x.readAddress (fun _ => x.input.elementSize)
    (fun _ => caster.cast x.input.dtype x.out.dtype) mem order

/-- An iteration stores an element. -/
theorem length_cast (caster : Caster) (order : List Nat) : ∀ i ∈ order, ∀ bytes : List UInt8,
    bytes.length = x.input.elementSize →
      (caster.cast x.input.dtype x.out.dtype bytes).length = x.out.elementSize :=
  fun _ _ _ _ => caster.length_cast _ _ _

variable {x} in
theorem compute_eq_moves (h : x.Readable) (caster : Caster) {order : List Nat}
    (horder : ∀ i ∈ order, i < x.out.shape.prod) (mem : Int → UInt8) :
    x.members.compute caster x.input.dtype x.out.dtype x.input.toTensor x.out.toTensor order mem
      = some (x.moves caster mem order) := by
  have hpointers : ∀ i ∈ order,
      x.members.pointers x.input.dtype x.out.dtype x.input.toTensor x.out.toTensor i
        = some (elementAddress x.out.toTensor i, x.readAddress i) := by
    intro i hi
    rw [x.pointers_eq (horder i hi), if_pos h]
  exact StridedStore.foldlM_eq_some _ _ _ hpointers mem

variable {x} in
/-- Without the rank that is read, the first iteration leaves the arrays. -/
theorem compute_eq_none (h : ¬ x.Readable) (caster : Caster) {order : List Nat}
    (horder : ∀ i ∈ order, i < x.out.shape.prod) (hne : order ≠ []) (mem : Int → UInt8) :
    x.members.compute caster x.input.dtype x.out.dtype x.input.toTensor x.out.toTensor order mem
      = none := by
  obtain ⟨i, rest, rfl⟩ := List.exists_cons_of_ne_nil hne
  rw [compute, List.foldlM_cons, x.pointers_eq (horder i List.mem_cons_self), if_neg h]
  rfl

variable {x} in
/-- The elements of `out` have no byte in common. -/
theorem out_apart {i j : Nat} (hi : i < x.out.shape.prod) (hj : j < x.out.shape.prod) (hne : i ≠ j)
    {p : Int} (hp : p ∈ span (elementAddress x.out.toTensor i) x.out.elementSize) :
    p ∉ span (elementAddress x.out.toTensor j) x.out.elementSize := by
  refine notMem_span_of_ne ?_ hp
  intro heq
  have hpos := Nat.zero_lt_of_lt hi
  exact hne (unravel_inj hi hj
    (x.injective _ _ (unravel_valid hpos i) (unravel_valid hpos j) heq))

section Order

variable {x} (caster : Caster) (mem : Int → UInt8) {pre post : List Nat} {i : Nat}
  (horder : (pre ++ i :: post).Perm (List.range x.out.shape.prod))
include horder

theorem lt_of_mem_order {j : Nat} (hj : j ∈ pre ++ i :: post) : j < x.out.shape.prod :=
  List.mem_range.mp (horder.mem_iff.mp hj)

/-- In an order of all iterations the element of one holds what it reads
after those before it. -/
theorem load_moves :
    load (x.moves caster mem (pre ++ i :: post)) (elementAddress x.out.toTensor i)
        x.out.elementSize
      = caster.cast x.input.dtype x.out.dtype
          (load (x.moves caster mem pre) (x.readAddress i) x.input.elementSize) := by
  have hnodup := horder.nodup_iff.mpr List.nodup_range
  have hi := lt_of_mem_order horder (List.mem_append_right _ List.mem_cons_self)
  refine load_moveAll (x.length_cast caster _) fun j hj p hp => ?_
  have hne : i ≠ j := by
    rintro rfl
    exact (List.nodup_cons.mp (List.nodup_append.mp hnodup).2.1).1 hj
  have hj' := lt_of_mem_order horder (List.mem_append_right _ (List.mem_cons_of_mem i hj))
  exact out_apart hi hj' hne hp

/-- A memory that the iterations before it left alone is read as it was. -/
theorem load_moves_of_apart (h : ∀ j ∈ pre, ∀ p ∈ span (x.readAddress i) x.input.elementSize,
      p ∉ span (elementAddress x.out.toTensor j) x.out.elementSize) :
    load (x.moves caster mem (pre ++ i :: post)) (elementAddress x.out.toTensor i)
        x.out.elementSize
      = caster.cast x.input.dtype x.out.dtype
          (load mem (x.readAddress i) x.input.elementSize) := by
  have hsource : load (x.moves caster mem pre) (x.readAddress i) x.input.elementSize
      = load mem (x.readAddress i) x.input.elementSize :=
    load_congr fun p hp => moveAll_of_notMem (x.length_cast caster pre) fun j hj => h j hj p hp
  rw [load_moves caster mem horder, hsource]

end Order

/-! ## Reads in order -/

variable {x} in
/-- With a strided `input`, the ranks fit just if the leading dimensions
place every element where all dimensions do. -/
theorem rankFits_iff (hpos : 0 < x.out.shape.prod) :
    x.RankFits ↔ x.out.ndim ≤ x.input.ndim ∧
      ∀ i < x.out.shape.prod, x.leadingOffset i = x.input.offset (unravel x.input.shape i) := by
  have hshape := List.take_append_drop x.out.ndim x.input.shape
  have hstrides := List.take_append_drop x.out.ndim x.input.strides
  have hprod : 0 < x.input.shape.prod := hpos.trans_le x.prod_le
  have hleading := leading_eq_iff (x.input.shape.take x.out.ndim) (x.input.shape.drop x.out.ndim)
    (x.input.strides.take x.out.ndim) (x.input.strides.drop x.out.ndim)
    (by simp [x.input.rank_eq]) (by simp [x.input.rank_eq])
  rw [hshape, hstrides] at hleading
  have hclosed := hleading hprod
  rw [RankFits, Tensor.numel_eq, Tensor.numel_eq]
  constructor
  · rintro (heq | ⟨hlt, h⟩)
    · refine ⟨heq.ge, fun i _ => ?_⟩
      rw [leadingOffset, ← heq, Tensor.ndim, List.take_length, ← x.input.rank_eq, List.take_length,
        Tensor.offset]
    · refine ⟨hlt.le, fun i hi => ?_⟩
      split at h
      · rename_i hnumel
        exact hclosed.mpr h i (hnumel ▸ hi)
      · exact h i hi
  · rintro ⟨hle, h⟩
    rcases Nat.lt_or_eq_of_le hle with hlt | heq
    · refine Or.inr ⟨hlt, ?_⟩
      split
      · rename_i hnumel
        exact hclosed.mp fun n hn => h n (hnumel ▸ hn)
      · exact h
    · exact Or.inl heq.symm

variable {x} in
/-- The loop reads every element where it is. -/
theorem readable_iff (hpos : 0 < x.out.shape.prod) :
    x.input.isContiguous ∨ x.RankFits ↔ x.Readable ∧
      ∀ i < x.out.shape.prod, x.readAddress i = elementAddress x.input.toTensor i := by
  by_cases hcontiguous : x.input.isContiguous
  · simp [hcontiguous, Readable, readAddress, readOffset, elementAddress, Tensor.address]
  · have hsize := Nat.ne_of_gt x.input.elementSize_pos
    simp [hcontiguous, Readable, readAddress, readOffset, elementAddress, Tensor.address, hsize,
      rankFits_iff hpos]

/-! ## Operands that fit -/

/-- The members, the call and its loop in one. -/
theorem meets_iff_compute : x.Meets ↔ ∀ (caster : Caster) (s : Schedule) (mem : Int → UInt8), ∃ mem',
    x.members.compute caster x.input.dtype x.out.dtype x.input.toTensor x.out.toTensor
        (s.order x.out.shape.prod) mem = some mem' ∧
      ∀ i < x.out.shape.prod,
        load mem' (elementAddress x.out.toTensor i) x.out.elementSize
          = caster.cast x.input.dtype x.out.dtype
              (load mem (elementAddress x.input.toTensor i) x.input.elementSize) := by
  have hcall : ∀ (caster : Caster) (s : Schedule) (mem : Int → UInt8),
      x.members.call caster s.order x.input.toTensor x.out.toTensor mem
        = .ok (x.members.compute caster x.input.dtype x.out.dtype x.input.toTensor x.out.toTensor
            (s.order x.out.shape.prod) mem) := by
    intro caster s mem
    rw [call_eq, outputSize_eq]
    rfl
  constructor
  · intro h caster s mem
    obtain ⟨m, mem', hnew, hrun, hload⟩ := h caster s mem
    rw [x.new_eq] at hnew
    obtain rfl := Except.ok.inj hnew
    rw [hcall] at hrun
    exact ⟨mem', Except.ok.inj hrun, hload⟩
  · intro h caster s mem
    obtain ⟨mem', hrun, hload⟩ := h caster s mem
    exact ⟨x.members, mem', x.new_eq, by rw [hcall, hrun], hload⟩

theorem mem_order (s : Schedule) (n i : Nat) : i ∈ s.order n ↔ i < n := by
  rw [(s.perm n).mem_iff, List.mem_range]

variable {x} in
theorem meets_of_fits (h : x.Fits) : x.Meets := by
  rw [meets_iff_compute]
  intro caster s mem
  rcases Nat.eq_zero_or_pos x.out.shape.prod with hzero | hpos
  · have hempty : s.order x.out.shape.prod = [] := by
      have hperm := s.perm x.out.shape.prod
      rw [hzero] at hperm ⊢
      exact hperm.eq_nil
    rw [hempty]
    exact ⟨mem, rfl, fun i hi => absurd hi (by omega)⟩
  · obtain ⟨hreads, hapart⟩ := h.resolve_left (by rw [Tensor.numel_eq]; omega)
    obtain ⟨hreadable, haddress⟩ := (readable_iff hpos).mp hreads
    refine ⟨_, compute_eq_moves hreadable caster (fun i hi => (mem_order s _ i).mp hi) mem, ?_⟩
    intro i hi
    have horder := s.perm x.out.shape.prod
    obtain ⟨pre, post, hsplit⟩ := List.append_of_mem ((mem_order s _ i).mpr hi)
    rw [hsplit] at horder ⊢
    rw [← haddress i hi]
    refine load_moves_of_apart caster mem horder fun j hj p hp => ?_
    have hj' := lt_of_mem_order horder (List.mem_append_left _ hj)
    have hne : i ≠ j := by
      rintro rfl
      have hnodup := horder.nodup_iff.mpr List.nodup_range
      exact (List.nodup_append.mp hnodup).2.2 i hj i List.mem_cons_self rfl
    rw [haddress i hi] at hp
    exact hapart i (by rwa [Tensor.numel_eq]) j (by rwa [Tensor.numel_eq]) hne p hp

/-! ## Operands that do not -/

/-- Every byte of the result says whether all bytes of the source are 0. -/
def probe (onZero onOther : UInt8) : Caster where
  cast _ dst bytes :=
    List.replicate (kDataTypeToSize dst) (if bytes.all (· == 0) then onZero else onOther)
  length_cast _ _ _ := by simp

section Probe

variable {onZero onOther : UInt8} {src dst : DataType} {mem : Int → UInt8} {addr : Int} {n : Nat}

theorem probe_of_zero (h : ∀ p ∈ span addr n, mem p = 0) :
    (probe onZero onOther).cast src dst (load mem addr n)
      = List.replicate (kDataTypeToSize dst) onZero := by
  have hall : (load mem addr n).all (· == 0) := by
    rw [List.all_eq_true]
    intro b hb
    obtain ⟨p, hp, rfl⟩ := List.mem_map.mp hb
    simp [h p hp]
  exact congrArg (List.replicate _) (if_pos hall)

theorem probe_of_ne {p : Int} (hp : p ∈ span addr n) (hne : mem p ≠ 0) :
    (probe onZero onOther).cast src dst (load mem addr n)
      = List.replicate (kDataTypeToSize dst) onOther := by
  have hall : ¬ (load mem addr n).all (· == 0) := by
    intro h
    have hbyte := List.all_eq_true.mp h (mem p) (List.mem_map_of_mem hp)
    simp [hne] at hbyte
  exact congrArg (List.replicate _) (if_neg hall)

end Probe

/-- The bytes of an element tell two values apart. -/
theorem replicate_ne {b c : UInt8} (hne : b ≠ c) (dtype : DataType) :
    List.replicate (kDataTypeToSize dtype) b ≠ List.replicate (kDataTypeToSize dtype) c := by
  intro h
  have hpos : kDataTypeToSize dtype ≠ 0 := by cases dtype <;> decide
  exact hne ((List.replicate_right_inj hpos).mp h)

/-- A schedule that starts with some iterations. -/
def scheduleFrom (start : List Nat) (n : Nat) (hnodup : start.Nodup) (hlt : ∀ i ∈ start, i < n) :
    Schedule where
  order k := if k = n then start ++ (List.range n).diff start else List.range k
  perm k := by
    by_cases hk : k = n
    · rw [if_pos hk, hk]
      refine List.subperm_append_diff_self_of_count_le fun i hi => ?_
      rw [List.count_eq_one_of_mem hnodup hi]
      exact List.count_pos_iff.mpr (List.mem_range.mpr (hlt i hi))
    · rw [if_neg hk]

variable {x}

/-- A call that goes through in an order with these iterations first. -/
theorem exists_of_meets (h : x.Meets) (hreadable : x.Readable) (caster : Caster) (mem : Int → UInt8)
    (pre : List Nat) (i : Nat) (hnodup : (pre ++ [i]).Nodup)
    (hlt : ∀ j ∈ pre ++ [i], j < x.out.shape.prod) :
    caster.cast x.input.dtype x.out.dtype
        (load (x.moves caster mem pre) (x.readAddress i) x.input.elementSize)
      = caster.cast x.input.dtype x.out.dtype
          (load mem (elementAddress x.input.toTensor i) x.input.elementSize) := by
  have hi := hlt i (List.mem_append_right _ List.mem_cons_self)
  have hsplit : (scheduleFrom (pre ++ [i]) x.out.shape.prod hnodup hlt).order x.out.shape.prod
      = pre ++ i :: (List.range x.out.shape.prod).diff (pre ++ [i]) := by
    simp [scheduleFrom]
  obtain ⟨mem', hrun, hload⟩ := x.meets_iff_compute.mp h caster
    (scheduleFrom (pre ++ [i]) x.out.shape.prod hnodup hlt) mem
  rw [compute_eq_moves hreadable caster fun j hj => (mem_order _ _ j).mp hj] at hrun
  obtain rfl := Option.some.inj hrun
  have horder := (scheduleFrom (pre ++ [i]) x.out.shape.prod hnodup hlt).perm x.out.shape.prod
  have hat := hload i hi
  rw [hsplit] at horder hat
  rw [← hat, load_moves caster mem horder]

theorem readable_of_meets (h : x.Meets) (hpos : 0 < x.out.shape.prod) : x.Readable := by
  by_contra hnot
  obtain ⟨mem', hrun, -⟩ := x.meets_iff_compute.mp h (probe 0 1) .backwards fun _ => 0
  have hne : Schedule.backwards.order x.out.shape.prod ≠ [] := by
    intro hempty
    have hmem := (mem_order .backwards x.out.shape.prod 0).mpr hpos
    rw [hempty] at hmem
    cases hmem
  rw [compute_eq_none hnot _ (fun i hi => (mem_order .backwards _ i).mp hi) hne] at hrun
  cases hrun

/-- A read elsewhere misses a byte that is set in the element alone. -/
theorem readAddress_of_meets (h : x.Meets) {i : Nat} (hi : i < x.out.shape.prod) :
    x.readAddress i = elementAddress x.input.toTensor i := by
  have hreadable := readable_of_meets h (Nat.zero_lt_of_lt hi)
  have hloads := exists_of_meets h hreadable (probe 0 1)
    (fun p => if p = elementAddress x.input.toTensor i then 1 else 0) [] i
    (by simp) (by simpa using hi)
  have hfirst : elementAddress x.input.toTensor i
      ∈ span (elementAddress x.input.toTensor i) x.input.elementSize := by
    have hpos := x.input.elementSize_pos
    rw [mem_span]
    omega
  by_contra hne
  have hoffset : x.input.offset (unravel x.input.shape i) ≠ x.readOffset i := by
    intro heq
    exact hne (by rw [readAddress, ← heq, elementAddress, Tensor.address])
  have hmissed := notMem_span_of_ne hoffset hfirst
  rw [probe_of_ne hfirst (by simp)] at hloads
  have hzero : ∀ p ∈ span (x.readAddress i) x.input.elementSize,
      (if p = elementAddress x.input.toTensor i then 1 else 0 : UInt8) = 0 := by
    intro p hp
    refine if_neg ?_
    rintro rfl
    exact hmissed hp
  exact replicate_ne (by decide) _ ((probe_of_zero hzero).symm.trans hloads)

/-- An element of `out` that is written first changes a later source that
it shares a byte with. -/
theorem apart_of_meets (h : x.Meets) : x.Apart := by
  intro i hi j hj hne p hp hshared
  rw [Tensor.numel_eq] at hi hj
  have hreadable := readable_of_meets h (Nat.zero_lt_of_lt hi)
  have hloads := exists_of_meets h hreadable (probe 1 0) (fun _ => 0) [j] i
    (by simpa using Ne.symm hne) (by simp [hi, hj])
  rw [readAddress_of_meets h hi, probe_of_zero fun _ _ => rfl] at hloads
  have hwritten : x.moves (probe 1 0) (fun _ => 0) [j] p = 1 := by
    have hblock : (probe 1 0).cast x.input.dtype x.out.dtype
        (load (fun _ => 0) (x.readAddress j) x.input.elementSize)
          = List.replicate x.out.elementSize 1 := probe_of_zero fun _ _ => rfl
    have hstep : x.moves (probe 1 0) (fun _ => 0) [j]
        = store (fun _ => 0) (elementAddress x.out.toTensor j)
            (List.replicate x.out.elementSize 1) := congrArg (store _ _) hblock
    have hmem : x.moves (probe 1 0) (fun _ => 0) [j] p ∈ List.replicate x.out.elementSize 1 := by
      rw [hstep]
      exact store_mem _ (by simpa using hshared)
    exact List.eq_of_mem_replicate hmem
  have hne' : x.moves (probe 1 0) (fun _ => 0) [j] p ≠ 0 := by
    rw [hwritten]
    decide
  rw [probe_of_ne hp hne'] at hloads
  exact replicate_ne (by decide) _ hloads

theorem fits_of_meets (h : x.Meets) : x.Fits := by
  rcases Nat.eq_zero_or_pos x.out.shape.prod with hzero | hpos
  · exact Or.inl (by rwa [Tensor.numel_eq])
  · exact Or.inr ⟨(readable_iff hpos).mpr
      ⟨readable_of_meets h hpos, fun i hi => readAddress_of_meets h hi⟩, apart_of_meets h⟩

end CastProblem

/-- `Cast` pairs the elements by position, for every conversion and order
of iterations, just for operands that fit. -/
theorem cast_meets_iff (x : CastProblem) : x.Meets ↔ x.Fits :=
  ⟨CastProblem.fits_of_meets, CastProblem.meets_of_fits⟩

/-- A transposed matrix as a vector. -/
def flattenedTranspose : CastProblem where
  input :=
    { data := 0, shape := [2, 3], strides := [1, 2], rank_eq := by decide
      addressable := forall_valid_iff.mpr (by decide) }
  out :=
    { data := 64, shape := [6], strides := [1], rank_eq := by decide
      addressable := forall_valid_iff.mpr (by decide) }
  accepted := rfl
  injective := by decide

/-- Every second element of a vector as a matrix. -/
def foldedVector : CastProblem where
  input :=
    { data := 0, shape := [8], strides := [2], rank_eq := by decide
      addressable := forall_valid_iff.mpr (by decide) }
  out :=
    { data := 64, shape := [2, 4], strides := [4, 1], rank_eq := by decide
      addressable := forall_valid_iff.mpr (by decide) }
  accepted := rfl
  injective := by decide

/-- The one reads the wrong elements, the other a second extent. -/
theorem reshapes_not_met :
    ¬ flattenedTranspose.Meets ∧ ¬ foldedVector.Meets ∧
      foldedVector.members.pointers .kFloat32 .kFloat32 foldedVector.input.toTensor
        foldedVector.out.toTensor 0 = none := by
  have hflat : ¬ flattenedTranspose.input.isContiguous := by
    intro h
    cases Tensor.forall₂_of_isContiguous flattenedTranspose.input.rank_eq h with
    | cons hstride _ => exact absurd hstride (by decide)
  have hfolded : ¬ foldedVector.Readable := by
    rintro (h | h)
    · cases Tensor.forall₂_of_isContiguous foldedVector.input.rank_eq h with
      | cons hstride _ => exact absurd hstride (by decide)
    · exact absurd h (by decide)
  refine ⟨fun h => ?_, fun h => hfolded (CastProblem.readable_of_meets h (by decide)), ?_⟩
  · have hread := CastProblem.readAddress_of_meets h (i := 1) (by decide)
    rw [CastProblem.readAddress, CastProblem.readOffset, if_neg hflat] at hread
    exact absurd hread (by decide)
  · exact (foldedVector.pointers_eq (i := 0) (by decide)).trans (if_neg hfolded)

end InfiniOps.Cpu
