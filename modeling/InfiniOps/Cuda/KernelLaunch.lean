/-
InfiniOps.Cuda.KernelLaunch — a kernel launch as a grid of threads.

The threads of a launch read and write global and shared memory in any
order, whatever their blocks. Within a block they meet at
`__syncthreads()` and in `cub::BlockReduce`, which combines the values of
the threads in some order and gives the result to the first thread; what
the others get is not specified.
-/
import InfiniOps.Cpu.Linear
import InfiniOps.Lib.Grid
import InfiniOps.Softmax.CausalSoftmax
import Mathlib.Algebra.BigOperators.Fin
import Mathlib.Data.Fintype.Prod

namespace InfiniOps.Cuda

open Grid RowMajor StridedLoop StridedStore

/-! ## Meetings -/

/-- Where the threads of a block meet. -/
inductive Collective (ν : Type) where
  | syncthreads
  | blockReduce (op : ν → ν → ν)

/-- `r` is a combination of all the values, by `op`. -/
inductive Reduces {ν : Type} (op : ν → ν → ν) : List ν → ν → Prop where
  | single (x : ν) : Reduces op [x] x
  | join {xs ys : List ν} {x y : ν} (hx : Reduces op xs x) (hy : Reduces op ys y) :
      Reduces op (xs ++ ys) (op x y)
  | perm {xs ys : List ν} {x : ν} (h : xs.Perm ys) (hx : Reduces op xs x) : Reduces op ys x

/-- What a thread may get at a meeting. -/
def collective {ν : Type} {n : Nat} : Meeting (Fin n) ν (Collective ν)
  | .syncthreads, _, _, _ => True
  | .blockReduce op, value, t, r => t.val = 0 → Reduces op (List.ofFn value) r

/-- A combination that `op` takes along is kept. -/
theorem Reduces.invariant {ν : Type} {op : ν → ν → ν} {P : List ν → ν → Prop}
    (hsingle : ∀ x, P [x] x)
    (hjoin : ∀ xs ys x y, P xs x → P ys y → P (xs ++ ys) (op x y))
    (hperm : ∀ xs ys x, xs.Perm ys → P xs x → P ys x) {xs : List ν} {r : ν}
    (h : Reduces op xs r) : P xs r := by
  induction h with
  | single x => exact hsingle x
  | join _ _ ihx ihy => exact hjoin _ _ _ _ ihx ihy
  | perm hp _ ih => exact hperm _ _ _ hp ih

theorem Reduces.exists {ν : Type} (op : ν → ν → ν) {xs : List ν} (h : xs ≠ []) :
    ∃ r, Reduces op xs r := by
  induction xs with
  | nil => exact absurd rfl h
  | cons x xs ih =>
    cases xs with
    | nil => exact ⟨x, .single x⟩
    | cons y ys =>
      obtain ⟨r, hr⟩ := ih (List.cons_ne_nil _ _)
      exact ⟨op x r, .join (.single x) hr⟩

theorem collective_exists {ν : Type} {n : Nat} (op : Collective ν) (value : Fin n → ν)
    (t : Fin n) : ∃ r, collective op value t r := by
  cases op with
  | syncthreads => exact ⟨value t, trivial⟩
  | blockReduce op =>
    have hne : List.ofFn value ≠ [] := by
      intro hnil
      exact (List.ofFn_eq_nil_iff.mp hnil ▸ t).elim0
    obtain ⟨r, hr⟩ := Reduces.exists op hne
    exact ⟨r, fun _ => hr⟩

/-! ## Memory -/

section Memory

variable {V : Type} {t : Tensor} {data data' : Int → V}

/-- The elements of a tensor by offset, and nothing else. -/
def elementOf (t : Tensor) (data : Int → V) : Int → Option V := fun o =>
  if o ∈ Cpu.elements t then some (data o) else none

theorem elementOf_of_mem (data : Int → V) {o : Int} (h : o ∈ Cpu.elements t) :
    elementOf t data o = some (data o) :=
  if_pos h

theorem elementOf_congr {o : Int} (h : data o = data' o) :
    elementOf t data o = elementOf t data' o := by
  rw [elementOf, elementOf, h]

theorem elementOf_offset (data : Int → V) {idx : List Nat} (h : Valid t.shape idx) :
    elementOf t data (t.offset idx) = some (data (t.offset idx)) := by
  refine elementOf_of_mem data (List.mem_map.mpr ⟨ravel t.shape idx, ?_, ?_⟩)
  · exact List.mem_range.mpr (ravel_lt h)
  · rw [unravel_ravel h]

end Memory

/-! ## Launches -/

/-- A grid of two dimensions, and what each of its threads does. -/
structure Launch (κ ν : Type) where
  gridX : Nat
  gridY : Nat
  blockDim : Nat
  kernel : (blockIdx : Nat × Nat) → (threadIdx : Nat) → Prog κ ν (Collective ν)

/-- The device takes the launch. -/
def Launch.Accepted {κ ν : Type} (l : Launch κ ν) (d : Softmax.CudaDevice) : Prop :=
  (0 < l.gridX ∧ l.gridX ≤ d.maxGridX) ∧ (0 < l.gridY ∧ l.gridY ≤ d.maxGridY) ∧
    0 < l.blockDim ∧ l.blockDim ≤ d.maxThreads

namespace Launch

variable {κ ν : Type} [DecidableEq κ] (l : Launch κ ν)

abbrev Block := Fin l.gridX × Fin l.gridY

/-- No thread has begun. -/
def start (mem : Mem κ ν) : State l.Block (Fin l.blockDim) κ ν (Collective ν) where
  prog b t := l.kernel (b.1, b.2) t
  mem := mem

/-- In whatever order its threads run, the launch comes to an end, within a
number of steps and without getting stuck, and leaves memory with `Q`. -/
def Ends (mem : Mem κ ν) (Q : Mem κ ν → Prop) : Prop :=
  ∃ steps, ∀ labels s, (runs collective (l.start mem)).Run (l.start mem) labels s →
    labels.length ≤ steps ∧ (Done s ∨ ∃ b s', Step collective s b s') ∧ (Done s → Q s.mem)

variable {l}

theorem ends_of_blocks (hpos : 0 < l.blockDim) {F W : l.Block → Set κ}
    {P : l.Block → Mem κ ν → Prop} {n : l.Block → Nat} {mem : Mem κ ν}
    {Q : Mem κ ν → Prop} (hfree : ∀ b b', b ≠ b' → ∀ a ∈ W b, a ∉ F b')
    (h : ∀ b, Block.Ends collective (F b) (W b) (P b) (n b)
      (fun t : Fin l.blockDim => l.kernel (b.1, b.2) t) mem)
    (hQ : ∀ final : Mem κ ν, (∀ b, P b final) → (∀ a, (∀ b, a ∉ W b) → final a = mem a) → Q final) :
    l.Ends mem Q := by
  have : Nonempty (Fin l.blockDim) := ⟨⟨0, hpos⟩⟩
  refine ⟨∑ b, n b, fun labels s hrun => ?_⟩
  obtain ⟨hlength, hmoves, hdone⟩ := run_ends (s := l.start mem) hfree h hrun
  refine ⟨hlength, hmoves, fun hd => ?_⟩
  obtain ⟨hP, hframe⟩ := hdone hd
  exact hQ _ hP hframe

end Launch

/-! ## From meeting to meeting -/

/-- What the first thread gets from the threads' sums. -/
theorem reduces_add {M : Type} [AddCommMonoid M] {xs : List M} {r : M}
    (h : Reduces (· + ·) xs r) : r = xs.sum :=
  h.invariant (P := fun xs r => r = xs.sum) (fun x => List.sum_singleton.symm)
    (fun xs ys x y hx hy => by rw [hx, hy, List.sum_append])
    (fun xs ys x hperm hx => hx.trans hperm.sum_eq)

theorem ofFn_val {α : Type} (n : Nat) (f : Nat → α) :
    List.ofFn (fun t : Fin n => f t) = (List.range n).map f := by
  rw [List.ofFn_eq_map, ← List.map_coe_finRange_eq_range, List.map_map]
  rfl

/-- What the first thread gets from the sums of the threads' columns. -/
theorem blockReduce_sum {M : Type} [AddCommMonoid M] {n : Nat} (hn : 0 < n) (count : Nat)
    (f : Nat → M) {r : M}
    (h : Reduces (· + ·) (List.ofFn fun t : Fin n => ((stridedLoop t n count).map f).sum) r) :
    r = ((List.range count).map f).sum := by
  rw [reduces_add h, ofFn_val n fun t => ((stridedLoop t n count).map f).sum]
  exact sum_stridedLoop hn count f

/-- `if (threadIdx.x == 0) cell = value; __syncthreads();` -/
def storeShared {κ ν : Type} [Zero ν] (cell : κ) (threadIdx : Nat) (value : ν)
    (rest : Prog κ ν (Collective ν)) : Prog κ ν (Collective ν) :=
  let barrier := .meet .syncthreads 0 fun _ => rest
  if threadIdx = 0 then .write cell value barrier else barrier

section Phases

variable {κ ν : Type} [DecidableEq κ] {n k : Nat} (hn : 0 < n) {F V : Set κ} {Q : Mem κ ν → Prop}
  {mem : Mem κ ν}

include hn

theorem ends_collective {op : Collective ν} {value : Fin n → ν}
    {rest : Fin n → ν → Prog κ ν (Collective ν)}
    (h : ∀ r : Fin n → ν, (∀ t, collective op value t (r t)) →
      Block.Ends collective F V Q k (fun t => rest t (r t)) mem) :
    Block.Ends collective F V Q (k + 1) (fun t => .meet op (value t) (rest t)) mem := by
  have hnonempty : Nonempty (Fin n) := ⟨⟨0, hn⟩⟩
  exact .meet (fun _ => rfl) (collective_exists op value) h

/-- Up to their next meeting the threads only read. -/
theorem ends_reads {R : Set κ} (hR : R ⊆ F) {p q : Fin n → Prog κ ν (Collective ν)}
    {count : Fin n → Nat} (hsolo : ∀ t, Solo R ∅ mem (p t) (count t) mem (q t))
    (h : Block.Ends collective F V Q k q mem) :
    Block.Ends collective F V Q ((∑ t, count t) + k) p mem := by
  have hnonempty : Nonempty (Fin n) := ⟨⟨0, hn⟩⟩
  refine .phase (R := fun _ => R) (W := fun _ => ∅)
    (fun t t' _ a ha => absurd ha (Set.notMem_empty a)) (fun t a ha => ?_)
    (fun t a ha => absurd ha (Set.notMem_empty a)) hsolo
    (fun t a ha => absurd ha (Set.notMem_empty a)) (fun a _ _ => rfl) h
  rcases ha with ha | ha
  · exact hR ha
  · exact absurd ha (Set.notMem_empty a)

/-- Behind the barrier the shared variable holds the value of the first
thread. -/
theorem ends_storeShared [Zero ν] {cell : κ} (hF : cell ∈ F) (hV : cell ∈ V)
    (hexists : (mem cell).isSome) {value : Fin n → ν} {x : ν}
    (hvalue : ∀ t, t.val = 0 → value t = x) {rest : Fin n → Prog κ ν (Collective ν)}
    (h : Block.Ends collective F V Q k rest (Function.update mem cell (some x))) :
    Block.Ends collective F V Q ((∑ t : Fin n, if t.val = 0 then 1 else 0) + (k + 1))
      (fun t => storeShared cell t (value t) (rest t)) mem := by
  have hnonempty : Nonempty (Fin n) := ⟨⟨0, hn⟩⟩
  have hbarrier : Block.Ends collective F V Q (k + 1)
      (fun t => .meet .syncthreads 0 fun _ => rest t) (Function.update mem cell (some x)) :=
    ends_collective hn fun _ _ => h
  have hsolo : ∀ t : Fin n, Solo ∅ {a | t.val = 0 ∧ a = cell} mem
      (storeShared cell t (value t) (rest t)) (if t.val = 0 then 1 else 0)
      (if t.val = 0 then Function.update mem cell (some x) else mem)
      (.meet .syncthreads 0 fun _ => rest t) := by
    intro t
    rw [storeShared]
    by_cases ht : t.val = 0
    · rw [if_pos ht, if_pos ht, if_pos ht, hvalue t ht]
      exact .write ⟨ht, rfl⟩ hexists (.meet _ _ _ _)
    · rw [if_neg ht, if_neg ht, if_neg ht]
      exact .meet _ _ _ _
  refine .phase (R := fun _ => ∅) (W := fun t : Fin n => {a | t.val = 0 ∧ a = cell})
    (fun t t' hne a ha => ⟨Set.notMem_empty a, fun ha' => hne (Fin.ext ?_)⟩)
    (fun t a ha => ?_) (fun t a ha => ha.2 ▸ hV) hsolo (fun t a ha => ?_) (fun a ha hnot => ?_)
    hbarrier
  · exact ha.1.trans ha'.1.symm
  · rcases ha with ha | ⟨-, rfl⟩
    · exact absurd ha (Set.notMem_empty a)
    · exact hF
  · rw [if_pos ha.1]
  · have hne : a ≠ cell := fun heq => hnot ⟨0, hn⟩ ⟨rfl, heq⟩
    exact (Function.update_of_ne hne _ _).symm

/-! ## Loops over columns -/

section Columns

variable {count : Nat} {cell : Nat → κ} {v : Nat → ν}
  (hinj : ∀ i < count, ∀ j < count, cell i = cell j → i = j)

omit hn in
include hinj in
theorem storeAll_column {i : Nat} (hi : i < count) :
    storeAll cell (fun i _ => some (v i)) mem (List.range count) (cell i)
      = some (v i) := by
  refine storeAll_at_of_nodup _ _ _ (List.nodup_range.map_on fun j hj k hk heq => ?_)
    (List.mem_range.mpr hi)
  exact hinj j (List.mem_range.mp hj) k (List.mem_range.mp hk) heq

omit hn in
theorem storeAll_other {a : κ} (ha : ∀ i < count, a ≠ cell i) :
    storeAll cell (fun i _ => some (v i)) mem (List.range count) a = mem a := by
  refine storeAll_of_notMem _ _ _ fun hmem => ?_
  obtain ⟨i, hi, heq⟩ := List.mem_map.mp hmem
  exact ha i (List.mem_range.mp hi) heq.symm

include hinj in
/-- Each thread writes its columns, of what is in `S` and in the column. -/
theorem ends_columns (value : Nat → ν) (steps : Nat → Nat) {S : Set κ}
    {body : Nat → Prog κ ν (Collective ν) → Prog κ ν (Collective ν)}
    {last : Fin n → Prog κ ν (Collective ν)} (hout : ∀ i < count, cell i ∉ S) (hS : S ⊆ F)
    (hcell : ∀ i < count, cell i ∈ F ∧ cell i ∈ V)
    (hbody : ∀ i < count, ∀ mem₁ : Mem κ ν,
      (∀ a, (∀ j < count, j ≠ i → a ≠ cell j) → mem a = mem₁ a) →
      ∀ (R W : Set κ), S ⊆ R → cell i ∈ R → cell i ∈ W →
      ∀ (rest q : Prog κ ν (Collective ν)) (m : Nat) (mem' : Mem κ ν),
        Solo R W (Function.update mem₁ (cell i) (some (value i))) rest m mem' q →
        Solo R W mem₁ (body i rest) (m + steps i) mem' q)
    (hlast : ∀ t R W mem₁, Solo R W mem₁ (last t) 0 mem₁ (last t))
    (h : Block.Ends collective F V Q k last
      (storeAll cell (fun i _ => some (value i)) mem (List.range count))) :
    Block.Ends collective F V Q ((∑ t : Fin n, (0 + ((stridedLoop t n count).map steps).sum)) + k)
      (fun t => .forEach body (stridedLoop t n count) (last t)) mem := by
  have hnonempty : Nonempty (Fin n) := ⟨⟨0, hn⟩⟩
  have hmem : ∀ {t : Fin n} {i : Nat}, i ∈ stridedLoop t n count ↔ i < count ∧ i % n = t :=
    fun {t _} => mem_stridedLoop hn t.isLt
  have hnodup : ∀ t : Fin n, (stridedLoop t n count).Nodup := fun t => List.nodup_range' n hn
  have hsolo : ∀ t : Fin n, Solo (S ∪ {a | ∃ i ∈ stridedLoop t n count, a = cell i})
      {a | ∃ i ∈ stridedLoop t n count, a = cell i} mem
      (.forEach body (stridedLoop t n count) (last t))
      (0 + ((stridedLoop t n count).map steps).sum)
      (storeAll cell (fun i _ => some (value i)) mem (stridedLoop t n count)) (last t) := by
    intro t
    refine .forEach (fun i hi mem₁ hagree rest m mem' q hrest => ?_) (hnodup t) (hlast t _ _ _)
    have hcolumn : cell i ∈ {a | ∃ i ∈ stridedLoop t n count, a = cell i} := ⟨i, hi, rfl⟩
    exact hbody i (hmem.mp hi).1 mem₁ (fun a ha => hagree a fun j hj => ha j (hmem.mp hj).1) _ _
      Set.subset_union_left (.inr hcolumn) hcolumn rest q m mem' hrest
  refine .phase (R := fun t : Fin n => S ∪ {a | ∃ i ∈ stridedLoop t n count, a = cell i})
    (W := fun t : Fin n => {a | ∃ i ∈ stridedLoop t n count, a = cell i})
    (fun t t' hne a ha => ?_) (fun t a ha => ?_) (fun t a ha => ?_) hsolo
    (fun t a ha => ?_) (fun a ha hnot => ?_) h
  · -- a column is in the loop of one thread
    obtain ⟨i, hi, rfl⟩ := ha
    obtain ⟨hi, hmod⟩ := hmem.mp hi
    have hother : ¬ ∃ j ∈ stridedLoop t' n count, cell i = cell j := by
      rintro ⟨j, hj, heq⟩
      obtain ⟨hj, hmod'⟩ := hmem.mp hj
      obtain rfl := hinj i hi j hj heq
      exact hne (Fin.ext (hmod.symm.trans hmod'))
    exact ⟨fun ha => ha.elim (hout i hi) hother, hother⟩
  · have hcells : ∀ {a}, (∃ i ∈ stridedLoop t n count, a = cell i) → a ∈ F := by
      rintro _ ⟨i, hi, rfl⟩
      exact (hcell i (hmem.mp hi).1).1
    exact ha.elim (fun ha => ha.elim (fun ha => hS ha) hcells) hcells
  · obtain ⟨i, hi, rfl⟩ := ha
    exact (hcell i (hmem.mp hi).1).2
  · obtain ⟨i, hi, rfl⟩ := ha
    have hcells : ((stridedLoop t n count).map cell).Nodup :=
      (hnodup t).map_on fun j hj k hk heq => hinj j (hmem.mp hj).1 k (hmem.mp hk).1 heq
    rw [storeAll_column hinj (hmem.mp hi).1]
    exact storeAll_at_of_nodup _ _ _ hcells hi
  · refine (storeAll_other fun i hi heq => ?_).symm
    exact hnot ⟨i % n, Nat.mod_lt i hn⟩ ⟨i, hmem.mpr ⟨hi, rfl⟩, heq⟩

end Columns

end Phases

/-- A device with 512 threads in a block. -/
def smallDevice : Softmax.CudaDevice where
  maxThreads := 512
  maxThreads_ge := by decide
  maxBlockSize := 512
  maxBlockSize_mem := by decide
  maxGridX := 2 ^ 26
  maxGridY := 4096
  maxGridX_lt := by decide
  maxGridY_lt := by decide

/-! ## The dispatch -/

/-- `AllCudaBlockSizes`, of type `int`. -/
def cudaBlockSizes : AllowedList where
  enumType := .int true 32
  values := allCudaBlockSizes.map Int.ofNat
  typed := by decide
  nonempty := by decide

theorem getOptimalBlockSize_mem (maxThreads : Nat) :
    Softmax.getOptimalBlockSize maxThreads ∈ allCudaBlockSizes := by
  unfold Softmax.getOptimalBlockSize
  split_ifs <;> decide

theorem getOptimalBlockSize_le (d : Softmax.CudaDevice) :
    Softmax.getOptimalBlockSize d.maxThreads ≤ d.maxThreads := by
  have hge := d.maxThreads_ge
  unfold Softmax.getOptimalBlockSize
  split_ifs <;> omega

/-- The functor is invoked with a type of the list and the block size of
the device. -/
theorem dispatchKeys_types {R : Type} {f : Functor R} (hf : ∀ items v, f.isInvocable items v)
    (context : String) {types : List DataType} (hnonempty : types ≠ []) {dtype : DataType}
    (hmem : dtype ∈ types) {d : Softmax.CudaDevice} :
    dispatchKeys f context [.ofDataTypes types hnonempty, cudaBlockSizes]
        [dtype.code, Softmax.getOptimalBlockSize d.maxThreads]
      = ⟨[[dtype.code, Softmax.getOptimalBlockSize d.maxThreads]],
          .ok (f.call [dtype.code, Softmax.getOptimalBlockSize d.maxThreads])⟩ := by
  have hblock : ((Softmax.getOptimalBlockSize d.maxThreads : Nat) : Int) ∈ cudaBlockSizes.values :=
    List.mem_map_of_mem (getOptimalBlockSize_mem d.maxThreads)
  have hcast : castKeys [.ofDataTypes types hnonempty, cudaBlockSizes]
      [dtype.code, Softmax.getOptimalBlockSize d.maxThreads]
      = [dtype.code, (Softmax.getOptimalBlockSize d.maxThreads : Int)] := by
    simp only [castKeys, List.zipWith_cons_cons, List.zipWith_nil_left, cast_ofDataTypes,
      cudaBlockSizes.typed _ hblock]
  refine ((exact_iff f context _ _ rfl).mpr fun _ => hcast).1 ?_
  exact ⟨⟨mem_ofDataTypes.mpr hmem, hf _ _⟩, ⟨hblock, hf _ _⟩, trivial⟩

/-- The type is found by its code. -/
theorem find_code {types : List DataType} {dtype : DataType} (h : dtype ∈ types) :
    (types.find? fun t => t.code = dtype.code) = some dtype := by
  cases hfind : types.find? fun t => t.code = dtype.code with
  | none => exact absurd (decide_eq_true rfl) (List.find?_eq_none.mp hfind dtype h)
  | some found =>
    have hcode := List.find?_some (p := fun t : DataType => decide (t.code = dtype.code)) hfind
    exact congrArg some (code_injective (of_decide_eq_true hcode))

end InfiniOps.Cuda
