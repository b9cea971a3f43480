/-
InfiniOps.Lib.StridedLoop — a loop that a block of threads shares, each
thread starting at its own number and stepping by the size of the block.

* `perm_stridedLoop`: together the threads run every iteration once.
* `foldl_max`: folding `max` over a list gives an element of it, and an
  upper bound.
* `sum_stridedLoop`: the sum of the threads' sums is the sum.
-/
import Mathlib.Algebra.BigOperators.Group.List.Basic
import Mathlib.Algebra.Order.Ring.Nat
import Mathlib.Order.Lattice.Nat
import Mathlib.Data.List.Range

namespace StridedLoop

/-- The iterations of `for (i = start; i < count; i += step)`. -/
def stridedLoop (start step count : Nat) : List Nat :=
  List.range' start ((count - start + step - 1) / step) step

variable {step : Nat}

theorem mem_stridedLoop (hstep : 0 < step) {start count i : Nat} (hstart : start < step) :
    i ∈ stridedLoop start step count ↔ i < count ∧ i % step = start := by
  have hbound : ∀ k, k < (count - start + step - 1) / step ↔ start + step * k < count := by
    intro k
    rw [← Nat.succ_le_iff, Nat.le_div_iff_mul_le hstep, Nat.succ_mul, Nat.mul_comm k]
    omega
  rw [stridedLoop, List.mem_range']
  constructor
  · rintro ⟨k, hk, rfl⟩
    exact ⟨(hbound k).mp hk, by rw [Nat.add_mul_mod_self_left, Nat.mod_eq_of_lt hstart]⟩
  · rintro ⟨hlt, rfl⟩
    refine ⟨i / step, (hbound _).mpr ?_, (Nat.mod_add_div i step).symm⟩
    rwa [Nat.mod_add_div]

theorem perm_stridedLoop (hstep : 0 < step) (count : Nat) :
    ((List.range step).flatMap fun thread => stridedLoop thread step count).Perm
      (List.range count) := by
  have hmem : ∀ thread ∈ List.range step, ∀ i,
      i ∈ stridedLoop thread step count ↔ i < count ∧ i % step = thread := fun thread ht i =>
    mem_stridedLoop hstep (List.mem_range.mp ht)
  have hnodup : ((List.range step).flatMap fun thread => stridedLoop thread step count).Nodup := by
    refine List.nodup_flatMap.mpr ⟨fun thread _ => List.nodup_range' step hstep, ?_⟩
    refine List.nodup_range.pairwise_of_forall_ne ?_
    intro t ht t' ht' hne i hi hi'
    exact hne (((hmem t ht i).mp hi).2.symm.trans ((hmem t' ht' i).mp hi').2)
  refine (List.perm_ext_iff_of_nodup hnodup List.nodup_range).mpr fun i => ?_
  rw [List.mem_flatMap, List.mem_range]
  constructor
  · rintro ⟨thread, ht, hi⟩
    exact ((hmem thread ht i).mp hi).1
  · intro hi
    have ht := List.mem_range.mpr (Nat.mod_lt i hstep)
    exact ⟨i % step, ht, (hmem _ ht i).mpr ⟨hi, rfl⟩⟩

/-! ## Reductions -/

theorem sum_stridedLoop {M : Type} [AddCommMonoid M] (hstep : 0 < step) (count : Nat)
    (f : Nat → M) :
    ((List.range step).map fun thread => ((stridedLoop thread step count).map f).sum).sum
      = ((List.range count).map f).sum := by
  rw [← ((perm_stridedLoop hstep count).map f).sum_eq]
  induction List.range step with
  | nil => rfl
  | cons t ts ih =>
    rw [List.map_cons, List.sum_cons, ih, List.flatMap_cons, List.map_append, List.sum_append]

theorem foldl_max {α : Type} [LinearOrder α] (values : List α) (init : α) :
    values.foldl max init ∈ init :: values ∧ ∀ v ∈ init :: values, v ≤ values.foldl max init := by
  induction values generalizing init with
  | nil => simp
  | cons value values ih =>
    obtain ⟨hmem, hle⟩ := ih (max init value)
    rw [List.foldl_cons]
    refine ⟨?_, ?_⟩
    · rcases List.mem_cons.mp hmem with heq | hrest
      · rw [heq]
        rcases max_choice init value with h | h <;> simp [h]
      · exact List.mem_cons_of_mem _ (List.mem_cons_of_mem _ hrest)
    · have hmax := hle _ List.mem_cons_self
      intro v hv
      rcases List.mem_cons.mp hv with rfl | hv
      · exact le_trans (le_max_left _ _) hmax
      · rcases List.mem_cons.mp hv with rfl | hv
        · exact le_trans (le_max_right _ _) hmax
        · exact hle v (List.mem_cons_of_mem _ hv)

end StridedLoop
