/-
InfiniOps.Lib.Scatter — buffers filled by copies of cells, and rows
gathered from them.

A buffer is a list seen as cells of one size. A `Copy` moves a cell of one
buffer to a cell of another; `scatter` makes a list of copies one after the
other. Where the destinations are the cells of the buffer in some order,
every position is written exactly once (`writes_eq_one`) and every cell is
the source cell of its copy (`cell_scatter`). `gather` lists cells behind
one another.
-/
import Mathlib.Data.List.GetD
import Mathlib.Data.List.Induction
import Mathlib.Data.List.Nodup

namespace Scatter

variable {α : Type}

/-! ## Cells -/

/-- Cell `k` of a buffer. -/
def cell (size : Nat) (buf : List α) (k : Nat) : List α := (buf.drop (k * size)).take size

variable {size : Nat}

theorem getElem?_cell {buf : List α} {k b : Nat} (hb : b < size) :
    (cell size buf k)[b]? = buf[k * size + b]? := by
  rw [cell, List.getElem?_take_of_lt hb, List.getElem?_drop]

theorem length_cell {buf : List α} {k : Nat} (h : (k + 1) * size ≤ buf.length) :
    (cell size buf k).length = size := by
  rw [Nat.succ_mul] at h
  simp only [cell, List.length_take, List.length_drop]
  omega

/-- A row and a column have one number. -/
theorem index_inj {n k j k' j' : Nat} (hj : j < n) (hj' : j' < n)
    (h : k * n + j = k' * n + j') : k = k' ∧ j = j' := by
  have hrow {k j : Nat} (hj : j < n) : (k * n + j) / n = k := by
    rw [Nat.mul_comm, Nat.mul_add_div (Nat.zero_lt_of_lt hj), Nat.div_eq_of_lt hj, Nat.add_zero]
  have hk : k = k' := by rw [← hrow (k := k) hj, h, hrow hj']
  subst hk
  exact ⟨rfl, Nat.add_left_cancel h⟩

/-- Two cells are equal that are equal at every position. -/
theorem cell_congr {buf buf' : List α} {k k' : Nat}
    (h : ∀ b < size, buf[k * size + b]? = buf'[k' * size + b]?) :
    cell size buf k = cell size buf' k' := by
  refine List.ext_getElem? fun b => ?_
  by_cases hb : b < size
  · rw [getElem?_cell hb, getElem?_cell hb, h b hb]
  · simp [cell, List.getElem?_take_eq_none (Nat.le_of_not_lt hb)]

/-- A cell of a large cell. -/
theorem cell_cell {buf : List α} {n k j : Nat} (hj : j < n) :
    cell size (cell (n * size) buf k) j = cell size buf (k * n + j) := by
  refine cell_congr fun b hb => ?_
  have hlt : j * size + b < n * size := by
    have hle : (j + 1) * size ≤ n * size := Nat.mul_le_mul_right size hj
    rw [Nat.succ_mul] at hle
    omega
  rw [getElem?_cell hlt, Nat.add_mul, Nat.mul_assoc, Nat.add_assoc]

theorem cell_append_left {buf buf' : List α} {n k : Nat} (hlen : buf.length = n * size)
    (hk : k < n) : cell size (buf ++ buf') k = cell size buf k := by
  have hle : (k + 1) * size ≤ n * size := Nat.mul_le_mul_right size hk
  rw [Nat.succ_mul] at hle
  exact cell_congr fun b hb => List.getElem?_append_left (by omega)

theorem cell_append_right {buf buf' : List α} {n k : Nat} (hlen : buf.length = n * size) :
    cell size (buf ++ buf') (n + k) = cell size buf' k := by
  refine cell_congr fun b _ => ?_
  rw [List.getElem?_append_right (by rw [hlen, Nat.add_mul]; omega)]
  congr 1
  rw [hlen, Nat.add_mul]
  omega

/-! ## Copies -/

/-- Cell `src` of the source goes to cell `dst`. -/
structure Copy where
  dst : Nat
  src : Nat
  deriving DecidableEq, Repr

/-- The copy writes position `i`. -/
def Copy.Covers (size : Nat) (c : Copy) (i : Nat) : Prop :=
  c.dst * size ≤ i ∧ i < c.dst * size + size

instance (c : Copy) (i : Nat) : Decidable (c.Covers size i) :=
  inferInstanceAs (Decidable (_ ∧ _))

theorem Copy.covers_cell {c : Copy} {k b : Nat} (hb : b < size) :
    c.Covers size (k * size + b) ↔ c.dst = k := by
  have hdiv : (k * size + b) / size = k := by
    rw [Nat.mul_comm, Nat.mul_add_div (by omega), Nat.div_eq_of_lt hb, Nat.add_zero]
  constructor
  · intro h
    have hsucc : k * size + b < (c.dst + 1) * size := by
      rw [Nat.succ_mul]
      exact h.2
    have hlow := (Nat.le_div_iff_mul_le (by omega)).mpr h.1
    have hhigh := (Nat.div_lt_iff_lt_mul (by omega)).mpr hsucc
    omega
  · rintro rfl
    exact ⟨by omega, by omega⟩

section Buffers

variable (default : α) (size : Nat) (source : List α)

def copyCell (target : List α) (c : Copy) : List α :=
  target.mapIdx fun i b =>
    if c.dst * size ≤ i ∧ i < c.dst * size + size then
      source.getD (c.src * size + (i - c.dst * size)) default
    else b

/-- The copies, one after the other. -/
def scatter (copies : List Copy) (target : List α) : List α :=
  copies.foldl (copyCell default size source) target

@[simp] theorem length_copyCell (target : List α) (c : Copy) :
    (copyCell default size source target c).length = target.length := by
  simp [copyCell]

@[simp] theorem length_scatter (copies : List Copy) (target : List α) :
    (scatter default size source copies target).length = target.length := by
  induction copies generalizing target with
  | nil => rfl
  | cons c copies ih => exact (ih _).trans (length_copyCell default size source target c)

theorem scatter_concat (copies : List Copy) (c : Copy) (target : List α) :
    scatter default size source (copies ++ [c]) target
      = copyCell default size source (scatter default size source copies target) c := by
  simp [scatter]

variable {default size source}

/-- A copy fills its cell and leaves the others. -/
theorem cell_copyCell {target : List α} {c : Copy} {k : Nat}
    (htarget : (k + 1) * size ≤ target.length) (hsource : (c.src + 1) * size ≤ source.length) :
    cell size (copyCell default size source target c) k
      = if c.dst = k then cell size source c.src else cell size target k := by
  rw [Nat.succ_mul] at htarget hsource
  have hpos {b : Nat} (hb : b < size) : (copyCell default size source target c)[k * size + b]?
      = if c.dst = k then source[c.src * size + b]? else target[k * size + b]? := by
    have hcovers := Copy.covers_cell (c := c) (k := k) hb
    have hlt : k * size + b < target.length := by omega
    have hlt' : c.src * size + b < source.length := by omega
    unfold Copy.Covers at hcovers
    rw [copyCell, List.getElem?_mapIdx, List.getElem?_eq_getElem hlt, Option.map_some]
    by_cases hdst : c.dst = k
    · rw [if_pos (hcovers.mpr hdst), if_pos hdst, hdst, Nat.add_sub_cancel_left,
        List.getD_eq_getElem _ _ hlt', List.getElem?_eq_getElem hlt']
    · rw [if_neg (mt hcovers.mp hdst), if_neg hdst]
  split
  · rename_i hdst
    exact cell_congr fun b hb => (hpos hb).trans (if_pos hdst)
  · rename_i hdst
    exact cell_congr fun b hb => (hpos hb).trans (if_neg hdst)

/-- A cell that some copy fills, and all of them from cell `k'`. -/
theorem cell_scatter {copies : List Copy} {target : List α} {k k' : Nat}
    (htarget : (k + 1) * size ≤ target.length)
    (hsource : ∀ c ∈ copies, (c.src + 1) * size ≤ source.length)
    (hmem : ⟨k, k'⟩ ∈ copies) (hunique : ∀ c ∈ copies, c.dst = k → c.src = k') :
    cell size (scatter default size source copies target) k = cell size source k' := by
  -- the last copy decides, so the list is taken apart from the end
  induction copies using List.reverseRecOn with
  | nil => cases hmem
  | append_singleton copies c ih =>
    rw [scatter_concat, cell_copyCell (by simpa using htarget) (hsource c (by simp))]
    by_cases hdst : c.dst = k
    · rw [if_pos hdst, hunique c (by simp) hdst]
    · rw [if_neg hdst]
      refine ih (fun c hc => hsource c (by simp [hc])) ?_ fun c hc => hunique c (by simp [hc])
      rcases List.mem_append.mp hmem with hmem | hmem
      · exact hmem
      · obtain rfl := List.mem_singleton.mp hmem
        exact absurd rfl hdst

end Buffers

/-- Destinations that are the cells of the buffer in some order write every
position once. -/
theorem writes_eq_one {copies : List Copy} {n : Nat}
    (hperm : (copies.map Copy.dst).Perm (List.range n)) {i : Nat} (hi : i < n * size) :
    copies.countP (fun c => c.Covers size i) = 1 := by
  have hsize : 0 < size := Nat.pos_of_mul_pos_left (Nat.zero_lt_of_lt hi)
  have hcell : i / size < n := (Nat.div_lt_iff_lt_mul hsize).mpr hi
  have hcovers (c : Copy) : c.Covers size i ↔ c.dst = i / size := by
    have hsplit : i / size * size + i % size = i := Nat.div_add_mod' i size
    have h := Copy.covers_cell (c := c) (k := i / size) (Nat.mod_lt i hsize)
    rwa [hsplit] at h
  calc copies.countP (fun c => c.Covers size i)
      = (copies.map Copy.dst).count (i / size) := by
        rw [List.count, List.countP_map]
        exact List.countP_congr fun c _ => by simp [hcovers]
    _ = (List.range n).count (i / size) := hperm.count_eq _
    _ = 1 := List.count_eq_one_of_mem List.nodup_range (List.mem_range.mpr hcell)

/-! ## Gathering -/

/-- The cells with these numbers, one behind the other. -/
def gather (size : Nat) (buf : List α) (indices : List Nat) : List α :=
  indices.flatMap (cell size buf)

theorem length_gather {buf : List α} {indices : List Nat}
    (h : ∀ k ∈ indices, (k + 1) * size ≤ buf.length) :
    (gather size buf indices).length = indices.length * size := by
  induction indices with
  | nil => simp [gather]
  | cons k indices ih =>
    have hrest := ih fun k' hk' => h k' (List.mem_cons_of_mem k hk')
    rw [gather] at hrest ⊢
    rw [List.flatMap_cons, List.length_append, hrest, length_cell (h k List.mem_cons_self),
      List.length_cons, Nat.succ_mul, Nat.add_comm]

theorem cell_gather {buf : List α} {indices : List Nat}
    (h : ∀ k ∈ indices, (k + 1) * size ≤ buf.length) {r : Nat} (hr : r < indices.length) :
    cell size (gather size buf indices) r = cell size buf indices[r] := by
  induction indices generalizing r with
  | nil => cases hr
  | cons k indices ih =>
    have hhead : (cell size buf k).length = 1 * size := by
      rw [length_cell (h k List.mem_cons_self), Nat.one_mul]
    have hrest : gather size buf (k :: indices) = cell size buf k ++ gather size buf indices := rfl
    rw [hrest]
    cases r with
    | zero =>
      rw [cell_append_left hhead Nat.one_pos, List.getElem_cons_zero]
      simp [cell, List.take_take]
    | succ r =>
      have hnext : cell size (cell size buf k ++ gather size buf indices) (r + 1)
          = cell size (gather size buf indices) r := by
        rw [Nat.add_comm, cell_append_right hhead]
      rw [hnext, List.getElem_cons_succ]
      exact ih (fun k' hk' => h k' (List.mem_cons_of_mem k hk')) (Nat.lt_of_succ_lt_succ hr)

end Scatter
