/-
InfiniOps.Lib.RowSplit — `n` rows over `k` blocks, the first few one row
longer than the rest.

`former` is the ceiling of `n / k`, `tail` is one less, and `formerNum` is
how many blocks take `former` rows so that nothing is left over. For
`0 < k ≤ n` no subtraction underflows (`tail_mul_lt`), the blocks lie one
behind the other (`offset_succ`) and end at `n` (`offset_last`).

`share` and `shareStart` are the same split by quotient and remainder, for
any `n` and `k`. `flatMap_range` turns blocks that lie one behind the other
into the whole range.
-/
import Mathlib.Data.List.Basic
import Mathlib.Order.Basic
import Mathlib.Order.MinMax

namespace RowSplit

variable (n k : Nat)

def former : Nat := (n + k - 1) / k

def tail : Nat := former n k - 1

def formerNum : Nat := n - tail n k * k

/-- The rows of block `b`. -/
def rows (b : Nat) : Nat := if b < formerNum n k then former n k else tail n k

/-- The first row of block `b`. -/
def offset (b : Nat) : Nat :=
  if b < formerNum n k then former n k * b
  else former n k * formerNum n k + tail n k * (b - formerNum n k)

variable {n k} (hk : 0 < k) (hkn : k ≤ n)
include hk hkn

theorem former_pos : 0 < former n k :=
  Nat.div_pos (by omega) hk

theorem tail_mul_lt : tail n k * k < n := by
  have hle : former n k * k ≤ n + k - 1 := Nat.div_mul_le_self _ _
  have hpos := former_pos hk hkn
  have hsplit : former n k = tail n k + 1 := by
    unfold tail
    omega
  rw [hsplit, Nat.add_mul, Nat.one_mul] at hle
  omega

theorem le_tail_mul_add : n ≤ tail n k * k + k := by
  have hlt : n + k - 1 < former n k * k + k := Nat.lt_div_mul_add hk
  have hpos := former_pos hk hkn
  have hsplit : former n k = tail n k + 1 := by
    unfold tail
    omega
  rw [hsplit, Nat.add_mul, Nat.one_mul] at hlt
  omega

theorem formerNum_le : formerNum n k ≤ k := by
  have h := le_tail_mul_add hk hkn
  unfold formerNum
  omega

omit hk hkn in
theorem offset_succ (b : Nat) : offset n k (b + 1) = offset n k b + rows n k b := by
  unfold offset rows
  by_cases hlt : b + 1 < formerNum n k
  · have hb : b < formerNum n k := by omega
    rw [if_pos hlt, if_pos hb, if_pos hb, Nat.mul_succ]
  · by_cases hb : b < formerNum n k
    · have heq : formerNum n k = b + 1 := by omega
      rw [if_neg hlt, if_pos hb, if_pos hb, heq, Nat.sub_self, Nat.mul_zero, Nat.add_zero,
        Nat.mul_succ]
    · have hsub : b + 1 - formerNum n k = (b - formerNum n k) + 1 := by omega
      rw [if_neg hlt, if_neg hb, if_neg hb, hsub, Nat.mul_succ, Nat.add_assoc]

theorem offset_last : offset n k k = n := by
  have hpos := former_pos hk hkn
  have hsplit : former n k = tail n k + 1 := by
    unfold tail
    omega
  have hle := formerNum_le hk hkn
  have hlt := tail_mul_lt hk hkn
  have hnum : tail n k * k + formerNum n k = n := by
    unfold formerNum
    omega
  unfold offset
  by_cases hb : k < formerNum n k
  · omega
  · rw [if_neg hb, hsplit, Nat.add_mul, Nat.one_mul]
    have hall : tail n k * formerNum n k + tail n k * (k - formerNum n k) = tail n k * k := by
      rw [← Nat.mul_add, Nat.add_sub_cancel' hle]
    omega

omit hk hkn in
theorem offset_mono {a b : Nat} (hab : a ≤ b) : offset n k a ≤ offset n k b := by
  induction hab with
  | refl => exact Nat.le_refl _
  | step _ ih =>
    rw [offset_succ]
    exact Nat.le_trans ih (Nat.le_add_right _ _)

/-- No block reaches beyond the last row. -/
theorem offset_add_rows_le {b : Nat} (hb : b < k) : offset n k b + rows n k b ≤ n := by
  rw [← offset_succ]
  calc offset n k (b + 1) ≤ offset n k k := offset_mono hb
    _ = n := offset_last hk hkn

theorem rows_pos {b : Nat} (hb : b < k) : 0 < rows n k b := by
  have hpos := former_pos hk hkn
  unfold rows
  by_cases hlt : b < formerNum n k
  · rwa [if_pos hlt]
  · rw [if_neg hlt]
    -- with an empty tail the first blocks take all `n ≥ k` rows
    by_cases htail : tail n k = 0
    · have hnum : formerNum n k = n := by
        simp [formerNum, htail]
      omega
    · exact Nat.pos_of_ne_zero htail

omit hk hkn in
/-- Blocks one behind the other are the whole range. -/
theorem flatMap_range {start len : Nat → Nat} (hzero : start 0 = 0)
    (hsucc : ∀ b, start (b + 1) = start b + len b) (k : Nat) :
    (List.range k).flatMap (fun b => (List.range (len b)).map (start b + ·))
      = List.range (start k) := by
  induction k with
  | zero => simp [hzero]
  | succ k ih => simp [List.range_succ, ih, hsucc, List.range_add]

/-! ## By quotient and remainder -/

variable (n k) in
/-- The rows of block `b`. -/
def share (b : Nat) : Nat := n / k + if b < n % k then 1 else 0

variable (n k) in
/-- The first row of block `b`. -/
def shareStart (b : Nat) : Nat := b * (n / k) + min b (n % k)

omit hk hkn in
theorem shareStart_zero : shareStart n k 0 = 0 := by simp [shareStart]

omit hk hkn in
theorem shareStart_succ (b : Nat) : shareStart n k (b + 1) = shareStart n k b + share n k b := by
  rw [shareStart, shareStart, share, Nat.succ_mul]
  split <;> omega

omit hkn in
theorem shareStart_last : shareStart n k k = n := by
  have hlt := Nat.mod_lt n hk
  rw [shareStart, Nat.min_eq_right hlt.le, Nat.div_add_mod]

omit hkn in
theorem shareStart_add_share_le {b : Nat} (hb : b < k) :
    shareStart n k b + share n k b ≤ n := by
  have hmono : Monotone (shareStart n k) := monotone_nat_of_le_succ fun b => by
    rw [shareStart_succ]
    exact Nat.le_add_right _ _
  calc shareStart n k b + share n k b = shareStart n k (b + 1) := (shareStart_succ b).symm
    _ ≤ shareStart n k k := hmono hb
    _ = n := shareStart_last hk

end RowSplit
