/-
InfiniOps.Lib.PrefixShare — the share that the first entries of a list of
positive weights have of its first `n`, and the fewest entries that have a
share of at least `p`.

`IsCutoff` is that number, as a least element: it is unique, it is all of
the `n` entries for `p = 1`, and it grows with `p` and with `n`
(`IsCutoff.mono`). Growing with `n` holds for the share and not for the
weight: more entries make every share smaller.
-/
import Mathlib.Algebra.BigOperators.Group.List.Basic
import Mathlib.Algebra.Order.Field.Basic
import Mathlib.Order.Bounds.Basic
import Mathlib.Tactic.Linarith

namespace PrefixShare

variable {K : Type*} [Field K] [LinearOrder K] [IsStrictOrderedRing K]

/-- The weight of the first `m` entries. -/
def prefixSum (ws : List K) (m : Nat) : K := (ws.take m).sum

/-- The share of the first `m` entries in the first `n`. -/
def share (ws : List K) (n m : Nat) : K := prefixSum ws m / prefixSum ws n

/-- The fewest of the first `n` entries that have a share of `p`. -/
def IsCutoff (ws : List K) (n : Nat) (p : K) (m : Nat) : Prop :=
  IsLeast {m | m ≤ n ∧ p ≤ share ws n m} m

omit [LinearOrder K] [IsStrictOrderedRing K] in
@[simp] theorem prefixSum_zero (ws : List K) : prefixSum ws 0 = 0 := by
  simp [prefixSum]

omit [LinearOrder K] [IsStrictOrderedRing K] in
@[simp] theorem share_zero (ws : List K) (n : Nat) : share ws n 0 = 0 := by
  simp [share]

omit [LinearOrder K] [IsStrictOrderedRing K] in
theorem prefixSum_take {ws : List K} {n m : Nat} (h : m ≤ n) :
    prefixSum (ws.take n) m = prefixSum ws m := by
  rw [prefixSum, List.take_take, Nat.min_eq_left h, prefixSum]

section Positive

variable {ws : List K} (hpos : ∀ w ∈ ws, 0 < w)
include hpos

theorem prefixSum_lt_succ {m : Nat} (hm : m < ws.length) : prefixSum ws m < prefixSum ws (m + 1) := by
  have hw : 0 < ws[m] := hpos _ (List.getElem_mem hm)
  rw [prefixSum, prefixSum, List.take_succ_eq_append_getElem hm, List.sum_append]
  simpa using hw

theorem prefixSum_lt {m n : Nat} (hmn : m < n) (hn : n ≤ ws.length) :
    prefixSum ws m < prefixSum ws n := by
  induction n, hmn using Nat.le_induction with
  | base => exact prefixSum_lt_succ hpos hn
  | succ n _ ih => exact (ih (by omega)).trans (prefixSum_lt_succ hpos hn)

theorem prefixSum_le {m n : Nat} (hmn : m ≤ n) (hn : n ≤ ws.length) :
    prefixSum ws m ≤ prefixSum ws n := by
  rcases Nat.eq_or_lt_of_le hmn with rfl | hlt
  · exact le_rfl
  · exact (prefixSum_lt hpos hlt hn).le

theorem prefixSum_pos {n : Nat} (h : 0 < n) (hn : n ≤ ws.length) : 0 < prefixSum ws n := by
  simpa using prefixSum_lt hpos h hn

theorem share_self {n : Nat} (h : 0 < n) (hn : n ≤ ws.length) : share ws n n = 1 :=
  div_self (prefixSum_pos hpos h hn).ne'

theorem share_lt_one {m n : Nat} (hmn : m < n) (hn : n ≤ ws.length) : share ws n m < 1 :=
  (div_lt_one (prefixSum_pos hpos (Nat.zero_lt_of_lt hmn) hn)).mpr (prefixSum_lt hpos hmn hn)

/-- More entries make every share smaller. -/
theorem share_anti {m n n' : Nat} (h : 0 < n) (hnn : n ≤ n') (hn : n' ≤ ws.length)
    (hm : m ≤ ws.length) : share ws n' m ≤ share ws n m := by
  have hweight : 0 ≤ prefixSum ws m := by simpa using prefixSum_le hpos (Nat.zero_le m) hm
  exact div_le_div_of_nonneg_left hweight (prefixSum_pos hpos h (hnn.trans hn))
    (prefixSum_le hpos hnn hn)

theorem isCutoff_one {n : Nat} (h : 0 < n) (hn : n ≤ ws.length) : IsCutoff ws n 1 n := by
  refine ⟨⟨le_rfl, (share_self hpos h hn).ge⟩, ?_⟩
  intro m hm
  by_contra hlt
  exact (share_lt_one hpos (Nat.lt_of_not_le hlt) hn).not_ge hm.2

theorem IsCutoff.mono {n n' m m' : Nat} {p p' : K} (hm : IsCutoff ws n p m)
    (hm' : IsCutoff ws n' p' m') (h : 0 < n) (hnn : n ≤ n') (hn : n' ≤ ws.length) (hpp : p ≤ p') :
    m ≤ m' := by
  rcases Nat.le_total n m' with hle | hle
  · exact hm.1.1.trans hle
  · have hshare : p ≤ share ws n m' :=
      hpp.trans (hm'.1.2.trans (share_anti hpos h hnn hn (hle.trans (hnn.trans hn))))
    exact hm.2 ⟨hle, hshare⟩

end Positive

omit [IsStrictOrderedRing K] in
theorem IsCutoff.pos {ws : List K} {n m : Nat} {p : K} (h : IsCutoff ws n p m) (hp : 0 < p) :
    0 < m := by
  refine Nat.pos_of_ne_zero fun hzero => ?_
  have hshare := h.1.2
  rw [hzero, share_zero] at hshare
  exact hp.not_ge hshare

omit [IsStrictOrderedRing K] in
/-- The entries after the first `n` do not matter. -/
theorem isCutoff_take {ws : List K} {n m : Nat} {p : K} :
    IsCutoff (ws.take n) n p m ↔ IsCutoff ws n p m := by
  have hset : {m | m ≤ n ∧ p ≤ share (ws.take n) n m} = {m | m ≤ n ∧ p ≤ share ws n m} := by
    ext m
    refine and_congr_right fun hm => ?_
    rw [share, share, prefixSum_take hm, prefixSum_take le_rfl]
  rw [IsCutoff, IsCutoff, hset]

end PrefixShare
