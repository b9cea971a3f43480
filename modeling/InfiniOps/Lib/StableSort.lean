/-
InfiniOps.Lib.StableSort — which elements a stable sort puts first.

An element stands before another one of the list if it is less or, of two
that compare equal, if it came before. `rank` counts the elements before a
given one, and the first `n` of the sorted list are those of rank below `n`
(`mem_take_mergeSort_iff`): a selection of least elements is described
without sorting anything.
-/
import Mathlib.Data.List.Perm.Basic
import Mathlib.Data.List.Range

namespace StableSort

variable {α : Type}

/-- `q` stands before `p`, of elements with their positions. -/
def before (le : α → α → Bool) (q p : α × Nat) : Bool :=
  le q.1 p.1 && (!le p.1 q.1 || q.2 < p.2)

/-- The number of elements of `l` before `p`. -/
def rank (le : α → α → Bool) (l : List α) (p : α × Nat) : Nat :=
  l.zipIdx.countP fun q => before le q p

/-! ## A strictly sorted list -/

/-- The first `n` elements are those with fewer than `n` below them. -/
theorem mem_take_iff {lt : α → α → Bool} (asymm : ∀ x y, lt x y = true → lt y x = false)
    {s : List α} (hs : s.Pairwise fun x y => lt x y = true) (n : Nat) (y : α) :
    y ∈ s.take n ↔ y ∈ s ∧ s.countP (fun z => lt z y) < n := by
  have irrefl : ∀ x, lt x x = false := fun x => by
    by_contra h
    exact h (asymm x x (by simpa using h))
  induction hs generalizing n with
  | nil => simp
  | @cons a s ha _ ih =>
    cases n with
    | zero => simp
    | succ n =>
      have hih : y ∈ s.take n ↔ y ∈ s ∧ s.countP (fun z => lt z y) < n := ih n
      rw [List.take_succ_cons, List.mem_cons, List.mem_cons, hih, List.countP_cons]
      by_cases heq : y = a
      · -- nothing is below the head
        subst heq
        have hzero : s.countP (fun z => lt z y) = 0 := by
          refine List.countP_eq_zero.mpr fun z hz => ?_
          simp [asymm y z (ha z hz)]
        simp [hzero, irrefl]
      · by_cases hmem : y ∈ s
        · simp [heq, hmem, ha y hmem]
        · simp [heq, hmem]

/-! ## The sort -/

section Stable

variable {le : α → α → Bool}

theorem before_asymm (q p : α × Nat) (h : before le q p = true) : before le p q = false := by
  simp only [before, Bool.and_eq_true, Bool.or_eq_true, Bool.not_eq_true', decide_eq_true_eq] at h
  simp only [before, Bool.and_eq_false_iff, Bool.or_eq_false_iff, Bool.not_eq_false',
    decide_eq_false_iff_not]
  obtain ⟨hle, hfalse | hlt⟩ := h
  · exact .inl hfalse
  · exact .inr ⟨hle, by omega⟩

/-- Of two different positions, the order that the sort keeps is strict. -/
theorem before_of_zipIdxLE {q p : α × Nat} (h : List.zipIdxLE le q p = true) (hne : q.2 ≠ p.2) :
    before le q p = true := by
  rw [List.zipIdxLE] at h
  split at h
  · rename_i hle
    split at h
    · have hlt : q.2 ≤ p.2 := by simpa using h
      simp [before, hle]
      omega
    · rename_i hfalse
      simp [before, hle, hfalse]
  · cases h

theorem mem_take_mergeSort_iff_of_forall (trans : ∀ a b c, le a b = true → le b c = true → le a c = true)
    (total : ∀ a b, (le a b || le b a) = true) (l : List α) (n : Nat) (x : α) :
    x ∈ (l.mergeSort le).take n ↔ ∃ i, (x, i) ∈ l.zipIdx ∧ rank le l (x, i) < n := by
  have hperm := List.mergeSort_perm l.zipIdx (List.zipIdxLE le)
  have hsorted := List.pairwise_mergeSort (List.zipIdxLE_trans trans) (List.zipIdxLE_total total)
    l.zipIdx
  have hindices : ((l.zipIdx.mergeSort (List.zipIdxLE le)).map Prod.snd).Nodup := by
    rw [(hperm.map Prod.snd).nodup_iff, List.zipIdx_map_snd]
    exact List.nodup_range'
  have hstrict : (l.zipIdx.mergeSort (List.zipIdxLE le)).Pairwise
      fun q p => before le q p = true := by
    refine (hsorted.and (List.pairwise_map.mp hindices)).imp ?_
    rintro q p ⟨hle, hne⟩
    exact before_of_zipIdxLE hle hne
  rw [← List.mergeSort_zipIdx, ← List.map_take, List.mem_map]
  simp only [mem_take_iff before_asymm hstrict, hperm.countP_eq, hperm.mem_iff, rank]
  constructor
  · rintro ⟨⟨y, i⟩, hp, rfl⟩
    exact ⟨i, hp⟩
  · rintro ⟨i, hp⟩
    exact ⟨(x, i), hp, rfl⟩

/-- The order need only be one on the elements of the list. -/
theorem mem_take_mergeSort_iff {l : List α}
    (trans : ∀ a ∈ l, ∀ b ∈ l, ∀ c ∈ l, le a b = true → le b c = true → le a c = true)
    (total : ∀ a ∈ l, ∀ b ∈ l, (le a b || le b a) = true) (n : Nat) (x : α) :
    x ∈ (l.mergeSort le).take n ↔ ∃ i, (x, i) ∈ l.zipIdx ∧ rank le l (x, i) < n := by
  let le' : { a // a ∈ l } → { a // a ∈ l } → Bool := fun a b => le a.1 b.1
  have hsort : (l.attach.mergeSort le').map Subtype.val = l.mergeSort le := by
    have hmap := List.map_mergeSort (r := le') (s := le) (f := Subtype.val) (l := l.attach)
      fun a _ b _ => rfl
    rwa [List.attach_map_subtype_val] at hmap
  have hzip : l.attach.zipIdx.map (Prod.map Subtype.val id) = l.zipIdx := by
    rw [← List.zipIdx_map, List.attach_map_subtype_val]
  have hrank : ∀ p, rank le' l.attach p = rank le l (p.1.1, p.2) := by
    intro p
    rw [rank, rank, ← hzip, List.countP_map]
    rfl
  have hiff : ∀ a, a ∈ (l.attach.mergeSort le').take n ↔
      ∃ i, (a, i) ∈ l.attach.zipIdx ∧ rank le' l.attach (a, i) < n :=
    mem_take_mergeSort_iff_of_forall (fun a b c => trans a.1 a.2 b.1 b.2 c.1 c.2)
      (fun a b => total a.1 a.2 b.1 b.2) l.attach n
  rw [← hsort, ← List.map_take, List.mem_map]
  simp only [hiff, hrank]
  constructor
  · rintro ⟨a, ⟨i, hi, hlt⟩, rfl⟩
    refine ⟨i, ?_, hlt⟩
    rw [← hzip]
    exact List.mem_map_of_mem hi
  · rintro ⟨i, hi, hlt⟩
    rw [← hzip] at hi
    obtain ⟨⟨a, j⟩, ha, heq⟩ := List.mem_map.mp hi
    cases heq
    exact ⟨a, ⟨j, ha, hlt⟩, rfl⟩

end Stable

end StableSort
