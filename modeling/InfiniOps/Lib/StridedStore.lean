/-
InfiniOps.Lib.StridedStore — loops that read, update and write back one
memory cell per iteration.

`storeAll addr upd mem visits` runs over a list of iterations in order;
iteration `v` replaces the contents of cell `addr v` by `upd v` of what it
held. Nothing is assumed of `addr`: two iterations may hit one cell, and
then the second sees what the first wrote.

* `storeAll_at_of_nodup`: if the cells are pairwise distinct, every cell
  visited holds its own update of the initial contents.
* `foldl_update_eq_storeAll`: loops whose iterations also read cells that
  none of them writes are of this kind.
* `foldl_rows`: the same for iterations that write a row of cells each.
* `storeAll_const`: if all updates are one function, a cell holds as many
  iterates of it as it is visited.

`foldlM_eq_some` and `isSome_of_foldlM_eq_some` are for loops that stop at
a value they cannot compute.

`triples` lists the iterations of three nested counting loops and
`foldl_triples` turns the nest into one fold over it.
-/
import Mathlib.Logic.Function.Basic
import Mathlib.Logic.Function.Iterate
import Mathlib.Data.List.Count
import Mathlib.Data.List.Induction
import Mathlib.Data.List.Nodup
import Mathlib.Data.List.Perm.Subperm
import Mathlib.Algebra.BigOperators.Group.List.Basic

namespace StridedStore

section Store

variable {ι κ ν : Type} [DecidableEq κ] (addr : ι → κ) (upd : ι → ν → ν)

/-- One read-modify-write per iteration. -/
def storeAll (mem : κ → ν) (visits : List ι) : κ → ν :=
  visits.foldl (fun mem v => Function.update mem (addr v) (upd v (mem (addr v)))) mem

theorem storeAll_cons (mem : κ → ν) (v : ι) (visits : List ι) :
    storeAll addr upd mem (v :: visits)
      = storeAll addr upd (Function.update mem (addr v) (upd v (mem (addr v)))) visits := rfl

/-- A cell that no iteration addresses keeps its contents. -/
theorem storeAll_of_notMem (mem : κ → ν) {visits : List ι} {x : κ}
    (h : x ∉ visits.map addr) : storeAll addr upd mem visits x = mem x := by
  induction visits generalizing mem with
  | nil => rfl
  | cons v visits ih =>
    rw [List.map_cons, List.mem_cons, not_or] at h
    rw [storeAll_cons, ih _ h.2, Function.update_of_ne h.1]

theorem storeAll_at_of_nodup (mem : κ → ν) {visits : List ι} (h : (visits.map addr).Nodup)
    {v : ι} (hv : v ∈ visits) :
    storeAll addr upd mem visits (addr v) = upd v (mem (addr v)) := by
  induction visits generalizing mem with
  | nil => cases hv
  | cons w visits ih =>
    rw [List.map_cons, List.nodup_cons] at h
    obtain ⟨hw, hnodup⟩ := h
    rw [storeAll_cons]
    rcases List.mem_cons.mp hv with rfl | hv
    · rw [storeAll_of_notMem addr upd _ hw, Function.update_self]
    · have hne : addr v ≠ addr w := by
        intro heq
        exact hw (heq ▸ List.mem_map_of_mem hv)
      rw [ih _ hnodup hv, Function.update_of_ne hne]

/-- A loop may read other cells as well: where no iteration writes what
another one reads, each of them sees the initial contents. -/
theorem foldl_update_eq_storeAll (Written : κ → Prop) (val : ι → (κ → ν) → ν) (mem : κ → ν)
    {visits : List ι} (haddr : ∀ v ∈ visits, Written (addr v))
    (hval : ∀ v ∈ visits, ∀ m : κ → ν, (∀ x, ¬ Written x → m x = mem x) → val v m = val v mem) :
    visits.foldl (fun m v => Function.update m (addr v) (val v m)) mem
      = storeAll addr (fun v _ => val v mem) mem visits := by
  suffices hfrom : ∀ m : κ → ν, (∀ x, ¬ Written x → m x = mem x) →
      visits.foldl (fun m v => Function.update m (addr v) (val v m)) m
        = storeAll addr (fun v _ => val v mem) m visits from hfrom mem fun _ _ => rfl
  induction visits with
  | nil =>
    intro m _
    rfl
  | cons v visits ih =>
    intro m hm
    have hstep : ∀ x, ¬ Written x → Function.update m (addr v) (val v mem) x = mem x := by
      intro x hx
      have hne : x ≠ addr v := fun heq => hx (heq ▸ haddr v List.mem_cons_self)
      rw [Function.update_of_ne hne, hm x hx]
    rw [List.foldl_cons, storeAll_cons, hval v List.mem_cons_self m hm]
    exact ih (fun w hw => haddr w (List.mem_cons_of_mem v hw))
      (fun w hw => hval w (List.mem_cons_of_mem v hw)) _ hstep

theorem storeAll_const (f : ν → ν) (mem : κ → ν) (visits : List ι) (x : κ) :
    storeAll addr (fun _ => f) mem visits x = f^[(visits.map addr).count x] (mem x) := by
  induction visits generalizing mem with
  | nil => rfl
  | cons v visits ih =>
    rw [storeAll_cons, ih, List.map_cons]
    by_cases hx : addr v = x
    · subst hx
      rw [List.count_cons_self, Function.update_self, Function.iterate_succ_apply]
    · rw [List.count_cons_of_ne hx, Function.update_of_ne (Ne.symm hx)]

/-- A cell that has changed holds what one of its visits stored. -/
theorem exists_of_storeAll_ne (val : ι → ν) {mem : κ → ν} {visits : List ι} {x : κ}
    (h : storeAll addr (fun v _ => val v) mem visits x ≠ mem x) :
    ∃ v ∈ visits, addr v = x ∧ storeAll addr (fun v _ => val v) mem visits x = val v := by
  induction visits generalizing mem with
  | nil => exact absurd rfl h
  | cons v visits ih =>
    rw [storeAll_cons] at h ⊢
    by_cases hkept : storeAll addr (fun v _ => val v) (Function.update mem (addr v) (val v)) visits x
        = Function.update mem (addr v) (val v) x
    · -- nothing after `v` changed the cell
      rw [hkept] at h ⊢
      have hx : x = addr v := by
        by_contra hne
        exact h (Function.update_of_ne hne _ _)
      subst hx
      exact ⟨v, List.mem_cons_self, rfl, Function.update_self _ _ _⟩
    · obtain ⟨w, hw, haddr, hval⟩ := ih hkept
      exact ⟨w, List.mem_cons_of_mem v hw, haddr, hval⟩

end Store

section Rows

variable {ι κ ν : Type}

/-- Iterations that each write a row of cells of their own: in any order,
a row holds what its iteration writes. -/
theorem foldl_rows (step : (κ → ν) → ι → (κ → ν)) (cell : ι → Nat → κ) (val : ι → Nat → ν) (n : Nat)
    {visits : List ι} (hval : ∀ m, ∀ v ∈ visits, ∀ j < n, step m v (cell v j) = val v j)
    (hframe : ∀ m, ∀ v ∈ visits, ∀ x, (∀ j < n, x ≠ cell v j) → step m v x = m x)
    (hown : ∀ v ∈ visits, ∀ w ∈ visits, ∀ j < n, ∀ j' < n, cell v j = cell w j' → v = w)
    (mem : κ → ν) {v : ι} (hv : v ∈ visits) {j : Nat} (hj : j < n) :
    visits.foldl step mem (cell v j) = val v j := by
  -- From the end: the last iteration is at `v`, or does not touch its row.
  induction visits using List.reverseRecOn with
  | nil => cases hv
  | append_singleton visits w ih =>
    have hmem : ∀ u ∈ visits, u ∈ visits ++ [w] := fun u hu => List.mem_append_left _ hu
    have hw : w ∈ visits ++ [w] := List.mem_append_right _ List.mem_cons_self
    rw [List.foldl_append, List.foldl_cons, List.foldl_nil]
    by_cases hrow : ∀ j' < n, cell v j ≠ cell w j'
    · rw [hframe _ w hw _ hrow]
      have hne : v ≠ w := by
        rintro rfl
        exact hrow j hj rfl
      have hv' : v ∈ visits := (List.mem_append.mp hv).resolve_right (by simpa using hne)
      exact ih (fun m u hu => hval m u (hmem u hu)) (fun m u hu => hframe m u (hmem u hu))
        (fun u hu t ht => hown u (hmem u hu) t (hmem t ht)) hv'
    · push Not at hrow
      obtain ⟨j', hj', heq⟩ := hrow
      obtain rfl := hown v hv w hw j hj j' hj' heq
      exact hval _ v hw j hj

/-- A cell of no row keeps its contents. -/
theorem foldl_rows_frame {step : (κ → ν) → ι → (κ → ν)} {visits : List ι} {x : κ}
    (hframe : ∀ m, ∀ v ∈ visits, step m v x = m x) (mem : κ → ν) :
    visits.foldl step mem x = mem x := by
  induction visits generalizing mem with
  | nil => rfl
  | cons v visits ih =>
    rw [List.foldl_cons, ih fun m w hw => hframe m w (List.mem_cons_of_mem v hw)]
    exact hframe mem v List.mem_cons_self

end Rows

/-! ## Loops that may fail -/

section Fallible

variable {ι σ ν : Type} (val : ι → Option ν) (upd : σ → ι → ν → σ)

/-- A loop none of whose iterations fails. -/
theorem foldlM_eq_foldl {step : σ → ι → Option σ} (next : σ → ι → σ) {visits : List ι}
    (h : ∀ v ∈ visits, ∀ s, step s v = some (next s v)) (s : σ) :
    visits.foldlM step s = some (visits.foldl next s) := by
  induction visits generalizing s with
  | nil => rfl
  | cons v visits ih =>
    rw [List.foldlM_cons, h v List.mem_cons_self, List.foldl_cons]
    exact ih (fun w hw => h w (List.mem_cons_of_mem v hw)) _

/-- A loop whose iterations compute a value first, and fail with it. -/
theorem foldlM_eq_some (vals : ι → ν) {visits : List ι} (h : ∀ v ∈ visits, val v = some (vals v))
    (s : σ) : visits.foldlM (fun s v => (val v).map (upd s v)) s
      = some (visits.foldl (fun s v => upd s v (vals v)) s) := by
  refine foldlM_eq_foldl _ (fun v hv s => ?_) s
  rw [h v hv, Option.map_some]

/-- A loop that ends went through every iteration. -/
theorem exists_of_foldlM_eq_some {step : σ → ι → Option σ} {visits : List ι} {s s' : σ}
    (h : visits.foldlM step s = some s') : ∀ v ∈ visits, ∃ s₁, (step s₁ v).isSome := by
  induction visits generalizing s with
  | nil =>
    intro v hv
    cases hv
  | cons w visits ih =>
    rw [List.foldlM_cons] at h
    obtain ⟨next, hnext, hrest⟩ := Option.bind_eq_some_iff.mp h
    intro v hv
    rcases List.mem_cons.mp hv with rfl | hv
    · exact ⟨s, by simp [hnext]⟩
    · exact ih hrest v hv

theorem isSome_of_foldlM_eq_some {visits : List ι} {s s' : σ}
    (h : visits.foldlM (fun s v => (val v).map (upd s v)) s = some s') :
    ∀ v ∈ visits, (val v).isSome := by
  induction visits generalizing s with
  | nil =>
    intro v hv
    cases hv
  | cons w visits ih =>
    rw [List.foldlM_cons] at h
    cases hval : val w with
    | none =>
      rw [hval] at h
      cases h
    | some x =>
      rw [hval] at h
      intro v hv
      rcases List.mem_cons.mp hv with rfl | hv
      · rw [hval]
        rfl
      · exact ih h v hv

end Fallible

/-! ## Three nested counting loops -/

/-- The iterations of three nested loops, in order. -/
def triples (l m n : Nat) : List (Nat × Nat × Nat) :=
  (List.range l).flatMap fun p => (List.range m).flatMap fun i =>
    (List.range n).map fun j => (p, i, j)

theorem mem_triples {l m n p i j : Nat} :
    (p, i, j) ∈ triples l m n ↔ p < l ∧ i < m ∧ j < n := by
  simp only [triples, List.mem_flatMap, List.mem_range, List.mem_map, Prod.mk.injEq]
  constructor
  · rintro ⟨p', hp, i', hi, j', hj, rfl, rfl, rfl⟩
    exact ⟨hp, hi, hj⟩
  · rintro ⟨hp, hi, hj⟩
    exact ⟨p, hp, i, hi, j, hj, rfl, rfl, rfl⟩

theorem length_triples (l m n : Nat) : (triples l m n).length = l * (m * n) := by
  simp [triples, List.length_flatMap]

theorem triples_eq_nil {l m n : Nat} (h : l * (m * n) = 0) : triples l m n = [] :=
  List.eq_nil_of_length_eq_zero ((length_triples l m n).trans h)

theorem foldl_triples {β : Type} (f : β → Nat → Nat → Nat → β) (b : β) (l m n : Nat) :
    (List.range l).foldl (fun b p => (List.range m).foldl
        (fun b i => (List.range n).foldl (fun b j => f b p i j) b) b) b
      = (triples l m n).foldl (fun b v => f b v.1 v.2.1 v.2.2) b := by
  simp only [triples, List.foldl_flatMap, List.foldl_map]

theorem nodup_triples (l m n : Nat) : (triples l m n).Nodup := by
  refine List.nodup_flatMap.mpr ⟨?_, ?_⟩
  · intro p _
    refine List.nodup_flatMap.mpr ⟨?_, ?_⟩
    · intro i _
      refine (List.nodup_range).map_on ?_
      intro j _ j' _ h
      simpa using h
    · refine List.nodup_range.imp ?_
      intro i i' hne
      simp only [Function.onFun, List.disjoint_left, List.mem_map]
      rintro _ ⟨j, _, rfl⟩ ⟨j', _, h⟩
      exact hne (Prod.mk.inj (Prod.mk.inj h).2).1.symm
  · refine List.nodup_range.imp ?_
    intro p p' hne
    simp only [Function.onFun, List.disjoint_left, List.mem_flatMap, List.mem_map]
    rintro _ ⟨i, _, j, _, rfl⟩ ⟨i', _, j', _, h⟩
    exact hne (Prod.mk.inj h).1.symm

end StridedStore
