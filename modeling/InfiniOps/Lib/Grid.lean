/-
InfiniOps.Lib.Grid — blocks of threads on one memory, their reads and
writes in any order.

A thread is a program of reads, writes and meetings; at a meeting it waits
for all threads of its block, with a value, and gets one back. A cell that
does not exist stops the thread that needs it.

* `Block.Ends`: whatever else happens outside of its cells, a block ends
  within a number of steps, is never stuck before, writes its own cells
  only and leaves a memory as wanted.
* `Block.Ends.phase`: to show it up to the next meeting, run each thread
  alone (`Solo`), if no thread needs what another one writes.
* `Grid.run_ends`: blocks none of which needs what another one writes end,
  in every run of the grid.
-/
import InfiniOps.Lib.StridedStore
import InfiniOps.Lib.Transition
import Mathlib.Algebra.BigOperators.Group.Finset.Piecewise
import Mathlib.Algebra.Order.BigOperators.Group.Finset
import Mathlib.Algebra.Order.Ring.Nat
import Mathlib.Data.Fintype.Basic
import Mathlib.Data.Set.Basic

namespace Grid

/-- What a thread still has to do. -/
inductive Prog (κ ν ω : Type) where
  | stop
  | read (cell : κ) (rest : ν → Prog κ ν ω)
  | write (cell : κ) (value : ν) (rest : Prog κ ν ω)
  | meet (op : ω) (value : ν) (rest : ν → Prog κ ν ω)

/-- The contents of the cells that exist. -/
abbrev Mem (κ ν : Type) := κ → Option ν

section

variable {κ ν ω β τ : Type} [DecidableEq κ] [DecidableEq τ]

/-! ## A thread alone -/

/-- The thread runs to its next meeting or its end, in `n` steps, with what
it reads in `R` and what it writes in `W`. -/
inductive Solo (R W : Set κ) : Mem κ ν → Prog κ ν ω → Nat → Mem κ ν → Prog κ ν ω → Prop where
  | stop (mem : Mem κ ν) : Solo R W mem .stop 0 mem .stop
  | meet (mem : Mem κ ν) (op : ω) (value : ν) (rest : ν → Prog κ ν ω) :
      Solo R W mem (.meet op value rest) 0 mem (.meet op value rest)
  | read {mem mem' : Mem κ ν} {cell : κ} {value : ν} {rest : ν → Prog κ ν ω} {n : Nat}
      {q : Prog κ ν ω} (hcell : cell ∈ R) (hvalue : mem cell = some value)
      (hrest : Solo R W mem (rest value) n mem' q) : Solo R W mem (.read cell rest) (n + 1) mem' q
  | write {mem mem' : Mem κ ν} {cell : κ} {value : ν} {rest : Prog κ ν ω} {n : Nat}
      {q : Prog κ ν ω} (hcell : cell ∈ W) (hexists : (mem cell).isSome)
      (hrest : Solo R W (Function.update mem cell (some value)) rest n mem' q) :
      Solo R W mem (.write cell value rest) (n + 1) mem' q

variable {R W : Set κ} {mem mem' : Mem κ ν} {p q : Prog κ ν ω} {n : Nat}

/-- A thread depends on what it reads and writes. -/
theorem Solo.congr (h : Solo R W mem p n mem' q) {mem₁ : Mem κ ν}
    (hagree : ∀ a, a ∈ R ∨ a ∈ W → mem a = mem₁ a) :
    ∃ mem₁', Solo R W mem₁ p n mem₁' q ∧ ∀ a, a ∈ R ∨ a ∈ W → mem' a = mem₁' a := by
  induction h generalizing mem₁ with
  | stop => exact ⟨mem₁, .stop mem₁, hagree⟩
  | meet => exact ⟨mem₁, .meet mem₁ _ _ _, hagree⟩
  | read hcell hvalue _ ih =>
    obtain ⟨mem₁', hrest, hagree'⟩ := ih hagree
    exact ⟨mem₁', .read hcell ((hagree _ (.inl hcell)).symm.trans hvalue) hrest, hagree'⟩
  | @write mem _ cell value _ _ _ hcell hexists _ ih =>
    have hupdate : ∀ a, a ∈ R ∨ a ∈ W → Function.update mem cell (some value) a
        = Function.update mem₁ cell (some value) a := by
      intro a ha
      by_cases heq : a = cell
      · rw [heq, Function.update_self, Function.update_self]
      · rw [Function.update_of_ne heq, Function.update_of_ne heq, hagree a ha]
    obtain ⟨mem₁', hrest, hagree'⟩ := ih hupdate
    exact ⟨mem₁', .write hcell (hagree _ (.inr hcell) ▸ hexists) hrest, hagree'⟩

theorem Solo.eq_of_zero (h : Solo R W mem p 0 mem' q) : p = q ∧ mem = mem' := by
  cases h with
  | stop => exact ⟨rfl, rfl⟩
  | meet => exact ⟨rfl, rfl⟩

/-! ## Loops of a thread -/

section Loops

variable {ι σ : Type}

/-- A loop that folds over one cell per iteration. -/
def Prog.fold (cell : ι → κ) (f : σ → ν → σ) : List ι → σ → (σ → Prog κ ν ω) → Prog κ ν ω
  | [], acc, rest => rest acc
  | i :: is, acc, rest => .read (cell i) fun value => fold cell f is (f acc value) rest

/-- A loop without a value. -/
def Prog.forEach (body : ι → Prog κ ν ω → Prog κ ν ω) (is : List ι) (rest : Prog κ ν ω) :
    Prog κ ν ω :=
  is.foldr body rest

theorem Solo.fold {cell : ι → κ} {f : σ → ν → σ} {x : ι → ν} {is : List ι} {acc : σ}
    {rest : σ → Prog κ ν ω} (hcell : ∀ i ∈ is, cell i ∈ R ∧ mem (cell i) = some (x i))
    (hrest : Solo R W mem (rest (is.foldl (fun acc i => f acc (x i)) acc)) n mem' q) :
    Solo R W mem (.fold cell f is acc rest) (n + is.length) mem' q := by
  induction is generalizing acc with
  | nil => exact hrest
  | cons i is ih =>
    obtain ⟨hmem, hvalue⟩ := hcell i List.mem_cons_self
    exact .read hmem hvalue (ih (fun j hj => hcell j (List.mem_cons_of_mem i hj)) hrest)

/-- A loop whose iterations write one cell each, and none that another one
needs. -/
theorem Solo.forEach {body : ι → Prog κ ν ω → Prog κ ν ω} {cell : ι → κ} {value : ι → ν}
    {is : List ι} {steps : ι → Nat} {rest : Prog κ ν ω}
    (hbody : ∀ i ∈ is, ∀ mem₁ : Mem κ ν, (∀ a, (∀ j ∈ is, j ≠ i → a ≠ cell j) → mem a = mem₁ a) →
      ∀ {rest : Prog κ ν ω} {n : Nat} {mem' : Mem κ ν} {q : Prog κ ν ω},
        Solo R W (Function.update mem₁ (cell i) (some (value i))) rest n mem' q →
        Solo R W mem₁ (body i rest) (n + steps i) mem' q)
    (hnodup : is.Nodup)
    (hrest : Solo R W (StridedStore.storeAll cell (fun i _ => some (value i)) mem is) rest n
      mem' q) : Solo R W mem (.forEach body is rest) (n + (is.map steps).sum) mem' q := by
  -- The iterations that are left find what the earlier ones wrote, and `mem` elsewhere.
  suffices hfrom : ∀ todo : List ι, todo ⊆ is → todo.Nodup → ∀ mem₁ : Mem κ ν,
      (∀ a, (∀ j ∈ is, j ∉ todo → a ≠ cell j) → mem a = mem₁ a) →
      Solo R W (StridedStore.storeAll cell (fun i _ => some (value i)) mem₁ todo) rest n mem' q →
      Solo R W mem₁ (.forEach body todo rest) (n + (todo.map steps).sum) mem' q from
    hfrom is (List.Subset.refl is) hnodup mem (fun _ _ => rfl) hrest
  intro todo
  induction todo with
  | nil => exact fun _ _ _ _ hrest => hrest
  | cons i todo ih =>
    intro hsub hnodup mem₁ hagree hrest
    obtain ⟨hi, hnodup⟩ := List.nodup_cons.mp hnodup
    have hthen := ih (fun j hj => hsub (List.mem_cons_of_mem i hj)) hnodup
      (Function.update mem₁ (cell i) (some (value i))) (fun a ha => ?_) hrest
    · have hself := hbody i (hsub List.mem_cons_self) mem₁
        (fun a ha => hagree a fun j hj hout =>
          ha j hj fun heq => hout (heq ▸ List.mem_cons_self)) hthen
      rw [List.map_cons, List.sum_cons, Nat.add_comm (steps i), ← Nat.add_assoc]
      exact hself
    · have hne := ha i (hsub List.mem_cons_self) hi
      rw [Function.update_of_ne hne]
      exact hagree a fun j hj hout => ha j hj fun hmem => hout (List.mem_cons_of_mem i hmem)

end Loops

/-! ## A block -/

/-- What a meeting may give to each thread, of the values they bring. -/
abbrev Meeting (τ ν ω : Type) := ω → (τ → ν) → τ → ν → Prop

variable (M : Meeting τ ν ω)

/-- One step of a block. -/
inductive Block.Step : (τ → Prog κ ν ω) → Mem κ ν → (τ → Prog κ ν ω) → Mem κ ν → Prop where
  | read {p : τ → Prog κ ν ω} {mem : Mem κ ν} {t : τ} {cell : κ} {value : ν}
      {rest : ν → Prog κ ν ω} (hprog : p t = .read cell rest) (hvalue : mem cell = some value) :
      Step p mem (Function.update p t (rest value)) mem
  | write {p : τ → Prog κ ν ω} {mem : Mem κ ν} {t : τ} {cell : κ} {value : ν}
      {rest : Prog κ ν ω} (hprog : p t = .write cell value rest) (hexists : (mem cell).isSome) :
      Step p mem (Function.update p t rest) (Function.update mem cell (some value))
  | meet {p : τ → Prog κ ν ω} {mem : Mem κ ν} {op : ω} {value result : τ → ν}
      {rest : τ → ν → Prog κ ν ω} (hprog : ∀ t, p t = .meet op (value t) (rest t))
      (hresult : ∀ t, M op value t (result t)) : Step p mem (fun t => rest t (result t)) mem

/-- Every thread has stopped. -/
def Block.Done (p : τ → Prog κ ν ω) : Prop := ∀ t, p t = .stop

/-- Within `n` steps the block ends with `Q`, without getting stuck, by
writes to cells of `W` only, as long as the cells of `F` are left alone. -/
def Block.Ends (F W : Set κ) (Q : Mem κ ν → Prop) : Nat → (τ → Prog κ ν ω) → Mem κ ν → Prop
  | 0, p, mem => Done p ∧ ∀ mem₁, (∀ a ∈ F, mem a = mem₁ a) → Q mem₁
  | n + 1, p, mem => ∀ mem₁, (∀ a ∈ F, mem a = mem₁ a) →
      (Done p → Q mem₁) ∧ (¬ Done p → ∃ p' mem', Step M p mem₁ p' mem') ∧
      ∀ p' mem', Step M p mem₁ p' mem' →
        (∀ a, a ∉ W → mem' a = mem₁ a) ∧ Ends F W Q n p' mem'

namespace Block

variable {M} {F : Set κ} {Q : Mem κ ν → Prop} {p q : τ → Prog κ ν ω}

theorem Ends.congr (h : Ends M F W Q n p mem) (hagree : ∀ a ∈ F, mem a = mem' a) :
    Ends M F W Q n p mem' := by
  cases n with
  | zero => exact ⟨h.1, fun mem₁ hmem => h.2 mem₁ fun a ha => (hagree a ha).trans (hmem a ha)⟩
  | succ n => exact fun mem₁ hmem => h mem₁ fun a ha => (hagree a ha).trans (hmem a ha)

omit [DecidableEq κ] [DecidableEq τ] in
theorem not_done [Nonempty τ] {op : ω} {value : τ → ν} {rest : τ → ν → Prog κ ν ω}
    (hp : ∀ t, p t = .meet op (value t) (rest t)) : ¬ Done p := by
  intro hdone
  have hstop := hdone (Classical.arbitrary τ)
  rw [hp] at hstop
  cases hstop

/-- A meeting. -/
theorem Ends.meet [Nonempty τ] {op : ω} {value : τ → ν} {rest : τ → ν → Prog κ ν ω}
    (hp : ∀ t, p t = .meet op (value t) (rest t)) (hsome : ∀ t, ∃ x, M op value t x)
    (hrest : ∀ result : τ → ν, (∀ t, M op value t (result t)) →
      Ends M F W Q n (fun t => rest t (result t)) mem) : Ends M F W Q (n + 1) p mem := by
  intro mem₁ hagree
  refine ⟨fun hdone => absurd hdone (not_done hp), fun _ => ?_, fun p' mem' hstep => ?_⟩
  · choose result hresult using hsome
    exact ⟨_, _, .meet hp hresult⟩
  · cases hstep with
    | read hprog =>
      rw [hp] at hprog
      cases hprog
    | write hprog =>
      rw [hp] at hprog
      cases hprog
    | @meet op' value' result rest' hprog hresult =>
      have hsame : ∀ t, op' = op ∧ value' t = value t ∧ rest' t = rest t := by
        intro t
        have heq := (hprog t).symm.trans (hp t)
        injection heq with hop hvalue hrest
        exact ⟨hop, hvalue, hrest⟩
      obtain rfl := (hsame (Classical.arbitrary τ)).1
      obtain rfl : value' = value := funext fun t => (hsame t).2.1
      obtain rfl : rest' = rest := funext fun t => (hsame t).2.2
      exact ⟨fun _ _ => rfl, (hrest result hresult).congr hagree⟩

/-- The end. -/
theorem Ends.stop (hp : Done p) (hQ : ∀ mem₁, (∀ a ∈ F, mem a = mem₁ a) → Q mem₁) :
    Ends M F W Q 0 p mem := ⟨hp, hQ⟩

/-! ## Up to the next meeting -/

/-- No thread needs what another one writes. -/
def RaceFree (R W : τ → Set κ) : Prop :=
  ∀ t t', t ≠ t' → ∀ a ∈ W t, a ∉ R t' ∧ a ∉ W t'

section Phase

variable [Fintype τ] {R W : τ → Set κ} {V : Set κ} {count : τ → Nat} {own : τ → Mem κ ν}

/-- After a step of one thread, every thread alone ends as before. -/
theorem solo_update (hfree : RaceFree R W) (t : τ) {rest : Prog κ ν ω} {k : Nat}
    (hcount : count t = k + 1) {mem₁ mem₂ : Mem κ ν}
    (hsolo : ∀ t', Solo (R t') (W t') mem₁ (p t') (count t') (own t') (q t'))
    (hmem : ∀ a, a ∉ W t → mem₁ a = mem₂ a) (hrest : Solo (R t) (W t) mem₂ rest k (own t) (q t)) :
    ∃ own' : τ → Mem κ ν,
      (∀ t', Solo (R t') (W t') mem₂ (Function.update p t rest t') (Function.update count t k t')
        (own' t') (q t')) ∧
      (∀ t', ∀ a ∈ W t', own t' a = own' t' a) ∧
      ∑ t', count t' = ∑ t', Function.update count t k t' + 1 := by
  have hother : ∀ t', t' ≠ t → ∃ own', Solo (R t') (W t') mem₂ (p t') (count t') own' (q t') ∧
      ∀ a, a ∈ R t' ∨ a ∈ W t' → own t' a = own' a := by
    intro t' hne
    refine (hsolo t').congr fun a ha => hmem a fun hw => ?_
    obtain ⟨hr, hw'⟩ := hfree t t' (Ne.symm hne) a hw
    exact ha.elim hr hw'
  refine ⟨fun t' => if h : t' = t then own t else (hother t' h).choose, fun t' => ?_,
    fun t' a ha => ?_, ?_⟩
  · by_cases h : t' = t
    · subst h
      rw [Function.update_self, Function.update_self]
      simpa using hrest
    · rw [Function.update_of_ne h, Function.update_of_ne h]
      simpa [h] using (hother t' h).choose_spec.1
  · by_cases h : t' = t
    · subst h
      simp
    · simpa [h] using (hother t' h).choose_spec.2 a (.inr ha)
  · rw [Finset.sum_update_of_mem (Finset.mem_univ t), Finset.sdiff_singleton_eq_erase,
      ← Finset.add_sum_erase _ count (Finset.mem_univ t), hcount]
    omega

/-- Threads that run without a race up to their next meeting, each as it
would alone. -/
theorem Ends.phase [Nonempty τ] (hfree : RaceFree R W)
    (hinside : ∀ t a, a ∈ R t ∨ a ∈ W t → a ∈ F) (hwrites : ∀ t, ∀ a ∈ W t, a ∈ V)
    (hsolo : ∀ t, Solo (R t) (W t) mem (p t) (count t) (own t) (q t))
    (hown : ∀ t, ∀ a ∈ W t, own t a = mem' a)
    (hrest : ∀ a ∈ F, (∀ t, a ∉ W t) → mem a = mem' a) (hends : Ends M F V Q n q mem') :
    Ends M F V Q ((∑ t, count t) + n) p mem := by
  -- By induction on the steps that the threads have left.
  generalize hsteps : ∑ t, count t = steps
  induction steps generalizing p mem count own with
  | zero =>
    have hzero : ∀ t, count t = 0 := fun t =>
      Finset.sum_eq_zero_iff.mp hsteps t (Finset.mem_univ t)
    have hstay : ∀ t, p t = q t ∧ mem = own t := fun t => by
      have h := hsolo t
      rw [hzero t] at h
      exact h.eq_of_zero
    obtain rfl : p = q := funext fun t => (hstay t).1
    rw [Nat.zero_add]
    refine hends.congr fun a ha => ?_
    by_cases hw : ∃ t, a ∈ W t
    · obtain ⟨t, ht⟩ := hw
      rw [(hstay t).2, hown t a ht]
    · exact (hrest a ha fun t ht => hw ⟨t, ht⟩).symm
  | succ steps ih =>
    rw [Nat.succ_add]
    intro mem₁ hagree
    -- The same threads in the memory that they find.
    have hsolo₁ : ∀ t, ∃ own₁, Solo (R t) (W t) mem₁ (p t) (count t) own₁ (q t) ∧
        ∀ a, a ∈ R t ∨ a ∈ W t → own t a = own₁ a := fun t =>
      (hsolo t).congr fun a ha => hagree a (hinside t a ha)
    choose own₁ hrun hsame using hsolo₁
    have hown₁ : ∀ t, ∀ a ∈ W t, own₁ t a = mem' a := fun t a ha =>
      (hsame t a (.inr ha)).symm.trans (hown t a ha)
    obtain ⟨t, -, ht⟩ := Finset.exists_ne_zero_of_sum_ne_zero (hsteps.trans_ne (Nat.succ_ne_zero _))
    obtain ⟨k, hk⟩ := Nat.exists_eq_succ_of_ne_zero ht
    have hmoves : ∃ p' mem', Step M p mem₁ p' mem' := by
      have h := hrun t
      rw [hk] at h
      generalize hpt : p t = pt at h
      cases h with
      | read _ hvalue _ => exact ⟨_, _, .read hpt hvalue⟩
      | write _ hexists _ => exact ⟨_, _, .write hpt hexists⟩
    have hwaits : ∀ {op : ω} {value : ν} {rest : ν → Prog κ ν ω}, p t ≠ .meet op value rest := by
      intro op value rest heq
      have h := hrun t
      rw [hk, heq] at h
      cases h
    refine ⟨fun hdone => ?_, fun _ => hmoves, fun p' mem₂ hstep => ?_⟩
    · have h := hrun t
      rw [hk, hdone t] at h
      cases h
    · cases hstep with
      | @read t' cell value rest hprog hvalue =>
        have h := hrun t'
        rw [hprog] at h
        generalize hcount : count t' = c at h
        cases h with
        | @read _ _ _ value' _ k' _ _ hvalue' hrest' =>
          obtain rfl := Option.some.inj (hvalue.symm.trans hvalue')
          obtain ⟨own₂, hsolo₂, hsame₂, hsum⟩ :=
            solo_update hfree t' hcount hrun (fun _ _ => rfl) hrest'
          refine ⟨fun _ _ => rfl, ih hsolo₂ (fun u a ha => ?_) (fun a ha hout => ?_) (by omega)⟩
          · rw [← hsame₂ u a ha, hown₁ u a ha]
          · rw [← hagree a ha, hrest a ha hout]
      | @write t' cell value rest hprog hexists =>
        have h := hrun t'
        rw [hprog] at h
        generalize hcount : count t' = c at h
        cases h with
        | @write _ _ _ _ _ k' _ hcell _ hrest' =>
          have hmem : ∀ a, a ∉ W t' → mem₁ a = Function.update mem₁ cell (some value) a := by
            intro a ha
            have hne : a ≠ cell := by
              rintro rfl
              exact ha hcell
            rw [Function.update_of_ne hne]
          obtain ⟨own₂, hsolo₂, hsame₂, hsum⟩ := solo_update hfree t' hcount hrun hmem hrest'
          refine ⟨fun a ha => ?_, ih hsolo₂ (fun u a ha => ?_) (fun a ha hout => ?_) (by omega)⟩
          · exact (hmem a fun hw => ha (hwrites t' a hw)).symm
          · rw [← hsame₂ u a ha, hown₁ u a ha]
          · rw [← hmem a (hout t'), ← hagree a ha, hrest a ha hout]
      | meet hprog _ => exact absurd (hprog t) hwaits

end Phase

variable (M) in
theorem Done.no_step [Nonempty τ] (h : Done p)
    {p' : τ → Prog κ ν ω} : ¬ Step M p mem p' mem' := by
  intro hstep
  cases hstep with
  | @read t _ _ _ hprog _ =>
    rw [h t] at hprog
    cases hprog
  | @write t _ _ _ hprog _ =>
    rw [h t] at hprog
    cases hprog
  | meet hprog _ => exact not_done hprog h

end Block

/-! ## A grid -/

/-- The threads of all blocks, and the memory. -/
structure State (β τ κ ν ω : Type) where
  prog : β → τ → Prog κ ν ω
  mem : Mem κ ν

variable [DecidableEq β]

/-- A step of one of the blocks. -/
inductive Step : State β τ κ ν ω → β → State β τ κ ν ω → Prop where
  | block {s : State β τ κ ν ω} {b : β} {p' : τ → Prog κ ν ω} {mem' : Mem κ ν}
      (h : Block.Step M (s.prog b) s.mem p' mem') :
      Step s b ⟨Function.update s.prog b p', mem'⟩

/-- The runs from a state. -/
def runs (s₀ : State β τ κ ν ω) : Lts (State β τ κ ν ω) β where
  init s := s = s₀
  step := Step M

/-- Every thread of every block has stopped. -/
def Done (s : State β τ κ ν ω) : Prop := ∀ b, Block.Done (s.prog b)

variable {M} {F W : β → Set κ} {Q : β → Mem κ ν → Prop} {count : β → Nat} {s s' : State β τ κ ν ω}

section Run

variable [Fintype β] [Nonempty τ]

/-- One step leaves every block a way to its end. -/
theorem step_ends (hfree : ∀ b b', b ≠ b' → ∀ a ∈ W b, a ∉ F b')
    (h : ∀ b, Block.Ends M (F b) (W b) (Q b) (count b) (s.prog b) s.mem) {b : β}
    (hstep : Step M s b s') :
    ∃ count' : β → Nat, (∀ b, Block.Ends M (F b) (W b) (Q b) (count' b) (s'.prog b) s'.mem) ∧
      1 + ∑ b, count' b = ∑ b, count b ∧ ∀ a, a ∉ W b → s'.mem a = s.mem a := by
  obtain ⟨hblock⟩ := hstep
  have hb := h b
  generalize hcount : count b = k at hb
  cases k with
  | zero => exact absurd hblock (Block.Done.no_step M hb.1)
  | succ k =>
    obtain ⟨-, -, hnext⟩ := hb s.mem fun _ _ => rfl
    obtain ⟨hframe, hends⟩ := hnext _ _ hblock
    refine ⟨Function.update count b k, fun b' => ?_, ?_, hframe⟩
    · by_cases heq : b' = b
      · subst heq
        simpa using hends
      · rw [Function.update_of_ne heq]
        simp only [Function.update_of_ne heq]
        exact (h b').congr fun a ha => (hframe a fun hw => hfree b b' (Ne.symm heq) a hw ha).symm
    · rw [Finset.sum_update_of_mem (Finset.mem_univ b), Finset.sdiff_singleton_eq_erase,
        ← Finset.add_sum_erase _ count (Finset.mem_univ b), hcount]
      omega

/-- A run leaves every block a way to its end. -/
theorem run_keeps (hfree : ∀ b b', b ≠ b' → ∀ a ∈ W b, a ∉ F b') {s₀ : State β τ κ ν ω}
    {labels : List β} (hrun : (runs M s₀).Run s labels s')
    (h : ∀ b, Block.Ends M (F b) (W b) (Q b) (count b) (s.prog b) s.mem) :
    ∃ count' : β → Nat, (∀ b, Block.Ends M (F b) (W b) (Q b) (count' b) (s'.prog b) s'.mem) ∧
      labels.length + ∑ b, count' b = ∑ b, count b ∧
      ∀ a, (∀ b, a ∉ W b) → s'.mem a = s.mem a := by
  induction hrun generalizing count with
  | nil s => exact ⟨count, h, Nat.zero_add _, fun _ _ => rfl⟩
  | @cons s t u b bs hstep _ ih =>
    obtain ⟨count₁, hends₁, hsum₁, hframe₁⟩ := step_ends hfree h hstep
    obtain ⟨count₂, hends₂, hsum₂, hframe₂⟩ := ih hends₁
    refine ⟨count₂, hends₂, ?_, fun a ha => (hframe₂ a ha).trans (hframe₁ a (ha b))⟩
    rw [List.length_cons]
    omega

/-- Blocks that need nothing of one another end: no run is longer than
their steps together, it gets on until all threads have stopped, and then
the memory is as every block wants it. -/
theorem run_ends (hfree : ∀ b b', b ≠ b' → ∀ a ∈ W b, a ∉ F b')
    (h : ∀ b, Block.Ends M (F b) (W b) (Q b) (count b) (s.prog b) s.mem)
    {labels : List β} (hrun : (runs M s).Run s labels s') :
    labels.length ≤ ∑ b, count b ∧ (Done s' ∨ ∃ b s'', Step M s' b s'') ∧
      (Done s' → (∀ b, Q b s'.mem) ∧ ∀ a, (∀ b, a ∉ W b) → s'.mem a = s.mem a) := by
  obtain ⟨count', hends, hsum, hframe⟩ := run_keeps hfree hrun h
  refine ⟨by omega, ?_, fun hdone => ⟨fun b => ?_, hframe⟩⟩
  · by_cases hdone : Done s'
    · exact .inl hdone
    · obtain ⟨b, hb⟩ := not_forall.mp hdone
      have hends := hends b
      generalize count' b = k at hends
      cases k with
      | zero => exact absurd hends.1 hb
      | succ k =>
        obtain ⟨p', mem', hstep⟩ := (hends s'.mem fun _ _ => rfl).2.1 hb
        exact .inr ⟨b, _, .block hstep⟩
  · have hends := hends b
    generalize count' b = k at hends
    cases k with
    | zero => exact hends.2 s'.mem fun _ _ => rfl
    | succ k => exact (hends s'.mem fun _ _ => rfl).1 (hdone b)

end Run

end

end Grid
