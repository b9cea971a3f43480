/-
InfiniOps.Lib.ShellScript — sequential shell scripts as functions on the
state of a shell.

A shell has variables, its `errexit` option and a world that commands act
on. A command ends with a status, at a `break` or a `continue`, or leaves
the shell; under `errexit` a status other than 0 leaves it too (`command`).
Scripts are put together by `block`, `ifThen` and `forEach`; a loop ends
with its list, at a `break`, or when the shell is left. `forEach_rule` is
the rule for loops: an invariant over the values that remain.
-/
import Mathlib.Logic.Function.Basic

/-- The state of a shell. A variable that is not set is empty. -/
structure Shell (σ : Type) where
  vars : String → String
  errexit : Bool := false
  world : σ

namespace Shell

variable {σ : Type}

def set (sh : Shell σ) (x v : String) : Shell σ := { sh with vars := Function.update sh.vars x v }

@[simp] theorem set_vars_self (sh : Shell σ) (x v : String) : (sh.set x v).vars x = v :=
  Function.update_self ..

@[simp] theorem set_vars_of_ne (sh : Shell σ) {x y : String} (v : String) (h : y ≠ x) :
    (sh.set x v).vars y = sh.vars y := Function.update_of_ne h ..

@[simp] theorem set_errexit (sh : Shell σ) (x v : String) : (sh.set x v).errexit = sh.errexit := rfl

@[simp] theorem set_world (sh : Shell σ) (x v : String) : (sh.set x v).world = sh.world := rfl

/-- How a command, or a part of a script, ends. -/
inductive Flow where
  | next (status : Nat)
  | brk
  | cont
  | exit (status : Nat)
  deriving DecidableEq

end Shell

open Shell

abbrev Script (σ : Type) := Shell σ → Flow × Shell σ

namespace Script

variable {σ : Type}

/-- Nothing, with a status. -/
def skip : Script σ := fun sh => (.next 0, sh)

def brk : Script σ := fun sh => (.brk, sh)

def exit (status : Shell σ → Nat) : Script σ := fun sh => (.exit (status sh), sh)

def assign (x : String) (value : Shell σ → String) : Script σ := fun sh =>
  (.next 0, sh.set x (value sh))

/-- `set -e` and `set +e`. -/
def setErrexit (b : Bool) : Script σ := fun sh => (.next 0, { sh with errexit := b })

/-- The effect of `errexit` on a status. -/
def checked (sh : Shell σ) (n : Nat) : Flow × Shell σ :=
  if sh.errexit ∧ n ≠ 0 then (.exit n, sh) else (.next n, sh)

def command (f : Shell σ → Flow × Shell σ) : Script σ := fun sh =>
  match f sh with
  | (.next n, sh') => checked sh' n
  | (flow, sh') => (flow, sh')

/-- Outside of a loop, `break` and `continue` do nothing. -/
def outsideLoop (s : Script σ) : Script σ := fun sh =>
  match s sh with
  | (.brk, sh') => (.next 0, sh')
  | (.cont, sh') => (.next 0, sh')
  | (flow, sh') => (flow, sh')

/-- `s || true`: the status of an external command does not matter. -/
def ignored (f : Shell σ → Nat × σ) : Script σ := fun sh =>
  (.next 0, { sh with world := (f sh).2 })

/-- One after the other. The second is given the status of the first. -/
def andThen (s : Script σ) (f : Nat → Script σ) : Script σ := fun sh =>
  match s sh with
  | (.next n, sh') => f n sh'
  | (flow, sh') => (flow, sh')

def block : List (Script σ) → Script σ
  | [] => skip
  | s :: ss => s.andThen fun _ => block ss

def ifThen (p : Shell σ → Bool) (s t : Script σ) : Script σ := fun sh => if p sh then s sh else t sh

/-- `for x in vs`. -/
def forEach (x : String) : List String → Script σ → Script σ
  | [], _ => skip
  | v :: vs, body => fun sh =>
    match body (sh.set x v) with
    | (.next _, sh') => forEach x vs body sh'
    | (.cont, sh') => forEach x vs body sh'
    | (.brk, sh') => (.next 0, sh')
    | (.exit n, sh') => (.exit n, sh')

/-- `for x in $(…)`. -/
def forEachIn (x : String) (vs : Shell σ → List String) (body : Script σ) : Script σ := fun sh =>
  forEach x (vs sh) body sh

/-- The exit code, and what is left. -/
def run (s : Script σ) (sh : Shell σ) : Nat × Shell σ :=
  match s sh with
  | (.next n, sh') => (n, sh')
  | (.brk, sh') => (0, sh')
  | (.cont, sh') => (0, sh')
  | (.exit n, sh') => (n, sh')

/-! ## Rules -/

theorem andThen_of_next {s : Script σ} {f : Nat → Script σ} {sh sh' : Shell σ} {n : Nat}
    (h : s sh = (.next n, sh')) : s.andThen f sh = f n sh' := by rw [andThen, h]

theorem andThen_of_exit {s : Script σ} {f : Nat → Script σ} {sh sh' : Shell σ} {n : Nat}
    (h : s sh = (.exit n, sh')) : s.andThen f sh = (.exit n, sh') := by rw [andThen, h]

theorem block_cons_of_next {s : Script σ} {ss : List (Script σ)} {sh sh' : Shell σ} {n : Nat}
    (h : s sh = (.next n, sh')) : block (s :: ss) sh = block ss sh' := andThen_of_next h

theorem block_cons_of_exit {s : Script σ} {ss : List (Script σ)} {sh sh' : Shell σ} {n : Nat}
    (h : s sh = (.exit n, sh')) : block (s :: ss) sh = (.exit n, sh') := andThen_of_exit h

@[simp] theorem block_assign (x : String) (value : Shell σ → String) (ss : List (Script σ))
    (sh : Shell σ) : block (assign x value :: ss) sh = block ss (sh.set x (value sh)) := rfl

theorem block_assign_of {x v : String} {value : Shell σ → String} {ss : List (Script σ)}
    {sh : Shell σ} (h : value sh = v) : block (assign x value :: ss) sh = block ss (sh.set x v) := by
  rw [block_assign, h]

/-- The last part of a block. -/
theorem block_singleton (s : Script σ) (sh : Shell σ) :
    block [s] sh = s.andThen (fun _ => skip) sh := rfl

@[simp] theorem block_setErrexit (b : Bool) (ss : List (Script σ)) (sh : Shell σ) :
    block (setErrexit b :: ss) sh = block ss { sh with errexit := b } := rfl

@[simp] theorem block_exit (status : Shell σ → Nat) (ss : List (Script σ)) (sh : Shell σ) :
    block (exit status :: ss) sh = (.exit (status sh), sh) := rfl

/-- A block whose parts are done elsewhere. -/
theorem block_append (ss ts : List (Script σ)) (sh : Shell σ) :
    block (ss ++ ts) sh = (block ss).andThen (fun _ => block ts) sh := by
  induction ss generalizing sh with
  | nil => rfl
  | cons s ss ih =>
    rw [List.cons_append, block, block, andThen, andThen, andThen]
    cases s sh with
    | mk flow sh' =>
      cases flow with
      | next n => exact ih sh'
      | brk => rfl
      | cont => rfl
      | exit n => rfl

theorem next_of_andThen {s : Script σ} {f : Nat → Script σ} {sh sh' : Shell σ} {n : Nat}
    (h : s.andThen f sh = (.next n, sh')) :
    ∃ m sh₁, s sh = (.next m, sh₁) ∧ f m sh₁ = (.next n, sh') := by
  rw [andThen] at h
  cases hs : s sh with
  | mk flow sh₁ =>
    rw [hs] at h
    cases flow with
    | next m => exact ⟨m, sh₁, rfl, h⟩
    | brk => cases h
    | cont => cases h
    | exit m => cases h

theorem checked_snd (sh : Shell σ) (n : Nat) : (checked sh n).2 = sh := by
  rw [checked]
  split <;> rfl

/-- What a command leaves behind is what it does itself. -/
theorem command_snd (f : Shell σ → Flow × Shell σ) (sh : Shell σ) :
    (command f sh).2 = (f sh).2 := by
  rw [command]
  split
  · rename_i n sh' hf
    rw [checked_snd, hf]
  · rename_i hf
    rw [hf]

theorem command_of_next {f : Shell σ → Flow × Shell σ} {sh sh' : Shell σ} {n : Nat}
    (h : command f sh = (.next n, sh')) : sh' = (f sh).2 := by
  rw [← command_snd, h]

theorem outsideLoop_snd (s : Script σ) (sh : Shell σ) : (outsideLoop s sh).2 = (s sh).2 := by
  rw [outsideLoop]
  split <;> rename_i hs <;> rw [hs]

/-- What every part of a block leaves alone is left alone by the block. -/
theorem block_keeps {β : Type*} (f : Shell σ → β) {ss : List (Script σ)}
    (hss : ∀ s ∈ ss, ∀ {sh sh' : Shell σ} {n : Nat}, s sh = (.next n, sh') → f sh' = f sh)
    {sh sh' : Shell σ} {n : Nat} (h : block ss sh = (.next n, sh')) : f sh' = f sh := by
  induction ss generalizing sh with
  | nil =>
    cases h
    rfl
  | cons s ss ih =>
    obtain ⟨m, sh₁, hs, hrest⟩ := next_of_andThen h
    rw [ih (fun s hs => hss s (List.mem_cons_of_mem _ hs)) hrest, hss s List.mem_cons_self hs]

theorem forEach_cons (x v : String) (vs : List String) (body : Script σ) (sh : Shell σ) :
    forEach x (v :: vs) body sh = match body (sh.set x v) with
      | (.next _, sh') => forEach x vs body sh'
      | (.cont, sh') => forEach x vs body sh'
      | (.brk, sh') => (.next 0, sh')
      | (.exit n, sh') => (.exit n, sh') := rfl

/-- An invariant over the values that remain holds until the loop ends. -/
theorem forEach_rule {x : String} {body : Script σ} {I : List String → Shell σ → Prop}
    {Q : Flow × Shell σ → Prop} (hnil : ∀ sh, I [] sh → Q (.next 0, sh))
    (hcons : ∀ v vs sh, I (v :: vs) sh →
      (∃ n sh', body (sh.set x v) = (.next n, sh') ∧ I vs sh') ∨
      (∃ sh', body (sh.set x v) = (.cont, sh') ∧ I vs sh') ∨
      (∃ sh', body (sh.set x v) = (.brk, sh') ∧ Q (.next 0, sh')) ∨
      ∃ n sh', body (sh.set x v) = (.exit n, sh') ∧ Q (.exit n, sh'))
    (vs : List String) (sh : Shell σ) (h : I vs sh) : Q (forEach x vs body sh) := by
  induction vs generalizing sh with
  | nil => exact hnil sh h
  | cons v vs ih =>
    rw [forEach_cons]
    rcases hcons v vs sh h with ⟨n, sh', hbody, hrest⟩ | ⟨sh', hbody, hrest⟩ | ⟨sh', hbody, hpost⟩ |
      ⟨n, sh', hbody, hpost⟩
    · rw [hbody]
      exact ih sh' hrest
    · rw [hbody]
      exact ih sh' hrest
    · rw [hbody]
      exact hpost
    · rw [hbody]
      exact hpost

end Script
