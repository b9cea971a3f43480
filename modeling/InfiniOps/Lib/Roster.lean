/-
InfiniOps.Lib.Roster — the members of a list by their states, where one
member at a time changes its state.

`inState l f s` are the members of `l` whose state under `f` is `s`, in the
order of `l`. When only the state of `x` changes, the members of a third
state stay (`inState_congr`), `x` leaves the ones of its old state
(`inState_leave`) and joins those of its new state (`inState_join`). A new
member joins at the end (`inState_append`).
-/
import Mathlib.Data.List.Nodup
import Mathlib.Data.List.Perm.Basic

namespace Roster

variable {α σ : Type} [DecidableEq α] [DecidableEq σ]

/-- The members in a state. -/
def inState (l : List α) (f : α → σ) (s : σ) : List α := l.filter fun a => f a = s

variable {l : List α} {f f' : α → σ} {s : σ} {x : α}

omit [DecidableEq α] in
@[simp] theorem mem_inState {a : α} : a ∈ inState l f s ↔ a ∈ l ∧ f a = s := by simp [inState]

omit [DecidableEq α] in
theorem inState_congr (h : ∀ a ∈ l, f' a = s ↔ f a = s) : inState l f' s = inState l f s :=
  List.filter_congr fun a ha => by simp only [h a ha]

omit [DecidableEq α] in
/-- A new member, when the others keep their states. -/
theorem inState_append (hsame : ∀ a ∈ l, f' a = f a) :
    inState (l ++ [x]) f' s = inState l f s ++ if f' x = s then [x] else [] := by
  have hl : inState l f' s = inState l f s := inState_congr fun a ha => by rw [hsame a ha]
  rw [← hl, inState, List.filter_append, List.filter_singleton]
  simp [inState]

/-- `x` leaves the state. -/
theorem inState_leave (hl : l.Nodup) (hsame : ∀ a ∈ l, a ≠ x → f' a = f a) (hnew : f' x ≠ s) :
    inState l f' s = (inState l f s).erase x := by
  have herase : (inState l f s).erase x = (inState l f s).filter (· != x) :=
    (hl.filter _).erase_eq_filter x
  rw [herase, inState, inState, List.filter_filter]
  refine List.filter_congr fun a ha => ?_
  by_cases hax : a = x
  · subst hax
    simp [hnew]
  · simp [hax, hsame a ha hax]

/-- `x` comes to be in the state. -/
theorem inState_join (hl : l.Nodup) (hx : x ∈ l) (hsame : ∀ a ∈ l, a ≠ x → f' a = f a)
    (hold : f x ≠ s) (hnew : f' x = s) : (inState l f' s).Perm (x :: inState l f s) := by
  have hback := inState_leave hl (fun a ha hax => (hsame a ha hax).symm) hold
  rw [hback]
  exact List.perm_cons_erase (mem_inState.mpr ⟨hx, hnew⟩)

end Roster
