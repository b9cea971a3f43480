/-
InfiniOps.Lib.MemoTables — memo tables of many owners that are cleared
together.

Every owner has a table from keys to values. A value is made once for a
key that the table does not have, and used from then on. Keys that are
`same` share a value. The transition system `tables` clears all tables in
one step.

* `find` — the value of a key, with the lemmas on what makes no difference
  to it.
* `Rule` — what making and using a value mean for the log before it.
* `Inv.run` — every run obeys the rule.
-/
import InfiniOps.Lib.History
import InfiniOps.Lib.Transition
import Mathlib.Logic.Function.Basic

namespace MemoTables

open History

/-! ## One table -/

section Find

variable {κ : Type} (same : κ → κ → Prop) [DecidableRel same]

/-- The value of a key. -/
def find (table : List (κ × Nat)) (key : κ) : Option Nat :=
  (table.find? fun entry => same entry.1 key).map (·.2)

variable {same} {table : List (κ × Nat)} {key : κ} {value : Nat}

theorem mem_of_find (h : find same table key = some value) : ∃ k, (k, value) ∈ table := by
  obtain ⟨⟨k, v⟩, hentry, rfl⟩ := Option.map_eq_some_iff.mp h
  exact ⟨k, List.mem_of_find?_eq_some hentry⟩

theorem find_append (h : find same table key = some value) (more : List (κ × Nat)) :
    find same (table ++ more) key = some value := by
  obtain ⟨entry, hentry, rfl⟩ := Option.map_eq_some_iff.mp h
  simp [find, List.find?_append, hentry]

theorem find_concat (h : find same table key = none) (hsame : same key key) (value : Nat) :
    find same (table ++ [(key, value)]) key = some value := by
  have hnone := Option.map_eq_none_iff.mp h
  simp [find, List.find?_append, hnone, hsame]

theorem find_congr (hsame : Equivalence same) {k : κ} (h : same k key) :
    find same table k = find same table key := by
  have hiff : ∀ entry : κ × Nat, same entry.1 k ↔ same entry.1 key := fun entry =>
    ⟨fun hk => hsame.trans hk h, fun hkey => hsame.trans hkey (hsame.symm h)⟩
  simp only [find, hiff]

end Find

/-! ## Many tables -/

inductive Event (ω κ : Type) where
  | cleared
  | made (owner : ω) (key : κ) (value : Nat)
  | used (owner : ω) (key : κ) (value : Nat)
  deriving DecidableEq, Repr

structure Tables (ω κ : Type) where
  table : ω → List (κ × Nat)
  /-- Values are numbered. -/
  next : Nat

namespace Tables

variable {ω κ : Type} [DecidableEq ω] (same : κ → κ → Prop) [DecidableRel same]

def empty : Tables ω κ := ⟨fun _ => [], 0⟩

inductive Step (x : Tables ω κ) : Event ω κ → Tables ω κ → Prop where
  | clear : Step x .cleared { x with table := fun _ => [] }
  | make (owner : ω) (key : κ) (h : find same (x.table owner) key = none) :
      Step x (.made owner key x.next)
        { table := Function.update x.table owner (x.table owner ++ [(key, x.next)])
          next := x.next + 1 }
  | use (owner : ω) (key : κ) (value : Nat) (h : find same (x.table owner) key = some value) :
      Step x (.used owner key value) x

end Tables

variable {ω κ : Type} (same : κ → κ → Prop) [DecidableRel same]

def tables [DecidableEq ω] : Lts (Tables ω κ) (Event ω κ) where
  init x := x = .empty
  step := Tables.Step same

/-- A value that is used was not made before a clearing, and is the one
that was used for the same key since the last clearing. A value is made
once, and only if none was used for the same key since then. -/
def Rule (before : List (Event ω κ)) : Event ω κ → Prop
  | .cleared => True
  | .made owner key value =>
    (∀ o k, .made o k value ∉ before) ∧
      ∀ early late k v, before = early ++ .used owner k v :: late → same k key → .cleared ∈ late
  | .used owner key value =>
    (∀ early late, before = early ++ .cleared :: late → ∀ o k, .made o k value ∉ early) ∧
      ∀ early late k v, before = early ++ .used owner k v :: late → same k key →
        .cleared ∈ late ∨ v = value

structure Inv (x : Tables ω κ) (log : List (Event ω κ)) : Prop where
  fresh : ∀ owner key value, .made owner key value ∈ log → value < x.next
  recent : ∀ owner, ∀ entry ∈ x.table owner, ∀ early late, log = early ++ .cleared :: late →
    ∀ o k, .made o k entry.2 ∉ early
  kept : ∀ owner key value early late, log = early ++ .used owner key value :: late →
    .cleared ∈ late ∨ find same (x.table owner) key = some value
  obeys : Obeys (Rule same) log

variable {same} {x y : Tables ω κ} {e : Event ω κ} {log : List (Event ω κ)}

theorem inv_empty : Inv same (.empty : Tables ω κ) [] where
  fresh := by simp
  recent := by simp [Tables.empty]
  kept := by simp
  obeys := obeys_nil

theorem Inv.clear (hx : Inv same x log) :
    Inv same { x with table := fun _ => [] } (log ++ [.cleared]) where
  fresh owner key value h := by
    refine hx.fresh owner key value ?_
    simpa using h
  recent owner entry h := nomatch h
  kept owner key value early late h := by
    rcases concat_eq_split_iff.mp h with ⟨-, hne, -⟩ | ⟨late', rfl, -⟩
    · cases hne
    · exact .inl (by simp)
  obeys := obeys_concat.mpr ⟨hx.obeys, trivial⟩

theorem Inv.use (hsame : Equivalence same) (hx : Inv same x log) (owner : ω) (key : κ)
    (value : Nat) (h : find same (x.table owner) key = some value) :
    Inv same x (log ++ [.used owner key value]) where
  fresh o k v hmem := by
    refine hx.fresh o k v ?_
    simpa using hmem
  recent o entry hentry early late hlog := by
    rcases concat_eq_split_iff.mp hlog with ⟨-, hne, -⟩ | ⟨late', rfl, hbefore⟩
    · cases hne
    · exact hx.recent o entry hentry early late' hbefore
  kept o k v early late hlog := by
    rcases concat_eq_split_iff.mp hlog with ⟨rfl, heq, rfl⟩ | ⟨late', rfl, hbefore⟩
    · cases heq
      exact .inr h
    · exact (hx.kept o k v early late' hbefore).imp_left (List.mem_append_left _)
  obeys := by
    refine obeys_concat.mpr ⟨hx.obeys, fun early late hlog o k => ?_,
        fun early late k v hlog hk => ?_⟩
    · obtain ⟨key', hentry⟩ := mem_of_find h
      exact hx.recent owner _ hentry early late hlog o k
    · refine (hx.kept owner k v early late hlog).imp_right fun hfind => ?_
      rw [find_congr hsame hk, h] at hfind
      exact (Option.some.inj hfind).symm

variable [DecidableEq ω]

theorem Inv.make (hsame : Equivalence same) (hx : Inv same x log) (owner : ω) (key : κ)
    (h : find same (x.table owner) key = none) :
    Inv same
      { table := Function.update x.table owner (x.table owner ++ [(key, x.next)])
        next := x.next + 1 }
      (log ++ [.made owner key x.next]) where
  fresh o k value h := by
    rcases List.mem_append.mp h with h | h
    · exact Nat.lt_succ_of_lt (hx.fresh o k value h)
    · rw [List.mem_singleton] at h
      cases h
      exact Nat.lt_succ_self _
  recent o entry hentry early late hlog o' k' hmade := by
    rcases concat_eq_split_iff.mp hlog with ⟨-, hne, -⟩ | ⟨late', rfl, hbefore⟩
    · cases hne
    have hlt : entry.2 < x.next := by
      refine hx.fresh o' k' entry.2 ?_
      rw [hbefore]
      exact List.mem_append_left _ hmade
    have hold : entry ∈ x.table o := by
      by_cases ho : o = owner
      · subst ho
        simp only [Function.update_self, List.mem_append, List.mem_singleton] at hentry
        refine hentry.resolve_right fun heq => ?_
        rw [heq] at hlt
        exact Nat.lt_irrefl _ hlt
      · simpa only [Function.update_of_ne ho] using hentry
    exact hx.recent o entry hold early late' hbefore o' k' hmade
  kept o k value early late hlog := by
    rcases concat_eq_split_iff.mp hlog with ⟨-, hne, -⟩ | ⟨late', rfl, hbefore⟩
    · cases hne
    rcases hx.kept o k value early late' hbefore with hcleared | hfind
    · exact .inl (List.mem_append_left _ hcleared)
    · refine .inr ?_
      by_cases ho : o = owner
      · subst ho
        simp only [Function.update_self]
        exact find_append hfind _
      · simpa only [Function.update_of_ne ho] using hfind
  obeys := by
    refine obeys_concat.mpr ⟨hx.obeys, fun o k hmem => ?_, fun early late k v hlog hk => ?_⟩
    · exact Nat.lt_irrefl _ (hx.fresh o k x.next hmem)
    · refine (hx.kept owner k v early late hlog).resolve_right fun hfind => ?_
      rw [find_congr hsame hk, h] at hfind
      cases hfind

theorem Inv.step (hsame : Equivalence same) (hx : Inv same x log) (h : x.Step same e y) :
    Inv same y (log ++ [e]) := by
  cases h with
  | clear => exact hx.clear
  | make owner key h => exact hx.make hsame owner key h
  | use owner key value h => exact hx.use hsame owner key value h

theorem Inv.run (hsame : Equivalence same) {events : List (Event ω κ)} (hx : Inv same x log)
    (h : (tables same).Run x events y) : Inv same y (log ++ events) := by
  induction h generalizing log with
  | nil => simpa using hx
  | cons hstep _ ih =>
    have hrest := ih (hx.step hsame hstep)
    simpa using hrest

end MemoTables
