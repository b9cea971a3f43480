/-
InfiniOps.Lib.History — logs of events, and rules about them.

A rule says which events may come after which logs. A log obeys a rule if
each of its events may come after those before it. A log that grows by one
event at a time is shown to obey a rule one event at a time
(`obeys_concat`), and a statement about all places in a log where an event
stands is extended by one event in the same way (`concat_eq_split_iff`).
-/
import Mathlib.Data.List.Basic

namespace History

variable {ε : Type} {log : List ε} {e x : ε}

/-- The places in a log that is longer by one event: those of the shorter
log, and the end. -/
theorem concat_eq_split_iff {before after : List ε} :
    log ++ [e] = before ++ x :: after ↔
      (before = log ∧ x = e ∧ after = []) ∨
        ∃ after', after = after' ++ [e] ∧ log = before ++ x :: after' := by
  constructor
  · intro h
    rcases List.eq_nil_or_concat after with rfl | ⟨after', last, rfl⟩
    · obtain ⟨hlog, hx⟩ := List.append_inj' h rfl
      cases hx
      exact .inl ⟨hlog.symm, rfl, rfl⟩
    · rw [List.concat_eq_append, ← List.cons_append, ← List.append_assoc] at h
      obtain ⟨hlog, hlast⟩ := List.append_inj' h rfl
      cases hlast
      exact .inr ⟨after', List.concat_eq_append, hlog⟩
  · rintro (⟨rfl, rfl, rfl⟩ | ⟨after', rfl, rfl⟩)
    · rfl
    · simp

/-- Every event of the log may come after those before it. -/
def Obeys (rule : List ε → ε → Prop) (log : List ε) : Prop :=
  ∀ before e after, log = before ++ e :: after → rule before e

variable {rule : List ε → ε → Prop}

theorem obeys_nil : Obeys rule [] := by
  intro before e after h
  simp at h

theorem obeys_concat : Obeys rule (log ++ [e]) ↔ Obeys rule log ∧ rule log e := by
  constructor
  · intro h
    refine ⟨fun before x after hlog => ?_, h log e [] rfl⟩
    exact h before x (after ++ [e]) (by simp [hlog])
  · rintro ⟨hlog, he⟩ before x after hsplit
    rcases concat_eq_split_iff.mp hsplit with ⟨rfl, rfl, rfl⟩ | ⟨after', rfl, hlog'⟩
    · exact he
    · exact hlog before x after' hlog'

end History
