/-
InfiniOps.Lib.Ownership — resources held exclusively.

`Owns res used holders` says that the holders' resources are pairwise
disjoint and make up exactly the set `used`. It does not depend on the
order of the holders (`perm`), and the two operations of an allocator keep
it: granting a holder what is not in use (`grant`), and taking back what
one holder has (`release`). Taking back is where disjointness is needed:
without it, `used` would lose resources that another holder still has.
-/
import Mathlib.Data.Finset.Basic
import Mathlib.Data.Finset.SDiff
import Mathlib.Data.Finset.Dedup
import Mathlib.Data.List.Pairwise
import Mathlib.Data.List.Perm.Basic

/-- The holders' resources are pairwise disjoint and make up `used`. -/
structure Owns {α τ : Type} (res : τ → List α) (used : Finset α) (holders : List τ) : Prop where
  disjoint : holders.Pairwise fun a b => (res a).Disjoint (res b)
  covers : ∀ x, x ∈ used ↔ ∃ h ∈ holders, x ∈ res h

namespace Owns

variable {α τ : Type} {res : τ → List α} {used : Finset α} {holders : List τ}

theorem nil : Owns res ∅ [] :=
  ⟨.nil, by simp⟩

theorem perm {hs hs' : List τ} (h : Owns res used hs) (hp : hs.Perm hs') : Owns res used hs' where
  disjoint := (hp.pairwise_iff fun hab => hab.symm).mp h.disjoint
  covers x := by
    rw [h.covers]
    simp only [hp.mem_iff]

/-- Two holders share nothing. -/
theorem disjoint_of_ne (h : Owns res used holders) {a b : τ} (ha : a ∈ holders)
    (hb : b ∈ holders) (hne : a ≠ b) : (res a).Disjoint (res b) := by
  have hsymm : Std.Symm fun a b : τ => (res a).Disjoint (res b) := ⟨fun _ _ hab => hab.symm⟩
  exact h.disjoint.forall ha hb hne

variable [DecidableEq α] {t : τ} {hs : List τ}

theorem grant (h : Owns res used hs) (hfree : ∀ x ∈ res t, x ∉ used) :
    Owns res (used ∪ (res t).toFinset) (t :: hs) where
  disjoint := by
    refine List.pairwise_cons.mpr ⟨?_, h.disjoint⟩
    intro b hb x hx hxb
    exact hfree x hx ((h.covers x).mpr ⟨b, hb, hxb⟩)
  covers x := by
    simp only [Finset.mem_union, h.covers, List.mem_toFinset, List.mem_cons, exists_eq_or_imp]
    exact or_comm

theorem release (h : Owns res used (t :: hs)) : Owns res (used \ (res t).toFinset) hs where
  disjoint := (List.pairwise_cons.mp h.disjoint).2
  covers x := by
    obtain ⟨hdisj, -⟩ := List.pairwise_cons.mp h.disjoint
    simp only [Finset.mem_sdiff, h.covers, List.mem_toFinset, List.mem_cons, exists_eq_or_imp]
    constructor
    · rintro ⟨hx | ⟨b, hb, hx⟩, hnot⟩
      · exact absurd hx hnot
      · exact ⟨b, hb, hx⟩
    · rintro ⟨b, hb, hx⟩
      exact ⟨.inr ⟨b, hb, hx⟩, fun hxt => hdisj b hb hxt hx⟩

end Owns
