/-
InfiniOps.Lib.Placement — variables kept in the cells of a shared memory.

A placement says in which cell a variable is kept. The memory keeps the
live variables (`Keeps`) if each is found in its cell; the rest of the
memory may hold anything. Stores to variables and to their cells keep this
and make the stored variables live (`Keeps.storeAll`), provided that no two
of the variables concerned share a cell. Variables that are dead may move.
-/
import InfiniOps.Lib.StridedStore

namespace Placement

variable {κ ρ ν : Type} {place : κ → ρ} {live : κ → Prop} {mem : ρ → ν} {vars : κ → ν}

/-- Every live variable is in its cell. -/
def Keeps (place : κ → ρ) (live : κ → Prop) (mem : ρ → ν) (vars : κ → ν) : Prop :=
  ∀ c, live c → mem (place c) = vars c

/-- No two of the variables share a cell. -/
def Apart (place : κ → ρ) (used : κ → Prop) : Prop :=
  ∀ c d, used c → used d → place c = place d → c = d

theorem Keeps.mono {live' : κ → Prop} (h : Keeps place live mem vars) (hsub : ∀ c, live' c → live c) :
    Keeps place live' mem vars := fun c hc => h c (hsub c hc)

/-- What changes no cell of a live variable. -/
theorem Keeps.frame {mem' : ρ → ν} (h : Keeps place live mem vars)
    (hframe : ∀ c, live c → mem' (place c) = mem (place c)) : Keeps place live mem' vars := by
  intro c hc
  rw [hframe c hc, h c hc]

/-- Only the cells of live variables matter. -/
theorem Keeps.moved {place' : κ → ρ} (h : Keeps place live mem vars)
    (hsame : ∀ c, live c → place' c = place c) : Keeps place' live mem vars := by
  intro c hc
  rw [hsame c hc, h c hc]

/-- Live variables are read from their cells. -/
theorem Keeps.map_eq {ι : Type} (h : Keeps place live mem vars) (cell : ι → κ) {visits : List ι}
    (hlive : ∀ v ∈ visits, live (cell v)) :
    (visits.map fun v => mem (place (cell v))) = visits.map fun v => vars (cell v) :=
  List.map_congr_left fun v hv => h _ (hlive v hv)

/-- Storing one value. -/
theorem Keeps.update [DecidableEq κ] [DecidableEq ρ] {used : κ → Prop}
    (h : Keeps place live mem vars) (hapart : Apart place used) (hlive : ∀ c, live c → used c)
    {c : κ} (hc : used c) (x : ν) :
    Keeps place (fun d => live d ∨ d = c) (Function.update mem (place c) x)
      (Function.update vars c x) := by
  intro d hd
  by_cases hdc : d = c
  · rw [hdc, Function.update_self, Function.update_self]
  · have hdlive : live d := hd.resolve_right hdc
    have hne : place d ≠ place c := fun heq => hdc (hapart d c (hlive d hdlive) hc heq)
    rw [Function.update_of_ne hne, Function.update_of_ne hdc, h d hdlive]

/-- Storing values one after the other. -/
theorem Keeps.storeAll {ι : Type} [DecidableEq κ] [DecidableEq ρ] {used : κ → Prop}
    (hapart : Apart place used) (cell : ι → κ) (val : ι → ν) {visits : List ι}
    (hused : ∀ v ∈ visits, used (cell v)) (h : Keeps place live mem vars)
    (hlive : ∀ c, live c → used c) :
    Keeps place (fun d => live d ∨ ∃ v ∈ visits, cell v = d)
      (StridedStore.storeAll (fun v => place (cell v)) (fun v _ => val v) mem visits)
      (StridedStore.storeAll cell (fun v _ => val v) vars visits) := by
  induction visits generalizing live mem vars with
  | nil =>
    refine h.mono fun c hc => hc.resolve_right ?_
    rintro ⟨v, hv, -⟩
    cases hv
  | cons w rest ih =>
    have hw : used (cell w) := hused w List.mem_cons_self
    have hrest : ∀ v ∈ rest, used (cell v) := fun v hv => hused v (List.mem_cons_of_mem w hv)
    have hstored := h.update hapart hlive hw (val w)
    have hlive' : ∀ d, live d ∨ d = cell w → used d := by
      rintro d (hd | rfl)
      · exact hlive d hd
      · exact hw
    refine (ih hrest hstored hlive').mono ?_
    rintro d (hd | ⟨v, hv, rfl⟩)
    · exact .inl (.inl hd)
    · rcases List.mem_cons.mp hv with rfl | hv
      · exact .inl (.inr rfl)
      · exact .inr ⟨v, hv, rfl⟩

end Placement
