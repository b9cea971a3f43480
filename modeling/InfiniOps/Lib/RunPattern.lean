/-
InfiniOps.Lib.RunPattern — matching a sequence of character classes: single
elements and runs, each run as long as it can be.

`Splits` is what a pattern means, any way of dividing a text into pieces
that it accepts. Where no run can be continued by what the pattern expects
after it (`Determinate`), matching is deterministic: `run_of_splits` says
that the longest runs are the division there is. `run_append` cuts a pattern
in two, and `findAll` is the leftmost matches that do not overlap.
-/
import Mathlib.Data.List.Basic

namespace RunPattern

variable {α : Type*}

/-- A class of elements, once or repeated. -/
inductive Piece (α : Type*) where
  | char (p : α → Bool)
  | star (p : α → Bool)
  | plus (p : α → Bool)

/-- The text of each piece at the start of `s`, and the rest. -/
def run : List (Piece α) → List α → Option (List (List α) × List α)
  | [], s => some ([], s)
  | .char _ :: _, [] => none
  | .char p :: ps, c :: s =>
    if p c then (run ps s).map fun m => ([c] :: m.1, m.2) else none
  | .star p :: ps, s =>
    (run ps (s.dropWhile p)).map fun m => (s.takeWhile p :: m.1, m.2)
  | .plus p :: ps, s =>
    if (s.takeWhile p).isEmpty then none
    else (run ps (s.dropWhile p)).map fun m => (s.takeWhile p :: m.1, m.2)

/-! ## What a pattern means -/

inductive Piece.Accepts : Piece α → List α → Prop
  | char {p : α → Bool} {c : α} (h : p c = true) : Accepts (.char p) [c]
  | star {p : α → Bool} {t : List α} (h : ∀ c ∈ t, p c = true) : Accepts (.star p) t
  | plus {p : α → Bool} {t : List α} (hne : t ≠ []) (h : ∀ c ∈ t, p c = true) :
    Accepts (.plus p) t

/-- A division of the text into accepted pieces. -/
inductive Splits : List (Piece α) → List (List α) → Prop
  | nil : Splits [] []
  | cons {piece : Piece α} {t : List α} {ps : List (Piece α)} {ts : List (List α)}
    (h : piece.Accepts t) (hs : Splits ps ts) : Splits (piece :: ps) (t :: ts)

/-- Nothing that `ps` accepts, with `rest` after it, begins in `p`. -/
def AvoidedBy (p : α → Bool) (rest : List α) : List (Piece α) → Prop
  | [] => ∀ c ∈ rest.head?, p c = false
  | .char q :: _ => ∀ c, q c = true → p c = false
  | .plus q :: _ => ∀ c, q c = true → p c = false
  | .star q :: ps => (∀ c, q c = true → p c = false) ∧ AvoidedBy p rest ps

/-- Every run ends where the pattern goes on. -/
def Determinate (rest : List α) : List (Piece α) → Prop
  | [] => True
  | .char _ :: ps => Determinate rest ps
  | .star p :: ps => AvoidedBy p rest ps ∧ Determinate rest ps
  | .plus p :: ps => AvoidedBy p rest ps ∧ Determinate rest ps

variable {p : α → Bool} {ps qs : List (Piece α)} {ts us : List (List α)} {s t rest : List α}

theorem head_of_avoidedBy (hs : Splits ps ts) (h : AvoidedBy p rest ps) :
    ∀ c ∈ (ts.flatten ++ rest).head?, p c = false := by
  induction hs with
  | nil => exact h
  | @cons piece t ps ts haccepts hs ih =>
    cases haccepts with
    | @char q c hq =>
      intro d hd
      cases hd
      exact h c hq
    | @star q t hq =>
      cases t with
      | nil => exact ih h.2
      | cons c t =>
        intro d hd
        cases hd
        exact h.1 c (hq c List.mem_cons_self)
    | @plus q t hne hq =>
      cases t with
      | nil => exact absurd rfl hne
      | cons c t =>
        intro d hd
        cases hd
        exact h c (hq c List.mem_cons_self)

/-! ## Matching -/

theorem takeWhile_of_ends (ht : ∀ c ∈ t, p c = true) (hs : ∀ c ∈ s.head?, p c = false) :
    (t ++ s).takeWhile p = t ∧ (t ++ s).dropWhile p = s := by
  have hhead : s.takeWhile p = [] ∧ s.dropWhile p = s := by
    cases s with
    | nil => exact ⟨rfl, rfl⟩
    | cons c s => simp [hs c rfl]
  rw [List.takeWhile_append_of_pos ht, List.dropWhile_append_of_pos ht, hhead.1, hhead.2,
    List.append_nil]
  exact ⟨rfl, rfl⟩

theorem run_of_splits (hdet : Determinate rest ps) (hs : Splits ps ts) :
    run ps (ts.flatten ++ rest) = some (ts, rest) := by
  induction hs with
  | nil => rfl
  | @cons piece t ps ts haccepts hs ih =>
    rw [List.flatten_cons, List.append_assoc]
    cases haccepts with
    | @char q c hq =>
      rw [List.singleton_append, run, if_pos hq, ih hdet]
      rfl
    | @star q t hq =>
      obtain ⟨htake, hdrop⟩ := takeWhile_of_ends hq (head_of_avoidedBy hs hdet.1)
      rw [run, hdrop, ih hdet.2, htake]
      rfl
    | @plus q t hne hq =>
      obtain ⟨htake, hdrop⟩ := takeWhile_of_ends hq (head_of_avoidedBy hs hdet.1)
      rw [run, hdrop, ih hdet.2, htake, if_neg (by simpa using hne)]
      rfl

theorem run_append (h : run ps s = some (ts, rest)) :
    run (ps ++ qs) s = (run qs rest).map fun m => (ts ++ m.1, m.2) := by
  induction ps generalizing s ts with
  | nil =>
    obtain ⟨rfl, rfl⟩ := Prod.mk.inj (Option.some.inj h)
    simp
  | cons piece ps ih =>
    have hcons : ∀ {t s' : List α} {m : Option (List (List α) × List α)},
        (run ps s').map (fun m => (t :: m.1, m.2)) = some (ts, rest) →
        m = run (ps ++ qs) s' →
        m.map (fun m => (t :: m.1, m.2)) = (run qs rest).map fun m => (ts ++ m.1, m.2) := by
      rintro t s' m hmap rfl
      obtain ⟨⟨ts', rest'⟩, hrun, heq⟩ := Option.map_eq_some_iff.mp hmap
      obtain ⟨rfl, rfl⟩ := Prod.mk.inj heq
      rw [ih hrun, Option.map_map]
      rfl
    rw [List.cons_append]
    cases piece with
    | char p =>
      cases s with
      | nil => cases h
      | cons c s =>
        rw [run] at h ⊢
        split_ifs at h ⊢ with hp
        exact hcons h rfl
    | star p =>
      rw [run] at h ⊢
      exact hcons h rfl
    | plus p =>
      rw [run] at h ⊢
      split_ifs at h ⊢ with hp
      exact hcons h rfl

/-- A run needs a first element. -/
theorem run_plus_eq_none (h : ∀ c ∈ s.head?, p c = false) : run (.plus p :: ps) s = none := by
  have htake : s.takeWhile p = [] := by
    cases s with
    | nil => rfl
    | cons c s => simp [h c rfl]
  rw [run, htake]
  rfl

/-- Nor can it be cut short. -/
theorem run_plus_eq_none_of_next (h : run ps (s.dropWhile p) = none) :
    run (.plus p :: ps) s = none := by
  rw [run, h]
  split_ifs <;> rfl

theorem run_char_eq_none (h : ∀ c ∈ s.head?, p c = false) : run (.char p :: ps) s = none := by
  cases s with
  | nil => rfl
  | cons c s => simp [run, h c rfl]

/-! ## All matches -/

/-- The matches of `ps`, from left to right. -/
def findAll (ps : List (Piece α)) : List α → List (List (List α))
  | [] => []
  | c :: s =>
    match run ps (c :: s) with
    | none => findAll ps s
    | some (ts, rest) =>
      if rest.length ≤ s.length then ts :: findAll ps rest else findAll ps s
termination_by s => s.length

@[simp] theorem findAll_nil : findAll ps [] = [] := by
  rw [findAll]

theorem findAll_of_run (h : run ps s = some (ts, rest)) (hlt : rest.length < s.length) :
    findAll ps s = ts :: findAll ps rest := by
  cases s with
  | nil => cases hlt
  | cons c s =>
    rw [findAll, h]
    exact if_pos (Nat.le_of_lt_succ hlt)

/-- A text in which no match begins is passed over. -/
theorem findAll_skip (h : ∀ u c v, t = u ++ c :: v → run ps (c :: v ++ s) = none) :
    findAll ps (t ++ s) = findAll ps s := by
  induction t with
  | nil => rfl
  | cons c t ih =>
    have hhead := h [] c t rfl
    rw [List.cons_append] at hhead ⊢
    rw [findAll, hhead]
    exact ih fun u d v heq => h (c :: u) d v (by rw [heq, List.cons_append])

end RunPattern
