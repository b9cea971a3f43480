/-
InfiniOps.Lib.Brackets — how deep the brackets of a text are nested.

`nesting` scans a text once: it is the largest depth, or nothing where the
brackets are not balanced. A `Block` is balanced in any context, so that
blocks can be put side by side (`Block.append`, `Block.intercalate`) and
into brackets (`Block.enclose`).
-/
import Mathlib.Data.List.Basic

namespace Brackets

variable {α : Type} [DecidableEq α] (opening closing : α)

/-- The largest depth of the rest of a text, or of what went before. -/
def height : (text : List α) → (depth top : Nat) → Option Nat
  | [], depth, top => if depth = 0 then some top else none
  | c :: cs, depth, top =>
    if c = opening then height cs (depth + 1) (max top (depth + 1))
    else if c = closing then if depth = 0 then none else height cs (depth - 1) top
    else height cs depth top

/-- The largest depth of a text whose brackets are balanced. -/
def nesting (text : List α) : Option Nat := height opening closing text 0 0

/-- A text that comes back to the depth it starts at, and goes `h` deeper. -/
def Block (h : Nat) (text : List α) : Prop :=
  ∀ rest depth top, depth ≤ top →
    height opening closing (text ++ rest) depth top
      = height opening closing rest depth (max top (depth + h))

variable {opening closing} {h k : Nat} {text text' : List α}

theorem Block.nesting_eq (hblock : Block opening closing h text) :
    nesting opening closing text = some h := by
  have hscan := hblock [] 0 0 (Nat.le_refl 0)
  rw [List.append_nil] at hscan
  rw [nesting, hscan, height]
  simp

theorem block_nil : Block opening closing 0 [] := by
  intro rest depth top hle
  rw [List.nil_append, Nat.add_zero, Nat.max_eq_left hle]

theorem block_plain (hplain : ∀ c ∈ text, c ≠ opening ∧ c ≠ closing) :
    Block opening closing 0 text := by
  induction text with
  | nil => exact block_nil
  | cons c cs ih =>
    intro rest depth top hle
    obtain ⟨hopening, hclosing⟩ := hplain c List.mem_cons_self
    rw [List.cons_append, height, if_neg hopening, if_neg hclosing]
    exact ih (fun d hd => hplain d (List.mem_cons_of_mem _ hd)) rest depth top hle

theorem Block.append (hblock : Block opening closing h text)
    (hblock' : Block opening closing k text') :
    Block opening closing (max h k) (text ++ text') := by
  intro rest depth top hle
  have htop : depth ≤ max top (depth + h) := Nat.le_trans hle (Nat.le_max_left _ _)
  rw [List.append_assoc, hblock _ depth top hle, hblock' _ depth _ htop]
  congr 1
  omega

theorem Block.enclose (hne : opening ≠ closing) (hblock : Block opening closing h text) :
    Block opening closing (h + 1) (opening :: text ++ [closing]) := by
  intro rest depth top hle
  rw [List.append_assoc, List.cons_append, height, if_pos rfl,
    hblock _ (depth + 1) _ (Nat.le_max_right _ _), List.singleton_append, height,
    if_neg hne.symm, if_pos rfl, if_neg (Nat.succ_ne_zero depth), Nat.add_sub_cancel]
  congr 1
  omega

theorem Block.intercalate {separator : List α} (hseparator : Block opening closing 0 separator)
    {texts : List (List α)} (hne : texts ≠ [])
    (htexts : ∀ text ∈ texts, Block opening closing h text) :
    Block opening closing h (separator.intercalate texts) := by
  induction texts with
  | nil => exact absurd rfl hne
  | cons text rest ih =>
    have hhead := htexts text List.mem_cons_self
    by_cases hrest : rest = []
    · rw [hrest, List.intercalate_singleton]
      exact hhead
    · have htail := ih hrest fun t ht => htexts t (List.mem_cons_of_mem _ ht)
      rw [List.intercalate_cons_of_ne_nil hrest]
      have hblock := (hhead.append hseparator).append htail
      rwa [Nat.max_zero, Nat.max_self] at hblock

example : nesting '[' ']' "[[1, 2], [3, 4]]".toList = some 2 := by decide

example : nesting '[' ']' "[1]], [".toList = none := by decide

end Brackets
