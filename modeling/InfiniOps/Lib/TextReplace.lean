import Mathlib.Data.List.Basic

namespace TextReplace

/-- Every occurrence of `pattern`, from left to right. -/
def replaceAll (pattern replacement : List Char) : List Char → List Char
  | [] => []
  | c :: cs =>
    if pattern ≠ [] ∧ pattern <+: c :: cs then
      replacement ++ replaceAll pattern replacement ((c :: cs).drop pattern.length)
    else c :: replaceAll pattern replacement cs
termination_by s => s.length
decreasing_by
  · rename_i h
    have hpos : 0 < pattern.length := List.length_pos_iff.mpr h.1
    rw [List.length_drop, List.length_cons]
    omega
  · simp

variable {pattern replacement : List Char}

@[simp] theorem replaceAll_nil : replaceAll pattern replacement [] = [] := by
  rw [replaceAll]

theorem replaceAll_append (h : pattern ≠ []) (rest : List Char) :
    replaceAll pattern replacement (pattern ++ rest)
      = replacement ++ replaceAll pattern replacement rest := by
  cases pattern with
  | nil => exact absurd rfl h
  | cons p ps =>
    rw [List.cons_append, replaceAll, if_pos ⟨h, List.prefix_append (p :: ps) rest⟩,
      ← List.cons_append, List.drop_left]

theorem replaceAll_cons {c : Char} {cs : List Char} (h : ¬ pattern <+: c :: cs) :
    replaceAll pattern replacement (c :: cs) = c :: replaceAll pattern replacement cs := by
  rw [replaceAll, if_neg fun hprefix => h hprefix.2]

/-- Text in which no occurrence begins stays. -/
theorem replaceAll_keep {kept rest : List Char}
    (h : ∀ u c v, kept = u ++ c :: v → ¬ pattern <+: c :: v ++ rest) :
    replaceAll pattern replacement (kept ++ rest)
      = kept ++ replaceAll pattern replacement rest := by
  induction kept with
  | nil => rfl
  | cons c kept ih =>
    have hhead : ¬ pattern <+: c :: (kept ++ rest) := h [] c kept rfl
    rw [List.cons_append, replaceAll_cons hhead, ih, List.cons_append]
    intro u d v heq
    exact h (c :: u) d v (by rw [heq, List.cons_append])

section Search

open String Slice Pattern Model

variable {s : Slice} {pat : String}

/-- Between two positions lies the text that their splittings differ by. -/
theorem copy_slice! {start stop : s.Pos} {before between after : String}
    (hstart : start.Splits before (between ++ after))
    (hstop : stop.Splits (before ++ between) after) : (s.slice! start stop).copy = between := by
  obtain ⟨hle, hcopy⟩ := Slice.copy_slice_eq_iff_splits.mpr ⟨before, after, hstart, hstop⟩
  rw [← Slice.slice_eq_slice! (h := hle), hcopy]

/-- No occurrence begins where the search found none. -/
theorem not_prefix_of_rejected {start stop : s.Pos} {before between after : String}
    (hstart : start.Splits before (between ++ after))
    (hstop : stop.Splits (before ++ between) after)
    (hnone : ∀ pos, start ≤ pos → pos < stop → ¬ MatchesAt pat pos) (u v : List Char) (c : Char)
    (heq : between.toList = u ++ c :: v) : ¬ pat.toList <+: c :: v ++ after.toList := by
  rintro ⟨rest, hrest⟩
  have hbetween : between = String.ofList u ++ String.ofList (c :: v) := by
    rw [← String.ofList_append, ← heq, String.ofList_toList]
  have hsplit : s.copy = (before ++ String.ofList u) ++ (String.ofList (c :: v) ++ after) := by
    rw [hstart.eq_append, hbetween, String.append_assoc, String.append_assoc]
  obtain ⟨pos, hpos⟩ : ∃ pos : s.Pos, pos.Splits (before ++ String.ofList u)
      (String.ofList (c :: v) ++ after) := ⟨_, Slice.Pos.splits_ofEqAppend hsplit⟩
  have hlo : start ≤ pos := by
    refine (hstart.le_iff_exists_eq_append hpos).mpr ⟨String.ofList u, rfl, ?_⟩
    rw [hbetween, String.append_assoc]
  have hhi : pos < stop := by
    refine (hpos.lt_iff_exists_eq_append hstop).mpr ⟨String.ofList (c :: v), ?_, ?_, rfl⟩
    · simp
    · rw [hbetween, String.append_assoc]
  have hmatch : String.ofList (c :: v) ++ after = pat ++ String.ofList rest := by
    apply String.toList_injective
    rw [String.toList_append, String.toList_append, String.toList_ofList, String.toList_ofList,
      hrest]
  rw [hmatch] at hpos
  exact hnone pos hlo hhi (ForwardStringSearcher.matchesAt_iff_splits.mpr ⟨_, _, hpos⟩)

theorem foldl_search {repl : String} {f : String → SearchStep s → String}
    (hmatched : ∀ sofar start stop, f sofar (.matched start stop) = sofar ++ repl)
    (hrejected : ∀ sofar start stop,
      f sofar (.rejected start stop) = sofar ++ (s.slice! start stop).copy)
    (hpat : pat ≠ "") {pos : s.Pos} {steps : List (SearchStep s)}
    (h : IsValidSearchFrom pat pos steps) {before after : String}
    (hsplits : pos.Splits before after) (sofar : String) :
    (steps.foldl f sofar).toList
      = sofar.toList ++ replaceAll pat.toList repl.toList after.toList := by
  induction h generalizing before after sofar with
  | endPos =>
    have hend : after = "" := (hsplits.eq s.splits_endPos).2
    simp [hend]
  | matched hmatch _ ih =>
    obtain ⟨t₁, t₂, hstart, hstop⟩ := ForwardStringSearcher.isLongestMatchAt_iff_splits.mp hmatch
    have hafter := (hsplits.eq hstart).2
    have hne : pat.toList ≠ [] := by simpa using hpat
    rw [List.foldl_cons, ih hstop, hafter, String.toList_append, replaceAll_append hne, hmatched,
      String.toList_append, List.append_assoc]
  | @mismatched _ start stop hlt hnone _ ih =>
    obtain ⟨between, hbefore, hafter⟩ :=
      (hsplits.le_iff_exists_eq_append stop.splits).mp (Std.le_of_lt hlt)
    have hstop := stop.splits
    rw [hbefore] at hstop
    rw [hafter] at hsplits
    have hkeep := not_prefix_of_rejected hsplits hstop hnone
    rw [List.foldl_cons, ih hstop, hafter, String.toList_append,
      replaceAll_keep fun u c v => hkeep u v c, hrejected, copy_slice! hsplits hstop,
      String.toList_append, List.append_assoc]

theorem toList_replace (s pat repl : String) (hpat : pat ≠ "") :
    (s.replace pat repl).toList = replaceAll pat.toList repl.toList s.toList := by
  have hsearch :=
    (ForwardStringSearcher.lawfulToForwardSearcherModel hpat).isValidSearchFrom_toList s.toSlice
  have hcopy : (ToSlice.toSlice repl).copy = repl := String.copy_toSlice
  rw [String.replace, Slice.replace, ← Std.Iter.foldl_toList,
    foldl_search (fun sofar _ _ => congrArg (sofar ++ ·) hcopy) (fun _ _ _ => rfl) hpat hsearch
      s.toSlice.splits_startPos, String.copy_toSlice]
  rfl

end Search

end TextReplace
