/-
InfiniOps.Lib.PointerMemo — a value that is recomputed only when its key
changes.

A component that derives a value from some source often keeps the last
result and the key it was derived under, and recomputes when the next
access comes with another key. `fresh a` is what a recomputation at access
`a` would give; it may change from access to access although the key does
not, and the two results here say what the memo then hands out:

* `run_eq_of_head`: the value at any point is the fresh value of the
  access that opened the current block of equal keys;
* `served_eq_fresh_iff`: every access is served its own fresh value if and
  only if neighbouring accesses with one key have one fresh value.

Nothing is assumed of the key but decidable equality. In particular a key
that is left and later taken up again opens a new block.
-/
import Mathlib.Data.List.Chain

/-- The last derived value and the key it was derived under. -/
structure PointerMemo (κ ν : Type) where
  key : κ
  value : ν

namespace PointerMemo

variable {α κ ν : Type} (key : α → κ) (fresh : α → ν)

/-! ## Blocks of equal keys -/

/-- `a` opens the last block of equal keys. -/
def OpensLastBlock (as : List α) (a : α) : Prop :=
  ∃ before same, as = before ++ a :: same ∧ (∀ b ∈ same, key b = key a) ∧
    ∀ b ∈ before.getLast?, key b ≠ key a

theorem OpensLastBlock.singleton (a : α) : OpensLastBlock key [a] a :=
  ⟨[], [], rfl, by simp, by simp⟩

/-- An access with the key of the block joins it. -/
theorem OpensLastBlock.join {as : List α} {a b : α} (h : OpensLastBlock key as a)
    (hkey : key b = key a) : OpensLastBlock key (as ++ [b]) a := by
  obtain ⟨before, same, rfl, hsame, hbefore⟩ := h
  refine ⟨before, same ++ [b], by simp, ?_, hbefore⟩
  intro c hc
  rcases List.mem_append.mp hc with hc | hc
  · exact hsame c hc
  · rw [List.mem_singleton.mp hc, hkey]

/-- An access with another key opens the next block. -/
theorem OpensLastBlock.open_next {as : List α} {a b : α} (h : OpensLastBlock key as a)
    (hkey : key b ≠ key a) : OpensLastBlock key (as ++ [b]) b := by
  obtain ⟨before, same, rfl, hsame, -⟩ := h
  refine ⟨before ++ a :: same, [], rfl, by simp, ?_⟩
  intro c hc
  have hlast : c ∈ (a :: same).getLast? := by
    rwa [List.getLast?_append_of_ne_nil _ (List.cons_ne_nil a same)] at hc
  have hmem : c ∈ a :: same := List.mem_of_mem_getLast? hlast
  rcases List.mem_cons.mp hmem with rfl | hmem
  · exact hkey.symm
  · rw [hsame c hmem]
    exact hkey.symm

/-! ## The memo -/

variable [DecidableEq κ]

/-- One access: recompute unless the key is the remembered one. -/
def access (m : PointerMemo κ ν) (a : α) : PointerMemo κ ν :=
  if key a = m.key then m else ⟨key a, fresh a⟩

/-- The memo after a run of accesses. -/
def run (m : PointerMemo κ ν) (as : List α) : PointerMemo κ ν := as.foldl (access key fresh) m

/-- The values handed out along a run. -/
def served : PointerMemo κ ν → List α → List ν
  | _, [] => []
  | m, a :: as => (access key fresh m a).value :: served (access key fresh m a) as

/-- The memo does not hold a stale value for the first access. -/
def HeadFresh (m : PointerMemo κ ν) (as : List α) : Prop :=
  ∀ a ∈ as.head?, key a = m.key → fresh a = m.value

@[simp] theorem access_key (m : PointerMemo κ ν) (a : α) : (access key fresh m a).key = key a := by
  unfold access
  split
  · rename_i h
    exact h.symm
  · rfl

theorem run_append_singleton (m : PointerMemo κ ν) (as : List α) (a : α) :
    run key fresh m (as ++ [a]) = access key fresh (run key fresh m as) a := by
  simp [run, List.foldl_append]

/-! ## What a run holds and hands out -/

/-- After any nonempty run the memo holds the fresh value of the access
that opened the current block. -/
theorem run_eq_of_head (m : PointerMemo κ ν) (as : List α) (hne : as ≠ [])
    (hhead : HeadFresh key fresh m as) :
    ∃ a, OpensLastBlock key as a ∧ run key fresh m as = ⟨key a, fresh a⟩ := by
  induction as using List.reverseRecOn with
  | nil => exact absurd rfl hne
  | append_singleton as b ih =>
    rw [run_append_singleton]
    rcases as.eq_nil_or_concat with rfl | ⟨as', c, rfl⟩
    · refine ⟨b, .singleton key b, ?_⟩
      by_cases hkey : key b = m.key
      · have hval : fresh b = m.value := hhead b (by simp) hkey
        simp [run, access, hkey, hval]
      · simp [run, access, hkey]
    · rw [List.concat_eq_append] at ih ⊢
      have hhead' : HeadFresh key fresh m (as' ++ [c]) := by
        intro a ha
        refine hhead a ?_
        rw [List.concat_eq_append, List.head?_append_of_ne_nil _ (by simp)]
        exact ha
      obtain ⟨a, hopens, hrun⟩ := ih (by simp) hhead'
      rw [hrun]
      by_cases hkey : key b = key a
      · exact ⟨a, hopens.join key hkey, by simp [access, hkey]⟩
      · exact ⟨b, hopens.open_next key hkey, by simp [access, hkey]⟩

/-- Every access is served its own fresh value if and only if the fresh
value never changes while the key stays. -/
theorem served_eq_fresh_iff (m : PointerMemo κ ν) (as : List α) :
    served key fresh m as = as.map fresh ↔
      HeadFresh key fresh m as ∧ as.IsChain (fun a b => key b = key a → fresh b = fresh a) := by
  induction as generalizing m with
  | nil => simp [served, HeadFresh]
  | cons a as ih =>
    rw [served, List.map_cons, List.cons.injEq, ih]
    have hhead : (access key fresh m a).value = fresh a ↔ HeadFresh key fresh m (a :: as) := by
      simp only [HeadFresh, List.head?_cons, Option.mem_def, Option.some.injEq, forall_eq']
      unfold access
      split <;> simp_all [eq_comm]
    rw [hhead, List.isChain_cons]
    constructor
    · rintro ⟨hfirst, hnext, hchain⟩
      have hval := hhead.mpr hfirst
      refine ⟨hfirst, ?_, hchain⟩
      intro b hb hkey
      rw [hnext b hb (by rw [access_key, hkey]), hval]
    · rintro ⟨hfirst, hnext, hchain⟩
      have hval := hhead.mpr hfirst
      refine ⟨hfirst, ?_, hchain⟩
      intro b hb hkey
      rw [hval]
      exact hnext b hb (by rwa [access_key] at hkey)

end PointerMemo
