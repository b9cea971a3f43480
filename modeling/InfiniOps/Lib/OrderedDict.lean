/-
InfiniOps.Lib.OrderedDict — dictionaries that keep the order in which keys
were first inserted, as those of Python do.

A key stands in one entry only, which is a field of the structure. An
insertion replaces the value of a key that is there and appends one that is
not (`get?_insert`, `length_insert`).

* `update` — the entries of another dictionary win (`get?_update`).
* `ofList` — entries inserted one after the other. It has as many entries
  as the list exactly if no key occurs twice (`length_ofList_iff`).
-/
import Mathlib.Data.List.Nodup

/-- A dictionary, as its entries in order. -/
structure OrderedDict (κ α : Type) where
  entries : List (κ × α)
  nodup : (entries.map Prod.fst).Nodup

namespace OrderedDict

variable {κ α : Type}

def keys (d : OrderedDict κ α) : List κ := d.entries.map Prod.fst

def empty : OrderedDict κ α := ⟨[], List.nodup_nil⟩

instance : Inhabited (OrderedDict κ α) := ⟨empty⟩

@[simp] theorem keys_empty : (empty : OrderedDict κ α).keys = [] := rfl

@[simp] theorem entries_empty : (empty : OrderedDict κ α).entries = [] := rfl

variable [DecidableEq κ]

/-! ## Lookup -/

def get? (d : OrderedDict κ α) (k : κ) : Option α := d.entries.lookup k

@[simp] theorem get?_empty (k : κ) : (empty : OrderedDict κ α).get? k = none := rfl

theorem lookup_eq_some_iff {l : List (κ × α)} (h : (l.map Prod.fst).Nodup) (k : κ) (a : α) :
    l.lookup k = some a ↔ (k, a) ∈ l := by
  induction l with
  | nil => simp
  | cons e l ih =>
    obtain ⟨k', a'⟩ := e
    rw [List.map_cons, List.nodup_cons] at h
    rw [List.lookup_cons, List.mem_cons]
    by_cases hk : k = k'
    · subst hk
      have hfresh : (k, a) ∉ l := fun hmem => h.1 (List.mem_map.mpr ⟨(k, a), hmem, rfl⟩)
      simp [hfresh, eq_comm]
    · have hbeq : (k == k') = false := beq_false_of_ne hk
      simp [hbeq, ih h.2, hk]

theorem get?_eq_some_iff (d : OrderedDict κ α) (k : κ) (a : α) :
    d.get? k = some a ↔ (k, a) ∈ d.entries :=
  lookup_eq_some_iff d.nodup k a

/-! ## Insertion -/

/-- Replace the value of the entry of `k`, or append one. -/
def insertEntry (k : κ) (a : α) : List (κ × α) → List (κ × α)
  | [] => [(k, a)]
  | (k', a') :: l => if k' = k then (k, a) :: l else (k', a') :: insertEntry k a l

theorem mem_keys_insertEntry (k : κ) (a : α) (l : List (κ × α)) (k' : κ) :
    k' ∈ (insertEntry k a l).map Prod.fst ↔ k' = k ∨ k' ∈ l.map Prod.fst := by
  induction l with
  | nil => simp [insertEntry]
  | cons e l ih =>
    obtain ⟨key, val⟩ := e
    rw [insertEntry]
    split
    · rename_i heq
      simp [heq]
    · rw [List.map_cons, List.mem_cons, ih, List.map_cons, List.mem_cons]
      exact or_left_comm

theorem nodup_insertEntry (k : κ) (a : α) {l : List (κ × α)} (h : (l.map Prod.fst).Nodup) :
    ((insertEntry k a l).map Prod.fst).Nodup := by
  induction l with
  | nil => simp [insertEntry]
  | cons e l ih =>
    obtain ⟨key, val⟩ := e
    rw [List.map_cons, List.nodup_cons] at h
    rw [insertEntry]
    split
    · rename_i heq
      subst heq
      exact List.nodup_cons.mpr h
    · rename_i hne
      refine List.nodup_cons.mpr ⟨?_, ih h.2⟩
      rw [mem_keys_insertEntry]
      exact not_or.mpr ⟨hne, h.1⟩

def insert (d : OrderedDict κ α) (k : κ) (a : α) : OrderedDict κ α :=
  ⟨insertEntry k a d.entries, nodup_insertEntry k a d.nodup⟩

@[simp] theorem mem_keys_insert (d : OrderedDict κ α) (k : κ) (a : α) (k' : κ) :
    k' ∈ (d.insert k a).keys ↔ k' = k ∨ k' ∈ d.keys :=
  mem_keys_insertEntry k a d.entries k'

@[simp] theorem get?_insert (d : OrderedDict κ α) (k : κ) (a : α) (k' : κ) :
    (d.insert k a).get? k' = if k' = k then some a else d.get? k' := by
  have hentries : ∀ l : List (κ × α),
      (insertEntry k a l).lookup k' = if k' = k then some a else l.lookup k' := by
    intro l
    induction l with
    | nil => by_cases h : k' = k <;> simp [insertEntry, List.lookup_cons, h, beq_false_of_ne]
    | cons e l ih =>
      obtain ⟨key, val⟩ := e
      rw [insertEntry]
      split
      · rename_i heq
        subst heq
        by_cases h : k' = key <;> simp [List.lookup_cons, h, beq_false_of_ne]
      · rename_i hne
        rw [List.lookup_cons, List.lookup_cons, ih]
        by_cases h : k' = key
        · subst h
          simp [hne]
        · simp [beq_false_of_ne h]
  exact hentries d.entries

theorem length_insert (d : OrderedDict κ α) (k : κ) (a : α) :
    (d.insert k a).entries.length
      = if k ∈ d.keys then d.entries.length else d.entries.length + 1 := by
  have hentries : ∀ l : List (κ × α), (insertEntry k a l).length
      = if k ∈ l.map Prod.fst then l.length else l.length + 1 := by
    intro l
    induction l with
    | nil => rfl
    | cons e l ih =>
      obtain ⟨key, val⟩ := e
      rw [insertEntry]
      by_cases h : key = k
      · simp [h]
      · rw [if_neg h, List.length_cons, ih]
        have hne : k ≠ key := Ne.symm h
        by_cases hmem : k ∈ l.map Prod.fst <;> simp [hne, hmem]
  exact hentries d.entries

/-! ## Many insertions -/

/-- `d.update(…)`, of entries in order. -/
def insertAll (d : OrderedDict κ α) (l : List (κ × α)) : OrderedDict κ α :=
  l.foldl (fun d (k, a) => d.insert k a) d

def update (d e : OrderedDict κ α) : OrderedDict κ α := d.insertAll e.entries

def ofList (l : List (κ × α)) : OrderedDict κ α := empty.insertAll l

/-- If no key occurs twice, the inserted values win. -/
theorem get?_insertAll {l : List (κ × α)} (h : (l.map Prod.fst).Nodup) (d : OrderedDict κ α)
    (k : κ) : (d.insertAll l).get? k = (l.lookup k).or (d.get? k) := by
  induction l generalizing d with
  | nil => rfl
  | cons e l ih =>
    obtain ⟨key, val⟩ := e
    rw [List.map_cons, List.nodup_cons] at h
    have hcons : d.insertAll ((key, val) :: l) = (d.insert key val).insertAll l := rfl
    rw [hcons, ih h.2, get?_insert, List.lookup_cons]
    by_cases hk : k = key
    · subst hk
      have hnone : l.lookup k = none := by
        cases hl : l.lookup k with
        | none => rfl
        | some a => exact absurd (List.mem_map_of_mem ((lookup_eq_some_iff h.2 k a).mp hl)) h.1
      simp [hnone]
    · simp [hk, beq_false_of_ne hk]

@[simp] theorem get?_update (d e : OrderedDict κ α) (k : κ) :
    (d.update e).get? k = (e.get? k).or (d.get? k) :=
  get?_insertAll e.nodup d k

theorem get?_ofList {l : List (κ × α)} (h : (l.map Prod.fst).Nodup) {k : κ} {a : α}
    (hmem : (k, a) ∈ l) : (ofList l).get? k = some a := by
  rw [ofList, get?_insertAll h, (lookup_eq_some_iff h k a).mpr hmem]
  rfl

/-- Every key that is there already, or occurs again, is an entry less. -/
theorem length_insertAll_iff (l : List (κ × α)) (d : OrderedDict κ α) :
    (d.insertAll l).entries.length ≤ d.entries.length + l.length ∧
      ((d.insertAll l).entries.length = d.entries.length + l.length ↔
        (l.map Prod.fst).Nodup ∧ ∀ k ∈ l.map Prod.fst, k ∉ d.keys) := by
  induction l generalizing d with
  | nil => simp [insertAll]
  | cons e l ih =>
    obtain ⟨key, val⟩ := e
    have hcons : d.insertAll ((key, val) :: l) = (d.insert key val).insertAll l := rfl
    obtain ⟨hle, hiff⟩ := ih (d.insert key val)
    rw [length_insert] at hle hiff
    rw [hcons, List.length_cons]
    by_cases hmem : key ∈ d.keys
    · rw [if_pos hmem] at hle
      refine ⟨by omega, ?_⟩
      constructor
      · intro h
        omega
      · rintro ⟨-, hfresh⟩
        exact absurd hmem (hfresh key List.mem_cons_self)
    · rw [if_neg hmem] at hle hiff
      refine ⟨by omega, ?_⟩
      have hshift : d.entries.length + (l.length + 1) = d.entries.length + 1 + l.length := by omega
      rw [hshift, hiff, List.map_cons, List.nodup_cons]
      simp only [mem_keys_insert, not_or, List.mem_cons, forall_eq_or_imp]
      constructor
      · rintro ⟨hnodup, hfresh⟩
        exact ⟨⟨fun hk => (hfresh key hk).1 rfl, hnodup⟩, hmem, fun k hk => (hfresh k hk).2⟩
      · rintro ⟨⟨hkey, hnodup⟩, -, hfresh⟩
        exact ⟨hnodup, fun k hk => ⟨fun heq => hkey (heq ▸ hk), hfresh k hk⟩⟩

theorem length_ofList_iff (l : List (κ × α)) :
    (ofList l).entries.length = l.length ↔ (l.map Prod.fst).Nodup := by
  have hiff := (length_insertAll_iff l (empty : OrderedDict κ α)).2
  simpa [ofList] using hiff

end OrderedDict
