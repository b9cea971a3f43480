/-
InfiniOps.Lib.RecordStore — a store of records laid out in a memory.

Slot `s` holds a record, whose field `f` lies at `place s f`. A memory holds
a store if every field of every slot is found there (`Holds`). Copies into
the places of some slots put records there and leave the others alone
(`Holds.copied`), as `putAll` does in the store; what changes no place
changes no record (`Holds.frame`).

Copies are described by what they leave behind (`Copied`), so that a copy
whose order is not known can be one of them.
-/
import InfiniOps.Lib.StridedStore

namespace RecordStore

/-- Cells were copied, all of them from the memory as it was. -/
structure Copied {ι κ ν : Type} (dst src : ι → κ) (visits : List ι) (mem mem' : κ → ν) : Prop where
  written : ∀ v ∈ visits, mem' (dst v) = mem (src v)
  frame : ∀ p, p ∉ visits.map dst → mem' p = mem p

theorem Copied.congr {ι κ ν : Type} {dst src dst' src' : ι → κ} {visits : List ι} {mem mem' : κ → ν}
    (h : Copied dst src visits mem mem') (hdst : ∀ v ∈ visits, dst v = dst' v)
    (hsrc : ∀ v ∈ visits, src v = src' v) : Copied dst' src' visits mem mem' where
  written v hv := by rw [← hdst v hv, ← hsrc v hv, h.written v hv]
  frame p hp := h.frame p (List.map_congr_left hdst ▸ hp)

/-- One after the other, where no cell is written twice. -/
theorem copied_storeAll {ι κ ν : Type} [DecidableEq κ] {dst src : ι → κ} {visits : List ι}
    (hnodup : (visits.map dst).Nodup) (mem : κ → ν) :
    Copied dst src visits mem
      (StridedStore.storeAll dst (fun v _ => mem (src v)) mem visits) where
  written _ hv := StridedStore.storeAll_at_of_nodup dst _ mem hnodup hv
  frame _ hp := StridedStore.storeAll_of_notMem dst _ mem hp

section Store

variable {φ κ ν : Type}

/-- The record of the `i`-th slot of the list is replaced by the `i`-th. -/
def putAll (slots : List Nat) (records : Nat → φ → ν) (store : Nat → φ → ν) : Nat → φ → ν :=
  fun s => match slots.idxOf? s with
    | some i => records i
    | none => store s

theorem putAll_of_notMem {slots : List Nat} {records store : Nat → φ → ν} {s : Nat}
    (h : s ∉ slots) : putAll slots records store s = store s := by
  rw [putAll, List.idxOf?_eq_none_iff.mpr h]

theorem putAll_getElem {slots : List Nat} (hnodup : slots.Nodup) {records store : Nat → φ → ν}
    {i : Nat} (hi : i < slots.length) : putAll slots records store slots[i] = records i := by
  have hidx : slots.idxOf? slots[i] = some i := by
    rw [List.idxOf?_eq_some_iff]
    refine ⟨hi, by simp, fun j hj => ?_⟩
    have hne : slots[j] ≠ slots[i] := fun heq => Nat.ne_of_lt hj ((hnodup.getElem_inj_iff).mp heq)
    simpa using hne
  rw [putAll, hidx]

/-- Only the records of the listed slots matter. -/
theorem putAll_congr {slots : List Nat} {records records' store : Nat → φ → ν} {f : φ}
    (h : ∀ i < slots.length, records i f = records' i f) (s : Nat) :
    putAll slots records store s f = putAll slots records' store s f := by
  rw [putAll, putAll]
  cases hidx : slots.idxOf? s with
  | none => rfl
  | some i =>
    obtain ⟨hi, -, -⟩ := List.idxOf?_eq_some_iff.mp hidx
    exact h i hi

variable (place : Nat → φ → κ) (slots : Nat) (Field : φ → Prop)

/-- The memory holds the store. -/
def Holds (mem : κ → ν) (store : Nat → φ → ν) : Prop :=
  ∀ s < slots, ∀ f, Field f → mem (place s f) = store s f

/-- Every field has a place of its own. -/
def Disjoint : Prop :=
  ∀ s < slots, ∀ s' < slots, ∀ f f', Field f → Field f' → place s f = place s' f' → s = s' ∧ f = f'

variable {place slots Field}

theorem holds_self (mem : κ → ν) : Holds place slots Field mem fun s f => mem (place s f) :=
  fun _ _ _ _ => rfl

theorem Holds.congr {mem : κ → ν} {store store' : Nat → φ → ν}
    (h : Holds place slots Field mem store) (hsame : ∀ s f, Field f → store s f = store' s f) :
    Holds place slots Field mem store' := by
  intro s hs f hf
  rw [h s hs f hf, hsame s f hf]

theorem Holds.frame {mem mem' : κ → ν} {store : Nat → φ → ν} (h : Holds place slots Field mem store)
    (hframe : ∀ s < slots, ∀ f, Field f → mem' (place s f) = mem (place s f)) :
    Holds place slots Field mem' store := by
  intro s hs f hf
  rw [hframe s hs f hf, h s hs f hf]

/-- Records that are copied into slots are put there. -/
theorem Holds.copied {ι : Type} {mem mem' : κ → ν} {store : Nat → φ → ν}
    (h : Holds place slots Field mem store) (hplaces : Disjoint place slots Field)
    {used : List Nat} (hnodup : used.Nodup) (hused : ∀ s ∈ used, s < slots) {dst src : ι → κ}
    {visits : List ι} (visit : Nat → φ → ι)
    (hdst : ∀ i (hi : i < used.length) f, Field f → dst (visit i f) = place used[i] f)
    (hmem : ∀ v, v ∈ visits ↔ ∃ i < used.length, ∃ f, Field f ∧ v = visit i f)
    (hcopied : Copied dst src visits mem mem') :
    Holds place slots Field mem' (putAll used (fun i f => mem (src (visit i f))) store) := by
  intro s hs f hf
  by_cases hslot : s ∈ used
  · obtain ⟨i, hi, rfl⟩ := List.getElem_of_mem hslot
    rw [putAll_getElem hnodup hi, ← hdst i hi f hf,
      hcopied.written _ ((hmem _).mpr ⟨i, hi, f, hf, rfl⟩)]
  · rw [putAll_of_notMem hslot, ← h s hs f hf]
    refine hcopied.frame _ fun hplace => hslot ?_
    obtain ⟨v, hv, heq⟩ := List.mem_map.mp hplace
    obtain ⟨i, hi, f', hf', rfl⟩ := (hmem v).mp hv
    rw [hdst i hi f' hf'] at heq
    obtain ⟨hsame, -⟩ := hplaces _ (hused _ (List.getElem_mem hi)) s hs f' f hf' hf heq
    rw [← hsame]
    exact List.getElem_mem hi

/-- A cell that is no place of a written slot is left alone. -/
theorem Copied.frame_of_ne {ι : Type} {dst src : ι → κ} {visits : List ι} {mem mem' : κ → ν} {p : κ}
    (h : Copied dst src visits mem mem') (hp : ∀ v ∈ visits, dst v ≠ p) : mem' p = mem p := by
  refine h.frame p fun hmem => ?_
  obtain ⟨v, hv, heq⟩ := List.mem_map.mp hmem
  exact hp v hv heq

end Store

end RecordStore
