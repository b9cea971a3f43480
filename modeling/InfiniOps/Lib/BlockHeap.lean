/-
InfiniOps.Lib.BlockHeap — an allocator's blocks, with a record of every
free.

A block is identified by the serial number of its allocation, since its
address may be handed out again later. `free` looks an address up among the
live blocks and records the serial it found, or `none` when nothing lives
there. A heap is well formed (`Wf`) while blocks are disjoint, no free
missed, and no serial was freed twice or is freed and live. `alloc` of a
block disjoint from the live ones and `free` of a live one keep this, and
they change the set of live extents by exactly that block.
-/
import Mathlib.Data.Finset.SDiff
import Mathlib.Data.Finset.Dedup
import Mathlib.Data.List.Nodup
import Mathlib.Data.List.Pairwise

structure HeapBlock where
  base : Nat
  size : Nat
  serial : Nat
  deriving DecidableEq, Repr

namespace HeapBlock

def extent (b : HeapBlock) : Nat × Nat := (b.base, b.size)

/-- Two extents, as base and size, do not meet. -/
def Apart (d e : Nat × Nat) : Prop := d.1 + d.2 ≤ e.1 ∨ e.1 + e.2 ≤ d.1

theorem Apart.symm {d e : Nat × Nat} (h : Apart d e) : Apart e d := Or.symm h

def Disjoint (a b : HeapBlock) : Prop := Apart a.extent b.extent

instance : Std.Symm Disjoint := ⟨fun _ _ h => h.symm⟩

end HeapBlock

structure BlockHeap where
  live : List HeapBlock := []
  next : Nat := 0
  freed : List (Option Nat) := []
  deriving DecidableEq, Repr

namespace BlockHeap

def alloc (h : BlockHeap) (base size : Nat) : BlockHeap :=
  { h with live := ⟨base, size, h.next⟩ :: h.live, next := h.next + 1 }

def free (h : BlockHeap) (base : Nat) : BlockHeap :=
  match h.live.find? fun b => b.base = base with
  | some b => { h with live := h.live.erase b, freed := h.freed ++ [some b.serial] }
  | none => { h with freed := h.freed ++ [none] }

/-- Base and size of every live block. -/
def extents (h : BlockHeap) : Finset (Nat × Nat) := (h.live.map HeapBlock.extent).toFinset

/-- The serials of the live blocks, then those of the freed ones. -/
def serials (h : BlockHeap) : List (Option Nat) := h.live.map (fun b => some b.serial) ++ h.freed

structure Wf (h : BlockHeap) : Prop where
  disjoint : h.live.Pairwise HeapBlock.Disjoint
  size_pos : ∀ b ∈ h.live, 0 < b.size
  once : h.serials.Nodup
  old : ∀ n, some n ∈ h.serials → n < h.next
  clean : none ∉ h.freed

theorem Wf.empty : Wf {} :=
  ⟨.nil, by simp, by simp [serials], by simp [serials], by simp⟩

variable {h : BlockHeap}

theorem mem_extents {e : Nat × Nat} : e ∈ h.extents ↔ ∃ b ∈ h.live, b.extent = e := by
  simp [extents]

theorem Wf.live_nodup (hw : h.Wf) : h.live.Nodup := by
  have hserials := (List.nodup_append.mp hw.once).1
  exact hserials.of_map _

/-- Live blocks with one base are one block. -/
theorem Wf.base_inj (hw : h.Wf) {a b : HeapBlock} (ha : a ∈ h.live) (hb : b ∈ h.live)
    (hbase : a.base = b.base) : a = b := by
  by_contra hne
  have hapart := hw.disjoint.forall ha hb hne
  have hpos := hw.size_pos a ha
  have hpos' := hw.size_pos b hb
  simp only [HeapBlock.Disjoint, HeapBlock.Apart, HeapBlock.extent] at hapart
  omega

/-- Two different live extents do not meet. -/
theorem Wf.extents_apart (hw : h.Wf) {d e : Nat × Nat} (hd : d ∈ h.extents) (he : e ∈ h.extents)
    (hne : d ≠ e) : HeapBlock.Apart d e := by
  obtain ⟨a, ha, rfl⟩ := mem_extents.mp hd
  obtain ⟨b, hb, rfl⟩ := mem_extents.mp he
  exact hw.disjoint.forall ha hb fun hab => hne (by rw [hab])

/-- No serial was freed twice. -/
theorem Wf.freed_nodup (hw : h.Wf) : h.freed.Nodup := (List.nodup_append.mp hw.once).2.1

/-! ## `alloc` -/

theorem extents_alloc (base size : Nat) :
    (h.alloc base size).extents = h.extents ∪ {(base, size)} := by
  ext e
  simp only [mem_extents, alloc, List.mem_cons, exists_eq_or_imp, Finset.mem_union,
    Finset.mem_singleton]
  constructor
  · intro he
    rcases he with he | he
    · exact .inr he.symm
    · exact .inl he
  · intro he
    rcases he with he | he
    · exact .inr he
    · exact .inl he.symm

theorem Wf.alloc (hw : h.Wf) {base size : Nat} (hpos : 0 < size)
    (hapart : ∀ e ∈ h.extents, HeapBlock.Apart (base, size) e) : (h.alloc base size).Wf := by
  have hfresh : some h.next ∉ h.serials := fun hmem => absurd (hw.old _ hmem) (Nat.lt_irrefl _)
  refine ⟨?_, ?_, ?_, ?_, hw.clean⟩
  · refine List.pairwise_cons.mpr ⟨?_, hw.disjoint⟩
    intro b hb
    exact hapart b.extent (mem_extents.mpr ⟨b, hb, rfl⟩)
  · intro b hb
    rcases List.mem_cons.mp hb with rfl | hb
    · exact hpos
    · exact hw.size_pos b hb
  · exact List.nodup_cons.mpr ⟨hfresh, hw.once⟩
  · intro n hn
    show n < h.next + 1
    rcases List.mem_cons.mp hn with hn | hn
    · cases hn
      exact Nat.lt_succ_self _
    · exact Nat.lt_succ_of_lt (hw.old n hn)

/-! ## `free` -/

theorem extents_free_subset (h : BlockHeap) (base : Nat) : (h.free base).extents ⊆ h.extents := by
  intro e he
  obtain ⟨b, hb, hext⟩ := mem_extents.mp he
  refine mem_extents.mpr ⟨b, ?_, hext⟩
  unfold free at hb
  split at hb
  · exact List.mem_of_mem_erase hb
  · exact hb

/-- A live extent is found by its base. -/
theorem Wf.free_eq (hw : h.Wf) {base size : Nat} (hmem : (base, size) ∈ h.extents) :
    ∃ b ∈ h.live, b.extent = (base, size) ∧
      h.free base = { h with live := h.live.erase b, freed := h.freed ++ [some b.serial] } := by
  obtain ⟨b, hb, hext⟩ := mem_extents.mp hmem
  have hbase : b.base = base := congrArg Prod.fst hext
  refine ⟨b, hb, hext, ?_⟩
  unfold free
  cases hfind : h.live.find? fun c => c.base = base with
  | none =>
    have hno := List.find?_eq_none.mp hfind b hb
    exact absurd hbase (by simpa using hno)
  | some c =>
    have hc : c.base = base := by simpa using List.find?_some hfind
    have hcb : c = b := hw.base_inj (List.mem_of_find?_eq_some hfind) hb (hc.trans hbase.symm)
    simp only [hcb]

theorem Wf.extents_free (hw : h.Wf) {base size : Nat} (hmem : (base, size) ∈ h.extents) :
    (h.free base).extents = h.extents \ {(base, size)} := by
  obtain ⟨b, hb, hext, heq⟩ := hw.free_eq hmem
  rw [heq]
  ext e
  simp only [mem_extents, hw.live_nodup.mem_erase_iff, Finset.mem_sdiff, Finset.mem_singleton]
  constructor
  · intro he
    obtain ⟨c, ⟨hne, hc⟩, rfl⟩ := he
    refine ⟨⟨c, hc, rfl⟩, ?_⟩
    intro hsame
    exact hne (hw.base_inj hc hb (congrArg Prod.fst (hsame.trans hext.symm)))
  · intro he
    obtain ⟨⟨c, hc, rfl⟩, hne⟩ := he
    exact ⟨c, ⟨fun hcb => hne (by rw [hcb, hext]), hc⟩, rfl⟩

theorem Wf.free (hw : h.Wf) {base size : Nat} (hmem : (base, size) ∈ h.extents) :
    (h.free base).Wf := by
  obtain ⟨b, hb, -, heq⟩ := hw.free_eq hmem
  have hsub : (h.live.erase b).Sublist h.live := List.erase_sublist
  have hperm : (h.free base).serials.Perm h.serials := by
    rw [heq]
    simp only [serials]
    rw [← List.append_assoc]
    refine (List.perm_append_singleton _ _).trans ?_
    rw [← List.cons_append]
    have hlive := (List.perm_cons_erase hb).map fun c => some c.serial
    exact hlive.symm.append_right _
  refine ⟨?_, ?_, hperm.nodup_iff.mpr hw.once, ?_, ?_⟩
  · rw [heq]
    exact hw.disjoint.sublist hsub
  · rw [heq]
    exact fun c hc => hw.size_pos c (hsub.subset hc)
  · intro n hn
    rw [heq]
    exact hw.old n (hperm.mem_iff.mp hn)
  · rw [heq]
    simp only [List.mem_append, List.mem_singleton, reduceCtorEq, or_false]
    exact hw.clean

end BlockHeap
