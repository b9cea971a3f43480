/-
InfiniOps.Ascend.AllocationFailure — the workspace pool when `aclrtMalloc`
may fail.

A failed `aclrtMalloc` leaves its output pointer alone, and the growth goes
on: the arena records the capacity that was asked for next to the buffer
that was just freed, or next to no buffer. `survives_iff` says that a
sequence of calls stays clear of this exactly if every growth gets its
block.
-/
import InfiniOps.Ascend.WorkspacePoolTheorems

namespace InfiniOps.Ascend

/-- A block that `aclrtMalloc` returns is not at the null address. -/
def Malloc.NonNull (m : Malloc) : Prop := ∀ heap n base, m heap n = some base → base ≠ 0

/-- Whenever `aclrtMalloc` succeeds in the call, it returns a block. -/
def EnsureCall.Allocates (c : EnsureCall) : Prop := c.malloc.Fresh ∧ c.malloc.NonNull

namespace WorkspacePool

/-- A pool that a failure has not damaged. -/
structure Survives (p : WorkspacePool) : Prop where
  /-- What an arena advertises is there. -/
  offers : ∀ a ∈ p.arenas, 0 < a.capacity →
    ∃ size, (a.buf, size) ∈ p.heap.extents ∧ a.capacity ≤ size
  /-- Nothing was freed twice or without being a buffer. -/
  frees : none ∉ p.heap.freed ∧ p.heap.freed.Nodup
  /-- Nor will the destructor do so. -/
  destroys : ∀ visits : List (WorkspaceArena × Bool), (visits.map Prod.fst).Perm p.arenas →
    none ∉ (destroy p.heap visits).freed ∧ (destroy p.heap visits).freed.Nodup

/-- The pool after a sequence of calls. -/
def afterCalls (calls : List EnsureCall) : WorkspacePool :=
  calls.foldl (fun p c => (p.ensure c).1) {}

theorem afterCalls_take_succ {calls : List EnsureCall} {k : Nat} (hk : k < calls.length) :
    afterCalls (calls.take (k + 1)) = ((afterCalls (calls.take k)).ensure calls[k]).1 := by
  rw [afterCalls, List.take_succ_eq_append_getElem hk, List.foldl_append]
  rfl

/-! ## One call -/

/-- The invariant: `Sound`, and no block at the null address. -/
structure Solid (p : WorkspacePool) : Prop where
  sound : p.Sound
  nonNull : ∀ e ∈ p.heap.extents, e.1 ≠ 0

theorem Solid.empty : Solid {} := ⟨⟨.empty, .empty⟩, by simp [BlockHeap.extents]⟩

variable {p : WorkspacePool} {c : EnsureCall}

theorem Solid.survives (h : p.Solid) : p.Survives := by
  have hsafe := h.sound.safe
  refine ⟨?_, ⟨hsafe.clean, hsafe.once⟩, ?_⟩
  · intro a ha hcap
    rcases hsafe.backed a ha with ⟨hzero, -⟩ | ⟨-, hmem⟩
    · omega
    · exact ⟨a.capacity, hmem, Nat.le_refl _⟩
  · intro visits hperm
    have hwf := ((h.sound.backed.perm hperm.symm).unvisited).destroy
    exact ⟨hwf.clean, hwf.freed_nodup⟩

theorem extents_freeOld_subset (heap : BlockHeap) (a : WorkspaceArena) :
    (freeOld heap a).extents ⊆ heap.extents := by
  unfold freeOld
  split
  · exact BlockHeap.extents_free_subset heap a.buf
  · exact subset_refl _

/-- A growth adds at most the block that it was given. -/
theorem mem_extents_grow {heap : BlockHeap} {a : WorkspaceArena} {needed : Nat} {malloc : Malloc}
    {e : Nat × Nat} (he : e ∈ (grow heap a needed malloc).1.extents) :
    e ∈ heap.extents ∨ malloc (freeOld heap a) needed = some e.1 := by
  unfold grow at he
  split at he
  · split at he
    · rename_i hbase
      rw [BlockHeap.extents_alloc, Finset.mem_union, Finset.mem_singleton] at he
      rcases he with he | rfl
      · exact .inl (extents_freeOld_subset heap a he)
      · split at hbase
        · exact .inr hbase
        · cases hbase
    · exact .inl (extents_freeOld_subset heap a he)
  · exact .inl he

/-- A call whose growth gets its block. -/
theorem Solid.ensure (h : p.Solid) (hallocates : c.Allocates) (hgrowth : p.GrowthSucceeds c) :
    (p.ensure c).1.Solid := by
  refine ⟨⟨h.sound.indexed.ensure c, h.sound.backed.ensure c hallocates.1 hgrowth⟩, ?_⟩
  cases hfast : p.fastPath c with
  | some i =>
    rw [ensure_of_fast hfast]
    exact h.nonNull
  | none =>
    obtain ⟨arenas, i, -, -, -, heq⟩ := ensure_of_slow_arenaOf hfast
    rw [heq]
    intro e he
    rcases mem_extents_grow he with he | hbase
    · exact h.nonNull e he
    · exact hallocates.2 _ _ _ hbase

/-- After its old buffer is freed there is none at its address. -/
theorem Solid.not_mem_extents_freeOld (h : p.Solid) {a : WorkspaceArena}
    (ha : a ∈ p.arenas ∨ a.buf = 0 ∧ a.capacity = 0) (size : Nat) :
    (a.buf, size) ∉ (freeOld p.heap a).extents := by
  have hwf := h.sound.backed.wf
  by_cases hcap : a.capacity > 0
  · have ha' : a ∈ p.arenas := ha.resolve_right fun hempty => by omega
    have hmem : (a.buf, a.capacity) ∈ p.heap.extents := by
      rcases h.sound.safe.backed a ha' with ⟨hzero, -⟩ | ⟨-, hmem⟩
      · omega
      · exact hmem
    rw [freeOld, if_pos hcap, hwf.extents_free hmem, Finset.mem_sdiff, Finset.mem_singleton]
    rintro ⟨hlive, hne⟩
    -- two live blocks at one address are one
    obtain ⟨b, hb, hbext⟩ := BlockHeap.mem_extents.mp hlive
    obtain ⟨d, hd, hdext⟩ := BlockHeap.mem_extents.mp hmem
    have hbase : b.base = d.base := by
      rw [show b.base = a.buf from congrArg Prod.fst hbext,
        show d.base = a.buf from congrArg Prod.fst hdext]
    rw [hwf.base_inj hb hd hbase, hdext] at hbext
    exact hne hbext.symm
  · have hnull : a.buf = 0 := by
      rcases ha with ha | ha
      · exact h.sound.backed.null a ha (by omega)
      · exact ha.1
    rw [freeOld, if_neg hcap, hnull]
    exact fun hmem => h.nonNull _ hmem rfl

/-- A call whose growth does not get its block leaves an arena that
advertises what it does not have. -/
theorem Solid.not_survives_ensure (h : p.Solid) (hgrowth : ¬ p.GrowthSucceeds c) :
    ¬ (p.ensure c).1.Survives := by
  intro hsurvives
  have hfails := hgrowth
  simp only [GrowthSucceeds, Classical.not_imp, not_exists] at hfails
  obtain ⟨hslow, hlt, hmalloc⟩ := hfails
  obtain ⟨arenas, i, ha, -, hnew, heq⟩ := ensure_of_slow_arenaOf hslow
  obtain ⟨hi, -⟩ := List.getElem?_eq_some_iff.mp ha
  have hgrow := grow_of_fails hlt (Option.eq_none_iff_forall_ne_some.mpr hmalloc)
  rw [heq, hgrow] at hsurvives
  obtain ⟨size, hmem, -⟩ := hsurvives.offers { p.arenaOf c with capacity := c.needed }
    (List.mem_set hi _) (Nat.zero_lt_of_lt hlt)
  refine h.not_mem_extents_freeOld ?_ size hmem
  rcases hnew with hnew | ⟨-, hempty, -⟩
  · exact .inl (hnew ▸ List.mem_of_getElem? ha)
  · rw [hempty]
    exact .inr ⟨rfl, rfl⟩

/-! ## Sequences of calls -/

/-- The pool survives a sequence of calls, in every state on the way,
exactly if every growth gets its block. -/
theorem survives_iff (calls : List EnsureCall) (hallocates : ∀ c ∈ calls, c.Allocates) :
    (∀ k ≤ calls.length, (afterCalls (calls.take k)).Survives) ↔
      ∀ k (hk : k < calls.length), (afterCalls (calls.take k)).GrowthSucceeds calls[k] := by
  constructor
  · intro hsurvives
    have hstep : ∀ k (hk : k < calls.length), (afterCalls (calls.take k)).Solid →
        (afterCalls (calls.take k)).GrowthSucceeds calls[k] := by
      intro k hk hsolid
      by_contra hgrowth
      refine hsolid.not_survives_ensure hgrowth ?_
      rw [← afterCalls_take_succ hk]
      exact hsurvives (k + 1) hk
    have hsolid : ∀ k ≤ calls.length, (afterCalls (calls.take k)).Solid := by
      intro k hk
      induction k with
      | zero => exact .empty
      | succ k ih =>
        rw [afterCalls_take_succ hk]
        exact (ih (Nat.le_of_lt hk)).ensure (hallocates _ (List.getElem_mem hk))
          (hstep k hk (ih (Nat.le_of_lt hk)))
    exact fun k hk => hstep k hk (hsolid k (Nat.le_of_lt hk))
  · intro hgrowth k hk
    refine Solid.survives ?_
    induction k with
    | zero => exact .empty
    | succ k ih =>
      rw [afterCalls_take_succ hk]
      exact (ih (Nat.le_of_lt hk)).ensure (hallocates _ (List.getElem_mem hk)) (hgrowth k hk)

end WorkspacePool

/-! ## A device that runs out -/

open WorkspacePool

theorem Malloc.bump_nonNull : Malloc.bump.NonNull := by
  intro heap n base hbase
  cases hbase
  exact Nat.succ_ne_zero _

/-- Two growths of one arena. -/
theorem survives_grownTemp : (afterCalls [GrownTemp.small, GrownTemp.large]).Survives := by
  have hbump : ∀ c ∈ [GrownTemp.small, GrownTemp.large], c.malloc = .bump := by
    simp [GrownTemp.small, GrownTemp.large]
  have hallocates : ∀ c ∈ [GrownTemp.small, GrownTemp.large], c.Allocates := by
    intro c hc
    rw [EnsureCall.Allocates, hbump c hc]
    exact ⟨Malloc.bump_fresh, Malloc.bump_nonNull⟩
  refine (survives_iff _ hallocates).mpr ?_ 2 (Nat.le_refl 2)
  intro k hk _ _
  rw [hbump _ (List.getElem_mem hk)]
  exact Malloc.bump_succeeds _ _

/-- `bump` for at most 64 bytes. -/
def Malloc.small : Malloc := fun heap n => if n ≤ 64 then Malloc.bump heap n else none

theorem Malloc.small_eq_some {heap : BlockHeap} {n base : Nat}
    (h : Malloc.small heap n = some base) : Malloc.bump heap n = some base := by
  unfold Malloc.small at h
  split at h
  · exact h
  · cases h

/-- The arena of a slot grows to 64, 128 and 256 bytes. -/
def failedGrowth : List EnsureCall :=
  [64, 128, 256].map fun needed => ⟨0, 7, needed, ⟨100, "workspace"⟩, .small⟩

/-- The second call leaves the arena with a freed buffer under the new
capacity. -/
example :
    (afterCalls (failedGrowth.take 2)).arenas = [⟨⟨7, "workspace"⟩, 1, 128⟩] ∧
      (afterCalls (failedGrowth.take 2)).heap.extents = ∅ := by
  decide +kernel

/-- The third call frees that buffer once more. -/
theorem failedGrowth_frees_twice :
    (∀ c ∈ failedGrowth, c.Allocates) ∧ none ∈ (afterCalls failedGrowth).heap.freed ∧
      ¬ (afterCalls failedGrowth).Survives := by
  have hfreed : none ∈ (afterCalls failedGrowth).heap.freed := by decide +kernel
  refine ⟨?_, hfreed, fun h => h.frees.1 hfreed⟩
  intro c hc
  obtain ⟨needed, -, rfl⟩ := List.mem_map.mp hc
  exact ⟨fun heap n base hbase => Malloc.bump_fresh heap n base (Malloc.small_eq_some hbase),
    fun heap n base hbase => Malloc.bump_nonNull heap n base (Malloc.small_eq_some hbase)⟩

end InfiniOps.Ascend
