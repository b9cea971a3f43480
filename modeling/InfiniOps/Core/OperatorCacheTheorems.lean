/-
InfiniOps.Core.OperatorCacheTheorems — invalidation is effective.

Clearing a cache at its next use makes no difference to clearing all
caches at once: `Refines` takes a cache of another generation for an empty
one. Generations do not come back while there are fewer than 2^64
invalidations (`Refines.clearCache`), so every run of the code is a run of
the tables that are cleared together, and logs what its actions ask for
(`Refines.run`).
-/
import InfiniOps.Core.CacheKeyTheorems
import InfiniOps.Core.OperatorCache
import Mathlib.Algebra.Group.Nat.Defs

namespace InfiniOps

/-! ## Keys -/

/-- All that keys see of a tensor. -/
def Tensor.metadata (t : Tensor) : List Nat × DataType × Device × List Int :=
  (t.shape, t.dtype, t.device, t.strides)

theorem forall₂_sameMeta_iff {xs ys : List Tensor} :
    List.Forall₂ Tensor.SameMeta xs ys ↔ xs.map Tensor.metadata = ys.map Tensor.metadata := by
  rw [← List.forall₂_eq_eq_eq, List.forall₂_map_left_iff, List.forall₂_map_right_iff]
  simp only [Tensor.metadata, Prod.mk.injEq]
  rfl

theorem CacheKey.sameEntry_iff (a b : CacheKey) :
    SameEntry a b ↔ a.hash = b.hash ∧ a.scalarHash = b.scalarHash ∧
      a.tensors.map Tensor.metadata = b.tensors.map Tensor.metadata := by
  rw [SameEntry, equalTo_iff, forall₂_sameMeta_iff]

theorem CacheKey.equivalence_sameEntry : Equivalence CacheKey.SameEntry where
  refl key := (sameEntry_iff key key).mpr ⟨rfl, rfl, rfl⟩
  symm h := by
    obtain ⟨hhash, hscalar, htensors⟩ := (sameEntry_iff _ _).mp h
    exact (sameEntry_iff _ _).mpr ⟨hhash.symm, hscalar.symm, htensors.symm⟩
  trans h h' := by
    obtain ⟨hhash, hscalar, htensors⟩ := (sameEntry_iff _ _).mp h
    obtain ⟨hhash', hscalar', htensors'⟩ := (sameEntry_iff _ _).mp h'
    exact (sameEntry_iff _ _).mpr
      ⟨hhash.trans hhash', hscalar.trans hscalar', htensors.trans htensors'⟩

namespace OperatorCache

open History MemoTables

variable {Thread Instance : Type} {s : State Thread Instance}
  {x : Tables (Thread × Instance) CacheKey}

/-- The tables of all threads and instantiations. A cache that was last used
in another generation counts as empty. -/
structure Refines (s : State Thread Instance) (x : Tables (Thread × Instance) CacheKey) :
    Prop where
  next : x.next = s.nextOperator
  table : ∀ owner, x.table owner =
    if (s.caches owner).generation = s.cacheGeneration then (s.caches owner).cache else []
  past : ∀ owner, (s.caches owner).generation.toNat ≤ s.cacheGeneration.toNat

theorem refines_start : Refines (.start : State Thread Instance) .empty where
  next := rfl
  table owner := by simp [State.start, Tables.empty]
  past owner := Nat.le_refl _

theorem toNat_succ {g : SizeT} (h : g.toNat + 1 < 2 ^ 64) : (g + 1).toNat = g.toNat + 1 := by
  rw [BitVec.toNat_add]
  exact Nat.mod_eq_of_lt h

/-- The next generation is not one that a cache was used in. -/
theorem Refines.clearCache (h : Refines s x) (hlt : s.cacheGeneration.toNat + 1 < 2 ^ 64) :
    Refines s.clearCache { x with table := fun _ => [] } := by
  have hnext := toNat_succ hlt
  refine ⟨h.next, fun owner => (if_neg fun heq => ?_).symm, fun owner => ?_⟩
  · have hpast := h.past owner
    have hgen : (s.caches owner).generation.toNat = (s.cacheGeneration + 1).toNat :=
      congrArg BitVec.toNat heq
    omega
  · have hpast := h.past owner
    show (s.caches owner).generation.toNat ≤ (s.cacheGeneration + 1).toNat
    omega

/-- What a call works on, after it has looked at the generation. -/
theorem Refines.cleared_eq (h : Refines s x) (owner : Thread × Instance) :
    (if (s.caches owner).generation ≠ s.cacheGeneration then ⟨[], s.cacheGeneration⟩
      else s.caches owner) = LocalCache.mk (x.table owner) s.cacheGeneration := by
  rw [h.table]
  by_cases heq : (s.caches owner).generation = s.cacheGeneration
  · rw [if_neg (not_not.mpr heq), if_pos heq, ← heq]
  · rw [if_pos heq, if_neg heq]

section Runs

variable [DecidableEq Thread] [DecidableEq Instance] {types : Instance → List ArgTy} {H : StdHash}

/-- A call leaves a cache of the present generation. -/
theorem Refines.update (h : Refines s x) (owner : Thread × Instance)
    (cache : List (CacheKey × Nat)) (next : Nat) (log : List (Event (Thread × Instance) CacheKey)) :
    Refines
      { s with
        caches := Function.update s.caches owner ⟨cache, s.cacheGeneration⟩
        nextOperator := next
        log := log }
      { table := Function.update x.table owner cache, next := next } := by
  refine ⟨rfl, fun other => ?_, fun other => ?_⟩
  · by_cases heq : other = owner
    · subst heq
      simp
    · simpa [heq] using h.table other
  · by_cases heq : other = owner
    · subst heq
      simp
    · simpa [heq] using h.past other

/-- Looking at the generation leaves the tables as they are. -/
theorem Refines.kept (h : Refines s x) (owner : Thread × Instance)
    (log : List (Event (Thread × Instance) CacheKey)) :
    Refines
      { s with
        caches := Function.update s.caches owner ⟨x.table owner, s.cacheGeneration⟩
        log := log } x := by
  have hupdate := h.update owner (x.table owner) s.nextOperator log
  rw [Function.update_eq_self] at hupdate
  exact ⟨h.next, hupdate.table, hupdate.past⟩

/-- A call, in terms of the tables. -/
theorem Refines.call_eq (h : Refines s x) (thread : Thread) (inst : Instance) (config : Config)
    (args : Args (types inst)) (constructs : Bool) :
    s.call types H thread inst config args constructs =
      match find CacheKey.SameEntry (x.table (thread, inst)) (CacheKey.build H config args) with
      | some op =>
        { s with
          caches := Function.update s.caches (thread, inst)
            ⟨x.table (thread, inst), s.cacheGeneration⟩
          log := s.log ++ [.used (thread, inst) (CacheKey.build H config args) op] }
      | none =>
        if constructs then
          { s with
            caches := Function.update s.caches (thread, inst)
              ⟨x.table (thread, inst) ++ [(CacheKey.build H config args, s.nextOperator)],
                s.cacheGeneration⟩
            nextOperator := s.nextOperator + 1
            log := s.log ++ [.made (thread, inst) (CacheKey.build H config args) s.nextOperator,
              .used (thread, inst) (CacheKey.build H config args) s.nextOperator] }
        else
          { s with
            caches := Function.update s.caches (thread, inst)
              ⟨x.table (thread, inst), s.cacheGeneration⟩ } := by
  unfold State.call
  cases hfind : find CacheKey.SameEntry (x.table (thread, inst)) (CacheKey.build H config args) with
  | some op => simp only [h.cleared_eq, hfind]
  | none => simp only [h.cleared_eq, hfind]

/-- A call is a run of the tables, and logs what was called. -/
theorem Refines.call (h : Refines s x) (hinv : Inv CacheKey.SameEntry x s.log) (thread : Thread)
    (inst : Instance) (config : Config) (args : Args (types inst)) (constructs : Bool) :
    ∃ events y, (tables CacheKey.SameEntry).Run x events y ∧
      (s.call types H thread inst config args constructs).log = s.log ++ events ∧
      Refines (s.call types H thread inst config args constructs) y ∧
      (s.call types H thread inst config args constructs).cacheGeneration = s.cacheGeneration ∧
      Logs types H s.log (.call thread inst config args constructs) events := by
  rw [h.call_eq]
  cases hfind : find CacheKey.SameEntry (x.table (thread, inst))
      (CacheKey.build H config args) with
  | some op =>
    exact ⟨_, x, .cons (.use _ _ op hfind) (.nil x), rfl, h.kept _ _, rfl, .used ..⟩
  | none =>
    cases constructs with
    | true =>
      have hmade := find_concat hfind (CacheKey.equivalence_sameEntry.refl _) s.nextOperator
      rw [← h.next] at hmade ⊢
      refine ⟨_, _, .cons (.make _ _ hfind) (.cons (.use _ _ x.next ?_) (.nil _)), rfl,
        h.update _ _ _ _, rfl, .made ..⟩
      simpa using hmade
    | false =>
      refine ⟨[], x, .nil x, (List.append_nil _).symm, h.kept _ s.log, rfl, .failed _ _ _ _ ?_⟩
      intro early late key op hlog hsame
      refine (hinv.kept _ key op early late hlog).resolve_right fun hkept => ?_
      rw [find_congr CacheKey.equivalence_sameEntry hsame, hfind] at hkept
      cases hkept

/-- Every run of the code is one of the tables, and logs its actions. -/
theorem Refines.run (h : Refines s x) (hinv : Inv CacheKey.SameEntry x s.log)
    (actions : List (Action Thread types))
    (hlt : s.cacheGeneration.toNat + clears types actions < 2 ^ 64) :
    ∃ events y, (tables CacheKey.SameEntry).Run x events y ∧
      (actions.foldl (step types H) s).log = s.log ++ events ∧
      LogOf types H s.log actions events := by
  induction actions generalizing s x with
  | nil => exact ⟨[], x, .nil x, (List.append_nil _).symm, rfl⟩
  | cons action actions ih =>
    cases action with
    | clearCache =>
      rw [clears] at hlt
      have hone : s.cacheGeneration.toNat + 1 < 2 ^ 64 := by omega
      have hrest : s.clearCache.cacheGeneration.toNat + clears types actions < 2 ^ 64 := by
        rw [State.clearCache, toNat_succ hone]
        omega
      obtain ⟨events, y, hrun, hlog, hlogs⟩ := ih (h.clearCache hone) hinv.clear hrest
      refine ⟨.cleared :: events, y, .cons .clear hrun, ?_,
        [.cleared], events, rfl, .clearCache, hlogs⟩
      rw [List.foldl_cons, step, hlog, State.clearCache, List.append_assoc]
      rfl
    | call thread inst config args constructs =>
      obtain ⟨events, y, hrun, hlog, hy, hgen, hcalled⟩ :=
        h.call (H := H) hinv thread inst config args constructs
      have hinv' := hinv.run CacheKey.equivalence_sameEntry hrun
      rw [← hlog] at hinv'
      obtain ⟨events', z, hrun', hlog', hlogs⟩ := ih hy hinv' (by rw [hgen]; exact hlt)
      refine ⟨events ++ events', z, hrun.append hrun', ?_,
        events, events', rfl, hcalled, hlog ▸ hlogs⟩
      rw [List.foldl_cons, step, hlog', hlog, List.append_assoc]

/-- With fewer than 2^64 invalidations a run logs what its actions ask for,
and no call executes an operator that was constructed before one of them;
calls on one thread and instantiation execute the operator of their key,
constructed once since the last one. -/
theorem invalidation_effective (H : StdHash) (types : Instance → List ArgTy)
    (actions : List (Action Thread types)) (h : clears types actions < 2 ^ 64) :
    LogOf types H [] actions (run types H actions).log ∧
      Obeys (Rule CacheKey.SameEntry) (run types H actions).log := by
  have hlt : (0 : SizeT).toNat + clears types actions < 2 ^ 64 := by simpa using h
  obtain ⟨events, y, hrun, hlog, hlogs⟩ := refines_start.run (H := H) inv_empty actions hlt
  have hinv := inv_empty.run CacheKey.equivalence_sameEntry hrun
  rw [run, hlog]
  exact ⟨hlogs, hinv.obeys⟩

end Runs

/-- Two threads with one instantiation each, for one tensor; the first calls
before and twice after an invalidation. -/
def callsOfTwoThreads : List (Action Bool fun _ : Unit => [.tensor]) :=
  let args : Args [.tensor] := .cons { data := 64, shape := [4], strides := [1] } .nil
  [.call false () {} args true, .clearCache, .call false () {} args true,
    .call true () {} args true, .call false () {} args true]

def wideHash : StdHash where
  ofFloat := BitVec.setWidth 64
  ofDouble := id
  ofNullopt := 0

theorem invalidation_effective_twoThreads :
    (LogOf (fun _ => [.tensor]) wideHash [] callsOfTwoThreads
        (run (fun _ => [.tensor]) wideHash callsOfTwoThreads).log ∧
      Obeys (Rule CacheKey.SameEntry)
        (run (fun _ => [.tensor]) wideHash callsOfTwoThreads).log) ∧
    (run (fun _ => [.tensor]) wideHash callsOfTwoThreads).log.map (fun
        | .cleared => none
        | .made _ _ op => some op
        | .used _ _ op => some op)
      = [some 0, some 0, none, some 1, some 1, some 2, some 2, some 1] :=
  ⟨invalidation_effective wideHash _ callsOfTwoThreads (by decide), by decide⟩

end OperatorCache

end InfiniOps
