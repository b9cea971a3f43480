/-
InfiniOps.Ascend.WarmUp — when one eager pass prepares the workspace pool
for graph capture.

Seen from one thread the pool is a `FifoCache` with `kCacheSize` places: the
cached keys are those of the thread's entries, and the size of a resource
is the capacity of its arena (`ensure_view`). A call takes the fast path
exactly when it is a hit (`fastPath_isSome_iff`). So a warm-up suffices if
and only if every (stream, slot) pair it uses is among the last four that
missed in it (`warmUp_suffices_iff`); it does whenever a new thread asks
for at most four pairs, each always with one size
(`warmUp_suffices_of_steady`), and never with more
(`warmUp_fails_of_many`). The latter is what `TopKTopPSampler` does on its
own: one call asks for six (`TopKTopPSampler.warmUp_fails`).
-/
import InfiniOps.Core.DataType
import InfiniOps.Ascend.WorkspacePoolTheorems
import InfiniOps.Lib.Fifo

namespace InfiniOps.Ascend

namespace WorkspacePool

/-- A sequence of calls. -/
def runCalls (p : WorkspacePool) (cs : List EnsureCall) : WorkspacePool :=
  cs.foldl (fun p c => (p.ensure c).1) p

/-- No call of the sequence reaches the slow path. -/
def AllFast : WorkspacePool → List EnsureCall → Prop
  | _, [] => True
  | p, c :: cs => (p.fastPath c).isSome = true ∧ AllFast (p.ensure c).1 cs

/-- The capacity of the arena of a pair; 0 if there is none. -/
def capacityOf (p : WorkspacePool) (key : SlotKey) : Nat :=
  ((p.arenas.find? fun a => a.key = key).map WorkspaceArena.capacity).getD 0

/-- The pool as one thread sees it. -/
def view (p : WorkspacePool) (t : Nat) : FifoCache SlotKey where
  recent := (p.caches t).map CacheEntry.key
  peak := p.capacityOf

end WorkspacePool

def EnsureCall.request (c : EnsureCall) : FifoRequest SlotKey := ⟨c.key, c.needed⟩

/-! ## The requests of `TopKTopPSampler` -/

/-- `Operator<TopKTopPSampler, kAscend, 0>`, as far as its requests depend
on it, with the workspace sizes that ACLNN reported. -/
structure TopKTopPSampler where
  batchSize : Nat
  vocabSize : Nat
  dtype : DataType
  sampleWsSize : Nat
  castWsSize : Nat

/-- The requests of one `operator()`, in order. -/
def TopKTopPSampler.requests (op : TopKTopPSampler) (thread : Nat) (stream : Stream)
    (literal : String → CString) (malloc : Malloc) : List EnsureCall :=
  [⟨thread, stream, op.batchSize * kDataTypeToSize .kInt32, literal "top_k_top_p_sample_top_k",
      malloc⟩,
   ⟨thread, stream, op.batchSize * kDataTypeToSize op.dtype, literal "top_k_top_p_sample_top_p",
      malloc⟩,
   ⟨thread, stream, op.batchSize * kDataTypeToSize .kInt64, literal "top_k_top_p_sample_idx",
      malloc⟩,
   ⟨thread, stream, op.batchSize * op.vocabSize * kDataTypeToSize .kFloat32,
      literal "top_k_top_p_sample_logits", malloc⟩,
   ⟨thread, stream, op.sampleWsSize, literal "top_k_top_p_sample_workspace", malloc⟩,
   ⟨thread, stream, op.castWsSize, literal "top_k_top_p_sample_cast_workspace", malloc⟩]

namespace WorkspacePool

/-! ## Capacities -/

theorem Indexed.capacityOf_eq {p : WorkspacePool} (h : p.Indexed) {i : Nat} {a : WorkspaceArena}
    (ha : p.arenas[i]? = some a) : p.capacityOf a.key = a.capacity := by
  rw [capacityOf, h.find?_eq ha]
  rfl

theorem capacityOf_of_notMem {p : WorkspacePool} {key : SlotKey}
    (h : ∀ a ∈ p.arenas, a.key ≠ key) : p.capacityOf key = 0 := by
  have hfind : (p.arenas.find? fun a => a.key = key) = none :=
    List.find?_eq_none.mpr fun a ha => by simpa using h a ha
  rw [capacityOf, hfind]
  rfl

/-- A call creates at most the arena of its own pair. -/
theorem mem_ensure_arenas {p : WorkspacePool} {c : EnsureCall} {b : WorkspaceArena}
    (hb : b ∈ (p.ensure c).1.arenas) : b.key = c.key ∨ ∃ a ∈ p.arenas, a.key = b.key := by
  cases hfast : p.fastPath c with
  | some i =>
    rw [ensure_of_fast hfast] at hb
    exact .inr ⟨b, hb, rfl⟩
  | none =>
    obtain ⟨arenas, i, a, -, hkey, hnew, heq⟩ := ensure_of_slow hfast
    rw [heq] at hb
    rcases List.mem_or_eq_of_mem_set hb with hb | rfl
    · rcases hnew with hnew | ⟨hnew, -⟩
      · exact .inr ⟨b, hnew ▸ hb, rfl⟩
      · rw [hnew, List.mem_append, List.mem_singleton] at hb
        rcases hb with hb | rfl
        · exact .inr ⟨b, hb, rfl⟩
        · exact .inl hkey
    · exact .inl ((grow_key _ _ _ _).trans hkey)

/-- A slow call makes the arena of its pair large enough, and no other
arena changes. -/
theorem Indexed.capacityOf_ensure {p : WorkspacePool} (h : p.Indexed) {c : EnsureCall}
    (hslow : p.fastPath c = none) :
    (p.ensure c).1.capacityOf =
      Function.update p.capacityOf c.key (max (p.capacityOf c.key) c.needed) := by
  funext key
  by_cases hkey : key = c.key
  · subst hkey
    rw [Function.update_self]
    obtain ⟨arenas, i, a, ha, hakey, hnew, heq⟩ := ensure_of_slow hslow
    have hbefore : a.capacity = p.capacityOf c.key := by
      rcases hnew with hnew | ⟨-, hempty, hfresh⟩
      · rw [hnew] at ha
        rw [← hakey, h.capacityOf_eq ha]
      · rw [capacityOf_of_notMem hfresh, hempty]
    obtain ⟨hi, -⟩ := List.getElem?_eq_some_iff.mp ha
    have hafter : (p.ensure c).1.arenas[i]? = some (grow p.heap a c.needed c.malloc).2 := by
      rw [heq]
      exact List.getElem?_set_self hi
    have hcap := (h.ensure c).capacityOf_eq hafter
    rw [grow_key, hakey, grow_capacity, hbefore] at hcap
    exact hcap
  · rw [Function.update_of_ne hkey]
    by_cases hmem : ∃ a ∈ p.arenas, a.key = key
    · obtain ⟨a, ha, rfl⟩ := hmem
      obtain ⟨j, hj⟩ := List.getElem?_of_mem ha
      obtain ⟨b, hb, hbkey, -, hsame⟩ := ensure_frame p c hj
      rw [h.capacityOf_eq hj, ← hbkey, (h.ensure c).capacityOf_eq hb, hsame hkey]
    · have hnone : ∀ a ∈ p.arenas, a.key ≠ key := fun a ha hak => hmem ⟨a, ha, hak⟩
      rw [capacityOf_of_notMem hnone, capacityOf_of_notMem]
      intro b hb hbkey
      rcases mem_ensure_arenas hb with hc | ⟨a, ha, hak⟩
      · exact hkey (hbkey.symm.trans hc)
      · exact hnone a ha (hak.trans hbkey)

/-! ## The pool is a `FifoCache` -/

theorem Indexed.fastPath_isSome_iff {p : WorkspacePool} (h : p.Indexed) (c : EnsureCall) :
    (p.fastPath c).isSome = true ↔ (p.view c.thread).Hit c.request := by
  constructor
  · intro hsome
    obtain ⟨i, hfast⟩ := Option.isSome_iff_exists.mp hsome
    obtain ⟨e, he, hkey, rfl, a, ha, hroom⟩ := fastPath_spec hfast
    have hakey := h.caches c.thread e he
    rw [ha, Option.map_some, Option.some.injEq, hkey] at hakey
    refine ⟨List.mem_map.mpr ⟨e, he, hkey⟩, ?_⟩
    show c.needed ≤ p.capacityOf c.key
    rw [← hakey, h.capacityOf_eq ha]
    exact hroom
  · intro hhit
    obtain ⟨hmem, hroom⟩ := hhit
    obtain ⟨e, he, hkey⟩ := List.mem_map.mp hmem
    have hkey : e.key = c.key := hkey
    have hroom : c.needed ≤ p.capacityOf c.key := hroom
    obtain ⟨a, ha, hakey⟩ := Option.map_eq_some_iff.mp (h.caches c.thread e he)
    rw [← hkey, ← hakey, h.capacityOf_eq ha] at hroom
    have hserves : p.serves c e = true := by
      obtain ⟨hstream, hslot⟩ := SlotKey.mk.inj hkey
      simp [serves, hstream, hslot, ha, hroom]
    rw [fastPath, Option.isSome_map, List.find?_isSome]
    exact ⟨e, he, hserves⟩

theorem Indexed.ensure_view {p : WorkspacePool} (h : p.Indexed) (c : EnsureCall) :
    (p.ensure c).1.view c.thread = (p.view c.thread).step kCacheSize c.request := by
  cases hfast : p.fastPath c with
  | some i =>
    have hhit := (h.fastPath_isSome_iff c).mp (by rw [hfast]; rfl)
    rw [ensure_of_fast hfast, FifoCache.step_of_hit hhit]
  | none =>
    have hmiss : ¬ (p.view c.thread).Hit c.request := by
      rw [← h.fastPath_isSome_iff c, hfast]
      simp
    have hcap := h.capacityOf_ensure hfast
    obtain ⟨arenas, i, a, -, -, -, heq⟩ := ensure_of_slow hfast
    have hrecent : ((p.ensure c).1.caches c.thread).map CacheEntry.key =
        (c.key :: (p.caches c.thread).map CacheEntry.key).take kCacheSize := by
      rw [heq]
      show (Function.update p.caches c.thread _ c.thread).map CacheEntry.key = _
      rw [Function.update_self, insertEntry, List.map_take, List.map_cons]
      rfl
    rw [FifoCache.step_of_miss hmiss, view, hrecent, hcap]
    rfl

/-- The calls of one thread, one after another. -/
theorem Indexed.runCalls_view {p : WorkspacePool} (h : p.Indexed) {t : Nat} {cs : List EnsureCall}
    (hcs : ∀ c ∈ cs, c.thread = t) :
    (p.runCalls cs).Indexed ∧
      (p.runCalls cs).view t = (p.view t).run kCacheSize (cs.map EnsureCall.request) := by
  induction cs generalizing p with
  | nil => exact ⟨h, rfl⟩
  | cons c cs ih =>
    have hc : c.thread = t := hcs c (by simp)
    obtain ⟨hindexed, hview⟩ := ih (h.ensure c) fun d hd => hcs d (by simp [hd])
    refine ⟨hindexed, ?_⟩
    show ((p.ensure c).1.runCalls cs).view t = _
    subst hc
    rw [hview, h.ensure_view]
    rfl

theorem Indexed.allFast_iff {p : WorkspacePool} (h : p.Indexed) {t : Nat} {cs : List EnsureCall}
    (hcs : ∀ c ∈ cs, c.thread = t) :
    p.AllFast cs ↔ FifoCache.AllHit kCacheSize (p.view t) (cs.map EnsureCall.request) := by
  induction cs generalizing p with
  | nil => exact Iff.rfl
  | cons c cs ih =>
    have hc : c.thread = t := hcs c (by simp)
    subst hc
    simp only [AllFast, List.map_cons, FifoCache.AllHit]
    rw [h.fastPath_isSome_iff, ih (h.ensure c) fun d hd => hcs d (by simp [hd]), h.ensure_view]

/-- A cache never holds more than its entries. -/
theorem length_caches {p : WorkspacePool} (h : poolLts.Reachable p) (t : Nat) :
    (p.caches t).length ≤ kCacheSize := by
  refine h.invariant (P := fun p => ∀ t, (p.caches t).length ≤ kCacheSize) ?_ ?_ t
  · intro p hinit t
    cases hinit
    exact Nat.zero_le _
  · intro p op q hp hstep t
    obtain ⟨-, rfl⟩ := hstep
    cases op with
    | setCaptureMode capturing => exact hp t
    | ensure c =>
      show ((p.ensure c).1.caches t).length ≤ _
      cases hfast : p.fastPath c with
      | some i =>
        rw [ensure_of_fast hfast]
        exact hp t
      | none =>
        obtain ⟨arenas, i, a, -, -, -, heq⟩ := ensure_of_slow hfast
        rw [heq]
        show (Function.update p.caches c.thread _ t).length ≤ _
        by_cases ht : t = c.thread
        · subst ht
          rw [Function.update_self]
          exact List.length_take_le _ _
        · rw [Function.update_of_ne ht]
          exact hp t

theorem length_recent_view {p : WorkspacePool} (h : poolLts.Reachable p) (t : Nat) :
    (p.view t).recent.length ≤ kCacheSize := by
  show ((p.caches t).map CacheEntry.key).length ≤ kCacheSize
  rw [List.length_map]
  exact length_caches h t

/-! ## A warm-up and a second pass -/

/-- `W` once with capture off, then again with capture on: no request of
the second pass reaches the slow path. -/
def WarmUpSuffices (p : WorkspacePool) (W : List EnsureCall) : Prop :=
  (((p.setCaptureMode false).runCalls W).setCaptureMode true).AllFast W

/-- Every pair of `W` is among the last four that miss when `W` first
runs, the cache as it is before counting as earlier misses. A request
misses if it is larger than its arena or its pair is not among the last
four misses. -/
def RecentlyMissed (p : WorkspacePool) (t : Nat) (W : List EnsureCall) : Prop :=
  ∀ c ∈ W, c.key ∈ ((FifoCache.misses kCacheSize (p.view t) (W.map EnsureCall.request)).reverse ++
    (p.caches t).map CacheEntry.key).take kCacheSize

theorem Indexed.setCaptureMode {p : WorkspacePool} (h : p.Indexed) (capturing : Bool) :
    (p.setCaptureMode capturing).Indexed := ⟨h.keys, h.caches⟩

/-- The second pass against the abstract cache. -/
theorem Indexed.warmUp_iff {p : WorkspacePool} (h : p.Indexed) {t : Nat} {W : List EnsureCall}
    (hW : ∀ c ∈ W, c.thread = t) :
    p.WarmUpSuffices W ↔
      FifoCache.AllHit kCacheSize ((p.view t).run kCacheSize (W.map EnsureCall.request))
        (W.map EnsureCall.request) := by
  obtain ⟨hindexed, hview⟩ := (h.setCaptureMode false).runCalls_view hW
  unfold WarmUpSuffices
  rw [(hindexed.setCaptureMode true).allFast_iff hW]
  have hstart : (p.setCaptureMode false).view t = p.view t := rfl
  rw [hstart] at hview
  rw [← hview]
  rfl

/-- One warm-up suffices if and only if every pair it uses is among the
last four that missed in it. -/
theorem warmUp_suffices_iff (p : WorkspacePool) (h : poolLts.Reachable p) (t : Nat)
    (W : List EnsureCall) (hW : ∀ c ∈ W, c.thread = t) :
    p.WarmUpSuffices W ↔ p.RecentlyMissed t W := by
  rw [(sound_of_reachable h).indexed.warmUp_iff hW, FifoCache.allHit_run_iff _ (length_recent_view h t)]
  simp only [List.forall_mem_map]
  rfl

namespace TwoSlots

/-- What an operator with a scratch buffer and a workspace asks for. -/
def calls : List EnsureCall :=
  [⟨0, 7, 64, ⟨100, "temp"⟩, .bump⟩, ⟨0, 7, 32, ⟨200, "workspace"⟩, .bump⟩]

end TwoSlots

open TwoSlots in
theorem warmUp_suffices_twoSlots : ({} : WorkspacePool).WarmUpSuffices calls := by
  refine (warmUp_suffices_iff {} (.init rfl) 0 calls (by simp [calls])).mpr ?_
  intro c hc
  have hkey : c.key = ⟨7, "temp"⟩ ∨ c.key = ⟨7, "workspace"⟩ := by
    simp only [calls, List.mem_cons, List.not_mem_nil, or_false] at hc
    rcases hc with rfl | rfl
    · exact .inl rfl
    · exact .inr rfl
  rcases hkey with hkey | hkey
  · rw [hkey]
    decide +kernel
  · rw [hkey]
    decide +kernel

namespace SixSlots

/-- One call of `TopKTopPSampler` on two rows of a vocabulary of eight. -/
def calls : List EnsureCall :=
  ({ batchSize := 2, vocabSize := 8, dtype := .kFloat16, sampleWsSize := 32, castWsSize := 0 } :
    TopKTopPSampler).requests 0 7 (fun text => ⟨100, text⟩) .bump

end SixSlots

open SixSlots in
/-- After the warm-up the first request already fails the assertion. -/
theorem warmUp_fails_sixSlots :
    (∀ c ∈ calls, c.thread = 0 ∧ c.malloc.Fresh ∧ c.malloc.Succeeds) ∧
      ¬ ({} : WorkspacePool).WarmUpSuffices calls ∧
      ∀ c ∈ calls.head?,
        ((({} : WorkspacePool).runCalls calls).setCaptureMode true).captureAssert c = false := by
  have hslow : ∀ c ∈ calls.head?,
      ((({} : WorkspacePool).runCalls calls).setCaptureMode true).fastPath c = none := by
    decide +kernel
  refine ⟨by simp [calls, TopKTopPSampler.requests, Malloc.bump_fresh, Malloc.bump_succeeds], ?_, ?_⟩
  · intro hsuffices
    have hfast := hsuffices.1
    rw [show ((({} : WorkspacePool).setCaptureMode false).runCalls calls) =
      ({} : WorkspacePool).runCalls calls from rfl, hslow _ rfl] at hfast
    cases hfast
  · intro c hc
    simp only [captureAssert, hslow c hc]
    rfl

/-- Fast calls leave the pool as it is; in particular they allocate
nothing, and the capture assertion holds at each. -/
theorem AllFast.runCalls_eq {p : WorkspacePool} {cs : List EnsureCall} (h : p.AllFast cs) :
    p.runCalls cs = p ∧ ∀ c ∈ cs, p.captureAssert c = true := by
  induction cs generalizing p with
  | nil => exact ⟨rfl, by simp⟩
  | cons c cs ih =>
    obtain ⟨hfast, hrest⟩ := h
    obtain ⟨i, hi⟩ := Option.isSome_iff_exists.mp hfast
    rw [ensure_of_fast hi] at hrest
    obtain ⟨hrun, hassert⟩ := ih hrest
    refine ⟨?_, ?_⟩
    · show (p.ensure c).1.runCalls cs = p
      rw [ensure_of_fast hi]
      exact hrun
    · intro d hd
      rcases List.mem_cons.mp hd with rfl | hd
      · simp [captureAssert, hfast]
      · exact hassert d hd

/-- No warm-up prepares more than four pairs. -/
theorem warmUp_fails_of_many {p : WorkspacePool} (h : poolLts.Reachable p) {t : Nat}
    {W : List EnsureCall} (hW : ∀ c ∈ W, c.thread = t)
    (hmany : kCacheSize < (W.map EnsureCall.key).toFinset.card) : ¬ p.WarmUpSuffices W := by
  intro hsuffices
  rw [(sound_of_reachable h).indexed.warmUp_iff hW] at hsuffices
  have hcard := FifoCache.card_le_of_allHit (length_recent_view h t) hsuffices
  rw [List.map_map] at hcard
  exact absurd hmany (Nat.not_lt.mpr hcard)

/-- A thread that has not used the pool, at most four pairs, and one size
for each. -/
theorem warmUp_suffices_of_steady {p : WorkspacePool} (h : poolLts.Reachable p) {t : Nat}
    {W : List EnsureCall} (hW : ∀ c ∈ W, c.thread = t) (hnew : p.caches t = [])
    (hsteady : ∀ c ∈ W, ∀ d ∈ W, c.key = d.key → c.needed = d.needed)
    (hfew : (W.map EnsureCall.key).toFinset.card ≤ kCacheSize) : p.WarmUpSuffices W := by
  rw [(sound_of_reachable h).indexed.warmUp_iff hW]
  refine FifoCache.allHit_of_steady (by simp [view, hnew]) ?_ ?_
  · intro r hr q hq hkey
    obtain ⟨c, hc, rfl⟩ := List.mem_map.mp hr
    obtain ⟨d, hd, rfl⟩ := List.mem_map.mp hq
    exact hsteady c hc d hd hkey
  · rw [List.map_map]
    exact hfew

end WorkspacePool

/-- A warm-up of this operator alone never suffices. -/
theorem TopKTopPSampler.warmUp_fails (op : TopKTopPSampler) {p : WorkspacePool}
    (h : poolLts.Reachable p) (thread : Nat) (stream : Stream) {literal : String → CString}
    (hliteral : ∀ text, (literal text).text = text) (malloc : Malloc) :
    ¬ p.WarmUpSuffices (op.requests thread stream literal malloc) := by
  have hkeys : (op.requests thread stream literal malloc).map EnsureCall.key =
      ["top_k_top_p_sample_top_k", "top_k_top_p_sample_top_p", "top_k_top_p_sample_idx",
        "top_k_top_p_sample_logits", "top_k_top_p_sample_workspace",
        "top_k_top_p_sample_cast_workspace"].map (SlotKey.mk stream) := by
    simp [requests, EnsureCall.key, hliteral]
  have hinj : Function.Injective (SlotKey.mk stream) := fun _ _ hab => (SlotKey.mk.inj hab).2
  refine WorkspacePool.warmUp_fails_of_many (t := thread) h (by simp [requests]) ?_
  rw [hkeys, List.toFinset_card_of_nodup ((List.nodup_map_iff hinj).mpr (by decide)),
    List.length_map]
  decide

end InfiniOps.Ascend
