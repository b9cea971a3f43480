/-
InfiniOps.Ascend.WorkspacePoolTheorems — safety of the workspace pool.

`Sound` relates the three places that know of an arena: the keys of the map
are distinct, every entry of every thread's cache points at the arena of
its key, and the arenas own the live blocks of the device exactly, in the
sense of `Owns`. A fast call changes nothing; a slow one looks up or adds
an arena (`lookup_spec`), which owns nothing yet, and grows it or leaves it
(`grow_sound`), which releases one block and grants another. So `Sound`
holds along every run, and with it what `Ensure` returns and what the
destructor frees (`workspacePool_safe`).
-/
import InfiniOps.Ascend.WorkspacePool
import InfiniOps.Lib.Ownership
import Mathlib.Data.Finset.Lattice.Fold
import Mathlib.Order.Lattice.Nat

namespace InfiniOps.Ascend

/-- The block an arena offers. -/
def WorkspaceArena.blocks (a : WorkspaceArena) : List (Nat × Nat) :=
  if a.capacity = 0 then [] else [(a.buf, a.capacity)]

namespace WorkspacePool

/-! ## The parts of `Ensure` -/

/-- The arena found has the key; if it is new, no other arena has it. -/
theorem lookup_spec (arenas : List WorkspaceArena) (key : SlotKey) :
    ∃ a, (lookup arenas key).1[(lookup arenas key).2]? = some a ∧ a.key = key ∧
      ((lookup arenas key).1 = arenas ∨
        (lookup arenas key).1 = arenas ++ [a] ∧ a = { key } ∧ ∀ b ∈ arenas, b.key ≠ key) := by
  unfold lookup
  cases hfind : arenas.findIdx? fun a => a.key = key with
  | some i =>
    obtain ⟨hi, hkey, -⟩ := List.findIdx?_eq_some_iff_getElem.mp hfind
    refine ⟨arenas[i], ?_, by simpa using hkey, .inl rfl⟩
    simp [hi]
  | none =>
    refine ⟨{ key }, by simp, rfl, .inr ⟨rfl, rfl, ?_⟩⟩
    intro b hb
    simpa using List.findIdx?_eq_none_iff.mp hfind b hb

/-- A call that no cache entry serves works on the arena of its key. -/
theorem ensure_of_slow_arenaOf {p : WorkspacePool} {c : EnsureCall} (hslow : p.fastPath c = none) :
    ∃ arenas i, arenas[i]? = some (p.arenaOf c) ∧ (p.arenaOf c).key = c.key ∧
      (arenas = p.arenas ∨
        arenas = p.arenas ++ [p.arenaOf c] ∧ p.arenaOf c = { key := c.key } ∧
          ∀ b ∈ p.arenas, b.key ≠ c.key) ∧
      p.ensure c =
        ({ p with
           arenas := arenas.set i (grow p.heap (p.arenaOf c) c.needed c.malloc).2
           caches := Function.update p.caches c.thread
             (insertEntry (p.caches c.thread) ⟨c.stream, c.slot, i⟩)
           heap := (grow p.heap (p.arenaOf c) c.needed c.malloc).1 }, i) := by
  obtain ⟨a, ha, hkey, hnew⟩ := lookup_spec p.arenas c.key
  have harena : p.arenaOf c = a := by
    rw [arenaOf, List.getD_eq_getElem?_getD, ha, Option.getD_some]
  rw [harena]
  refine ⟨_, _, ha, hkey, hnew, ?_⟩
  rw [arenaOf] at harena
  unfold ensure
  simp only [hslow, harena]

theorem ensure_of_slow {p : WorkspacePool} {c : EnsureCall} (hslow : p.fastPath c = none) :
    ∃ arenas i a, arenas[i]? = some a ∧ a.key = c.key ∧
      (arenas = p.arenas ∨
        arenas = p.arenas ++ [a] ∧ a = { key := c.key } ∧ ∀ b ∈ p.arenas, b.key ≠ c.key) ∧
      p.ensure c =
        ({ p with
           arenas := arenas.set i (grow p.heap a c.needed c.malloc).2
           caches := Function.update p.caches c.thread
             (insertEntry (p.caches c.thread) ⟨c.stream, c.slot, i⟩)
           heap := (grow p.heap a c.needed c.malloc).1 }, i) := by
  obtain ⟨arenas, i, h⟩ := ensure_of_slow_arenaOf hslow
  exact ⟨arenas, i, p.arenaOf c, h⟩

/-- A call that some cache entry serves changes nothing. -/
theorem ensure_of_fast {p : WorkspacePool} {c : EnsureCall} {i : Nat}
    (hfast : p.fastPath c = some i) : p.ensure c = (p, i) := by
  unfold ensure
  rw [hfast]

/-- The entry that serves a call is one of the thread's, for the key of the
call, and its arena has room. -/
theorem fastPath_spec {p : WorkspacePool} {c : EnsureCall} {i : Nat}
    (hfast : p.fastPath c = some i) :
    ∃ e ∈ p.caches c.thread, e.key = c.key ∧ e.arena = i ∧
      ∃ a, p.arenas[i]? = some a ∧ c.needed ≤ a.capacity := by
  obtain ⟨e, he, rfl⟩ := Option.map_eq_some_iff.mp hfast
  have hserves := List.find?_some he
  simp only [serves, Bool.and_eq_true, decide_eq_true_eq, Option.any_eq_true] at hserves
  obtain ⟨⟨hstream, hslot⟩, a, ha, hroom⟩ := hserves
  refine ⟨e, List.mem_of_find?_eq_some he, ?_, rfl, a, ha, hroom⟩
  rw [CacheEntry.key, EnsureCall.key, hstream, hslot]

theorem grow_key (heap : BlockHeap) (a : WorkspaceArena) (needed : Nat) (malloc : Malloc) :
    (grow heap a needed malloc).2.key = a.key := by
  unfold grow
  split
  · split <;> rfl
  · rfl

/-- Afterwards there is room, and never less than before. -/
theorem grow_capacity (heap : BlockHeap) (a : WorkspaceArena) (needed : Nat) (malloc : Malloc) :
    (grow heap a needed malloc).2.capacity = max a.capacity needed := by
  unfold grow
  split
  · have hmax : max a.capacity needed = needed := by omega
    rw [hmax]
    split <;> rfl
  · have hmax : max a.capacity needed = a.capacity := by omega
    rw [hmax]

/-- A growing arena gives its block back and takes a fresh one. -/
theorem grow_of_lt {heap : BlockHeap} {a : WorkspaceArena} {needed base : Nat} {malloc : Malloc}
    (hlt : a.capacity < needed) (hbase : malloc (freeOld heap a) needed = some base) :
    grow heap a needed malloc
      = ((freeOld heap a).alloc base needed, { a with buf := base, capacity := needed }) := by
  have hpos : needed > 0 := by omega
  unfold grow
  rw [if_pos hlt, if_pos hpos, hbase]

/-- A growing arena that is given nothing keeps its old buffer. -/
theorem grow_of_fails {heap : BlockHeap} {a : WorkspaceArena} {needed : Nat} {malloc : Malloc}
    (hlt : a.capacity < needed) (hfails : malloc (freeOld heap a) needed = none) :
    grow heap a needed malloc = (freeOld heap a, { a with capacity := needed }) := by
  have hpos : needed > 0 := by omega
  unfold grow
  rw [if_pos hlt, if_pos hpos, hfails]

/-- The heap is well formed and the arenas own its live blocks. -/
structure Backed (heap : BlockHeap) (arenas : List WorkspaceArena) : Prop where
  wf : heap.Wf
  owns : Owns WorkspaceArena.blocks heap.extents arenas
  null : ∀ a ∈ arenas, a.capacity = 0 → a.buf = 0

theorem Backed.perm {heap : BlockHeap} {arenas arenas' : List WorkspaceArena}
    (h : Backed heap arenas) (hp : arenas.Perm arenas') : Backed heap arenas' :=
  ⟨h.wf, h.owns.perm hp, fun a ha => h.null a (hp.mem_iff.mpr ha)⟩

/-- A new arena owns nothing. -/
theorem Backed.cons_new {heap : BlockHeap} {arenas : List WorkspaceArena} (h : Backed heap arenas)
    (key : SlotKey) : Backed heap ({ key } :: arenas) := by
  have howns := h.owns.grant (t := ({ key } : WorkspaceArena)) (by simp [WorkspaceArena.blocks])
  refine ⟨h.wf, by simpa [WorkspaceArena.blocks] using howns, ?_⟩
  intro a ha
  rcases List.mem_cons.mp ha with rfl | ha
  · exact fun _ => rfl
  · exact h.null a ha

/-- Taking the block of the first arena back. -/
theorem Backed.give_back {heap : BlockHeap} {a : WorkspaceArena} {rest : List WorkspaceArena}
    (h : Backed heap (a :: rest)) :
    Backed (freeOld heap a) rest := by
  have hrelease := h.owns.release
  have hnull : ∀ b ∈ rest, b.capacity = 0 → b.buf = 0 :=
    fun b hb => h.null b (List.mem_cons_of_mem a hb)
  by_cases hcap : a.capacity > 0
  · have hne : a.capacity ≠ 0 := by omega
    have hmem : (a.buf, a.capacity) ∈ heap.extents := by
      refine (h.owns.covers _).mpr ⟨a, List.mem_cons_self, ?_⟩
      simp [WorkspaceArena.blocks, hne]
    rw [freeOld, if_pos hcap]
    refine ⟨h.wf.free hmem, ?_, hnull⟩
    rw [h.wf.extents_free hmem]
    simpa [WorkspaceArena.blocks, hne] using hrelease
  · have hzero : a.capacity = 0 := by omega
    rw [freeOld, if_neg hcap]
    exact ⟨h.wf, by simpa [WorkspaceArena.blocks, hzero] using hrelease, hnull⟩

/-- The growth of the first arena. -/
theorem Backed.grow {heap : BlockHeap} {a : WorkspaceArena} {rest : List WorkspaceArena}
    (h : Backed heap (a :: rest)) {needed : Nat} {malloc : Malloc} (hfresh : malloc.Fresh)
    (hsucceeds : a.capacity < needed → ∃ base, malloc (freeOld heap a) needed = some base) :
    Backed (WorkspacePool.grow heap a needed malloc).1
      ((WorkspacePool.grow heap a needed malloc).2 :: rest) := by
  by_cases hlt : a.capacity < needed
  · obtain ⟨base, hbase⟩ := hsucceeds hlt
    rw [grow_of_lt hlt hbase]
    have hfree := h.give_back
    have hapart := hfresh _ _ _ hbase
    have hpos : 0 < needed := by omega
    have hne : needed ≠ 0 := by omega
    refine ⟨hfree.wf.alloc hpos hapart, ?_, ?_⟩
    · have hnew : (base, needed) ∉ (freeOld heap a).extents := by
        intro hmem
        have hself := hapart _ hmem
        simp only [HeapBlock.Apart] at hself
        omega
      have hgrant := hfree.owns.grant (t := { a with buf := base, capacity := needed })
        (by simpa [WorkspaceArena.blocks, hne] using hnew)
      rw [BlockHeap.extents_alloc]
      simpa [WorkspaceArena.blocks, hne] using hgrant
    · intro b hb
      rcases List.mem_cons.mp hb with rfl | hb
      · exact fun hzero => absurd hzero hne
      · exact hfree.null b hb
  · have hsame : WorkspacePool.grow heap a needed malloc = (heap, a) := by
      unfold WorkspacePool.grow
      rw [if_neg (by omega)]
    rw [hsame]
    exact h

/-! ## Arenas under `Ensure` -/

/-- Every arena keeps its place and key and does not shrink; only the arena
of the call may change at all. -/
theorem ensure_frame (p : WorkspacePool) (c : EnsureCall) {j : Nat} {a : WorkspaceArena}
    (ha : p.arenas[j]? = some a) :
    ∃ b, (p.ensure c).1.arenas[j]? = some b ∧ b.key = a.key ∧ a.capacity ≤ b.capacity ∧
      (a.key ≠ c.key → b = a) := by
  cases hfast : p.fastPath c with
  | some i =>
    rw [ensure_of_fast hfast]
    exact ⟨a, ha, rfl, Nat.le_refl _, fun _ => rfl⟩
  | none =>
    obtain ⟨arenas, i, a₀, ha₀, hkey, hnew, heq⟩ := ensure_of_slow hfast
    have hkept : arenas[j]? = some a := by
      obtain ⟨hj, hja⟩ := List.getElem?_eq_some_iff.mp ha
      rcases hnew with hnew | ⟨hnew, -⟩
      · rw [hnew, ha]
      · rw [hnew, List.getElem?_append_left hj, ha]
    obtain ⟨hi, -⟩ := List.getElem?_eq_some_iff.mp ha₀
    rw [heq]
    show ∃ b, (arenas.set i _)[j]? = some b ∧ _
    rw [List.getElem?_set]
    by_cases hij : i = j
    · subst hij
      rw [hkept] at ha₀
      cases ha₀
      rw [if_pos rfl, if_pos hi]
      refine ⟨_, rfl, grow_key _ _ _ _, ?_, fun hne => absurd hkey hne⟩
      rw [grow_capacity]
      exact Nat.le_max_left _ _
    · rw [if_neg hij]
      exact ⟨a, hkept, rfl, Nat.le_refl _, fun _ => rfl⟩

/-- Keys are distinct, and every cache entry points at the arena of its
key. -/
structure Indexed (p : WorkspacePool) : Prop where
  keys : (p.arenas.map WorkspaceArena.key).Nodup
  caches : ∀ t, ∀ e ∈ p.caches t, p.arenas[e.arena]?.map WorkspaceArena.key = some e.key

theorem Indexed.unique {p : WorkspacePool} (h : p.Indexed) {i j : Nat} {a b : WorkspaceArena}
    (ha : p.arenas[i]? = some a) (hb : p.arenas[j]? = some b) (hkey : a.key = b.key) : i = j := by
  obtain ⟨hi, -⟩ := List.getElem?_eq_some_iff.mp ha
  refine (List.getElem?_inj (by simpa using hi) h.keys).mp ?_
  rw [List.getElem?_map, List.getElem?_map, ha, hb, Option.map_some, Option.map_some, hkey]

/-- The map finds an arena by its key. -/
theorem Indexed.find?_eq {p : WorkspacePool} (h : p.Indexed) {i : Nat} {a : WorkspaceArena}
    (ha : p.arenas[i]? = some a) : (p.arenas.find? fun b => b.key = a.key) = some a := by
  cases hfind : p.arenas.find? fun b => b.key = a.key with
  | none =>
    have hno := List.find?_eq_none.mp hfind a (List.mem_of_getElem? ha)
    simp at hno
  | some b =>
    have hkey : b.key = a.key := by simpa using List.find?_some hfind
    obtain ⟨j, hb⟩ := List.getElem?_of_mem (List.mem_of_find?_eq_some hfind)
    rw [h.unique ha hb hkey.symm, hb] at ha
    exact ha

/-- The arena returned has the key of the call, and room. -/
theorem Indexed.ensure_found {p : WorkspacePool} (h : p.Indexed) (c : EnsureCall) :
    ∃ a, (p.ensure c).1.arenas[(p.ensure c).2]? = some a ∧ a.key = c.key ∧
      c.needed ≤ a.capacity := by
  cases hfast : p.fastPath c with
  | some i =>
    obtain ⟨e, he, hkey, rfl, a, ha, hroom⟩ := fastPath_spec hfast
    have hcached := h.caches c.thread e he
    rw [ha, Option.map_some, Option.some.injEq] at hcached
    rw [ensure_of_fast hfast]
    exact ⟨a, ha, hcached.trans hkey, hroom⟩
  | none =>
    obtain ⟨arenas, i, a, ha, hkey, -, heq⟩ := ensure_of_slow hfast
    obtain ⟨hi, -⟩ := List.getElem?_eq_some_iff.mp ha
    rw [heq]
    refine ⟨(grow p.heap a c.needed c.malloc).2, ?_, (grow_key _ _ _ _).trans hkey, ?_⟩
    · show (arenas.set i _)[i]? = _
      rw [List.getElem?_set_self hi]
    · rw [grow_capacity]
      exact Nat.le_max_right _ _

theorem Indexed.empty : Indexed {} := ⟨.nil, by simp⟩

theorem map_key_set {arenas : List WorkspaceArena} {i : Nat} {a b : WorkspaceArena}
    (ha : arenas[i]? = some a) (hkey : b.key = a.key) :
    (arenas.set i b).map WorkspaceArena.key = arenas.map WorkspaceArena.key := by
  obtain ⟨hi, rfl⟩ := List.getElem?_eq_some_iff.mp ha
  rw [List.map_set, hkey]
  refine List.ext_getElem? fun j => ?_
  rw [List.getElem?_set]
  split
  · rename_i hij
    subst hij
    simp [hi]
  · rfl

/-- What a call can put into a cache. -/
theorem mem_ensure_caches {p : WorkspacePool} {c : EnsureCall} {t : Nat} {e : CacheEntry}
    (he : e ∈ (p.ensure c).1.caches t) :
    e ∈ p.caches t ∨ e.key = c.key ∧ e.arena = (p.ensure c).2 := by
  cases hfast : p.fastPath c with
  | some i =>
    rw [ensure_of_fast hfast] at he
    exact .inl he
  | none =>
    obtain ⟨arenas, i, a, -, -, -, heq⟩ := ensure_of_slow hfast
    rw [heq] at he ⊢
    have he : e ∈ Function.update p.caches c.thread
        (insertEntry (p.caches c.thread) ⟨c.stream, c.slot, i⟩) t := he
    by_cases ht : t = c.thread
    · subst ht
      rw [Function.update_self] at he
      rcases List.mem_cons.mp (List.mem_of_mem_take he) with rfl | he
      · exact .inr ⟨rfl, rfl⟩
      · exact .inl he
    · rw [Function.update_of_ne ht] at he
      exact .inl he

theorem Indexed.ensure_keys {p : WorkspacePool} (h : p.Indexed) (c : EnsureCall) :
    ((p.ensure c).1.arenas.map WorkspaceArena.key).Nodup := by
  cases hfast : p.fastPath c with
  | some i =>
    rw [ensure_of_fast hfast]
    exact h.keys
  | none =>
    obtain ⟨arenas, i, a, ha, -, hnew, heq⟩ := ensure_of_slow hfast
    rw [heq]
    show ((arenas.set i _).map WorkspaceArena.key).Nodup
    rw [map_key_set ha (grow_key _ _ _ _)]
    rcases hnew with hnew | ⟨hnew, rfl, hfresh⟩
    · rw [hnew]
      exact h.keys
    · rw [hnew, List.map_append, List.map_cons, List.map_nil]
      refine List.Nodup.append h.keys (List.nodup_singleton _) ?_
      intro k hk hk'
      obtain ⟨b, hb, rfl⟩ := List.mem_map.mp hk
      exact hfresh b hb (List.mem_singleton.mp hk')

theorem Indexed.ensure {p : WorkspacePool} (h : p.Indexed) (c : EnsureCall) :
    (p.ensure c).1.Indexed := by
  refine ⟨h.ensure_keys c, ?_⟩
  intro t e he
  rcases mem_ensure_caches he with he | ⟨hkey, harena⟩
  · obtain ⟨b, hb, hbkey⟩ := Option.map_eq_some_iff.mp (h.caches t e he)
    obtain ⟨b', hb', hbkey', -⟩ := ensure_frame p c hb
    rw [hb', Option.map_some, hbkey', hbkey]
  · obtain ⟨a, ha, hakey, -⟩ := h.ensure_found c
    rw [harena, ha, Option.map_some, hakey, hkey]

/-! ## The device under `Ensure` -/

theorem Backed.empty : Backed {} [] :=
  ⟨.empty, by simpa [BlockHeap.extents] using Owns.nil, by simp⟩

theorem Backed.ensure {p : WorkspacePool} (h : Backed p.heap p.arenas) (c : EnsureCall)
    (hfresh : c.malloc.Fresh) (hsucceeds : p.GrowthSucceeds c) :
    Backed (p.ensure c).1.heap (p.ensure c).1.arenas := by
  cases hfast : p.fastPath c with
  | some i =>
    rw [ensure_of_fast hfast]
    exact h
  | none =>
    obtain ⟨arenas, i, ha, -, hnew, heq⟩ := ensure_of_slow_arenaOf hfast
    have hgrows := hsucceeds hfast
    generalize p.arenaOf c = a at ha hnew heq hgrows
    obtain ⟨hi, rfl⟩ := List.getElem?_eq_some_iff.mp ha
    have hlooked : Backed p.heap arenas := by
      rcases hnew with hnew | ⟨hnew, hempty, -⟩
      · rw [hnew]
        exact h
      · rw [hnew, hempty]
        exact (h.cons_new c.key).perm (List.perm_append_singleton _ _).symm
    have hfront := hlooked.perm (List.getElem_cons_eraseIdx_perm hi).symm
    rw [heq]
    exact (hfront.grow hfresh hgrows).perm (List.set_perm_cons_eraseIdx hi _).symm

/-! ## Runs -/

structure Sound (p : WorkspacePool) : Prop where
  indexed : p.Indexed
  backed : Backed p.heap p.arenas

theorem sound_of_reachable {p : WorkspacePool} (h : poolLts.Reachable p) : p.Sound := by
  refine h.invariant ?_ ?_
  · intro p hinit
    cases hinit
    exact ⟨.empty, .empty⟩
  · intro p op q hp hstep
    obtain ⟨hmallocs, rfl⟩ := hstep
    cases op with
    | ensure c => exact ⟨hp.indexed.ensure c, hp.backed.ensure c hmallocs.1 fun _ _ => hmallocs.2 _ _⟩
    | setCaptureMode capturing => exact ⟨⟨hp.indexed.keys, hp.indexed.caches⟩, hp.backed⟩

theorem Sound.answers {p : WorkspacePool} (h : p.Sound) (c : EnsureCall) : p.Answers c := by
  obtain ⟨a, ha, hkey, hroom⟩ := h.indexed.ensure_found c
  refine ⟨⟨a, ha, hkey, hroom⟩, ?_, ?_⟩
  · intro j b hb hbkey
    exact (h.indexed.ensure c).unique hb ha (hbkey.trans hkey.symm)
  · intro j b hb
    obtain ⟨b', hb', hbkey, hgrows, -⟩ := ensure_frame p c hb
    exact ⟨b', hb', hbkey, hgrows⟩

theorem Sound.safe {p : WorkspacePool} (h : p.Sound) : p.Safe := by
  have hmem : ∀ a ∈ p.arenas, 0 < a.capacity → (a.buf, a.capacity) ∈ p.heap.extents := by
    intro a ha hcap
    refine (h.backed.owns.covers _).mpr ⟨a, ha, ?_⟩
    simp [WorkspaceArena.blocks, Nat.ne_of_gt hcap]
  refine ⟨?_, ?_, h.backed.wf.clean, h.backed.wf.freed_nodup⟩
  · intro a ha
    rcases Nat.eq_zero_or_pos a.capacity with hzero | hpos
    · exact .inl ⟨hzero, h.backed.null a ha hzero⟩
    · exact .inr ⟨hpos, hmem a ha hpos⟩
  · intro a ha b hb hne hacap hbcap
    refine h.backed.wf.extents_apart (hmem a ha hacap) (hmem b hb hbcap) ?_
    intro hsame
    have hdisj := h.backed.owns.disjoint_of_ne ha hb fun hab => hne (by rw [hab])
    refine @hdisj (a.buf, a.capacity) ?_ ?_
    · simp [WorkspaceArena.blocks, Nat.ne_of_gt hacap]
    · simp [WorkspaceArena.blocks, Nat.ne_of_gt hbcap, hsame]

/-! ## The destructor -/

/-- What the destructor's loop needs of the arenas it has not visited: each
offers a live block, no two the same. -/
structure Unvisited (heap : BlockHeap) (arenas : List WorkspaceArena) : Prop where
  wf : heap.Wf
  disjoint : arenas.Pairwise fun a b => a.blocks.Disjoint b.blocks
  live : ∀ a ∈ arenas, ∀ e ∈ a.blocks, e ∈ heap.extents

theorem Backed.unvisited {heap : BlockHeap} {arenas : List WorkspaceArena}
    (h : Backed heap arenas) : Unvisited heap arenas :=
  ⟨h.wf, h.owns.disjoint, fun a ha e he => (h.owns.covers e).mpr ⟨a, ha, he⟩⟩

theorem Unvisited.visit {heap : BlockHeap} {a : WorkspaceArena} {rest : List WorkspaceArena}
    (h : Unvisited heap (a :: rest)) (alive : Bool) :
    Unvisited (if a.capacity > 0 ∧ alive then heap.free a.buf else heap) rest := by
  obtain ⟨hfirst, hdisj⟩ := List.pairwise_cons.mp h.disjoint
  have hrest : ∀ b ∈ rest, ∀ e ∈ b.blocks, e ∈ heap.extents :=
    fun b hb => h.live b (List.mem_cons_of_mem a hb)
  by_cases hfrees : a.capacity > 0 ∧ alive
  · rw [if_pos hfrees]
    have hblock : (a.buf, a.capacity) ∈ a.blocks := by
      simp [WorkspaceArena.blocks, Nat.ne_of_gt hfrees.1]
    have hmem := h.live a List.mem_cons_self _ hblock
    refine ⟨h.wf.free hmem, hdisj, ?_⟩
    intro b hb e he
    rw [h.wf.extents_free hmem, Finset.mem_sdiff, Finset.mem_singleton]
    refine ⟨hrest b hb e he, ?_⟩
    intro hsame
    exact hfirst b hb hblock (hsame ▸ he)
  · rw [if_neg hfrees]
    exact ⟨h.wf, hdisj, hrest⟩

theorem Unvisited.destroy {heap : BlockHeap} {visits : List (WorkspaceArena × Bool)}
    (h : Unvisited heap (visits.map Prod.fst)) : (destroy heap visits).Wf := by
  induction visits generalizing heap with
  | nil => exact h.wf
  | cons v visits ih => exact ih (h.visit v.2)

/-- Safety of the pool over every sequence of calls, by any threads, and
over the destructor, in whatever order it visits the arenas. -/
theorem workspacePool_safe (p : WorkspacePool) (h : poolLts.Reachable p) :
    p.Safe ∧
      (∀ c : EnsureCall, c.malloc.Fresh → c.malloc.Succeeds →
        p.Answers c ∧ (p.ensure c).1.Safe) ∧
      (∀ visits : List (WorkspaceArena × Bool), (visits.map Prod.fst).Perm p.arenas →
        none ∉ (destroy p.heap visits).freed ∧ (destroy p.heap visits).freed.Nodup) := by
  have hsound := sound_of_reachable h
  refine ⟨hsound.safe, ?_, ?_⟩
  · intro c hfresh hsucceeds
    have hnext : poolLts.Reachable (p.ensure c).1 :=
      .step (a := .ensure c) h ⟨⟨hfresh, hsucceeds⟩, rfl⟩
    exact ⟨hsound.answers c, (sound_of_reachable hnext).safe⟩
  · intro visits hperm
    have hwf := ((hsound.backed.perm hperm.symm).unvisited).destroy
    exact ⟨hwf.clean, hwf.freed_nodup⟩

end WorkspacePool

/-! ## A growth seen from two threads -/

/-- An allocator that hands out addresses above every live block. -/
def Malloc.bump : Malloc := fun heap _ => some (heap.extents.sup (fun e => e.1 + e.2) + 1)

theorem Malloc.bump_fresh : Malloc.bump.Fresh := by
  intro heap n base hbase e he
  cases hbase
  have hle : e.1 + e.2 ≤ heap.extents.sup fun e => e.1 + e.2 :=
    Finset.le_sup (f := fun e : Nat × Nat => e.1 + e.2) he
  simp only [HeapBlock.Apart]
  omega

theorem Malloc.bump_succeeds : Malloc.bump.Succeeds := fun _ _ => ⟨_, rfl⟩

namespace GrownTemp

/-- Thread 0 asks for 64 bytes, thread 1 for 128 under another copy of the
slot's name. -/
def small : EnsureCall := ⟨0, 7, 64, ⟨100, "temp"⟩, .bump⟩

def large : EnsureCall := ⟨1, 7, 128, ⟨200, "temp"⟩, .bump⟩

def pool : WorkspacePool := ((({} : WorkspacePool).ensure small).1.ensure large).1

theorem pool_reachable : poolLts.Reachable pool := by
  have hmallocs : Malloc.bump.Fresh ∧ Malloc.bump.Succeeds :=
    ⟨Malloc.bump_fresh, Malloc.bump_succeeds⟩
  have h1 : poolLts.Reachable (({} : WorkspacePool).ensure small).1 :=
    .step (a := .ensure small) (.init rfl) ⟨hmallocs, rfl⟩
  exact .step (a := .ensure large) h1 ⟨hmallocs, rfl⟩

/-- There is one arena, grown; its first block was freed. -/
example : pool.arenas = [⟨⟨7, "temp"⟩, 1, 128⟩] ∧ pool.heap.freed = [some 0] := by
  decide +kernel

end GrownTemp

open WorkspacePool GrownTemp in
/-- Thread 0's cache still points at the arena, and its next call gets the
new block. -/
theorem workspacePool_safe_grown :
    pool.Safe ∧ pool.Answers small ∧ (pool.ensure small).1.Safe ∧
      none ∉ (destroy pool.heap (pool.arenas.map fun a => (a, true))).freed ∧
      (destroy pool.heap (pool.arenas.map fun a => (a, true))).freed.Nodup := by
  obtain ⟨hsafe, hcalls, hdestroy⟩ := workspacePool_safe pool pool_reachable
  obtain ⟨hanswers, hnext⟩ := hcalls small Malloc.bump_fresh Malloc.bump_succeeds
  exact ⟨hsafe, hanswers, hnext, hdestroy _ (by simp [Function.comp_def])⟩

end InfiniOps.Ascend
