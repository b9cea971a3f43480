/-
InfiniOps.Lib.BlockStore — loops that read a block of cells, compute
another block from it and write that back, all in one memory.

* `load`, `store` — a block as a list, at an address.
* `moveAll` — one such step for each visit, in order. A visit reads what
  the visits before it have written.
* `moveAll_at`: a cell holds what its last visit wrote there.
* `load_moveAll`: a block that later visits leave alone holds what its
  visit computed.
* `Tiles` — visits that write one behind the other. They write every cell
  of the range once (`Tiles.count_written`).
-/
import Mathlib.Algebra.Order.Group.Int
import Mathlib.Data.List.Count
import Mathlib.Data.List.GetD
import Mathlib.Data.List.Nodup

namespace BlockStore

variable {β : Type}

/-! ## Blocks -/

/-- The `n` addresses from `addr` on. -/
def span (addr : Int) (n : Nat) : List Int := (List.range n).map fun (k : Nat) => addr + k

def load (mem : Int → β) (addr : Int) (n : Nat) : List β := (span addr n).map mem

def store (mem : Int → β) (addr : Int) (block : List β) : Int → β := fun p =>
  if addr ≤ p then block.getD (p - addr).toNat (mem p) else mem p

theorem mem_span {addr p : Int} {n : Nat} : p ∈ span addr n ↔ addr ≤ p ∧ p < addr + n := by
  simp only [span, List.mem_map, List.mem_range]
  constructor
  · rintro ⟨k, hk, rfl⟩
    omega
  · rintro ⟨hle, hlt⟩
    exact ⟨(p - addr).toNat, by omega, by omega⟩

@[simp] theorem length_span (addr : Int) (n : Nat) : (span addr n).length = n := by
  simp [span]

theorem nodup_span (addr : Int) (n : Nat) : (span addr n).Nodup := by
  refine List.nodup_range.map fun k k' h => ?_
  exact Int.ofNat.inj (Int.add_left_cancel h)

theorem count_span (addr p : Int) (n : Nat) :
    (span addr n).count p = if addr ≤ p ∧ p < addr + n then 1 else 0 := by
  by_cases h : addr ≤ p ∧ p < addr + n
  · rw [if_pos h]
    exact List.count_eq_one_of_mem (nodup_span addr n) (mem_span.mpr h)
  · rw [if_neg h]
    exact List.count_eq_zero_of_not_mem fun hmem => h (mem_span.mp hmem)

/-- Blocks of one array are equal or have no cell in common. -/
theorem notMem_span_of_ne {base a b p : Int} {n : Nat} (hne : a ≠ b)
    (hp : p ∈ span (base + n * a) n) : p ∉ span (base + n * b) n := by
  rw [mem_span] at hp ⊢
  intro hp'
  rcases Int.lt_or_gt_of_ne hne with hlt | hgt
  · have hle : (n : Int) * (a + 1) ≤ n * b := Int.mul_le_mul_of_nonneg_left hlt (by omega)
    rw [Int.mul_add, Int.mul_one] at hle
    omega
  · have hle : (n : Int) * (b + 1) ≤ n * a := Int.mul_le_mul_of_nonneg_left hgt (by omega)
    rw [Int.mul_add, Int.mul_one] at hle
    omega

@[simp] theorem length_load (mem : Int → β) (addr : Int) (n : Nat) :
    (load mem addr n).length = n := by
  simp [load]

theorem getElem?_load (mem : Int → β) (addr : Int) {n k : Nat} (hk : k < n) :
    (load mem addr n)[k]? = some (mem (addr + k)) := by
  simp [load, span, hk]

theorem load_congr {mem mem' : Int → β} {addr : Int} {n : Nat}
    (h : ∀ p ∈ span addr n, mem p = mem' p) : load mem addr n = load mem' addr n :=
  List.map_congr_left h

theorem store_of_notMem {mem : Int → β} {addr p : Int} {block : List β}
    (h : p ∉ span addr block.length) : store mem addr block p = mem p := by
  rw [mem_span] at h
  rw [store]
  split
  · exact List.getD_eq_default _ _ (by omega)
  · rfl

theorem store_add (mem : Int → β) (addr : Int) (block : List β) {k : Nat} (hk : k < block.length) :
    store mem addr block (addr + k) = block[k] := by
  have hindex : (addr + k - addr).toNat = k := by omega
  rw [store, if_pos (by omega), hindex, List.getD_eq_getElem _ _ hk]

theorem store_mem (mem : Int → β) {addr p : Int} {block : List β}
    (h : p ∈ span addr block.length) : store mem addr block p ∈ block := by
  obtain ⟨k, hk, rfl⟩ := List.mem_map.mp h
  rw [store_add mem addr block (List.mem_range.mp hk)]
  exact List.getElem_mem _

theorem load_store (mem : Int → β) (addr : Int) {block : List β} {n : Nat} (hn : block.length = n) :
    load (store mem addr block) addr n = block := by
  subst hn
  refine List.ext_getElem (length_load _ _ _) fun k hk hk' => ?_
  have hget := getElem?_load (store mem addr block) addr hk'
  rw [store_add mem addr block hk', List.getElem?_eq_getElem hk] at hget
  exact Option.some.inj hget

/-! ## Loops -/

section Moves

variable {ι : Type} (dst src : ι → Int) (size : ι → Nat) (f : ι → List β → List β)

/-- A visit stores what it computes from the block that it loads. -/
def moveAll (mem : Int → β) (visits : List ι) : Int → β :=
  visits.foldl (fun mem v => store mem (dst v) (f v (load mem (src v) (size v)))) mem

theorem moveAll_cons (mem : Int → β) (v : ι) (visits : List ι) :
    moveAll dst src size f mem (v :: visits)
      = moveAll dst src size f (store mem (dst v) (f v (load mem (src v) (size v)))) visits := rfl

theorem moveAll_append (mem : Int → β) (visits visits' : List ι) :
    moveAll dst src size f mem (visits ++ visits')
      = moveAll dst src size f (moveAll dst src size f mem visits) visits' :=
  List.foldl_append

variable {dst src size f} {width : ι → Nat}

/-- A cell that no visit writes keeps its contents. -/
theorem moveAll_of_notMem {mem : Int → β} {visits : List ι} {p : Int}
    (hwidth : ∀ v ∈ visits, ∀ block, block.length = size v → (f v block).length = width v)
    (h : ∀ v ∈ visits, p ∉ span (dst v) (width v)) :
    moveAll dst src size f mem visits p = mem p := by
  induction visits generalizing mem with
  | nil => rfl
  | cons v visits ih =>
    rw [moveAll_cons, ih (fun w hw => hwidth w (List.mem_cons_of_mem v hw))
      fun w hw => h w (List.mem_cons_of_mem v hw)]
    refine store_of_notMem ?_
    rw [hwidth v List.mem_cons_self _ (length_load _ _ _)]
    exact h v List.mem_cons_self

/-- What a visit wrote stays where the later ones do not write. -/
theorem moveAll_at {mem : Int → β} {pre post : List ι} {v : ι} {k : Nat} {b : β}
    (hwidth : ∀ w ∈ post, ∀ block, block.length = size w → (f w block).length = width w)
    (hval : (f v (load (moveAll dst src size f mem pre) (src v) (size v)))[k]? = some b)
    (hpost : ∀ w ∈ post, dst v + k ∉ span (dst w) (width w)) :
    moveAll dst src size f mem (pre ++ v :: post) (dst v + k) = b := by
  obtain ⟨hk, hb⟩ := List.getElem?_eq_some_iff.mp hval
  rw [moveAll_append, moveAll_cons, moveAll_of_notMem hwidth hpost, store_add _ _ _ hk, hb]

/-- A block that no later visit writes to holds what its visit computed. -/
theorem load_moveAll {mem : Int → β} {pre post : List ι} {v : ι}
    (hwidth : ∀ w ∈ v :: post, ∀ block, block.length = size w → (f w block).length = width w)
    (hpost : ∀ w ∈ post, ∀ p ∈ span (dst v) (width v), p ∉ span (dst w) (width w)) :
    load (moveAll dst src size f mem (pre ++ v :: post)) (dst v) (width v)
      = f v (load (moveAll dst src size f mem pre) (src v) (size v)) := by
  rw [moveAll_append, moveAll_cons]
  calc load (moveAll dst src size f _ post) (dst v) (width v)
      = load (store (moveAll dst src size f mem pre) (dst v)
          (f v (load (moveAll dst src size f mem pre) (src v) (size v)))) (dst v) (width v) :=
        load_congr fun p hp => moveAll_of_notMem
          (fun w hw => hwidth w (List.mem_cons_of_mem v hw)) fun w hw => hpost w hw p hp
    _ = f v (load (moveAll dst src size f mem pre) (src v) (size v)) :=
        load_store _ _ (hwidth v List.mem_cons_self _ (length_load _ _ _))

end Moves

/-! ## Visits one behind the other -/

section Tiles

variable {ι : Type} (dst : ι → Int) (width : ι → Nat)

/-- The addresses that the visits write, in order. -/
def written (visits : List ι) : List Int := visits.flatMap fun v => span (dst v) (width v)

/-- The first visit writes at `start`, each next one where its predecessor
ends, and the last one ends at `stop`. -/
def Tiles : (start : Int) → List ι → (stop : Int) → Prop
  | start, [], stop => start = stop
  | start, v :: visits, stop => dst v = start ∧ Tiles (start + width v) visits stop

variable {dst width} {start middle stop : Int} {visits visits' : List ι}

theorem Tiles.append (h : Tiles dst width start visits middle)
    (h' : Tiles dst width middle visits' stop) : Tiles dst width start (visits ++ visits') stop := by
  induction visits generalizing start with
  | nil =>
    obtain rfl : start = middle := h
    exact h'
  | cons v visits ih => exact ⟨h.1, ih h.2⟩

theorem Tiles.le (h : Tiles dst width start visits stop) : start ≤ stop := by
  induction visits generalizing start with
  | nil => exact Int.le_of_eq h
  | cons v visits ih =>
    have hrest := ih h.2
    omega

/-- They write every address of the range once, and no other. -/
theorem Tiles.count_written (h : Tiles dst width start visits stop) (p : Int) :
    (written dst width visits).count p = if start ≤ p ∧ p < stop then 1 else 0 := by
  induction visits generalizing start with
  | nil =>
    obtain rfl : start = stop := h
    rw [if_neg (by omega)]
    rfl
  | cons v visits ih =>
    obtain ⟨rfl, hrest⟩ := h
    have hle := hrest.le
    rw [written, List.flatMap_cons, List.count_append, count_span, ← written, ih hrest]
    split <;> split <;> split <;> omega

/-- Any split of the visits splits the range. -/
theorem Tiles.split {v : ι} (h : Tiles dst width start (visits ++ v :: visits') stop) :
    Tiles dst width start visits (dst v) ∧ Tiles dst width (dst v + width v) visits' stop := by
  induction visits generalizing start with
  | nil =>
    obtain ⟨rfl, hrest⟩ := h
    exact ⟨rfl, hrest⟩
  | cons w visits ih =>
    obtain ⟨hpre, hpost⟩ := ih h.2
    exact ⟨⟨h.1, hpre⟩, hpost⟩

theorem Tiles.bounds (h : Tiles dst width start visits stop) {v : ι} (hv : v ∈ visits) :
    start ≤ dst v ∧ dst v + width v ≤ stop := by
  obtain ⟨pre, post, rfl⟩ := List.append_of_mem hv
  obtain ⟨hpre, hpost⟩ := h.split
  exact ⟨hpre.le, hpost.le⟩

variable {src : ι → Int} {mem : Int → β}

/-- Copies one behind the other: a cell outside the range is as before. -/
theorem Tiles.moveAll_frame (h : Tiles dst width start visits stop) {p : Int}
    (hp : ¬ (start ≤ p ∧ p < stop)) :
    moveAll dst src width (fun _ block => block) mem visits p = mem p := by
  refine moveAll_of_notMem (fun _ _ _ hblock => hblock) fun v hv hmem => hp ?_
  have hbounds := h.bounds hv
  rw [mem_span] at hmem
  omega

/-- And one inside is what its copy reads, if no copy writes that. -/
theorem Tiles.moveAll_at (h : Tiles dst width start visits stop) {v : ι} (hv : v ∈ visits)
    {k : Nat} (hk : k < width v) (hsrc : ¬ (start ≤ src v + k ∧ src v + k < stop)) :
    moveAll dst src width (fun _ block => block) mem visits (dst v + k) = mem (src v + k) := by
  obtain ⟨pre, post, rfl⟩ := List.append_of_mem hv
  obtain ⟨hpre, hpost⟩ := h.split
  have hread : moveAll dst src width (fun _ block => block) mem pre (src v + k)
      = mem (src v + k) := by
    refine hpre.moveAll_frame fun hin => hsrc ⟨hin.1, ?_⟩
    have hle := hpost.le
    omega
  have hwidth : ∀ w ∈ post, ∀ block : List β, block.length = width w → block.length = width w :=
    fun _ _ _ hblock => hblock
  refine BlockStore.moveAll_at hwidth ?_ fun w hw hmem => ?_
  · rw [getElem?_load _ _ hk, hread]
  · have hbounds := hpost.bounds hw
    rw [mem_span] at hmem
    omega

end Tiles

end BlockStore
