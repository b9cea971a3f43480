/-
InfiniOps.Lib.Fifo — a small cache with first-in-first-out replacement over
resources that grow.

A request names a key and how much of its resource it needs. It is a hit if
the key is cached and the resource is large enough; a hit changes nothing.
A miss grows the resource to what is needed and inserts the key in front,
whether or not it is cached already, so that growth leaves duplicates
behind that push other keys out.

After a run the cache holds the last `n` misses (`recent_run`), and every
resource is as large as the run needed (`need_le_peak_run`). Repeating the
run therefore hits throughout if and only if each of its keys is among its
last `n` misses (`allHit_run_iff`). With more than `n` different keys that
never happens (`card_le_of_allHit`); from an empty cache and with one size
for each key it happens whenever there are at most `n`
(`allHit_of_steady`).
-/
import Mathlib.Data.Finset.Card
import Mathlib.Logic.Function.Basic

structure FifoRequest (κ : Type) where
  key : κ
  need : Nat

/-- The cached keys, newest first, and the size of each resource. -/
structure FifoCache (κ : Type) where
  recent : List κ
  peak : κ → Nat

namespace FifoCache

variable {κ : Type} [DecidableEq κ] (n : Nat)

def Hit (s : FifoCache κ) (r : FifoRequest κ) : Prop := r.key ∈ s.recent ∧ r.need ≤ s.peak r.key

instance (s : FifoCache κ) (r : FifoRequest κ) : Decidable (s.Hit r) :=
  inferInstanceAs (Decidable (_ ∧ _))

def step (s : FifoCache κ) (r : FifoRequest κ) : FifoCache κ :=
  if s.Hit r then s
  else
    { recent := (r.key :: s.recent).take n
      peak := Function.update s.peak r.key (max (s.peak r.key) r.need) }

def run (s : FifoCache κ) (rs : List (FifoRequest κ)) : FifoCache κ := rs.foldl (step n) s

/-- The keys that a run misses, in order. -/
def misses : FifoCache κ → List (FifoRequest κ) → List κ
  | _, [] => []
  | s, r :: rs => if s.Hit r then misses s rs else r.key :: misses (s.step n r) rs

/-- Every request of the run is a hit. -/
def AllHit : FifoCache κ → List (FifoRequest κ) → Prop
  | _, [] => True
  | s, r :: rs => s.Hit r ∧ AllHit (s.step n r) rs

variable {n}

theorem step_of_hit {s : FifoCache κ} {r : FifoRequest κ} (h : s.Hit r) : s.step n r = s := by
  unfold step
  rw [if_pos h]

/-- Hits change nothing, so they can be counted from the start. -/
theorem allHit_iff {s : FifoCache κ} {rs : List (FifoRequest κ)} :
    AllHit n s rs ↔ ∀ r ∈ rs, s.Hit r := by
  induction rs with
  | nil => simp [AllHit]
  | cons r rs ih =>
    simp only [AllHit, List.mem_cons, forall_eq_or_imp]
    constructor
    · intro h
      obtain ⟨hhit, hrest⟩ := h
      rw [step_of_hit hhit] at hrest
      exact ⟨hhit, ih.mp hrest⟩
    · intro h
      obtain ⟨hhit, hrest⟩ := h
      rw [step_of_hit hhit]
      exact ⟨hhit, ih.mpr hrest⟩

theorem step_of_miss {s : FifoCache κ} {r : FifoRequest κ} (h : ¬ s.Hit r) :
    s.step n r = ⟨(r.key :: s.recent).take n,
      Function.update s.peak r.key (max (s.peak r.key) r.need)⟩ := by
  unfold step
  rw [if_neg h]

/-! ## What a run leaves behind -/

theorem length_recent_step {s : FifoCache κ} (r : FifoRequest κ) (h : s.recent.length ≤ n) :
    (s.step n r).recent.length ≤ n := by
  unfold step
  split
  · exact h
  · exact List.length_take_le _ _

/-- The cache holds the last `n` misses, in front of what was there. -/
theorem recent_run {s : FifoCache κ} (rs : List (FifoRequest κ)) (h : s.recent.length ≤ n) :
    (s.run n rs).recent = ((misses n s rs).reverse ++ s.recent).take n := by
  induction rs generalizing s with
  | nil => simp [run, misses, List.take_of_length_le h]
  | cons r rs ih =>
    have hstep := ih (length_recent_step r h)
    show ((s.step n r).run n rs).recent = _
    rw [hstep]
    by_cases hhit : s.Hit r
    · rw [step_of_hit hhit, misses, if_pos hhit]
    · rw [misses, if_neg hhit, step_of_miss hhit, List.reverse_cons, List.append_assoc,
        List.singleton_append, List.take_append, List.take_append, List.take_take]
      congr 2
      omega

theorem peak_le_step (s : FifoCache κ) (r : FifoRequest κ) (k : κ) :
    s.peak k ≤ (s.step n r).peak k := by
  by_cases hhit : s.Hit r
  · rw [step_of_hit hhit]
  · rw [step_of_miss hhit]
    show s.peak k ≤ Function.update s.peak r.key _ k
    by_cases hk : k = r.key
    · subst hk
      rw [Function.update_self]
      exact Nat.le_max_left _ _
    · rw [Function.update_of_ne hk]

theorem peak_le_run (s : FifoCache κ) (rs : List (FifoRequest κ)) (k : κ) :
    s.peak k ≤ (s.run n rs).peak k := by
  induction rs generalizing s with
  | nil => exact Nat.le_refl _
  | cons r rs ih => exact (peak_le_step s r k).trans (ih (s.step n r))

theorem need_le_peak_step (s : FifoCache κ) (r : FifoRequest κ) :
    r.need ≤ (s.step n r).peak r.key := by
  by_cases hhit : s.Hit r
  · rw [step_of_hit hhit]
    exact hhit.2
  · rw [step_of_miss hhit]
    show r.need ≤ Function.update s.peak r.key _ r.key
    rw [Function.update_self]
    exact Nat.le_max_right _ _

/-- No resource is too small after the run for what the run asked. -/
theorem need_le_peak_run {s : FifoCache κ} {rs : List (FifoRequest κ)} {r : FifoRequest κ}
    (hr : r ∈ rs) : r.need ≤ (s.run n rs).peak r.key := by
  induction rs generalizing s with
  | nil => cases hr
  | cons q rs ih =>
    rcases List.mem_cons.mp hr with rfl | hr
    · exact (need_le_peak_step s r).trans (peak_le_run _ rs _)
    · exact ih hr

/-- A run can be repeated without a miss if and only if each of its keys is
among the last `n` misses. -/
theorem allHit_run_iff {s : FifoCache κ} (rs : List (FifoRequest κ)) (h : s.recent.length ≤ n) :
    AllHit n (s.run n rs) rs ↔
      ∀ r ∈ rs, r.key ∈ ((misses n s rs).reverse ++ s.recent).take n := by
  rw [allHit_iff, ← recent_run rs h]
  constructor
  · intro hhits r hr
    exact (hhits r hr).1
  · intro hcached r hr
    exact ⟨hcached r hr, need_le_peak_run hr⟩

/-! ## Counting keys -/

/-- More keys than places are never all cached. -/
theorem card_le_of_allHit {s : FifoCache κ} {rs : List (FifoRequest κ)}
    (h : s.recent.length ≤ n) (hhits : AllHit n (s.run n rs) rs) :
    (rs.map FifoRequest.key).toFinset.card ≤ n := by
  have hsub : (rs.map FifoRequest.key).toFinset ⊆
      (((misses n s rs).reverse ++ s.recent).take n).toFinset := by
    intro k hk
    obtain ⟨r, hr, rfl⟩ := List.mem_map.mp (List.mem_toFinset.mp hk)
    exact List.mem_toFinset.mpr ((allHit_run_iff rs h).mp hhits r hr)
  calc (rs.map FifoRequest.key).toFinset.card
      ≤ (((misses n s rs).reverse ++ s.recent).take n).toFinset.card := Finset.card_le_card hsub
    _ ≤ (((misses n s rs).reverse ++ s.recent).take n).length := List.toFinset_card_le _
    _ ≤ n := List.length_take_le _ _

/-- One size for each key. -/
def Steady (rs : List (FifoRequest κ)) : Prop := ∀ r ∈ rs, ∀ q ∈ rs, r.key = q.key → r.need = q.need

/-- Along a run of a steady list `rs`, after the requests `done`: the cache
is duplicate-free and holds exactly the keys asked so far, each with room
for its requests. -/
structure Loaded (rs done : List (FifoRequest κ)) (s : FifoCache κ) : Prop where
  nodup : s.recent.Nodup
  keys : ∀ k, k ∈ s.recent ↔ k ∈ done.map FifoRequest.key
  room : ∀ r ∈ rs, r.key ∈ s.recent → r.need ≤ s.peak r.key

/-- A new key finds a free place. -/
theorem Loaded.length_lt {rs done : List (FifoRequest κ)} {s : FifoCache κ} (h : Loaded rs done s)
    {r : FifoRequest κ} (hr : r ∈ rs) (hdone : done ⊆ rs)
    (hcard : (rs.map FifoRequest.key).toFinset.card ≤ n) (hnew : r.key ∉ s.recent) :
    (r.key :: s.recent).length ≤ n := by
  have hsub : (r.key :: s.recent).toFinset ⊆ (rs.map FifoRequest.key).toFinset := by
    intro k hk
    rw [List.mem_toFinset] at hk ⊢
    rcases List.mem_cons.mp hk with rfl | hk
    · exact List.mem_map_of_mem hr
    · obtain ⟨q, hq, rfl⟩ := List.mem_map.mp ((h.keys k).mp hk)
      exact List.mem_map_of_mem (hdone hq)
  rw [← List.toFinset_card_of_nodup (List.nodup_cons.mpr ⟨hnew, h.nodup⟩)]
  exact (Finset.card_le_card hsub).trans hcard

theorem Loaded.step {rs done : List (FifoRequest κ)} {s : FifoCache κ} (h : Loaded rs done s)
    {r : FifoRequest κ} (hr : r ∈ rs) (hdone : done ⊆ rs) (hsteady : Steady rs)
    (hcard : (rs.map FifoRequest.key).toFinset.card ≤ n) :
    Loaded rs (done ++ [r]) (s.step n r) := by
  have hkeys : ∀ k, k ∈ (done ++ [r]).map FifoRequest.key ↔ k = r.key ∨ k ∈ s.recent := by
    intro k
    rw [h.keys, List.map_append, List.mem_append, List.map_cons, List.map_nil, List.mem_singleton]
    exact or_comm
  by_cases hhit : s.Hit r
  · rw [step_of_hit hhit]
    refine ⟨h.nodup, ?_, h.room⟩
    intro k
    rw [hkeys]
    constructor
    · exact .inr
    · intro hk
      rcases hk with rfl | hk
      · exact hhit.1
      · exact hk
  · have hnew : r.key ∉ s.recent := fun hmem => hhit ⟨hmem, h.room r hr hmem⟩
    have hrecent : (s.step n r).recent = r.key :: s.recent := by
      rw [step_of_miss hhit]
      exact List.take_of_length_le (h.length_lt hr hdone hcard hnew)
    refine ⟨?_, ?_, ?_⟩
    · rw [hrecent]
      exact List.nodup_cons.mpr ⟨hnew, h.nodup⟩
    · intro k
      rw [hrecent, List.mem_cons, hkeys]
    · intro q hq hmem
      rw [hrecent] at hmem
      rcases List.mem_cons.mp hmem with hkey | hmem
      · rw [hsteady q hq r hr hkey, hkey]
        exact need_le_peak_step s r
      · exact (h.room q hq hmem).trans (peak_le_step s r _)

theorem Loaded.run {rs done todo : List (FifoRequest κ)} {s : FifoCache κ} (h : Loaded rs done s)
    (hsplit : done ++ todo = rs) (hsteady : Steady rs)
    (hcard : (rs.map FifoRequest.key).toFinset.card ≤ n) : Loaded rs rs (s.run n todo) := by
  induction todo generalizing done s with
  | nil =>
    rw [List.append_nil] at hsplit
    subst hsplit
    exact h
  | cons r todo ih =>
    have hr : r ∈ rs := by simp [← hsplit]
    have hdone : done ⊆ rs := by simp [← hsplit]
    exact ih (h.step hr hdone hsteady hcard) (by simp [← hsplit])

/-- From an empty cache, with one size for each key and no more keys than
places, every key is inserted once and stays. -/
theorem allHit_of_steady {s : FifoCache κ} {rs : List (FifoRequest κ)} (hempty : s.recent = [])
    (hsteady : Steady rs) (hcard : (rs.map FifoRequest.key).toFinset.card ≤ n) :
    AllHit n (s.run n rs) rs := by
  have hstart : Loaded rs [] s := ⟨by simp [hempty], by simp [hempty], by simp [hempty]⟩
  have hend := hstart.run rfl hsteady hcard
  rw [allHit_iff]
  intro r hr
  exact ⟨(hend.keys r.key).mpr (List.mem_map_of_mem hr), need_le_peak_run hr⟩

end FifoCache
