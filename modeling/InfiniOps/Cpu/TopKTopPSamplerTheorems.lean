/-
InfiniOps.Cpu.TopKTopPSamplerTheorems — which indices of a row the sampler
keeps, and what it draws.

The kept indices are the first of a descending sort, and `keepCount` is
the cutoff of the shares of their weights (`isCutoff_keepCount`). The
weights are taken relative to the greatest entry read, and in a sorted
row that is the first whatever the count, so the cut and the draw work with
the same weights. A cutoff is unique and grows with `p` and `k`, so
neither the order of equal logits nor a second sort matters.

The index that is drawn is then converted to `int32_t`, and the elements
are compared as `float`: where one of the two loses information, the token
is not in the row, or a greater element was dropped. `topKTopPSampler_eq`
is the call over all rows.
-/
import InfiniOps.Cpu.TopKTopPSampler
import InfiniOps.Lib.Except
import InfiniOps.Lib.PrefixShare
import Mathlib.Data.List.Sort

namespace InfiniOps

namespace Cpu

namespace Numerics

open PrefixShare

variable {T L K G : Type} [Field K] [LinearOrder K] [LinearOrder L]
variable {x : Numerics T L K G} {row : Int → T} {stride : Int} {vocabSize : Nat}

/-! ## The sorted row -/

/-- "Greater, by some key" is a comparison that `std::sort` takes. -/
theorem strictWeak_gt (key : Nat → L) :
    IsStrictWeakOrder Nat fun a b => decide (key a > key b) = true where
  irrefl a := by simp
  trans a b c hab hbc := by
    simp only [decide_eq_true_eq] at hab hbc ⊢
    exact hbc.trans hab
  incomp_trans a b c hab hbc := by
    simp only [decide_eq_true_eq, not_lt] at hab hbc ⊢
    exact ⟨hab.1.trans hbc.1, hbc.2.trans hab.2⟩

section

variable (x row stride vocabSize)

/-- The greatest logit of the row. -/
def IsTop (top : L) : Prop := IsGreatest {v | ∃ i < vocabSize, x.logit row stride i = v} top

end

section Sorted

variable (h : x.Documented)
include h

theorem perm_indices : (x.indices row stride vocabSize).Perm (List.range vocabSize) :=
  h.sort_perm _ (strictWeak_gt (x.logit row stride)) _

theorem mem_indices {i : Nat} : i ∈ x.indices row stride vocabSize ↔ i < vocabSize := by
  rw [(perm_indices h).mem_iff, List.mem_range]

theorem length_indices : (x.indices row stride vocabSize).length = vocabSize := by
  rw [(perm_indices h).length_eq, List.length_range]

/-- No later logit is greater. -/
theorem pairwise_indices : (x.indices row stride vocabSize).Pairwise fun a b =>
    x.logit row stride b ≤ x.logit row stride a := by
  refine (h.sort_ordered _ (strictWeak_gt (x.logit row stride)) _).imp ?_
  intro a b hab
  simpa using hab

/-- The first index has the greatest logit. -/
theorem isTop_head {i : Nat} {is : List Nat} (his : x.indices row stride vocabSize = i :: is) :
    x.IsTop row stride vocabSize (x.logit row stride i) := by
  have hpair : (x.indices row stride vocabSize).Pairwise fun a b =>
      x.logit row stride b ≤ x.logit row stride a := pairwise_indices h
  rw [his, List.pairwise_cons] at hpair
  refine ⟨⟨i, ?_, rfl⟩, ?_⟩
  · rw [← mem_indices h, his]
    exact List.mem_cons_self
  · intro v hv
    obtain ⟨j, hj, rfl⟩ := hv
    rw [← mem_indices h, his, List.mem_cons] at hj
    obtain rfl | hj := hj
    · exact le_rfl
    · exact hpair.1 j hj

variable (row stride) in
theorem exists_top (hvocab : 0 < vocabSize) : ∃ top, x.IsTop row stride vocabSize top := by
  have hlen : (x.indices row stride vocabSize).length = vocabSize := length_indices h
  obtain ⟨i, is, his⟩ := List.exists_cons_of_length_pos (hlen ▸ hvocab)
  exact ⟨_, isTop_head h his⟩

end Sorted

/-- What is dropped is not greater than what is kept. -/
theorem rel_of_take {α : Type} {R : α → α → Prop} {l : List α} (hl : l.Pairwise R) {n : Nat}
    {a b : α} (ha : a ∈ l.take n) (hb : b ∈ l) (hdrop : b ∉ l.take n) : R a b := by
  have hsplit : b ∈ l.take n ∨ b ∈ l.drop n := by
    rw [← List.mem_append, List.take_append_drop]
    exact hb
  rw [← List.take_append_drop n l, List.pairwise_append] at hl
  exact hl.2.2 a ha b (hsplit.resolve_left hdrop)

/-! ## The weights -/

omit [Field K] [LinearOrder K] in
/-- The greatest entry is the first one. -/
theorem maxVal_cons {v : L} {vs : List L} (hvs : ∀ u ∈ vs, u ≤ v) : maxVal (v :: vs) = some v := by
  rw [maxVal, List.foldl_cons]
  simp only [Option.all_none, if_true]
  induction vs with
  | nil => rfl
  | cons u vs ih =>
    have hu : ¬ u > v := (hvs u List.mem_cons_self).not_gt
    rw [List.foldl_cons]
    simp only [Option.all_some, hu, decide_false, Bool.false_eq_true, if_false]
    exact ih fun u hmem => hvs u (List.mem_cons_of_mem _ hmem)

section Weights

variable (x row stride vocabSize) [Sub L]

/-- The weights of the sorted row, relative to its greatest logit. -/
def sortedWeights (top : L) : List K :=
  (x.indices row stride vocabSize).map fun i => x.exp (x.logit row stride i - top)

end Weights

section Cut

variable [Sub L] (h : x.Documented)
include h

theorem length_sortedWeights {top : L} :
    (x.sortedWeights row stride vocabSize top).length = vocabSize := by
  rw [sortedWeights, List.length_map, length_indices h]

theorem sortedWeights_pos {top : L} : ∀ w ∈ x.sortedWeights row stride vocabSize top, 0 < w := by
  intro w hw
  obtain ⟨i, -, rfl⟩ := List.mem_map.mp hw
  exact h.exp_pos _

/-- Whatever the count, the loops compute the weights of the sorted row. -/
theorem expWeights_entries {top : L} (htop : x.IsTop row stride vocabSize top) {n : Nat}
    (hn : 0 < n) :
    x.expWeights (x.entries row stride (x.indices row stride vocabSize) n)
      = (x.sortedWeights row stride vocabSize top).take n := by
  have hpair : (x.indices row stride vocabSize).Pairwise fun a b =>
      x.logit row stride b ≤ x.logit row stride a := pairwise_indices h
  obtain ⟨n, rfl⟩ := Nat.exists_eq_add_of_lt hn
  cases his : x.indices row stride vocabSize with
  | nil => simp [entries, expWeights, maxVal, sortedWeights, his]
  | cons i is =>
    rw [his, List.pairwise_cons] at hpair
    obtain rfl : top = x.logit row stride i := htop.unique (isTop_head h his)
    have hmax : maxVal ((i :: is.take (0 + n)).map (x.logit row stride))
        = some (x.logit row stride i) := by
      refine maxVal_cons fun u hu => ?_
      obtain ⟨j, hj, rfl⟩ := List.mem_map.mp hu
      exact hpair.1 j (List.mem_of_mem_take hj)
    rw [entries, sortedWeights, his, ← List.map_take, List.take_succ_cons, expWeights, hmax]
    exact List.map_map

variable (row stride) in
/-- The first `n` weights are positive, and they are `n`. -/
theorem take_sortedWeights (top : L) {n : Nat} (hn : n ≤ vocabSize) :
    (∀ w ∈ (x.sortedWeights row stride vocabSize top).take n, 0 < w) ∧
      ((x.sortedWeights row stride vocabSize top).take n).length = n := by
  refine ⟨fun w hw => sortedWeights_pos h w (List.mem_of_mem_take hw), ?_⟩
  rw [List.length_take, length_sortedWeights h, Nat.min_eq_left hn]

end Cut

/-! ## How many are kept -/

/-- The kept set, in order. -/
def kept [Sub L] (x : Numerics T L K G) (row : Int → T) (stride : Int) (vocabSize : Nat)
    (topK : Int) (topP : K) : List Nat :=
  (x.indices row stride vocabSize).take (x.keepCount row stride vocabSize topK topP)

/-- Of two indices, the one that is dropped has no greater logit. -/
theorem logit_le_of_dropped [Sub L] (h : x.Documented) {topK : Int} {topP : K} {i j : Nat}
    (hi : i ∈ x.kept row stride vocabSize topK topP) (hj : j < vocabSize)
    (hdrop : j ∉ x.kept row stride vocabSize topK topP) :
    x.logit row stride j ≤ x.logit row stride i :=
  rel_of_take (pairwise_indices h) hi ((mem_indices h).mpr hj) hdrop

theorem normalizeTopK_le (topK : Int) : normalizeTopK vocabSize topK ≤ vocabSize := by
  unfold normalizeTopK
  split <;> omega

theorem normalizeTopK_pos (hvocab : 0 < vocabSize) (topK : Int) :
    0 < normalizeTopK vocabSize topK := by
  unfold normalizeTopK
  split <;> omega

theorem normalizeTopK_mono {k k' : Int} (hk : 1 ≤ k) (hkk : k ≤ k') :
    normalizeTopK vocabSize k ≤ normalizeTopK vocabSize k' := by
  unfold normalizeTopK
  split <;> split <;> omega

omit [LinearOrder K] in
theorem share_succ {ws done rest : List K} {w : K} (hws : done ++ w :: rest = ws) :
    share ws ws.length done.length + w / ws.sum = share ws ws.length (done.length + 1) := by
  have hsum : prefixSum ws ws.length = ws.sum := by rw [prefixSum, List.take_length]
  have hdone : prefixSum ws done.length = done.sum := by simp [prefixSum, ← hws]
  have hnext : prefixSum ws (done.length + 1) = done.sum + w := by
    rw [prefixSum, ← hws, List.take_length_add_append]
    simp
  rw [share, share, hsum, hdone, hnext, add_div]

omit [LinearOrder L] in
/-- The loop stops at the cutoff: so far the shares were below `p`, and the
last one is not. -/
theorem cutoff_eq {ws : List K} {p : K} (hend : p ≤ share ws ws.length ws.length)
    (rest done : List K) (hws : done ++ rest = ws)
    (hbelow : ∀ m ≤ done.length, share ws ws.length m < p) :
    ∃ m, cutoff ws.sum p (share ws ws.length done.length) done.length rest = some m ∧
      IsCutoff ws ws.length p m := by
  induction rest generalizing done with
  | nil =>
    rw [List.append_nil] at hws
    subst hws
    exact absurd hend (hbelow _ le_rfl).not_ge
  | cons w rest ih =>
    rw [cutoff, share_succ hws]
    by_cases hp : share ws ws.length (done.length + 1) ≥ p
    · rw [if_pos hp]
      refine ⟨_, rfl, ⟨?_, hp⟩, ?_⟩
      · rw [← hws, List.length_append, List.length_cons]
        omega
      · intro m hm
        by_contra hlt
        exact (hbelow m (by omega)).not_ge hm.2
    · rw [if_neg hp]
      have hstep := ih (done ++ [w]) (by simpa using hws)
      rw [List.length_append, List.length_singleton] at hstep
      refine hstep fun m hm => ?_
      rcases Nat.eq_or_lt_of_le hm with rfl | hlt
      · exact lt_of_not_ge hp
      · exact hbelow m (by omega)

section Kept

variable [IsStrictOrderedRing K] [Sub L] (h : x.Documented) (hvocab : 0 < vocabSize)
include h

theorem isCutoff_applyTopP {top : L} (htop : x.IsTop row stride vocabSize top) {n : Nat}
    (hn : 0 < n) (hle : n ≤ vocabSize) {p : K} (hp : 0 < p) (hp' : p ≤ 1) :
    IsCutoff (x.sortedWeights row stride vocabSize top) n p
      (x.applyTopP row stride p (x.indices row stride vocabSize) n) := by
  obtain ⟨hpos, hlen⟩ := take_sortedWeights row stride h top hle
  rw [applyTopP, expWeights_entries h htop hn, ← isCutoff_take]
  generalize (x.sortedWeights row stride vocabSize top).take n = ws at hpos hlen
  subst hlen
  have hend : p ≤ share ws ws.length ws.length := by
    rw [share_self hpos hn le_rfl]
    exact hp'
  obtain ⟨m, hm, hcut⟩ := cutoff_eq hend ws [] rfl (by simpa using hp)
  rw [List.length_nil, share_zero] at hm
  rw [hm]
  exact hcut

include hvocab in
theorem isCutoff_keepCount {top : L} (htop : x.IsTop row stride vocabSize top) (topK : Int)
    {p : K} (hp : 0 < p) (hp' : p ≤ 1) :
    IsCutoff (x.sortedWeights row stride vocabSize top) (normalizeTopK vocabSize topK) p
      (x.keepCount row stride vocabSize topK p) := by
  have hn := normalizeTopK_pos hvocab topK
  have hle : normalizeTopK vocabSize topK ≤ vocabSize := normalizeTopK_le topK
  rcases hp'.eq_or_lt with rfl | hlt
  · rw [keepCount, if_neg fun hand => lt_irrefl _ hand.2]
    exact isCutoff_one (sortedWeights_pos h) hn ((length_sortedWeights h).symm ▸ hle)
  · rw [keepCount, if_pos ⟨hp, hlt⟩]
    exact isCutoff_applyTopP h htop hn hle hp hp'

variable (row stride) in
include hvocab in
/-- At least one is kept, and at most the `k`, for every `p`. -/
theorem keepCount_bounds (topK : Int) (p : K) :
    0 < x.keepCount row stride vocabSize topK p ∧
      x.keepCount row stride vocabSize topK p ≤ normalizeTopK vocabSize topK := by
  by_cases hp : 0 < p ∧ p < 1
  · obtain ⟨top, htop⟩ := exists_top row stride h hvocab
    have hcut := isCutoff_keepCount h hvocab htop topK hp.1 hp.2.le
    exact ⟨hcut.pos hp.1, hcut.1.1⟩
  · rw [keepCount, if_neg hp]
    exact ⟨normalizeTopK_pos hvocab topK, le_rfl⟩

include hvocab in
theorem keepCount_mono {k k' : Int} {p p' : K} (hk : 1 ≤ k) (hkk : k ≤ k') (hp : 0 < p)
    (hpp : p ≤ p') (hp' : p' ≤ 1) :
    x.keepCount row stride vocabSize k p ≤ x.keepCount row stride vocabSize k' p' := by
  obtain ⟨top, htop⟩ := exists_top row stride h hvocab
  have hcut := isCutoff_keepCount h hvocab htop k hp (hpp.trans hp')
  have hcut' := isCutoff_keepCount h hvocab htop k' (hp.trans_le hpp) hp'
  refine hcut.mono (sortedWeights_pos h) hcut' (normalizeTopK_pos hvocab k)
    (normalizeTopK_mono hk hkk) ?_ hpp
  rw [length_sortedWeights h]
  exact normalizeTopK_le k'

/-! ## What is drawn -/

variable (row stride) in
include hvocab in
/-- The draw is inside of the kept indices. -/
theorem sampleRow_eq (topK : Int) (topP : K) (rng : G) :
    ∃ i ∈ x.kept row stride vocabSize topK topP, ∃ rng',
      x.sampleRow row stride vocabSize topK topP rng = some (toInt32 i, rng') := by
  obtain ⟨hpos, hle⟩ := keepCount_bounds row stride h hvocab topK topP
  have hinside : ∀ n < x.keepCount row stride vocabSize topK topP, ∀ rng' : G,
      ∃ i ∈ x.kept row stride vocabSize topK topP, ∃ rng'',
        ((x.indices row stride vocabSize)[n]?).map (fun id : Nat => (toInt32 id, rng'))
          = some (toInt32 i, rng'') := by
    intro n hn rng'
    have hlen : n < (x.indices row stride vocabSize).length := by
      rw [length_indices h]
      exact hn.trans_le (hle.trans (normalizeTopK_le topK))
    refine ⟨(x.indices row stride vocabSize)[n], ?_, rng', ?_⟩
    · exact List.mem_take_iff_getElem.mpr ⟨n, by omega, rfl⟩
    · rw [List.getElem?_eq_getElem hlen, Option.map_some]
  rw [sampleRow]
  by_cases hone : x.keepCount row stride vocabSize topK topP = 1
  · rw [if_pos hone]
    exact hinside 0 hpos rng
  · rw [if_neg hone]
    refine hinside _ ?_ _
    obtain ⟨top, htop⟩ := exists_top row stride h hvocab
    rw [expWeights_entries h htop hpos]
    obtain ⟨hwpos, hwlen⟩ := take_sortedWeights row stride h top
      (hle.trans (normalizeTopK_le topK))
    have hne : (x.sortedWeights row stride vocabSize top).take
        (x.keepCount row stride vocabSize topK topP) ≠ [] := by
      refine List.ne_nil_of_length_pos ?_
      rw [hwlen]
      exact hpos
    exact (h.draw_lt _ rng hne hwpos).trans_eq hwlen

/-- For `k = 1`, the greatest logit is sampled. -/
theorem sampleRow_one {i : Nat} (hi : i < vocabSize)
    (hmax : ∀ j < vocabSize, j ≠ i → x.logit row stride j < x.logit row stride i) (topP : K)
    (rng : G) :
    ∃ rng', x.sampleRow row stride vocabSize 1 topP rng = some (toInt32 i, rng') := by
  have hvocab : 0 < vocabSize := by omega
  obtain ⟨hpos, hle⟩ := keepCount_bounds row stride h hvocab 1 topP
  obtain ⟨i', hmem, rng', hsample⟩ := sampleRow_eq row stride h hvocab 1 topP rng
  have heq : i' = i := by
    by_contra hne
    have hlt := hmax i' ((mem_indices h).mp (List.mem_of_mem_take hmem)) hne
    by_cases hin : i ∈ x.kept row stride vocabSize 1 topP
    · -- one index is kept, and it is both
      have hone : (x.kept row stride vocabSize 1 topP).length ≤ 1 := by
        have hnorm : normalizeTopK vocabSize 1 = 1 := by
          unfold normalizeTopK
          split <;> omega
        rw [kept, List.length_take]
        omega
      obtain ⟨a, ha⟩ := List.length_eq_one_iff.mp
        (hone.antisymm (List.length_pos_of_mem hmem))
      rw [ha, List.mem_singleton] at hmem hin
      exact hne (hmem.trans hin.symm)
    · exact (logit_le_of_dropped h hmem hi hin).not_gt hlt
  exact ⟨rng', heq ▸ hsample⟩

end Kept

/-! ## The sampler -/

/-- What the sampler does with a row, for one `k` and one `p`. -/
structure KeepsNucleus [LinearOrder T] [Sub L] (x : Numerics T L K G) (row : Int → T)
    (stride : Int) (vocabSize : Nat) (topK : Int) (topP : K) : Prop where
  /-- The kept indices are the first of a descending sort. -/
  sorted : (x.indices row stride vocabSize).Perm (List.range vocabSize) ∧
    (x.indices row stride vocabSize).Pairwise fun a b =>
      x.logit row stride b ≤ x.logit row stride a
  length_kept : (x.kept row stride vocabSize topK topP).length
    = x.keepCount row stride vocabSize topK topP
  /-- They are as few as have the share `p` of the first `k`. -/
  least : ∃ top, x.IsTop row stride vocabSize top ∧
    IsCutoff (x.sortedWeights row stride vocabSize top) (normalizeTopK vocabSize topK) topP
      (x.keepCount row stride vocabSize topK topP)
  dropped_le : ∀ i ∈ x.kept row stride vocabSize topK topP, ∀ j < vocabSize,
    j ∉ x.kept row stride vocabSize topK topP →
      x.logit row stride j ≤ x.logit row stride i ∧
        (StrictMono x.cast → row (j * stride) ≤ row (i * stride))
  /-- Whatever is drawn, the token is a kept index as an `int32_t`. -/
  sampled : ∀ rng, ∃ i ∈ x.kept row stride vocabSize topK topP, i < vocabSize ∧ ∃ rng',
    x.sampleRow row stride vocabSize topK topP rng = some (toInt32 i, rng') ∧
      (vocabSize ≤ 2 ^ 31 → toInt32 i = i)

/-- The sampler keeps the nucleus of every row, and more of it for a greater
`p` or `k`. -/
theorem sampler_keeps_nucleus [IsStrictOrderedRing K] [LinearOrder T] [Sub L]
    {x : Numerics T L K G} (h : x.Documented) (row : Int → T) (stride : Int) (vocabSize : Nat)
    (hvocab : 0 < vocabSize) :
    (∀ (k : Int) (p : K), 0 < p → p ≤ 1 → x.KeepsNucleus row stride vocabSize k p) ∧
      ∀ (k k' : Int) (p p' : K), 1 ≤ k → k ≤ k' → 0 < p → p ≤ p' → p' ≤ 1 →
        x.keepCount row stride vocabSize k p ≤ x.keepCount row stride vocabSize k' p' := by
  refine ⟨fun k p hp hp' => ?_, fun k k' p p' hk hkk hp hpp hp' =>
    keepCount_mono h hvocab hk hkk hp hpp hp'⟩
  obtain ⟨top, htop⟩ := exists_top row stride h hvocab
  refine ⟨⟨perm_indices h, pairwise_indices h⟩, ?_,
    ⟨top, htop, isCutoff_keepCount h hvocab htop k hp hp'⟩, ?_, ?_⟩
  · have hle := (keepCount_bounds row stride h hvocab k p).2
    rw [kept, List.length_take, length_indices h]
    exact Nat.min_eq_left (hle.trans (normalizeTopK_le k))
  · intro i hi j hj hdrop
    have hle := logit_le_of_dropped h hi hj hdrop
    exact ⟨hle, fun hcast => hcast.le_iff_le.mp hle⟩
  · intro rng
    obtain ⟨i, hmem, rng', hsample⟩ := sampleRow_eq row stride h hvocab k p rng
    have hi := (mem_indices h).mp (List.mem_of_mem_take hmem)
    exact ⟨i, hmem, hi, rng', hsample, fun hsmall => toInt32_natCast (hi.trans_le hsmall)⟩

/-! ## Where a conversion shows -/

/-- What does not compare less is ordered, for any weak order. -/
theorem not_lt_trans {lt : Nat → Nat → Prop} (hlt : IsStrictWeakOrder Nat lt) {a b c : Nat}
    (hab : ¬ lt b a) (hbc : ¬ lt c b) : ¬ lt c a := by
  intro hca
  have hba : ¬ lt a b := fun h => hbc (hlt.trans _ _ _ hca h)
  have hcb : ¬ lt b c := fun h => hab (hlt.trans _ _ _ h hca)
  exact (hlt.incomp_trans a b c ⟨hba, hab⟩ ⟨hcb, hbc⟩).2 hca

/-- Rows of integers with powers of two for `exp`, a stable sort, and a
distribution that draws its first index. -/
def ofIntegers (cast : Int → Int) : Numerics Int Int ℚ Unit where
  sort comp l := l.mergeSort fun a b => !comp b a
  cast := cast
  exp v := 2 ^ v
  draw _ _ := (0, ())

theorem documented_ofIntegers (cast : Int → Int) : (ofIntegers cast).Documented where
  sort_perm comp _ l := List.mergeSort_perm l _
  sort_ordered comp hcomp l := by
    have htrans : ∀ a b c, (!comp b a) = true → (!comp c b) = true → (!comp c a) = true := by
      intro a b c hab hbc
      simpa using not_lt_trans hcomp (by simpa using hab) (by simpa using hbc)
    have htotal : ∀ a b, ((!comp b a) || (!comp a b)) = true := by
      intro a b
      have hasymm : ¬ (comp b a = true ∧ comp a b = true) := fun h =>
        hcomp.irrefl a (hcomp.trans _ _ _ h.2 h.1)
      simpa [Bool.or_eq_true, imp_iff_not_or] using hasymm
    refine (List.pairwise_mergeSort htrans htotal l).imp ?_
    intro a b hab
    simpa using hab
  exp_pos v := zpow_pos (by decide) v
  draw_lt weights _ hne _ := List.length_pos_iff.mpr hne

theorem sampler_keeps_nucleus_of_three :
    (ofIntegers id).KeepsNucleus (fun o => o) 1 3 2 (1 / 2) ∧
      (ofIntegers id).keepCount (fun o => o) 1 3 2 (1 / 2)
        ≤ (ofIntegers id).keepCount (fun o => o) 1 3 3 (3 / 4) := by
  obtain ⟨hkeeps, hmono⟩ :=
    sampler_keeps_nucleus (documented_ofIntegers id) (fun o => o) 1 3 (by decide)
  exact ⟨hkeeps 2 (1 / 2) (by norm_num) (by norm_num),
    hmono 2 3 (1 / 2) (3 / 4) (by decide) (by decide) (by norm_num) (by norm_num) (by norm_num)⟩

/-- `Cast<float>` of the whole numbers from 0 to `2 ^ 25`: from `2 ^ 24` on
the floats are the even ones, and a tie goes to a multiple of four. -/
def roundToFloat (v : Int) : Int :=
  if v < 2 ^ 24 then v else if v % 4 = 3 then v + 1 else v - v % 2

/-- The last of `2 ^ 31 + 1` tokens is sampled as a negative one, and of two
elements that are one `float` the greater is dropped. -/
theorem token_and_order_lost :
    (ofIntegers id).sampleRow (fun o => if o = 2 ^ 31 then 1 else 0) 1 (2 ^ 31 + 1) 1 1 ()
        = some (-2 ^ 31, ()) ∧
      ∃ i ∈ (ofIntegers roundToFloat).kept (fun o => 2 ^ 24 + o) 1 2 1 1, ∃ j < 2,
        j ∉ (ofIntegers roundToFloat).kept (fun o => 2 ^ 24 + o) 1 2 1 1 ∧
          (2 ^ 24 + i : Int) < 2 ^ 24 + j := by
  constructor
  · have hmax : ∀ j < 2 ^ 31 + 1, j ≠ 2 ^ 31 →
        (ofIntegers id).logit (fun o => if o = 2 ^ 31 then 1 else 0) 1 j
          < (ofIntegers id).logit (fun o => if o = 2 ^ 31 then 1 else 0) 1 (2 ^ 31) := by
      intro j _ hne
      have hj : (j : Int) ≠ 2147483648 := by omega
      simp [logit, ofIntegers, hj]
    obtain ⟨_, h⟩ := sampleRow_one (documented_ofIntegers id) (Nat.lt_succ_self _) hmax 1 ()
    rw [h]
    have hwrap : toInt32 (2 ^ 31 : Nat) = -2 ^ 31 := by decide +kernel
    rw [hwrap]
  · have hsorted : (ofIntegers roundToFloat).indices (fun o => 2 ^ 24 + o) 1 2 = [0, 1] :=
      List.mergeSort_of_pairwise (by decide)
    have hone : (ofIntegers roundToFloat).keepCount (fun o => 2 ^ 24 + o) 1 2 1 1 = 1 := by
      rw [keepCount, if_neg (by norm_num)]
      rfl
    have hkept : (ofIntegers roundToFloat).kept (fun o => 2 ^ 24 + o) 1 2 1 1 = [0] := by
      rw [kept, hsorted, hone]
      rfl
    rw [hkept]
    exact ⟨0, by decide, 1, by decide, by decide, by decide⟩

end Numerics

/-! ## All rows -/

namespace TopKTopPSampler

/-- `GetP` reads every `p` that the constructor accepts. -/
theorem getP_of_validateP {K : Type} [Field K] {T : Type} {contents : Contents T K}
    {batchSize : Nat} {p : Option Tensor} (h : validateP batchSize p = .ok ()) (row : Nat) :
    ∃ topP, getP contents p row = .ok topP := by
  cases p with
  | none => exact ⟨1, rfl⟩
  | some t =>
    simp only [validateP, validateParameter, bind_assertion_eq_ok] at h
    obtain ⟨-, -, h⟩ := h
    have hdtype : t.dtype ∈ [.kFloat16, .kBFloat16, .kFloat32, .kFloat64] := by
      by_contra hnot
      rw [assertion, if_neg hnot] at h
      cases h
    refine ⟨contents.p t.dtype (parameterOffset t row), ?_⟩
    simp only [List.mem_cons, List.not_mem_nil, or_false] at hdtype
    obtain hd | hd | hd | hd := hdtype <;> simp [getP, hd]

section Rows

variable {T L K G : Type} [Field K] [LinearOrder K] [IsStrictOrderedRing K] [LinearOrder L] [Sub L]
variable {m : TopKTopPSampler} {x : Numerics T L K G} {contents : Contents T K}
variable {logits : Tensor} {k p : Option Tensor} {out : Tensor} {dtype : DataType}

/-- A token of the row is an index that is kept of it, as an `int32_t`. -/
def IsToken (m : TopKTopPSampler) (x : Numerics T L K G) (contents : Contents T K)
    (logits : Tensor) (k p : Option Tensor) (dtype : DataType) (row : Nat) (token : Int) : Prop :=
  ∃ topP, getP contents p row = .ok topP ∧
    ∃ i ∈ x.kept (rowData contents logits dtype row) (logits.stride 1) m.vocabSize
      (m.getK contents k row) topP, token = toInt32 i

variable (h : x.Documented) (hvocab : 0 < m.vocabSize)
  (hp : ∀ row, ∃ topP, getP contents p row = .ok topP)
include h hvocab hp

theorem computeRow_eq (state : (Int → Int) × G) (row : Nat) :
    ∃ token rng, m.IsToken x contents logits k p dtype row token ∧
      m.computeRow x contents logits k p out dtype state row
        = pure (Function.update state.1 (row * out.stride 0) token, rng) := by
  obtain ⟨topP, htopP⟩ := hp row
  obtain ⟨i, hi, rng, hsample⟩ := x.sampleRow_eq (rowData contents logits dtype row)
    (logits.stride 1) h hvocab (m.getK contents k row) topP state.2
  refine ⟨toInt32 i, rng, ⟨topP, htopP, i, hi, rfl⟩, ?_⟩
  have hlift : (OptionT.lift (.ok topP) : OptionT (Except Failure) K) = pure topP := rfl
  simp only [computeRow, htopP, hlift, pure_bind, hsample]
  rfl

variable (dtype) in
/-- Every row has its token in `out`. -/
theorem compute_eq (hstride : out.stride 0 ≠ 0) (outData : Int → Int) (rng : G) :
    ∃ outData' rng', m.compute x contents logits k p out dtype outData rng
        = pure (outData', rng') ∧
      ∀ row < m.batchSize,
        m.IsToken x contents logits k p dtype row (outData' (row * out.stride 0)) := by
  rw [compute]
  induction m.batchSize with
  | zero => exact ⟨outData, rng, rfl, fun _ hrow => absurd hrow (Nat.not_lt_zero _)⟩
  | succ n ih =>
    obtain ⟨written, rng', hrun, hwritten⟩ := ih
    obtain ⟨token, rng'', htoken, hstep⟩ := computeRow_eq h hvocab hp (written, rng') n
    refine ⟨Function.update written (n * out.stride 0) token, rng'', ?_, ?_⟩
    · rw [List.range_succ, List.foldlM_append, hrun, pure_bind, List.foldlM_cons, hstep, pure_bind]
      rfl
    · intro row hrow
      rcases Nat.eq_or_lt_of_le (Nat.le_of_lt_succ hrow) with rfl | hlt
      · rw [Function.update_self]
        exact htoken
      · have hne : (row : Int) * out.stride 0 ≠ n * out.stride 0 := by
          intro heq
          have := Int.eq_of_mul_eq_mul_right hstride heq
          omega
        rw [Function.update_of_ne hne]
        exact hwritten row hlt

end Rows

end TopKTopPSampler

section Call

variable {T L K G : Type} [Field K] [LinearOrder K] [IsStrictOrderedRing K] [LinearOrder L] [Sub L]

/-- A call that the constructor accepts returns, with a token of every row. -/
theorem topKTopPSampler_eq {m : TopKTopPSampler} {x : Numerics T L K G}
    (h : x.Documented) (contents : TopKTopPSampler.Contents T K) {logits : Tensor}
    {k p : Option Tensor} {out : Tensor} (hnew : TopKTopPSampler.new logits k p out = .ok m)
    (hvocab : 0 < m.vocabSize) (hstride : out.stride 0 ≠ 0) (outData : Int → Int) (rng : G) :
    ∃ outData' rng', topKTopPSampler x contents logits k p out outData rng
        = .ok (some (outData', rng')) ∧
      ∀ row < m.batchSize,
        m.IsToken x contents logits k p logits.dtype row (outData' (row * out.stride 0)) := by
  have hmembers := hnew
  simp only [TopKTopPSampler.new, bind_assertion_eq_ok] at hmembers
  obtain ⟨-, hdtype, -, -, -, hmembers⟩ := hmembers
  obtain ⟨_, -, hmembers⟩ := bind_eq_ok.mp hmembers
  obtain ⟨_, hp, hmembers⟩ := bind_eq_ok.mp hmembers
  obtain rfl := Except.ok.inj hmembers
  obtain ⟨outData', rng', hrun, htokens⟩ := TopKTopPSampler.compute_eq logits.dtype h hvocab
    (TopKTopPSampler.getP_of_validateP hp) hstride outData rng
  refine ⟨outData', rng', ?_, htokens⟩
  have hall : logits.dtype ∈ allFloatTypes := by
    simp only [List.mem_cons, List.not_mem_nil, or_false] at hdtype
    obtain hd | hd | hd | hd := hdtype <;> rw [hd] <;> decide
  rw [topKTopPSampler, hnew, ok_bind, dispatchFunc_of_mem _ _ _ _ hall rfl, hrun]
  rfl

end Call

end Cpu

end InfiniOps
