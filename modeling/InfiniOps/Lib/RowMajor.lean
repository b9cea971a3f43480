/-
InfiniOps.Lib.RowMajor — multi-indices of any rank and their row-major
numbers.

* `Valid shape idx` — every coordinate is below its extent.
* `unravel`, `ravel` — the multi-index with a given number and back; on
  numbers below the product and valid multi-indices they are inverse
  (`ravel_unravel`, `unravel_ravel`).
* `indices shape` — all multi-indices, in the order of their numbers
  (`indices_eq`).
* `dot idx strides` — the offset of a multi-index. With the strides of a
  contiguous array it is the number itself (`dot_suffixProds`), also
  modulo a machine word (`dot_modEq`).
* `Broadcasts`, `broadcastIndex`, `broadcastShape` — extents of 1 repeated
  up to those of another shape.

Shapes may have extents of zero and rank zero.
-/
import InfiniOps.Lib.RowSplit
import Mathlib.Algebra.BigOperators.Group.List.Basic
import Mathlib.Algebra.Order.Ring.Int
import Mathlib.Data.Finset.Max
import Mathlib.Data.Int.ModEq
import Mathlib.Data.List.Forall2
import Mathlib.Data.List.GetD
import Mathlib.Tactic.Ring

namespace RowMajor

/-- Every coordinate is below its extent. -/
def Valid (shape idx : List Nat) : Prop := List.Forall₂ (· < ·) idx shape

def unravel : List Nat → Nat → List Nat
  | [], _ => []
  | d :: ds, flat => flat / ds.prod % d :: unravel ds flat

def ravel : List Nat → List Nat → Nat
  | _ :: ds, i :: is => i * ds.prod + ravel ds is
  | _, _ => 0

/-- The offset of a multi-index. -/
def dot : List Nat → List Int → Int
  | i :: is, s :: ss => i * s + dot is ss
  | _, _ => 0

@[simp] theorem unravel_nil (flat : Nat) : unravel [] flat = [] := rfl

@[simp] theorem length_unravel (shape : List Nat) (flat : Nat) :
    (unravel shape flat).length = shape.length := by
  induction shape with
  | nil => rfl
  | cons d ds ih => simp [unravel, ih]

theorem Valid.length_eq {shape idx : List Nat} (h : Valid shape idx) :
    idx.length = shape.length :=
  List.Forall₂.length_eq h

theorem Valid.append {shape shape' idx idx' : List Nat} (h : Valid shape idx)
    (h' : Valid shape' idx') : Valid (shape ++ shape') (idx ++ idx') := by
  induction h with
  | nil => exact h'
  | cons hlt _ ih => exact .cons hlt ih

theorem Valid.prod_pos {shape idx : List Nat} (h : Valid shape idx) : 0 < shape.prod := by
  induction h with
  | nil => simp
  | cons hlt _ ih => simp only [List.prod_cons, Nat.mul_pos (Nat.zero_lt_of_lt hlt) ih]

theorem unravel_valid {shape : List Nat} (h : 0 < shape.prod) (flat : Nat) :
    Valid shape (unravel shape flat) := by
  induction shape with
  | nil => exact .nil
  | cons d ds ih =>
    rw [List.prod_cons] at h
    exact .cons (Nat.mod_lt _ (Nat.pos_of_mul_pos_right h)) (ih (Nat.pos_of_mul_pos_left h))

theorem Valid.set {shape idx : List Nat} (h : Valid shape idx) (d : Nat) {i extent : Nat}
    (hi : i < extent) : Valid (shape.set d extent) (idx.set d i) := by
  induction h generalizing d with
  | nil => exact .nil
  | cons hlt htail ih =>
    cases d with
    | zero => exact .cons hi htail
    | succ d => exact .cons hlt (ih d)

theorem Valid.getD_lt {shape idx : List Nat} (h : Valid shape idx) {d : Nat}
    (hd : d < shape.length) : idx.getD d 0 < shape.getD d 0 := by
  have hd' : d < idx.length := h.length_eq ▸ hd
  rw [List.getD_eq_getElem _ _ hd, List.getD_eq_getElem _ _ hd']
  exact List.Forall₂.get h hd' hd

theorem ravel_lt {shape idx : List Nat} (h : Valid shape idx) : ravel shape idx < shape.prod := by
  induction h with
  | nil => simp [ravel]
  | @cons i d is ds hlt _ ih =>
    calc i * ds.prod + ravel ds is < i * ds.prod + ds.prod := Nat.add_lt_add_left ih _
      _ = (i + 1) * ds.prod := (Nat.succ_mul _ _).symm
      _ ≤ d * ds.prod := Nat.mul_le_mul_right _ hlt
      _ = (d :: ds).prod := List.prod_cons.symm

/-- Only the number modulo the product counts. -/
theorem unravel_add_mul (shape : List Nat) (flat k : Nat) :
    unravel shape (flat + shape.prod * k) = unravel shape flat := by
  induction shape generalizing k with
  | nil => rfl
  | cons d ds ih =>
    have hsplit : flat + (d :: ds).prod * k = flat + ds.prod * (d * k) := by
      rw [List.prod_cons]
      ring
    have hhead : (flat + ds.prod * (d * k)) / ds.prod % d = flat / ds.prod % d := by
      rcases Nat.eq_zero_or_pos ds.prod with hzero | hpos
      · simp [hzero]
      · rw [Nat.add_mul_div_left _ _ hpos, Nat.add_mul_mod_self_left]
    rw [hsplit, unravel, unravel, ih, hhead]

theorem ravel_unravel_mod (shape : List Nat) (flat : Nat) :
    ravel shape (unravel shape flat) = flat % shape.prod := by
  induction shape with
  | nil => simp [ravel, Nat.mod_one]
  | cons d ds ih => rw [unravel, ravel, ih, List.prod_cons, Nat.mul_comm d, Nat.mod_mul]; ring

theorem ravel_unravel {shape : List Nat} {flat : Nat} (h : flat < shape.prod) :
    ravel shape (unravel shape flat) = flat := by
  rw [ravel_unravel_mod, Nat.mod_eq_of_lt h]

theorem unravel_ravel {shape idx : List Nat} (h : Valid shape idx) :
    unravel shape (ravel shape idx) = idx := by
  induction h with
  | nil => rfl
  | @cons i d is ds hlt htail ih =>
    have hpos : 0 < ds.prod := Valid.prod_pos htail
    have hrest := ravel_lt htail
    rw [ravel, unravel, Nat.mul_comm, Nat.mul_add_div hpos, Nat.div_eq_of_lt hrest, Nat.add_zero,
      Nat.mod_eq_of_lt hlt, Nat.add_comm, unravel_add_mul, ih]

/-- The multi-indices are those of the numbers below the product. -/
theorem forall_valid_iff {shape : List Nat} {P : List Nat → Prop} :
    (∀ idx, Valid shape idx → P idx) ↔ ∀ flat < shape.prod, P (unravel shape flat) := by
  constructor
  · intro h flat hlt
    exact h _ (unravel_valid (Nat.zero_lt_of_lt hlt) flat)
  · intro h idx hidx
    rw [← unravel_ravel hidx]
    exact h _ (ravel_lt hidx)

theorem forall_valid_forall_valid_iff {shape shape' : List Nat} {P : List Nat → List Nat → Prop} :
    (∀ idx idx', Valid shape idx → Valid shape' idx' → P idx idx')
      ↔ ∀ m < shape.prod, ∀ n < shape'.prod, P (unravel shape m) (unravel shape' n) := by
  constructor
  · intro h m hm n hn
    exact h _ _ (unravel_valid (Nat.zero_lt_of_lt hm) m) (unravel_valid (Nat.zero_lt_of_lt hn) n)
  · intro h idx idx' hidx hidx'
    rw [← unravel_ravel hidx, ← unravel_ravel hidx']
    exact h _ (ravel_lt hidx) _ (ravel_lt hidx')

theorem unravel_inj {shape : List Nat} {m n : Nat} (hm : m < shape.prod) (hn : n < shape.prod)
    (h : unravel shape m = unravel shape n) : m = n := by
  rw [← ravel_unravel hm, h, ravel_unravel hn]

/-- The trailing coordinates come from the number itself, the leading ones
from its quotient. -/
theorem unravel_append (ds es : List Nat) (flat : Nat) :
    unravel (ds ++ es) flat = unravel ds (flat / es.prod) ++ unravel es flat := by
  induction ds with
  | nil => rfl
  | cons d ds ih =>
    rw [List.cons_append, unravel, unravel, ih, List.prod_append, Nat.mul_comm,
      ← Nat.div_div_eq_div_mul, List.cons_append]

/-- The leading coordinates count blocks of the trailing extents. -/
theorem ravel_append {ds is : List Nat} (h : is.length = ds.length) (es js : List Nat) :
    ravel (ds ++ es) (is ++ js) = ravel ds is * es.prod + ravel es js := by
  induction ds generalizing is with
  | nil => simp [List.eq_nil_of_length_eq_zero h, ravel]
  | cons d ds ih =>
    cases is with
    | nil => cases h
    | cons i is =>
      rw [List.cons_append, List.cons_append, ravel, ravel, ih (Nat.succ.inj h), List.prod_append]
      ring

/-- The number of a multi-index, around one of its coordinates. -/
theorem ravel_eq_around {shape idx : List Nat} (hlen : idx.length = shape.length) {d : Nat}
    (hd : d < shape.length) :
    ravel shape idx
      = (ravel (shape.take d) (idx.take d) * shape.getD d 0 + idx.getD d 0)
          * (shape.drop (d + 1)).prod + ravel (shape.drop (d + 1)) (idx.drop (d + 1)) := by
  have hd' : d < idx.length := hlen ▸ hd
  have hshape : shape = shape.take d ++ shape.getD d 0 :: shape.drop (d + 1) := by
    rw [List.getD_eq_getElem _ _ hd, ← List.drop_eq_getElem_cons hd, List.take_append_drop]
  have hidx : idx = idx.take d ++ idx.getD d 0 :: idx.drop (d + 1) := by
    rw [List.getD_eq_getElem _ _ hd', ← List.drop_eq_getElem_cons hd', List.take_append_drop]
  have hlen' : (idx.take d).length = (shape.take d).length := by simp [hlen]
  conv_lhs => rw [hshape, hidx]
  rw [ravel_append hlen', ravel, List.prod_cons]
  ring

/-- The multi-indices of a shape, the last coordinate running fastest. -/
def indices : List Nat → List (List Nat)
  | [] => [[]]
  | d :: ds => (List.range d).flatMap fun i => (indices ds).map (i :: ·)

theorem unravel_block {d i j : Nat} {ds : List Nat} (hi : i < d) (hj : j < ds.prod) :
    unravel (d :: ds) (i * ds.prod + j) = i :: unravel ds j := by
  have hpos : 0 < ds.prod := Nat.zero_lt_of_lt hj
  rw [unravel, Nat.mul_comm, Nat.mul_add_div hpos, Nat.div_eq_of_lt hj, Nat.add_zero,
    Nat.mod_eq_of_lt hi, Nat.add_comm, unravel_add_mul]

/-- They are those of the numbers below the product, in order. -/
theorem indices_eq (shape : List Nat) :
    indices shape = (List.range shape.prod).map (unravel shape) := by
  induction shape with
  | nil => rfl
  | cons d ds ih =>
    have hblocks := @RowSplit.flatMap_range (fun i => i * ds.prod) (fun _ => ds.prod)
      (Nat.zero_mul _) (fun i => Nat.succ_mul i _) d
    rw [indices, List.prod_cons, ← hblocks, List.map_flatMap, ih]
    refine List.flatMap_congr fun i hi => ?_
    rw [List.map_map, List.map_map]
    refine List.map_congr_left fun j hj => ?_
    exact (unravel_block (List.mem_range.mp hi) (List.mem_range.mp hj)).symm

theorem mem_indices {shape idx : List Nat} : idx ∈ indices shape ↔ Valid shape idx := by
  rw [indices_eq, List.mem_map]
  constructor
  · rintro ⟨flat, hflat, rfl⟩
    exact unravel_valid (Nat.zero_lt_of_lt (List.mem_range.mp hflat)) flat
  · intro h
    exact ⟨ravel shape idx, List.mem_range.mpr (ravel_lt h), unravel_ravel h⟩

/-! ## Offsets -/

@[simp] theorem dot_nil_left (ss : List Int) : dot [] ss = 0 := rfl

@[simp] theorem dot_nil_right (is : List Nat) : dot is [] = 0 := by
  cases is <;> rfl

@[simp] theorem dot_cons (i : Nat) (is : List Nat) (s : Int) (ss : List Int) :
    dot (i :: is) (s :: ss) = i * s + dot is ss := rfl

theorem dot_append {is : List Nat} {ss : List Int} (h : is.length = ss.length) (js : List Nat)
    (ts : List Int) : dot (is ++ js) (ss ++ ts) = dot is ss + dot js ts := by
  induction is generalizing ss with
  | nil => simp [List.eq_nil_of_length_eq_zero h.symm]
  | cons i is ih =>
    cases ss with
    | nil => simp at h
    | cons s ss => simp [ih (Nat.succ.inj h), Int.add_assoc]

@[simp] theorem dot_unravel_zero (shape : List Nat) (strides : List Int) :
    dot (unravel shape 0) strides = 0 := by
  induction shape generalizing strides with
  | nil => rfl
  | cons d ds ih =>
    cases strides with
    | nil => rfl
    | cons s ss => simp [unravel, ih]

/-- Where only extents of 1 have a stride, all offsets are 0. -/
theorem dot_eq_zero {shape idx : List Nat} (hidx : Valid shape idx) {strides : List Int}
    (h : ∀ d < shape.length, shape.getD d 0 ≠ 1 → strides.getD d 0 = 0) : dot idx strides = 0 := by
  induction hidx generalizing strides with
  | nil => rfl
  | @cons i d is ds hlt _ ih =>
    cases strides with
    | nil => rfl
    | cons s ss =>
      have htail : dot is ss = 0 := ih fun e he hne => h (e + 1) (Nat.succ_lt_succ he) hne
      have hhead : (i : Int) * s = 0 := by
        by_cases hone : d = 1
        · have hi : i = 0 := by omega
          rw [hi, Nat.cast_zero, Int.zero_mul]
        · have hs : s = 0 := h 0 (Nat.zero_lt_succ _) hone
          rw [hs, Int.mul_zero]
      rw [dot_cons, hhead, htail, Int.add_zero]

/-- A stride is the offset of a multi-index. -/
theorem exists_dot_eq {shape : List Nat} (hpos : 0 < shape.prod) {strides : List Int}
    (hlen : strides.length = shape.length) {d : Nat} (hd : d < shape.length)
    (hne : shape.getD d 0 ≠ 1) : ∃ idx, Valid shape idx ∧ dot idx strides = strides.getD d 0 := by
  induction shape generalizing strides d with
  | nil => cases hd
  | cons e es ih =>
    cases strides with
    | nil => cases hlen
    | cons s ss =>
      rw [List.prod_cons] at hpos
      have he : 0 < e := Nat.pos_of_mul_pos_right hpos
      have hes : 0 < es.prod := Nat.pos_of_mul_pos_left hpos
      cases d with
      | zero =>
        have htwo : 1 < e := by
          have hne' : e ≠ 1 := hne
          omega
        exact ⟨1 :: unravel es 0, .cons htwo (unravel_valid hes 0), by simp⟩
      | succ d =>
        obtain ⟨idx, hidx, heq⟩ := ih hes (Nat.succ.inj hlen) (Nat.lt_of_succ_lt_succ hd) hne
        exact ⟨0 :: idx, .cons he hidx, by simpa using heq⟩

/-- A number that is split into blocks of `b`, of which a value depends on
the block's number as on the number itself, has the value 0. -/
theorem eq_zero_of_selfSimilar {f h : Nat → Int} {a b : Nat} (ha : 0 < a) (hb : 1 < b)
    (hzero : f 0 = 0) (hperiod : ∀ n, f n = f (n % a))
    (hstep : ∀ q < a, ∀ j < b, f (q * b + j) = f q + h j) : ∀ n < a * b, f n = 0 := by
  have hmem : (Finset.range a).Nonempty := ⟨0, Finset.mem_range.mpr ha⟩
  obtain ⟨top, htop, hmax⟩ := (Finset.range a).exists_max_image f hmem
  obtain ⟨bottom, hbottom, hmin⟩ := (Finset.range a).exists_min_image f hmem
  have hle : ∀ n, f n ≤ f top := fun n =>
    hperiod n ▸ hmax _ (Finset.mem_range.mpr (Nat.mod_lt n ha))
  have hge : ∀ n, f bottom ≤ f n := fun n =>
    hperiod n ▸ hmin _ (Finset.mem_range.mpr (Nat.mod_lt n ha))
  -- a step from the largest value cannot go up, one from the least not down
  have hblock : ∀ j < b, h j = 0 := by
    intro j hj
    have hup := hle (top * b + j)
    have hdown := hge (bottom * b + j)
    rw [hstep _ (Finset.mem_range.mp htop) j hj] at hup
    rw [hstep _ (Finset.mem_range.mp hbottom) j hj] at hdown
    omega
  intro n hn
  induction n using Nat.strong_induction_on with
  | _ n ih =>
    rcases Nat.eq_zero_or_pos n with rfl | hpos
    · exact hzero
    · have hdiv : n / b < n := Nat.div_lt_self hpos hb
      have hq : n / b < a := Nat.div_lt_of_lt_mul (by rwa [Nat.mul_comm] at hn)
      have hj := Nat.mod_lt n (by omega : 0 < b)
      have hsplit := hstep _ hq _ hj
      rw [Nat.div_add_mod'] at hsplit
      rw [hsplit, ih _ hdiv (hdiv.trans hn), hblock _ hj, Int.add_zero]

/-- The leading dimensions alone give the offsets of all dimensions just if
the rest has one element, or all offsets are 0. -/
theorem leading_eq_iff (ds es : List Nat) (ss ts : List Int) (hlen : ss.length = ds.length)
    (hlen' : ts.length = es.length) (hpos : 0 < (ds ++ es).prod) :
    (∀ n < (ds ++ es).prod, dot (unravel ds n) ss = dot (unravel (ds ++ es) n) (ss ++ ts)) ↔
      es.prod = 1 ∨ ∀ d < (ds ++ es).length, (ds ++ es).getD d 0 ≠ 1 →
        (ss ++ ts).getD d 0 = 0 := by
  have hprod : (ds ++ es).prod = ds.prod * es.prod := List.prod_append
  have hds : 0 < ds.prod := Nat.pos_of_mul_pos_right (hprod ▸ hpos)
  have hes : 0 < es.prod := Nat.pos_of_mul_pos_left (hprod ▸ hpos)
  have hperiod : ∀ n, dot (unravel ds n) ss = dot (unravel ds (n % ds.prod)) ss := by
    intro n
    conv_lhs => rw [← Nat.mod_add_div n ds.prod, unravel_add_mul]
  have hsplit : ∀ q j, j < es.prod → dot (unravel (ds ++ es) (q * es.prod + j)) (ss ++ ts)
      = dot (unravel ds q) ss + dot (unravel es j) ts := by
    intro q j hj
    have hdiv : (q * es.prod + j) / es.prod = q := by
      rw [Nat.mul_comm, Nat.mul_add_div hes, Nat.div_eq_of_lt hj, Nat.add_zero]
    rw [unravel_append, dot_append (by simp [hlen]), hdiv, Nat.add_comm, Nat.mul_comm,
      unravel_add_mul]
  have hall : (∀ n < (ds ++ es).prod, dot (unravel (ds ++ es) n) (ss ++ ts) = 0) ↔
      ∀ d < (ds ++ es).length, (ds ++ es).getD d 0 ≠ 1 → (ss ++ ts).getD d 0 = 0 := by
    constructor
    · intro hzero d hd hne
      have hlength : (ss ++ ts).length = (ds ++ es).length := by simp [hlen, hlen']
      obtain ⟨idx, hidx, heq⟩ := exists_dot_eq hpos hlength hd hne
      rw [← heq, ← unravel_ravel hidx]
      exact hzero _ (ravel_lt hidx)
    · intro hstrides n _
      exact dot_eq_zero (unravel_valid hpos n) hstrides
  rw [← hall]
  have hbound : ∀ q < ds.prod, ∀ j < es.prod, q * es.prod + j < (ds ++ es).prod := by
    intro q hq j hj
    calc q * es.prod + j < (q + 1) * es.prod := by
          rw [Nat.succ_mul]
          omega
      _ ≤ (ds ++ es).prod := hprod ▸ Nat.mul_le_mul_right _ hq
  constructor
  · intro h
    rcases Nat.lt_or_eq_of_le hes with hlt | heq
    · right
      intro n hn
      rw [← h n hn]
      refine eq_zero_of_selfSimilar (f := fun n => dot (unravel ds n) ss)
        (h := fun n => dot (unravel es n) ts) hds hlt (dot_unravel_zero ds ss) hperiod ?_ n
        (hprod ▸ hn)
      intro q hq j hj
      exact (h _ (hbound q hq j hj)).trans (hsplit q j hj)
    · exact Or.inl heq.symm
  · rintro (hone | hzero) n hn
    · have hn' := hsplit n 0 hes
      rwa [hone, Nat.mul_one, Nat.add_zero, dot_unravel_zero, Int.add_zero, eq_comm] at hn'
    · have hn' := hsplit (n % ds.prod) 0 hes
      rw [hzero _ (hbound _ (Nat.mod_lt n hds) 0 hes), dot_unravel_zero, Int.add_zero] at hn'
      rw [hzero n hn, hperiod, ← hn']

theorem dot_modEq {M : Int} (is : List Nat) {ss ts : List Int}
    (h : List.Forall₂ (Int.ModEq M) ss ts) : dot is ss ≡ dot is ts [ZMOD M] := by
  induction h generalizing is with
  | nil => exact Int.ModEq.refl _
  | cons hs _ ih =>
    cases is with
    | nil => exact Int.ModEq.refl _
    | cons i is => exact (hs.mul_left _).add (ih is)

/-- A stride of zero over two coordinates makes two multi-indices share an
offset. -/
theorem exists_collision {shape : List Nat} {strides : List Int}
    (hlen : strides.length = shape.length) (hpos : 0 < shape.prod) {i : Nat}
    (hi : i < shape.length) (hextent : shape.getD i 0 ≠ 1) (hstride : strides.getD i 0 = 0) :
    ∃ idx idx', Valid shape idx ∧ Valid shape idx' ∧ idx ≠ idx' ∧
      dot idx strides = dot idx' strides := by
  induction shape generalizing strides i with
  | nil => cases hi
  | cons d ds ih =>
    cases strides with
    | nil => cases hlen
    | cons s ss =>
      rw [List.prod_cons] at hpos
      have hd : 0 < d := Nat.pos_of_mul_pos_right hpos
      have hds : 0 < ds.prod := Nat.pos_of_mul_pos_left hpos
      cases i with
      | zero =>
        have hd' : 1 < d := by
          have hne : d ≠ 1 := hextent
          omega
        have hs : s = 0 := hstride
        have htail := unravel_valid hds 0
        refine ⟨0 :: unravel ds 0, 1 :: unravel ds 0, .cons hd htail, .cons hd' htail, by simp, ?_⟩
        simp [hs]
      | succ i =>
        obtain ⟨idx, idx', hidx, hidx', hne, heq⟩ :=
          ih (Nat.succ.inj hlen) hds (Nat.lt_of_succ_lt_succ hi) hextent hstride
        refine ⟨0 :: idx, 0 :: idx', .cons hd hidx, .cons hd hidx', ?_, ?_⟩
        · simpa using hne
        · simp [heq]

/-- The strides of a contiguous array. -/
def suffixProds : List Nat → List Int
  | [] => []
  | _ :: ds => (ds.prod : Int) :: suffixProds ds

theorem dot_suffixProds (shape idx : List Nat) : dot idx (suffixProds shape) = ravel shape idx := by
  induction shape generalizing idx with
  | nil => cases idx <;> rfl
  | cons d ds ih =>
    cases idx with
    | nil => rfl
    | cons i is => simp [suffixProds, ravel, ih]

/-- Strides of which each is the product of the next extent and stride, and
the last is 1, are those of a contiguous array. -/
theorem forall₂_suffixProds {M : Int} {shape : List Nat} {strides : List Int}
    (hlen : strides.length = shape.length)
    (hstep : ∀ i, i + 1 < shape.length →
      strides.getD i 0 ≡ shape.getD (i + 1) 0 * strides.getD (i + 1) 0 [ZMOD M])
    (hlast : shape ≠ [] → strides.getD (shape.length - 1) 0 = 1) :
    List.Forall₂ (Int.ModEq M) strides (suffixProds shape) := by
  induction shape generalizing strides with
  | nil =>
    rw [List.eq_nil_of_length_eq_zero hlen]
    exact .nil
  | cons d ds ih =>
    cases strides with
    | nil => cases hlen
    | cons s ss =>
      have htail : List.Forall₂ (Int.ModEq M) ss (suffixProds ds) := by
        refine ih (Nat.succ.inj hlen) ?_ ?_
        · intro i hi
          exact hstep (i + 1) (Nat.succ_lt_succ hi)
        · intro hne
          have hlast' := hlast (List.cons_ne_nil _ _)
          obtain ⟨e, es, rfl⟩ := List.exists_cons_of_ne_nil hne
          exact hlast'
      refine .cons ?_ htail
      cases ds with
      | nil =>
        have hs : s = 1 := hlast (List.cons_ne_nil _ _)
        rw [hs]
        exact Int.ModEq.refl _
      | cons e es =>
        have hhead := hstep 0 (by simp)
        cases htail with
        | cons ht _ =>
          refine hhead.trans ?_
          rw [List.prod_cons, Nat.cast_mul]
          exact ht.mul_left _

/-! ## The last index -/

/-- The largest coordinate in every dimension. -/
def lastIndex (shape : List Nat) : List Nat := shape.map (· - 1)

theorem lastIndex_valid {shape : List Nat} (h : 0 ∉ shape) : Valid shape (lastIndex shape) := by
  induction shape with
  | nil => exact .nil
  | cons d ds ih =>
    rw [List.mem_cons, not_or] at h
    exact .cons (Nat.sub_one_lt (Ne.symm h.1)) (ih h.2)

/-- Where no stride is negative, no element lies beyond the last one. -/
theorem dot_le_dot_lastIndex {shape idx : List Nat} (hidx : Valid shape idx) {strides : List Int}
    (hnonneg : ∀ s ∈ strides, 0 ≤ s) : dot idx strides ≤ dot (lastIndex shape) strides := by
  induction hidx generalizing strides with
  | nil => exact Int.le_refl _
  | @cons i d is ds hi _ ih =>
    cases strides with
    | nil => simp
    | cons s ss =>
      have htail := ih fun s' hs' => hnonneg s' (List.mem_cons_of_mem _ hs')
      have hcoord : (i : Int) ≤ (d - 1 : Nat) := by omega
      have hhead := Int.mul_le_mul_of_nonneg_right hcoord (hnonneg s List.mem_cons_self)
      rw [lastIndex, List.map_cons, dot_cons, dot_cons]
      exact Int.add_le_add hhead htail

theorem dot_nonneg (idx : List Nat) {strides : List Int} (hnonneg : ∀ s ∈ strides, 0 ≤ s) :
    0 ≤ dot idx strides := by
  induction idx generalizing strides with
  | nil => simp
  | cons i is ih =>
    cases strides with
    | nil => simp
    | cons s ss =>
      have htail := ih fun s' hs' => hnonneg s' (List.mem_cons_of_mem _ hs')
      have hhead := Int.mul_nonneg (Int.natCast_nonneg i) (hnonneg s List.mem_cons_self)
      rw [dot_cons]
      exact Int.add_nonneg hhead htail

/-- Each stride is the product of the extents after it, that of an extent of
1 aside. -/
def RowMajorStrides : List Nat → List Int → Prop
  | [], [] => True
  | d :: ds, s :: ss => (d ≠ 1 → s = ds.prod) ∧ RowMajorStrides ds ss
  | _, _ => False

theorem RowMajorStrides.suffixProds (shape : List Nat) :
    RowMajorStrides shape (suffixProds shape) := by
  induction shape with
  | nil => trivial
  | cons d ds ih => exact ⟨fun _ => rfl, ih⟩

/-- The elements of a contiguous array fill its storage. -/
theorem RowMajorStrides.dot_lastIndex {shape : List Nat} {strides : List Int}
    (h : RowMajorStrides shape strides) (hpos : 0 ∉ shape) :
    dot (lastIndex shape) strides + 1 = shape.prod := by
  induction shape generalizing strides with
  | nil => cases strides <;> simp_all [RowMajorStrides]
  | cons d ds ih =>
    cases strides with
    | nil => exact h.elim
    | cons s ss =>
      rw [List.mem_cons, not_or] at hpos
      have htail := ih h.2 hpos.2
      have hhead : ((d - 1 : Nat) : Int) * s = (d - 1 : Nat) * ds.prod := by
        by_cases hd : d = 1
        · simp [hd]
        · rw [h.1 hd]
      have hd : ((d - 1 : Nat) : Int) = d - 1 := by omega
      calc dot (lastIndex (d :: ds)) (s :: ss) + 1
          = (d - 1 : Nat) * s + (dot (lastIndex ds) ss + 1) := by simp [lastIndex]; ring
        _ = d * ds.prod := by rw [htail, hhead, hd]; ring
        _ = (d :: ds).prod := by simp

/-- The elements of a contiguous array lie in order. -/
theorem RowMajorStrides.dot_eq {shape : List Nat} {strides : List Int}
    (h : RowMajorStrides shape strides) {idx : List Nat} (hidx : Valid shape idx) :
    dot idx strides = ravel shape idx := by
  induction hidx generalizing strides with
  | nil => simp [ravel]
  | @cons i d is ds hi _ ih =>
    cases strides with
    | nil => exact h.elim
    | cons s ss =>
      have hhead : (i : Int) * s = i * ds.prod := by
        by_cases hd : d = 1
        · have hzero : i = 0 := by omega
          simp [hzero]
        · rw [h.1 hd]
      rw [dot_cons, ravel, ih h.2, hhead]
      push_cast
      rfl

/-! ## Broadcasting -/

/-- Aligned at the last dimension, every extent of `small` is that of `big`
or 1. -/
def Broadcasts (small big : List Nat) : Prop :=
  small.length ≤ big.length ∧
    List.Forall₂ (fun d e => d = e ∨ d = 1) small (big.drop (big.length - small.length))

instance (small big : List Nat) : Decidable (Broadcasts small big) :=
  inferInstanceAs (Decidable (_ ∧ _))

/-- The multi-index of `small` that stands at `idx` of a broadcast. -/
def broadcastIndex (small idx : List Nat) : List Nat :=
  List.zipWith (fun d i => if d = 1 then 0 else i) small (idx.drop (idx.length - small.length))

theorem broadcastIndex_valid {small big idx : List Nat} (h : Broadcasts small big)
    (hidx : Valid big idx) : Valid small (broadcastIndex small idx) := by
  obtain ⟨-, hextents⟩ := h
  have htail : Valid (big.drop (big.length - small.length))
      (idx.drop (idx.length - small.length)) := by
    rw [hidx.length_eq]
    exact List.forall₂_drop _ hidx
  rw [broadcastIndex]
  generalize big.drop (big.length - small.length) = extents at hextents htail
  generalize idx.drop (idx.length - small.length) = coords at htail
  induction hextents generalizing coords with
  | nil => exact .nil
  | @cons d e ds es hde _ ih =>
    cases htail with
    | @cons i _ is _ hi his =>
      refine .cons ?_ (ih is his)
      by_cases hone : d = 1
      · simp [hone]
      · have heq : d = e := hde.resolve_right hone
        subst heq
        simpa [hone] using hi

theorem broadcastIndex_self {shape idx : List Nat} (h : Valid shape idx) :
    broadcastIndex shape idx = idx := by
  rw [broadcastIndex, h.length_eq, Nat.sub_self, List.drop_zero]
  induction h with
  | nil => rfl
  | @cons i d is ds hlt _ ih =>
    rw [List.zipWith_cons_cons, ih]
    split
    · congr 1
      omega
    · rfl

theorem prod_le_of_extents {small big : List Nat}
    (h : List.Forall₂ (fun d e => d = e ∨ d = 1) small big) (hpos : 0 < big.prod) :
    small.prod ≤ big.prod := by
  induction h with
  | nil => exact Nat.le_refl _
  | @cons d e ds es hde _ ih =>
    rw [List.prod_cons] at hpos ⊢
    have he : 0 < e := Nat.pos_of_mul_pos_right hpos
    have hle : d ≤ e := by omega
    exact Nat.mul_le_mul hle (ih (Nat.pos_of_mul_pos_left hpos))

/-- A broadcast that adds no elements changes no extent. -/
theorem eq_of_extents {small big : List Nat}
    (h : List.Forall₂ (fun d e => d = e ∨ d = 1) small big) (hpos : 0 < big.prod)
    (hprod : big.prod ≤ small.prod) : small = big := by
  induction h with
  | nil => rfl
  | @cons d e ds es hde hrest ih =>
    rw [List.prod_cons] at hpos
    rw [List.prod_cons, List.prod_cons] at hprod
    have he : 0 < e := Nat.pos_of_mul_pos_right hpos
    have hes : 0 < es.prod := Nat.pos_of_mul_pos_left hpos
    have hle := prod_le_of_extents hrest hes
    have hd : d = e := by
      rcases hde with hde | hone
      · exact hde
      · rw [hone, Nat.one_mul] at hprod
        have hlt : ¬ 2 * es.prod ≤ e * es.prod := by omega
        have htwo : ¬ 2 ≤ e := fun h => hlt (Nat.mul_le_mul_right _ h)
        omega
    rw [hd] at hprod ⊢
    rw [ih hes (Nat.le_of_mul_le_mul_left hprod he)]

theorem Broadcasts.prod_le {small big : List Nat} (h : Broadcasts small big)
    (hpos : 0 < big.prod) : small.prod ≤ big.prod := by
  have hsplit : (big.take (big.length - small.length)).prod
      * (big.drop (big.length - small.length)).prod = big.prod := by
    rw [← List.prod_append, List.take_append_drop]
  rw [← hsplit] at hpos ⊢
  refine (prod_le_of_extents h.2 (Nat.pos_of_mul_pos_left hpos)).trans ?_
  exact Nat.le_mul_of_pos_left _ (Nat.pos_of_mul_pos_right hpos)

/-- A broadcast that adds no elements keeps their order. -/
theorem Broadcasts.ravel_eq {small big idx : List Nat} (h : Broadcasts small big)
    (hprod : small.prod = big.prod) (hidx : Valid big idx) :
    ravel small (broadcastIndex small idx) = ravel big idx := by
  have hpos := hidx.prod_pos
  generalize hlead : big.length - small.length = lead at *
  have hsplit : (big.take lead).prod * (big.drop lead).prod = big.prod := by
    rw [← List.prod_append, List.take_append_drop]
  have hextents := h.2
  rw [hlead] at hextents
  rw [← hsplit] at hpos hprod
  have htail : 0 < (big.drop lead).prod := Nat.pos_of_mul_pos_left hpos
  have hsmall : small = big.drop lead := by
    refine eq_of_extents hextents htail ?_
    rw [hprod]
    exact Nat.le_mul_of_pos_left _ (Nat.pos_of_mul_pos_right hpos)
  -- the dimensions in front have one element
  have hone : (big.take lead).prod = 1 := by
    rw [hsmall] at hprod
    exact Nat.eq_of_mul_eq_mul_right htail (by omega)
  have htake : Valid (big.take lead) (idx.take lead) := List.forall₂_take _ hidx
  have hdrop : Valid (big.drop lead) (idx.drop lead) := List.forall₂_drop _ hidx
  have hzero : ravel (big.take lead) (idx.take lead) = 0 := by
    have hlt := ravel_lt htake
    omega
  have hindex : broadcastIndex small idx = idx.drop lead := by
    have hself := broadcastIndex_self hdrop
    rw [broadcastIndex, hdrop.length_eq, Nat.sub_self, List.drop_zero, ← hsmall] at hself
    rwa [broadcastIndex, hidx.length_eq, hlead]
  conv_rhs => rw [← List.take_append_drop lead big, ← List.take_append_drop lead idx]
  rw [ravel_append htake.length_eq, hzero, Nat.zero_mul, Nat.zero_add, hindex, hsmall]

/-- A shape of at least two dimensions is batch dimensions and a matrix. -/
theorem eq_take_append_pair {α : Type} (l : List α) (d : α) (h : 2 ≤ l.length) :
    l = l.take (l.length - 2) ++ [l.getD (l.length - 2) d, l.getD (l.length - 1) d] := by
  have hsecond : l.length - 2 < l.length := by omega
  have hlast : l.length - 1 < l.length := by omega
  have hnext : l.length - 2 + 1 = l.length - 1 := by omega
  conv_lhs => rw [← List.take_append_drop (l.length - 2) l]
  congr 1
  rw [List.drop_eq_getElem_cons hsecond, List.getD_eq_getElem _ _ hsecond,
    List.getD_eq_getElem _ _ hlast]
  simp only [hnext, List.drop_eq_getElem_cons hlast]
  simp only [Nat.sub_add_cancel (show 1 ≤ l.length by omega), List.drop_length]

/-! ## Broadcasting of two shapes -/

/-- A shape with extents of 1 in front, up to a rank. -/
def padded (rank : Nat) (shape : List Nat) : List Nat :=
  List.replicate (rank - shape.length) 1 ++ shape

/-- The shape of an elementwise operation on tensors of two shapes. -/
def broadcastShape (xs ys : List Nat) : Option (List Nat) :=
  let rank := max xs.length ys.length
  let extents := (padded rank xs).zip (padded rank ys)
  if extents.all fun (d, e) => d = e ∨ d = 1 ∨ e = 1 then
    some (extents.map fun (d, e) => if d = 1 then e else d)
  else none

theorem length_padded {rank : Nat} {shape : List Nat} (h : shape.length ≤ rank) :
    (padded rank shape).length = rank := by
  simp [padded, h]

theorem Broadcasts.extents_padded {small big : List Nat} (h : Broadcasts small big) :
    List.Forall₂ (fun d e => d = e ∨ d = 1) (padded big.length small) big := by
  obtain ⟨-, hextents⟩ := h
  generalize hlead : big.length - small.length = lead at hextents
  have hfront : ∀ front : List Nat,
      List.Forall₂ (fun d e => d = e ∨ d = 1) (List.replicate front.length 1) front := by
    intro front
    induction front with
    | nil => exact .nil
    | cons e es ih => exact .cons (.inr rfl) ih
  have htake : (big.take lead).length = lead := by
    rw [List.length_take]
    omega
  have hpadded := List.rel_append (hfront (big.take lead)) hextents
  simp only [htake, List.take_append_drop] at hpadded
  rwa [padded, hlead]

/-- Of two shapes that broadcast to `out`, the extents are compatible, and
theirs are all of `out` if none of it is one to which both are repeated. -/
theorem map_zip_eq_iff {xs ys out : List Nat}
    (hx : List.Forall₂ (fun d e => d = e ∨ d = 1) xs out)
    (hy : List.Forall₂ (fun d e => d = e ∨ d = 1) ys out) :
    (xs.zip ys).all (fun (d, e) => d = e ∨ d = 1 ∨ e = 1) = true ∧
      ((xs.zip ys).map (fun (d, e) => if d = 1 then e else d) = out ↔
        ∀ i < out.length, xs.getD i 0 = out.getD i 0 ∨ ys.getD i 0 = out.getD i 0) := by
  induction hx generalizing ys with
  | nil => simp
  | @cons d o ds os hd _ ih =>
    cases hy with
    | @cons e _ es _ he hes =>
      obtain ⟨hall, hmap⟩ := ih hes
      have hhead : (if d = 1 then e else d) = o ↔ d = o ∨ e = o := by
        split <;> omega
      refine ⟨?_, ?_⟩
      · have hcompatible : d = e ∨ d = 1 ∨ e = 1 := by omega
        simp only [List.zip_cons_cons, List.all_cons, hall, Bool.and_true]
        exact decide_eq_true hcompatible
      · simp only [List.zip_cons_cons, List.map_cons, List.cons.injEq, hhead, hmap,
          List.length_cons]
        constructor
        · rintro ⟨hzero, hrest⟩ i hi
          cases i with
          | zero => exact hzero
          | succ i => exact hrest i (Nat.lt_of_succ_lt_succ hi)
        · intro h
          exact ⟨h 0 (Nat.zero_lt_succ _), fun i hi => h (i + 1) (Nat.succ_lt_succ hi)⟩

theorem broadcastShape_eq_iff {xs ys out : List Nat} (hx : Broadcasts xs out)
    (hy : Broadcasts ys out) :
    broadcastShape xs ys = some out ↔
      max xs.length ys.length = out.length ∧ ∀ i < out.length,
        (padded out.length xs).getD i 0 = out.getD i 0 ∨
        (padded out.length ys).getD i 0 = out.getD i 0 := by
  by_cases hrank : max xs.length ys.length = out.length
  · obtain ⟨hall, hmap⟩ := map_zip_eq_iff hx.extents_padded hy.extents_padded
    rw [broadcastShape, hrank, if_pos hall, Option.some.injEq, hmap]
    exact ⟨fun h => ⟨rfl, h⟩, And.right⟩
  · refine ⟨fun h => ?_, fun h => absurd h.1 hrank⟩
    rw [broadcastShape] at h
    split at h
    · have hlen := congrArg List.length (Option.some.inj h)
      simp only [List.length_map, List.length_zip] at hlen
      rw [length_padded (Nat.le_max_left _ _), length_padded (Nat.le_max_right _ _),
        Nat.min_self] at hlen
      exact absurd hlen hrank
    · cases h

end RowMajor
