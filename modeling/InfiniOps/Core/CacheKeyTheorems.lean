/-
InfiniOps.Core.CacheKeyTheorems — what a hit in the operator cache tells
about the two calls.

A hit compares the stored tensors exactly and everything else through the
two 64-bit chains (`sameEntry_build_iff`). So a hit determines the tensors
of the call, and the other arguments only as far as the chains do:

* `sameEntry_build` collects what does follow. A plain tensor, and with at
  most one tensor vector in the pack every tensor at its own position, is
  the same up to the data pointer. Of the hashed values the last one
  absorbed follows from the ones before it, since `HashCombine` is
  injective in the absorbed value for a fixed seed.
* `sameEntry_decodeCall` shows that no more does: two
  `PagedAttention` calls with the same tensors, one for 64 query and 64
  key-value heads and one for 63 and 1, share an entry. The two pairs
  leave both chains in the same state, so whatever is absorbed after them
  cannot tell the calls apart.

The converse holds without condition: calls that agree do share an entry
(`sameEntry_of_callsAgree`), so a repeated call is never rebuilt.
-/
import InfiniOps.Core.CacheKey
import Mathlib.Data.List.Forall2
import Mathlib.Data.List.Count

namespace InfiniOps

/-! ## The comparison functions -/

theorem CacheKey.tensorEq_iff (a b : Tensor) : tensorEq a b = true ↔ a.SameMeta b := by
  simp only [tensorEq, Tensor.SameMeta, Bool.and_eq_true, beq_iff_eq]
  constructor
  · rintro ⟨⟨⟨hd, hv⟩, hs⟩, ht⟩
    exact ⟨hs, hd, hv, ht⟩
  · rintro ⟨hs, hd, hv, ht⟩
    exact ⟨⟨⟨hd, hv⟩, hs⟩, ht⟩

/-- The element loop of `equal_to` over two lists of one length. -/
theorem CacheKey.zip_all_tensorEq {xs ys : List Tensor} (h : xs.length = ys.length) :
    (xs.zip ys).all (fun p => tensorEq p.1 p.2) = true ↔
      List.Forall₂ Tensor.SameMeta xs ys := by
  rw [List.forall₂_iff_zip, List.all_eq_true]
  constructor
  · exact fun hall => ⟨h, fun hmem => (tensorEq_iff _ _).mp (hall _ hmem)⟩
  · exact fun hrel p hp => (tensorEq_iff _ _).mpr (hrel.2 hp)

theorem CacheKey.equalTo_iff (a b : CacheKey) :
    a.equalTo b = true ↔
      a.scalarHash = b.scalarHash ∧ List.Forall₂ Tensor.SameMeta a.tensors b.tensors := by
  unfold equalTo
  split
  · rename_i hne
    simp [hne]
  · rename_i hsc
    split
    · rename_i hlen
      simp only [Bool.false_eq_true, false_iff, not_and]
      exact fun _ hall => hlen hall.length_eq
    · rename_i hlen
      rw [zip_all_tensorEq (not_not.mp hlen)]
      simp [not_not.mp hsc]

/-! ## `Build` in closed form -/

/-- The tensors that `Build` stores: plain tensors and the elements of
tensor vectors, in argument order. -/
def Args.tensors : {σ : List ArgTy} → Args σ → List Tensor
  | _, .nil => []
  | _, .cons (τ := .tensor) t rest => t :: rest.tensors
  | _, .cons (τ := .tensors) ts rest => ts ++ rest.tensors
  | _, .cons (τ := .optTensor) _ rest => rest.tensors
  | _, .cons (τ := .scalar _) _ rest => rest.tensors
  | _, .cons (τ := .optScalar _) _ rest => rest.tensors

/-- The values absorbed into `scalar_hash` after the implementation index. -/
def Args.scalarHashes (H : StdHash) : {σ : List ArgTy} → Args σ → List SizeT
  | _, .nil => []
  | _, .cons (τ := .tensor) _ rest => rest.scalarHashes H
  | _, .cons (τ := .tensors) _ rest => rest.scalarHashes H
  | _, .cons (τ := .optTensor) t rest => CacheKey.optHash H Tensor.hash t :: rest.scalarHashes H
  | _, .cons (τ := .scalar s) v rest => s.hash H v :: rest.scalarHashes H
  | _, .cons (τ := .optScalar s) v rest => CacheKey.optHash H (s.hash H) v :: rest.scalarHashes H

/-- The values absorbed into `hash` after the implementation index. -/
def Args.hashes (H : StdHash) : {σ : List ArgTy} → Args σ → List SizeT
  | _, .nil => []
  | _, .cons (τ := .tensor) t rest => t.hash :: rest.hashes H
  | _, .cons (τ := .tensors) ts rest =>
      BitVec.ofNat 64 ts.length :: (ts.map Tensor.hash ++ rest.hashes H)
  | _, .cons (τ := .optTensor) t rest => CacheKey.optHash H Tensor.hash t :: rest.hashes H
  | _, .cons (τ := .scalar s) v rest => s.hash H v :: rest.hashes H
  | _, .cons (τ := .optScalar s) v rest => CacheKey.optHash H (s.hash H) v :: rest.hashes H

theorem CacheKey.foldl_absorbTensor (ts : List Tensor) (key : CacheKey) :
    ts.foldl absorbTensor key =
      { key with hash := (ts.map Tensor.hash).foldl hashCombine key.hash
                 tensors := key.tensors ++ ts } := by
  induction ts generalizing key with
  | nil => simp
  | cons t ts ih => simp [ih, absorbTensor]

/-- Absorbing an argument list appends to each of the three components. -/
theorem CacheKey.absorbAll_eq (H : StdHash) {σ : List ArgTy} (args : Args σ) (key : CacheKey) :
    key.absorbAll H args =
      { hash := (args.hashes H).foldl hashCombine key.hash
        tensors := key.tensors ++ args.tensors
        scalarHash := (args.scalarHashes H).foldl hashCombine key.scalarHash } := by
  induction args generalizing key with
  | nil => simp [absorbAll, Args.hashes, Args.tensors, Args.scalarHashes]
  | cons v rest ih =>
    rename_i τ σ
    rw [absorbAll, ih]
    cases τ with
    | tensor => simp [absorb, absorbTensor, Args.hashes, Args.tensors, Args.scalarHashes]
    | tensors =>
      simp [absorb, absorbTensors, foldl_absorbTensor, Args.hashes, Args.tensors,
        Args.scalarHashes, List.foldl_append]
    | optTensor => simp [absorb, absorbHash, Args.hashes, Args.tensors, Args.scalarHashes]
    | scalar s => simp [absorb, absorbHash, Args.hashes, Args.tensors, Args.scalarHashes]
    | optScalar s => simp [absorb, absorbHash, Args.hashes, Args.tensors, Args.scalarHashes]

theorem CacheKey.build_eq (H : StdHash) (config : Config) {σ : List ArgTy} (args : Args σ) :
    build H config args =
      { hash := hashChain (config.implementationIndex :: args.hashes H)
        tensors := args.tensors
        scalarHash := hashChain (config.implementationIndex :: args.scalarHashes H) } := by
  simp [build, absorbAll_eq, absorbHash, hashChain]

/-- A hit, characterised: the tensors agree one by one and the two chains
end in the same values. -/
theorem CacheKey.sameEntry_build_iff (H : StdHash) (c₁ c₂ : Config) {σ : List ArgTy}
    (x y : Args σ) :
    SameEntry (build H c₁ x) (build H c₂ y) ↔
      List.Forall₂ Tensor.SameMeta x.tensors y.tensors ∧
        hashChain (c₁.implementationIndex :: x.scalarHashes H)
          = hashChain (c₂.implementationIndex :: y.scalarHashes H) ∧
        hashChain (c₁.implementationIndex :: x.hashes H)
          = hashChain (c₂.implementationIndex :: y.hashes H) := by
  simp only [SameEntry, equalTo_iff, build_eq]
  constructor
  · rintro ⟨hh, hs, ht⟩
    exact ⟨ht, hs, hh⟩
  · rintro ⟨ht, hs, hh⟩
    exact ⟨hh, hs, ht⟩

/-! ## Tensors by position -/

/-- Agreement of the plain tensors and tensor vectors of two argument
lists, position by position. -/
def Args.AgreeTensors : {σ : List ArgTy} → Args σ → Args σ → Prop
  | _, .nil, .nil => True
  | _, .cons (τ := .tensor) a x, .cons b y => a.SameMeta b ∧ x.AgreeTensors y
  | _, .cons (τ := .tensors) a x, .cons b y =>
      List.Forall₂ Tensor.SameMeta a b ∧ x.AgreeTensors y
  | _, .cons (τ := .optTensor) _ x, .cons _ y => x.AgreeTensors y
  | _, .cons (τ := .scalar _) _ x, .cons _ y => x.AgreeTensors y
  | _, .cons (τ := .optScalar _) _ x, .cons _ y => x.AgreeTensors y

/-- Without tensor vectors the pack fixes how many tensors are stored. -/
theorem Args.length_tensors_of_count_zero {σ : List ArgTy} (x : Args σ)
    (h : σ.count .tensors = 0) : x.tensors.length = σ.count .tensor := by
  induction x with
  | nil => rfl
  | cons v rest ih =>
    rename_i τ σ
    cases τ with
    | tensors => simp at h
    | tensor => simp [tensors, ih (by simpa using h)]
    | optTensor => simp [tensors, ih (by simpa using h)]
    | scalar s => simp [tensors, ih (by simpa using h)]
    | optScalar s => simp [tensors, ih (by simpa using h)]

/-- With at most one tensor vector, agreement of the stored tensors in
order is agreement position by position: the other positions fix where
the vector's elements begin and end. -/
theorem Args.agreeTensors_of_forall₂ {σ : List ArgTy} (x y : Args σ)
    (hσ : σ.count .tensors ≤ 1)
    (h : List.Forall₂ Tensor.SameMeta x.tensors y.tensors) : x.AgreeTensors y := by
  induction x with
  | nil => cases y; trivial
  | cons v x ih =>
    rename_i τ σ
    cases y with
    | cons w y =>
      cases τ with
      | tensor =>
        rw [tensors, tensors, List.forall₂_cons] at h
        exact ⟨h.1, ih y (by simpa using hσ) h.2⟩
      | tensors =>
        have hzero : σ.count .tensors = 0 := by simpa using hσ
        have hrest : x.tensors.length = y.tensors.length := by
          rw [x.length_tensors_of_count_zero hzero, y.length_tensors_of_count_zero hzero]
        have hlen : List.length v = List.length w := by
          have := h.length_eq
          simp only [tensors, List.length_append] at this
          omega
        rw [tensors, tensors] at h
        have hv := List.forall₂_take (List.length v) h
        have hr := List.forall₂_drop (List.length v) h
        rw [List.take_left, hlen, List.take_left] at hv
        rw [List.drop_left, hlen, List.drop_left] at hr
        exact ⟨hv, ih y (by omega) hr⟩
      | optTensor => exact ih y (by simpa using hσ) h
      | scalar s => exact ih y (by simpa using hσ) h
      | optScalar s => exact ih y (by simpa using hσ) h

/-! ## What a hit determines -/

theorem ScalarTy.hash_injective (H : StdHash) {s : ScalarTy} (h : s.Integral) :
    Function.Injective (s.hash H) := by
  intro a b hab
  cases s with
  | bool => cases a <;> cases b <;> simp_all [hash]
  | int =>
    apply BitVec.eq_of_toInt_eq
    have hab := congrArg BitVec.toInt hab
    rwa [hash, hash, BitVec.toInt_signExtend_of_le (by omega),
      BitVec.toInt_signExtend_of_le (by omega)] at hab
  | int64 => exact hab
  | sizeT => exact hab
  | float => exact h.elim
  | double => exact h.elim

/-- Everything that a hit in the operator cache says about the two calls.
The stored tensors agree in order, and with at most one tensor vector in
the pack every tensor and the vector's length agree position by position.
The rest is compared through the two chains, so it agrees as far as these
do: of the values that one chain absorbs the last is determined by the
others, and an integer by its hash. -/
theorem CacheKey.sameEntry_build (H : StdHash) (c₁ c₂ : Config) {σ : List ArgTy}
    (x y : Args σ) (h : SameEntry (build H c₁ x) (build H c₂ y)) :
    List.Forall₂ Tensor.SameMeta x.tensors y.tensors ∧
      (σ.count .tensors ≤ 1 → x.AgreeTensors y) ∧
      hashChain (c₁.implementationIndex :: x.scalarHashes H)
        = hashChain (c₂.implementationIndex :: y.scalarHashes H) ∧
      hashChain (c₁.implementationIndex :: x.hashes H)
        = hashChain (c₂.implementationIndex :: y.hashes H) ∧
      (∀ pre v w, c₁.implementationIndex :: x.scalarHashes H = pre ++ [v] →
        c₂.implementationIndex :: y.scalarHashes H = pre ++ [w] → v = w) ∧
      (∀ pre (s : ScalarTy) (v w : s.Val), s.Integral →
        c₁.implementationIndex :: x.scalarHashes H = pre ++ [s.hash H v] →
        c₂.implementationIndex :: y.scalarHashes H = pre ++ [s.hash H w] → v = w) := by
  obtain ⟨htensors, hscalars, hhash⟩ := (sameEntry_build_iff H c₁ c₂ x y).mp h
  have hlast : ∀ pre v w, c₁.implementationIndex :: x.scalarHashes H = pre ++ [v] →
      c₂.implementationIndex :: y.scalarHashes H = pre ++ [w] → v = w := by
    intro pre v w hx hy
    rw [hx, hy] at hscalars
    exact hashChain_concat_inj hscalars
  refine ⟨htensors, fun hσ => x.agreeTensors_of_forall₂ y hσ htensors, hscalars, hhash, hlast, ?_⟩
  intro pre s v w hs hx hy
  exact ScalarTy.hash_injective H hs (hlast pre _ _ hx hy)

/-! ## A hit that serves another call -/

/-- The argument types of `PagedAttention`. -/
def pagedAttentionTypes : List ArgTy :=
  [.tensor, .tensor, .tensor, .tensor, .tensor, .scalar .int64, .scalar .int64, .scalar .int64,
    .scalar .double, .scalar .int64, .tensor, .optTensor, .optTensor]

/-- The device tensors of a decode call of `PagedAttention` over 16
sequences: query, key and value cache, sequence lengths, block table. -/
def decodeTensors : List Tensor :=
  let npu : Device := { type := .kAscend }
  let query : Tensor :=
    { data := 4096, shape := [16, 64, 64], dtype := .kFloat16, device := npu
      strides := [4096, 64, 1] }
  let cache : Tensor :=
    { data := 1048576, shape := [64, 16, 64, 64], dtype := .kFloat16, device := npu
      strides := [65536, 4096, 64, 1] }
  let seqLens : Tensor :=
    { data := 8192, shape := [16], dtype := .kInt32, device := npu, strides := [1] }
  let blockTable : Tensor :=
    { data := 12288, shape := [16, 8], dtype := .kInt32, device := npu, strides := [8, 1] }
  [query, cache, cache, seqLens, blockTable]

/-- The call, with the head counts left open. -/
def decodeCall (numHeads numKvHeads : BitVec 64) : Args pagedAttentionTypes :=
  let t (i : Nat) : Tensor := decodeTensors.getD i { data := 0, shape := [], strides := [] }
  .cons (τ := .tensor) (t 0) <| .cons (τ := .tensor) (t 1) <| .cons (τ := .tensor) (t 2) <|
  .cons (τ := .tensor) (t 3) <| .cons (τ := .tensor) (t 4) <|
  .cons (τ := .scalar .int64) numHeads <| .cons (τ := .scalar .int64) numKvHeads <|
  .cons (τ := .scalar .int64) (64 : BitVec 64) <|
  .cons (τ := .scalar .double) (0x3fc0000000000000 : BitVec 64) <|
  .cons (τ := .scalar .int64) (16 : BitVec 64) <| .cons (τ := .tensor) (t 0) <|
  .cons (τ := .optTensor) none <| .cons (τ := .optTensor) none .nil

/-- Whatever follows two prefixes that leave the chain in one state cannot
tell them apart. -/
theorem hashChain_append_congr {xs ys : List SizeT} (h : hashChain xs = hashChain ys)
    (zs : List SizeT) : hashChain (xs ++ zs) = hashChain (ys ++ zs) := by
  simp only [hashChain, List.foldl_append] at h ⊢
  rw [h]

/-- 64 query heads over 64 key-value heads and 63 over 1 share an entry,
whatever the library's choices are. -/
theorem CacheKey.sameEntry_decodeCall (H : StdHash) :
    SameEntry (build H {} (decodeCall 64 64)) (build H {} (decodeCall 63 1)) := by
  rw [sameEntry_build_iff]
  have htensors : (decodeCall 64 64).tensors = (decodeCall 63 1).tensors := rfl
  refine ⟨by rw [htensors, List.forall₂_same]; exact fun t _ => ⟨rfl, rfl, rfl, rfl⟩, ?_, ?_⟩
  · have hprefix : hashChain [0, 64, 64] = hashChain [0, 63, 1] := by decide
    exact hashChain_append_congr hprefix _
  · have hprefix : hashChain (0 :: (decodeTensors.map Tensor.hash ++ [64, 64]))
        = hashChain (0 :: (decodeTensors.map Tensor.hash ++ [63, 1])) := by decide
    exact hashChain_append_congr hprefix (((decodeCall 64 64).hashes H).drop 7)

/-- An instance built for the first call serves the second. -/
theorem CacheKey.pagedAttention_hit_of_other_call :
    (∀ H, SameEntry (build H {} (decodeCall 64 64)) (build H {} (decodeCall 63 1))) ∧
      ¬ CallsAgree {} {} (decodeCall 64 64) (decodeCall 63 1) := by
  refine ⟨sameEntry_decodeCall, ?_⟩
  rintro ⟨-, -, -, -, -, -, hHeads, -⟩
  have hHeads : (64 : BitVec 64) = 63 := hHeads
  exact absurd hHeads (by decide)

/-- What `sameEntry_build` leaves of that hit: the tensors agree. -/
theorem CacheKey.agreeTensors_decodeCall :
    (decodeCall 64 64).AgreeTensors (decodeCall 63 1) :=
  let H : StdHash := { ofFloat := BitVec.setWidth 64, ofDouble := id, ofNullopt := -3333 }
  (sameEntry_build H {} {} (decodeCall 64 64) (decodeCall 63 1) (sameEntry_decodeCall H)).2.1
    (by decide)

/-! ## Calls that agree share an entry -/

theorem CacheKey.optHash_tensor_congr (H : StdHash) {a b : Option Tensor}
    (h : Option.Rel Tensor.SameMeta a b) : optHash H Tensor.hash a = optHash H Tensor.hash b := by
  cases h with
  | none => rfl
  | some hab => exact hab.hash_eq

theorem Tensor.map_hash_congr {xs ys : List Tensor} (h : List.Forall₂ SameMeta xs ys) :
    xs.map hash = ys.map hash := by
  induction h with
  | nil => rfl
  | cons hab _ ih => rw [List.map_cons, List.map_cons, hab.hash_eq, ih]

/-- Agreeing argument lists absorb the same values and store tensors that
agree. -/
theorem Args.Agree.absorbed (H : StdHash) {σ : List ArgTy} {x y : Args σ} (h : x.Agree y) :
    List.Forall₂ Tensor.SameMeta x.tensors y.tensors ∧
      x.scalarHashes H = y.scalarHashes H ∧ x.hashes H = y.hashes H := by
  induction x with
  | nil => cases y; exact ⟨.nil, rfl, rfl⟩
  | cons v x ih =>
    rename_i τ σ
    cases y with
    | cons w y =>
      obtain ⟨hv, hrest⟩ := h
      obtain ⟨ht, hs, hh⟩ := ih hrest
      cases τ with
      | tensor =>
        have hv : Tensor.SameMeta v w := hv
        exact ⟨.cons hv ht, hs, by rw [hashes, hashes, hv.hash_eq, hh]⟩
      | tensors =>
        have hv : List.Forall₂ Tensor.SameMeta v w := hv
        refine ⟨List.rel_append hv ht, hs, ?_⟩
        rw [hashes, hashes, hv.length_eq, Tensor.map_hash_congr hv, hh]
      | optTensor =>
        have hv := CacheKey.optHash_tensor_congr H (a := v) (b := w) hv
        exact ⟨ht, by rw [scalarHashes, scalarHashes, hv, hs], by rw [hashes, hashes, hv, hh]⟩
      | scalar s =>
        have hv : v = w := hv
        exact ⟨ht, by rw [scalarHashes, scalarHashes, hv, hs], by rw [hashes, hashes, hv, hh]⟩
      | optScalar s =>
        have hv : v = w := hv
        exact ⟨ht, by rw [scalarHashes, scalarHashes, hv, hs], by rw [hashes, hashes, hv, hh]⟩

/-- A repeated call finds the entry of the first one. -/
theorem CacheKey.sameEntry_of_callsAgree (H : StdHash) {c₁ c₂ : Config} {σ : List ArgTy}
    {x y : Args σ} (h : CallsAgree c₁ c₂ x y) : SameEntry (build H c₁ x) (build H c₂ y) := by
  obtain ⟨hidx, hargs⟩ := h
  obtain ⟨ht, hs, hh⟩ := hargs.absorbed H
  exact (sameEntry_build_iff H c₁ c₂ x y).mpr ⟨ht, by rw [hidx, hs], by rw [hidx, hh]⟩

end InfiniOps
