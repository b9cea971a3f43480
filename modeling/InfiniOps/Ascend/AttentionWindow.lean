/-
InfiniOps.Ascend.AttentionWindow — the window of `FlashAttention`, in the
base class (`src/base/flash_attention.h`) and in the arguments that the
Ascend operator passes for it
(`src/native/ascend/ops/flash_attention/kernel.h`, `fia_common_.h`).

The base class resolves a window pair or a `sliding_window` into a pair, of
which a negative side is unbounded. Prefill chooses a sparse mode and token
counts for the pair; paged decode passes neither.

What the fused operator makes of its arguments is not part of the
repository. `FiaDocumented` is what its documentation says of the modes
that are passed: without a mask, mode 0 lets every query see every key,
whatever the token counts; modes 3 and 4 count from the last query and the
last key. Whether mode 4 has an effect on a single query differs between
layouts and versions, so both are allowed.

The window reaches the operator exactly where `Kept` says
(`window_respected_iff`): on the causal prefill path, but for a
`sliding_window` of 0, and elsewhere only if it covers everything anyway.
-/
import InfiniOps.Core.Dispatcher
import InfiniOps.Lib.Except

namespace InfiniOps.Ascend

/-! ## The base class -/

/-- The window arguments. -/
structure AttentionWindow where
  causal : Bool
  windowLeft : Int
  windowRight : Int
  slidingWindow : Option Int
  deriving DecidableEq, Repr

/-- `window_left_` and `window_right_`. -/
structure ResolvedWindow where
  left : Int
  right : Int
  deriving DecidableEq, Repr

def resolveWindowLeft (windowLeft : Int) (slidingWindow : Option Int) : Except Failure Int :=
  match slidingWindow with
  | none => .ok windowLeft
  | some s => do
    let derived := s - 1
    assertion (windowLeft = -1 ∨ windowLeft = derived)
      "`FlashAttention`: `window_left` inconsistent with `sliding_window`"
    return derived

def resolveWindowRight (windowRight : Int) (slidingWindow : Option Int) : Except Failure Int :=
  match slidingWindow with
  | none => .ok windowRight
  | some _ => do
    assertion (windowRight = -1 ∨ windowRight = 0)
      ("`FlashAttention`: `window_right` inconsistent with `sliding_window` " ++
        "(vLLM sliding_window implies right=0)")
    return 0

def AttentionWindow.resolve (w : AttentionWindow) : Except Failure ResolvedWindow := do
  let left ← resolveWindowLeft w.windowLeft w.slidingWindow
  let right ← resolveWindowRight w.windowRight w.slidingWindow
  return { left, right }

/-! ## What the operator passes -/

/-- The arguments of the fused operator that a window is described by. -/
structure FiaCall where
  sparseMode : Int
  preTokens : Int
  nextTokens : Int
  /-- Whether `attenMask` is given. -/
  attenMask : Bool
  deriving DecidableEq, Repr

/-- Sparse mode and token counts, as `operator()` computes them. -/
structure SparseParams where
  sparseMode : Int
  preTokens : Int
  nextTokens : Int
  deriving DecidableEq, Repr

def kMaxTokens : Int := 2147483647

/-- The branches of `operator()`. -/
def sparseParams (causal : Bool) (wl wr : Int) : SparseParams :=
  if causal then
    if 0 ≤ wl then ⟨4, wl, 0⟩ else ⟨3, kMaxTokens, 0⟩
  else
    ⟨0, if 0 ≤ wl then wl else kMaxTokens, if 0 ≤ wr then wr else kMaxTokens⟩

/-- `fia::ResolveSparseMode`, which assigns defaults first. -/
def resolveSparseMode (isCausal : Bool) (windowLeft windowRight : Int) : SparseParams :=
  let p : SparseParams := ⟨0, kMaxTokens, kMaxTokens⟩
  if isCausal then
    let p := if 0 ≤ windowLeft then { p with sparseMode := 4, preTokens := windowLeft }
      else { p with sparseMode := 3 }
    { p with nextTokens := 0 }
  else
    let p := if 0 ≤ windowLeft then { p with preTokens := windowLeft } else p
    if 0 ≤ windowRight then { p with nextTokens := windowRight } else p

/-- The shared helper and the operator choose alike. -/
theorem resolveSparseMode_eq (causal : Bool) (wl wr : Int) :
    resolveSparseMode causal wl wr = sparseParams causal wl wr := by
  unfold resolveSparseMode sparseParams
  cases causal <;> by_cases hl : 0 ≤ wl <;> by_cases hr : 0 ≤ wr <;> simp [hl, hr]

/-- The mask is made by the constructor, for a causal prefill and a mode of 2
or more. -/
def causalMask (paged causal : Bool) (wl : Int) : Bool :=
  !paged && causal && decide ((2 : Int) ≤ if 0 ≤ wl then 4 else 3)

/-- The call for a resolved window. Paged decode passes constants. -/
def fiaCall (paged causal : Bool) (w : ResolvedWindow) : FiaCall :=
  if paged then
    { sparseMode := 0, preTokens := kMaxTokens, nextTokens := kMaxTokens, attenMask := false }
  else
    let p := sparseParams causal w.left w.right
    { sparseMode := p.sparseMode, preTokens := p.preTokens, nextTokens := p.nextTokens
      attenMask := causalMask paged causal w.left }

/-! ## What is visible -/

/-- Which keys the fused operator shows to a query: of a sequence with so many
queries and keys, query `i` sees key `j`. -/
abbrev FiaVisible := FiaCall → (queries keys : Nat) → (i j : Nat) → Prop

/-- Query `i` in the numbering of the keys, where the last query is the last
key. -/
def alignedQuery (queries keys i : Nat) : Int := (i : Int) + keys - queries

/-- The documented meaning of the arguments that are passed. `ignoresSingle`
says that a band has no effect on a single query. -/
structure FiaDocumented (visible : FiaVisible) (ignoresSingle : Bool) : Prop where
  noMask : ∀ (c : FiaCall) (queries keys i j : Nat), i < queries → j < keys →
    c.sparseMode = 0 → c.attenMask = false → visible c queries keys i j
  rightDownCausal : ∀ (c : FiaCall) (queries keys i j : Nat), i < queries → j < keys →
    c.sparseMode = 3 → c.attenMask = true →
      (visible c queries keys i j ↔ (j : Int) ≤ alignedQuery queries keys i)
  band : ∀ (c : FiaCall) (queries keys i j : Nat), i < queries → j < keys →
    c.sparseMode = 4 → c.attenMask = true →
      (visible c queries keys i j ↔
        ignoresSingle = true ∧ queries = 1 ∨
          alignedQuery queries keys i - c.preTokens ≤ j ∧
            (j : Int) ≤ alignedQuery queries keys i + c.nextTokens)

/-- The documented meaning itself. -/
def documentedVisible (ignoresSingle : Bool) : FiaVisible := fun c queries keys i j =>
  if c.sparseMode = 4 then
    ignoresSingle = true ∧ queries = 1 ∨
      alignedQuery queries keys i - c.preTokens ≤ j ∧
        (j : Int) ≤ alignedQuery queries keys i + c.nextTokens
  else if c.sparseMode = 3 then (j : Int) ≤ alignedQuery queries keys i
  else True

theorem documentedVisible_documented (ignoresSingle : Bool) :
    FiaDocumented (documentedVisible ignoresSingle) ignoresSingle where
  noMask c _ _ _ _ _ _ hmode _ := by simp [documentedVisible, hmode]
  rightDownCausal c _ _ _ _ _ _ hmode _ := by simp [documentedVisible, hmode]
  band c _ _ _ _ _ _ hmode _ := by simp [documentedVisible, hmode]

/-- The window that the arguments of the base class ask for: a negative side
is unbounded, `sliding_window` is the most recent tokens, and `causal` hides
what comes after the query. -/
def AttentionWindow.Shows (w : AttentionWindow) (queries keys i j : Nat) : Prop :=
  let q := alignedQuery queries keys i
  (w.causal = true → (j : Int) ≤ q) ∧
    match w.slidingWindow with
    | some s => q - s < j ∧ (j : Int) ≤ q
    | none => (0 ≤ w.windowLeft → q - w.windowLeft ≤ j) ∧
        (0 ≤ w.windowRight → (j : Int) ≤ q + w.windowRight)

/-- The operator shows every query of a sequence the keys of its window. -/
def WindowRespected (visible : FiaVisible) (paged : Bool) (w : AttentionWindow)
    (r : ResolvedWindow) (queries keys : Nat) : Prop :=
  ∀ i < queries, ∀ j < keys,
    (visible (fiaCall paged w.causal r) queries keys i j ↔ w.Shows queries keys i j)

/-! ## Where it agrees -/

namespace AttentionWindow

variable (w : AttentionWindow)

/-- To the left, the window covers every key of every query. -/
def CoversLeft (keys : Nat) : Prop :=
  match w.slidingWindow with
  | some s => (keys : Int) ≤ s
  | none => w.windowLeft < 0 ∨ (keys : Int) ≤ w.windowLeft + 1

/-- To the right, too. -/
def CoversRight (queries : Nat) : Prop :=
  match w.slidingWindow with
  | some _ => queries ≤ 1
  | none => w.windowRight < 0 ∨ (queries : Int) ≤ w.windowRight + 1

/-- The window reaches the operator, or it makes no difference. -/
def Kept (ignoresSingle paged : Bool) (queries keys : Nat) : Prop :=
  queries = 0 ∨ keys = 0 ∨
    if paged then w.CoversLeft keys
    else if w.causal then
      w.slidingWindow ≠ some 0 ∧
        (ignoresSingle = true → queries = 1 → w.CoversLeft keys)
    else w.CoversLeft keys ∧ w.CoversRight queries

end AttentionWindow

/-! ## The two paths -/

namespace AttentionWindow

variable {w : AttentionWindow}

/-- The pair of a window that the base class accepts. -/
theorem resolved_eq {r : ResolvedWindow} (h : w.resolve = .ok r) :
    r = match w.slidingWindow with
      | some s => ⟨s - 1, 0⟩
      | none => ⟨w.windowLeft, w.windowRight⟩ := by
  simp only [resolve, bind_eq_ok] at h
  obtain ⟨left, hleft, right, hright, hr⟩ := h
  obtain rfl := Except.ok.inj hr
  unfold resolveWindowLeft at hleft
  unfold resolveWindowRight at hright
  cases hs : w.slidingWindow with
  | none =>
    rw [hs] at hleft hright
    rw [Except.ok.inj hleft, Except.ok.inj hright]
  | some s =>
    rw [hs] at hleft hright
    obtain ⟨-, hleft⟩ := bind_assertion_eq_ok.mp hleft
    obtain ⟨-, hright⟩ := bind_assertion_eq_ok.mp hright
    obtain rfl := Except.ok.inj hleft
    obtain rfl := Except.ok.inj hright
    rfl

/-- A single query has no key to its right. -/
theorem coversRight_one (w : AttentionWindow) : w.CoversRight 1 := by
  unfold CoversRight
  cases w.slidingWindow <;> simp only <;> omega

/-- A causal window with a left side is a band. -/
theorem shows_band {r : ResolvedWindow} (hcausal : w.causal = true) (hr : w.resolve = .ok r)
    (hleft : 0 ≤ r.left) {queries keys i j : Nat} :
    w.Shows queries keys i j ↔ alignedQuery queries keys i - r.left ≤ j ∧
      (j : Int) ≤ alignedQuery queries keys i := by
  have hpair := resolved_eq hr
  unfold Shows
  cases hsliding : w.slidingWindow with
  | some s =>
    rw [hsliding] at hpair
    subst hpair
    simp only [hcausal]
    omega
  | none =>
    rw [hsliding] at hpair
    subst hpair
    simp only at hleft
    simp only [hcausal, forall_const]
    omega

/-- When a window hides nothing. The last query and the first key decide on
the left, the first query and the last key on the right. -/
theorem shows_all_iff {queries keys : Nat} (hq : 0 < queries) (hk : 0 < keys) :
    (∀ i < queries, ∀ j < keys, w.Shows queries keys i j) ↔
      (w.causal = true → queries ≤ 1) ∧ w.CoversLeft keys ∧ w.CoversRight queries := by
  unfold Shows CoversLeft CoversRight alignedQuery
  constructor
  · intro h
    obtain ⟨-, hleft⟩ := h (queries - 1) (by omega) 0 hk
    obtain ⟨hcausal, hright⟩ := h 0 hq (keys - 1) (by omega)
    refine ⟨fun hc => ?_, ?_⟩
    · have hlast := hcausal hc
      omega
    · cases hs : w.slidingWindow with
      | some s =>
        rw [hs] at hleft hright
        simp only at hleft hright ⊢
        omega
      | none =>
        rw [hs] at hleft hright
        simp only at hleft hright ⊢
        omega
  · intro ⟨hcausal, hleft, hright⟩ i hi j hj
    refine ⟨fun hc => ?_, ?_⟩
    · have hsingle := hcausal hc
      omega
    · cases hs : w.slidingWindow with
      | some s =>
        rw [hs] at hleft hright
        simp only at hleft hright ⊢
        omega
      | none =>
        rw [hs] at hleft hright
        simp only at hleft hright ⊢
        omega

end AttentionWindow

section Paths

variable {visible : FiaVisible} {ignoresSingle : Bool}
  (hfia : FiaDocumented visible ignoresSingle) {w : AttentionWindow} {r : ResolvedWindow}
  {queries keys : Nat} (hq : 0 < queries) (hk : 0 < keys)
include hfia

/-- Without a mask the window is respected if it hides nothing. -/
theorem respected_of_noMask {paged : Bool} (hmode : (fiaCall paged w.causal r).sparseMode = 0)
    (hmask : (fiaCall paged w.causal r).attenMask = false) :
    WindowRespected visible paged w r queries keys ↔
      ∀ i < queries, ∀ j < keys, w.Shows queries keys i j := by
  refine forall_congr' fun i => forall_congr' fun hi => forall_congr' fun j =>
    forall_congr' fun hj => ?_
  exact iff_true_left (hfia.noMask _ queries keys i j hi hj hmode hmask)

include hq hk

theorem decode_respected_iff (hsingle : queries = 1) :
    WindowRespected visible true w r queries keys ↔ w.CoversLeft keys := by
  subst hsingle
  have hright : w.CoversRight 1 := w.coversRight_one
  rw [respected_of_noMask hfia rfl rfl, AttentionWindow.shows_all_iff hq hk]
  exact ⟨fun h => h.2.1, fun h => ⟨fun _ => Nat.le_refl 1, h, hright⟩⟩

theorem prefill_respected_iff (hcausal : w.causal = false) :
    WindowRespected visible false w r queries keys ↔
      w.CoversLeft keys ∧ w.CoversRight queries := by
  rw [respected_of_noMask hfia (by rw [hcausal]; rfl) (by rw [hcausal]; rfl),
    AttentionWindow.shows_all_iff hq hk, hcausal]
  exact and_iff_right fun h => nomatch h

/-- A band shows the window, unless it has no effect on a single query. -/
theorem band_respected_iff (hcausal : w.causal = true) (hr : w.resolve = .ok r)
    (hleft : 0 ≤ r.left) :
    WindowRespected visible false w r queries keys ↔
      (ignoresSingle = true → queries = 1 → w.CoversLeft keys) := by
  have hcall : fiaCall false w.causal r = ⟨4, r.left, 0, true⟩ := by
    simp [fiaCall, sparseParams, causalMask, hcausal, hleft]
  by_cases hignored : ignoresSingle = true ∧ queries = 1
  · obtain ⟨hignores, rfl⟩ := hignored
    have hall : WindowRespected visible false w r 1 keys ↔
        ∀ i < 1, ∀ j < keys, w.Shows 1 keys i j := by
      refine forall_congr' fun i => forall_congr' fun hi => forall_congr' fun j =>
        forall_congr' fun hj => iff_true_left ?_
      rw [hcall]
      exact (hfia.band _ 1 keys i j hi hj rfl rfl).mpr (.inl ⟨hignores, rfl⟩)
    have hright : w.CoversRight 1 := w.coversRight_one
    rw [hall, AttentionWindow.shows_all_iff hq hk]
    exact ⟨fun h _ _ => h.2.1, fun h => ⟨fun _ => Nat.le_refl 1, h hignores rfl, hright⟩⟩
  · refine iff_of_true ?_ fun hignores hsingle => absurd ⟨hignores, hsingle⟩ hignored
    intro i hi j hj
    rw [hcall, hfia.band _ queries keys i j hi hj rfl rfl, or_iff_right hignored,
      AttentionWindow.shows_band hcausal hr hleft, Int.add_zero]

/-- Without a left side only `causal` is passed, which is the window unless it
is one of no tokens. -/
theorem rightDown_respected_iff (hcausal : w.causal = true) (hr : w.resolve = .ok r)
    (hs : ∀ s ∈ w.slidingWindow, 0 ≤ s) (hleft : r.left < 0) :
    WindowRespected visible false w r queries keys ↔ w.slidingWindow ≠ some 0 := by
  have hcall : fiaCall false w.causal r = ⟨3, kMaxTokens, 0, true⟩ := by
    simp [fiaCall, sparseParams, causalMask, hcausal, Int.not_le.mpr hleft]
  have hvisible {i j : Nat} (hi : i < queries) (hj : j < keys) :
      visible (fiaCall false w.causal r) queries keys i j ↔
        (j : Int) ≤ alignedQuery queries keys i := by
    rw [hcall]
    exact hfia.rightDownCausal _ queries keys i j hi hj rfl rfl
  have hpair := AttentionWindow.resolved_eq hr
  cases hsliding : w.slidingWindow with
  | some s =>
    rw [hsliding] at hpair
    subst hpair
    have hzero : s = 0 := by
      have hnonneg := hs s hsliding
      simp only at hleft
      omega
    subst hzero
    refine iff_of_false ?_ fun h => h rfl
    intro h
    -- the last query sees the first key, and should not
    have hlast := h (queries - 1) (by omega) 0 hk
    rw [hvisible (by omega) hk] at hlast
    simp only [AttentionWindow.Shows, hsliding, alignedQuery] at hlast
    omega
  | none =>
    rw [hsliding] at hpair
    subst hpair
    refine iff_of_true ?_ fun h => nomatch h
    intro i hi j hj
    rw [hvisible hi hj]
    simp only at hleft
    simp only [AttentionWindow.Shows, hsliding, hcausal, forall_const]
    omega

/-- A causal prefill shows the window, but for one of no tokens, for which
there is no left side. -/
theorem causal_respected_iff (hcausal : w.causal = true) (hr : w.resolve = .ok r)
    (hs : ∀ s ∈ w.slidingWindow, 0 ≤ s) :
    WindowRespected visible false w r queries keys ↔
      w.slidingWindow ≠ some 0 ∧
        (ignoresSingle = true → queries = 1 → w.CoversLeft keys) := by
  by_cases hleft : 0 ≤ r.left
  · rw [band_respected_iff hfia hq hk hcausal hr hleft, and_iff_right]
    intro hzero
    rw [AttentionWindow.resolved_eq hr, hzero] at hleft
    simp only at hleft
    omega
  · rw [rightDown_respected_iff hfia hq hk hcausal hr hs (Int.not_le.mp hleft)]
    refine (and_iff_left_of_imp ?_).symm
    intro hne _ _
    unfold AttentionWindow.CoversLeft
    rw [AttentionWindow.resolved_eq hr] at hleft
    cases hsliding : w.slidingWindow with
    | some s =>
      have hnonneg := hs s hsliding
      have hpos : s ≠ 0 := fun hzero => hne (hzero ▸ hsliding)
      rw [hsliding] at hleft
      simp only at hleft
      omega
    | none =>
      rw [hsliding] at hleft
      exact .inl (Int.not_le.mp hleft)

end Paths

/-- The window reaches the fused operator on the causal prefill path, and
elsewhere only if it makes no difference. -/
theorem window_respected_iff {visible : FiaVisible} {ignoresSingle : Bool}
    (hfia : FiaDocumented visible ignoresSingle) {w : AttentionWindow} {r : ResolvedWindow}
    (hr : w.resolve = .ok r) (hs : ∀ s ∈ w.slidingWindow, 0 ≤ s) (paged : Bool)
    (queries keys : Nat) (hpaged : paged = true → queries = 1) :
    WindowRespected visible paged w r queries keys ↔ w.Kept ignoresSingle paged queries keys := by
  unfold AttentionWindow.Kept
  by_cases hq : queries = 0
  · subst hq
    exact iff_of_true (fun i hi => absurd hi (Nat.not_lt_zero i)) (.inl rfl)
  by_cases hk : keys = 0
  · subst hk
    exact iff_of_true (fun i _ j hj => absurd hj (Nat.not_lt_zero j)) (.inr (.inl rfl))
  rw [or_iff_right hq, or_iff_right hk]
  have hq' := Nat.pos_of_ne_zero hq
  have hk' := Nat.pos_of_ne_zero hk
  cases paged with
  | true =>
    rw [if_pos rfl]
    exact decode_respected_iff hfia hq' hk' (hpaged rfl)
  | false =>
    rw [if_neg (by decide)]
    cases hcausal : w.causal with
    | true =>
      rw [if_pos rfl]
      exact causal_respected_iff hfia hq' hk' hcausal hr hs
    | false =>
      rw [if_neg (by decide)]
      exact prefill_respected_iff hfia hq' hk' hcausal

/-- Three queries over eight keys, causal with a sliding window of 4. -/
theorem window_respected_iff_prefill :
    WindowRespected (documentedVisible true) false ⟨true, -1, -1, some 4⟩ ⟨3, 0⟩ 3 8 := by
  have hnonneg : ∀ s ∈ some (4 : Int), 0 ≤ s := by
    intro s hs
    obtain rfl := Option.some.inj hs
    decide
  exact (window_respected_iff (documentedVisible_documented true)
    (w := ⟨true, -1, -1, some 4⟩) rfl hnonneg false 3 8 (fun h => nomatch h)).mpr
      (.inr (.inr ⟨by decide, fun _ h => absurd h (by decide)⟩))

/-- Paged decode over eight keys, with the same window: the query sees the
first key, and should see the last four. -/
theorem decode_shows_old_key :
    AttentionWindow.resolve ⟨true, -1, -1, some 4⟩ = .ok ⟨3, 0⟩ ∧
      ¬ WindowRespected (documentedVisible true) true ⟨true, -1, -1, some 4⟩ ⟨3, 0⟩ 1 8 := by
  refine ⟨rfl, ?_⟩
  intro h
  have hfirst : AttentionWindow.Shows ⟨true, -1, -1, some 4⟩ 1 8 0 0 :=
    (h 0 (by decide) 0 (by decide)).mp trivial
  have hrecent : (0 : Int) + 8 - 1 - 4 < 0 := hfirst.2.1
  exact absurd hrecent (by decide)

end InfiniOps.Ascend
