/-
InfiniOps.Core.Dispatcher — the runtime dispatchers of `src/dispatcher.h`
over the list operations of `src/common/traits.h`.

* `dispatchFunc` — one value: filter the allowed values, then a fold that
  tests the tail from the left and the head last.
* `dispatchFuncMulti` — a vector of `int64_t` keys, one list of allowed
  values for each. A key is converted to the type of its list first.

A `Run` records the invocations of the functor, so that "exactly once" and
"not at all" are statements about a list. `exact_iff` says when the
multi-key dispatcher does what its keys say: unless the converted keys are
all supported and are not the keys. The conversion drops bits, and only
the constants of the lists are checked for that by the compiler.
-/
import InfiniOps.Core.DataType
import InfiniOps.Core.MachineInt
import Mathlib.Data.List.Basic

namespace InfiniOps

/-! ## Runs -/

/-- How the process ends a call that does not return. -/
inductive Failure where
  /-- `std::abort`, after this text. -/
  | aborted (message : String)
  /-- The exception of `std::vector::at`. -/
  | outOfRange
  deriving DecidableEq, Repr

/-- `assert`, with the text of its condition. -/
def assertion (p : Prop) [Decidable p] (message : String) : Except Failure Unit :=
  if p then .ok () else .error (.aborted message)

theorem bind_assertion_eq_ok {p : Prop} [Decidable p] {message : String} {α : Type}
    {f : Unit → Except Failure α} {a : α} :
    (assertion p message >>= f) = .ok a ↔ p ∧ f () = .ok a := by
  by_cases hp : p
  · rw [assertion, if_pos hp]
    exact ⟨fun h => ⟨hp, h⟩, And.right⟩
  · rw [assertion, if_neg hp]
    exact ⟨fun h => (nomatch h), fun h => absurd h.1 hp⟩

/-- The tags the functor was invoked with, in order, and how the call ended. -/
structure Run (ι R : Type) where
  invocations : List ι
  ending : Except Failure R

/-- No invocation, and the process aborts. -/
def Run.abort {ι R : Type} (message : String) : Run ι R := ⟨[], .error (.aborted message)⟩

/-! ## One value -/

section Single

variable {V ι R : Type} [DecidableEq V]

/-- `Filter`: the values the functor takes, each once, in order. -/
def filter (isInvocable : V → Bool) : (filtered remaining : List V) → List V
  | filtered, [] => filtered
  | filtered, head :: tail =>
    if isInvocable head && !filtered.contains head then filter isInvocable (filtered ++ [head]) tail
    else filter isInvocable filtered tail

/-- The fold over `||`: the first value that matches is invoked. -/
def foldMatch (value : V) (func : V → Run ι R) : List V → Option (Run ι R)
  | [] => none
  | v :: vs => if value = v then some (func v) else foldMatch value func vs

/-- The report of `DispatchFuncImpl`. `value` is the enumerator's number. -/
def unsupportedMessage (isVoid : Bool) (value : Int) (context : String) : String :=
  "dispatch error (" ++ (if isVoid then "void" else "non-void") ++ "): value " ++
    toString (toInt32 value) ++ " not supported in the context: " ++ context ++ "\n"

/-- The report of `DispatchFuncUnwrap` for an empty list. -/
def noAllowedMessage (value : Int) (context : String) : String :=
  "dispatch error: no allowed values registered for value " ++ toString (toInt64 value) ++
    " in the context: " ++ context ++ "\n"

/-- `DispatchFuncImpl`. -/
def dispatchFuncImpl (code : V → Int) (isVoid : Bool) (value : V) (func : V → Run ι R)
    (context : String) (head : V) (tail : List V) : Run ι R :=
  match foldMatch value func (tail ++ [head]) with
  | some run => run
  | none => .abort (unsupportedMessage isVoid (code value) context)

/-- `DispatchFunc` for a single value, with `DispatchFuncUnwrap`. -/
def dispatchFunc (code : V → Int) (isVoid : Bool) (isInvocable : V → Bool) (allValues : List V)
    (value : V) (func : V → Run ι R) (context : String) : Run ι R :=
  match filter isInvocable [] allValues with
  | [] => .abort (noAllowedMessage (code value) context)
  | head :: tail => dispatchFuncImpl code isVoid value func context head tail

theorem mem_filter (isInvocable : V → Bool) (filtered remaining : List V) (v : V) :
    v ∈ filter isInvocable filtered remaining ↔ v ∈ filtered ∨ v ∈ remaining ∧ isInvocable v := by
  induction remaining generalizing filtered with
  | nil => simp [filter]
  | cons head tail ih =>
    rw [filter]
    split
    · rename_i htaken
      simp only [Bool.and_eq_true] at htaken
      rw [ih, List.mem_append, List.mem_singleton, List.mem_cons]
      grind
    · rename_i hskipped
      rw [ih, List.mem_cons]
      simp only [Bool.and_eq_true, Bool.not_eq_true', List.contains_eq_mem,
        decide_eq_false_iff_not] at hskipped
      grind

theorem foldMatch_of_mem {value : V} (func : V → Run ι R) {vs : List V} (h : value ∈ vs) :
    foldMatch value func vs = some (func value) := by
  induction vs with
  | nil => cases h
  | cons v vs ih =>
    rw [foldMatch]
    by_cases heq : value = v
    · rw [if_pos heq, heq]
    · rw [if_neg heq]
      exact ih ((List.mem_cons.mp h).resolve_left heq)

theorem foldMatch_of_notMem {value : V} (func : V → Run ι R) {vs : List V} (h : value ∉ vs) :
    foldMatch value func vs = none := by
  induction vs with
  | nil => rfl
  | cons v vs ih =>
    rw [List.mem_cons, not_or] at h
    rw [foldMatch, if_neg h.1, ih h.2]

variable (code : V → Int) (isVoid : Bool) {isInvocable : V → Bool} {allValues : List V} {value : V}
  (func : V → Run ι R) (context : String)

theorem dispatchFunc_of_mem (h : value ∈ allValues) (hinv : isInvocable value) :
    dispatchFunc code isVoid isInvocable allValues value func context = func value := by
  have hmem : value ∈ filter isInvocable [] allValues :=
    (mem_filter isInvocable [] allValues value).mpr (Or.inr ⟨h, hinv⟩)
  rw [dispatchFunc]
  cases hfilter : filter isInvocable [] allValues with
  | nil =>
    rw [hfilter] at hmem
    cases hmem
  | cons head tail =>
    rw [hfilter] at hmem
    have hrotated : value ∈ tail ++ [head] := by
      simpa [or_comm] using hmem
    simp only [dispatchFuncImpl, foldMatch_of_mem func hrotated]

theorem dispatchFunc_of_not (h : ¬ (value ∈ allValues ∧ isInvocable value)) :
    ∃ message, dispatchFunc code isVoid isInvocable allValues value func context
        = .abort message := by
  have hnotMem : value ∉ filter isInvocable [] allValues := by
    intro hmem
    exact h (((mem_filter isInvocable [] allValues value).mp hmem).resolve_left List.not_mem_nil)
  rw [dispatchFunc]
  cases hfilter : filter isInvocable [] allValues with
  | nil => exact ⟨_, rfl⟩
  | cons head tail =>
    rw [hfilter] at hnotMem
    have hrotated : value ∉ tail ++ [head] := by
      simpa [or_comm] using hnotMem
    refine ⟨unsupportedMessage isVoid (code value) context, ?_⟩
    simp only [dispatchFuncImpl, foldMatch_of_notMem func hrotated]

end Single

/-! ## A vector of keys -/

/-- `EnumType`, the type that the values of a list have in common: an
integer type, or an enumeration by its underlying type, or `bool`. -/
inductive EnumType where
  | int (signed : Bool) (bits : Nat)
  | bool
  deriving DecidableEq, Repr

/-- `static_cast<EnumType>` of an integer. -/
def EnumType.cast : EnumType → Int → Int
  | .int true bits, x => x.bmod (2 ^ bits)
  | .int false bits, x => x % 2 ^ bits
  | .bool, x => if x = 0 then 0 else 1

/-- A `List` of allowed values. They are constants of the type, which the
compiler checks, as it does that there is one. -/
structure AllowedList where
  enumType : EnumType
  values : List Int
  typed : ∀ v ∈ values, enumType.cast v = v
  nonempty : values ≠ []

/-- What the dispatcher is given to invoke. `isInvocable` is
`IsInvocableValue` for a candidate after the values resolved so far; it is
true throughout for a functor whose return type is deduced. -/
structure Functor (R : Type) where
  isVoid : Bool
  isInvocable : (items : List Int) → Int → Bool
  call : List Int → R

variable {R : Type} (f : Functor R) (context : String)

/-- `DispatchFunc` for a vector of keys, with `MultiDispatchFirstDim` and
`MultiDispatchRecurseAdapter`. -/
def dispatchFuncMulti (values : List Int) :
    (lists : List AllowedList) → (index : Nat) → (items : List Int) → Run (List Int) R
  | [], _, items => ⟨[items], .ok (f.call items)⟩
  | first :: rest, index, items =>
    match values[index]? with
    | none => ⟨[], .error .outOfRange⟩
    | some key =>
      dispatchFunc id f.isVoid (f.isInvocable items) first.values (first.enumType.cast key)
        (fun val => dispatchFuncMulti values rest (index + 1) (items ++ [val])) context

/-- `DispatchFunc` for a list of `int64_t` keys. -/
def dispatchKeys (lists : List AllowedList) (keys : List Int) : Run (List Int) R :=
  dispatchFuncMulti f context keys lists 0 []

/-- Every key is an allowed value that the functor can be invoked with. -/
def Supported : (lists : List AllowedList) → (keys items : List Int) → Prop
  | [], [], _ => True
  | first :: rest, key :: keys, items =>
    (key ∈ first.values ∧ f.isInvocable items key) ∧ Supported rest keys (items ++ [key])
  | _, _, _ => False

instance decidableSupported :
    (lists : List AllowedList) → (keys items : List Int) → Decidable (Supported f lists keys items)
  | [], [], _ => inferInstanceAs (Decidable True)
  | _ :: rest, key :: keys, items =>
    have := decidableSupported rest keys (items ++ [key])
    inferInstanceAs (Decidable (_ ∧ _))
  | [], _ :: _, _ => inferInstanceAs (Decidable False)
  | _ :: _, [], _ => inferInstanceAs (Decidable False)

/-- The keys after their conversions. -/
def castKeys (lists : List AllowedList) (keys : List Int) : List Int :=
  List.zipWith (fun (l : AllowedList) => l.enumType.cast) lists keys

/-- One invocation, with the keys, if they are supported; else a report and
no invocation. -/
def Exact (lists : List AllowedList) (keys : List Int) : Prop :=
  (Supported f lists keys [] → dispatchKeys f context lists keys = ⟨[keys], .ok (f.call keys)⟩) ∧
  (¬ Supported f lists keys [] → ∃ message, dispatchKeys f context lists keys = .abort message)

/-! ## What the dispatcher does with its keys -/

theorem castKeys_of_supported {lists : List AllowedList} {keys items : List Int}
    (h : Supported f lists keys items) : castKeys lists keys = keys := by
  induction lists generalizing keys items with
  | nil =>
    cases keys with
    | nil => rfl
    | cons key keys => cases h
  | cons first rest ih =>
    cases keys with
    | nil => cases h
    | cons key keys =>
      obtain ⟨⟨hmem, -⟩, htail⟩ := h
      have hrest := ih htail
      rw [castKeys] at hrest ⊢
      rw [List.zipWith_cons_cons, first.typed key hmem, hrest]

/-- From any position on, the run is decided by the converted keys: all of
them supported, and the functor is invoked with them. -/
theorem dispatchFuncMulti_spec (values : List Int) (lists : List AllowedList) (index : Nat)
    (items : List Int) (hlen : (values.drop index).length = lists.length) :
    (Supported f lists (castKeys lists (values.drop index)) items →
      dispatchFuncMulti f context values lists index items
        = ⟨[items ++ castKeys lists (values.drop index)],
            .ok (f.call (items ++ castKeys lists (values.drop index)))⟩) ∧
    (¬ Supported f lists (castKeys lists (values.drop index)) items →
      ∃ message, dispatchFuncMulti f context values lists index items = .abort message) := by
  induction lists generalizing index items with
  | nil =>
    rw [List.eq_nil_of_length_eq_zero hlen]
    simp [castKeys, Supported, dispatchFuncMulti]
  | cons first rest ih =>
    have hindex : index < values.length := by
      rw [List.length_drop, List.length_cons] at hlen
      omega
    have hdrop : values.drop index = values[index] :: values.drop (index + 1) :=
      List.drop_eq_getElem_cons hindex
    have hlen' : (values.drop (index + 1)).length = rest.length := by
      rw [hdrop, List.length_cons, List.length_cons] at hlen
      exact Nat.succ.inj hlen
    obtain ⟨ihSupported, ihNot⟩ := ih (index + 1)
        (items ++ [first.enumType.cast values[index]]) hlen'
    have hcast : castKeys (first :: rest) (values.drop index)
        = first.enumType.cast values[index] :: castKeys rest (values.drop (index + 1)) := by
      rw [hdrop]
      rfl
    rw [hcast, dispatchFuncMulti, List.getElem?_eq_getElem hindex]
    dsimp only
    refine ⟨?_, ?_⟩
    · rintro ⟨⟨hmem, hinv⟩, htail⟩
      rw [dispatchFunc_of_mem _ _ _ _ hmem hinv, ihSupported htail, List.append_assoc,
        List.singleton_append]
    · intro hnot
      by_cases hhead : first.enumType.cast values[index] ∈ first.values ∧
          f.isInvocable items (first.enumType.cast values[index])
      · rw [dispatchFunc_of_mem _ _ _ _ hhead.1 hhead.2]
        exact ihNot fun htail => hnot ⟨hhead, htail⟩
      · exact dispatchFunc_of_not _ _ _ _ hhead

/-- Dispatch is exact unless the conversion turns the keys into other, and
supported, ones. -/
theorem exact_iff (lists : List AllowedList) (keys : List Int) (hlen : keys.length = lists.length) :
    Exact f context lists keys
      ↔ (Supported f lists (castKeys lists keys) [] → castKeys lists keys = keys) := by
  have hspec := dispatchFuncMulti_spec f context keys lists 0 [] (by simpa using hlen)
  rw [List.drop_zero, List.nil_append] at hspec
  obtain ⟨hsupported, hnot⟩ := hspec
  constructor
  · intro hexact hcast
    by_contra hne
    -- The functor runs, with what the keys were converted to.
    have hrun : dispatchKeys f context lists keys = ⟨[castKeys lists keys], _⟩ := hsupported hcast
    by_cases hkeys : Supported f lists keys []
    · exact hne (castKeys_of_supported f hkeys)
    · obtain ⟨message, habort⟩ := hexact.2 hkeys
      rw [hrun] at habort
      cases congrArg Run.invocations habort
  · intro hsame
    refine ⟨?_, ?_⟩
    · intro hkeys
      have hcast := castKeys_of_supported f hkeys
      rw [hcast] at hsupported
      exact hsupported hkeys
    · intro hkeys
      refine hnot fun hcast => hkeys ?_
      rw [hsame hcast] at hcast
      exact hcast

/-- A list of `DataType` values, whose underlying type is `std::int8_t`. -/
def AllowedList.ofDataTypes (types : List DataType) (nonempty : types ≠ []) : AllowedList where
  enumType := .int true 8
  values := types.map DataType.code
  typed := by
    intro v hv
    obtain ⟨dtype, -, rfl⟩ := List.mem_map.mp hv
    cases dtype <;> rfl
  nonempty := by simpa using nonempty

theorem code_injective : Function.Injective DataType.code := by
  intro a b h
  revert h
  cases a <;> cases b <;> decide

theorem mem_ofDataTypes {types : List DataType} {nonempty : types ≠ []} {dtype : DataType} :
    dtype.code ∈ (AllowedList.ofDataTypes types nonempty).values ↔ dtype ∈ types :=
  List.mem_map_of_injective code_injective

theorem cast_ofDataTypes {types : List DataType} {nonempty : types ≠ []} (dtype : DataType) :
    (AllowedList.ofDataTypes types nonempty).enumType.cast dtype.code = dtype.code := by
  cases dtype <;> rfl

/-- A functor that is defined for every value. -/
def Functor.total (call : List Int → R) : Functor R := ⟨true, fun _ _ => true, call⟩

theorem exact_for_bfloat16 :
    Exact (Functor.total fun _ => ()) "" [.ofDataTypes reducedFloatTypes (by decide)] [9] :=
  (exact_iff _ _ _ _ (by decide)).mpr (by decide)

/-- 265 is no enumerator, and its low byte is `kBFloat16`. -/
theorem key_265_runs_bfloat16 :
    ¬ Exact (Functor.total fun _ => ()) "" [.ofDataTypes reducedFloatTypes (by decide)] [265] := by
  intro h
  obtain ⟨message, habort⟩ := h.2 (by decide)
  cases congrArg Run.invocations habort

end InfiniOps
