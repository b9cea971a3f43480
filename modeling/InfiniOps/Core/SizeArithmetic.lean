/-
InfiniOps.Core.SizeArithmetic — what constructors do with extents before
any data is touched: read them, multiply them, divide them and check them.

Each step can end the construction. An extent read outside of the shape, a
product that leaves `int64_t` and a division by zero are undefined; an
assertion that fails aborts.
-/
import InfiniOps.Core.MachineInt
import InfiniOps.Core.Tensor
import InfiniOps.Lib.Except

namespace InfiniOps

/-- How arithmetic on extents ends a construction or a call. -/
inductive SizeError where
  | aborted (message : String)
  | outsideShape
  | overflow
  | divideByZero
  deriving DecidableEq, Repr

namespace SizeError

def check (p : Prop) [Decidable p] (message : String) : Except SizeError Unit :=
  if p then .ok () else .error (.aborted message)

/-- `Tensor::size`. -/
def extent (t : Tensor) (index : Int) : Except SizeError Nat :=
  match t.size? index with
  | none => .error .outsideShape
  | some n => .ok n

/-- The values of `int64_t`. -/
def InInt64 (x : Int) : Prop := -2 ^ 63 ≤ x ∧ x < 2 ^ 63

instance (x : Int) : Decidable (InInt64 x) := inferInstanceAs (Decidable (_ ∧ _))

/-- A product of `int64_t`. -/
def product (a b : Int) : Except SizeError Int :=
  if InInt64 (a * b) then .ok (a * b) else .error .overflow

/-- A quotient of `int64_t`, which truncates. -/
def quotient (a b : Int) : Except SizeError Int :=
  if b = 0 then .error .divideByZero else .ok (a.tdiv b)

end SizeError

/-- The arithmetic divides by zero. -/
def DividesByZero {α : Type} (r : Except SizeError α) : Prop := r = .error .divideByZero

instance {α : Type} (r : Except SizeError α) : Decidable (DividesByZero r) :=
  match r with
  | .error .divideByZero => isTrue rfl
  | .error (.aborted _) => isFalse fun h => nomatch h
  | .error .outsideShape => isFalse fun h => nomatch h
  | .error .overflow => isFalse fun h => nomatch h
  | .ok _ => isFalse fun h => nomatch h

/-! ## Which step divides by zero -/

section Steps

variable {α β : Type}

@[simp] theorem dividesByZero_ok (a : α) : ¬ DividesByZero (.ok a : Except SizeError α) := by
  simp [DividesByZero]

@[simp] theorem dividesByZero_error {e : SizeError} :
    DividesByZero (.error e : Except SizeError α) ↔ e = .divideByZero := by
  simp [DividesByZero]

/-- A sequence divides by zero in its first step or after it. -/
theorem dividesByZero_bind {r : Except SizeError α} {f : α → Except SizeError β} :
    DividesByZero (r >>= f) ↔ DividesByZero r ∨ ∃ a, r = .ok a ∧ DividesByZero (f a) := by
  cases r with
  | error e => simp [DividesByZero, bind, Except.bind]
  | ok a => simp [DividesByZero, bind, Except.bind]

theorem dividesByZero_check {p : Prop} [Decidable p] {m : String}
    {f : Unit → Except SizeError β} :
    DividesByZero (SizeError.check p m >>= f) ↔ p ∧ DividesByZero (f ()) := by
  by_cases hp : p
  · rw [SizeError.check, if_pos hp]
    exact ⟨fun h => ⟨hp, h⟩, And.right⟩
  · rw [SizeError.check, if_neg hp]
    exact iff_of_false (by simp [error_bind]) fun h => hp h.1

theorem SizeError.check_eq_ok {p : Prop} [Decidable p] {m : String} {u : Unit} :
    SizeError.check p m = .ok u ↔ p := by
  simp [SizeError.check]

theorem SizeError.extent_eq_ok {t : Tensor} {index : Int} {n : Nat} :
    SizeError.extent t index = .ok n ↔ t.size? index = some n := by
  unfold SizeError.extent
  cases t.size? index <;> simp

theorem dividesByZero_quotient {a b : Int} : DividesByZero (SizeError.quotient a b) ↔ b = 0 := by
  unfold SizeError.quotient
  by_cases h : b = 0
  · rw [if_pos h]
    exact ⟨fun _ => h, fun _ => rfl⟩
  · rw [if_neg h]
    exact iff_of_false (by simp) h

end Steps

end InfiniOps
