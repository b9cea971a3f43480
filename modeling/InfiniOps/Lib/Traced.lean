/-
InfiniOps.Lib.Traced — computations that send messages, change a state and
may raise.

A `Traced ω σ ε α` starts in a state of type `σ`; it sends messages `ω` on
the way and ends in a state, with a value or an exception. What it sent
before an exception stays sent, and the state stays changed.

The rules say what a sequence sends, by what its first part does
(`bind_ofExcept`, `bind_step`, `bind_emit`, `bind_of_ok`, `bind_of_error`),
and what a protected part does, by how its body ends (`tryExcept_of_ok`,
`tryExcept_of_error`, `tryFinally_run`).
-/
import Mathlib.Init

/-- The messages, the last state and the value or exception. -/
def Traced (ω σ ε α : Type) : Type := σ → List ω × σ × Except ε α

namespace Traced

variable {ω σ ε α β : Type}

instance : Monad (Traced ω σ ε) where
  pure a := fun s => ([], s, .ok a)
  bind m f := fun s =>
    match m s with
    | (sent, s', .ok a) => (sent ++ (f a s').1, (f a s').2)
    | (sent, s', .error e) => (sent, s', .error e)

def raise (e : ε) : Traced ω σ ε α := fun s => ([], s, .error e)

def emit (w : ω) : Traced ω σ ε Unit := fun s => ([w], s, .ok ())

def ofExcept (x : Except ε α) : Traced ω σ ε α := fun s => ([], s, x)

/-- A change of the state that returns something. -/
def step (f : σ → σ × α) : Traced ω σ ε α := fun s => ([], (f s).1, .ok (f s).2)

/-- `try: … except …:`. The handler starts in the state that the exception
left. -/
def tryExcept (body : Traced ω σ ε α) (handler : ε → Traced ω σ ε α) : Traced ω σ ε α := fun s =>
  match body s with
  | (out, s', .ok a) => (out, s', .ok a)
  | (out, s', .error e) => (out ++ (handler e s').1, (handler e s').2)

/-- `try: … finally: …`. An exception of the last part replaces the value or
exception of the first. -/
def tryFinally (body : Traced ω σ ε α) (last : Traced ω σ ε Unit) : Traced ω σ ε α := fun s =>
  match last (body s).2.1 with
  | (out, s', .ok ()) => ((body s).1 ++ out, s', (body s).2.2)
  | (out, s', .error e) => ((body s).1 ++ out, s', .error e)

/-- The messages that are sent from a state. -/
def sent (m : Traced ω σ ε α) (s : σ) : List ω := (m s).1

@[simp] theorem pure_run (a : α) (s : σ) : (pure a : Traced ω σ ε α) s = ([], s, .ok a) := rfl

@[simp] theorem raise_run (e : ε) (s : σ) : (raise e : Traced ω σ ε α) s = ([], s, .error e) := rfl

@[simp] theorem emit_run (w : ω) (s : σ) : (emit w : Traced ω σ ε Unit) s = ([w], s, .ok ()) := rfl

theorem bind_of_ok {m : Traced ω σ ε α} {f : α → Traced ω σ ε β} {s s' : σ} {out : List ω} {a : α}
    (h : m s = (out, s', .ok a)) : (m >>= f) s = (out ++ (f a s').1, (f a s').2) := by
  simp [Bind.bind, h]

theorem bind_of_error {m : Traced ω σ ε α} {f : α → Traced ω σ ε β} {s s' : σ} {out : List ω}
    {e : ε} (h : m s = (out, s', .error e)) : (m >>= f) s = (out, s', .error e) := by
  simp [Bind.bind, h]

@[simp] theorem bind_ofExcept (x : Except ε α) (f : α → Traced ω σ ε β) (s : σ) :
    (ofExcept x >>= f) s = match x with
      | .ok a => f a s
      | .error e => ([], s, .error e) := by
  cases x <;> rfl

@[simp] theorem bind_step (g : σ → σ × α) (f : α → Traced ω σ ε β) (s : σ) :
    (step g >>= f) s = f (g s).2 (g s).1 := rfl

@[simp] theorem bind_emit (w : ω) (f : Unit → Traced ω σ ε β) (s : σ) :
    (emit w >>= f) s = (w :: (f () s).1, (f () s).2) := rfl

theorem tryExcept_of_ok {m : Traced ω σ ε α} (handler : ε → Traced ω σ ε α) {s s' : σ}
    {out : List ω} {a : α} (h : m s = (out, s', .ok a)) : tryExcept m handler s = (out, s', .ok a) := by
  simp [tryExcept, h]

theorem tryExcept_of_error {m : Traced ω σ ε α} (handler : ε → Traced ω σ ε α) {s s' : σ}
    {out : List ω} {e : ε} (h : m s = (out, s', .error e)) :
    tryExcept m handler s = (out ++ (handler e s').1, (handler e s').2) := by
  simp [tryExcept, h]

/-- What a protected sequence sends, and the state it leaves, are those of
its two parts. -/
theorem tryFinally_run (m : Traced ω σ ε α) (last : Traced ω σ ε Unit) (s : σ) :
    (tryFinally m last s).1 = (m s).1 ++ (last (m s).2.1).1 ∧
      (tryFinally m last s).2.1 = (last (m s).2.1).2.1 := by
  rw [tryFinally]
  split <;> simp_all

@[simp] theorem sent_emit (w : ω) (s : σ) : sent (emit w : Traced ω σ ε Unit) s = [w] := rfl

@[simp] theorem sent_raise (e : ε) (s : σ) : sent (raise e : Traced ω σ ε α) s = [] := rfl

end Traced
