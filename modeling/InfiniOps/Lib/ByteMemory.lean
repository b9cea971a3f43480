/-
InfiniOps.Lib.ByteMemory — memory of which some bytes can be read.

`readBytes m addr count` is `none` as soon as one of the bytes cannot be
read, so a result says which bytes a program has touched
(`isSome_of_readBytes`). `ofBuffer` is the memory of a buffer that was
filled by such a read.

`mapM_eq_some` and `isSome_of_mapM` are the two directions for any list of
partial steps.
-/
import Mathlib.Data.List.Basic

namespace ByteMemory

theorem mapM_eq_some {α β : Type} {f : α → Option β} (g : α → β) {as : List α}
    (h : ∀ a ∈ as, f a = some (g a)) : as.mapM f = some (as.map g) := by
  induction as with
  | nil => rfl
  | cons a as ih =>
    have hrest := ih fun b hb => h b (List.mem_cons_of_mem a hb)
    simp [List.mapM_cons, h a List.mem_cons_self, hrest]

theorem isSome_of_mapM {α β : Type} {f : α → Option β} {as : List α} (h : (as.mapM f).isSome) :
    ∀ a ∈ as, (f a).isSome := by
  induction as with
  | nil =>
    intro a ha
    cases ha
  | cons b as ih =>
    rw [List.mapM_cons] at h
    cases hb : f b with
    | none => simp [hb] at h
    | some y =>
      cases hrest : as.mapM f with
      | none => simp [hb, hrest] at h
      | some ys =>
        intro a ha
        rcases List.mem_cons.mp ha with rfl | ha
        · simp [hb]
        · exact ih (by simp [hrest]) a ha

/-- The bytes that can be read, by address. -/
abbrev Bytes := Int → Option UInt8

def readBytes (m : Bytes) (addr : Int) (count : Nat) : Option (List UInt8) :=
  (List.range count).mapM fun (k : Nat) => m (addr + k)

/-- A buffer, from address 0 on. -/
def ofBuffer (buf : List UInt8) : Bytes := fun addr => if 0 ≤ addr then buf[addr.toNat]? else none

/-- The number that bytes stand for, the lowest first. -/
def littleEndian : List UInt8 → Nat
  | [] => 0
  | b :: bs => b.toNat + 256 * littleEndian bs

variable {m : Bytes} {addr : Int} {count : Nat}

theorem readBytes_eq_some (f : Nat → UInt8) (h : ∀ k < count, m (addr + k) = some (f k)) :
    readBytes m addr count = some ((List.range count).map f) :=
  mapM_eq_some f fun k hk => h k (List.mem_range.mp hk)

theorem isSome_of_readBytes (h : (readBytes m addr count).isSome) :
    ∀ k < count, (m (addr + k)).isSome := fun k hk =>
  isSome_of_mapM h k (List.mem_range.mpr hk)

theorem ofBuffer_map (f : Nat → UInt8) {k : Nat} (hk : k < count) :
    ofBuffer ((List.range count).map f) k = some (f k) := by
  simp [ofBuffer, hk]

end ByteMemory
