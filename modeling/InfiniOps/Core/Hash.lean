/-
InfiniOps.Core.Hash — `HashCombine` of `src/hash.h` and the `std::hash`
specialisations it is used with.

`std::size_t` is 64 bits wide. `std::hash` of an integer or an enumerator
is the value itself converted to `std::size_t`. The hash of a
floating-point value and of an empty `std::optional` are the standard
library's own choice, so `StdHash` carries them: every statement below is
about every such choice.
-/
import InfiniOps.Core.Tensor

namespace InfiniOps

/-- `std::size_t`. -/
abbrev SizeT := BitVec 64

/-- The part of `std::hash` that the standard leaves to the library. -/
structure StdHash where
  /-- `std::hash<float>`, on the bit pattern. -/
  ofFloat : BitVec 32 → SizeT
  /-- `std::hash<double>`, on the bit pattern. -/
  ofDouble : BitVec 64 → SizeT
  /-- The hash of an empty `std::optional`. -/
  ofNullopt : SizeT

/-- `HashCombine`, given the hash `h` of the value to absorb. -/
def hashCombine (seed h : SizeT) : SizeT :=
  seed ^^^ (h + 0x9e3779b9#64 + (seed <<< 6) + (seed >>> 2))

/-- A chain of `HashCombine` calls that starts from seed 0. -/
def hashChain (hs : List SizeT) : SizeT := hs.foldl hashCombine 0

/-- For a fixed seed, `HashCombine` loses nothing of the absorbed hash. -/
theorem hashCombine_injective (seed : SizeT) :
    Function.Injective (hashCombine seed) := by
  intro a b h
  unfold hashCombine at h
  have hsum : a + 0x9e3779b9#64 + (seed <<< 6) + (seed >>> 2)
      = b + 0x9e3779b9#64 + (seed <<< 6) + (seed >>> 2) :=
    (BitVec.xor_right_inj seed).mp h
  simpa only [BitVec.add_left_inj] using hsum

/-- Two chains that agree but for their last value agree there as well. -/
theorem hashChain_concat_inj {pre : List SizeT} {v w : SizeT}
    (h : hashChain (pre ++ [v]) = hashChain (pre ++ [w])) : v = w := by
  simp only [hashChain, List.foldl_append, List.foldl_cons, List.foldl_nil] at h
  exact hashCombine_injective _ h

/-- `std::hash<Device>`. -/
def Device.hash (d : Device) : SizeT :=
  hashChain [BitVec.ofInt 64 d.type.code, BitVec.ofInt 64 d.index]

/-- `std::hash<Tensor>`: sizes, dtype, device, strides. -/
def Tensor.hash (t : Tensor) : SizeT :=
  hashChain (t.shape.map (BitVec.ofNat 64) ++ [BitVec.ofInt 64 t.dtype.code, t.device.hash]
    ++ t.strides.map (BitVec.ofInt 64))

/-- The data pointer is not hashed. -/
theorem Tensor.SameMeta.hash_eq {a b : Tensor} (h : a.SameMeta b) : a.hash = b.hash := by
  obtain ⟨hs, hd, hv, hst⟩ := h
  simp only [Tensor.hash, hs, hd, hv, hst]

end InfiniOps
