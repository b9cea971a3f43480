/-
InfiniOps.Ascend.DerivedTablesTheorems — which buffer contents a cached
Ascend operator works on.

Both guards of `DerivedTables` are a `PointerMemo` over the data pointer
(`AddRmsNorm.call_eq_access`, `RotaryEmbedding.call_eq_access`), and what a
recomputation gives is what a freshly constructed operator would use. So a
call consumes what a fresh operator would have computed at the call (or
construction) that opened the current run of calls with one pointer, and a
whole history is transparent exactly when the derived data never change
under a pointer that stays (`derivedData_of_last_load`).

An update in place between two calls with one pointer is enough to break
transparency (`stale_after_update_in_place`). `RmsNorm`, which casts on
every call, is always transparent (`RmsNorm.consumed_eq_fresh`), and so are
the other two while contents stay as long as the pointer does
(`transparent_of_contents`).
-/
import InfiniOps.Ascend.DerivedTables

namespace InfiniOps.Ascend.DerivedTables

/-- The key of both guards. -/
def Call.addr (c : Call) : Nat := c.ptr.addr

theorem DevPtr.ext_addr {p q : DevPtr} (h : p.addr = q.addr) : p = q := by
  cases p
  cases q
  cases h
  rfl

/-- Neighbouring calls with one pointer derive one and the same data. -/
def Stable {ν : Type} (fresh : Call → ν) (cs : List Call) : Prop :=
  cs.IsChain fun a b => b.ptr = a.ptr → fresh b = fresh a

/-! ## Guarded operators are memos -/

section Memo

variable {σ ν : Type} (op : σ → Call → σ × ν) (view : σ → PointerMemo Nat ν)
  (fresh : Call → ν)

/-- `op` is a memo under `view`: one call is one access and consumes the
value held afterwards. -/
def IsMemo : Prop := ∀ s c,
  view (op s c).1 = (view s).access Call.addr fresh c ∧ (op s c).2 = (view (op s c).1).value

variable {op view fresh} (h : IsMemo op view fresh)
include h

theorem IsMemo.view_stateAfter (s : σ) (cs : List Call) :
    view (stateAfter op s cs) = (view s).run Call.addr fresh cs := by
  induction cs generalizing s with
  | nil => rfl
  | cons c cs ih =>
    have hstep := ih (op s c).1
    rw [(h s c).1] at hstep
    exact hstep

theorem IsMemo.consumedAlong_eq_served (s : σ) (cs : List Call) :
    consumedAlong op s cs = (view s).served Call.addr fresh cs := by
  induction cs generalizing s with
  | nil => rfl
  | cons c cs ih =>
    obtain ⟨hview, hval⟩ := h s c
    rw [consumedAlong, PointerMemo.served, ih, hval, hview]

/-- The last call of a history consumes what a fresh operator would have
computed when the current run of calls with its pointer began. -/
theorem IsMemo.consumed_of_last_load (s : σ) (cs : List Call) (c : Call)
    (hhead : (view s).HeadFresh Call.addr fresh (cs ++ [c])) :
    ∃ load, PointerMemo.OpensLastBlock Call.addr (cs ++ [c]) load ∧ load.ptr = c.ptr ∧
      (op (stateAfter op s cs) c).2 = fresh load := by
  obtain ⟨load, hopens, hrun⟩ :=
    (view s).run_eq_of_head Call.addr fresh (cs ++ [c]) (by simp) hhead
  have hafter : view (op (stateAfter op s cs) c).1 = ⟨load.addr, fresh load⟩ := by
    rw [← hrun, ← h.view_stateAfter s (cs ++ [c])]
    simp [stateAfter, List.foldl_append]
  have hkey : c.addr = load.addr := by
    have hstep := (h (stateAfter op s cs) c).1
    rw [hafter] at hstep
    have := congrArg PointerMemo.key hstep
    rw [PointerMemo.access_key] at this
    exact this.symm
  refine ⟨load, hopens, DevPtr.ext_addr hkey.symm, ?_⟩
  rw [(h _ _).2, hafter]

theorem IsMemo.transparent_iff (s : σ) (cs : List Call) :
    consumedAlong op s cs = cs.map fresh ↔
      (view s).HeadFresh Call.addr fresh cs ∧ Stable fresh cs := by
  rw [h.consumedAlong_eq_served, PointerMemo.served_eq_fresh_iff]
  have hkey : ∀ a b : Call, b.addr = a.addr ↔ b.ptr = a.ptr :=
    fun a b => ⟨DevPtr.ext_addr, fun hp => congrArg DevPtr.addr hp⟩
  simp only [Stable, hkey]

end Memo

/-! ## The three operators -/

/-- For a 16-bit weight the guard of `AddRmsNorm` is a memo. -/
theorem AddRmsNorm.isMemo (cast : AclnnCast) (op : AddRmsNorm) (uninit : List UInt8)
    (hdt : op.dtype ≠ .kFloat32) :
    IsMemo (op.call cast) (fun s => ⟨s.lastWeightPtr, s.weightFp32⟩) (op.fresh cast uninit) := by
  intro s c
  have hne : c.ptr.addr ≠ 0 := c.ptr.ne_null
  by_cases hp : c.ptr.addr = s.lastWeightPtr
  · simp [call, hdt, PointerMemo.access, Call.addr, hp]
  · simp [call, fresh, hdt, PointerMemo.access, Call.addr, hp, hne]

/-- An fp32 weight is never copied. -/
theorem AddRmsNorm.consumed_of_float32 (cast : AclnnCast) (op : AddRmsNorm)
    (uninit : List UInt8) (hdt : op.dtype = .kFloat32) (s : State) (c : Call) :
    (op.call cast s c).2 = op.fresh cast uninit c := by
  simp [call, fresh, hdt]

/-- A new instance remembers the null pointer, which no call passes. -/
theorem AddRmsNorm.headFresh (cast : AclnnCast) (op : AddRmsNorm) (uninit uninit' : List UInt8)
    (cs : List Call) :
    (PointerMemo.mk 0 uninit).HeadFresh Call.addr (op.fresh cast uninit') cs := by
  intro c _ hkey
  exact absurd hkey c.ptr.ne_null

theorem AddRmsNorm.fresh_congr (cast : AclnnCast) (op : AddRmsNorm) (uninit : List UInt8)
    {a b : Call}
    (h : a.mem.read a.ptr.addr (op.dim * kDataTypeToSize op.dtype)
      = b.mem.read b.ptr.addr (op.dim * kDataTypeToSize op.dtype)) :
    op.fresh cast uninit a = op.fresh cast uninit b := by
  have ha : a.ptr.addr ≠ 0 := a.ptr.ne_null
  have hb : b.ptr.addr ≠ 0 := b.ptr.ne_null
  by_cases hdt : op.dtype = .kFloat32
  · rw [hdt] at h
    simp [fresh, call, hdt, h]
  · simp [fresh, call, hdt, h, ha, hb]

theorem RotaryEmbedding.isMemo (op : RotaryEmbedding) :
    IsMemo op.call (fun s => ⟨s.cosSinCacheData, s.tables⟩) op.fresh := by
  intro s c
  by_cases hp : c.ptr.addr = s.cosSinCacheData
  · simp [call, PointerMemo.access, Call.addr, hp]
  · simp [call, fresh, new, PointerMemo.access, Call.addr, hp]

/-- The constructor is the first access: it leaves the state that a call
with the same arguments leaves. -/
theorem RotaryEmbedding.call_new (op : RotaryEmbedding) (c : Call) :
    op.call (op.new c) c = (op.new c, op.fresh c) := by
  simp [call, fresh, new]

theorem RotaryEmbedding.fresh_congr (op : RotaryEmbedding) {a b : Call}
    (h : a.mem.read a.ptr.addr op.tableBytes = b.mem.read b.ptr.addr op.tableBytes) :
    op.fresh a = op.fresh b := by
  simp [fresh, call, new, uploadCosSinCache, h]

theorem RotaryEmbedding.headFresh (op : RotaryEmbedding) (c : Call) (cs : List Call) :
    (PointerMemo.mk (op.new c).cosSinCacheData (op.new c).tables).HeadFresh Call.addr op.fresh
      (c :: cs) := by
  intro a ha _
  rw [List.head?_cons, Option.mem_some_iff] at ha
  simp [← ha, fresh, call, new]

/-- The variant that casts on every call is transparent over any history. -/
theorem RmsNorm.consumed_eq_fresh (cast : AclnnCast) (op : RmsNorm) (s uninit : List UInt8)
    (cs : List Call) :
    consumedAlong (op.call cast) s cs = cs.map fun c => (op.call cast uninit c).2 := by
  induction cs generalizing s with
  | nil => rfl
  | cons c cs ih =>
    have hone : (op.call cast s c).2 = (op.call cast uninit c).2 := by
      by_cases hdt : op.dtype = .kFloat32 <;> simp [call, hdt]
    rw [consumedAlong, ih, hone, List.map_cons]

/-! ## What the cached operators consume -/

theorem AddRmsNorm.consumed_of_last_load (cast : AclnnCast) (op : AddRmsNorm)
    (uninit uninit' : List UInt8) (cs : List Call) (c : Call) :
    (op.dtype = .kFloat32 ∧
      (op.call cast (stateAfter (op.call cast) { weightFp32 := uninit } cs) c).2
        = op.fresh cast uninit' c) ∨
    ∃ load, PointerMemo.OpensLastBlock Call.addr (cs ++ [c]) load ∧ load.ptr = c.ptr ∧
      (op.call cast (stateAfter (op.call cast) { weightFp32 := uninit } cs) c).2
        = op.fresh cast uninit' load := by
  by_cases hdt : op.dtype = .kFloat32
  · exact .inl ⟨hdt, op.consumed_of_float32 cast uninit' hdt _ c⟩
  · exact .inr ((op.isMemo cast uninit' hdt).consumed_of_last_load { weightFp32 := uninit } cs c
      (op.headFresh cast uninit uninit' (cs ++ [c])))

theorem AddRmsNorm.transparent_iff (cast : AclnnCast) (op : AddRmsNorm)
    (uninit uninit' : List UInt8) (cs : List Call) :
    consumedAlong (op.call cast) { weightFp32 := uninit } cs = cs.map (op.fresh cast uninit') ↔
      op.dtype = .kFloat32 ∨ Stable (op.fresh cast uninit') cs := by
  by_cases hdt : op.dtype = .kFloat32
  · refine iff_of_true ?_ (.inl hdt)
    generalize ({ weightFp32 := uninit } : State) = s
    induction cs generalizing s with
    | nil => rfl
    | cons c cs ih =>
      rw [consumedAlong, ih, op.consumed_of_float32 cast uninit' hdt, List.map_cons]
  · rw [(op.isMemo cast uninit' hdt).transparent_iff]
    simp [hdt, op.headFresh cast uninit uninit' cs]

theorem RotaryEmbedding.consumed_of_last_load (op : RotaryEmbedding) (c₀ : Call)
    (cs : List Call) (c : Call) :
    ∃ load, PointerMemo.OpensLastBlock Call.addr (c₀ :: cs ++ [c]) load ∧ load.ptr = c.ptr ∧
      (op.call (stateAfter op.call (op.new c₀) cs) c).2 = op.fresh load := by
  have hload := op.isMemo.consumed_of_last_load (op.new c₀) (c₀ :: cs) c
    (op.headFresh c₀ (cs ++ [c]))
  rwa [stateAfter, List.foldl_cons, op.call_new] at hload

theorem RotaryEmbedding.transparent_iff (op : RotaryEmbedding) (c₀ : Call) (cs : List Call) :
    consumedAlong op.call (op.new c₀) cs = cs.map op.fresh ↔ Stable op.fresh (c₀ :: cs) := by
  have hall := op.isMemo.transparent_iff (op.new c₀) (c₀ :: cs)
  rw [consumedAlong, op.call_new, List.map_cons, List.cons.injEq] at hall
  simpa [op.headFresh c₀ cs] using hall

/-- Contents that stay while the pointer stays are enough. -/
theorem RotaryEmbedding.transparent_of_contents (op : RotaryEmbedding) (c₀ : Call)
    (cs : List Call)
    (h : (c₀ :: cs).IsChain fun a b => b.ptr = a.ptr →
      b.mem.read b.ptr.addr op.tableBytes = a.mem.read a.ptr.addr op.tableBytes) :
    consumedAlong op.call (op.new c₀) cs = cs.map op.fresh :=
  (op.transparent_iff c₀ cs).mpr
    (h.imp fun _ _ hab hptr => op.fresh_congr (hab hptr))

/-- The same for the weight. -/
theorem AddRmsNorm.transparent_of_contents (cast : AclnnCast) (op : AddRmsNorm)
    (uninit : List UInt8) (cs : List Call)
    (h : cs.IsChain fun a b => b.ptr = a.ptr →
      b.mem.read b.ptr.addr (op.dim * kDataTypeToSize op.dtype)
        = a.mem.read a.ptr.addr (op.dim * kDataTypeToSize op.dtype)) :
    consumedAlong (op.call cast) { weightFp32 := uninit } cs = cs.map (op.fresh cast uninit) :=
  (op.transparent_iff cast uninit uninit cs).mpr
    (.inr (h.imp fun _ _ hab hptr => op.fresh_congr cast uninit (hab hptr)))

/-- What the derived data of the cached operators are. Each call consumes
what a fresh operator would have computed at the call, or construction,
that opened the current run of calls with its pointer (an fp32 weight is
read in place). Hence a history is transparent if and only if the derived
data do not change between neighbouring calls with one pointer. -/
theorem derivedData_of_last_load :
    (∀ (cast : AclnnCast) (op : AddRmsNorm) (uninit uninit' : List UInt8) (cs : List Call)
        (c : Call),
      (op.dtype = .kFloat32 ∧
        (op.call cast (stateAfter (op.call cast) { weightFp32 := uninit } cs) c).2
          = op.fresh cast uninit' c) ∨
      ∃ load, PointerMemo.OpensLastBlock Call.addr (cs ++ [c]) load ∧ load.ptr = c.ptr ∧
        (op.call cast (stateAfter (op.call cast) { weightFp32 := uninit } cs) c).2
          = op.fresh cast uninit' load) ∧
    (∀ (cast : AclnnCast) (op : AddRmsNorm) (uninit uninit' : List UInt8) (cs : List Call),
      consumedAlong (op.call cast) { weightFp32 := uninit } cs = cs.map (op.fresh cast uninit') ↔
        op.dtype = .kFloat32 ∨ Stable (op.fresh cast uninit') cs) ∧
    (∀ (op : RotaryEmbedding) (c₀ : Call) (cs : List Call) (c : Call),
      ∃ load, PointerMemo.OpensLastBlock Call.addr (c₀ :: cs ++ [c]) load ∧ load.ptr = c.ptr ∧
        (op.call (stateAfter op.call (op.new c₀) cs) c).2 = op.fresh load) ∧
    (∀ (op : RotaryEmbedding) (c₀ : Call) (cs : List Call),
      consumedAlong op.call (op.new c₀) cs = cs.map op.fresh ↔ Stable op.fresh (c₀ :: cs)) :=
  ⟨AddRmsNorm.consumed_of_last_load, AddRmsNorm.transparent_iff,
    RotaryEmbedding.consumed_of_last_load, RotaryEmbedding.transparent_iff⟩

/-- The same buffer before and after an update in place. -/
def updatedInPlace (before after : UInt8) : List Call :=
  let p : DevPtr := ⟨4096, by decide⟩
  [{ mem := fun _ => before, ptr := p }, { mem := fun _ => after, ptr := p }]

/-- The second call works on the contents of the first. For the tables of
one row of two fp16 elements, and for the shadow of a weight of sixteen,
given a cast that tells the two contents apart. -/
theorem stale_after_update_in_place :
    (∃ (op : RotaryEmbedding) (c₀ : Call) (cs : List Call),
      consumedAlong op.call (op.new c₀) cs ≠ cs.map op.fresh) ∧
    (∀ cast : AclnnCast,
      cast .kFloat16 (List.replicate 32 1) ≠ cast .kFloat16 (List.replicate 32 2) →
      ∃ (op : AddRmsNorm) (uninit : List UInt8) (cs : List Call),
        consumedAlong (op.call cast) { weightFp32 := uninit } cs
          ≠ cs.map (op.fresh cast uninit)) := by
  constructor
  · let op : RotaryEmbedding :=
      { impl := .aclnn, maxSeqLen := 1, headSize := 2, elemSz := 2, isNeoxStyle := true }
    have hstale : consumedAlong op.call (op.new (updatedInPlace 1 2)[0]) (updatedInPlace 1 2)
        ≠ (updatedInPlace 1 2).map op.fresh := by decide
    exact ⟨op, _, _, hstale⟩
  · intro cast hcast
    refine ⟨{ dtype := .kFloat16, dim := 16 }, [], updatedInPlace 1 2, ?_⟩
    intro heq
    apply hcast
    simpa [updatedInPlace, consumedAlong, AddRmsNorm.call, AddRmsNorm.fresh, DeviceMem.read,
      kDataTypeToSize, List.range_succ] using heq

end InfiniOps.Ascend.DerivedTables
