/-
InfiniOps.Ascend.CachedCallTheorems — a cached instance does what its plain
program does.

Within a call, every descriptor points where the call put it, every scratch
buffer asked for stays where it is, and the memory keeps the variables of
the plain program: the memory of the user in place, each scratch buffer in
its arena (`InCall`). A launch re-binds its executor completely, so that it
finds its tensors there (`InCall.launch`), and what it leaves in its
workspace meets none of them. Hence a call changes the memory of the user
as the plain program does (`call_spec`), and so does a run of many instances
on one pool, whatever else happens in between (`runs_agree`).
-/
import InfiniOps.Ascend.AllocationFailure
import InfiniOps.Ascend.CachedCall
import InfiniOps.Ascend.RepeatableExecutorTheorems

namespace InfiniOps.Ascend

open RowMajor StridedStore Placement

/-! ## Tensors of a placement -/

section Tensors

variable {κ ρ α : Type} {place : κ → ρ} {live used : κ → Prop} {mem : ρ → α} {vars : κ → α}

/-- Every element of the tensor. -/
def Within (used : κ → Prop) (t : AclTensorCache × (Int → κ)) : Prop :=
  ∀ idx, Valid t.1.shape idx → used (t.2 (t.1.dtype.bytes * t.1.offset idx))

/-- The tensor in the memory. -/
def placed (place : κ → ρ) (t : AclTensorCache × (Int → κ)) : AclTensorCache × (Int → ρ) :=
  (t.1, fun n => place (t.2 n))

/-- An element of the tensor. -/
def HasCell (t : AclTensorCache × (Int → κ)) (c : κ) : Prop :=
  ∃ idx ∈ indices t.1.shape, t.2 (t.1.dtype.bytes * t.1.offset idx) = c

theorem readTensor_placed (h : Keeps place live mem vars) {t : AclTensorCache × (Int → κ)}
    (ht : Within live t) :
    readTensor t.1 (placed place t).2 mem = readTensor t.1 t.2 vars := by
  have hmap := h.map_eq (fun idx => t.2 (t.1.dtype.bytes * t.1.offset idx))
    fun idx hidx => ht idx (mem_indices.mp hidx)
  rw [readTensor, readTensor]
  exact congrArg (TensorValue.mk t.1.shape t.1.dtype) hmap

variable [DecidableEq κ] [DecidableEq ρ]

theorem writeTensor_placed (hapart : Apart place used) {t : AclTensorCache × (Int → κ)}
    (ht : Within used t) (element : Nat → α) (h : Keeps place live mem vars)
    (hlive : ∀ c, live c → used c) :
    Keeps place (fun c => live c ∨ HasCell t c) (writeTensor t.1 (placed place t).2 element mem)
      (writeTensor t.1 t.2 element vars) :=
  h.storeAll hapart _ (fun idx => element (ravel t.1.shape idx))
    (fun idx hidx => ht idx (mem_indices.mp hidx)) hlive

theorem writeOutputs_placed (hapart : Apart place used) (element : Nat → Nat → α)
    {outs : List (AclTensorCache × (Int → κ))} (houts : ∀ t ∈ outs, Within used t) (o : Nat)
    (h : Keeps place live mem vars) (hlive : ∀ c, live c → used c) :
    Keeps place (fun c => live c ∨ ∃ t ∈ outs, HasCell t c)
      (writeOutputs element (outs.map (placed place)) o mem) (writeOutputs element outs o vars) := by
  induction outs generalizing o live mem vars with
  | nil =>
    refine h.mono fun c hc => hc.resolve_right ?_
    rintro ⟨t, ht, -⟩
    cases ht
  | cons t outs ih =>
    have ht : Within used t := houts t List.mem_cons_self
    have hwritten := writeTensor_placed hapart ht (element o) h hlive
    have hlive' : ∀ c, live c ∨ HasCell t c → used c := by
      rintro c (hc | ⟨idx, hidx, rfl⟩)
      · exact hlive c hc
      · exact ht idx (mem_indices.mp hidx)
    refine (ih (fun u hu => houts u (List.mem_cons_of_mem t hu)) (o + 1) hwritten hlive').mono ?_
    rintro c (hc | ⟨u, hu, hcell⟩)
    · exact .inl (.inl hc)
    · rcases List.mem_cons.mp hu with rfl | hu
      · exact .inl (.inr hcell)
      · exact .inr ⟨u, hu, hcell⟩

/-- A kernel on tensors that the memory keeps. -/
theorem runKernel_placed (hapart : Apart place used) (K : AclnnLibrary α) (kernel : AclKernel)
    {ins outs : List (AclTensorCache × (Int → κ))} (hins : ∀ t ∈ ins, Within live t)
    (houts : ∀ t ∈ outs, Within used t) (h : Keeps place live mem vars)
    (hlive : ∀ c, live c → used c) :
    Keeps place (fun c => live c ∨ ∃ t ∈ if kernel.inPlace then ins.take 1 else outs, HasCell t c)
      (runKernel K kernel (ins.map (placed place)) (outs.map (placed place)) mem)
      (runKernel K kernel ins outs vars) := by
  have hvalues : ((ins.map (placed place)).map fun t => readTensor t.1 t.2 mem) =
      ins.map fun t => readTensor t.1 t.2 vars := by
    rw [List.map_map]
    exact List.map_congr_left fun t ht => readTensor_placed h (hins t ht)
  have htargets : (if kernel.inPlace then (ins.map (placed place)).take 1
      else outs.map (placed place)) =
        (if kernel.inPlace then ins.take 1 else outs).map (placed place) := by
    split
    · rw [List.map_take]
    · rfl
  rw [runKernel, runKernel, hvalues, htargets]
  refine writeOutputs_placed hapart _ (fun t ht => ?_) 0 h hlive
  split at ht
  · exact fun idx hidx => hlive _ (hins t (List.mem_of_mem_take ht) idx hidx)
  · exact houts t ht

end Tensors

/-! ## Re-binding -/

/-- Setting the addresses from position `pre.length` on. -/
theorem foldl_set_range {β : Type} (f : β → Nat) (sets : List (Nat × β)) (pre bound : List Nat)
    (hsets : sets.map Prod.fst = List.range' pre.length bound.length) :
    sets.foldl (fun b x => b.set x.1 (f x.2)) (pre ++ bound) = pre ++ sets.map fun x => f x.2 := by
  induction sets generalizing pre bound with
  | nil =>
    have hnil : bound = [] := by
      cases bound with
      | nil => rfl
      | cons b bound => cases hsets
    rw [hnil]
    rfl
  | cons x sets ih =>
    cases bound with
    | nil => cases hsets
    | cons b bound =>
      rw [List.map_cons, List.length_cons, List.range'_succ, List.cons.injEq] at hsets
      obtain ⟨hfirst, hrest⟩ := hsets
      have hset : (pre ++ b :: bound).set x.1 (f x.2) = (pre ++ [f x.2]) ++ bound := by
        rw [hfirst]
        simp
      have hlen : (pre ++ [f x.2]).length = pre.length + 1 := by simp
      rw [List.foldl_cons, hset, ih _ bound (by rw [hlen, hrest])]
      simp

namespace Known

variable {sets : List (Nat × Pointer)} {bases : List TensorBase}

/-- Complete re-binding leaves nothing of what was bound. -/
theorem Rebinds.foldl_set (h : Rebinds sets bases) (f : Pointer → Nat) {bound : List Nat}
    (hlen : bound.length = bases.length) :
    sets.foldl (fun b x => b.set x.1 (f x.2)) bound = sets.map fun x => f x.2 := by
  have hfst := congrArg (List.map Prod.fst) h
  rw [List.map_map, List.map_map] at hfst
  have hrange : bases.zipIdx.map (Prod.fst ∘ Prod.swap) = List.range' 0 bases.length :=
    List.zipIdx_map_snd 0 bases
  refine foldl_set_range f sets [] bound ?_
  rw [hlen]
  exact hfst.trans hrange

/-- The addresses that are set are those of the tensors. -/
theorem Rebinds.map_eq (h : Rebinds sets bases) {f : Pointer → Nat} {g : TensorBase → Nat}
    (hfg : ∀ x, x.base ∈ bases → f x = g x.base) : sets.map (fun x => f x.2) = bases.map g := by
  have hsnd := congrArg (List.map Prod.snd) h
  rw [List.map_map, List.map_map] at hsnd
  have hbases : bases.zipIdx.map (Prod.snd ∘ Prod.swap) = bases := List.zipIdx_map_fst 0 bases
  have hmap : sets.map (fun x => x.2.base) = bases := hsnd.trans hbases
  calc sets.map (fun x => f x.2)
      = sets.map fun x => g x.2.base := by
        refine List.map_congr_left fun x hx => hfg x.2 ?_
        rw [← hmap]
        exact List.mem_map_of_mem (f := fun x : Nat × Pointer => x.2.base) hx
    _ = bases.map g := by
        rw [← hmap, List.map_map]
        rfl

end Known

/-! ## The pool beside the memory of its user -/

/-- A block that `aclrtMalloc` returns is none of the user's memory. -/
structure Malloc.Serves (m : Malloc) (user : Set Int) : Prop where
  fresh : m.Fresh
  succeeds : m.Succeeds
  avoids : ∀ heap n base, m heap n = some base → ∀ a ∈ user, a < base ∨ base + n ≤ a

namespace WorkspacePool

/-- No live block of the pool is the user's memory. -/
def Outside (user : Set Int) (p : WorkspacePool) : Prop :=
  ∀ e ∈ p.heap.extents, ∀ a ∈ user, a < e.1 ∨ (e.1 + e.2 : Int) ≤ a

/-- The blocks after a request are old ones or new. -/
theorem extents_grow {heap : BlockHeap} {a : WorkspaceArena} {needed : Nat} {malloc : Malloc}
    {e : Nat × Nat} (he : e ∈ (grow heap a needed malloc).1.extents) :
    e ∈ heap.extents ∨ ∃ base, malloc (freeOld heap a) needed = some base ∧ e = (base, needed) := by
  by_cases hlt : a.capacity < needed
  · cases hmalloc : malloc (freeOld heap a) needed with
    | none =>
      rw [grow_of_fails hlt hmalloc] at he
      exact .inl (extents_freeOld_subset heap a he)
    | some base =>
      rw [grow_of_lt hlt hmalloc] at he
      rw [BlockHeap.extents_alloc, Finset.mem_union, Finset.mem_singleton] at he
      rcases he with he | he
      · exact .inl (extents_freeOld_subset heap a he)
      · exact .inr ⟨base, rfl, he⟩
  · rw [grow, if_neg hlt] at he
    exact .inl he

theorem Outside.ensure {user : Set Int} {p : WorkspacePool} (h : p.Outside user) {c : EnsureCall}
    (hserves : c.malloc.Serves user) : (p.ensure c).1.Outside user := by
  intro e he a ha
  cases hfast : p.fastPath c with
  | some i =>
    rw [ensure_of_fast hfast] at he
    exact h e he a ha
  | none =>
    obtain ⟨arenas, i, arena, -, -, -, heq⟩ := ensure_of_slow hfast
    rw [heq] at he
    rcases extents_grow he with he | ⟨base, hmalloc, rfl⟩
    · exact h e he a ha
    · exact hserves.avoids _ _ _ hmalloc a ha

theorem Sound.ensure {user : Set Int} {p : WorkspacePool} (h : p.Sound) {c : EnsureCall}
    (hserves : c.malloc.Serves user) : (p.ensure c).1.Sound :=
  ⟨h.indexed.ensure c, h.backed.ensure c hserves.fresh fun _ _ => hserves.succeeds _ _⟩

/-- A byte of an arena is none of the user's. -/
theorem Sound.arena_outside {user : Set Int} {p : WorkspacePool} (h : p.Sound)
    (hout : p.Outside user) {a : WorkspaceArena} (ha : a ∈ p.arenas) {n : Int} (hlow : 0 ≤ n)
    (hhigh : n < a.capacity) : (a.buf + n : Int) ∉ user := by
  intro hmem
  rcases h.safe.backed a ha with ⟨hzero, -⟩ | ⟨-, hextent⟩
  · omega
  · have hcases := hout _ hextent _ hmem
    omega

/-- Bytes of arenas of different keys. -/
theorem Sound.arena_ne {p : WorkspacePool} (h : p.Sound) {a b : WorkspaceArena} (ha : a ∈ p.arenas)
    (hb : b ∈ p.arenas) (hkey : a.key ≠ b.key) {m n : Int} (hm : 0 ≤ m) (hm' : m < a.capacity)
    (hn : 0 ≤ n) (hn' : n < b.capacity) : (a.buf + m : Int) ≠ b.buf + n := by
  have hapart := h.safe.apart a ha b hb hkey (by omega) (by omega)
  simp only [HeapBlock.Apart] at hapart
  omega

end WorkspacePool

/-! ## Within a call -/

theorem mapM_eq_some_iff {β γ : Type} {f : β → Option γ} {l : List β} {bs : List γ} :
    l.mapM f = some bs ↔ l.map f = bs.map some := by
  induction l generalizing bs with
  | nil => cases bs <;> simp
  | cons a l ih =>
    rw [List.mapM_cons, List.map_cons]
    cases bs with
    | nil => simp [Option.bind_eq_some_iff]
    | cons b bs => simp [Option.bind_eq_some_iff, ih]

/-- The address of a tensor of the call. -/
def TensorBase.address (c : OpCall) (f : CallFrame) : TensorBase → Nat
  | .arg i => c.args i
  | .scratch s => f.saved s

/-- Where the variables of the plain program are. -/
def CallFrame.place (f : CallFrame) : Cell → Int
  | .user a => a
  | .scratch s n => f.saved s + n

theorem CallFrame.place_cell (f : CallFrame) (c : OpCall) (b : TensorBase) (n : Int) :
    f.place (b.cell c.args n) = b.address c f + n := by
  cases b <;> rfl

/-- The variables that a call may have by now. -/
def Used (user : Set Int) (op : CachedOp) (kn : Known) : Cell → Prop
  | .user a => a ∈ user
  | .scratch s n => s ∈ kn.asked ∧ 0 ≤ n ∧ n < op.scratchBytes s

/-- Those that the memory keeps. -/
def Live (user : Set Int) (op : CachedOp) (kn : Known) : Cell → Prop
  | .user a => a ∈ user
  | .scratch s n => ∃ d, (d, s) ∈ kn.written ∧ ∃ idx, Valid (op.desc d).shape idx ∧
      n = (op.desc d).dtype.bytes * (op.desc d).offset idx

/-- The scratch buffer is there, with room. -/
def ScratchAt (op : CachedOp) (c : OpCall) (p : WorkspacePool) (f : CallFrame) (s : Scratch) : Prop :=
  ∃ a, p.arenas[f.arena s]? = some a ∧ a.key = ⟨c.stream, s.literal.text⟩ ∧
    op.scratchBytes s ≤ a.capacity ∧ f.saved s = a.buf

/-- What holds in the middle of a call. -/
structure InCall {α : Type} (user : Set Int) (op : CachedOp) (c : DeviceCall α) (kn : Known)
    (s : CallState α) (vars : Cell → α) : Prop where
  sound : s.pool.Sound
  outside : s.pool.Outside user
  scratch : ∀ sl ∈ kn.asked, ScratchAt op c.toOpCall s.pool s.frame sl
  held : ∀ d b, kn.held d = some b →
    kn.Allows b ∧ s.members.addrs d = b.address c.toOpCall s.frame
  used : ∀ x, Live user op kn x → Used user op kn x
  keeps : Keeps s.frame.place (Live user op kn) s.mem vars

/-- Executors fit their launches. -/
def ShapedFor (m : Members) (steps : List Step) : Prop :=
  ∀ k st, .launch k st ∈ steps → ∀ e ws, m.execs k = some (e, ws) →
    e.listed = st.listed ∧ e.inputs.length = st.inputs.length ∧
      e.outputs.length = st.outputs.length

/-- The tensors of the arguments are the user's. -/
def PlainStep.OfUser (user : Set Int) (args : Nat → Nat) (p : PlainStep) : Prop :=
  ∀ desc i, (desc, TensorBase.arg i) ∈ p.inputs ++ p.outputs → ∀ idx, Valid desc.shape idx →
    (args i + (desc.dtype.bytes : Int) * desc.offset idx) ∈ user

/-- Slots have different names, none of which is that of the workspace. -/
theorem Scratch.text_inj {s t : Scratch} (h : s.literal.text = t.literal.text) : s = t := by
  cases s <;> cases t <;> first | rfl | exact absurd h (by decide)

theorem Scratch.text_ne (s : Scratch) : s.literal.text ≠ workspaceSlot.text := by
  cases s <;> decide

/-- A request for another slot leaves a scratch buffer alone. -/
theorem ScratchAt.ensure {op : CachedOp} {c : OpCall} {p : WorkspacePool} {f : CallFrame}
    {s : Scratch} (h : ScratchAt op c p f s) (needed : Nat) {slot : CString}
    (hne : s.literal.text ≠ slot.text) :
    ScratchAt op c (p.ensure (c.request needed slot)).1 f s := by
  obtain ⟨a, ha, hkey, hroom, hsaved⟩ := h
  obtain ⟨b, hb, -, -, hsame⟩ := WorkspacePool.ensure_frame p (c.request needed slot) ha
  have hother : a.key ≠ (c.request needed slot).key := by
    rw [hkey]
    intro heq
    exact hne (congrArg SlotKey.slot heq)
  rw [hsame hother] at hb
  exact ⟨a, hb, hkey, hroom, hsaved⟩

section InCall

variable {α : Type} {user : Set Int} {op : CachedOp} {c : DeviceCall α} {kn : Known}
  {s : CallState α} {vars : Cell → α}

/-- The address that a pointer gives is that of its tensor. -/
theorem InCall.address_eq (h : InCall user op c kn s vars) {x : Pointer} (hx : kn.Allows x.base) :
    x.address c s.pool s.frame = x.base.address c.toOpCall s.frame := by
  cases x with
  | arg i => rfl
  | saved sl => rfl
  | scratch sl =>
    obtain ⟨a, ha, -, -, hsaved⟩ := h.scratch sl hx
    exact (WorkspacePool.bufAt_eq ha).trans hsaved.symm

/-- No two variables share a cell. -/
theorem InCall.apart (h : InCall user op c kn s vars) :
    Apart s.frame.place (Used user op kn) := by
  have huser : ∀ a ∈ user, ∀ sl n, Used user op kn (.scratch sl n) → a ≠ s.frame.saved sl + n := by
    rintro a ha sl n ⟨hasked, hlow, hhigh⟩ heq
    obtain ⟨arena, harena, -, hroom, hsaved⟩ := h.scratch sl hasked
    rw [hsaved] at heq
    exact h.sound.arena_outside h.outside (List.mem_of_getElem? harena) hlow (by omega) (heq ▸ ha)
  intro x y hx hy heq
  cases x with
  | user a =>
    cases y with
    | user b => exact congrArg Cell.user heq
    | scratch sl n => exact absurd heq (huser a hx sl n hy)
  | scratch sl n =>
    cases y with
    | user b => exact absurd heq.symm (huser b hy sl n hx)
    | scratch sl' n' =>
      obtain ⟨hasked, hlow, hhigh⟩ := hx
      obtain ⟨hasked', hlow', hhigh'⟩ := hy
      by_cases hslot : sl = sl'
      · subst hslot
        have hn : n = n' := Int.add_left_cancel heq
        rw [hn]
      · obtain ⟨a, ha, hkey, hroom, hsaved⟩ := h.scratch sl hasked
        obtain ⟨b, hb, hkey', hroom', hsaved'⟩ := h.scratch sl' hasked'
        have hne : a.key ≠ b.key := by
          rw [hkey, hkey']
          intro hsame
          exact hslot (Scratch.text_inj (congrArg SlotKey.slot hsame))
        have hplace : (a.buf + n : Int) = b.buf + n' := by
          rw [← hsaved, ← hsaved']
          exact heq
        exact absurd hplace (h.sound.arena_ne (List.mem_of_getElem? ha) (List.mem_of_getElem? hb) hne
          hlow (by omega) hlow' (by omega))

theorem InCall.get (h : InCall user op c kn s vars) (K : AclnnLibrary α) (d : Nat) {x : Pointer}
    (hx : kn.Allows x.base) :
    InCall user op c { kn with held := Function.update kn.held d (some x.base) }
      (s.step K op c (.get d x)) vars := by
  refine ⟨h.sound, h.outside, h.scratch, fun d' b hb => ?_, h.used, h.keeps⟩
  show kn.Allows b ∧ Function.update s.members.addrs d _ d' = b.address c.toOpCall s.frame
  change Function.update kn.held d (some x.base) d' = some b at hb
  by_cases hd : d' = d
  · subst hd
    rw [Function.update_self] at hb ⊢
    cases hb
    exact ⟨hx, h.address_eq hx⟩
  · rw [Function.update_of_ne hd] at hb ⊢
    exact h.held d' b hb

/-- Asking for a scratch buffer. Nothing was kept there. -/
theorem InCall.ensure (h : InCall user op c kn s vars) (K : AclnnLibrary α) {sl : Scratch}
    (hnew : sl ∉ kn.asked) (hserves : c.malloc.Serves user) :
    InCall user op c { kn with asked := sl :: kn.asked } (s.step K op c (.ensure sl)) vars := by
  have hserves' : (c.request (op.scratchBytes sl) sl.literal).malloc.Serves user := hserves
  obtain ⟨a, ha, hkey, hroom⟩ :=
    h.sound.indexed.ensure_found (c.request (op.scratchBytes sl) sl.literal)
  have hsaved : (s.step K op c (.ensure sl)).frame.saved sl = a.buf := by
    exact (Function.update_self ..).trans (WorkspacePool.bufAt_eq ha)
  have hother : ∀ t ≠ sl, (s.step K op c (.ensure sl)).frame.saved t = s.frame.saved t :=
    fun t ht => Function.update_of_ne ht ..
  refine ⟨h.sound.ensure hserves', h.outside.ensure hserves', fun t ht => ?_, fun d b hb => ?_,
    fun x hx => ?_, h.keeps.moved fun x hx => ?_⟩
  · by_cases hts : t = sl
    · subst hts
      refine ⟨a, ?_, hkey, hroom, hsaved⟩
      show (s.pool.ensure _).1.arenas[Function.update s.frame.arena t _ t]? = some a
      rw [Function.update_self]
      exact ha
    · have hasked : t ∈ kn.asked := List.mem_of_ne_of_mem hts ht
      have hne : t.literal.text ≠ sl.literal.text := fun heq => hts (Scratch.text_inj heq)
      obtain ⟨b, hb, hbkey, hbroom, hbsaved⟩ := (h.scratch t hasked).ensure _ hne
      refine ⟨b, ?_, hbkey, hbroom, (hother t hts).trans hbsaved⟩
      show (s.pool.ensure _).1.arenas[Function.update s.frame.arena sl _ t]? = some b
      rw [Function.update_of_ne hts]
      exact hb
  · obtain ⟨hallows, haddr⟩ := h.held d b hb
    cases b with
    | arg i => exact ⟨trivial, haddr⟩
    | scratch t =>
      have hts : t ≠ sl := fun heq => hnew (heq ▸ hallows)
      exact ⟨List.mem_cons_of_mem sl hallows, haddr.trans (hother t hts).symm⟩
  · have hused := h.used x hx
    cases x with
    | user a => exact hused
    | scratch t n => exact ⟨List.mem_cons_of_mem sl hused.1, hused.2⟩
  · have hused := h.used x hx
    cases x with
    | user a => rfl
    | scratch t n =>
      have hts : t ≠ sl := fun heq => hnew (heq ▸ hused.1)
      show ((s.step K op c (.ensure sl)).frame.saved t + n : Int) = s.frame.saved t + n
      rw [hother t hts]

/-! ## A launch -/

/-- The tensors of a launch. -/
structure Launches (op : CachedOp) (kn : Known) (st : AclnnStage) (ls is os : List TensorBase)
    (p : PlainStep) : Prop where
  listed : st.listed.map kn.held = ls.map some
  inputs : st.inputs.map kn.held = is.map some
  outputs : st.outputs.map kn.held = os.map some
  setInputs : Known.Rebinds st.setInputs is
  setOutputs : Known.Rebinds st.setOutputs os
  readable : ∀ x ∈ List.zip (st.listed ++ st.inputs) (ls ++ is), kn.Readable x.1 x.2
  plain : p = ⟨st.kernel, List.zip ((st.listed ++ st.inputs).map op.desc) (ls ++ is),
    List.zip (st.outputs.map op.desc) os⟩

omit user c s vars in
theorem Known.stage_eq_some {st : AclnnStage} {p : PlainStep} (h : kn.stage op st = some p) :
    ∃ ls is os, Launches op kn st ls is os p := by
  unfold Known.stage at h
  simp only [Option.bind_eq_bind, Option.bind_eq_some_iff] at h
  obtain ⟨ls, hlisted, is, hinputs, os, houtputs, h⟩ := h
  split at h
  · rename_i hcond
    cases h
    exact ⟨ls, is, os, mapM_eq_some_iff.mp hlisted, mapM_eq_some_iff.mp hinputs,
      mapM_eq_some_iff.mp houtputs, hcond.1, hcond.2.1, hcond.2.2, rfl⟩
  · cases h

/-- Descriptors are at the addresses of their tensors. -/
theorem InCall.map_addrs (h : InCall user op c kn s vars) {ds : List Nat} {bs : List TensorBase}
    (hds : ds.map kn.held = bs.map some) :
    ds.map s.members.addrs = bs.map (TensorBase.address c.toOpCall s.frame) ∧
      ∀ b ∈ bs, kn.Allows b := by
  induction ds generalizing bs with
  | nil =>
    cases bs with
    | nil => exact ⟨rfl, fun b hb => nomatch hb⟩
    | cons b bs => cases hds
  | cons d ds ih =>
    cases bs with
    | nil => cases hds
    | cons b bs =>
      rw [List.map_cons, List.map_cons, List.cons.injEq] at hds
      obtain ⟨hallows, haddr⟩ := h.held d b hds.1
      obtain ⟨hrest, hallows'⟩ := ih hds.2
      refine ⟨by rw [List.map_cons, List.map_cons, haddr, hrest], fun b' hb' => ?_⟩
      rcases List.mem_cons.mp hb' with rfl | hb'
      · exact hallows
      · exact hallows' b' hb'

variable {k : Nat} {st : AclnnStage} {ls is os : List TensorBase} {p : PlainStep}

/-- New or re-bound, the executor has the tensors of the call. -/
theorem InCall.executor_eq (h : InCall user op c kn s vars)
    (hst : Launches op kn st ls is os p)
    (hshaped : ∀ e ws, s.members.execs k = some (e, ws) → e.listed = st.listed ∧
      e.inputs.length = st.inputs.length ∧ e.outputs.length = st.outputs.length) :
    (s.executor c k st).1 = ⟨st.listed, is.map (TensorBase.address c.toOpCall s.frame),
      os.map (TensorBase.address c.toOpCall s.frame)⟩ := by
  obtain ⟨hin, hinAllows⟩ := h.map_addrs hst.inputs
  obtain ⟨hout, houtAllows⟩ := h.map_addrs hst.outputs
  cases hexec : s.members.execs k with
  | none =>
    rw [CallState.executor, hexec]
    show ListedExecutor.mk _ _ _ = _
    rw [hin, hout]
  | some ews =>
    obtain ⟨e, ws⟩ := ews
    obtain ⟨hlisted, hinLen, houtLen⟩ := hshaped e ws hexec
    have hinLen' : e.inputs.length = is.length := by
      rw [hinLen]
      simpa using congrArg List.length hst.inputs
    have houtLen' : e.outputs.length = os.length := by
      rw [houtLen]
      simpa using congrArg List.length hst.outputs
    rw [CallState.executor, hexec]
    show ListedExecutor.mk e.listed _ _ = _
    rw [hlisted, hst.setInputs.foldl_set _ hinLen', hst.setOutputs.foldl_set _ houtLen',
      hst.setInputs.map_eq fun x hx => h.address_eq (hinAllows _ hx),
      hst.setOutputs.map_eq fun x hx => h.address_eq (houtAllows _ hx)]

/-- A tensor of the plain program. -/
def plainAt (args : Nat → Nat) (t : AclTensorCache × TensorBase) : AclTensorCache × (Int → Cell) :=
  (t.1, t.2.cell args)

omit user kn s vars in
theorem zipWith_located (f : CallFrame) (ds : List Nat) (bs : List TensorBase) :
    List.zipWith (CallState.located op) ds (bs.map (TensorBase.address c.toOpCall f)) =
      ((List.zip (ds.map op.desc) bs).map (plainAt c.args)).map (placed f.place) := by
  induction ds generalizing bs with
  | nil => rfl
  | cons d ds ih =>
    cases bs with
    | nil => rfl
    | cons b bs =>
      have hhead : CallState.located op d (b.address c.toOpCall f) =
          placed f.place (plainAt c.args (op.desc d, b)) :=
        Prod.ext rfl (funext fun n => (f.place_cell c.toOpCall b n).symm)
      rw [List.map_cons, List.zipWith_cons_cons, hhead, ih]
      rfl

/-- A launch finds the tensors of the plain step. -/
theorem InCall.launchInputs_eq (h : InCall user op c kn s vars)
    (hst : Launches op kn st ls is os p) :
    CallState.launchInputs op s.members.addrs
        ⟨st.listed, is.map (TensorBase.address c.toOpCall s.frame),
          os.map (TensorBase.address c.toOpCall s.frame)⟩ st =
      (p.inputs.map (plainAt c.args)).map (placed s.frame.place) := by
  have hlen : (st.listed.map op.desc).length = ls.length := by
    rw [List.length_map]
    simpa using congrArg List.length hst.listed
  have hlisted : (st.listed.map fun d => CallState.located op d (s.members.addrs d)) =
      List.zipWith (CallState.located op) st.listed
        (ls.map (TensorBase.address c.toOpCall s.frame)) := by
    rw [← (h.map_addrs hst.listed).1, List.zipWith_map_right, List.zipWith_self]
  rw [CallState.launchInputs, hlisted, zipWith_located, zipWith_located, hst.plain, List.map_append,
    List.zip_append hlen, List.map_append, List.map_append]

omit user c s vars in
/-- A descriptor of the launch and what it holds. -/
theorem Launches.mem_inputs (hst : Launches op kn st ls is os p) {t : AclTensorCache × TensorBase}
    (ht : t ∈ p.inputs) : ∃ d, t.1 = op.desc d ∧ kn.Readable d t.2 := by
  rw [hst.plain, List.zip_map_left, List.mem_map] at ht
  obtain ⟨x, hx, rfl⟩ := ht
  exact ⟨x.1, rfl, hst.readable x hx⟩

omit user c s vars in
/-- What was written is an output of the launch. -/
theorem Launches.mem_writes (hst : Launches op kn st ls is os p) {d : Nat} {sl : Scratch}
    (hd : (d, sl) ∈ kn.writes st) :
    st.kernel.inPlace = false ∧ (op.desc d, TensorBase.scratch sl) ∈ p.outputs := by
  rw [Known.writes] at hd
  split at hd
  · cases hd
  · rename_i hplace
    obtain ⟨d', hd', hheld⟩ := List.mem_filterMap.mp hd
    obtain ⟨i, hi, rfl⟩ := List.getElem_of_mem hd'
    have hlen : st.outputs.length = os.length := by
      simpa using congrArg List.length hst.outputs
    have hio : i < os.length := hlen ▸ hi
    have hbase : kn.held st.outputs[i] = some os[i] := by
      have hget := congrArg (·[i]?) hst.outputs
      simpa [hi, hio] using hget
    rw [hbase] at hheld
    split at hheld
    · rename_i sl' hos
      cases hheld
      refine ⟨by simpa using hplace, ?_⟩
      rw [hst.plain]
      have hzip : (List.zip (st.outputs.map op.desc) os)[i]? =
          some (op.desc st.outputs[i], os[i]) := by
        simp [hi, hio]
      rw [Option.some.inj hos] at hzip
      exact List.mem_of_getElem? hzip
    · cases hheld

/-- What the launch leaves in its workspace meets no variable. -/
theorem InCall.scribble (h : InCall user op c kn s vars) (hserves : c.malloc.Serves user)
    (ws : Nat) :
    Keeps s.frame.place (Live user op kn)
      (CallState.scribble
        ((s.pool.ensure (c.request ws workspaceSlot)).1.bufAt
          (s.pool.ensure (c.request ws workspaceSlot)).2) ws (c.noise k) s.mem) vars := by
  have hserves' : (c.request ws workspaceSlot).malloc.Serves user := hserves
  have hsound := h.sound.ensure hserves'
  have hout := h.outside.ensure hserves'
  obtain ⟨a, ha, hkey, hroom⟩ := h.sound.indexed.ensure_found (c.request ws workspaceSlot)
  change ws ≤ a.capacity at hroom
  have hmem := List.mem_of_getElem? ha
  rw [WorkspacePool.bufAt_eq ha]
  refine h.keeps.frame fun x hx => if_neg ?_
  rintro ⟨hlow, hhigh⟩
  have hoffset : (a.buf + (s.frame.place x - a.buf) : Int) = s.frame.place x := by omega
  have hused := h.used x hx
  cases x with
  | user b =>
    refine hsound.arena_outside hout hmem (n := s.frame.place (.user b) - a.buf) (by omega)
      (by omega) ?_
    rw [hoffset]
    exact hused
  | scratch sl n =>
    obtain ⟨hasked, hn, hn'⟩ := hused
    obtain ⟨b, hb, hbkey, hbroom, hsaved⟩ :=
      (h.scratch sl hasked).ensure ws sl.text_ne
    have hne : b.key ≠ a.key := by
      rw [hbkey, hkey]
      intro heq
      exact sl.text_ne (congrArg SlotKey.slot heq)
    refine hsound.arena_ne (List.mem_of_getElem? hb) hmem hne hn (by omega)
      (n := s.frame.place (.scratch sl n) - a.buf) (by omega) (by omega) ?_
    rw [hoffset, ← hsaved]
    rfl

omit user kn vars in
theorem launch_eq (K : AclnnLibrary α) {e : ListedExecutor} {ws : Nat}
    (hex : s.executor c k st = (e, ws)) :
    s.launch K op c k st =
      { pool := (s.pool.ensure (c.request ws workspaceSlot)).1
        members := { s.members with execs := Function.update s.members.execs k (some (e, ws)) }
        frame := s.frame
        mem := runKernel K st.kernel (CallState.launchInputs op s.members.addrs e st)
          (List.zipWith (CallState.located op) st.outputs e.outputs)
          (CallState.scribble
            ((s.pool.ensure (c.request ws workspaceSlot)).1.bufAt
              (s.pool.ensure (c.request ws workspaceSlot)).2) ws (c.noise k) s.mem) } := by
  unfold CallState.launch
  rw [hex]

theorem InCall.launch (h : InCall user op c kn s vars) (K : AclnnLibrary α)
    (hserves : c.malloc.Serves user) (hstage : kn.stage op st = some p)
    (hfits : p.Fits op.scratchBytes) (hargs : p.OfUser user c.args)
    (hshaped : ∀ e ws, s.members.execs k = some (e, ws) → e.listed = st.listed ∧
      e.inputs.length = st.inputs.length ∧ e.outputs.length = st.outputs.length) :
    InCall user op c { kn with written := kn.writes st ++ kn.written } (s.launch K op c k st)
        (p.run K c.args vars) ∧
      ∃ e ws, (s.launch K op c k st).members.execs = Function.update s.members.execs k (some (e, ws)) ∧
        e.listed = st.listed ∧ e.inputs.length = st.inputs.length ∧
          e.outputs.length = st.outputs.length := by
  obtain ⟨ls, is, os, hst⟩ := Known.stage_eq_some hstage
  have hserves' : ∀ ws, (c.request ws workspaceSlot).malloc.Serves user := fun _ => hserves
  have hexec := h.executor_eq hst hshaped
  cases hex : s.executor c k st with
  | mk e ws =>
    rw [hex] at hexec
    change e = _ at hexec
    have hinputs : CallState.launchInputs op s.members.addrs e st =
        (p.inputs.map (plainAt c.args)).map (placed s.frame.place) := by
      rw [hexec]
      exact h.launchInputs_eq hst
    have houtputs : List.zipWith (CallState.located op) st.outputs e.outputs =
        (p.outputs.map (plainAt c.args)).map (placed s.frame.place) := by
      rw [hexec, hst.plain]
      exact zipWith_located s.frame st.outputs os
    have hwithin : ∀ t ∈ p.inputs.map (plainAt c.args), Within (Live user op kn) t := by
      intro t ht idx hidx
      obtain ⟨⟨desc, b⟩, htb, rfl⟩ := List.mem_map.mp ht
      cases b with
      | arg i => exact hargs desc i (List.mem_append_left _ htb) idx hidx
      | scratch sl =>
        obtain ⟨d, hd, hreadable⟩ := hst.mem_inputs htb
        change desc = op.desc d at hd
        subst hd
        exact ⟨d, hreadable, idx, hidx, rfl⟩
    have hused : ∀ t ∈ p.outputs.map (plainAt c.args), Within (Used user op kn) t := by
      intro t ht idx hidx
      obtain ⟨⟨desc, b⟩, htb, rfl⟩ := List.mem_map.mp ht
      cases b with
      | arg i => exact hargs desc i (List.mem_append_right _ htb) idx hidx
      | scratch sl =>
        have hos : TensorBase.scratch sl ∈ os := by
          rw [hst.plain] at htb
          exact (List.of_mem_zip htb).2
        exact ⟨(h.map_addrs hst.outputs).2 _ hos, hfits desc sl (List.mem_append_right _ htb) idx hidx⟩
    have hkeeps := runKernel_placed h.apart K p.kernel hwithin hused (h.scribble (k := k) hserves ws)
      h.used
    have hkernel : p.kernel = st.kernel := by rw [hst.plain]
    rw [launch_eq K hex, hinputs, houtputs, ← hkernel]
    refine ⟨⟨h.sound.ensure (hserves' ws), h.outside.ensure (hserves' ws), fun sl hsl => ?_, h.held,
      fun x hx => ?_, hkeeps.mono fun x hx => ?_⟩, e, ws, rfl, by rw [hexec], ?_, ?_⟩
    · exact (h.scratch sl hsl).ensure ws sl.text_ne
    · cases x with
      | user a => exact hx
      | scratch sl n =>
        obtain ⟨d, hd, idx, hidx, hn⟩ := hx
        rcases List.mem_append.mp hd with hd | hd
        · have hcell := hused (plainAt c.args (op.desc d, .scratch sl))
            (List.mem_map_of_mem (hst.mem_writes hd).2) idx hidx
          rw [hn]
          exact hcell
        · exact h.used (.scratch sl n) ⟨d, hd, idx, hidx, hn⟩
    · cases x with
      | user a => exact .inl hx
      | scratch sl n =>
        obtain ⟨d, hd, idx, hidx, hn⟩ := hx
        rcases List.mem_append.mp hd with hd | hd
        · obtain ⟨hplace, hmem⟩ := hst.mem_writes hd
          refine .inr ⟨plainAt c.args (op.desc d, .scratch sl), ?_, idx, mem_indices.mpr hidx, ?_⟩
          · rw [hkernel, hplace]
            exact List.mem_map_of_mem hmem
          · rw [hn]
            rfl
        · exact .inl ⟨d, hd, idx, hidx, hn⟩
    · rw [hexec]
      simpa using (congrArg List.length hst.inputs).symm
    · rw [hexec]
      simpa using (congrArg List.length hst.outputs).symm

end InCall

/-! ## A whole call -/

section Calls

variable {α : Type} {user : Set Int} {op : CachedOp} {c : DeviceCall α}

theorem launch_mem_members {k : Nat} {st : AclnnStage} {steps : List Step}
    (h : .launch k st ∈ steps) : k ∈ steps.filterMap memberOf :=
  List.mem_filterMap.mpr ⟨_, h, rfl⟩

/-- The rest of a call. -/
theorem InCall.runSteps (K : AclnnLibrary α) (hserves : c.malloc.Serves user) {kn : Known}
    {steps : List Step} {ps : List PlainStep} (hplain : plainSteps op kn steps = some ps)
    (hmembers : (steps.filterMap memberOf).Nodup) (hfits : ∀ p ∈ ps, p.Fits op.scratchBytes)
    (hargs : ∀ p ∈ ps, p.OfUser user c.args) {s : CallState α} {vars : Cell → α}
    (h : InCall user op c kn s vars) (hshaped : ShapedFor s.members steps) :
    ∃ kn', InCall user op c kn' (CallState.runSteps K op c steps s)
        (ps.foldl (PlainStep.run K c.args) vars) ∧
      ShapedFor (CallState.runSteps K op c steps s).members steps ∧
      ∀ k ∉ steps.filterMap memberOf,
        (CallState.runSteps K op c steps s).members.execs k = s.members.execs k := by
  induction steps generalizing kn ps s vars with
  | nil =>
    cases hplain
    exact ⟨kn, h, hshaped, fun _ _ => rfl⟩
  | cons step steps ih =>
    cases step with
    | get d x =>
      rw [plainSteps] at hplain
      split at hplain
      · rename_i hx
        obtain ⟨kn', hcall, hshaped', hother⟩ := ih hplain hmembers hfits hargs (h.get K d hx)
          fun k st hst => hshaped k st (List.mem_cons_of_mem _ hst)
        refine ⟨kn', hcall, fun k st hst => ?_, hother⟩
        rcases List.mem_cons.mp hst with heq | hst
        · cases heq
        · exact hshaped' k st hst
      · cases hplain
    | ensure sl =>
      rw [plainSteps] at hplain
      split at hplain
      · cases hplain
      · rename_i hnew
        obtain ⟨kn', hcall, hshaped', hother⟩ := ih hplain hmembers hfits hargs
          (h.ensure K hnew hserves) fun k st hst => hshaped k st (List.mem_cons_of_mem _ hst)
        refine ⟨kn', hcall, fun k st hst => ?_, hother⟩
        rcases List.mem_cons.mp hst with heq | hst
        · cases heq
        · exact hshaped' k st hst
    | launch k st =>
      rw [plainSteps] at hplain
      simp only [Option.bind_eq_bind, Option.bind_eq_some_iff, Option.pure_def,
        Option.some.injEq] at hplain
      obtain ⟨p, hstage, rest, hrest, rfl⟩ := hplain
      rw [List.filterMap_cons_some (show memberOf (.launch k st) = some k from rfl),
        List.nodup_cons] at hmembers
      obtain ⟨hcall, e, ws, hexecs, hshape⟩ := h.launch K hserves hstage
        (hfits p List.mem_cons_self) (hargs p List.mem_cons_self)
        (hshaped k st List.mem_cons_self)
      have hself : (s.launch K op c k st).members.execs k = some (e, ws) := by
        rw [hexecs, Function.update_self]
      have hkept : ∀ j ≠ k, (s.launch K op c k st).members.execs j = s.members.execs j := by
        intro j hj
        rw [hexecs, Function.update_of_ne hj]
      have hnot : ∀ j st', .launch j st' ∈ steps → j ≠ k := by
        intro j st' hst' hj
        exact hmembers.1 (hj ▸ launch_mem_members hst')
      obtain ⟨kn', hcall', hshaped', hother⟩ := ih hrest hmembers.2
        (fun q hq => hfits q (List.mem_cons_of_mem p hq))
        (fun q hq => hargs q (List.mem_cons_of_mem p hq)) hcall fun j st' hst' => by
          rw [ShapedFor] at hshaped
          intro e' ws' he'
          rw [hkept j (hnot j st' hst')] at he'
          exact hshaped j st' (List.mem_cons_of_mem _ hst') e' ws' he'
      refine ⟨kn', hcall', fun j st' hst' e' ws' he' => ?_, fun j hj => ?_⟩
      · rcases List.mem_cons.mp hst' with heq | hst'
        · cases heq
          have hfinal := (hother k hmembers.1).trans hself
          rw [show (CallState.runSteps K op c (.launch k st :: steps) s).members.execs k =
            some (e, ws) from hfinal] at he'
          cases he'
          exact hshape
        · exact hshaped' j st' hst' e' ws' he'
      · rw [List.filterMap_cons_some (show memberOf (.launch k st) = some k from rfl),
          List.mem_cons, not_or] at hj
        exact (hother j hj.2).trans (hkept j hj.1)

variable {ops : Nat → CachedOp} {programs : Nat → List PlainStep}

/-- What holds between calls: the device against the memory of the plain
programs. -/
structure Agree (user : Set Int) (ops : Nat → CachedOp) (v : Device α) (mem : DeviceMemory α) :
    Prop where
  sound : v.pool.Sound
  outside : v.pool.Outside user
  shaped : ∀ i, ShapedFor (v.members i) (ops i).steps
  memory : ∀ a ∈ user, v.mem a = mem a

theorem agree_new (mem : DeviceMemory α) : Agree user ops { mem } mem := by
  refine ⟨⟨.empty, .empty⟩, fun e he => ?_, fun i k st _ e ws he => (nomatch he), fun _ _ => rfl⟩
  simp [BlockHeap.extents] at he

/-- What may happen to a device: allocations avoid the memory of the user,
calls are given tensors in it, and what else is done there depends on
nothing else. -/
def DeviceEvent.Ok (user : Set Int) (programs : Nat → List PlainStep) : DeviceEvent α → Prop
  | .call i c => c.malloc.Serves user ∧ ∀ p ∈ programs i, p.OfUser user c.args
  | .request c => c.malloc.Serves user
  | .other f => ∀ mem mem' : DeviceMemory α, (∀ a ∈ user, mem a = mem' a) →
    ∀ a ∈ user, f mem a = f mem' a

variable [Inhabited α]

/-- A call, on the memory of its user. -/
theorem Agree.call (K : AclnnLibrary α) {v : Device α} {mem : DeviceMemory α}
    (h : Agree user ops v mem) {i : Nat} {ps : List PlainStep} (hop : (ops i).Carries ps)
    (hserves : c.malloc.Serves user) (hargs : ∀ p ∈ ps, p.OfUser user c.args) :
    Agree user ops (v.call K ops i c) (runPlain K c.args ps mem) := by
  have hstart : InCall user (ops i) c {} ⟨v.pool, v.members i, {}, v.mem⟩
      (startVars mem) := by
    refine ⟨h.sound, h.outside, fun sl hsl => (nomatch hsl), fun d b hb => (nomatch hb),
      fun x hx => ?_, fun x hx => ?_⟩
    · cases x with
      | user a => exact hx
      | scratch sl n =>
        obtain ⟨d, hd, -⟩ := hx
        cases hd
    · cases x with
      | user a => exact h.memory a hx
      | scratch sl n =>
        obtain ⟨d, hd, -⟩ := hx
        cases hd
  obtain ⟨kn, hcall, hshaped, -⟩ := hstart.runSteps K hserves hop.plain hop.members hop.fits hargs
    (h.shaped i)
  refine ⟨hcall.sound, hcall.outside, fun j => ?_, fun a ha => hcall.keeps (.user a) ha⟩
  show ShapedFor (Function.update v.members i _ j) (ops j).steps
  by_cases hj : j = i
  · subst hj
    rw [Function.update_self]
    exact hshaped
  · rw [Function.update_of_ne hj]
    exact h.shaped j

theorem Agree.apply (K : AclnnLibrary α) (hops : ∀ i, (ops i).Carries (programs i)) {v : Device α}
    {mem : DeviceMemory α} (h : Agree user ops v mem) {e : DeviceEvent α}
    (he : e.Ok user programs) : Agree user ops (v.apply K ops e) (e.plain K programs mem) := by
  cases e with
  | call i c => exact h.call K (hops i) he.1 he.2
  | request c => exact ⟨h.sound.ensure he, h.outside.ensure he, h.shaped, h.memory⟩
  | other f => exact ⟨h.sound, h.outside, h.shaped, he v.mem mem h.memory⟩

/-- Over a run, the memory of the user changes as with the plain programs. -/
theorem runs_agree (K : AclnnLibrary α) (hops : ∀ i, (ops i).Carries (programs i))
    {es : List (DeviceEvent α)} (hes : ∀ e ∈ es, e.Ok user programs) {v : Device α}
    {mem : DeviceMemory α} (h : Agree user ops v mem) :
    Agree user ops (es.foldl (Device.apply K ops) v) (es.foldl (DeviceEvent.plain K programs) mem) := by
  induction es generalizing v mem with
  | nil => exact h
  | cons e es ih =>
    exact ih (fun e he => hes e (List.mem_cons_of_mem _ he))
      (h.apply K hops (hes e List.mem_cons_self))

end Calls

end InfiniOps.Ascend
