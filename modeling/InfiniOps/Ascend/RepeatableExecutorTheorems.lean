/-
InfiniOps.Ascend.RepeatableExecutorTheorems — which launches use the
buffers of their own call.

A stage that re-binds every tensor on later calls always launches on
current buffers (`prepare_complete`). All stages of `ScaledSoftmax`,
`Swiglu`, `RmsNorm` and `AddRmsNorm` do; the masked fill of `CausalSoftmax`
re-binds nothing and its softmax only the output, so both go on using the
scratch buffer of the first call. Hence every launch of a history is on
current buffers if and only if the operator is not `CausalSoftmax` or each
later call finds its scratch buffer at the address of the first
(`launches_onCurrent_iff`), which another operator's request can prevent
(`causalSoftmax_uses_freed_scratch`).
-/
import InfiniOps.Ascend.RepeatableExecutor
import InfiniOps.Ascend.WorkspacePoolTheorems
import InfiniOps.Lib.History

namespace InfiniOps.Ascend

/-! ## Buffers of the pool -/

namespace WorkspacePool

theorem Indexed.bufferOf_eq {p : WorkspacePool} (h : p.Indexed) {i : Nat} {a : WorkspaceArena}
    (ha : p.arenas[i]? = some a) : p.bufferOf a.key = a.buf := by
  rw [bufferOf, h.find?_eq ha]
  rfl

theorem bufAt_eq {p : WorkspacePool} {i : Nat} {a : WorkspaceArena} (ha : p.arenas[i]? = some a) :
    p.bufAt i = a.buf := by
  rw [bufAt, ha]
  rfl

/-- The buffer of a growing arena. -/
theorem grow_buf (heap : BlockHeap) (a : WorkspaceArena) (needed : Nat) (malloc : Malloc) :
    (grow heap a needed malloc).2.buf =
      if needed ≤ a.capacity then a.buf else (malloc (freeOld heap a) needed).getD a.buf := by
  unfold grow
  by_cases hle : needed ≤ a.capacity
  · have hngt : ¬ needed > a.capacity := by omega
    rw [if_pos hle, if_neg hngt]
  · have hgt : needed > a.capacity := by omega
    have hpos : needed > 0 := by omega
    rw [if_neg hle, if_pos hgt, if_pos hpos]
    cases malloc (freeOld heap a) needed with
    | none => rfl
    | some buf => rfl

/-- `bufferFor` is what `Ensure` returns. -/
theorem Indexed.bufAt_ensure {p : WorkspacePool} (h : p.Indexed) (c : EnsureCall) :
    (p.ensure c).1.bufAt (p.ensure c).2 = p.bufferFor c := by
  cases hfast : p.fastPath c with
  | some i =>
    obtain ⟨e, he, hkey, rfl, a, ha, hroom⟩ := fastPath_spec hfast
    have hakey := h.caches c.thread e he
    rw [ha, Option.map_some, Option.some.injEq, hkey] at hakey
    rw [ensure_of_fast hfast, bufAt_eq ha, bufferFor, ← hakey, h.find?_eq ha]
    simp [hroom]
  | none =>
    obtain ⟨arenas, i, a, ha, hkey, hnew, heq⟩ := ensure_of_slow hfast
    obtain ⟨hi, -⟩ := List.getElem?_eq_some_iff.mp ha
    have hafter : (p.ensure c).1.arenas[i]? = some (grow p.heap a c.needed c.malloc).2 := by
      rw [heq]
      exact List.getElem?_set_self hi
    have hindex : (p.ensure c).2 = i := by rw [heq]
    rw [hindex, bufAt_eq hafter, grow_buf, bufferFor]
    rcases hnew with hnew | ⟨-, hempty, hfresh⟩
    · rw [hnew] at ha
      rw [← hkey, h.find?_eq ha]
    · have hfind : (p.arenas.find? fun b => b.key = c.key) = none :=
        List.find?_eq_none.mpr fun b hb => by simpa using hfresh b hb
      rw [hfind, hempty]
      simp [freeOld]

/-- The pool offers for a pair what `Ensure` returned for it. -/
theorem Indexed.bufferOf_ensure {p : WorkspacePool} (h : p.Indexed) (c : EnsureCall) :
    (p.ensure c).1.bufferOf c.key = (p.ensure c).1.bufAt (p.ensure c).2 := by
  obtain ⟨a, ha, hkey, -⟩ := h.ensure_found c
  rw [← hkey, (h.ensure c).bufferOf_eq ha, bufAt_eq ha]

end WorkspacePool

/-! ## The scratch buffer within a call -/

/-- The reference points at the scratch arena of the call's stream, and
the descriptor at its buffer. -/
def FrameOk (p : WorkspacePool) (c : OpCall) (f : Frame) : Prop :=
  ∃ a, p.arenas[f.temp]? = some a ∧ a.key = ⟨c.stream, "temp"⟩ ∧ a.buf = f.tempDesc

/-- A request for a workspace leaves the scratch arena alone. -/
theorem FrameOk.ensure_workspace {p : WorkspacePool} {c : OpCall} {f : Frame} (h : FrameOk p c f)
    (needed : Nat) : FrameOk (p.ensure (c.request needed workspaceSlot)).1 c f := by
  obtain ⟨a, ha, hkey, hbuf⟩ := h
  obtain ⟨b, hb, -, -, hsame⟩ := WorkspacePool.ensure_frame p (c.request needed workspaceSlot) ha
  have hne : a.key ≠ (c.request needed workspaceSlot).key := by
    rw [hkey]
    simp [EnsureCall.key, OpCall.request, workspaceSlot]
  rw [hsame hne] at hb
  exact ⟨a, hb, hkey, hbuf⟩

theorem frameOk_ensureTemp {op : AclOperator} {c : OpCall} {m : Machine} (h : m.pool.Indexed) :
    FrameOk (m.ensureTemp op c).1.pool c (m.ensureTemp op c).2 := by
  obtain ⟨a, ha, hkey, -⟩ := h.ensure_found (c.request op.tempSize tempSlot)
  exact ⟨a, ha, hkey, (WorkspacePool.bufAt_eq ha).symm⟩

/-- The stage uses the scratch buffer only after it was asked for. -/
def Ready (st : Stage) (p : WorkspacePool) (c : OpCall) (f : Frame) : Prop :=
  .temp ∈ st.inputs ++ st.outputs → FrameOk p c f

theorem passed_eq {op : AclOperator} {p : WorkspacePool} {c : OpCall} {f : Frame} {o : Operand}
    (h : o = .temp → FrameOk p c f) : o.passed op c p f = o.described op c f := by
  cases o with
  | arg i => rfl
  | mask => rfl
  | temp =>
    obtain ⟨a, ha, -, hbuf⟩ := h rfl
    exact (WorkspacePool.bufAt_eq ha).trans hbuf

theorem current_eq {op : AclOperator} {p : WorkspacePool} {c : OpCall} {f : Frame} {o : Operand}
    (hp : p.Indexed) (h : o = .temp → FrameOk p c f) : o.current op c p = o.described op c f := by
  cases o with
  | arg i => rfl
  | mask => rfl
  | temp =>
    obtain ⟨a, ha, hkey, hbuf⟩ := h rfl
    show p.bufferOf _ = _
    rw [← hkey, hp.bufferOf_eq ha, hbuf]
    rfl

/-! ## One stage -/

/-- Every tensor is re-bound, in order. -/
def Stage.Complete (st : Stage) : Prop :=
  st.setInputs = st.inputs.zipIdx.map Prod.swap ∧ st.setOutputs = st.outputs.zipIdx.map Prod.swap

instance (st : Stage) : Decidable st.Complete := inferInstanceAs (Decidable (_ ∧ _))

/-- Setting the addresses from position `pre.length` on. -/
theorem setAddrs_zipIdx (addr : Operand → Nat) (os : List Operand) (pre bound : List Nat)
    (h : bound.length = os.length) :
    setAddrs addr ((os.zipIdx pre.length).map Prod.swap) (pre ++ bound) = pre ++ os.map addr := by
  induction os generalizing pre bound with
  | nil =>
    have hnil : bound = [] := List.length_eq_zero_iff.mp h
    rw [hnil]
    rfl
  | cons o os ih =>
    cases bound with
    | nil => cases h
    | cons b bound =>
      have hset : (pre ++ b :: bound).set pre.length (addr o) = (pre ++ [addr o]) ++ bound := by
        simp
      have hrest := ih (pre ++ [addr o]) bound (by simpa using h)
      rw [List.length_append, List.length_singleton] at hrest
      show setAddrs addr ((os.zipIdx (pre.length + 1)).map Prod.swap)
        ((pre ++ b :: bound).set pre.length (addr o)) = _
      rw [hset, hrest]
      simp

/-- Re-binding every tensor leaves nothing of what was bound. -/
theorem setAddrs_complete (addr : Operand → Nat) (os : List Operand) (bound : List Nat)
    (h : bound.length = os.length) :
    setAddrs addr (os.zipIdx.map Prod.swap) bound = os.map addr :=
  setAddrs_zipIdx addr os [] bound h

/-- The executor, if there is one, was made for the tensors of the stage. -/
def Shaped (m : Machine) (k : Nat) (st : Stage) : Prop :=
  ∀ e ws, m.execs k = some (e, ws) →
    e.inputs.length = st.inputs.length ∧ e.outputs.length = st.outputs.length

/-- The tensors of the call, as the stage's executor should have them. -/
def Stage.Bound (op : AclOperator) (c : OpCall) (f : Frame) (st : Stage) (e : AclOpExecutor) : Prop :=
  e.inputs = st.inputs.map (Operand.described op c f) ∧
    e.outputs = st.outputs.map (Operand.described op c f)

theorem prepare_new {op : AclOperator} {c : OpCall} {m : Machine} {f : Frame} {k : Nat}
    {st : Stage} (hnew : m.execs k = none) : st.Bound op c f (m.prepare op c f k st).1 := by
  unfold Machine.prepare
  rw [hnew]
  exact ⟨rfl, rfl⟩

theorem prepare_complete {op : AclOperator} {c : OpCall} {m : Machine} {f : Frame} {k : Nat}
    {st : Stage} (hcomplete : st.Complete) (hshaped : Shaped m k st)
    (hready : Ready st m.pool c f) : st.Bound op c f (m.prepare op c f k st).1 := by
  cases hexec : m.execs k with
  | none => exact prepare_new hexec
  | some ews =>
    obtain ⟨e, ws⟩ := ews
    obtain ⟨hin, hout⟩ := hshaped e ws hexec
    have hpassed : ∀ o ∈ st.inputs ++ st.outputs,
        o.passed op c m.pool f = o.described op c f := by
      intro o ho
      exact passed_eq fun htemp => hready (htemp ▸ ho)
    unfold Machine.prepare
    rw [hexec]
    refine ⟨?_, ?_⟩
    · show setAddrs _ st.setInputs e.inputs = _
      rw [hcomplete.1, setAddrs_complete _ _ _ hin]
      exact List.map_congr_left fun o ho => hpassed o (List.mem_append_left _ ho)
    · show setAddrs _ st.setOutputs e.outputs = _
      rw [hcomplete.2, setAddrs_complete _ _ _ hout]
      exact List.map_congr_left fun o ho => hpassed o (List.mem_append_right _ ho)

/-- What a stage does: it keeps the scratch buffer and the other executors,
and adds one launch, on current buffers exactly when its executor is bound
to the tensors of the call. -/
structure Staged (op : AclOperator) (c : OpCall) (m : Machine) (f : Frame) (k : Nat) (st : Stage)
    (l : Launch) : Prop where
  pool : (m.stage op c f k st).pool.Indexed
  frame : FrameOk m.pool c f → FrameOk (m.stage op c f k st).pool c f
  execs : (m.stage op c f k st).execs = Function.update m.execs k (some (m.prepare op c f k st))
  log : (m.stage op c f k st).log = m.log ++ [l]
  current : l.OnCurrent ↔ st.Bound op c f (m.prepare op c f k st).1

theorem stage_spec {op : AclOperator} {c : OpCall} {m : Machine} {f : Frame} {k : Nat}
    {st : Stage} (hpool : m.pool.Indexed) (hready : Ready st m.pool c f) :
    ∃ l, Staged op c m f k st l := by
  cases hprepare : m.prepare op c f k st with
  | mk e ws =>
    have hpool' := hpool.ensure (c.request ws workspaceSlot)
    have hwork : (m.pool.ensure (c.request ws workspaceSlot)).1.bufferOf ⟨c.stream, "workspace"⟩ =
        (m.pool.ensure (c.request ws workspaceSlot)).1.bufAt
          (m.pool.ensure (c.request ws workspaceSlot)).2 :=
      hpool.bufferOf_ensure (c.request ws workspaceSlot)
    have hcurrent : ∀ o ∈ st.inputs ++ st.outputs,
        o.current op c (m.pool.ensure (c.request ws workspaceSlot)).1 = o.described op c f := by
      intro o ho
      exact current_eq hpool' fun htemp => (hready (htemp ▸ ho)).ensure_workspace ws
    have hin : st.inputs.map (Operand.current op c (m.pool.ensure (c.request ws workspaceSlot)).1) =
        st.inputs.map (Operand.described op c f) :=
      List.map_congr_left fun o ho => hcurrent o (List.mem_append_left _ ho)
    have hout : st.outputs.map (Operand.current op c (m.pool.ensure (c.request ws workspaceSlot)).1) =
        st.outputs.map (Operand.described op c f) :=
      List.map_congr_left fun o ho => hcurrent o (List.mem_append_right _ ho)
    let l : Launch :=
      { used :=
          { inputs := e.inputs, outputs := e.outputs
            workspace := (m.pool.ensure (c.request ws workspaceSlot)).1.bufAt
              (m.pool.ensure (c.request ws workspaceSlot)).2 }
        current :=
          { inputs := st.inputs.map (Operand.described op c f)
            outputs := st.outputs.map (Operand.described op c f)
            workspace := (m.pool.ensure (c.request ws workspaceSlot)).1.bufAt
              (m.pool.ensure (c.request ws workspaceSlot)).2 } }
    have hstage : m.stage op c f k st =
        { pool := (m.pool.ensure (c.request ws workspaceSlot)).1
          execs := Function.update m.execs k (some (e, ws))
          log := m.log ++ [l] } := by
      unfold Machine.stage
      rw [hprepare]
      simp only [hin, hout, hwork, l]
    refine ⟨l, ?_, ?_, ?_, ?_, ?_⟩
    · rw [hstage]
      exact hpool'
    · rw [hstage]
      exact fun hf => hf.ensure_workspace ws
    · rw [hstage, hprepare]
    · rw [hstage]
    · rw [hprepare]
      simp [Launch.OnCurrent, Stage.Bound, l]

theorem Staged.execs_of_ne {op : AclOperator} {c : OpCall} {m : Machine} {f : Frame} {k j : Nat}
    {st : Stage} {l : Launch} (h : Staged op c m f k st l) (hne : j ≠ k) :
    (m.stage op c f k st).execs j = m.execs j := by
  rw [h.execs, Function.update_of_ne hne]

/-- An executor bound to the tensors of the call keeps the stage's shape. -/
theorem Staged.shaped {op : AclOperator} {c : OpCall} {m : Machine} {f : Frame} {k : Nat}
    {st : Stage} {l : Launch} (h : Staged op c m f k st l)
    (hbound : st.Bound op c f (m.prepare op c f k st).1) : Shaped (m.stage op c f k st) k st := by
  intro e ws hexec
  rw [h.execs, Function.update_self] at hexec
  have he : (m.prepare op c f k st).1 = e := congrArg Prod.fst (Option.some.inj hexec)
  rw [← he, hbound.1, hbound.2]
  exact ⟨List.length_map _, List.length_map _⟩

/-! ## Operators that re-bind everything -/

/-- The stages of a sequence of actions. -/
def stagesOf (as : List Action) : List (Nat × Stage) :=
  as.filterMap fun
    | .ensureTemp => none
    | .stage k st => some (k, st)

/-- The scratch buffer is asked for before a stage uses it; `ready` says
whether it has been. -/
def Sequenced : Bool → List Action → Prop
  | _, [] => True
  | _, .ensureTemp :: as => Sequenced true as
  | ready, .stage _ st :: as =>
    (.temp ∈ st.inputs ++ st.outputs → ready = true) ∧ Sequenced ready as

/-- Each stage re-binds all its tensors and has an executor member of its
own. -/
structure Tidy (as : List Action) : Prop where
  complete : ∀ s ∈ stagesOf as, s.2.Complete
  nodup : ((stagesOf as).map Prod.fst).Nodup
  sequenced : Sequenced false as

/-- Every operator but `CausalSoftmax`. -/
theorem tidy_actions {kind : OperatorKind} (h : kind ≠ .causalSoftmax) : Tidy kind.actions := by
  cases kind with
  | causalSoftmax => exact absurd rfl h
  | scaledSoftmax needsScale =>
    cases needsScale with
    | true => exact ⟨by decide, by decide, by simp [Sequenced, OperatorKind.actions,
        OperatorKind.scaledSoftmaxActions]⟩
    | false => exact ⟨by decide, by decide, by simp [Sequenced, OperatorKind.actions,
        OperatorKind.scaledSoftmaxActions]⟩
  | swiglu => exact ⟨by decide, by decide, by simp [Sequenced, OperatorKind.actions,
      OperatorKind.swigluActions]⟩
  | rmsNorm => exact ⟨by decide, by decide, by simp [Sequenced, OperatorKind.actions,
      OperatorKind.rmsNormActions]⟩
  | addRmsNorm => exact ⟨by decide, by decide, by simp [Sequenced, OperatorKind.actions,
      OperatorKind.addRmsNormActions]⟩

theorem eq_of_fst_eq {ss : List (Nat × Stage)} (hnodup : (ss.map Prod.fst).Nodup)
    {s t : Nat × Stage} (hs : s ∈ ss) (ht : t ∈ ss) (hfst : s.1 = t.1) : s = t :=
  List.inj_on_of_nodup_map hnodup hs ht hfst

/-- The rest of a call of a tidy operator. -/
theorem runActions_tidy {op : AclOperator} {c : OpCall} {all : List (Nat × Stage)}
    (hcomplete : ∀ s ∈ all, s.2.Complete) (hnodup : (all.map Prod.fst).Nodup) (as : List Action)
    {ready : Bool} {m : Machine} {f : Frame} (hsub : stagesOf as ⊆ all) (hseq : Sequenced ready as)
    (hpool : m.pool.Indexed) (hshaped : ∀ s ∈ all, Shaped m s.1 s.2)
    (hframe : ready = true → FrameOk m.pool c f) :
    (m.runActions op c as f).pool.Indexed ∧
      (∀ s ∈ all, Shaped (m.runActions op c as f) s.1 s.2) ∧
      ∃ ls, (m.runActions op c as f).log = m.log ++ ls ∧ ∀ l ∈ ls, l.OnCurrent := by
  induction as generalizing m f ready with
  | nil => exact ⟨hpool, hshaped, [], by simp [Machine.runActions], by simp⟩
  | cons a as ih =>
    cases a with
    | ensureTemp =>
      exact ih hsub hseq (hpool.ensure _) hshaped fun _ => frameOk_ensureTemp hpool
    | stage k st =>
      obtain ⟨htemp, hseq⟩ := hseq
      have hmem : (k, st) ∈ all := hsub (by simp [stagesOf])
      have hready : Ready st m.pool c f := fun ht => hframe (htemp ht)
      obtain ⟨l, hstaged⟩ := @stage_spec op c m f k st hpool hready
      have hbound := @prepare_complete op c m f k st (hcomplete _ hmem) (hshaped _ hmem) hready
      have hshaped' : ∀ s ∈ all, Shaped (m.stage op c f k st) s.1 s.2 := by
        intro s hs
        by_cases hk : s.1 = k
        · have hst : s = (k, st) := eq_of_fst_eq hnodup hs hmem hk
          rw [hst]
          exact hstaged.shaped hbound
        · intro e ws hexec
          rw [hstaged.execs_of_ne hk] at hexec
          exact hshaped s hs e ws hexec
      have hsub' : stagesOf as ⊆ all := fun s hs => hsub (by simp [stagesOf] at hs ⊢; exact .inr hs)
      obtain ⟨hpool'', hshaped'', ls, hlogs, hall⟩ :=
        ih hsub' hseq hstaged.pool hshaped' fun hr => hstaged.frame (hframe hr)
      refine ⟨hpool'', hshaped'', l :: ls, ?_, ?_⟩
      · show (Machine.runActions op c as (m.stage op c f k st) f).log = _
        rw [hlogs, hstaged.log, List.append_assoc, List.singleton_append]
      · intro l' hl'
        rcases List.mem_cons.mp hl' with rfl | hl'
        · exact hstaged.current.mpr hbound
        · exact hall l' hl'

/-! ## `CausalSoftmax` -/

open OperatorKind (copyStage fillStage softmaxStage)

/-- The executors of fill and softmax: not there yet, or bound to the
scratch buffer `t`. -/
def FillExec (op : AclOperator) : Option Nat → Option (AclOpExecutor × Nat) → Prop
  | none, x => x = none
  | some t, x => ∃ ws, x = some (⟨[t, op.maskBuf], []⟩, ws)

def SoftmaxExec : Option Nat → Option (AclOpExecutor × Nat) → Prop
  | none, x => x = none
  | some t, x => ∃ out ws, x = some (⟨[t], [out]⟩, ws)

/-- `b` is the scratch buffer that an instance of `CausalSoftmax` is bound
to. -/
structure ScratchBound (op : AclOperator) (m : Machine) (b : Option Nat) : Prop where
  copy : Shaped m 0 copyStage
  fill : FillExec op b (m.execs 1)
  softmax : SoftmaxExec b (m.execs 2)

theorem fill_prepare {op : AclOperator} {c : OpCall} {m : Machine} {f : Frame} {b : Option Nat}
    (h : FillExec op b (m.execs 1)) :
    (m.prepare op c f 1 fillStage).1 = ⟨[b.getD f.tempDesc, op.maskBuf], []⟩ := by
  unfold Machine.prepare
  cases b with
  | none =>
    have hexec : m.execs 1 = none := h
    rw [hexec]
    rfl
  | some t =>
    obtain ⟨ws, hexec⟩ := h
    rw [hexec]
    rfl

theorem softmax_prepare {op : AclOperator} {c : OpCall} {m : Machine} {f : Frame} {b : Option Nat}
    (h : SoftmaxExec b (m.execs 2)) :
    (m.prepare op c f 2 softmaxStage).1 = ⟨[b.getD f.tempDesc], [c.args 1]⟩ := by
  unfold Machine.prepare
  cases b with
  | none =>
    have hexec : m.execs 2 = none := h
    rw [hexec]
    rfl
  | some t =>
    obtain ⟨out, ws, hexec⟩ := h
    rw [hexec]
    rfl

section Stages

variable {op : AclOperator} {c : OpCall} {m : Machine} {f : Frame} {b : Option Nat} {l : Launch}

theorem Staged.fill (hs : Staged op c m f 1 fillStage l) (h : FillExec op b (m.execs 1)) :
    FillExec op (some (b.getD f.tempDesc)) ((m.stage op c f 1 fillStage).execs 1) ∧
      (l.OnCurrent ↔ b.getD f.tempDesc = f.tempDesc) := by
  have hprepare := @fill_prepare op c m f b h
  refine ⟨⟨(m.prepare op c f 1 fillStage).2, ?_⟩, ?_⟩
  · rw [hs.execs, Function.update_self, ← hprepare]
  · rw [hs.current, hprepare]
    simp [Stage.Bound, fillStage, Operand.described]

theorem Staged.softmax (hs : Staged op c m f 2 softmaxStage l) (h : SoftmaxExec b (m.execs 2)) :
    SoftmaxExec (some (b.getD f.tempDesc)) ((m.stage op c f 2 softmaxStage).execs 2) ∧
      (l.OnCurrent ↔ b.getD f.tempDesc = f.tempDesc) := by
  have hprepare := @softmax_prepare op c m f b h
  refine ⟨⟨c.args 1, (m.prepare op c f 2 softmaxStage).2, ?_⟩, ?_⟩
  · rw [hs.execs, Function.update_self, ← hprepare]
  · rw [hs.current, hprepare]
    simp [Stage.Bound, softmaxStage, Operand.described]

/-- The three stages, from the request of the scratch buffer on: the copy
is on current buffers, the other two launches are on the buffer of the
first call. -/
theorem causalSoftmax_stages (hpool : m.pool.Indexed) (hframe : FrameOk m.pool c f)
    (hb : ScratchBound op m b) :
    let m' := ((m.stage op c f 0 copyStage).stage op c f 1 fillStage).stage op c f 2 softmaxStage
    m'.pool.Indexed ∧ ScratchBound op m' (some (b.getD f.tempDesc)) ∧
      ∃ ls, m'.log = m.log ++ ls ∧
        ((∀ l ∈ ls, l.OnCurrent) ↔ b.getD f.tempDesc = f.tempDesc) := by
  obtain ⟨l₀, hs₀⟩ := @stage_spec op c m f 0 copyStage hpool fun _ => hframe
  have hframe₁ := hs₀.frame hframe
  obtain ⟨l₁, hs₁⟩ := @stage_spec op c _ f 1 fillStage hs₀.pool fun _ => hframe₁
  have hframe₂ := hs₁.frame hframe₁
  obtain ⟨l₂, hs₂⟩ := @stage_spec op c _ f 2 softmaxStage hs₁.pool fun _ => hframe₂
  have hbound : copyStage.Bound op c f (m.prepare op c f 0 copyStage).1 :=
    prepare_complete (by decide) hb.copy fun _ => hframe
  -- each stage meets the executor that it left on the last call
  have hfill : FillExec op b ((m.stage op c f 0 copyStage).execs 1) := by
    rw [hs₀.execs_of_ne (by decide)]
    exact hb.fill
  have hsoftmax : SoftmaxExec b
      (((m.stage op c f 0 copyStage).stage op c f 1 fillStage).execs 2) := by
    rw [hs₁.execs_of_ne (by decide), hs₀.execs_of_ne (by decide)]
    exact hb.softmax
  obtain ⟨hfill', hcurrent₁⟩ := hs₁.fill hfill
  obtain ⟨hsoftmax', hcurrent₂⟩ := hs₂.softmax hsoftmax
  refine ⟨hs₂.pool, ⟨?_, ?_, hsoftmax'⟩, [l₀, l₁, l₂], ?_, ?_⟩
  · intro e ws hexec
    rw [hs₂.execs_of_ne (by decide), hs₁.execs_of_ne (by decide)] at hexec
    exact hs₀.shaped hbound e ws hexec
  · rw [hs₂.execs_of_ne (by decide)]
    exact hfill'
  · rw [hs₂.log, hs₁.log, hs₀.log]
    simp
  · simp only [List.mem_cons, List.not_mem_nil, or_false, forall_eq_or_imp, forall_eq]
    rw [hcurrent₁, hcurrent₂]
    constructor
    · exact fun h => h.2.1
    · exact fun h => ⟨hs₀.current.mpr hbound, h, h⟩

end Stages

/-- A call of `CausalSoftmax`. The first call decides the scratch buffer
for all. -/
theorem causalSoftmax_call {op : AclOperator} (hkind : op.kind = .causalSoftmax) (c : OpCall)
    {m : Machine} {b : Option Nat} (hpool : m.pool.Indexed) (hb : ScratchBound op m b) :
    (m.call op c).pool.Indexed ∧
      ScratchBound op (m.call op c)
        (some (b.getD (m.pool.bufferFor (c.request op.tempSize tempSlot)))) ∧
      ∃ ls, (m.call op c).log = m.log ++ ls ∧
        ((∀ l ∈ ls, l.OnCurrent) ↔
          b.getD (m.pool.bufferFor (c.request op.tempSize tempSlot)) =
            m.pool.bufferFor (c.request op.tempSize tempSlot)) := by
  have hdesc : (m.ensureTemp op c).2.tempDesc =
      m.pool.bufferFor (c.request op.tempSize tempSlot) := hpool.bufAt_ensure _
  have hb' : ScratchBound op (m.ensureTemp op c).1 b := ⟨hb.copy, hb.fill, hb.softmax⟩
  have hstages := causalSoftmax_stages (hpool.ensure _) (frameOk_ensureTemp hpool) hb'
  rw [hdesc] at hstages
  unfold Machine.call
  rw [hkind]
  exact hstages

theorem ScratchBound.tempKept_iff {op : AclOperator} {m : Machine} {b : Option Nat}
    (h : ScratchBound op m b) (c : OpCall) :
    TempKept op m (.call c) ↔
      b.getD (m.pool.bufferFor (c.request op.tempSize tempSlot)) =
        m.pool.bufferFor (c.request op.tempSize tempSlot) := by
  have hfill := h.fill
  cases b with
  | none =>
    have hnone : m.execs 1 = none := hfill
    simp [TempKept, hnone]
  | some t =>
    obtain ⟨ws, hexec⟩ := hfill
    simp [TempKept, hexec]

/-! ## Histories -/

/-- What every history keeps true of the executor members. -/
structure Inv (op : AclOperator) (m : Machine) : Prop where
  indexed : m.pool.Indexed
  tidy : op.kind ≠ .causalSoftmax → ∀ s ∈ stagesOf op.kind.actions, Shaped m s.1 s.2
  scratch : op.kind = .causalSoftmax → ∃ b, ScratchBound op m b

theorem inv_new (op : AclOperator) : Inv op {} := by
  have hshaped : ∀ k st, Shaped {} k st := fun _ _ _ _ hexec => by cases hexec
  exact ⟨.empty, fun _ s _ => hshaped s.1 s.2, fun _ => ⟨none, hshaped _ _, rfl, rfl⟩⟩

theorem Inv.call {op : AclOperator} {m : Machine} (h : Inv op m) (c : OpCall) :
    Inv op (m.call op c) ∧ ∃ ls, (m.call op c).log = m.log ++ ls ∧
      ((∀ l ∈ ls, l.OnCurrent) ↔ (op.kind = .causalSoftmax → TempKept op m (.call c))) := by
  by_cases hkind : op.kind = .causalSoftmax
  · obtain ⟨b, hb⟩ := h.scratch hkind
    obtain ⟨hpool, hb', ls, hlog, hcurrent⟩ := causalSoftmax_call hkind c h.indexed hb
    refine ⟨⟨hpool, fun hne => absurd hkind hne, fun _ => ⟨_, hb'⟩⟩, ls, hlog, ?_⟩
    rw [hcurrent, ← hb.tempKept_iff c]
    simp [hkind]
  · have htidy := tidy_actions hkind
    obtain ⟨hpool, hshaped, ls, hlog, hall⟩ :=
      @runActions_tidy op c _ htidy.complete htidy.nodup op.kind.actions false m {}
        (List.Subset.refl _) htidy.sequenced h.indexed (h.tidy hkind) fun hr => by cases hr
    exact ⟨⟨hpool, fun _ => hshaped, fun hk => absurd hk hkind⟩, ls, hlog,
      ⟨fun _ hk => absurd hk hkind, fun _ => hall⟩⟩

theorem Inv.apply {op : AclOperator} {m : Machine} (h : Inv op m) (e : Event) :
    Inv op (m.apply op e) ∧ ∃ ls, (m.apply op e).log = m.log ++ ls ∧
      ((∀ l ∈ ls, l.OnCurrent) ↔ (op.kind = .causalSoftmax → TempKept op m e)) := by
  cases e with
  | call c => exact h.call c
  | request c =>
    refine ⟨⟨h.indexed.ensure c, h.tidy, ?_⟩, [], by simp [Machine.apply], by simp [TempKept]⟩
    intro hkind
    obtain ⟨b, hb⟩ := h.scratch hkind
    exact ⟨b, hb.copy, hb.fill, hb.softmax⟩

theorem run_append_singleton (op : AclOperator) (es : List Event) (e : Event) :
    run op (es ++ [e]) = (run op es).apply op e := by
  simp [run]

/-- Every launch of a history uses exactly the buffers of its call, if and
only if the operator is not `CausalSoftmax` or every later call finds its
scratch buffer where the first one had it. -/
theorem launches_onCurrent_iff (op : AclOperator) (es : List Event) :
    (∀ l ∈ (run op es).log, l.OnCurrent) ↔
      (op.kind = .causalSoftmax →
        ∀ before e after, es = before ++ e :: after → TempKept op (run op before) e) := by
  have hboth : Inv op (run op es) ∧ ((∀ l ∈ (run op es).log, l.OnCurrent) ↔
      (op.kind = .causalSoftmax →
        ∀ before e after, es = before ++ e :: after → TempKept op (run op before) e)) := by
    induction es using List.reverseRecOn with
    | nil => exact ⟨inv_new op, by simp [run]⟩
    | append_singleton es e ih =>
      obtain ⟨hinv, hiff⟩ := ih
      obtain ⟨hinv', ls, hlog, hcurrent⟩ := hinv.apply e
      rw [run_append_singleton]
      refine ⟨hinv', ?_⟩
      have hkept : (∀ before e' after, es ++ [e] = before ++ e' :: after →
          TempKept op (run op before) e') ↔ _ := History.obeys_concat
      rw [hlog, List.forall_mem_append, hiff, hcurrent, hkept]
      exact imp_and.symm
  exact hboth.2

/-! ## A growth between two calls -/

namespace GrownBetween

def op : AclOperator := { kind := .causalSoftmax, tempSize := 64, maskBuf := 9000 }

/-- The same tensors on the same stream each time. -/
def call : OpCall where
  thread := 0
  stream := 7
  args i := 5000 + 1000 * i
  wsSize _ := 32
  malloc := .bump

/-- Another operator asks for a larger scratch buffer on that stream. -/
def events : List Event := [.call call, .request ⟨0, 7, 128, tempSlot, .bump⟩, .call call]

end GrownBetween

open GrownBetween in
/-- The second call fills a buffer that was freed in between. -/
theorem causalSoftmax_uses_freed_scratch :
    ∃ l ∈ (run op events).log, ¬ l.OnCurrent ∧
      l.used.inputs = [1, 9000] ∧ l.current.inputs = [99, 9000] ∧
      ∀ e ∈ (run op events).pool.heap.extents, e.1 ≠ 1 := by
  decide +kernel

end InfiniOps.Ascend
