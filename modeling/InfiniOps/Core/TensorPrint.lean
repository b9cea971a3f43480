/-
InfiniOps.Core.TensorPrint — `Tensor::ToString` (`src/tensor.cc`).

`Tensor::ToStringHelper` strips one dimension in every call, through
`operator[]`, and turns the separator after the last child into the
closing bracket. What it reads, and what it overwrites, are the messages
of a `Traced` computation; `pop_back` and `back` of an empty string are
undefined and end it.

`layout` is the text that a tensor should print as. It does, with one read
for each element, just if no extent is 0 and the dispatch takes the type
(`printsElements_iff`). An extent of 0 leaves nothing to turn into a
bracket: the opening one has been removed as if it were a separator.
-/
import InfiniOps.Core.Dispatcher
import InfiniOps.Core.Strided
import InfiniOps.Lib.Brackets
import InfiniOps.Lib.Decimal
import InfiniOps.Lib.Traced

namespace InfiniOps

open RowMajor

/-! ## Names -/

/-- `kDataTypeToDesc`. -/
def kDataTypeToDesc : DataType → String
  | .kInt8 => "int8"
  | .kInt16 => "int16"
  | .kInt32 => "int32"
  | .kInt64 => "int64"
  | .kUInt8 => "uint8"
  | .kUInt16 => "uint16"
  | .kUInt32 => "uint32"
  | .kUInt64 => "uint64"
  | .kFloat16 => "float16"
  | .kBFloat16 => "bfloat16"
  | .kFloat32 => "float32"
  | .kFloat64 => "float64"

/-- `kDeviceToDesc.at`. It aborts at what is no device. -/
def kDeviceToDesc : DeviceType → Except Failure String
  | .kCpu => .ok "cpu"
  | .kNvidia => .ok "nvidia"
  | .kCambricon => .ok "cambricon"
  | .kAscend => .ok "ascend"
  | .kMetax => .ok "metax"
  | .kMoore => .ok "moore"
  | .kIluvatar => .ok "iluvatar"
  | .kKunlun => .ok "kunlun"
  | .kHygon => .ok "hygon"
  | .kQy => .ok "qy"
  | .kCount => .error (.aborted "")

/-- `Device::ToString`. -/
def Device.toString (device : Device) : Except Failure String := do
  let type ← kDeviceToDesc device.type
  pure (type ++ ":" ++ ToString.toString device.index)

/-! ## Printing -/

inductive PrintEvent where
  /-- The element at this address is read. -/
  | read (address : Nat)
  /-- `back() = ']'` replaces this character. -/
  | overwrite (c : Char)
  deriving DecidableEq, Repr

inductive PrintFailure where
  | process (failure : Failure)
  /-- `pop_back` or `back` of an empty string. -/
  | emptyString
  deriving DecidableEq, Repr

/-- A part of the call: what it reads and overwrites, and its string. -/
abbrev Printer := Traced PrintEvent Unit PrintFailure

/-- `std::to_string` of the element at an address. It writes digits, a
sign, a point, `inf` or `nan`. -/
structure ElementText where
  text : DataType → (address : Nat) → List Char
  plain : ∀ dtype address, ∀ c ∈ text dtype address, c ≠ '[' ∧ c ≠ ']'

/-- The types that `Tensor::ToStringHelper` is dispatched over. -/
def printedTypes : List DataType := floatTypes ++ allIntTypes

/-- The process ends where the dispatch does. -/
def Printer.ofRun (run : Run PrintEvent (List Char)) : Printer (List Char) :=
  fun s => (run.invocations, s, run.ending.mapError .process)

/-- `std::string::pop_back`. -/
def popBack (s : List Char) : Printer (List Char) :=
  if s = [] then Traced.raise .emptyString else pure s.dropLast

/-- `s.back() = c`. -/
def setBack (s : List Char) (c : Char) : Printer (List Char) :=
  match s.getLast? with
  | none => Traced.raise .emptyString
  | some last => do
    Traced.emit (.overwrite last)
    pure (s.dropLast ++ [c])

namespace Tensor

/-- `Tensor::operator[]`. The product and the sum are `size_t`. -/
def operatorIndex (t : Tensor) (index : Int) : Tensor where
  data := toUInt64 (t.data
    + effectiveIndex index (t.shape.getD 0 0) * t.strides.getD 0 0 * t.elementSize)
  shape := t.shape.tail
  dtype := t.dtype
  device := t.device
  strides := t.strides.tail

/-- The loop over the first dimension. -/
def appendChildren (child : Nat → Printer (List Char)) :
    (indices : List Nat) → (result : List Char) → Printer (List Char)
  | [], result => pure result
  | i :: is, result => do
    let text ← child i
    appendChildren child is (result ++ text ++ ", ".toList)

/-- The call for a tensor of rank 0. -/
def elementToString (elements : ElementText) (t : Tensor) : Printer (List Char) :=
  .ofRun <| dispatchFunc DataType.code false (fun _ => true) printedTypes t.dtype
    (fun dtype => ⟨[.read t.data], .ok (elements.text dtype t.data)⟩) "Tensor::ToStringHelper()"

/-- `Tensor::ToStringHelper`, by the rank. -/
def toStringHelper (elements : ElementText) (t : Tensor) : Printer (List Char) := go t.ndim t
where
  go : (ndim : Nat) → Tensor → Printer (List Char)
    | 0, t => elementToString elements t
    | ndim + 1, t => do
      let result ← appendChildren (fun i => go ndim (t.operatorIndex i))
        (List.range (t.shape.getD 0 0)) "[".toList
      setBack (← popBack result) ']'

/-- `Tensor::ToString`. -/
def toString (elements : ElementText) (t : Tensor) : Printer (List Char) := do
  let body ← t.toStringHelper elements
  let device ← Traced.ofExcept (t.device.toString.mapError .process)
  pure ("tensor(".toList ++ body ++ ", dtype=".toList ++ (kDataTypeToDesc t.dtype).toList
    ++ ", device='".toList ++ device.toList ++ "')".toList)

/-! ## What a tensor prints as -/

/-- Brackets around the parts of every dimension. -/
def layout : (shape : List Nat) → (leaf : List Nat → List Char) → List Char
  | [], leaf => leaf []
  | d :: ds, leaf =>
    '[' :: ", ".toList.intercalate ((List.range d).map fun i => layout ds fun idx => leaf (i :: idx))
      ++ [']']

/-- The addresses that a printer has read, in order. -/
def reads (events : List PrintEvent) : List Nat :=
  events.filterMap fun
    | .read address => some address
    | .overwrite _ => none

/-- The characters that a printer has overwritten. -/
def overwritten (events : List PrintEvent) : List Char :=
  events.filterMap fun
    | .read _ => none
    | .overwrite c => some c

/-- The pointer to the element at a multi-index. -/
def pointer (t : Tensor) (idx : List Nat) : Nat := toUInt64 (t.address idx)

/-- The call returns a text with its brackets nested to the rank, in which
every element stands where its index says; it reads each once, in
row-major order, and overwrites no opening bracket. -/
def PrintsElements (elements : ElementText) (t : Tensor) : Prop :=
  ∃ events body text, t.toStringHelper elements () = (events, (), .ok body) ∧
    t.toString elements () = (events, (), .ok text) ∧
    body = layout t.shape (fun idx => elements.text t.dtype (t.pointer idx)) ∧
    Brackets.nesting '[' ']' text = some t.ndim ∧
    reads events = (List.range t.shape.prod).map (fun flat => t.pointer (unravel t.shape flat)) ∧
    '[' ∉ overwritten events

/-! ## One dimension -/

theorem appendChildren_run {child : Nat → Printer (List Char)} {events : Nat → List PrintEvent}
    {text : Nat → List Char} (hchild : ∀ i, child i () = (events i, (), .ok (text i)))
    (is : List Nat) (result : List Char) :
    appendChildren child is result ()
      = (is.flatMap events, (), .ok (result ++ (is.map text).flatMap (· ++ ", ".toList))) := by
  induction is generalizing result with
  | nil => simp [appendChildren]
  | cons i is ih =>
    rw [appendChildren, Traced.bind_of_ok (hchild i), ih]
    simp

/-- The loop does not survive its first child. -/
theorem appendChildren_error {child : Nat → Printer (List Char)} {i : Nat}
    {events : List PrintEvent} {e : PrintFailure} (hchild : child i () = (events, (), .error e))
    (is : List Nat) (result : List Char) :
    appendChildren child (i :: is) result () = (events, (), .error e) := by
  rw [appendChildren, Traced.bind_of_error hchild]

theorem close_run (s : List Char) :
    (popBack (s ++ ", ".toList) >>= fun r => setBack r ']') ()
      = ([.overwrite ','], (), .ok (s ++ [']'])) := by
  have hcomma : s ++ ", ".toList = s ++ [','] ++ [' '] := by simp
  have hpop : popBack (s ++ ", ".toList) () = ([], (), .ok (s ++ [','])) := by
    rw [hcomma, popBack, if_neg (by simp), List.dropLast_concat]
    rfl
  rw [Traced.bind_of_ok hpop, setBack, List.getLast?_concat, List.dropLast_concat]
  rfl

/-- Without a child, the opening bracket goes first, and then there is
nothing left. -/
theorem close_opening :
    (popBack "[".toList >>= fun r => setBack r ']') () = ([], (), .error .emptyString) := rfl

/-- Every child brings its separator. -/
theorem flatMap_separator {separator : List Char} {texts : List (List Char)} (hne : texts ≠ []) :
    texts.flatMap (· ++ separator) = separator.intercalate texts ++ separator := by
  induction texts with
  | nil => exact absurd rfl hne
  | cons text rest ih =>
    by_cases hrest : rest = []
    · simp [hrest]
    · rw [List.flatMap_cons, ih hrest, List.intercalate_cons_of_ne_nil hrest]
      simp

@[simp] theorem reads_read (address : Nat) : reads [.read address] = [address] := rfl

@[simp] theorem reads_overwrite (c : Char) : reads [.overwrite c] = [] := rfl

@[simp] theorem overwritten_read (address : Nat) : overwritten [.read address] = [] := rfl

@[simp] theorem overwritten_overwrite (c : Char) : overwritten [.overwrite c] = [c] := rfl

@[simp] theorem reads_append (events events' : List PrintEvent) :
    reads (events ++ events') = reads events ++ reads events' := List.filterMap_append

theorem reads_flatMap (is : List Nat) (events : Nat → List PrintEvent) :
    reads (is.flatMap events) = is.flatMap fun i => reads (events i) := by
  induction is with
  | nil => rfl
  | cons i is ih => simp [ih]

@[simp] theorem overwritten_append (events events' : List PrintEvent) :
    overwritten (events ++ events') = overwritten events ++ overwritten events' :=
  List.filterMap_append

theorem overwritten_flatMap (is : List Nat) (events : Nat → List PrintEvent) :
    overwritten (is.flatMap events) = is.flatMap fun i => overwritten (events i) := by
  induction is with
  | nil => rfl
  | cons i is ih => simp [ih]

/-! ## Pointers -/

theorem pointer_nil {t : Tensor} (hdata : t.data < 2 ^ 64) : t.pointer [] = t.data := by
  rw [pointer, address, offset, dot_nil_left, Int.mul_zero, Int.add_zero, toUInt64_eq_self hdata]

/-- An index into the first dimension is the first coordinate. -/
theorem pointer_operatorIndex {t : Tensor} (hstrides : t.strides ≠ []) (i : Nat)
    (idx : List Nat) : (t.operatorIndex i).pointer idx = t.pointer (i :: idx) := by
  obtain ⟨stride, rest, heq⟩ := List.exists_cons_of_ne_nil hstrides
  have hnonneg : ¬ (i : Int) < 0 := by omega
  rw [pointer, address, operatorIndex, toUInt64_natCast_add, pointer, address, offset, offset]
  simp only [heq, List.tail_cons, List.getD_cons_zero, dot_cons, elementSize, effectiveIndex,
    if_neg hnonneg]
  congr 1
  ring

/-! ## All dimensions -/

variable {elements : ElementText}

theorem elementToString_run {t : Tensor} (hdtype : t.dtype ∈ printedTypes) :
    elementToString elements t ()
      = ([.read t.data], (), .ok (elements.text t.dtype t.data)) := by
  rw [elementToString, dispatchFunc_of_mem _ _ _ _ hdtype rfl]
  rfl

variable (elements) in
theorem elementToString_error {t : Tensor} (hdtype : t.dtype ∉ printedTypes) :
    ∃ e, elementToString elements t () = ([], (), .error e) := by
  obtain ⟨message, habort⟩ : ∃ message, dispatchFunc DataType.code false (fun _ => true)
      printedTypes t.dtype (fun dtype => ⟨[PrintEvent.read t.data], .ok (elements.text dtype t.data)⟩)
      "Tensor::ToStringHelper()" = .abort message :=
    dispatchFunc_of_not _ _ _ _ fun h => hdtype h.1
  refine ⟨.process (.aborted message), ?_⟩
  rw [elementToString, habort]
  rfl

variable (elements) in
theorem toStringHelper_go_run {t : Tensor} {n : Nat} (hrank : t.shape.length = n)
    (hstrides : t.strides.length = n) (hextents : 0 ∉ t.shape) (hdtype : t.dtype ∈ printedTypes)
    (hdata : t.data < 2 ^ 64) :
    ∃ events, toStringHelper.go elements n t ()
        = (events, (), .ok (layout t.shape fun idx => elements.text t.dtype (t.pointer idx))) ∧
      reads events = (indices t.shape).map t.pointer ∧ '[' ∉ overwritten events := by
  induction n generalizing t with
  | zero =>
    have hshape : t.shape = [] := List.eq_nil_of_length_eq_zero hrank
    refine ⟨[.read t.data], ?_, ?_, ?_⟩
    · rw [toStringHelper.go, elementToString_run hdtype, hshape, layout, pointer_nil hdata]
    · rw [hshape, indices, List.map_singleton, pointer_nil hdata, reads_read]
    · simp
  | succ n ih =>
    obtain ⟨d, ds, hshape⟩ := List.exists_cons_of_length_eq_add_one hrank
    have hne : t.strides ≠ [] := List.ne_nil_of_length_eq_add_one hstrides
    rw [hshape, List.mem_cons, not_or] at hextents
    -- what the children do, whatever their index
    have hchildren : ∀ i : Nat, ∃ events, toStringHelper.go elements n (t.operatorIndex i) ()
        = (events, (), .ok (layout ds fun idx => elements.text t.dtype (t.pointer (i :: idx)))) ∧
      reads events = (indices ds).map (fun idx => t.pointer (i :: idx)) ∧
        '[' ∉ overwritten events := by
      intro i
      have htail : (t.operatorIndex i).shape = ds := by simp [operatorIndex, hshape]
      have hpointer : (t.operatorIndex i).pointer = fun idx => t.pointer (i :: idx) :=
        funext (pointer_operatorIndex hne i)
      have hchild := @ih (t.operatorIndex i) (by simp [operatorIndex, hrank])
        (by simp [operatorIndex, hstrides]) (by rw [htail]; exact hextents.2) hdtype
        (toUInt64_lt _)
      rw [htail, hpointer] at hchild
      exact hchild
    choose events hrun hreads hover using hchildren
    have hsome : (List.range d).map (fun i : Nat =>
        layout ds fun idx => elements.text t.dtype (t.pointer (i :: idx))) ≠ [] := by
      simpa using Ne.symm hextents.1
    refine ⟨(List.range d).flatMap events ++ [.overwrite ','], ?_, ?_, ?_⟩
    · rw [toStringHelper.go, hshape, List.getD_cons_zero,
        Traced.bind_of_ok (appendChildren_run hrun _ _), flatMap_separator hsome,
        ← List.append_assoc, close_run, layout]
      rfl
    · rw [reads_append, reads_flatMap, hshape, indices, List.map_flatMap]
      simp [hreads, Function.comp_def]
    · rw [overwritten_append, overwritten_flatMap]
      simp [hover]

variable (elements) in
/-- An extent of 0, or a type that is not dispatched over, ends the call at
the first child that leads there. -/
theorem toStringHelper_go_error {t : Tensor} {n : Nat} (hrank : t.shape.length = n)
    (h : 0 ∈ t.shape ∨ t.dtype ∉ printedTypes) :
    ∃ events e, toStringHelper.go elements n t () = (events, (), .error e) := by
  induction n generalizing t with
  | zero =>
    have hshape : t.shape = [] := List.eq_nil_of_length_eq_zero hrank
    have hdtype : t.dtype ∉ printedTypes := by simpa [hshape] using h
    obtain ⟨e, herror⟩ := elementToString_error elements hdtype
    exact ⟨[], e, herror⟩
  | succ n ih =>
    obtain ⟨d, ds, hshape⟩ := List.exists_cons_of_length_eq_add_one hrank
    rw [toStringHelper.go, hshape, List.getD_cons_zero]
    cases d with
    | zero => exact ⟨[], .emptyString, by rw [List.range_zero, appendChildren]; exact close_opening⟩
    | succ d =>
      have hchild : 0 ∈ (t.operatorIndex (0 : Nat)).shape ∨ t.dtype ∉ printedTypes := by
        simpa [operatorIndex, hshape] using h
      obtain ⟨events, e, herror⟩ := @ih (t.operatorIndex (0 : Nat)) (by simp [operatorIndex, hrank])
        hchild
      refine ⟨events, e, ?_⟩
      rw [List.range_succ_eq_map, Traced.bind_of_error (appendChildren_error herror _ _)]

/-! ## The brackets -/

theorem block_layout {shape : List Nat} (hextents : 0 ∉ shape) {leaf : List Nat → List Char}
    (hplain : ∀ idx, ∀ c ∈ leaf idx, c ≠ '[' ∧ c ≠ ']') :
    Brackets.Block '[' ']' shape.length (layout shape leaf) := by
  induction shape generalizing leaf with
  | nil => exact Brackets.block_plain (hplain [])
  | cons d ds ih =>
    rw [List.mem_cons, not_or] at hextents
    have hparts : (List.range d).map (fun i => layout ds fun idx => leaf (i :: idx)) ≠ [] := by
      simpa using Ne.symm hextents.1
    have hseparator : Brackets.Block '[' ']' 0 ", ".toList := Brackets.block_plain (by simp)
    refine (hseparator.intercalate hparts ?_).enclose (by decide)
    intro text htext
    obtain ⟨i, -, rfl⟩ := List.mem_map.mp htext
    exact ih hextents.2 fun idx => hplain (i :: idx)

theorem kDataTypeToDesc_plain (dtype : DataType) :
    ∀ c ∈ (kDataTypeToDesc dtype).toList, c ≠ '[' ∧ c ≠ ']' := by
  cases dtype <;> simp [kDataTypeToDesc]

theorem toString_device {t : Tensor} (hcpu : t.device.type = .kCpu) :
    t.device.toString = .ok ("cpu" ++ ":" ++ ToString.toString t.device.index) := by
  rw [Device.toString, hcpu]
  rfl

/-- What is around the elements has no brackets. -/
theorem block_toString {n : Nat} {body : List Char} (hbody : Brackets.Block '[' ']' n body)
    (dtype : DataType) (index : Int) :
    Brackets.Block '[' ']' n ("tensor(".toList ++ body ++ ", dtype=".toList
      ++ (kDataTypeToDesc dtype).toList ++ ", device='".toList
      ++ ("cpu" ++ ":" ++ ToString.toString index).toList ++ "')".toList) := by
  have hindex : ∀ c ∈ ("cpu" ++ ":" ++ ToString.toString index).toList, c ≠ '[' ∧ c ≠ ']' := by
    intro c hc
    rw [String.toList_append, List.mem_append] at hc
    rcases hc with hc | hc
    · exact (by simp : ∀ c ∈ ("cpu" ++ ":").toList, c ≠ '[' ∧ c ≠ ']') c hc
    · exact ⟨Decimal.ne_of_mem_toString hc (by decide) (by decide),
        Decimal.ne_of_mem_toString hc (by decide) (by decide)⟩
  have hopening : Brackets.Block '[' ']' 0 "tensor(".toList := Brackets.block_plain (by simp)
  have hdtype : Brackets.Block '[' ']' 0 ", dtype=".toList := Brackets.block_plain (by simp)
  have hdevice : Brackets.Block '[' ']' 0 ", device='".toList := Brackets.block_plain (by simp)
  have hclosing : Brackets.Block '[' ']' 0 "')".toList := Brackets.block_plain (by simp)
  have hblock := (((((hopening.append hbody).append hdtype).append
    (Brackets.block_plain (kDataTypeToDesc_plain dtype))).append hdevice).append
    (Brackets.block_plain hindex)).append hclosing
  simpa only [Nat.max_zero, Nat.zero_max] using hblock

theorem toString_eq {t : Tensor} (hcpu : t.device.type = .kCpu) {events : List PrintEvent}
    {body : List Char} (hbody : t.toStringHelper elements () = (events, (), .ok body)) :
    t.toString elements () = (events, (), .ok ("tensor(".toList ++ body ++ ", dtype=".toList
      ++ (kDataTypeToDesc t.dtype).toList ++ ", device='".toList
      ++ ("cpu" ++ ":" ++ ToString.toString t.device.index).toList ++ "')".toList)) := by
  rw [toString, Traced.bind_of_ok hbody, toString_device hcpu]
  simp [Except.mapError]

/-- A tensor on the CPU prints its elements just if it has some in every
dimension, and its type is one that the dispatch takes. -/
theorem printsElements_iff (elements : ElementText) (t : Tensor)
    (hlen : t.strides.length = t.shape.length) (hcpu : t.device.type = .kCpu)
    (hdata : t.data < 2 ^ 64) :
    t.PrintsElements elements ↔ 0 ∉ t.shape ∧ t.dtype ∈ printedTypes := by
  constructor
  · rintro ⟨events, body, text, hbody, -⟩
    by_contra hnot
    have hbad : 0 ∈ t.shape ∨ t.dtype ∉ printedTypes := by tauto
    obtain ⟨events', e, herror⟩ := toStringHelper_go_error elements rfl hbad
    rw [toStringHelper, ndim, herror] at hbody
    simp at hbody
  · rintro ⟨hextents, hdtype⟩
    obtain ⟨events, hrun, hreads, hover⟩ :=
      toStringHelper_go_run elements rfl hlen hextents hdtype hdata
    have hblock := block_layout hextents fun idx => elements.plain t.dtype (t.pointer idx)
    refine ⟨events, _, _, hrun, toString_eq hcpu hrun, rfl, ?_, ?_, hover⟩
    · exact (block_toString hblock t.dtype t.device.index).nesting_eq
    · rw [hreads, indices_eq, List.map_map]
      rfl

/-- A text for each element: its address. -/
def addressText : ElementText where
  text _ address := (ToString.toString (address : Int)).toList
  plain _ _ _ hc :=
    ⟨Decimal.ne_of_mem_toString hc (by decide) (by decide),
      Decimal.ne_of_mem_toString hc (by decide) (by decide)⟩

/-- A matrix that is read column by column, with a negative stride. -/
theorem printsElements_reversed :
    (⟨128, [2, 3], .kFloat32, {}, [-1, 2]⟩ : Tensor).PrintsElements addressText :=
  (printsElements_iff addressText ⟨128, [2, 3], .kFloat32, {}, [-1, 2]⟩ rfl rfl (by decide)).mpr
    (by decide)

/-- An empty vector has no text: `back` is called on an empty string. -/
theorem toString_empty_vector :
    (⟨128, [0], .kFloat32, {}, [1]⟩ : Tensor).toString addressText ()
        = ([], (), .error .emptyString) ∧
      ¬ (⟨128, [0], .kFloat32, {}, [1]⟩ : Tensor).PrintsElements addressText := by
  have herror : (⟨128, [0], .kFloat32, {}, [1]⟩ : Tensor).toStringHelper addressText ()
      = ([], (), .error .emptyString) := rfl
  refine ⟨Traced.bind_of_error herror, ?_⟩
  rintro ⟨events, body, text, hbody, -⟩
  rw [herror] at hbody
  simp at hbody

end Tensor

end InfiniOps
