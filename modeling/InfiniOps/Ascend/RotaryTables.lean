/-
InfiniOps.Ascend.RotaryTables — the contents of the expanded cos and sin
tables of `RotaryEmbedding` (implementations 0 and 1), and the two ways in
which a call hands rows of them to the kernel.

`UploadCosSinCache` is a list of copies of one element each
(`upload_eq_scatter`). In both styles the destinations are the elements of
a table in some order, so each byte is written once, and the sources give
every element (`cell_upload`).

A call either gathers the rows of its positions with `aclnnIndexSelect`, or
takes a buffer of the caller in which these rows are already stacked, cos
before sin. `aclnnIndexSelect` is not part of the repository: it is a
parameter with the documented behaviour of its first dimension.
-/
import InfiniOps.Ascend.DerivedTables
import InfiniOps.Lib.Scatter
import Mathlib.Data.List.Perm.Subperm

namespace InfiniOps.Ascend.DerivedTables

open Scatter

namespace RotaryEmbedding

variable (op : RotaryEmbedding)

/-- What the constructors assert of the style, and an even head. -/
structure Admitted : Prop where
  neox : op.impl = .aclnn → op.isNeoxStyle = true
  even : op.headSize = 2 * op.halfHeadDim

/-! ## The copies -/

/-- The two `memcpy`s of an element into one table. It comes from the half of
a cache row that starts at `half`. -/
def elementCopies (half p j : Nat) : List Copy :=
  [⟨p * op.headSize + (op.columns j).1, p * op.headSize + half + j⟩,
    ⟨p * op.headSize + (op.columns j).2, p * op.headSize + half + j⟩]

/-- The `memcpy`s into one table, in the order of the loops. -/
def copies (half : Nat) : List Copy :=
  (List.range op.maxSeqLen).flatMap fun p =>
    (List.range op.halfHeadDim).flatMap (op.elementCopies half p)

theorem mem_copies {half : Nat} {c : Copy} :
    c ∈ op.copies half ↔ ∃ p < op.maxSeqLen, ∃ j < op.halfHeadDim,
      c ∈ op.elementCopies half p j := by
  simp only [copies, List.mem_flatMap, List.mem_range]

def cosCopies : List Copy := op.copies 0

def sinCopies : List Copy := op.copies op.halfHeadDim

/-- The host copy of the cache. -/
def cacheHost (mem : DeviceMem) (p : DevPtr) : List UInt8 := mem.read p.addr op.tableBytes

/-- One iteration of the inner loop makes the copies of an element. -/
theorem expandElement_eq (cache : List UInt8) (p : Nat) (t : Tables) (j : Nat) :
    op.expandElement cache p t j =
      { cos := scatter 0 op.elemSz cache (op.elementCopies 0 p j) t.cos
        sin := scatter 0 op.elemSz cache (op.elementCopies op.halfHeadDim p j) t.sin } := rfl

/-- Copies of two tables, one list of iterations after the other. -/
theorem foldl_scatter {ι : Type} (cache : List UInt8) (body : Tables → ι → Tables)
    (cos sin : ι → List Copy)
    (hbody : ∀ t i, body t i =
      { cos := scatter 0 op.elemSz cache (cos i) t.cos
        sin := scatter 0 op.elemSz cache (sin i) t.sin })
    (is : List ι) (t : Tables) :
    is.foldl body t =
      { cos := scatter 0 op.elemSz cache (is.flatMap cos) t.cos
        sin := scatter 0 op.elemSz cache (is.flatMap sin) t.sin } := by
  induction is generalizing t with
  | nil => rfl
  | cons i is ih =>
    rw [List.foldl_cons, ih, hbody]
    simp only [List.flatMap_cons, scatter, List.foldl_append]

/-- The loops make the copies, in both tables. -/
theorem upload_eq_scatter (mem : DeviceMem) (p : DevPtr) :
    op.uploadCosSinCache mem p =
      { cos := scatter 0 op.elemSz (op.cacheHost mem p) op.cosCopies
          (List.replicate op.tableBytes 0)
        sin := scatter 0 op.elemSz (op.cacheHost mem p) op.sinCopies
          (List.replicate op.tableBytes 0) } := by
  refine op.foldl_scatter (op.cacheHost mem p) _ _ _ (fun t p => ?_) _ _
  exact op.foldl_scatter _ _ _ _ (fun t j => op.expandElement_eq _ p t j) _ t

/-! ## Rows and columns -/

/-- The column of a cache half that a column of a table comes from. -/
def sourceColumn (j : Nat) : Nat :=
  if op.isNeoxStyle then j % op.halfHeadDim else j / 2

variable {op} (h : op.Admitted)
include h

theorem columns_eq (j : Nat) : op.columns j =
    if op.isNeoxStyle then (j, op.halfHeadDim + j) else (2 * j, 2 * j + 1) := by
  unfold columns
  cases himpl : op.impl with
  | aclnn => rw [h.neox himpl]; rfl
  | atb => rfl

/-- Both columns of an element lie in the row and come from it. -/
theorem columns_lt {j : Nat} (hj : j < op.halfHeadDim) :
    ((op.columns j).1 < op.headSize ∧ op.sourceColumn (op.columns j).1 = j) ∧
      (op.columns j).2 < op.headSize ∧ op.sourceColumn (op.columns j).2 = j := by
  have heven := h.even
  rw [columns_eq h]
  unfold sourceColumn
  split
  · refine ⟨⟨by omega, Nat.mod_eq_of_lt hj⟩, by omega, ?_⟩
    rw [Nat.add_mod_left, Nat.mod_eq_of_lt hj]
  · exact ⟨⟨by omega, by omega⟩, by omega, by omega⟩

/-- Every column of a row is one of the two of its source. -/
theorem columns_sourceColumn {c : Nat} (hc : c < op.headSize) :
    op.sourceColumn c < op.halfHeadDim ∧
      ((op.columns (op.sourceColumn c)).1 = c ∨ (op.columns (op.sourceColumn c)).2 = c) := by
  have heven := h.even
  rw [columns_eq h]
  unfold sourceColumn
  split
  · by_cases hlow : c < op.halfHeadDim
    · rw [Nat.mod_eq_of_lt hlow]
      exact ⟨hlow, .inl rfl⟩
    · have hmod : c % op.halfHeadDim = c - op.halfHeadDim := by
        rw [Nat.mod_eq_sub_mod (by omega), Nat.mod_eq_of_lt (by omega)]
      rw [hmod]
      exact ⟨by omega, .inr (by simp only; omega)⟩
  · simp only
    omega

/-- The copy into an element of a row. -/
theorem copy_mem (half : Nat) {p j : Nat} (hp : p < op.maxSeqLen) (hj : j < op.headSize) :
    ⟨p * op.headSize + j, p * op.headSize + half + op.sourceColumn j⟩ ∈ op.copies half := by
  obtain ⟨hlt, hcolumn⟩ := columns_sourceColumn h hj
  refine op.mem_copies.mpr ⟨p, hp, op.sourceColumn j, hlt, ?_⟩
  obtain heq | heq := hcolumn <;> simp [elementCopies, heq]

/-- Where a copy goes, and where it comes from. -/
theorem copy_bounds {half : Nat} {c : Copy} (hc : c ∈ op.copies half) :
    ∃ p < op.maxSeqLen, ∃ j < op.headSize,
      c = ⟨p * op.headSize + j, p * op.headSize + half + op.sourceColumn j⟩ := by
  obtain ⟨p, hp, j, hj, hc⟩ := op.mem_copies.mp hc
  obtain ⟨⟨hfront, hfrontSource⟩, hback, hbackSource⟩ := columns_lt h hj
  simp only [elementCopies, List.mem_cons, List.not_mem_nil, or_false] at hc
  obtain rfl | rfl := hc
  · exact ⟨p, hp, _, hfront, by rw [hfrontSource]⟩
  · exact ⟨p, hp, _, hback, by rw [hbackSource]⟩

/-- The destinations are the elements of a table in some order. -/
theorem dst_perm (half : Nat) :
    ((op.copies half).map Copy.dst).Perm (List.range (op.maxSeqLen * op.headSize)) := by
  refine (List.Subperm.perm_of_length_le (List.nodup_range.subperm ?_) ?_).symm
  · intro e he
    have hlt := List.mem_range.mp he
    have hpos : 0 < op.headSize := Nat.pos_of_mul_pos_left (Nat.zero_lt_of_lt hlt)
    have hrow : e / op.headSize < op.maxSeqLen := (Nat.div_lt_iff_lt_mul hpos).mpr hlt
    have hmem := copy_mem h half hrow (Nat.mod_lt e hpos)
    rw [Nat.div_add_mod'] at hmem
    exact List.mem_map_of_mem hmem
  · have hlength : (op.copies half).length = op.maxSeqLen * (op.halfHeadDim * 2) := by
      simp [copies, elementCopies, List.length_flatMap]
    rw [List.length_map, List.length_range, hlength, h.even, Nat.mul_comm 2]

/-- An element of a filled table is the element of the cache it comes from. -/
theorem cell_scatter_copies {half : Nat} (hhalf : half ≤ op.halfHeadDim) {cache : List UInt8}
    (hcache : cache.length = op.tableBytes) {p j : Nat} (hp : p < op.maxSeqLen)
    (hj : j < op.headSize) :
    cell op.elemSz (scatter 0 op.elemSz cache (op.copies half) (List.replicate op.tableBytes 0))
        (p * op.headSize + j)
      = cell op.elemSz cache (p * op.headSize + half + op.sourceColumn j) := by
  have hin {q l : Nat} (hq : q < op.maxSeqLen) (hl : l < op.headSize) :
      (q * op.headSize + l + 1) * op.elemSz ≤ op.tableBytes := by
    refine Nat.mul_le_mul_right op.elemSz ?_
    have hrow : (q + 1) * op.headSize ≤ op.maxSeqLen * op.headSize :=
      Nat.mul_le_mul_right op.headSize hq
    rw [Nat.succ_mul] at hrow
    omega
  refine cell_scatter (by simpa using hin hp hj) ?_ (copy_mem h half hp hj) ?_
  · intro c hc
    obtain ⟨q, hq, l, hl, rfl⟩ := copy_bounds h hc
    have hsource := (columns_sourceColumn h hl).1
    have heven := h.even
    have hcolumn := hin (l := half + op.sourceColumn l) hq (by omega)
    rw [← Nat.add_assoc] at hcolumn
    exact hcache ▸ hcolumn
  · intro c hc hdst
    obtain ⟨q, hq, l, hl, rfl⟩ := copy_bounds h hc
    obtain ⟨rfl, rfl⟩ := index_inj hl hj hdst
    rfl

omit h

theorem upload_length (mem : DeviceMem) (p : DevPtr) :
    (op.uploadCosSinCache mem p).cos.length = op.tableBytes ∧
      (op.uploadCosSinCache mem p).sin.length = op.tableBytes := by
  rw [upload_eq_scatter]
  simp

/-! ## What the tables have to hold -/

variable (op)

/-- Element `[p][j]` of a table or of the cache. -/
def element (t : List UInt8) (p j : Nat) : List UInt8 :=
  cell op.elemSz t (p * op.headSize + j)

/-- The tables hold the cos and the sin of the cache, element by element. -/
def Expands (cache : List UInt8) (t : Tables) : Prop :=
  ∀ p < op.maxSeqLen, ∀ j < op.headSize,
    op.element t.cos p j = op.element cache p (op.sourceColumn j) ∧
      op.element t.sin p j = op.element cache p (op.halfHeadDim + op.sourceColumn j)

/-- The tables come from copies that write every byte of them once. -/
def WrittenOnce (cache : List UInt8) (t : Tables) : Prop :=
  t.cos = scatter 0 op.elemSz cache op.cosCopies (List.replicate op.tableBytes 0) ∧
    t.sin = scatter 0 op.elemSz cache op.sinCopies (List.replicate op.tableBytes 0) ∧
    ∀ i < op.tableBytes, op.cosCopies.countP (fun c => c.Covers op.elemSz i) = 1 ∧
      op.sinCopies.countP (fun c => c.Covers op.elemSz i) = 1

/-! ## The rows of a call -/

def rowBytes : Nat := op.headSize * op.elemSz

/-- `aclnnIndexSelect` of a two-dimensional tensor along its first dimension:
the bytes of a row, the table and the index. -/
abbrev AclnnIndexSelect := Nat → List UInt8 → List Nat → List UInt8

/-- The rows of the index, one behind the other. -/
def IndexSelects (select : AclnnIndexSelect) : Prop :=
  ∀ (rowBytes : Nat) (table : List UInt8) (index : List Nat),
    (∀ p ∈ index, (p + 1) * rowBytes ≤ table.length) →
      select rowBytes table index = gather rowBytes table index

/-- The cos and the sin that a call gathers for its positions. -/
def gathered (select : AclnnIndexSelect) (t : Tables) (positions : List Nat) : Tables where
  cos := select op.rowBytes t.cos positions
  sin := select op.rowBytes t.sin positions

/-- The cos and the sin that a call with `pre_gathered` takes from the buffer
at `base`. -/
def preGathered (mem : DeviceMem) (base numTokens : Nat) : Tables where
  cos := mem.read base (numTokens * op.headSize * op.elemSz)
  sin := mem.read (base + numTokens * op.headSize * op.elemSz)
    (numTokens * op.headSize * op.elemSz)

/-- The `[2 * T, head_size]` buffer: the rows of cos, then those of sin. -/
def Tables.stacked (t : Tables) : List UInt8 := t.cos ++ t.sin

/-- The rows of `positions`, gathered and stacked, are the elements of the
cache at these positions, and the buffer whose halves the pre-gathered path
hands over. -/
def StacksRows (select : AclnnIndexSelect) (cache : List UInt8) (t : Tables)
    (positions : List Nat) : Prop :=
  let stacked := (op.gathered select t positions).stacked
  stacked.length = 2 * positions.length * op.rowBytes ∧
    (∀ (r : Nat) (hr : r < positions.length), ∀ j < op.headSize,
      op.element stacked r j = op.element cache positions[r] (op.sourceColumn j) ∧
        op.element stacked (positions.length + r) j
          = op.element cache positions[r] (op.halfHeadDim + op.sourceColumn j)) ∧
    ∀ (mem : DeviceMem) (base : Nat),
      op.preGathered mem base positions.length = op.gathered select t positions ↔
        mem.read base stacked.length = stacked

/-! ## The results -/

section Upload

variable {op} (h : op.Admitted) (mem : DeviceMem) (ptr : DevPtr)
include h

theorem expands_upload : op.Expands (op.cacheHost mem ptr) (op.uploadCosSinCache mem ptr) := by
  have hcache : (op.cacheHost mem ptr).length = op.tableBytes := by
    simp [cacheHost, DeviceMem.read]
  intro p hp j hj
  rw [upload_eq_scatter]
  unfold element
  constructor
  · exact cell_scatter_copies h (Nat.zero_le _) hcache hp hj
  · have hsin := cell_scatter_copies h (Nat.le_refl _) hcache hp hj
    rwa [Nat.add_assoc] at hsin

theorem writtenOnce_upload :
    op.WrittenOnce (op.cacheHost mem ptr) (op.uploadCosSinCache mem ptr) := by
  rw [upload_eq_scatter]
  refine ⟨rfl, rfl, ?_⟩
  intro i hi
  exact ⟨writes_eq_one (dst_perm h 0) hi, writes_eq_one (dst_perm h op.halfHeadDim) hi⟩

end Upload

/-- The two implementations make the same copies in neox style. -/
theorem neox_upload_eq (hneox : op.isNeoxStyle = true) (mem : DeviceMem) (ptr : DevPtr) :
    { op with impl := .aclnn }.uploadCosSinCache mem ptr
      = { op with impl := .atb }.uploadCosSinCache mem ptr := by
  have helement (half p : Nat) : { op with impl := .aclnn }.elementCopies half p
      = { op with impl := .atb }.elementCopies half p := by
    funext j
    simp [elementCopies, columns, halfHeadDim, hneox]
  have hcopies (half : Nat) :
      { op with impl := .aclnn }.copies half = { op with impl := .atb }.copies half := by
    simp only [copies, helement]
    rfl
  rw [upload_eq_scatter, upload_eq_scatter, cosCopies, cosCopies, sinCopies, sinCopies]
  simp only [hcopies]
  rfl

theorem read_add (mem : DeviceMem) (base m n : Nat) :
    mem.read base (m + n) = mem.read base m ++ mem.read (base + m) n := by
  simp only [DeviceMem.read, List.range_add, List.map_append, List.map_map, Nat.add_assoc]
  rfl

/-- The halves that the pre-gathered path hands over are those of the buffer. -/
theorem preGathered_eq_iff {t : Tables} {numTokens : Nat}
    (hcos : t.cos.length = numTokens * op.rowBytes) (hsin : t.sin.length = numTokens * op.rowBytes)
    (mem : DeviceMem) (base : Nat) :
    op.preGathered mem base numTokens = t ↔ mem.read base t.stacked.length = t.stacked := by
  have hlength : t.stacked.length = numTokens * op.rowBytes + numTokens * op.rowBytes := by
    rw [Tables.stacked, List.length_append, hcos, hsin]
  have hread : (mem.read base (numTokens * op.rowBytes)).length = t.cos.length := by
    simp [DeviceMem.read, hcos]
  have hrow : numTokens * op.headSize * op.elemSz = numTokens * op.rowBytes :=
    Nat.mul_assoc _ _ _
  rw [hlength, read_add, Tables.stacked, preGathered, hrow]
  constructor
  · rintro rfl
    rfl
  · intro h
    obtain ⟨hfirst, hsecond⟩ := List.append_inj h hread
    rw [hfirst, hsecond]

section Gather

variable {op} {table : List UInt8} (hlength : table.length = op.tableBytes) {positions : List Nat}
  (hpositions : ∀ p ∈ positions, p < op.maxSeqLen)
include hlength hpositions

theorem rows_in_table : ∀ p ∈ positions, (p + 1) * op.rowBytes ≤ table.length := by
  intro p hp
  rw [hlength, tableBytes, Nat.mul_assoc]
  exact Nat.mul_le_mul_right op.rowBytes (hpositions p hp)

theorem element_gather {r j : Nat} (hr : r < positions.length) (hj : j < op.headSize) :
    op.element (gather op.rowBytes table positions) r j = op.element table positions[r] j := by
  unfold element
  rw [← cell_cell hj, ← cell_cell hj]
  exact congrArg (cell op.elemSz · j) (cell_gather (rows_in_table hlength hpositions) hr)

end Gather

theorem stacksRows_upload (h : op.Admitted) {select : AclnnIndexSelect}
    (hselect : IndexSelects select) (mem : DeviceMem) (ptr : DevPtr) {positions : List Nat}
    (hpositions : ∀ p ∈ positions, p < op.maxSeqLen) :
    op.StacksRows select (op.cacheHost mem ptr) (op.uploadCosSinCache mem ptr) positions := by
  obtain ⟨hcosLength, hsinLength⟩ := op.upload_length mem ptr
  have hexpands := expands_upload h mem ptr
  generalize op.uploadCosSinCache mem ptr = t at hcosLength hsinLength hexpands ⊢
  have hcosRows := rows_in_table hcosLength hpositions
  have hsinRows := rows_in_table hsinLength hpositions
  have hgathered : op.gathered select t positions =
      { cos := gather op.rowBytes t.cos positions, sin := gather op.rowBytes t.sin positions } := by
    rw [gathered, hselect _ _ _ hcosRows, hselect _ _ _ hsinRows]
  have hcos := length_gather hcosRows
  have hsin := length_gather hsinRows
  have hcells : (gather op.rowBytes t.cos positions).length
      = positions.length * op.headSize * op.elemSz := hcos.trans (Nat.mul_assoc _ _ _).symm
  rw [StacksRows, hgathered]
  refine ⟨?_, ?_, fun mem' base => op.preGathered_eq_iff hcos hsin mem' base⟩
  · rw [Tables.stacked, List.length_append, hcos, hsin, Nat.mul_assoc, Nat.two_mul]
  · intro r hr j hj
    obtain ⟨hcosEntry, hsinEntry⟩ := hexpands _ (hpositions _ (List.getElem_mem hr)) j hj
    have hin : r * op.headSize + j < positions.length * op.headSize := by
      have hle : (r + 1) * op.headSize ≤ positions.length * op.headSize :=
        Nat.mul_le_mul_right op.headSize hr
      rw [Nat.succ_mul] at hle
      omega
    constructor
    · rw [← hcosEntry, ← element_gather hcosLength hpositions hr hj]
      exact cell_append_left hcells hin
    · rw [← hsinEntry, ← element_gather hsinLength hpositions hr hj]
      unfold element
      rw [Nat.add_mul, Nat.add_assoc]
      exact cell_append_right hcells

/-- The expanded tables hold what the cache holds, from copies that write each
byte once; they do not depend on the implementation in neox style; and the
rows that a call gathers are the buffer that it would take pre-gathered. -/
theorem rotary_tables_correct (h : op.Admitted) {select : AclnnIndexSelect}
    (hselect : IndexSelects select) (mem : DeviceMem) (ptr : DevPtr) :
    op.Expands (op.cacheHost mem ptr) (op.uploadCosSinCache mem ptr) ∧
    op.WrittenOnce (op.cacheHost mem ptr) (op.uploadCosSinCache mem ptr) ∧
    (op.isNeoxStyle = true →
      { op with impl := .aclnn }.uploadCosSinCache mem ptr
        = { op with impl := .atb }.uploadCosSinCache mem ptr) ∧
    ∀ positions : List Nat, (∀ p ∈ positions, p < op.maxSeqLen) →
      op.StacksRows select (op.cacheHost mem ptr) (op.uploadCosSinCache mem ptr) positions := by
  refine ⟨expands_upload h mem ptr, writtenOnce_upload h mem ptr,
    fun hneox => op.neox_upload_eq hneox mem ptr, ?_⟩
  intro positions hpositions
  exact op.stacksRows_upload h hselect mem ptr hpositions

/-- Rows of four 16-bit elements in interleaved style, gathered for three
tokens. -/
theorem rotary_tables_correct_interleaved :
    StacksRows ⟨.atb, 2, 4, 2, false⟩ gather
      (cacheHost ⟨.atb, 2, 4, 2, false⟩ UInt8.ofNat ⟨16, by decide⟩)
      (uploadCosSinCache ⟨.atb, 2, 4, 2, false⟩ UInt8.ofNat ⟨16, by decide⟩) [1, 0, 1] := by
  have hselect : IndexSelects gather := fun _ _ _ _ => rfl
  have hadmitted : Admitted ⟨.atb, 2, 4, 2, false⟩ := ⟨fun h => (nomatch h), rfl⟩
  exact (rotary_tables_correct ⟨.atb, 2, 4, 2, false⟩ hadmitted hselect UInt8.ofNat
    ⟨16, by decide⟩).2.2.2 [1, 0, 1] (by decide)

end RotaryEmbedding

end InfiniOps.Ascend.DerivedTables
