/-
InfiniOps.Core.OperatorMake — which implementation `Operator<Key>::Make`
constructs, and which one a `Call` runs (`src/operator.h`).

The build fixes the enabled devices and the specializations
`Operator<Key, kDev, N>`. `Make` dispatches over the devices by its tensor,
and over the device's implementations by its configuration. `Call` makes
an operator where its cache has none, and runs the one of the cache.

* `make_eq_ok_iff` — `Make` gives what it is asked for, where there is
  such a specialization.
* `call_runs_selected` — so does `Call`, in every run, as far as the keys
  of the cache tell calls apart.
-/
import InfiniOps.Core.CacheKeyTheorems
import InfiniOps.Core.Dispatcher
import InfiniOps.Core.OperatorCache

namespace InfiniOps.OperatorCache

open MemoTables

/-! ## Make -/

/-- `Operator<Key, kDev, N>`. -/
structure Specialization where
  device : DeviceType
  implementation : SizeT
  deriving DecidableEq

/-- What the build fixes for a `Key`. -/
structure Registry where
  /-- `DeviceEnabled<kDev>`. -/
  deviceEnabled : DeviceType → Bool
  /-- `std::is_base_of_v<Key, Operator<Key, kDev, N>>`. -/
  specialized : DeviceType → Nat → Bool
  /-- `std::is_constructible_v<Operator<Key, kDev, N>, const Tensor&, Args...>`. -/
  constructible : List ArgTy → Specialization → Bool

/-- `AllDeviceTypes`. -/
def allDeviceTypes : List DeviceType :=
  [.kCpu, .kNvidia, .kCambricon, .kAscend, .kMetax, .kMoore, .kIluvatar, .kKunlun, .kHygon, .kQy]

def kMaxImplementations : Nat := 16

namespace Registry

variable (r : Registry)

/-- `ActiveDevices<Key>`. -/
def activeDevices : List DeviceType := filter r.deviceEnabled [] allDeviceTypes

/-- `ActiveImplementations<Key, kDev>`. -/
def activeImplementations (device : DeviceType) : List SizeT :=
  (List.range kMaxImplementations).flatMap fun n =>
    if r.specialized device n then [BitVec.ofNat 64 n] else []

/-- `Operator::active_implementation_indices`. -/
def activeImplementationIndices (device : DeviceType) : Run DeviceType (List SizeT) :=
  dispatchFunc DeviceType.code true (fun _ => true) r.activeDevices device
    (fun device => ⟨[device], .ok (r.activeImplementations device)⟩)
    "Operator::active_implementation_indices"

/-- `Operator::Make`, for arguments of some types. -/
def make (types : List ArgTy) (config : Config) (tensor : Tensor) :
    Run Specialization Specialization :=
  dispatchFunc DeviceType.code true (fun _ => true) r.activeDevices tensor.device.type
    (fun device =>
      dispatchFunc (fun index : SizeT => (index.toNat : Int)) true (fun _ => true)
        (r.activeImplementations device) config.implementationIndex
        (fun index => ⟨[⟨device, index⟩], do
          assertion (r.constructible types ⟨device, index⟩)
            "operator is not implemented for this device and implementation index"
          return ⟨device, index⟩⟩)
        "Operator::Make(implementation_index)")
    "Operator::Make"

/-- There is such an operator for arguments of these types. -/
structure Available (types : List ArgTy) (op : Specialization) : Prop where
  device : op.device ∈ r.activeDevices
  implementation : op.implementation ∈ r.activeImplementations op.device
  constructible : r.constructible types op

theorem mem_activeImplementations {device : DeviceType} {index : SizeT} :
    index ∈ r.activeImplementations device
      ↔ ∃ n < kMaxImplementations, r.specialized device n ∧ index = BitVec.ofNat 64 n := by
  simp only [activeImplementations, List.mem_flatMap, List.mem_range]
  refine exists_congr fun n => and_congr_right fun _ => ?_
  split
  · rename_i h
    simp [h]
  · rename_i h
    simp [h]

variable {r}

/-- `Make` constructs what its tensor and its configuration ask for. -/
theorem make_eq_ok_iff {types : List ArgTy} {config : Config} {tensor : Tensor}
    {op : Specialization} :
    (r.make types config tensor).ending = .ok op
      ↔ op = ⟨tensor.device.type, config.implementationIndex⟩ ∧ r.Available types op := by
  rw [make]
  by_cases hdevice : tensor.device.type ∈ r.activeDevices
  · rw [dispatchFunc_of_mem _ _ _ _ hdevice rfl]
    by_cases hindex : config.implementationIndex ∈ r.activeImplementations tensor.device.type
    · rw [dispatchFunc_of_mem _ _ _ _ hindex rfl]
      show (assertion _ _ >>= fun _ => Except.ok _) = Except.ok op ↔ _
      rw [bind_assertion_eq_ok]
      constructor
      · rintro ⟨hmade, heq⟩
        obtain rfl := Except.ok.inj heq
        exact ⟨rfl, hdevice, hindex, hmade⟩
      · rintro ⟨rfl, havailable⟩
        exact ⟨havailable.constructible, rfl⟩
    · obtain ⟨message, habort⟩ := dispatchFunc_of_not _ _ _ _ fun h => hindex h.1
      rw [habort]
      constructor
      · intro h
        cases h
      · rintro ⟨rfl, havailable⟩
        exact absurd havailable.implementation hindex
  · obtain ⟨message, habort⟩ := dispatchFunc_of_not _ _ _ _ fun h => hdevice h.1
    rw [habort]
    constructor
    · intro h
      cases h
    · rintro ⟨rfl, havailable⟩
      exact absurd havailable.device hdevice

/-- The indices of an enabled device are those of its specializations. -/
theorem mem_activeImplementationIndices {device : DeviceType} (h : device ∈ r.activeDevices) :
    ∃ indices, (r.activeImplementationIndices device).ending = .ok indices ∧
      ∀ index, index ∈ indices
        ↔ ∃ n < kMaxImplementations, r.specialized device n ∧ index = BitVec.ofNat 64 n := by
  refine ⟨r.activeImplementations device, ?_, fun _ => mem_activeImplementations r⟩
  rw [activeImplementationIndices, dispatchFunc_of_mem _ _ _ _ h rfl]

end Registry

/-! ## Call -/

/-- The tensor that `Make` is called with. -/
def firstTensor {σ : List ArgTy} : Args (.tensor :: σ) → Tensor
  | .cons t _ => t

/-- The arguments of an instantiation: a tensor, then those of its types. -/
abbrev callTypes {Instance : Type} (types : Instance → List ArgTy) (inst : Instance) : List ArgTy :=
  .tensor :: types inst

/-- The caches, and what the operators of all numbers are. -/
structure Operators (Thread Instance : Type) where
  state : State Thread Instance := .start
  made : Nat → Option Specialization := fun _ => none

section Call

variable {Thread Instance : Type} [DecidableEq Thread] [DecidableEq Instance]
  (types : Instance → List ArgTy) (r : Registry) (H : StdHash)

/-- What is asked of an operator. -/
inductive Request (Thread : Type) (types : Instance → List ArgTy) where
  | clearCache
  | call (thread : Thread) (inst : Instance) (config : Config) (args : Args (callTypes types inst))

namespace Operators

variable (s : Operators Thread Instance)

section

variable (thread : Thread) (inst : Instance) (config : Config) (args : Args (callTypes types inst))

/-- How `Make` would end. -/
def makes : Except Failure Specialization :=
  (r.make (callTypes types inst) config (firstTensor args)).ending

/-- `Operator::Call`, up to the operator's own call. -/
def call : Operators Thread Instance where
  state := s.state.call (callTypes types) H thread inst config args
    (makes types r inst config args).toBool
  made :=
    if (s.state.call (callTypes types) H thread inst config args
        (makes types r inst config args).toBool).nextOperator = s.state.nextOperator then s.made
    else Function.update s.made s.state.nextOperator (makes types r inst config args).toOption

/-- The operator that `Call` executes: the one of its last event, if that is
the execution of an operator for this thread, instantiation and key. -/
def runs : Option Specialization :=
  let after := s.call types r H thread inst config args
  match (after.state.log.drop s.state.log.length).getLast? with
  | some (.used owner key op) =>
    if owner = (thread, inst) ∧ key = CacheKey.build H config args then after.made op else none
  | _ => none

end

def step : Request Thread types → Operators Thread Instance
  | .clearCache => { s with state := s.state.clearCache }
  | .call thread inst config args => s.call types r H thread inst config args

end Operators

def runRequests (requests : List (Request Thread types)) : Operators Thread Instance :=
  requests.foldl (fun s request => s.step types r H request) {}

/-- What a call may be served by: an operator of the device of its first
tensor, and of its implementation index where only tensors are hashed. -/
structure Serves (inst : Instance) (config : Config) (args : Args (callTypes types inst))
    (op : Specialization) : Prop where
  device : op.device = (firstTensor args).device.type
  available : r.Available (callTypes types inst) op
  implementation : (∀ τ ∈ types inst, τ = .tensor ∨ τ = .tensors) →
    op.implementation = config.implementationIndex

/-! ### What a call does to the caches -/

variable {types r H}

/-- The three ways of a call, by what its cache has for its key. -/
theorem State.call_cases (s : State Thread Instance) (thread : Thread) (inst : Instance)
    (config : Config) (args : Args (callTypes types inst)) (constructs : Bool) :
    ∃ mine : LocalCache, (∀ entry ∈ mine.cache, entry ∈ (s.caches (thread, inst)).cache) ∧
      ((∃ op, find CacheKey.SameEntry mine.cache (CacheKey.build H config args) = some op ∧
        s.call (callTypes types) H thread inst config args constructs =
          { s with
            caches := Function.update s.caches (thread, inst) mine
            log := s.log ++ [.used (thread, inst) (CacheKey.build H config args) op] }) ∨
      (constructs = true ∧
        s.call (callTypes types) H thread inst config args constructs =
          { s with
            caches := Function.update s.caches (thread, inst)
              { mine with
                cache := mine.cache ++ [(CacheKey.build H config args, s.nextOperator)] }
            nextOperator := s.nextOperator + 1
            log := s.log ++ [.made (thread, inst) (CacheKey.build H config args) s.nextOperator,
              .used (thread, inst) (CacheKey.build H config args) s.nextOperator] }) ∨
      (constructs = false ∧
        s.call (callTypes types) H thread inst config args constructs =
          { s with caches := Function.update s.caches (thread, inst) mine })) := by
  refine ⟨if (s.caches (thread, inst)).generation ≠ s.cacheGeneration then
    ⟨[], s.cacheGeneration⟩ else s.caches (thread, inst), fun entry hentry => ?_, ?_⟩
  · split at hentry
    · cases hentry
    · exact hentry
  · rw [State.call]
    generalize (if (s.caches (thread, inst)).generation ≠ s.cacheGeneration then
      ⟨[], s.cacheGeneration⟩ else s.caches (thread, inst)) = mine
    cases find CacheKey.SameEntry mine.cache (CacheKey.build H config args) with
    | some op => exact .inl ⟨op, rfl, rfl⟩
    | none =>
      cases constructs with
      | true => exact .inr (.inl ⟨rfl, rfl⟩)
      | false => exact .inr (.inr ⟨rfl, rfl⟩)

/-- The key that an entry was found for is the same as its own. -/
theorem exists_of_find {table : List (CacheKey × Nat)} {key : CacheKey} {op : Nat}
    (h : find CacheKey.SameEntry table key = some op) :
    ∃ k, (k, op) ∈ table ∧ CacheKey.SameEntry k key := by
  obtain ⟨⟨k, v⟩, hentry, rfl⟩ := Option.map_eq_some_iff.mp h
  exact ⟨k, List.mem_of_find?_eq_some hentry, by simpa using List.find?_some hentry⟩

/-- Tensors alone leave nothing to the scalar hash. -/
theorem scalarHashes_tensors {σ : List ArgTy} (h : ∀ τ ∈ σ, τ = .tensor ∨ τ = .tensors)
    (args : Args σ) : args.scalarHashes H = [] := by
  induction args with
  | nil => rfl
  | @cons τ σ v rest ih =>
    have hrest := ih fun τ' hτ' => h τ' (List.mem_cons_of_mem τ hτ')
    rcases h τ List.mem_cons_self with rfl | rfl
    · rw [Args.scalarHashes, hrest]
    · rw [Args.scalarHashes, hrest]

omit [DecidableEq Instance] in
/-- Calls that share an entry are for one device, and without other hashed
arguments for one implementation. -/
theorem selects_of_sameEntry {inst : Instance} {config config' : Config}
    {args args' : Args (callTypes types inst)}
    (h : CacheKey.SameEntry (CacheKey.build H config' args') (CacheKey.build H config args)) :
    (firstTensor args').device = (firstTensor args).device ∧
      ((∀ τ ∈ types inst, τ = .tensor ∨ τ = .tensors) →
        config'.implementationIndex = config.implementationIndex) := by
  obtain ⟨htensors, -, -, -, hlast, -⟩ := CacheKey.sameEntry_build H config' config args' args h
  constructor
  · cases args' with
    | cons t' rest' =>
      cases args with
      | cons t rest =>
        rw [Args.tensors, Args.tensors, List.forall₂_cons] at htensors
        exact htensors.1.2.2.1
  · intro hσ
    have hall : ∀ τ ∈ callTypes types inst, τ = .tensor ∨ τ = .tensors := fun τ hτ =>
      (List.mem_cons.mp hτ).elim .inl (hσ τ)
    refine hlast [] _ _ ?_ ?_
    · rw [scalarHashes_tensors hall]
      rfl
    · rw [scalarHashes_tensors hall]
      rfl

/-- The same for the operators, and which one runs. -/
theorem Operators.call_cases (s : Operators Thread Instance) (thread : Thread) (inst : Instance)
    (config : Config) (args : Args (callTypes types inst)) :
    ∃ mine : LocalCache, (∀ entry ∈ mine.cache, entry ∈ (s.state.caches (thread, inst)).cache) ∧
      ((∃ op, find CacheKey.SameEntry mine.cache (CacheKey.build H config args) = some op ∧
        s.call types r H thread inst config args =
          ⟨{ s.state with
              caches := Function.update s.state.caches (thread, inst) mine
              log := s.state.log ++ [.used (thread, inst) (CacheKey.build H config args) op] },
            s.made⟩ ∧
        s.runs types r H thread inst config args = s.made op) ∨
      (∃ x, makes types r inst config args = .ok x ∧
        s.call types r H thread inst config args =
          ⟨{ s.state with
              caches := Function.update s.state.caches (thread, inst)
                { mine with
                  cache := mine.cache ++ [(CacheKey.build H config args, s.state.nextOperator)] }
              nextOperator := s.state.nextOperator + 1
              log := s.state.log ++
                [.made (thread, inst) (CacheKey.build H config args) s.state.nextOperator,
                  .used (thread, inst) (CacheKey.build H config args) s.state.nextOperator] },
            Function.update s.made s.state.nextOperator (some x)⟩ ∧
        s.runs types r H thread inst config args = some x) ∨
      (∃ e, makes types r inst config args = .error e ∧
        s.call types r H thread inst config args =
          ⟨{ s.state with caches := Function.update s.state.caches (thread, inst) mine }, s.made⟩ ∧
        s.runs types r H thread inst config args = none)) := by
  obtain ⟨mine, hmine, hcases⟩ := State.call_cases s.state thread inst config args
    (H := H) (makes types r inst config args).toBool
  refine ⟨mine, hmine, ?_⟩
  rcases hcases with ⟨op, hfind, hcall⟩ | ⟨hmakes, hcall⟩ | ⟨hmakes, hcall⟩
  · refine .inl ⟨op, hfind, ?_, ?_⟩
    · simp only [Operators.call, hcall, if_true]
    · simp only [Operators.runs, Operators.call, hcall, if_true, List.drop_left,
        List.getLast?_singleton, and_self]
  · cases hending : makes types r inst config args with
    | error e =>
      rw [hending] at hmakes
      cases hmakes
    | ok x =>
      have hnext : s.state.nextOperator + 1 ≠ s.state.nextOperator := Nat.succ_ne_self _
      rw [hending] at hcall
      refine .inr (.inl ⟨x, rfl, ?_, ?_⟩)
      · simp only [Operators.call, hcall, if_neg hnext, hending, Except.toOption]
      · simp only [Operators.runs, Operators.call, hcall, if_neg hnext, hending, Except.toOption,
          List.drop_left, List.getLast?_cons_cons, List.getLast?_singleton, Function.update_self,
          and_self, if_true]
  · cases hending : makes types r inst config args with
    | ok x =>
      rw [hending] at hmakes
      cases hmakes
    | error e =>
      rw [hending] at hcall
      refine .inr (.inr ⟨e, rfl, ?_, ?_⟩)
      · simp only [Operators.call, hending, hcall, if_true]
      · simp only [Operators.runs, Operators.call, hcall, hending, List.drop_length,
          List.getLast?_nil]

/-! ### Every run -/

/-- Each entry is of an operator that was made for its key. -/
structure Sound (types : Instance → List ArgTy) (r : Registry) (H : StdHash)
    (s : Operators Thread Instance) : Prop where
  entries : ∀ owner, ∀ entry ∈ (s.state.caches owner).cache,
    entry.2 < s.state.nextOperator ∧
      ∃ config, ∃ args : Args (callTypes types owner.2), ∃ op,
        entry.1 = CacheKey.build H config args ∧
        Operators.makes types r owner.2 config args = .ok op ∧ s.made entry.2 = some op

omit [DecidableEq Thread] [DecidableEq Instance] in
theorem sound_start : Sound types r H ({} : Operators Thread Instance) :=
  ⟨fun _ _ h => nomatch h⟩

/-- A call changes the entries of one cache, and takes them from there. -/
theorem Sound.call {s : Operators Thread Instance} (h : Sound types r H s) (thread : Thread)
    (inst : Instance) (config : Config) (args : Args (callTypes types inst)) :
    Sound types r H (s.call types r H thread inst config args) := by
  obtain ⟨mine, hmine, hcases⟩ := s.call_cases (r := r) (H := H) thread inst config args
  -- An entry that was there before.
  have hold : ∀ owner, ∀ entry ∈ (Function.update s.state.caches (thread, inst) mine owner).cache,
      entry ∈ (s.state.caches owner).cache := by
    intro owner entry hentry
    by_cases heq : owner = (thread, inst)
    · subst heq
      rw [Function.update_self] at hentry
      exact hmine entry hentry
    · rwa [Function.update_of_ne heq] at hentry
  rcases hcases with ⟨op, -, hcall, -⟩ | ⟨x, hmakes, hcall, -⟩ | ⟨e, -, hcall, -⟩
  · rw [hcall]
    exact ⟨fun owner entry hentry => h.entries owner entry (hold owner entry hentry)⟩
  · rw [hcall]
    have hkept : ∀ owner, ∀ entry ∈ (s.state.caches owner).cache,
        entry.2 < s.state.nextOperator + 1 ∧
          ∃ config, ∃ args : Args (callTypes types owner.2), ∃ op,
            entry.1 = CacheKey.build H config args ∧
            Operators.makes types r owner.2 config args = .ok op ∧
            Function.update s.made s.state.nextOperator (some x) entry.2 = some op := by
      intro owner entry hentry
      obtain ⟨hlt, config', args', op, hkey, hmade, hop⟩ := h.entries owner entry hentry
      refine ⟨Nat.lt_succ_of_lt hlt, config', args', op, hkey, hmade, ?_⟩
      rw [Function.update_of_ne (Nat.ne_of_lt hlt)]
      exact hop
    refine ⟨fun owner entry hentry => ?_⟩
    dsimp only at hentry
    by_cases heq : owner = (thread, inst)
    · subst heq
      rw [Function.update_self] at hentry
      rcases List.mem_append.mp hentry with hentry | hentry
      · exact hkept _ entry (hmine entry hentry)
      · obtain rfl := List.mem_singleton.mp hentry
        exact ⟨Nat.lt_succ_self _, config, args, x, rfl, hmakes, Function.update_self _ _ _⟩
    · rw [Function.update_of_ne heq] at hentry
      exact hkept owner entry hentry
  · rw [hcall]
    exact ⟨fun owner entry hentry => h.entries owner entry (hold owner entry hentry)⟩

theorem Sound.step {s : Operators Thread Instance} (h : Sound types r H s) :
    ∀ request, Sound types r H (s.step types r H request)
  | .clearCache => ⟨h.entries⟩
  | .call thread inst config args => h.call thread inst config args

theorem Sound.run {s : Operators Thread Instance} (h : Sound types r H s)
    (requests : List (Request Thread types)) :
    Sound types r H (requests.foldl (fun s request => s.step types r H request) s) := by
  induction requests generalizing s with
  | nil => exact h
  | cons request requests ih => exact ih (h.step request)

/-- What a call runs serves it; and a call that runs none is one whose `Make`
fails. -/
theorem Sound.runs {s : Operators Thread Instance} (h : Sound types r H s) (thread : Thread)
    (inst : Instance) (config : Config) (args : Args (callTypes types inst)) :
    (∃ op, s.runs types r H thread inst config args = some op ∧
        Serves types r inst config args op) ∨
      s.runs types r H thread inst config args = none ∧
        ∃ e, Operators.makes types r inst config args = .error e := by
  obtain ⟨mine, hmine, hcases⟩ := s.call_cases (r := r) (H := H) thread inst config args
  rcases hcases with ⟨n, hfind, -, hruns⟩ | ⟨op, hmakes, -, hruns⟩ | ⟨e, hmakes, -, hruns⟩
  · obtain ⟨key, hentry, hsame⟩ := exists_of_find hfind
    obtain ⟨-, config', args', op, rfl, hmade, hop⟩ := h.entries _ _ (hmine _ hentry)
    obtain ⟨hdevice, hindex⟩ := selects_of_sameEntry hsame
    obtain ⟨rfl, havailable⟩ := Registry.make_eq_ok_iff.mp hmade
    rw [hop] at hruns
    exact .inl ⟨_, hruns, congrArg Device.type hdevice, havailable, hindex⟩
  · obtain ⟨rfl, havailable⟩ := Registry.make_eq_ok_iff.mp hmakes
    exact .inl ⟨_, hruns, rfl, havailable, fun _ => rfl⟩
  · exact .inr ⟨hruns, e, hmakes⟩

end Call

/-- In every run of calls and invalidations on any threads, a call executes
an operator of the device of its first tensor, one that `Make` can
construct, and, if nothing but tensors is hashed, of its implementation
index; unless `Make` fails for it, and then it executes none. -/
theorem call_runs_selected {Thread Instance : Type} [DecidableEq Thread] [DecidableEq Instance]
    (types : Instance → List ArgTy) (r : Registry) (H : StdHash)
    (requests : List (Request Thread types)) (thread : Thread) (inst : Instance)
    (config : Config) (args : Args (callTypes types inst)) :
    (∃ op, (runRequests types r H requests).runs types r H thread inst config args = some op ∧
        Serves types r inst config args op) ∨
      (runRequests types r H requests).runs types r H thread inst config args = none ∧
        ∃ e, Operators.makes types r inst config args = .error e :=
  (sound_start.run requests).runs thread inst config args

end InfiniOps.OperatorCache
