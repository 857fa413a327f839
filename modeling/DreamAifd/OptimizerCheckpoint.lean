import DreamAifd.Significand

/-! Optimizer state through a checkpoint. Every floating tensor is saved in one narrow type and loaded
into the model's; among them are the counters of the steps that a parameter has taken. -/
namespace DreamAifd.OptimizerCheckpoint

open Significand

/-- The floating types of a model; the training script refuses half precision. -/
inductive FloatDtype where
  | float64
  | float32
  | bfloat16
  deriving DecidableEq

def FloatDtype.significantBits : FloatDtype → Nat
  | .float64 => 53
  | .float32 => 24
  | .bfloat16 => 8

/-- A step counter, which is a floating tensor of one element. -/
structure Counter where
  dtype : FloatDtype
  value : Nat
  held : Representable dtype.significantBits value

theorem FloatDtype.bits_le (dtype : FloatDtype) : 8 ≤ dtype.significantBits := by cases dtype <;> decide

def Counter.to (dtype : FloatDtype) (counter : Counter) : Counter where
  dtype := dtype
  value := round dtype.significantBits counter.value
  held := representable_round (by have := dtype.bits_le; omega) _

def Counter.increment (counter : Counter) : Counter where
  dtype := counter.dtype
  value := next counter.dtype.significantBits counter.value
  held := representable_round (by have := counter.dtype.bits_le; omega) _

def Counter.zero : Counter := ⟨.float32, 0, by decide⟩

section Optimizers

variable {μ : Type}

/-- The moments of a parameter under their names, each in its own type. -/
abbrev Moments (μ : Type) := List (String × FloatDtype × μ)

structure ParamState (μ : Type) where
  step : Option Counter
  moments : Moments μ

inductive OptimizerKind where
  | adamW
  | muon
  deriving DecidableEq

/-- An optimizer's state, parameter by parameter; there is none before a parameter's first step. -/
structure Optimizer (μ : Type) where
  kind : OptimizerKind
  state : List (Option (ParamState μ))

/-- One step of a parameter; Muon counts none. `update` is what the gradient does to the moments. -/
def paramStep (kind : OptimizerKind) (update : Moments μ → Moments μ) : Option (ParamState μ) → ParamState μ
  | none => ⟨if kind = .adamW then some Counter.zero.increment else none, update []⟩
  | some state => ⟨state.step.map Counter.increment, update state.moments⟩

abbrev Update (μ : Type) := Nat → Nat → Moments μ → Moments μ

def optimizersStep (update : Update μ) (optimizers : List (Optimizer μ)) : List (Optimizer μ) :=
  optimizers.mapIdx fun i opt =>
    { opt with state := opt.state.mapIdx fun j state => some (paramStep opt.kind (update i j) state) }

def run (updates : List (Update μ)) (optimizers : List (Optimizer μ)) : List (Optimizer μ) :=
  updates.foldl (fun optimizers update => optimizersStep update optimizers) optimizers

def fresh (built : List (OptimizerKind × Nat)) : List (Optimizer μ) :=
  built.map fun (kind, params) => ⟨kind, List.replicate params none⟩

/-- `convert_float_dtype` of a state dict; `cast` converts the entries of a moment. -/
def convertFloatDtype (cast : FloatDtype → μ → μ) (dtype : FloatDtype) (stateDict : Optimizer μ) : Optimizer μ :=
  { stateDict with state := stateDict.state.map fun state => state.map fun state =>
      { step := state.step.map (Counter.to dtype)
        moments := state.moments.map fun (name, _, entries) => (name, dtype, cast dtype entries) } }

/-- What is written to the optimizer's file. -/
inductive Payload (μ : Type) where
  | single (stateDict : Optimizer μ)
  | list (stateDicts : List (Optimizer μ))

/-- `loaded if isinstance(loaded, list) else [loaded]`. -/
def Payload.asList : Payload μ → List (Optimizer μ)
  | .single stateDict => [stateDict]
  | .list stateDicts => stateDicts

structure StateDicts (μ : Type) where
  loadStateDict : Optimizer μ → Optimizer μ → Optimizer μ
  getOptimizerStateDict : List (Optimizer μ) → List (Optimizer μ)
  setOptimizerStateDict : List (Optimizer μ) → List (Optimizer μ) → List (Optimizer μ)

variable (torch : StateDicts μ) (cast : FloatDtype → μ → μ)

namespace SingleGPUCheckpointer

def saveCheckpoint (floatDtype : FloatDtype) (optimizers : List (Optimizer μ)) : Payload μ :=
  match optimizers.map (convertFloatDtype cast floatDtype) with
  | [stateDict] => .single stateDict
  | stateDicts => .list stateDicts

/-- `none` where there are not as many states as optimizers. -/
def loadOptimizerStateDict (modelDtype : FloatDtype) (optimizers : List (Optimizer μ)) (loaded : Payload μ) :
    Option (List (Optimizer μ)) :=
  let loadedList := loaded.asList
  if optimizers.length = loadedList.length then
    some (List.zipWith (fun opt stateDict => torch.loadStateDict opt (convertFloatDtype cast modelDtype stateDict))
      optimizers loadedList)
  else none

end SingleGPUCheckpointer

namespace DistributedCheckpointer

def saveCheckpoint (floatDtype : FloatDtype) (optimizers : List (Optimizer μ)) : List (Optimizer μ) :=
  (torch.getOptimizerStateDict optimizers).map (convertFloatDtype cast floatDtype)

def castStepCounters (opt : Optimizer μ) : Optimizer μ :=
  { opt with state := opt.state.map fun state => state.map fun state =>
      { state with step := state.step.map (Counter.to .float32) } }

def loadOptimizerStateDict (modelDtype : FloatDtype) (optimizers : List (Optimizer μ))
    (fullStateDict : List (Optimizer μ)) : List (Optimizer μ) :=
  (torch.setOptimizerStateDict optimizers (fullStateDict.map (convertFloatDtype cast modelDtype))).map
    castStepCounters

end DistributedCheckpointer

inductive Checkpointer where
  | singleGPU
  | distributed

/-- A save with the type that the trainer leaves at its default, then a load into new optimizers. -/
def Checkpointer.resume (checkpointer : Checkpointer) (modelDtype : FloatDtype)
    (rebuilt optimizers : List (Optimizer μ)) : Option (List (Optimizer μ)) :=
  match checkpointer with
  | .singleGPU => SingleGPUCheckpointer.loadOptimizerStateDict torch cast modelDtype rebuilt
      (SingleGPUCheckpointer.saveCheckpoint cast .bfloat16 optimizers)
  | .distributed => some (DistributedCheckpointer.loadOptimizerStateDict torch cast modelDtype rebuilt
      (DistributedCheckpointer.saveCheckpoint torch cast .bfloat16 optimizers))

/-- The counter of a parameter; one that took no step yet has none. -/
def stepCount (state : Option (ParamState μ)) : Nat := (state.bind (·.step)).elim 0 (·.value)

/-- Every parameter of the optimizers that count has taken `n` steps. -/
def CountsAs (n : Nat) (optimizers : List (Optimizer μ)) : Prop :=
  ∀ opt ∈ optimizers, opt.kind = .adamW → ∀ state ∈ opt.state, stepCount state = n

def counters (opt : Optimizer μ) : OptimizerKind × List (Option (Option Counter)) :=
  (opt.kind, opt.state.map fun state => state.map (·.step))

def build (opt : Optimizer μ) : OptimizerKind × Nat := (opt.kind, opt.state.length)

/-- What the library documents: a step counter is loaded as it was saved, and the state dict of
several optimizers holds their states. -/
structure StateDicts.Documented (torch : StateDicts μ) : Prop where
  loads : ∀ opt saved : Optimizer μ, build opt = build saved → counters (torch.loadStateDict opt saved) = counters saved
  collects : ∀ optimizers, (torch.getOptimizerStateDict optimizers).map counters = optimizers.map counters
  distributes : ∀ optimizers saved : List (Optimizer μ), optimizers.map build = saved.map build →
    (torch.setOptimizerStateDict optimizers saved).map counters = saved.map counters

end Optimizers

section Counters

variable {μ : Type} {torch : StateDicts μ} {cast : FloatDtype → μ → μ}

def counterStep (kind : OptimizerKind) : Option (Option Counter) → Option (Option Counter)
  | none => some (if kind = .adamW then some Counter.zero.increment else none)
  | some counter => some (counter.map Counter.increment)

theorem map_mapIdx {α β γ : Type*} {f : Nat → α → β} {g : β → γ} {h : α → γ} (same : ∀ i x, g (f i x) = h x)
    (xs : List α) : (xs.mapIdx f).map g = xs.map h := by
  induction xs generalizing f with
  | nil => rfl
  | cons x xs ih => rw [List.mapIdx_cons, List.map_cons, List.map_cons, same, ih fun i => same (i + 1)]

theorem step_paramStep (kind : OptimizerKind) (update : Moments μ → Moments μ) (state : Option (ParamState μ)) :
    some (paramStep kind update state).step = counterStep kind (state.map (·.step)) := by
  cases state <;> rfl

theorem counters_optimizersStep (update : Update μ) (optimizers : List (Optimizer μ)) :
    (optimizersStep update optimizers).map counters =
      (optimizers.map counters).map fun (kind, steps) => (kind, steps.map (counterStep kind)) := by
  rw [List.map_map]
  refine map_mapIdx (fun i opt => ?_) optimizers
  refine congrArg (Prod.mk opt.kind) ?_
  rw [List.map_map]
  exact map_mapIdx (g := Option.map ParamState.step) (fun j => step_paramStep opt.kind (update i j)) opt.state

theorem counters_run (updates : List (Update μ)) (optimizers : List (Optimizer μ)) :
    (run updates optimizers).map counters =
      (optimizers.map counters).map fun (kind, steps) => (kind, steps.map (counterStep kind)^[updates.length]) := by
  induction updates generalizing optimizers with
  | nil => simp [run]
  | cons update updates ih =>
    have first : run (update :: updates) optimizers = run updates (optimizersStep update optimizers) := rfl
    rw [first, ih, counters_optimizersStep, List.map_map]
    apply List.map_congr_left
    rintro ⟨kind, steps⟩ _
    simp only [Function.comp_apply, List.map_map, List.length_cons, Function.iterate_succ]

theorem counters_fresh (built : List (OptimizerKind × Nat)) :
    (fresh built : List (Optimizer μ)).map counters = built.map fun opt => (opt.1, List.replicate opt.2 none) := by
  simp [fresh, counters, Function.comp_def]

def mapCounters (f : Counter → Counter) (opt : OptimizerKind × List (Option (Option Counter))) :
    OptimizerKind × List (Option (Option Counter)) :=
  (opt.1, opt.2.map (Option.map (Option.map f)))

theorem mapCounters_mapCounters (f g : Counter → Counter) (opt : OptimizerKind × List (Option (Option Counter))) :
    mapCounters f (mapCounters g opt) = mapCounters (f ∘ g) opt := by
  simp [mapCounters, Function.comp_def]

theorem counters_convert (cast : FloatDtype → μ → μ) (dtype : FloatDtype) (optimizers : List (Optimizer μ)) :
    (optimizers.map (convertFloatDtype cast dtype)).map counters =
      (optimizers.map counters).map (mapCounters (Counter.to dtype)) := by
  simp [counters, mapCounters, convertFloatDtype, Function.comp_def]

theorem counters_castStepCounters (optimizers : List (Optimizer μ)) :
    (optimizers.map DistributedCheckpointer.castStepCounters).map counters =
      (optimizers.map counters).map (mapCounters (Counter.to .float32)) := by
  simp [counters, mapCounters, DistributedCheckpointer.castStepCounters, Function.comp_def]

def Checkpointer.reload (checkpointer : Checkpointer) (modelDtype : FloatDtype) (counter : Counter) : Counter :=
  let loaded := (counter.to .bfloat16).to modelDtype
  match checkpointer with
  | .singleGPU => loaded
  | .distributed => loaded.to .float32

theorem build_of_counters (opt : Optimizer μ) : build opt = ((counters opt).1, (counters opt).2.length) :=
  Prod.ext rfl (List.length_map _).symm

theorem map_build {optimizers others : List (Optimizer μ)} (same : optimizers.map counters = others.map counters) :
    optimizers.map build = others.map build := by
  have both := congrArg (List.map fun opt : OptimizerKind × List (Option (Option Counter)) => (opt.1, opt.2.length)) same
  simp only [List.map_map, Function.comp_def, ← build_of_counters] at both
  exact both

theorem build_convert (cast : FloatDtype → μ → μ) (dtype : FloatDtype) (optimizers : List (Optimizer μ)) :
    (optimizers.map (convertFloatDtype cast dtype)).map build = optimizers.map build := by
  rw [List.map_map]
  exact List.map_congr_left fun opt _ => Prod.ext rfl (List.length_map _)

theorem asList_saveCheckpoint (dtype : FloatDtype) (optimizers : List (Optimizer μ)) :
    (SingleGPUCheckpointer.saveCheckpoint cast dtype optimizers).asList =
      optimizers.map (convertFloatDtype cast dtype) := by
  rw [SingleGPUCheckpointer.saveCheckpoint]
  split
  next _ single => exact single.symm
  next => rfl

theorem counters_loaded (documented : torch.Documented) {rebuilt saved : List (Optimizer μ)}
    (same : rebuilt.map build = saved.map build) :
    (List.zipWith torch.loadStateDict rebuilt saved).map counters = saved.map counters := by
  induction rebuilt generalizing saved with
  | nil =>
    obtain rfl := List.map_eq_nil_iff.mp same.symm
    rfl
  | cons opt rebuilt ih =>
    cases saved with
    | nil => cases same
    | cons stateDict saved =>
      obtain ⟨first, later⟩ := List.cons.inj same
      rw [List.zipWith_cons_cons, List.map_cons, List.map_cons, documented.loads opt stateDict first, ih later]

/-- A checkpoint brings back every counter, converted. -/
theorem counters_resume (documented : torch.Documented) (cast : FloatDtype → μ → μ) (checkpointer : Checkpointer)
    (modelDtype : FloatDtype) {rebuilt optimizers : List (Optimizer μ)}
    (same : rebuilt.map build = optimizers.map build) :
    ∃ loaded, checkpointer.resume torch cast modelDtype rebuilt optimizers = some loaded ∧
      loaded.map counters = (optimizers.map counters).map (mapCounters (checkpointer.reload modelDtype)) := by
  cases checkpointer with
  | singleGPU =>
    have count : rebuilt.length = optimizers.length := by simpa using congrArg List.length same
    have converted : rebuilt.map build =
        ((optimizers.map (convertFloatDtype cast .bfloat16)).map (convertFloatDtype cast modelDtype)).map build := by
      rw [build_convert, build_convert, same]
    refine ⟨_, ?_, (counters_loaded documented converted).trans ?_⟩
    · rw [Checkpointer.resume, SingleGPUCheckpointer.loadOptimizerStateDict, asList_saveCheckpoint]
      rw [if_pos (by rw [List.length_map, count])]
      exact congrArg some List.zipWith_map_right.symm
    · rw [counters_convert, counters_convert, List.map_map]
      exact List.map_congr_left fun opt _ => mapCounters_mapCounters _ _ opt
  | distributed =>
    have collected := documented.collects optimizers
    have saved : rebuilt.map build = (((torch.getOptimizerStateDict optimizers).map
        (convertFloatDtype cast .bfloat16)).map (convertFloatDtype cast modelDtype)).map build := by
      rw [build_convert, build_convert, map_build collected, same]
    refine ⟨_, rfl, ?_⟩
    rw [DistributedCheckpointer.loadOptimizerStateDict, DistributedCheckpointer.saveCheckpoint,
      counters_castStepCounters, documented.distributes _ _ saved, counters_convert, counters_convert, collected,
      List.map_map, List.map_map]
    refine List.map_congr_left fun opt _ => ?_
    rw [Function.comp_apply, Function.comp_apply, mapCounters_mapCounters, mapCounters_mapCounters]
    rfl

def countOf (counter : Option (Option Counter)) : Nat := counter.join.elim 0 (·.value)

theorem stepCount_eq (state : Option (ParamState μ)) : stepCount state = countOf (state.map (·.step)) := by
  cases state <;> rfl

/-- Optimizers whose parameters all have the same counter, kind by kind. -/
theorem countsAs_iff {optimizers : List (Optimizer μ)} {built : List (OptimizerKind × Nat)}
    (counter : OptimizerKind → Option (Option Counter))
    (same : optimizers.map counters = built.map fun opt => (opt.1, List.replicate opt.2 (counter opt.1))) (n : Nat) :
    CountsAs n optimizers ↔ (∀ opt ∈ built, opt.1 = .adamW → opt.2 = 0) ∨ countOf (counter .adamW) = n := by
  have through : CountsAs n optimizers ↔
      ∀ opt ∈ optimizers.map counters, opt.1 = .adamW → ∀ held ∈ opt.2, countOf held = n := by
    simp only [CountsAs, List.forall_mem_map, counters, stepCount_eq]
  rw [through, same, List.forall_mem_map]
  constructor
  · intro all
    by_cases none_ : ∀ opt ∈ built, opt.1 = .adamW → opt.2 = 0
    · exact .inl none_
    · push Not at none_
      obtain ⟨⟨kind, params⟩, member, rfl, some_⟩ := none_
      exact .inr (all _ member rfl _ (List.mem_replicate.mpr ⟨some_, rfl⟩))
  · rintro (none_ | counted) opt member counts held listed
    · rw [none_ opt member counts] at listed
      cases listed
    · rw [(List.mem_replicate.mp listed).2, counts]
      exact counted

theorem counters_run_replicate {optimizers : List (Optimizer μ)} {built : List (OptimizerKind × Nat)}
    (counter : OptimizerKind → Option (Option Counter))
    (same : optimizers.map counters = built.map fun opt => (opt.1, List.replicate opt.2 (counter opt.1)))
    (updates : List (Update μ)) :
    (run updates optimizers).map counters = built.map fun opt =>
      (opt.1, List.replicate opt.2 ((counterStep opt.1)^[updates.length] (counter opt.1))) := by
  rw [counters_run, same, List.map_map]
  exact List.map_congr_left fun opt _ => Prod.ext rfl List.map_replicate

/-- The counters after a run, a checkpoint and another run. -/
theorem counters_resumed (documented : torch.Documented) (cast : FloatDtype → μ → μ) (checkpointer : Checkpointer)
    (modelDtype : FloatDtype) (built : List (OptimizerKind × Nat)) (before : List (Update μ)) :
    ∃ loaded, checkpointer.resume torch cast modelDtype (fresh built) (run before (fresh built)) = some loaded ∧
      loaded.map counters = built.map fun opt => (opt.1, List.replicate opt.2
        (Option.map (Option.map (checkpointer.reload modelDtype)) ((counterStep opt.1)^[before.length] none))) := by
  have trained : (run before (fresh built)).map counters = built.map fun opt =>
      (opt.1, List.replicate opt.2 ((counterStep opt.1)^[before.length] none)) :=
    counters_run_replicate (fun _ => none) (counters_fresh built) before
  have same : (fresh built : List (Optimizer μ)).map build = (run before (fresh built)).map build := by
    have sizes (opt : Optimizer μ) : build opt = ((counters opt).1, (counters opt).2.length) := build_of_counters opt
    have left := congrArg (List.map fun opt => (opt.1, opt.2.length)) (counters_fresh (μ := μ) built)
    have right := congrArg (List.map fun opt => (opt.1, opt.2.length)) trained
    simp only [List.map_map, Function.comp_def, ← sizes, List.length_replicate] at left right
    rw [left, right]
  obtain ⟨loaded, resumed, converted⟩ := counters_resume documented cast checkpointer modelDtype same
  refine ⟨loaded, resumed, ?_⟩
  rw [converted, trained, List.map_map]
  exact List.map_congr_left fun opt _ => Prod.ext rfl List.map_replicate

end Counters

section Values

theorem increment_iterate (counter : Counter) (m : Nat) :
    (Counter.increment^[m] counter).dtype = counter.dtype ∧
      (Counter.increment^[m] counter).value = (next counter.dtype.significantBits)^[m] counter.value := by
  induction m with
  | zero => exact ⟨rfl, rfl⟩
  | succ m ih =>
    rw [Function.iterate_succ_apply', Function.iterate_succ_apply', ← ih.2]
    exact ⟨ih.1, congrArg (fun dtype : FloatDtype => next dtype.significantBits (Counter.increment^[m] counter).value) ih.1⟩

theorem counterStep_iterate (kind : OptimizerKind) (counter : Counter) (m : Nat) :
    (counterStep kind)^[m] (some (some counter)) = some (some (Counter.increment^[m] counter)) := by
  induction m with
  | zero => rfl
  | succ m ih => rw [Function.iterate_succ_apply', Function.iterate_succ_apply', ih]; rfl

/-- AdamW creates the counter at a parameter's first step. -/
theorem counterStep_fresh (n : Nat) :
    (counterStep .adamW)^[n + 1] none = some (some (Counter.increment^[n + 1] Counter.zero)) := by
  rw [Function.iterate_succ_apply, Function.iterate_succ_apply]
  exact counterStep_iterate .adamW Counter.zero.increment n

/-- A single-precision counter goes up to the first number whose successor does not fit. -/
theorem value_fresh (n : Nat) : (Counter.increment^[n] Counter.zero).value = min n (2 ^ 24) := by
  have counted := iterate_next_eq_min (p := 24) (v := 0) (by decide) (Nat.zero_le _) n
  rw [Nat.zero_add] at counted
  exact (increment_iterate Counter.zero n).2.trans counted

/-- The type that a counter has after a checkpoint. -/
def Checkpointer.counterDtype (checkpointer : Checkpointer) (modelDtype : FloatDtype) : FloatDtype :=
  match checkpointer with
  | .singleGPU => modelDtype
  | .distributed => .float32

theorem reload_value (checkpointer : Checkpointer) (modelDtype : FloatDtype) (counter : Counter) :
    (checkpointer.reload modelDtype counter).dtype = checkpointer.counterDtype modelDtype ∧
      (checkpointer.reload modelDtype counter).value = round 8 counter.value := by
  have narrow : round modelDtype.significantBits (round 8 counter.value) = round 8 counter.value :=
    round_round (by decide) modelDtype.bits_le counter.value
  cases checkpointer with
  | singleGPU => exact ⟨rfl, narrow⟩
  | distributed =>
    refine ⟨rfl, ?_⟩
    calc round 24 (round modelDtype.significantBits (round 8 counter.value))
        = round 24 (round 8 counter.value) := by rw [narrow]
      _ = round 8 counter.value := round_round (by decide) (by decide) counter.value

/-- When the counters survive: `n` steps before the checkpoint, `m` after it. -/
def Exact (checkpointer : Checkpointer) (modelDtype : FloatDtype) (n m : Nat) : Prop :=
  if n = 0 then m ≤ 2 ^ 24
  else n ≤ 2 ^ 24 ∧ Representable 8 n ∧ Continues (checkpointer.counterDtype modelDtype).significantBits n m

theorem round_min_eq_iff {n : Nat} : round 8 (min n (2 ^ 24)) = n ↔ n ≤ 2 ^ 24 ∧ Representable 8 n := by
  rcases Nat.le_total n (2 ^ 24) with within | past
  · rw [Nat.min_eq_left within, round_eq_iff]
    exact (and_iff_right within).symm
  · have whole : round 8 (2 ^ 24) = 2 ^ 24 := by decide +kernel
    rw [Nat.min_eq_right past, whole]
    constructor
    · intro same
      rw [← same]
      exact ⟨le_rfl, by decide +kernel⟩
    · exact fun held => Nat.le_antisymm past held.1

theorem exact_iff (checkpointer : Checkpointer) (modelDtype : FloatDtype) (n m : Nat) :
    (countOf (Option.map (Option.map (checkpointer.reload modelDtype)) ((counterStep .adamW)^[n] none)) = n ∧
      countOf ((counterStep .adamW)^[m]
        (Option.map (Option.map (checkpointer.reload modelDtype)) ((counterStep .adamW)^[n] none))) = n + m) ↔
      Exact checkpointer modelDtype n m := by
  rw [Exact]
  cases n with
  | zero =>
    rw [if_pos rfl, Nat.zero_add]
    cases m with
    | zero => simp [countOf]
    | succ m =>
      have value := value_fresh (m + 1)
      rw [Function.iterate_zero, id, Option.map_none, counterStep_fresh]
      simp only [countOf, Option.join_some, Option.elim_some, value]
      simp
  | succ n =>
    rw [if_neg (Nat.succ_ne_zero n), counterStep_fresh, Option.map_some, Option.map_some, counterStep_iterate]
    obtain ⟨dtype, value⟩ := reload_value checkpointer modelDtype (Counter.increment^[n + 1] Counter.zero)
    obtain ⟨-, later⟩ := increment_iterate (checkpointer.reload modelDtype (Counter.increment^[n + 1] Counter.zero)) m
    rw [value_fresh] at value
    rw [dtype, value] at later
    simp only [countOf, Option.join_some, Option.elim_some, value, later]
    rw [← and_assoc, ← round_min_eq_iff]
    refine and_congr_right fun same => ?_
    rw [same]
    have held := (round_min_eq_iff.mp same).2
    have bits := (checkpointer.counterDtype modelDtype).bits_le
    exact iterate_next_eq_iff (by omega) (held.mono bits) m

end Values

/-- The counters survive a checkpoint and the steps behind it exactly where no parameter is counted or
the number of steps fits the narrow type and can be counted on from. -/
theorem resume_countsAs_iff {μ : Type} (torch : StateDicts μ) (documented : torch.Documented)
    (cast : FloatDtype → μ → μ) (checkpointer : Checkpointer) (modelDtype : FloatDtype)
    (built : List (OptimizerKind × Nat)) (before after : List (Update μ)) :
    ∃ loaded, checkpointer.resume torch cast modelDtype (fresh built) (run before (fresh built)) = some loaded ∧
      ((CountsAs before.length loaded ∧ CountsAs (before.length + after.length) (run after loaded)) ↔
        (∀ opt ∈ built, opt.1 = .adamW → opt.2 = 0) ∨
          Exact checkpointer modelDtype before.length after.length) := by
  obtain ⟨loaded, resumed, held⟩ := counters_resumed documented cast checkpointer modelDtype built before
  refine ⟨loaded, resumed, ?_⟩
  -- the counters behind the checkpoint, kind by kind
  let reloaded (kind : OptimizerKind) : Option (Option Counter) :=
    Option.map (Option.map (checkpointer.reload modelDtype)) ((counterStep kind)^[before.length] none)
  have continued := counters_run_replicate reloaded held after
  have first := countsAs_iff reloaded held before.length
  have later := countsAs_iff (fun kind => (counterStep kind)^[after.length] (reloaded kind)) continued
    (before.length + after.length)
  rw [first, later, ← or_and_left, exact_iff]

/-- The library's functions where the model has the type of what is loaded. -/
def plainStateDicts : StateDicts Unit where
  loadStateDict _ saved := saved
  getOptimizerStateDict optimizers := optimizers
  setOptimizerStateDict _ saved := saved

theorem plainStateDicts_documented : plainStateDicts.Documented where
  loads _ _ _ := rfl
  collects _ := rfl
  distributes _ _ _ := rfl

/-- Six steps of Muon and AdamW, and three behind the checkpoint. -/
theorem resume_countsAs_iff_muon :
    ∃ loaded, Checkpointer.singleGPU.resume plainStateDicts (fun _ => id) .bfloat16 (fresh [(.muon, 2), (.adamW, 1)])
        (run (List.replicate 6 fun _ _ => id) (fresh [(.muon, 2), (.adamW, 1)])) = some loaded ∧
      ((CountsAs 6 loaded ∧ CountsAs 9 (run (List.replicate 3 fun _ _ => id) loaded)) ↔
        (∀ opt ∈ [(OptimizerKind.muon, 2), (.adamW, 1)], opt.1 = .adamW → opt.2 = 0) ∨
          Exact .singleGPU .bfloat16 6 3) :=
  resume_countsAs_iff plainStateDicts plainStateDicts_documented (fun _ => id) .singleGPU .bfloat16
    [(.muon, 2), (.adamW, 1)] (List.replicate 6 fun _ _ => id) (List.replicate 3 fun _ _ => id)

/-- A counter of 257 steps. -/
theorem countOf_narrowed (checkpointer : Checkpointer) : countOf (Option.map
    (Option.map (checkpointer.reload .float32)) ((counterStep .adamW)^[256 + 1] none)) = 256 := by
  obtain ⟨-, value⟩ := reload_value checkpointer .float32 (Counter.increment^[256 + 1] Counter.zero)
  rw [counterStep_fresh, Option.map_some, Option.map_some]
  exact value.trans (by rw [value_fresh]; decide +kernel)

theorem not_countsAs_narrowed (checkpointer : Checkpointer) : ∃ loaded,
    checkpointer.resume plainStateDicts (fun _ => id) .float32 (fresh [(.adamW, 1)])
        (run (List.replicate 257 fun _ _ => id) (fresh [(.adamW, 1)])) = some loaded ∧
      ¬CountsAs 257 loaded := by
  obtain ⟨loaded, resumed, held⟩ := counters_resumed plainStateDicts_documented (fun _ => id) checkpointer .float32
    [(.adamW, 1)] (List.replicate 257 fun _ _ => id)
  refine ⟨loaded, resumed, ?_⟩
  rw [List.length_replicate] at held
  rw [countsAs_iff (fun kind => Option.map (Option.map (checkpointer.reload .float32))
    ((counterStep kind)^[257] none)) held, countOf_narrowed checkpointer]
  simp

/-- After 257 steps, either checkpointer brings back 256. -/
theorem not_countsAs_resumed :
    (∃ loaded, Checkpointer.singleGPU.resume plainStateDicts (fun _ => id) .float32 (fresh [(.adamW, 1)])
        (run (List.replicate 257 fun _ _ => id) (fresh [(.adamW, 1)])) = some loaded ∧ ¬CountsAs 257 loaded) ∧
      ∃ loaded, Checkpointer.distributed.resume plainStateDicts (fun _ => id) .float32 (fresh [(.adamW, 1)])
        (run (List.replicate 257 fun _ _ => id) (fresh [(.adamW, 1)])) = some loaded ∧ ¬CountsAs 257 loaded :=
  ⟨not_countsAs_narrowed .singleGPU, not_countsAs_narrowed .distributed⟩

end DreamAifd.OptimizerCheckpoint
