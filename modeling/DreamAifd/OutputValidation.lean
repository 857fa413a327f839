import DreamAifd.ArrowDataset
import DreamAifd.Chunks
import DreamAifd.Dict

/-! Which extracted samples reach training. Offline generation moves an output to its final
name and checks it there; the name is what later runs and the dataset go by. -/
namespace DreamAifd.OutputValidation

open ArrowDataset Chunks

variable {ρ : Type}

inductive CheckError where
  | tokenIds (tokens : List Nat)
  | nan
  | seqLen (rows tokens : Nat)
  deriving DecidableEq, Repr

section Check

variable (isnan : ρ → Bool)

def checkHiddenStates (data : LoadedHs ρ) (tokens : List Nat) : Except CheckError Unit :=
  if data.tokenIds ≠ tokens then .error (.tokenIds tokens)
  else if data.hiddenStates.any (·.any isnan) then .error .nan
  else if tokens.length ≠ data.hiddenStates.length then .error (.seqLen data.hiddenStates.length tokens.length)
  else .ok ()

structure Validated (data : LoadedHs ρ) (tokens : List Nat) : Prop where
  tokenIds : data.tokenIds = tokens
  rows : data.hiddenStates.length = tokens.length
  finite : ∀ row ∈ data.hiddenStates, ∀ x ∈ row, isnan x = false

theorem checkHiddenStates_ok_iff (data : LoadedHs ρ) (tokens : List Nat) :
    checkHiddenStates isnan data tokens = .ok () ↔ Validated isnan data tokens := by
  unfold checkHiddenStates
  constructor
  · intro passed
    split at passed
    · contradiction
    next same =>
      split at passed
      · contradiction
      next finite =>
        split at passed
        · contradiction
        next rows =>
          refine ⟨not_not.mp same, (not_not.mp rows).symm, ?_⟩
          intro row member x inside
          by_contra bad
          exact finite (List.any_eq_true.mpr ⟨row, member, List.any_eq_true.mpr ⟨x, inside, by simpa using bad⟩⟩)
  · rintro ⟨same, rows, finite⟩
    have clean : ¬ (data.hiddenStates.any (·.any isnan)) = true := by
      intro bad
      obtain ⟨row, member, inside⟩ := List.any_eq_true.mp bad
      obtain ⟨x, here, is⟩ := List.any_eq_true.mp inside
      rw [finite row member x here] at is
      contradiction
    rw [if_neg (not_not.mpr same), if_neg clean, if_neg (not_not.mpr rows.symm)]

end Check

/-- What stands under a name; `none` where loading it raises. -/
abbrev FileContent (ρ : Type) := Option (LoadedHs ρ)

/-- The output directory, by the index in the names `hs_{idx}.safetensors`. -/
abbrev Directory (ρ : Type) := Dict Nat (FileContent ρ)

def getExistingHiddenStateIndices (dir : Directory ρ) : List Nat := dir.keys.sort (· ≤ ·)

/-- The rank's chunk of the first `max_samples` samples, without the existing ones. -/
def getIndicesToProcess (numSamples : Nat) (maxSamples : Option Int) (existing : List Nat) (worldSize rank : Nat) :
    List Nat :=
  let target : Int := maxSamples.elim numSamples (min · numSamples)
  if target ≤ 0 then []
  else
    let chunkSize := target.toNat / worldSize
    let remainder := target.toNat % worldSize
    let start := rank * chunkSize + min rank remainder
    let stop := start + chunkSize + if rank < remainder then 1 else 0
    (List.range' start (stop - start)).filter (· ∉ existing)

section Selection

variable {numSamples worldSize rank idx : Nat} {maxSamples : Option Int} {existing : List Nat}

/-- The first samples are cut into one chunk for each rank. -/
theorem getIndicesToProcess_eq (numSamples : Nat) (maxSamples : Option Int) (existing : List Nat) (worldSize rank : Nat) :
    getIndicesToProcess numSamples maxSamples existing worldSize rank =
      (List.range' (chunkStart (maxSamples.elim (numSamples : Int) (min · numSamples)).toNat worldSize rank)
        (chunkSize (maxSamples.elim (numSamples : Int) (min · numSamples)).toNat worldSize rank)).filter
          (· ∉ existing) := by
  unfold getIndicesToProcess
  dsimp only
  generalize maxSamples.elim (numSamples : Int) (min · numSamples) = target
  split
  next none =>
    have zero : target.toNat = 0 := Int.toNat_eq_zero.mpr none
    simp [zero, chunkSize]
  next some =>
    rw [chunkStart, chunkSize, Nat.add_assoc, Nat.add_sub_cancel_left]

theorem mem_getIndicesToProcess :
    idx ∈ getIndicesToProcess numSamples maxSamples existing worldSize rank ↔
      idx ∈ getIndicesToProcess numSamples maxSamples [] worldSize rank ∧ idx ∉ existing := by
  rw [getIndicesToProcess_eq, getIndicesToProcess_eq]
  simp

/-- A rank's chunk ends within the samples. -/
theorem lt_of_mem_getIndicesToProcess (ranked : rank < worldSize)
    (member : idx ∈ getIndicesToProcess numSamples maxSamples existing worldSize rank) : idx < numSamples := by
  rw [getIndicesToProcess_eq] at member
  have target : maxSamples.elim (numSamples : Int) (min · numSamples) ≤ numSamples := by
    cases maxSamples with
    | none => exact le_refl _
    | some limit => exact min_le_right _ _
  have inside := (List.mem_range'_1.mp (List.mem_of_mem_filter member)).2
  exact (inside.trans_le (chunk_le ranked)).trans_le (Int.toNat_le.mpr target)

end Selection

structure GenerateArgs where
  maxSamples : Option Int
  worldSize : Nat
  rank : Nat
  ranked : rank < worldSize

/-- What becomes of an item that a worker has taken. -/
inductive Fate (ρ : Type) where
  | requestFailed
  /-- The run ends between the move and the check. -/
  | moved (output : FileContent ρ)
  | checked (output : FileContent ρ)

inductive SampleOutcome where
  | skipped (error : Option CheckError)
  | interrupted
  | saved
  deriving DecidableEq, Repr

section Worker

variable (isnan : ρ → Bool)

/-- `_load_and_check`; an error without a name stands for a file that cannot be loaded. -/
def loadAndCheck (output : FileContent ρ) (tokens : List Nat) : SampleOutcome :=
  match output with
  | none => .skipped none
  | some data =>
    match checkHiddenStates isnan data tokens with
    | .error e => .skipped (some e)
    | .ok () => .saved

/-- The worker's way through one item, with outputs being validated. -/
def worker (dir : Directory ρ) (idx : Nat) (tokens : List Nat) : Fate ρ → Directory ρ × SampleOutcome
  | .requestFailed => (dir, .skipped none)
  | .moved output => (dir.set idx output, .interrupted)
  | .checked output => (dir.set idx output, loadAndCheck isnan output tokens)

structure Item (ρ : Type) where
  idx : Nat
  fate : Fate ρ

/-- A run: its arguments and the items taken until it ended, however that came about. -/
structure Run (ρ : Type) where
  args : GenerateArgs
  items : List (Item ρ)

def tokensOf (dataset : List DatasetRow) (idx : Nat) : List Nat := (dataset[idx]?.map (·.inputIds)).getD []

def afterItem (dataset : List DatasetRow) (dir : Directory ρ) (item : Item ρ) : Directory ρ :=
  (worker isnan dir item.idx (tokensOf dataset item.idx) item.fate).1

def afterRun (dataset : List DatasetRow) (dir : Directory ρ) (run : Run ρ) : Directory ρ :=
  run.items.foldl (afterItem isnan dataset) dir

def afterRuns (dataset : List DatasetRow) (dir : Directory ρ) (runs : List (Run ρ)) : Directory ρ :=
  runs.foldl (afterRun isnan dataset) dir

def GenerateArgs.toProcess (args : GenerateArgs) (dataset : List DatasetRow) (existing : List Nat) : List Nat :=
  getIndicesToProcess dataset.length args.maxSamples existing args.worldSize args.rank

/-- A run takes each of the indices it selected at most once. -/
structure Run.Valid (dataset : List DatasetRow) (dir : Directory ρ) (run : Run ρ) : Prop where
  selected : ∀ item ∈ run.items,
    item.idx ∈ run.args.toProcess dataset (getExistingHiddenStateIndices dir)
  once : (run.items.map (·.idx)).Nodup

def ValidRuns (dataset : List DatasetRow) : Directory ρ → List (Run ρ) → Prop
  | _, [] => True
  | dir, run :: runs => run.Valid dataset dir ∧ ValidRuns dataset (afterRun isnan dataset dir run) runs

def Item.FailedValidation (dataset : List DatasetRow) (item : Item ρ) : Prop :=
  ∃ output error, item.fate = .checked output ∧
    loadAndCheck isnan output (tokensOf dataset item.idx) = .skipped error

/-- Every run leaves the indices that failed in it to every next run in whose chunk they are. -/
def FailedSelectedAgain (dataset : List DatasetRow) : Directory ρ → List (Run ρ) → Prop
  | _, [] => True
  | dir, run :: runs =>
    (∀ item ∈ run.items, item.FailedValidation isnan dataset → ∀ next : GenerateArgs,
      item.idx ∈ next.toProcess dataset [] →
      item.idx ∈ next.toProcess dataset (getExistingHiddenStateIndices (afterRun isnan dataset dir run))) ∧
    FailedSelectedAgain dataset (afterRun isnan dataset dir run) runs

/-- The cached sample that `_get_raw_data` goes on with. The data of a split start behind
`start_file_idx` of the whole dataset. -/
def cachedSample (dataset : List DatasetRow) (startFileIdx : Nat) (dir : Directory ρ) (index : Nat) :
    Option (LoadedHs ρ) := do
  let content ← dir.get? (index + startFileIdx)
  let loaded ← content
  let row ← (dataset.drop startFileIdx)[index]?
  checkTokens loaded row

/-- `_maybe_generate_hs` where generated samples are cached: here the check comes before the
move. A NaN is raised on, which moves nothing, either. -/
def maybeGenerateHs (dataset : List DatasetRow) (startFileIdx : Nat) (dir : Directory ρ) (index : Nat)
    (generated : FileContent ρ) : Directory ρ × Option (LoadedHs ρ) :=
  match generated with
  | none => (dir, none)
  | some loaded =>
    match checkHiddenStates isnan loaded (tokensOf dataset (index + startFileIdx)) with
    | .error _ => (dir, none)
    | .ok () => (dir.set (index + startFileIdx) (some loaded), some loaded)

/-- Every cached sample that is trained on holds what its row asks for. -/
def TrainedValidated (dataset : List DatasetRow) (dir : Directory ρ) : Prop :=
  ∀ startFileIdx index row loaded, (dataset.drop startFileIdx)[index]? = some row →
    cachedSample dataset startFileIdx dir index = some loaded → Validated isnan loaded row.inputIds

def OnlyValidated (dataset : List DatasetRow) (runs : List (Run ρ)) : Prop :=
  TrainedValidated isnan dataset (afterRuns isnan dataset .empty runs) ∧
    FailedSelectedAgain isnan dataset .empty runs

/-- An output that was checked passes; one that was only moved passes, too, or is passed over. -/
def Item.Acceptable (dataset : List DatasetRow) (item : Item ρ) : Prop :=
  match item.fate with
  | .requestFailed => True
  | .moved output => ∀ data, output = some data → data.tokenIds = tokensOf dataset item.idx →
      checkHiddenStates isnan data (tokensOf dataset item.idx) = .ok ()
  | .checked output => ∃ data, output = some data ∧
      checkHiddenStates isnan data (tokensOf dataset item.idx) = .ok ()

end Worker

section Runs

variable {isnan : ρ → Bool} {dataset : List DatasetRow}

def Item.output (item : Item ρ) : Option (FileContent ρ) :=
  match item.fate with
  | .requestFailed => none
  | .moved output => some output
  | .checked output => some output

theorem afterItem_get? (dir : Directory ρ) (item : Item ρ) (idx : Nat) :
    (afterItem isnan dataset dir item).get? idx =
      if idx = item.idx then item.output.or (dir.get? idx) else dir.get? idx := by
  unfold afterItem worker Item.output
  cases item.fate with
  | requestFailed => simp
  | moved output => exact Dict.get?_set ..
  | checked output => exact Dict.get?_set ..

/-- The items of a run, each new to the directory, leave their files and touch no other. -/
theorem foldl_get? {items : List (Item ρ)} {dir : Directory ρ} (once : (items.map (·.idx)).Nodup)
    (fresh : ∀ item ∈ items, dir.get? item.idx = none) (idx : Nat) (content : FileContent ρ) :
    (items.foldl (afterItem isnan dataset) dir).get? idx = some content ↔
      dir.get? idx = some content ∨ ∃ item ∈ items, item.idx = idx ∧ item.output = some content := by
  induction items generalizing dir with
  | nil => simp
  | cons item items ih =>
    obtain ⟨other, once⟩ := List.nodup_cons.mp once
    have absent : dir.get? item.idx = none := fresh item List.mem_cons_self
    have fresh' : ∀ later ∈ items, (afterItem isnan dataset dir item).get? later.idx = none := by
      intro later member
      have distinct : later.idx ≠ item.idx := by
        intro same
        have listed : later.idx ∈ items.map (·.idx) := List.mem_map_of_mem member
        rw [same] at listed
        exact other listed
      rw [afterItem_get?, if_neg distinct]
      exact fresh later (List.mem_cons_of_mem _ member)
    rw [List.foldl_cons, ih once fresh', afterItem_get?]
    by_cases here : idx = item.idx
    · subst here
      rw [if_pos rfl, absent, Option.or_none]
      simp
    · rw [if_neg here]
      simp [Ne.symm here]

theorem mem_existing {dir : Directory ρ} {idx : Nat} :
    idx ∈ getExistingHiddenStateIndices dir ↔ ∃ content, dir.get? idx = some content := by
  rw [getExistingHiddenStateIndices, Finset.mem_sort, Dict.mem_keys]

theorem Run.Valid.fresh {dir : Directory ρ} {run : Run ρ} (valid : run.Valid dataset dir) :
    ∀ item ∈ run.items, dir.get? item.idx = none := by
  intro item member
  have absent := (mem_getIndicesToProcess.mp (valid.selected item member)).2
  rw [mem_existing] at absent
  exact Option.eq_none_iff_forall_ne_some.mpr fun content held => absent ⟨content, held⟩

/-- A run's directory: what was there, and the files its items left. -/
theorem afterRun_get? {dir : Directory ρ} {run : Run ρ} (valid : run.Valid dataset dir) (idx : Nat)
    (content : FileContent ρ) : (afterRun isnan dataset dir run).get? idx = some content ↔
      dir.get? idx = some content ∨ ∃ item ∈ run.items, item.idx = idx ∧ item.output = some content :=
  foldl_get? valid.once valid.fresh idx content

theorem afterRuns_cons (dir : Directory ρ) (run : Run ρ) (runs : List (Run ρ)) :
    afterRuns isnan dataset dir (run :: runs) =
      afterRuns isnan dataset (afterRun isnan dataset dir run) runs := rfl

theorem afterRuns_get? {runs : List (Run ρ)} {dir : Directory ρ} (valid : ValidRuns isnan dataset dir runs)
    (idx : Nat) (content : FileContent ρ) : (afterRuns isnan dataset dir runs).get? idx = some content ↔
      dir.get? idx = some content ∨
        ∃ run ∈ runs, ∃ item ∈ run.items, item.idx = idx ∧ item.output = some content := by
  induction runs generalizing dir with
  | nil => simp [afterRuns]
  | cons run runs ih =>
    obtain ⟨first, rest⟩ := valid
    rw [afterRuns_cons, ih rest, afterRun_get? first]
    simp only [List.mem_cons, exists_eq_or_imp, or_assoc]

/-- Whatever fails its check stays in the directory, and no run selects it again. -/
theorem failedSelectedAgain_iff {runs : List (Run ρ)} {dir : Directory ρ} (valid : ValidRuns isnan dataset dir runs) :
    FailedSelectedAgain isnan dataset dir runs ↔
      ∀ run ∈ runs, ∀ item ∈ run.items, ¬ item.FailedValidation isnan dataset := by
  induction runs generalizing dir with
  | nil => simp [FailedSelectedAgain]
  | cons run runs ih =>
    obtain ⟨first, rest⟩ := valid
    rw [FailedSelectedAgain, ih rest, List.forall_mem_cons]
    apply and_congr_left
    intro _
    constructor
    · intro again item member failed
      have own := (mem_getIndicesToProcess.mp (first.selected item member)).1
      have selected := again item member failed run.args own
      obtain ⟨output, error, checked, -⟩ := failed
      have absent := (mem_getIndicesToProcess.mp selected).2
      have left : item.output = some output := by rw [Item.output, checked]
      exact absent (mem_existing.mpr ⟨output, (afterRun_get? first _ _).mpr (.inr ⟨item, member, rfl, left⟩)⟩)
    · intro passed item member failed
      exact absurd failed (passed item member)

/-- Every file that the training side would accept by its tokens holds what its row asks for. -/
def ValidatedFiles (isnan : ρ → Bool) (dataset : List DatasetRow) (dir : Directory ρ) : Prop :=
  ∀ idx data, dir.get? idx = some (some data) → idx < dataset.length →
    data.tokenIds = tokensOf dataset idx → Validated isnan data (tokensOf dataset idx)

theorem tokensOf_drop {startFileIdx index : Nat} {row : DatasetRow}
    (here : (dataset.drop startFileIdx)[index]? = some row) :
    tokensOf dataset (index + startFileIdx) = row.inputIds := by
  rw [List.getElem?_drop, Nat.add_comm] at here
  rw [tokensOf, here, Option.map_some, Option.getD_some]

theorem cachedSample_eq_some {startFileIdx index : Nat} {row : DatasetRow} {dir : Directory ρ}
    {data : LoadedHs ρ} (here : (dataset.drop startFileIdx)[index]? = some row) :
    cachedSample dataset startFileIdx dir index = some data ↔
      dir.get? (index + startFileIdx) = some (some data) ∧ data.tokenIds = row.inputIds := by
  rw [cachedSample, here]
  constructor
  · intro cached
    obtain ⟨content, held, cached⟩ := Option.bind_eq_some_iff.mp cached
    obtain ⟨loaded, rfl, cached⟩ := Option.bind_eq_some_iff.mp cached
    rw [Option.bind_eq_bind, Option.bind_some] at cached
    obtain ⟨rfl, same⟩ := checkTokens_eq_some.mp cached
    exact ⟨held, same⟩
  · rintro ⟨held, same⟩
    rw [held]
    exact checkTokens_eq_some.mpr ⟨rfl, same⟩

theorem trainedValidated_iff (dir : Directory ρ) :
    TrainedValidated isnan dataset dir ↔ ValidatedFiles isnan dataset dir := by
  constructor
  · intro trained idx data held bound same
    have here : (dataset.drop 0)[idx]? = some dataset[idx] := by simp
    have tokens := tokensOf_drop here
    rw [Nat.add_zero] at tokens
    rw [tokens] at same ⊢
    exact trained 0 idx _ data here ((cachedSample_eq_some here).mpr ⟨held, same⟩)
  · intro files startFileIdx index row data here cached
    obtain ⟨held, same⟩ := (cachedSample_eq_some here).mp cached
    have tokens := tokensOf_drop here
    have bound : index + startFileIdx < dataset.length := by
      rw [List.getElem?_drop] at here
      have := (List.getElem?_eq_some_iff.mp here).1
      omega
    rw [← tokens] at same ⊢
    exact files _ data held bound same

/-- What training generates for itself cannot spoil the cache. -/
theorem maybeGenerateHs_validatedFiles {dir : Directory ρ} (files : ValidatedFiles isnan dataset dir)
    (startFileIdx index : Nat) (generated : FileContent ρ) :
    ValidatedFiles isnan dataset (maybeGenerateHs isnan dataset startFileIdx dir index generated).1 := by
  unfold maybeGenerateHs
  split
  · exact files
  next loaded =>
    split
    · exact files
    next passed =>
      intro idx data held bound same
      rw [Dict.get?_set] at held
      by_cases here : idx = index + startFileIdx
      · rw [if_pos here] at held
        cases held
        rw [here]
        exact (checkHiddenStates_ok_iff isnan loaded _).mp passed
      · rw [if_neg here] at held
        exact files idx data held bound same

theorem ValidRuns.lt {runs : List (Run ρ)} {dir : Directory ρ} (valid : ValidRuns isnan dataset dir runs) :
    ∀ run ∈ runs, ∀ item ∈ run.items, item.idx < dataset.length := by
  induction runs generalizing dir with
  | nil => simp
  | cons run runs ih =>
    obtain ⟨first, rest⟩ := valid
    rw [List.forall_mem_cons]
    refine ⟨?_, ih rest⟩
    intro item member
    exact lt_of_mem_getIndicesToProcess run.args.ranked (first.selected item member)

/-- The directory after all runs holds the outputs of the items and nothing else. -/
theorem validatedFiles_iff {runs : List (Run ρ)} (valid : ValidRuns isnan dataset .empty runs) :
    ValidatedFiles isnan dataset (afterRuns isnan dataset .empty runs) ↔
      ∀ run ∈ runs, ∀ item ∈ run.items, ∀ data, item.output = some (some data) →
        data.tokenIds = tokensOf dataset item.idx → Validated isnan data (tokensOf dataset item.idx) := by
  constructor
  · intro files run listed item member data left same
    have held := (afterRuns_get? valid item.idx (some data)).mpr (.inr ⟨run, listed, item, member, rfl, left⟩)
    exact files item.idx data held (valid.lt run listed item member) same
  · intro items idx data held _ same
    rcases (afterRuns_get? valid idx (some data)).mp held with before | ⟨run, listed, item, member, rfl, left⟩
    · rw [Dict.get?_empty] at before
      contradiction
    · exact items run listed item member data left same

theorem loadAndCheck_skipped_iff (output : FileContent ρ) (tokens : List Nat) :
    (∃ error, loadAndCheck isnan output tokens = .skipped error) ↔
      ¬ ∃ data, output = some data ∧ checkHiddenStates isnan data tokens = .ok () := by
  cases output with
  | none => simp [loadAndCheck]
  | some data =>
    cases outcome : checkHiddenStates isnan data tokens with
    | error e => simp [loadAndCheck, outcome]
    | ok passed => simp [loadAndCheck, outcome]

theorem Item.acceptable_iff (item : Item ρ) :
    item.Acceptable isnan dataset ↔
      (∀ data, item.output = some (some data) → data.tokenIds = tokensOf dataset item.idx →
        Validated isnan data (tokensOf dataset item.idx)) ∧
      ¬ item.FailedValidation isnan dataset := by
  unfold Item.Acceptable Item.output Item.FailedValidation
  cases item.fate with
  | requestFailed => simp
  | moved output => simp [checkHiddenStates_ok_iff]
  | checked output =>
    have failed : (∃ out error, Fate.checked output = .checked out ∧
        loadAndCheck isnan out (tokensOf dataset item.idx) = .skipped error) ↔
        ∃ error, loadAndCheck isnan output (tokensOf dataset item.idx) = .skipped error := by simp
    dsimp only
    rw [failed, loadAndCheck_skipped_iff, not_not]
    constructor
    · rintro ⟨data, rfl, passed⟩
      refine ⟨?_, data, rfl, passed⟩
      intro other same _
      cases same
      exact (checkHiddenStates_ok_iff isnan data _).mp passed
    · intro both
      exact both.2

/-- Only validated samples are trained on, and the others tried again, exactly when nothing that
is moved to a final name fails the check there. -/
theorem onlyValidated_iff {runs : List (Run ρ)} (valid : ValidRuns isnan dataset .empty runs) :
    OnlyValidated isnan dataset runs ↔ ∀ run ∈ runs, ∀ item ∈ run.items, item.Acceptable isnan dataset := by
  rw [OnlyValidated, trainedValidated_iff, validatedFiles_iff valid, failedSelectedAgain_iff valid]
  constructor
  · rintro ⟨trained, again⟩ run listed item member
    exact item.acceptable_iff.mpr ⟨trained run listed item member, again run listed item member⟩
  · intro acceptable
    constructor
    · intro run listed item member
      exact (item.acceptable_iff.mp (acceptable run listed item member)).1
    · intro run listed item member
      exact (item.acceptable_iff.mp (acceptable run listed item member)).2

end Runs

section Examples

def oneRow : List DatasetRow := [⟨[7], [true]⟩]

def wholeChunk : GenerateArgs := ⟨none, 1, 0, Nat.one_pos⟩

/-- A sample of the one row, with one channel of one value; `true` is the NaN. -/
def sampleOf (value : Bool) : LoadedHs Bool := ⟨[7], 1, [[value]], by simp⟩

theorem getExistingHiddenStateIndices_empty :
    getExistingHiddenStateIndices (.empty : Directory ρ) = [] := by
  rw [getExistingHiddenStateIndices, Dict.keys_empty, Finset.sort_empty]

/-- A request that fails, and in the next run an output that passes. -/
def retried : List (Run Bool) :=
  [⟨wholeChunk, [⟨0, .requestFailed⟩]⟩, ⟨wholeChunk, [⟨0, .checked (some (sampleOf false))⟩]⟩]

def spoiled : List (Run Bool) := [⟨wholeChunk, [⟨0, .checked (some (sampleOf true))⟩]⟩]

theorem taken_once (fate : Fate Bool) :
    (⟨wholeChunk, [⟨0, fate⟩]⟩ : Run Bool).Valid oneRow .empty := by
  constructor
  · rw [getExistingHiddenStateIndices_empty]
    intro item member
    cases List.mem_singleton.mp member
    show 0 ∈ wholeChunk.toProcess oneRow []
    decide
  · exact List.nodup_singleton _

theorem onlyValidated_retried : OnlyValidated id oneRow retried := by
  have valid : ValidRuns id oneRow .empty retried := ⟨taken_once _, taken_once _, trivial⟩
  apply (onlyValidated_iff valid).mpr
  intro run listed item member
  rcases List.mem_pair.mp listed with rfl | rfl <;> cases List.mem_singleton.mp member
  · trivial
  · exact ⟨sampleOf false, rfl, rfl⟩

/-- The spoiled output is under its final name when the check fails, where the next run finds it
and training loads it. -/
theorem not_onlyValidated_spoiled : ValidRuns id oneRow .empty spoiled ∧
    ¬ TrainedValidated id oneRow (afterRuns id oneRow .empty spoiled) ∧
    ¬ FailedSelectedAgain id oneRow .empty spoiled := by
  have valid : ValidRuns id oneRow .empty spoiled := ⟨taken_once _, trivial⟩
  refine ⟨valid, ?_, ?_⟩
  · rw [trainedValidated_iff, validatedFiles_iff valid]
    intro items
    have validated := items _ (List.mem_singleton_self _) _ (List.mem_singleton_self _) (sampleOf true) rfl rfl
    have clean := validated.finite [true] (List.mem_singleton_self _) true (List.mem_singleton_self _)
    contradiction
  · rw [failedSelectedAgain_iff valid]
    intro passed
    exact passed _ (List.mem_singleton_self _) _ (List.mem_singleton_self _) ⟨_, some .nan, rfl, rfl⟩

end Examples

end DreamAifd.OutputValidation
