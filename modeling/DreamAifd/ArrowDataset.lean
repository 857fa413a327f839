import DreamAifd.Segments

/-! How the training dataset reads an extracted sample. The channels of a file carry no layer
ids; they are told apart by their distance from the end. -/
namespace DreamAifd.ArrowDataset

open Segments

variable {α ρ : Type*}

def pyGet (xs : List α) (k : Int) : Option α :=
  if 0 ≤ k then xs[k.toNat]?
  else if -k ≤ xs.length then xs[xs.length - (-k).toNat]? else none

def pyTake (xs : List α) (k : Int) : List α :=
  if 0 ≤ k then xs.take k.toNat else xs.take (xs.length - (-k).toNat)

/-- A sample's file: for every token the rows of its channels. -/
structure LoadedHs (ρ : Type*) where
  tokenIds : List Nat
  numChannels : Nat
  hiddenStates : List (List ρ)
  shaped : ∀ row ∈ hiddenStates, row.length = numChannels

structure DatasetRow where
  inputIds : List Nat
  lossMask : List Bool

/-- A token's auxiliary rows stay a list here; the dataset joins them. -/
structure RawData (ρ : Type*) where
  hiddenStates : List (List ρ)
  inputIds : List Nat
  verifierLastHiddenStates : List ρ
  lossMask : List Bool
  aifdHiddenStates : Option (List ρ)

/-- The channel behind the verifier's, where one is expected. -/
def aifdRows (aifdChannels : Nat) (hiddenStates : List (List ρ)) : Option (Option (List ρ)) :=
  if aifdChannels = 0 then some none else (hiddenStates.mapM (pyGet · (-1))).map some

def checkTokens (loaded : LoadedHs ρ) (row : DatasetRow) : Option (LoadedHs ρ) :=
  if loaded.tokenIds ≠ row.inputIds then none else some loaded

/-- `_get_raw_data` behind the loading; `none` where nothing is returned. -/
def getRawData (aifdChannels : Nat) (loaded : LoadedHs ρ) (row : DatasetRow) : Option (RawData ρ) := do
  let loaded ← checkTokens loaded row
  let last : Int := loaded.numChannels - 1 - aifdChannels
  let verifier ← loaded.hiddenStates.mapM (pyGet · last)
  let aifd ← aifdRows aifdChannels loaded.hiddenStates
  some {
    hiddenStates := loaded.hiddenStates.map (pyTake · last)
    inputIds := loaded.tokenIds
    verifierLastHiddenStates := verifier
    lossMask := row.lossMask
    aifdHiddenStates := aifd }

theorem checkTokens_eq_some {loaded taken : LoadedHs ρ} {row : DatasetRow} :
    checkTokens loaded row = some taken ↔ loaded = taken ∧ loaded.tokenIds = row.inputIds := by
  unfold checkTokens
  split
  next other => simp [other]
  next same => simp [not_not.mp same]

theorem getRawData_hidden {aifdChannels : Nat} {loaded : LoadedHs ρ} {row : DatasetRow} {out : RawData ρ}
    (taken : getRawData aifdChannels loaded row = some out) :
    out.hiddenStates = loaded.hiddenStates.map (pyTake · (loaded.numChannels - 1 - aifdChannels)) := by
  obtain ⟨matching, checked, taken⟩ := Option.bind_eq_some_iff.mp taken
  obtain ⟨rfl, -⟩ := checkTokens_eq_some.mp checked
  obtain ⟨verifier, -, taken⟩ := Option.bind_eq_some_iff.mp taken
  obtain ⟨aifd, -, taken⟩ := Option.bind_eq_some_iff.mp taken
  cases taken
  rfl

end DreamAifd.ArrowDataset
