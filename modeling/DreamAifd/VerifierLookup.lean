import DreamAifd.Dict
import DreamAifd.FirstMatch

/-! Which tensors of a verifier's checkpoint a draft model starts from. They are looked up by name in the
weight map: as they are, as the end of a longer key, or under another name. -/
namespace DreamAifd.VerifierLookup

open FirstMatch

structure WeightMap where
  entries : List (String × String)
  distinct : (entries.map Prod.fst).Nodup

namespace WeightMap

def keys (weightMap : WeightMap) : List String := weightMap.entries.map Prod.fst

def shard (weightMap : WeightMap) (key : String) : String := (weightMap.entries.lookup key).getD ""

end WeightMap

def weightAliases : String → List String
  | "embed_tokens.weight" => ["tok_embeddings.weight"]
  | "lm_head.weight" => ["output.weight"]
  | "model.norm.weight" => ["norm.weight"]
  | _ => []

def endsWith (key candidate : String) : Bool := candidate.toList.isSuffixOf key.toList

def candidates (name : String) : List String := name :: weightAliases name

/-- The candidate itself, or the first key that ends with it. -/
def resolveCandidate (keys : List String) (candidate : String) : Option String :=
  if candidate ∈ keys then some candidate else keys.find? (endsWith · candidate)

def resolveKey (name : String) (keys : List String) : Option String :=
  (candidates name).findSome? (resolveCandidate keys)

inductive LoadError where
  | valueError (message : String)
  | keyError (key : String)
  | fileNotFound (shard : String)
  | tensorNotFound (key : String)
  deriving DecidableEq

abbrev Files (τ : Type*) := String → Option (String → Option τ)

section Load

variable {τ : Type*}

def nameToKey (layerNames : List String) (weightMap : WeightMap) : List (String × String) :=
  layerNames.filterMap fun name => (resolveKey name weightMap.keys).map (name, ·)

/-- `shard_to_names.setdefault(shard, []).append(pair)` -/
def appendTo (shards : List (String × List (String × String))) (shard : String) (pair : String × String) :
    List (String × List (String × String)) :=
  if shard ∈ shards.map Prod.fst then
    shards.map fun old => if old.1 = shard then (old.1, old.2 ++ [pair]) else old
  else shards ++ [(shard, [pair])]

def shardToNames (weightMap : WeightMap) (pairs : List (String × String)) : List (String × List (String × String)) :=
  pairs.foldl (fun shards pair => appendTo shards (weightMap.shard pair.2) pair) []

def loadTensor (getTensor : String → Option τ) (out : Dict String τ) (pair : String × String) :
    Except LoadError (Dict String τ) :=
  match getTensor pair.2 with
  | none => .error (.tensorNotFound pair.2)
  | some tensor => .ok (out.set pair.1 tensor)

def loadShard (files : Files τ) (out : Dict String τ) (shard : String × List (String × String)) :
    Except LoadError (Dict String τ) :=
  match files shard.1 with
  | none => .error (.fileNotFound shard.1)
  | some getTensor => shard.2.foldlM (loadTensor getTensor) out

def loadModelLayers (layerNames : List String) (weightMap : WeightMap) (files : Files τ) :
    Except LoadError (Dict String τ) :=
  let shards := shardToNames weightMap (nameToKey layerNames weightMap)
  if shards = [] then .error (.valueError "None of the requested tensor names were found in the index.")
  else shards.foldlM (loadShard files) .empty

/-- What a draft model takes over; without a final norm it keeps its own and warns. -/
structure VerifierWeights (τ : Type*) where
  embedTokens : τ
  lmHead : τ
  verifierNorm : Option τ
  warning : Option String

def weightsToLoad (hasVerifierNorm : Bool) : List String :=
  ["embed_tokens.weight", "lm_head.weight"] ++ if hasVerifierNorm then ["model.norm.weight"] else []

def normWarning (nameOrPath : String) : String :=
  "Could not find final norm weights in " ++ nameOrPath ++ ". Using default initialization (weight=1.0)."

def loadVerifierWeights (hasVerifierNorm : Bool) (nameOrPath : String) (weightMap : WeightMap) (files : Files τ) :
    Except LoadError (VerifierWeights τ) :=
  match loadModelLayers (weightsToLoad hasVerifierNorm) weightMap files with
  | .error e => .error e
  | .ok verifierWeights =>
    match verifierWeights.get? "embed_tokens.weight" with
    | none => .error (.keyError "embed_tokens.weight")
    | some embedTokens => .ok {
        embedTokens
        lmHead := (verifierWeights.get? "lm_head.weight").getD embedTokens
        verifierNorm := if hasVerifierNorm then verifierWeights.get? "model.norm.weight" else none
        warning := if hasVerifierNorm ∧ verifierWeights.get? "model.norm.weight" = none
          then some (normWarning nameOrPath) else none }

end Load

section Loaded

variable {τ : Type*} {weightMap : WeightMap} {files : Files τ} {out loaded : Dict String τ}

theorem mem_appendTo {shards : List (String × List (String × String))} {shard name : String}
    {pair other : String × String} : (∃ entry ∈ appendTo shards shard pair, entry.1 = name ∧ other ∈ entry.2) ↔
      (∃ entry ∈ shards, entry.1 = name ∧ other ∈ entry.2) ∨ (name = shard ∧ other = pair) := by
  rw [appendTo]
  split
  next known =>
    obtain ⟨old, listed, rfl⟩ := List.mem_map.mp known
    constructor
    · rintro ⟨entry, member, rfl, here⟩
      obtain ⟨before, earlier, rfl⟩ := List.mem_map.mp member
      split at here
      next same =>
        rcases List.mem_append.mp here with front | last
        · exact .inl ⟨before, earlier, by rw [if_pos same], front⟩
        · exact .inr ⟨by rw [if_pos same, same], List.mem_singleton.mp last⟩
      next different => exact .inl ⟨before, earlier, by rw [if_neg different], here⟩
    · rintro (⟨entry, member, rfl, here⟩ | ⟨rfl, rfl⟩)
      · refine ⟨_, List.mem_map_of_mem member, ?_, ?_⟩
        · split <;> rfl
        · split
          · exact List.mem_append_left _ here
          · exact here
      · refine ⟨_, List.mem_map_of_mem listed, ?_, ?_⟩
        · rw [if_pos rfl]
        · rw [if_pos rfl]
          exact List.mem_append_right _ (List.mem_singleton.mpr rfl)
  next =>
    constructor
    · rintro ⟨entry, member, rfl, here⟩
      rcases List.mem_append.mp member with front | last
      · exact .inl ⟨entry, front, rfl, here⟩
      · obtain rfl := List.mem_singleton.mp last
        exact .inr ⟨rfl, List.mem_singleton.mp here⟩
    · rintro (⟨entry, member, rfl, here⟩ | ⟨rfl, rfl⟩)
      · exact ⟨entry, List.mem_append_left _ member, rfl, here⟩
      · exact ⟨_, List.mem_append_right _ (List.mem_singleton.mpr rfl), rfl, List.mem_singleton.mpr rfl⟩

/-- Every pair stands under the shard of its key. -/
theorem mem_shardToNames {pairs : List (String × String)} {shard : String} {pair : String × String} :
    (∃ entry ∈ shardToNames weightMap pairs, entry.1 = shard ∧ pair ∈ entry.2) ↔
      pair ∈ pairs ∧ shard = weightMap.shard pair.2 := by
  induction pairs using List.reverseRecOn with
  | nil => simp [shardToNames]
  | append_singleton pairs last ih =>
    rw [shardToNames, List.foldl_append, List.foldl_cons, List.foldl_nil, ← shardToNames, mem_appendTo, ih,
      List.mem_append, List.mem_singleton]
    constructor
    · rintro (⟨earlier, place⟩ | ⟨place, rfl⟩)
      · exact ⟨.inl earlier, place⟩
      · exact ⟨.inr rfl, place⟩
    · rintro ⟨earlier | rfl, place⟩
      · exact .inl ⟨earlier, place⟩
      · exact .inr ⟨place, rfl⟩

theorem get?_loadTensors (value : String → Option τ) {getTensor : String → Option τ} {pairs : List (String × String)}
    (agree : ∀ pair ∈ pairs, getTensor pair.2 = value pair.1)
    (ran : pairs.foldlM (loadTensor getTensor) out = .ok loaded) (name : String) :
    loaded.get? name = if name ∈ pairs.map Prod.fst then value name else out.get? name := by
  induction pairs generalizing out with
  | nil =>
    obtain rfl := Except.ok.inj ran
    rw [if_neg (by simp)]
  | cons pair pairs ih =>
    have own := agree pair List.mem_cons_self
    rw [List.foldlM_cons, loadTensor] at ran
    cases held : getTensor pair.2 with
    | none => rw [held] at ran; cases ran
    | some tensor =>
      rw [held] at ran
      rw [ih (fun other member => agree other (List.mem_cons_of_mem _ member)) ran, Dict.get?_set, List.map_cons]
      by_cases later : name ∈ pairs.map Prod.fst
      · rw [if_pos later, if_pos (List.mem_cons_of_mem _ later)]
      · by_cases here : name = pair.1
        · subst here
          rw [if_neg later, if_pos rfl, if_pos List.mem_cons_self, ← own, held]
        · rw [if_neg later, if_neg here, if_neg (by simpa [here] using later)]

theorem get?_loadShards (value : String → Option τ) {shards : List (String × List (String × String))}
    (agree : ∀ shard ∈ shards, ∀ pair ∈ shard.2, (files shard.1).bind (· pair.2) = value pair.1)
    (ran : shards.foldlM (loadShard files) out = .ok loaded) (name : String) :
    loaded.get? name = if ∃ shard ∈ shards, name ∈ shard.2.map Prod.fst then value name else out.get? name := by
  induction shards generalizing out with
  | nil =>
    obtain rfl := Except.ok.inj ran
    rw [if_neg (by simp)]
  | cons shard shards ih =>
    rw [List.foldlM_cons, loadShard] at ran
    cases opened : files shard.1 with
    | none => rw [opened] at ran; cases ran
    | some getTensor =>
      rw [opened] at ran
      dsimp only at ran
      cases first : shard.2.foldlM (loadTensor getTensor) out with
      | error e => rw [first] at ran; cases ran
      | ok next =>
        rw [first] at ran
        have own : ∀ pair ∈ shard.2, getTensor pair.2 = value pair.1 := by
          intro pair member
          rw [← agree shard List.mem_cons_self pair member, opened]
          rfl
        have tensors := get?_loadTensors value own first name
        rw [ih (fun other member => agree other (List.mem_cons_of_mem _ member)) ran, tensors]
        by_cases later : ∃ shard ∈ shards, name ∈ shard.2.map Prod.fst
        · obtain ⟨other, member, here⟩ := later
          rw [if_pos ⟨other, member, here⟩, if_pos ⟨other, List.mem_cons_of_mem _ member, here⟩]
        · rw [if_neg later]
          refine if_congr ?_ rfl rfl
          rw [List.exists_mem_cons_iff]
          exact (or_iff_left later).symm

def tensorOf (weightMap : WeightMap) (files : Files τ) (name : String) : Option τ :=
  (resolveKey name weightMap.keys).bind fun key => (files (weightMap.shard key)).bind (· key)

theorem loadModelLayers_get? {layerNames : List String} (ran : loadModelLayers layerNames weightMap files = .ok loaded)
    {name : String} (asked : name ∈ layerNames) : loaded.get? name = tensorOf weightMap files name := by
  rw [loadModelLayers] at ran
  split at ran
  · cases ran
  have agree : ∀ shard ∈ shardToNames weightMap (nameToKey layerNames weightMap), ∀ pair ∈ shard.2,
      (files shard.1).bind (· pair.2) = tensorOf weightMap files pair.1 := by
    intro shard member pair here
    obtain ⟨listed, place⟩ := mem_shardToNames.mp ⟨shard, member, rfl, here⟩
    obtain ⟨name, -, found⟩ := List.mem_filterMap.mp listed
    obtain ⟨key, resolved, rfl⟩ := Option.map_eq_some_iff.mp found
    rw [tensorOf, resolved, place]
    rfl
  rw [get?_loadShards _ agree ran name]
  split
  next => rfl
  next absent =>
    rw [Dict.get?_empty, tensorOf]
    cases resolved : resolveKey name weightMap.keys with
    | none => rfl
    | some key =>
      have listed : (name, key) ∈ nameToKey layerNames weightMap :=
        List.mem_filterMap.mpr ⟨name, asked, by rw [resolved]; rfl⟩
      obtain ⟨shard, member, -, here⟩ := mem_shardToNames.mpr ⟨listed, rfl⟩
      exact absurd ⟨shard, member, List.mem_map_of_mem here⟩ absent

end Loaded

/-- Whether a component is a number, as the layers of a list have. -/
def insideLayer (key : String) : Bool :=
  (key.toList.splitOnP (· == '.')).any fun component => !component.isEmpty && component.all Char.isDigit

/-- The keys that stand for a name: the name or an alias, behind whole components, and for the final norm
none inside a layer. -/
def Names (name key : String) : Prop :=
  (∃ candidate ∈ candidates name, key = candidate ∨ ∃ components, key = components ++ "." ++ candidate) ∧
    (name = "model.norm.weight" → insideLayer key = false)

/-- The candidate that decides: the first that some key ends with. -/
def decisive (name : String) (keys : List String) : Option String :=
  (candidates name).find? fun candidate => keys.any (endsWith · candidate)

/-- The candidate that decides is a key, or the end of one key only, which stands for the name. -/
def Determined (name : String) (keys : List String) : Prop :=
  ∀ candidate, decisive name keys = some candidate → candidate ∉ keys →
    ∃ key, (∀ other ∈ keys, endsWith other candidate ↔ other = key) ∧ Names name key

section Resolve

variable {name candidate key : String} {keys : List String} {weightMap other : WeightMap}

@[simp] theorem endsWith_self (key : String) : endsWith key key = true :=
  List.isSuffixOf_iff_suffix.mpr List.suffix_rfl

theorem names_candidate (member : candidate ∈ candidates name) : Names name candidate := by
  refine ⟨⟨candidate, member, .inl rfl⟩, ?_⟩
  rintro rfl
  have listed : candidate ∈ ["model.norm.weight", "norm.weight"] := member
  rcases List.mem_pair.mp listed with rfl | rfl
  · decide
  · decide

theorem isSome_resolveCandidate (keys : List String) (candidate : String) :
    (resolveCandidate keys candidate).isSome = keys.any (endsWith · candidate) := by
  rw [resolveCandidate]
  split
  next present =>
    have found : keys.any (endsWith · candidate) = true :=
      List.any_eq_true.mpr ⟨candidate, present, endsWith_self candidate⟩
    exact found.symm
  next => exact List.isSome_find?

theorem resolveKey_eq (name : String) (keys : List String) :
    resolveKey name keys = (decisive name keys).bind (resolveCandidate keys) :=
  findSome?_eq_bind_find? (isSome_resolveCandidate keys)

theorem decisive_perm {keys' : List String} (permuted : keys'.Perm keys) (name : String) :
    decisive name keys' = decisive name keys := by
  rw [decisive, decisive]
  congr 1
  funext candidate
  exact permuted.any_eq

theorem resolveKey_mem (resolved : resolveKey name keys = some key) : key ∈ keys := by
  rw [resolveKey_eq] at resolved
  obtain ⟨candidate, -, found⟩ := Option.bind_eq_some_iff.mp resolved
  rw [resolveCandidate] at found
  split at found
  next present => exact Option.some.inj found ▸ present
  next => exact List.mem_of_find?_eq_some found

/-- Every key with the deciding end comes first in some order of the entries. -/
theorem exists_resolveKey (decides : decisive name weightMap.keys = some candidate)
    (absent : candidate ∉ weightMap.keys) (member : key ∈ weightMap.keys) (ends : endsWith key candidate) :
    ∃ other : WeightMap, other.entries.Perm weightMap.entries ∧ resolveKey name other.keys = some key := by
  obtain ⟨entry, listed, rfl⟩ := List.mem_map.mp member
  obtain ⟨entries, permuted, first⟩ :=
    exists_perm_find? (p := fun entry : String × String => endsWith entry.1 candidate) (x := entry) listed ends
  have renamed : (entries.map Prod.fst).Perm weightMap.keys := permuted.map _
  refine ⟨⟨entries, renamed.nodup_iff.mpr weightMap.distinct⟩, permuted, ?_⟩
  rw [resolveKey_eq, WeightMap.keys, decisive_perm renamed, decides, Option.bind_some, resolveCandidate,
    if_neg fun present => absent (renamed.subset present), List.find?_map]
  exact congrArg (Option.map Prod.fst) first

/-- One result for every order of the keys. -/
theorem Determined.resolves (determined : Determined name keys) :
    ∃ result, (∀ keys' : List String, keys'.Perm keys → resolveKey name keys' = result) ∧
      ∀ key, result = some key → Names name key := by
  cases decides : decisive name keys with
  | none =>
    refine ⟨none, fun keys' permuted => ?_, nofun⟩
    rw [resolveKey_eq, decisive_perm permuted, decides, Option.bind_none]
  | some candidate =>
    have deciding {keys' : List String} (permuted : keys'.Perm keys) :
        resolveKey name keys' = resolveCandidate keys' candidate := by
      rw [resolveKey_eq, decisive_perm permuted, decides, Option.bind_some]
    by_cases present : candidate ∈ keys
    · refine ⟨some candidate, fun keys' permuted => ?_, ?_⟩
      · rw [deciding permuted, resolveCandidate, if_pos (permuted.mem_iff.mpr present)]
      · intro key same
        obtain rfl := Option.some.inj same
        exact names_candidate (List.mem_of_find?_eq_some decides)
    · obtain ⟨only, ends, names⟩ := determined candidate decides present
      refine ⟨keys.find? (endsWith · candidate), fun keys' permuted => ?_, fun key found => ?_⟩
      · rw [deciding permuted, resolveCandidate, if_neg fun here => present (permuted.subset here)]
        exact find?_eq_of_unique permuted fun key member key' member' first second =>
          ((ends key member).mp first).trans ((ends key' member').mp second).symm
      · have endsHere : endsWith key candidate := List.find?_some (p := (endsWith · candidate)) found
        rw [(ends key (List.mem_of_find?_eq_some found)).mp endsHere]
        exact names

/-- A name is resolved by the keys and not by their order, to a key that stands for it. -/
theorem determined_iff : Determined name weightMap.keys ↔
    (∀ other : WeightMap, other.entries.Perm weightMap.entries →
      resolveKey name other.keys = resolveKey name weightMap.keys) ∧
    ∀ key, resolveKey name weightMap.keys = some key → Names name key := by
  constructor
  · intro determined
    obtain ⟨result, resolves, named⟩ := determined.resolves
    have own := resolves weightMap.keys (List.Perm.refl _)
    exact ⟨fun other permuted => (resolves other.keys (permuted.map _)).trans own.symm,
      fun key resolved => named key (own.symm.trans resolved)⟩
  · rintro ⟨same, named⟩ candidate decides absent
    have some_ : weightMap.keys.any (endsWith · candidate) = true :=
      List.find?_some (p := fun candidate => weightMap.keys.any (endsWith · candidate)) decides
    obtain ⟨key, member, ends⟩ := List.any_eq_true.mp some_
    have first (other : String) (listed : other ∈ weightMap.keys) (endsToo : endsWith other candidate) :
        resolveKey name weightMap.keys = some other := by
      obtain ⟨reordered, permuted, resolved⟩ := exists_resolveKey decides absent listed endsToo
      rw [← same reordered permuted, resolved]
    refine ⟨key, fun other listed => ⟨fun endsToo => ?_, ?_⟩, named key (first key member ends)⟩
    · exact Option.some.inj ((first other listed endsToo).symm.trans (first key member ends))
    · rintro rfl
      exact ends

/-- A checkpoint that has the name itself leaves no choice. -/
theorem determined_of_mem (present : name ∈ keys) : Determined name keys := by
  intro candidate decides absent
  have own : keys.any (endsWith · name) = true := List.any_eq_true.mpr ⟨name, present, endsWith_self name⟩
  rw [decisive, candidates, List.find?_cons, own] at decides
  exact absurd (Option.some.inj decides ▸ present) absent

end Resolve

/-- What a draft model relies on when it looks up its verifier's tensors, whether or not it has a final norm. -/
structure LooksUp (τ : Type*) (weightMap : WeightMap) (hasVerifierNorm : Bool) : Prop where
  same (other : WeightMap) (permuted : other.entries.Perm weightMap.entries) (name : String)
    (asked : name ∈ weightsToLoad hasVerifierNorm) : resolveKey name other.keys = resolveKey name weightMap.keys
  named (name : String) (asked : name ∈ weightsToLoad hasVerifierNorm) (key : String)
    (resolved : resolveKey name weightMap.keys = some key) : key ∈ weightMap.keys ∧ Names name key
  loaded (other : WeightMap) (permuted : other.entries.Perm weightMap.entries) (files : Files τ) :
    loadModelLayers (weightsToLoad hasVerifierNorm) other files =
      loadModelLayers (weightsToLoad hasVerifierNorm) weightMap files
  leftOut (files : Files τ) (out : Dict String τ)
    (ran : loadModelLayers (weightsToLoad hasVerifierNorm) weightMap files = .ok out) (name : String)
    (asked : name ∈ weightsToLoad hasVerifierNorm) (absent : ∀ key ∈ weightMap.keys, ¬ Names name key) :
    out.get? name = none
  fallBack (nameOrPath : String) (files : Files τ) (weights : VerifierWeights τ)
    (ran : loadVerifierWeights hasVerifierNorm nameOrPath weightMap files = .ok weights) :
    ((∀ key ∈ weightMap.keys, ¬ Names "lm_head.weight" key) → weights.lmHead = weights.embedTokens) ∧
      (hasVerifierNorm = true → (∀ key ∈ weightMap.keys, ¬ Names "model.norm.weight" key) →
        weights.verifierNorm = none ∧ weights.warning = some (normWarning nameOrPath))

section Lookup

variable {τ : Type*} {weightMap other : WeightMap} {hasVerifierNorm : Bool}

theorem shard_perm (permuted : other.entries.Perm weightMap.entries) (key : String) :
    other.shard key = weightMap.shard key := by
  rw [WeightMap.shard, WeightMap.shard, lookup_perm permuted weightMap.distinct]

theorem loadModelLayers_congr {layerNames : List String} (permuted : other.entries.Perm weightMap.entries)
    (same : ∀ name ∈ layerNames, resolveKey name other.keys = resolveKey name weightMap.keys) (files : Files τ) :
    loadModelLayers layerNames other files = loadModelLayers layerNames weightMap files := by
  have pairs : nameToKey layerNames other = nameToKey layerNames weightMap :=
    List.filterMap_congr fun name asked => by rw [same name asked]
  have shards : shardToNames other = shardToNames weightMap := by
    funext pairs
    rw [shardToNames, shardToNames]
    simp only [shard_perm permuted]
  rw [loadModelLayers, loadModelLayers, pairs, shards]

/-- For every checkpoint, the conditions on its keys are just what the lookup needs. -/
theorem looksUp_iff (τ : Type*) (weightMap : WeightMap) (hasVerifierNorm : Bool) :
    LooksUp τ weightMap hasVerifierNorm ↔
      ∀ name ∈ weightsToLoad hasVerifierNorm, Determined name weightMap.keys := by
  constructor
  · intro looksUp name asked
    exact determined_iff.mpr ⟨fun other permuted => looksUp.same other permuted name asked,
      fun key resolved => (looksUp.named name asked key resolved).2⟩
  · intro determined
    have facts (name : String) (asked : name ∈ weightsToLoad hasVerifierNorm) := determined_iff.mp (determined name asked)
    have nothing {files : Files τ} {out : Dict String τ}
        (ran : loadModelLayers (weightsToLoad hasVerifierNorm) weightMap files = .ok out) (name : String)
        (asked : name ∈ weightsToLoad hasVerifierNorm) (absent : ∀ key ∈ weightMap.keys, ¬ Names name key) :
        out.get? name = none := by
      rw [loadModelLayers_get? ran asked, tensorOf]
      cases resolved : resolveKey name weightMap.keys with
      | none => rfl
      | some key => exact absurd ((facts name asked).2 key resolved) (absent key (resolveKey_mem resolved))
    constructor
    case same => exact fun other permuted name asked => (facts name asked).1 other permuted
    case named => exact fun name asked key resolved => ⟨resolveKey_mem resolved, (facts name asked).2 key resolved⟩
    case loaded =>
      exact fun other permuted files => loadModelLayers_congr permuted
        (fun name asked => (facts name asked).1 other permuted) files
    case leftOut => exact fun files out ran name asked absent => nothing ran name asked absent
    case fallBack =>
      intro nameOrPath files weights ran
      rw [loadVerifierWeights] at ran
      split at ran
      · cases ran
      next verifierWeights loaded =>
        split at ran
        · cases ran
        next embedTokens found =>
          obtain rfl := Except.ok.inj ran
          refine ⟨fun absent => ?_, fun asks absent => ?_⟩
          · have left := nothing loaded "lm_head.weight" (by simp [weightsToLoad]) absent
            simp only [left, Option.getD_none]
          · subst asks
            have left := nothing loaded "model.norm.weight" (by simp [weightsToLoad]) absent
            simp [left]

end Lookup

section NoFinalNorm

def layerNormFirst : WeightMap where
  entries := [("lm_head.weight", "a"), ("model.embed_tokens.weight", "a"),
    ("model.layers.0.input_layernorm.weight", "a"), ("model.final_layernorm.weight", "a")]
  distinct := by decide

def finalNormFirst : WeightMap where
  entries := [("lm_head.weight", "a"), ("model.embed_tokens.weight", "a"), ("model.final_layernorm.weight", "a"),
    ("model.layers.0.input_layernorm.weight", "a")]
  distinct := by decide

/-- A layer's norm is taken for the final one, or another key that ends in the same letters; neither is
named so, and nothing warns of it. -/
theorem not_looksUp_layerNorm :
    ¬ LooksUp Nat layerNormFirst true ∧
      resolveKey "model.norm.weight" layerNormFirst.keys = some "model.layers.0.input_layernorm.weight" ∧
      resolveKey "model.norm.weight" finalNormFirst.keys = some "model.final_layernorm.weight" ∧
      loadVerifierWeights true "verifier" layerNormFirst (fun _ => some fun key => some key.length) =
        .ok ⟨25, 14, some 37, none⟩ := by
  refine ⟨fun looksUp => ?_, by decide +kernel, by decide +kernel, ?_⟩
  · have named := looksUp.named "model.norm.weight" (by decide) "model.layers.0.input_layernorm.weight" (by decide +kernel)
    exact absurd (named.2.2 rfl) (by decide)
  · rfl

end NoFinalNorm

end DreamAifd.VerifierLookup
