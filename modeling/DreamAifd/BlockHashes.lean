import DreamAifd.HashChain

/-! The requests of the server as its KV cache sees them, and the hashes of their full blocks. A
hash takes in the hash of the block before it, so it stands for all tokens up to the end of its block. -/
namespace DreamAifd.KvCache

variable {η : Type*}

inductive RequestStatus where
  | waiting | running | preempted | finishedStopped | finishedLengthCapped | finishedAborted
  deriving DecidableEq, Repr

def RequestStatus.isFinished : RequestStatus → Bool
  | .waiting | .running | .preempted => false
  | _ => true

/-- A text request. `arrivalTime` is read off a clock, and `blockHashes` has the hashes so far. -/
structure Request (η : Type*) where
  requestId : String
  priority : Int
  arrivalTime : Nat
  loraName : Option String
  cacheSalt : Option String
  skipReadingPrefixCache : Bool
  maxTokens : Nat
  numPromptTokens : Nat
  allTokenIds : List Int
  specTokenIds : List Int
  blockHashes : List η
  numComputedTokens : Nat
  numInFlightTokens : Nat
  status : RequestStatus
  numPreemptions : Nat
  deriving DecidableEq, Repr

namespace Request

variable (request : Request η)

def numTokens : Nat := request.allTokenIds.length

def numTokensWithSpec : Nat := request.allTokenIds.length + request.specTokenIds.length

def numOutputTokens : Nat := request.numTokens - request.numPromptTokens

end Request

/-- `caching_hash_fn` on a parent hash, the tokens of a block and its extra keys. -/
structure Hasher (η : Type*) where
  hashFn : η → List Int → Option (List String) → η
  noneHash : η
  hashBlockSize : Nat
  positive : 0 < hashBlockSize

/-- The salt counts for the first block only; an empty one does not count. -/
def generateBlockHashExtraKeys (request : Request η) (startTokenIdx : Nat) : Option (List String) :=
  let loraExtraKeys := request.loraName.toList
  let cacheSaltKeys := if startTokenIdx = 0 then (request.cacheSalt.filter (· ≠ "")).toList else []
  let extraKeys := loraExtraKeys ++ cacheSaltKeys
  if extraKeys = [] then none else some extraKeys

def hashBlockTokens (hasher : Hasher η) (parentBlockHash : Option η) (currBlockTokenIds : List Int)
    (extraKeys : Option (List String)) : η :=
  hasher.hashFn (parentBlockHash.getD hasher.noneHash) currBlockTokenIds extraKeys

def slice {α : Type*} (xs : List α) (start stop : Nat) : List α := (xs.take stop).drop start

def hashLoop (hasher : Hasher η) (request : Request η) : Nat → Nat → Option η → List η
  | 0, _, _ => []
  | fuel + 1, startTokenIdx, prevBlockHashValue =>
    let endTokenIdx := startTokenIdx + hasher.hashBlockSize
    if request.numTokens < endTokenIdx then []
    else
      let extraKeys := generateBlockHashExtraKeys request startTokenIdx
      let blockTokens := slice request.allTokenIds startTokenIdx endTokenIdx
      let blockHash := hashBlockTokens hasher prevBlockHashValue blockTokens extraKeys
      blockHash :: hashLoop hasher request fuel endTokenIdx (some blockHash)

/-- A block has at least one token, so the loop ends before its fuel does. -/
def requestBlockHasher (hasher : Hasher η) (request : Request η) : List η :=
  let startTokenIdx := request.blockHashes.length * hasher.hashBlockSize
  if request.numTokens < startTokenIdx + hasher.hashBlockSize then []
  else hashLoop hasher request request.numTokens startTokenIdx request.blockHashes.getLast?

namespace Request

def updateBlockHashes (hasher : Hasher η) (request : Request η) : Request η :=
  { request with blockHashes := request.blockHashes ++ requestBlockHasher hasher request }

def appendOutputTokenIds (hasher : Hasher η) (request : Request η) (tokenIds : List Int) : Request η :=
  updateBlockHashes hasher { request with allTokenIds := request.allTokenIds ++ tokenIds }

end Request

structure EngineCoreRequest where
  requestId : String
  promptTokenIds : List Int
  priority : Int
  arrivalTime : Nat
  loraName : Option String
  cacheSalt : Option String
  skipReadingPrefixCache : Bool
  maxTokens : Nat
  deriving DecidableEq, Repr

def Request.fromEngineCoreRequest (hasher : Hasher η) (request : EngineCoreRequest) : Request η :=
  updateBlockHashes hasher
    { requestId := request.requestId
      priority := request.priority
      arrivalTime := request.arrivalTime
      loraName := request.loraName
      cacheSalt := request.cacheSalt
      skipReadingPrefixCache := request.skipReadingPrefixCache
      maxTokens := request.maxTokens
      numPromptTokens := request.promptTokenIds.length
      allTokenIds := request.promptTokenIds
      specTokenIds := []
      blockHashes := []
      numComputedTokens := 0
      numInFlightTokens := 0
      status := .waiting
      numPreemptions := 0 }

/-- The hashes of the larger blocks of a cache group. -/
def blockHashListWithBlockSize (blockHashes : List η) (hashBlockSize targetBlockSize : Nat) : List η :=
  let scaleFactor := targetBlockSize / hashBlockSize
  (List.range (blockHashes.length / scaleFactor)).filterMap fun idx => blockHashes[(idx + 1) * scaleFactor - 1]?

/-! ### What a hash stands for -/

/-- What goes into the hash of one block. -/
def blockInput (hasher : Hasher η) (request : Request η) (i : Nat) : List Int × Option (List String) :=
  (slice request.allTokenIds (i * hasher.hashBlockSize) (i * hasher.hashBlockSize + hasher.hashBlockSize),
    generateBlockHashExtraKeys request (i * hasher.hashBlockSize))

def blockInputs (hasher : Hasher η) (request : Request η) : List (List Int × Option (List String)) :=
  (List.range (request.numTokens / hasher.hashBlockSize)).map (blockInput hasher request)

def Hasher.step (hasher : Hasher η) (parent : η) (input : List Int × Option (List String)) : η :=
  hasher.hashFn parent input.1 input.2

/-- The hashes of a request are those of all its full blocks. -/
def Hashed (hasher : Hasher η) (request : Request η) : Prop :=
  request.blockHashes = digests hasher.step hasher.noneHash (blockInputs hasher request)

variable {hasher : Hasher η} {request : Request η}

theorem drop_blockInputs {i : Nat} (bound : (i + 1) * hasher.hashBlockSize ≤ request.numTokens) :
    (blockInputs hasher request).drop i =
      blockInput hasher request i :: (blockInputs hasher request).drop (i + 1) := by
  have full : i < request.numTokens / hasher.hashBlockSize :=
    (Nat.le_div_iff_mul_le hasher.positive).mpr bound
  have inside : i < (blockInputs hasher request).length := by simpa [blockInputs] using full
  rw [List.drop_eq_getElem_cons inside]
  simp [blockInputs]

theorem drop_blockInputs_nil {i : Nat} (beyond : request.numTokens < (i + 1) * hasher.hashBlockSize) :
    (blockInputs hasher request).drop i = [] := by
  have short : request.numTokens / hasher.hashBlockSize < i + 1 :=
    (Nat.div_lt_iff_lt_mul hasher.positive).mpr beyond
  exact List.drop_eq_nil_of_le (by simpa [blockInputs] using Nat.le_of_lt_succ short)

theorem hashLoop_eq {fuel i : Nat} {p : Option η}
    (enough : request.numTokens < (i + fuel + 1) * hasher.hashBlockSize) :
    hashLoop hasher request fuel (i * hasher.hashBlockSize) p =
      digests hasher.step (p.getD hasher.noneHash) ((blockInputs hasher request).drop i) := by
  induction fuel generalizing i p with
  | zero => rw [drop_blockInputs_nil enough]; rfl
  | succ fuel ih =>
    have shift : i * hasher.hashBlockSize + hasher.hashBlockSize = (i + 1) * hasher.hashBlockSize :=
      (Nat.succ_mul _ _).symm
    rw [hashLoop]
    by_cases beyond : request.numTokens < (i + 1) * hasher.hashBlockSize
    · rw [drop_blockInputs_nil beyond, shift, if_pos beyond]
      rfl
    · have more := ih (i := i + 1) (p := some (hashBlockTokens hasher p
        (blockInput hasher request i).1 (blockInput hasher request i).2)) (by rwa [Nat.add_right_comm i 1])
      rw [drop_blockInputs (Nat.not_lt.mp beyond), shift, if_neg beyond, digests]
      simp only [blockInput, shift] at more ⊢
      rw [more]
      rfl

theorem length_blockInputs (hasher : Hasher η) (request : Request η) :
    (blockInputs hasher request).length = request.numTokens / hasher.hashBlockSize := by simp [blockInputs]

/-- The hasher goes on where the hashes end. -/
theorem hashed_updateBlockHashes {k : Nat} (bound : k ≤ request.numTokens / hasher.hashBlockSize)
    (before : request.blockHashes = digests hasher.step hasher.noneHash ((blockInputs hasher request).take k)) :
    Hashed hasher (request.updateBlockHashes hasher) := by
  have size : request.blockHashes.length = k := by
    rw [before, length_digests, List.length_take, length_blockInputs, Nat.min_eq_left bound]
  have next : requestBlockHasher hasher request =
      digests hasher.step (request.blockHashes.getLast?.getD hasher.noneHash) ((blockInputs hasher request).drop k) := by
    rw [requestBlockHasher, size]
    by_cases beyond : request.numTokens < k * hasher.hashBlockSize + hasher.hashBlockSize
    · rw [if_pos beyond, drop_blockInputs_nil (by rwa [Nat.succ_mul])]
      rfl
    · rw [if_neg beyond]
      have step : request.numTokens + 1 ≤ (request.numTokens + 1) * hasher.hashBlockSize :=
        Nat.le_mul_of_pos_right _ hasher.positive
      exact hashLoop_eq (lt_of_lt_of_le step (Nat.mul_le_mul_right _ (by omega)))
  have chained : request.blockHashes.getLast?.getD hasher.noneHash =
      ((blockInputs hasher request).take k).foldl hasher.step hasher.noneHash := by
    rw [before, getLast?_digests]
  have same : blockInputs hasher (request.updateBlockHashes hasher) = blockInputs hasher request := rfl
  rw [Hashed, same, Request.updateBlockHashes, next, chained, before, ← digests_append, List.take_append_drop]

/-- A block that is full stays what it is when tokens come after it. -/
theorem blockInput_append {request' : Request η} {tokenIds : List Int} {i : Nat}
    (tokens : request'.allTokenIds = request.allTokenIds ++ tokenIds)
    (lora : request'.loraName = request.loraName) (salt : request'.cacheSalt = request.cacheSalt)
    (full : (i + 1) * hasher.hashBlockSize ≤ request.numTokens) :
    blockInput hasher request' i = blockInput hasher request i := by
  have inside : i * hasher.hashBlockSize + hasher.hashBlockSize ≤ request.allTokenIds.length :=
    (Nat.succ_mul _ _).symm.trans_le full
  rw [blockInput, blockInput, slice, slice, generateBlockHashExtraKeys, generateBlockHashExtraKeys,
    tokens, lora, salt, List.take_append_of_le_length inside]

theorem take_blockInputs_append {r : Request η} {tokenIds : List Int}
    (tokens : r.allTokenIds = request.allTokenIds ++ tokenIds)
    (lora : r.loraName = request.loraName) (salt : r.cacheSalt = request.cacheSalt) :
    (blockInputs hasher r).take (request.numTokens / hasher.hashBlockSize) = blockInputs hasher request := by
  have more : request.numTokens / hasher.hashBlockSize ≤ r.numTokens / hasher.hashBlockSize :=
    Nat.div_le_div_right (by simp [Request.numTokens, tokens])
  rw [blockInputs, ← List.map_take, List.take_range, Nat.min_eq_left more]
  refine List.map_congr_left fun i member => blockInput_append tokens lora salt ?_
  exact (Nat.le_div_iff_mul_le hasher.positive).mp (List.mem_range.mp member)

theorem hashed_appendOutputTokenIds (hashed : Hashed hasher request) (tokenIds : List Int) :
    Hashed hasher (request.appendOutputTokenIds hasher tokenIds) := by
  refine hashed_updateBlockHashes (k := request.numTokens / hasher.hashBlockSize)
    (Nat.div_le_div_right (by simp [Request.numTokens])) ?_
  exact hashed.trans (congrArg _ (take_blockInputs_append (r := { request with
    allTokenIds := request.allTokenIds ++ tokenIds }) rfl rfl rfl).symm)

/-- The tokens and the extra keys of the first blocks tell the tokens themselves. -/
theorem take_allTokenIds_eq {request' : Request η} {m : Nat}
    (full : m * hasher.hashBlockSize ≤ request.numTokens) (full' : m * hasher.hashBlockSize ≤ request'.numTokens)
    (same : ∀ i < m, blockInput hasher request i = blockInput hasher request' i) :
    request.allTokenIds.take (m * hasher.hashBlockSize) = request'.allTokenIds.take (m * hasher.hashBlockSize) := by
  induction m with
  | zero => rw [Nat.zero_mul, List.take_zero, List.take_zero]
  | succ m ih =>
    have shorter : m * hasher.hashBlockSize ≤ (m + 1) * hasher.hashBlockSize := Nat.mul_le_mul_right _ (Nat.le_succ m)
    have front := ih (shorter.trans full) (shorter.trans full') fun i less => same i (Nat.lt_succ_of_lt less)
    have last := congrArg Prod.fst (same m (Nat.lt_succ_self m))
    have split : ∀ tokens : List Int, tokens.take ((m + 1) * hasher.hashBlockSize) =
        tokens.take (m * hasher.hashBlockSize) ++
          slice tokens (m * hasher.hashBlockSize) (m * hasher.hashBlockSize + hasher.hashBlockSize) := by
      intro tokens
      rw [slice, Nat.succ_mul]
      conv_lhs => rw [← List.take_append_drop (m * hasher.hashBlockSize) (tokens.take _)]
      rw [List.take_take, Nat.min_eq_left (Nat.le_add_right _ _)]
    rw [split, split, front]
    exact congrArg _ last

def Request.salt (request : Request η) : Option String := request.cacheSalt.filter (· ≠ "")

/-- One request has as its salt what the other has as its adapter. -/
def Confused (request request' : Request η) : Prop :=
  request.loraName = none ∧ request.salt ≠ none ∧ request'.loraName = request.salt ∧ request'.salt = none

theorem generateBlockHashExtraKeys_first {request' : Request η} :
    generateBlockHashExtraKeys request 0 = generateBlockHashExtraKeys request' 0 ↔
      (request.loraName = request'.loraName ∧ request.salt = request'.salt) ∨
        Confused request request' ∨ Confused request' request := by
  simp only [generateBlockHashExtraKeys, Confused, Request.salt, if_true]
  generalize request.cacheSalt.filter _ = salt
  generalize request'.cacheSalt.filter _ = salt'
  cases request.loraName <;> cases request'.loraName <;> cases salt <;> cases salt' <;> simp
  exact eq_comm

theorem generateBlockHashExtraKeys_later {request' : Request η} {startTokenIdx : Nat} (later : startTokenIdx ≠ 0) :
    generateBlockHashExtraKeys request startTokenIdx = generateBlockHashExtraKeys request' startTokenIdx ↔
      request.loraName = request'.loraName := by
  simp only [generateBlockHashExtraKeys, later, if_false, List.append_nil]
  cases request.loraName <;> cases request'.loraName <;> simp

theorem getElem?_blockHashes (hashed : Hashed hasher request) {i : Nat}
    (full : (i + 1) * hasher.hashBlockSize ≤ request.numTokens) :
    request.blockHashes[i]? =
      some (((blockInputs hasher request).take (i + 1)).foldl hasher.step hasher.noneHash) := by
  rw [hashed]
  refine getElem?_digests ?_
  rw [length_blockInputs]
  exact (Nat.le_div_iff_mul_le hasher.positive).mpr full

theorem take_blockInputs {m : Nat} (full : m * hasher.hashBlockSize ≤ request.numTokens) :
    (blockInputs hasher request).take m = (List.range m).map (blockInput hasher request) := by
  rw [blockInputs, ← List.map_take, List.take_range,
    Nat.min_eq_left ((Nat.le_div_iff_mul_le hasher.positive).mpr full)]

/-- Two full blocks have one hash when they end the same tokens in the same place, of requests with one
adapter and one salt; or else in a first block, where an adapter and a salt of one name count as one. -/
theorem blockHash_eq_iff {request' : Request η} (free : CollisionFree hasher.step hasher.noneHash)
    (hashed : Hashed hasher request) (hashed' : Hashed hasher request') {i j : Nat}
    (full : (i + 1) * hasher.hashBlockSize ≤ request.numTokens)
    (full' : (j + 1) * hasher.hashBlockSize ≤ request'.numTokens) :
    request.blockHashes[i]? = request'.blockHashes[j]? ↔
      i = j ∧ request.allTokenIds.take ((i + 1) * hasher.hashBlockSize) =
          request'.allTokenIds.take ((i + 1) * hasher.hashBlockSize) ∧
        ((request.loraName = request'.loraName ∧ request.salt = request'.salt) ∨
          i = 0 ∧ (Confused request request' ∨ Confused request' request)) := by
  rw [getElem?_blockHashes hashed full, getElem?_blockHashes hashed' full', Option.some_inj,
    take_blockInputs full, take_blockInputs full']
  constructor
  · intro same
    have inputs := free.foldl_inj same
    have level : i = j := by simpa using congrArg List.length inputs
    subst level
    have each : ∀ k < i + 1, blockInput hasher request k = blockInput hasher request' k := fun k less =>
      List.map_inj_left.mp inputs k (List.mem_range.mpr less)
    refine ⟨rfl, take_allTokenIds_eq full full' each, ?_⟩
    have first := congrArg Prod.snd (each 0 (Nat.succ_pos i))
    simp only [blockInput, Nat.zero_mul] at first
    rcases generateBlockHashExtraKeys_first.mp first with alike | confused
    · exact .inl alike
    · cases i with
      | zero => exact .inr ⟨rfl, confused⟩
      | succ i =>
        -- The second block has the adapter alone, which tells the two readings apart.
        have second := congrArg Prod.snd (each 1 (Nat.succ_lt_succ (Nat.succ_pos i)))
        simp only [blockInput, Nat.one_mul] at second
        have lora := (generateBlockHashExtraKeys_later hasher.positive.ne').mp second
        unfold Confused at confused
        grind
  · rintro ⟨rfl, tokens, origin⟩
    refine congrArg _ (List.map_congr_left fun k member => ?_)
    have inside : k * hasher.hashBlockSize + hasher.hashBlockSize ≤ (i + 1) * hasher.hashBlockSize := by
      rw [← Nat.succ_mul]
      exact Nat.mul_le_mul_right _ (Nat.succ_le_of_lt (List.mem_range.mp member))
    have slices : ∀ tokens : List Int,
        slice tokens (k * hasher.hashBlockSize) (k * hasher.hashBlockSize + hasher.hashBlockSize) =
          slice (tokens.take ((i + 1) * hasher.hashBlockSize)) (k * hasher.hashBlockSize)
            (k * hasher.hashBlockSize + hasher.hashBlockSize) := by
      intro tokens
      rw [slice, slice, List.take_take, Nat.min_eq_left inside]
    refine Prod.ext ?_ ?_
    · simp only [blockInput]
      rw [slices, tokens, ← slices]
    · by_cases first : k = 0
      · subst first
        simp only [blockInput, Nat.zero_mul]
        exact generateBlockHashExtraKeys_first.mpr (origin.imp_right And.right)
      · have later : k * hasher.hashBlockSize ≠ 0 := Nat.mul_ne_zero first hasher.positive.ne'
        have lora : request.loraName = request'.loraName := by
          rcases origin with alike | ⟨rfl, _⟩
          · exact alike.1
          · exact absurd (Nat.lt_one_iff.mp (List.mem_range.mp member)) first
        exact (generateBlockHashExtraKeys_later later).mpr lora

theorem hashed_fromEngineCoreRequest (request : EngineCoreRequest) :
    Hashed hasher (Request.fromEngineCoreRequest hasher request) :=
  hashed_updateBlockHashes (Nat.zero_le _) rfl

/-- A request from its arrival on, its outputs coming in portions. -/
def Request.grown (hasher : Hasher η) (request : EngineCoreRequest) (outputs : List (List Int)) : Request η :=
  outputs.foldl (·.appendOutputTokenIds hasher ·) (fromEngineCoreRequest hasher request)

theorem hashed_grown (request : EngineCoreRequest) (outputs : List (List Int)) :
    Hashed hasher (Request.grown hasher request outputs) := by
  have arrived : Hashed hasher (Request.fromEngineCoreRequest hasher request) := hashed_fromEngineCoreRequest request
  unfold Request.grown
  generalize Request.fromEngineCoreRequest hasher request = r at arrived ⊢
  induction outputs generalizing r with
  | nil => exact arrived
  | cons tokenIds outputs ih => exact ih _ (hashed_appendOutputTokenIds arrived tokenIds)

/-- However the outputs came in, a hash names the tokens, the adapter and the salt of a request. -/
theorem grown_blockHash_eq_iff (free : CollisionFree hasher.step hasher.noneHash)
    (arrival arrival' : EngineCoreRequest) (outputs outputs' : List (List Int)) (i j : Nat)
    (full : (i + 1) * hasher.hashBlockSize ≤ (Request.grown hasher arrival outputs).numTokens)
    (full' : (j + 1) * hasher.hashBlockSize ≤ (Request.grown hasher arrival' outputs').numTokens) :
    let r := Request.grown hasher arrival outputs
    let r' := Request.grown hasher arrival' outputs'
    r.blockHashes[i]? = r'.blockHashes[j]? ↔
      i = j ∧ r.allTokenIds.take ((i + 1) * hasher.hashBlockSize) =
          r'.allTokenIds.take ((i + 1) * hasher.hashBlockSize) ∧
        ((r.loraName = r'.loraName ∧ r.salt = r'.salt) ∨ i = 0 ∧ (Confused r r' ∨ Confused r' r)) :=
  blockHash_eq_iff free (hashed_grown arrival outputs) (hashed_grown arrival' outputs') full full'

def recordingHasher (hashBlockSize : Nat) (positive : 0 < hashBlockSize) :
    Hasher (List (List Int × Option (List String))) :=
  ⟨fun parent tokens keys => parent ++ [(tokens, keys)], [], hashBlockSize, positive⟩

theorem recordingHasher_free (hashBlockSize : Nat) (positive : 0 < hashBlockSize) :
    CollisionFree (recordingHasher hashBlockSize positive).step (recordingHasher hashBlockSize positive).noneHash where
  inj same := List.append_inj' same rfl |>.imp id fun last => by simpa using last
  ne_start _ _ := by simp [Hasher.step, recordingHasher]

def sampleArrival (promptTokenIds : List Int) (loraName cacheSalt : Option String) : EngineCoreRequest :=
  ⟨"sample", promptTokenIds, 0, 0, loraName, cacheSalt, false, 16⟩

theorem grown_blockHash_confused :
    let hasher := recordingHasher 2 (by decide)
    (Request.grown hasher (sampleArrival [5, 6, 7] (some "x") none) [[8]]).blockHashes[0]? =
      (Request.grown hasher (sampleArrival [5, 6] none (some "x")) [[7], [8]]).blockHashes[0]? :=
  (grown_blockHash_eq_iff (recordingHasher_free 2 (by decide)) (sampleArrival [5, 6, 7] (some "x") none)
    (sampleArrival [5, 6] none (some "x")) [[8]] [[7], [8]] 0 0 (by decide) (by decide)).mpr
    ⟨rfl, by decide, .inr ⟨rfl, .inr (by simp [Confused]; decide)⟩⟩

end DreamAifd.KvCache
