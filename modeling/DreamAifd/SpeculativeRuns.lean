import DreamAifd.GreedyDecoding

/-! Runs of greedy requests with drafts. The forward reads what the KV cache holds, and a rejected draft stays there
until its place is written again: nothing takes it out but the count of computed tokens. -/
namespace DreamAifd.SpecDecode

variable {vocabSize : Nat} {model : List Int → Row vocabSize} {argmax : Row vocabSize → Fin vocabSize}

/-! ### Requests and their stop conditions -/

structure RepetitionDetectionParams where
  maxPatternSize : Nat
  minPatternSize : Nat
  minCount : Nat

structure SamplingParams where
  minTokens : Nat
  eosTokenId : Option Int
  stopTokenIds : List Int
  allStopTokenIds : List Int
  maxTokens : Nat
  repetitionDetection : Option RepetitionDetectionParams

def hasRepeatingPattern (tokenIds : List Int) (patternLen repetitionMinCount : Nat) : Bool :=
  (List.range' 1 patternLen).all fun n => (List.range' 1 (repetitionMinCount - 1)).all fun m =>
    tokenIds.getD (tokenIds.length - (patternLen * m + n)) default = tokenIds.getD (tokenIds.length - n) default

/-- The loop of `check_sequence_repetition`: longer patterns than fit are not looked for. -/
def findsPattern (tokenIds : List Int) (minCount : Nat) : List Nat → Bool
  | [] => false
  | patternLen :: patternLens =>
    if tokenIds.length < patternLen * minCount then false
    else hasRepeatingPattern tokenIds patternLen minCount || findsPattern tokenIds minCount patternLens

def checkSequenceRepetition (tokenIds : List Int) (params : RepetitionDetectionParams) : Bool :=
  let minPatternSize := if params.minPatternSize = 0 then 1 else params.minPatternSize
  if params.maxPatternSize = 0 ∨ params.minCount < 2 ∨ params.maxPatternSize < minPatternSize then false
  else findsPattern tokenIds params.minCount
    (List.range' minPatternSize (params.maxPatternSize + 1 - minPatternSize))

def checkStop (maxModelLen numPromptTokens : Nat) (params : SamplingParams) (tokens : List Int) : Bool :=
  let outputTokenIds := tokens.drop numPromptTokens
  if outputTokenIds.length < params.minTokens then false
  else match outputTokenIds.getLast? with
    | none => false
    | some lastTokenId => params.eosTokenId = some lastTokenId || params.stopTokenIds.contains lastTokenId ||
        (maxModelLen ≤ tokens.length || params.maxTokens ≤ outputTokenIds.length) ||
        params.repetitionDetection.any (checkSequenceRepetition outputTokenIds)

/-- `_update_request_with_output`: tokens are appended until the request stops. -/
def updateRequestWithOutput (stop : List Int → Bool) (tokens : List Int) : List Int → List Int × Bool
  | [] => (tokens, false)
  | outputTokenId :: newTokenIds =>
    if stop (tokens ++ [outputTokenId]) then (tokens ++ [outputTokenId], true)
    else updateRequestWithOutput stop (tokens ++ [outputTokenId]) newTokenIds

structure Arrival where
  promptTokenIds : String → List Int
  params : String → SamplingParams
  maxModelLen : Nat
  nonempty : ∀ requestId, promptTokenIds requestId ≠ []

namespace Arrival

variable (arrival : Arrival) (requestId : String)

def stop : List Int → Bool :=
  checkStop arrival.maxModelLen (arrival.promptTokenIds requestId).length (arrival.params requestId)

/-- The rows that plain decoding samples the request from. -/
def target (model : List Int → Row vocabSize) : List Int → Row vocabSize :=
  withMinTokens model (arrival.promptTokenIds requestId).length (arrival.params requestId).minTokens
    (arrival.params requestId).allStopTokenIds

end Arrival

/-- A request, and the token that every position of its part of the KV cache was computed from. -/
structure Request where
  tokens : List Int
  stopped : Bool
  numComputedTokens : Nat
  kvCache : Nat → Int

structure Entry where
  requestId : String
  specTokenIds : List Int
  numNewTokens : Nat

namespace Request

variable (arrival : Arrival) (request : Request) (entry : Entry)

def draftTokens : List Int :=
  entry.specTokenIds.take (entry.numNewTokens + request.numComputedTokens - request.tokens.length)

def scheduled : Scheduled where
  numPromptTokens := (arrival.promptTokenIds entry.requestId).length
  minTokens := (arrival.params entry.requestId).minTokens
  allStopTokenIds := (arrival.params entry.requestId).allStopTokenIds
  tokens := request.tokens
  drafts := request.draftTokens entry
  numComputedTokens := request.numComputedTokens
  numScheduledTokens := entry.numNewTokens

/-- The cache after the forward has written its positions. -/
def written : Nat → Int := fun position =>
  if request.numComputedTokens ≤ position ∧ position < request.numComputedTokens + entry.numNewTokens then
    (request.tokens ++ request.draftTokens entry).getD position default
  else request.kvCache position

variable (model) in
/-- The rows of the forward, each from the cache up to its position. -/
def rows : List (Row vocabSize) :=
  (List.range entry.numNewTokens).map fun i =>
    model ((List.range (request.numComputedTokens + i + 1)).map (request.written entry))

/-- `_update_after_schedule`, then `update_from_output`. -/
def update (stop : List Int → Bool) (newTokenIds : List Int) : Request :=
  let draftTokenIds := request.draftTokens entry
  let numComputedTokens := request.numComputedTokens + entry.numNewTokens
  let numRejected := if draftTokenIds ≠ [] ∧ newTokenIds ≠ [] then draftTokenIds.length - (newTokenIds.length - 1) else 0
  let numComputedTokens := if 0 < numComputedTokens then numComputedTokens - numRejected else numComputedTokens
  let updated := if newTokenIds = [] then (request.tokens, request.stopped)
    else updateRequestWithOutput stop request.tokens newTokenIds
  ⟨updated.1, updated.2, numComputedTokens, request.written entry⟩

/-- `_preempt_request`: all is to be computed again, and the blocks may hold anything. -/
def preempt (kvCache : Nat → Int) : Request := { request with numComputedTokens := 0, kvCache }

/-- What `schedule` keeps to: some of what is left of a request that goes on. -/
structure Schedulable : Prop where
  running : request.stopped = false
  positive : 0 < entry.numNewTokens
  bounded : request.numComputedTokens + entry.numNewTokens ≤ request.tokens.length + entry.specTokenIds.length

end Request

/-! ### Runs -/

abbrev State := String → Request

namespace State

variable (model argmax) (arrival : Arrival) (state : State)

def step (batch : List Entry) : State :=
  let newTokens := sampleTokens argmax (batch.flatMap fun entry => (state entry.requestId).rows model entry)
    (batch.map fun entry => (state entry.requestId).scheduled arrival entry)
  (batch.zip newTokens).foldl (fun state pair => Function.update state pair.1.requestId
    ((state pair.1.requestId).update pair.1 (arrival.stop pair.1.requestId) pair.2)) state

/-- A batch has every request once, and no drafts that lead one past its `minTokens`. -/
structure Admissible (batch : List Entry) : Prop where
  distinct : (batch.map (·.requestId)).Nodup
  schedulable : ∀ entry ∈ batch, (state entry.requestId).Schedulable entry
  clear : ∀ entry ∈ batch, ((state entry.requestId).scheduled arrival entry).Clear

end State

variable (model argmax) in
/-- Any batches with any drafts and any preemptions, one after the other. -/
inductive Reachable (arrival : Arrival) : State → Prop where
  | start (kvCache : Nat → Int) :
      Reachable arrival fun requestId => ⟨arrival.promptTokenIds requestId, false, 0, kvCache⟩
  | step {state : State} {batch : List Entry} (before : Reachable arrival state) (admissible : state.Admissible arrival batch) :
      Reachable arrival (state.step model argmax arrival batch)
  | preempt {state : State} (requestId : String) (kvCache : Nat → Int) (before : Reachable arrival state) :
      Reachable arrival (Function.update state requestId ((state requestId).preempt kvCache))

/-! ### What a request keeps -/

variable (model argmax) in
/-- The tokens are those of decoding one by one, up to the first place where it stops. -/
def Follows (stop : List Int → Bool) (prompt tokens : List Int) (stopped : Bool) : Prop :=
  ∃ n, tokens = decode model argmax prompt n ∧
    (∀ j, 0 < j → j < n → stop (decode model argmax prompt j) = false) ∧
    (stopped = true ↔ 0 < n ∧ stop (decode model argmax prompt n) = true)

theorem Follows.update {stop : List Int → Bool} {prompt tokens newTokenIds : List Int}
    (follows : Follows model argmax stop prompt tokens false) (chosen : Chosen model argmax tokens newTokenIds) :
    Follows model argmax stop prompt (updateRequestWithOutput stop tokens newTokenIds).1
      (updateRequestWithOutput stop tokens newTokenIds).2 := by
  induction newTokenIds generalizing tokens with
  | nil => exact follows
  | cons token newTokenIds ih =>
    obtain ⟨n, at_n, before, going⟩ := follows
    obtain ⟨rfl, rest⟩ := chosen
    have after : tokens ++ [next model argmax tokens] = decode model argmax prompt (n + 1) := by
      rw [decode_succ, ← at_n]
    have quiet : ∀ j, 0 < j → j < n + 1 → stop (decode model argmax prompt j) = false := by
      intro j positive small
      rcases Nat.lt_or_eq_of_le (Nat.le_of_lt_succ small) with earlier | rfl
      · exact before j positive earlier
      · rcases Bool.eq_false_or_eq_true (stop (decode model argmax prompt j)) with stops | goes
        · exact absurd (going.mpr ⟨positive, stops⟩) Bool.false_ne_true
        · exact goes
    rw [updateRequestWithOutput]
    split
    next stops => exact ⟨n + 1, after, quiet, iff_of_true rfl ⟨Nat.succ_pos n, after ▸ stops⟩⟩
    next goes =>
      refine ih ⟨n + 1, after, quiet, iff_of_false Bool.false_ne_true fun ⟨_, stops⟩ => goes ?_⟩ rest
      rw [after]
      exact stops

theorem length_updateRequestWithOutput (stop : List Int → Bool) (tokens newTokenIds : List Int) :
    tokens.length ≤ (updateRequestWithOutput stop tokens newTokenIds).1.length ∧
      (newTokenIds ≠ [] → tokens.length < (updateRequestWithOutput stop tokens newTokenIds).1.length) := by
  induction newTokenIds generalizing tokens with
  | nil => exact ⟨le_rfl, fun something => absurd rfl something⟩
  | cons token newTokenIds ih =>
    have longer : tokens.length < (updateRequestWithOutput stop tokens (token :: newTokenIds)).1.length := by
      rw [updateRequestWithOutput]
      split
      · simp
      · have rest := (ih (tokens ++ [token])).1
        rw [List.length_append, List.length_singleton] at rest
        omega
    exact ⟨Nat.le_of_lt longer, fun _ => longer⟩

variable (model argmax) in
/-- A request is where plain decoding would be, and its cache holds its own tokens as far as they are computed. -/
structure Tracks (arrival : Arrival) (requestId : String) (request : Request) : Prop where
  follows : Follows (arrival.target requestId model) argmax (arrival.stop requestId) (arrival.promptTokenIds requestId)
    request.tokens request.stopped
  behind : request.stopped = false → request.numComputedTokens < request.tokens.length
  cached : request.stopped = false → ∀ i < request.numComputedTokens, request.tokens[i]? = some (request.kvCache i)

namespace Tracks

variable {arrival : Arrival} {request : Request} {entry : Entry}

theorem planned (tracks : Tracks model argmax arrival entry.requestId request) (schedulable : request.Schedulable entry) :
    (request.scheduled arrival entry).Planned := by
  obtain ⟨running, positive, bounded⟩ := schedulable
  obtain ⟨n, decoded, -⟩ := tracks.follows
  have behind := tracks.behind running
  have many : (request.draftTokens entry).length =
      entry.numNewTokens + request.numComputedTokens - request.tokens.length := by
    rw [Request.draftTokens, List.length_take]
    omega
  refine ⟨?_, ?_, ?_⟩
  · rw [Request.scheduled]
    dsimp only
    rw [decoded, length_decode]
    exact Nat.le_add_right ..
  · rw [Request.scheduled]
    dsimp only
    omega
  · rcases Nat.lt_or_ge (request.numComputedTokens + entry.numNewTokens) request.tokens.length with part | whole
    · exact .inr ⟨List.eq_nil_of_length_eq_zero (by rw [Request.scheduled, many]; omega), part⟩
    · refine .inl ?_
      rw [Request.scheduled, many]
      dsimp only
      omega

/-- The cache holds the tokens and drafts up to the last one that is scheduled. -/
theorem written_eq (tracks : Tracks model argmax arrival entry.requestId request) (schedulable : request.Schedulable entry)
    {position : Nat} (inside : position < request.numComputedTokens + entry.numNewTokens) :
    (request.tokens ++ request.draftTokens entry)[position]? = some (request.written entry position) := by
  have planned := tracks.planned schedulable
  have behind := tracks.behind schedulable.running
  rw [Request.written]
  split
  next fresh =>
    have long : position < (request.tokens ++ request.draftTokens entry).length := by
      rw [List.length_append]
      rcases planned.ends with whole | ⟨_, part⟩
      · exact lt_of_lt_of_eq inside whole
      · exact lt_of_lt_of_le (lt_trans inside part) (Nat.le_add_right ..)
    rw [List.getD_eq_getElem _ _ long, List.getElem?_eq_getElem long]
  next old =>
    have computed : position < request.numComputedTokens := by omega
    rw [List.getElem?_append_left (by omega)]
    exact tracks.cached schedulable.running position computed

/-- What is read from the cache is what the tokens and drafts themselves would give. -/
theorem rows_eq (tracks : Tracks model argmax arrival entry.requestId request) (schedulable : request.Schedulable entry) :
    request.rows model entry = (request.scheduled arrival entry).logits model := by
  refine List.map_congr_left fun i member => congrArg model (List.ext_getElem? fun position => ?_)
  have inside := List.mem_range.mp member
  rw [List.getElem?_map]
  rcases Nat.lt_or_ge position (request.numComputedTokens + i + 1) with before | after
  · rw [List.getElem?_range before, Request.scheduled, List.getElem?_take_of_lt before]
    exact (tracks.written_eq schedulable (by omega)).symm
  · rw [List.getElem?_eq_none (by simpa using after), List.getElem?_eq_none (by
      rw [List.length_take]
      exact le_trans (Nat.min_le_left ..) after)]
    rfl

end Tracks

theorem updateRequestWithOutput_running {stop : List Int → Bool} {tokens newTokenIds : List Int}
    (running : (updateRequestWithOutput stop tokens newTokenIds).2 = false) :
    (updateRequestWithOutput stop tokens newTokenIds).1 = tokens ++ newTokenIds := by
  induction newTokenIds generalizing tokens with
  | nil => exact (List.append_nil _).symm
  | cons token newTokenIds ih =>
    rw [updateRequestWithOutput] at running ⊢
    split at running
    · cases running
    next goes => rw [if_neg goes, ih running, List.append_assoc, List.singleton_append]

namespace Tracks

variable {arrival : Arrival} {request : Request} {entry : Entry}

/-- A part of the tokens is computed, and nothing is sampled. -/
theorem update_part (tracks : Tracks model argmax arrival entry.requestId request) (schedulable : request.Schedulable entry)
    (part : request.numComputedTokens + entry.numNewTokens < request.tokens.length) :
    Tracks model argmax arrival entry.requestId (request.update entry (arrival.stop entry.requestId) []) := by
  have computed : (request.update entry (arrival.stop entry.requestId) []).numComputedTokens = request.numComputedTokens + entry.numNewTokens := by
    simp [Request.update]
  refine ⟨?_, fun _ => ?_, fun _ i inside => ?_⟩
  · exact tracks.follows
  · rw [computed]
    exact part
  · rw [computed] at inside
    have written := tracks.written_eq schedulable inside
    rw [List.getElem?_append_left (lt_trans inside part)] at written
    exact written

/-- What is counted as computed are the tokens before and the drafts that were kept. -/
theorem update_whole (tracks : Tracks model argmax arrival entry.requestId request) (schedulable : request.Schedulable entry)
    (whole : request.numComputedTokens + entry.numNewTokens = request.tokens.length + (request.draftTokens entry).length) :
    Tracks model argmax arrival entry.requestId
      (request.update entry (arrival.stop entry.requestId)
        (verified (arrival.target entry.requestId model) argmax request.tokens (request.draftTokens entry))) := by
  set stop := arrival.stop entry.requestId with stop_eq
  set target := arrival.target entry.requestId model with target_eq
  set drafts := request.draftTokens entry with drafts_eq
  set newTokens := verified target argmax request.tokens drafts with new_eq
  have some_new : 1 ≤ newTokens.length := (length_verified target argmax request.tokens drafts).1
  have few : newTokens.length ≤ drafts.length + 1 := (length_verified target argmax request.tokens drafts).2
  have something : newTokens ≠ [] := List.ne_nil_of_length_pos some_new
  have computed : (request.update entry stop newTokens).numComputedTokens + 1 =
      request.tokens.length + newTokens.length := by
    have positive : 0 < request.numComputedTokens + entry.numNewTokens := Nat.lt_add_left _ schedulable.positive
    simp only [Request.update, ← drafts_eq, if_pos positive]
    by_cases drafted : drafts = []
    · rw [if_neg fun both => both.1 drafted]
      have undrafted : drafts.length = 0 := by rw [drafted, List.length_nil]
      omega
    · rw [if_pos ⟨drafted, something⟩]
      omega
  have updated : (request.update entry stop newTokens).tokens = (updateRequestWithOutput stop request.tokens newTokens).1 ∧
      (request.update entry stop newTokens).stopped = (updateRequestWithOutput stop request.tokens newTokens).2 := by
    simp only [Request.update, if_neg something, and_self]
  have follows := tracks.follows
  rw [schedulable.running] at follows
  have grown : (request.update entry stop newTokens).stopped = false →
      (request.update entry stop newTokens).tokens = request.tokens ++ newTokens := fun running => by
    rw [updated.2] at running
    rw [updated.1, updateRequestWithOutput_running running]
  refine ⟨?_, fun running => ?_, fun running i inside => ?_⟩
  · rw [updated.1, updated.2]
    exact follows.update (chosen_verified target argmax request.tokens drafts)
  · rw [grown running, List.length_append]
    omega
  · have written := tracks.written_eq schedulable (show i < request.numComputedTokens + entry.numNewTokens by omega)
    rw [grown running]
    refine Eq.trans ?_ written
    rcases Nat.lt_or_ge i request.tokens.length with old | fresh
    · rw [List.getElem?_append_left old, List.getElem?_append_left old]
    · rw [List.getElem?_append_right fresh, List.getElem?_append_right fresh]
      have kept : i - request.tokens.length + 1 < newTokens.length := by omega
      exact (verified_agrees target argmax kept).symm

theorem preempt {requestId : String} (tracks : Tracks model argmax arrival requestId request) (kvCache : Nat → Int) :
    Tracks model argmax arrival requestId (request.preempt kvCache) :=
  ⟨tracks.follows, fun running => lt_of_le_of_lt (Nat.zero_le _) (tracks.behind running),
    fun _ i none_below => absurd none_below (Nat.not_lt_zero i)⟩

end Tracks

/-! ### What a run keeps -/

/-- Requests of one batch are updated each once. -/
theorem foldl_update (arrival : Arrival) (pairs : List (Entry × List Int))
    (distinct : (pairs.map (·.1.requestId)).Nodup) (state : State) :
    (∀ requestId, (∀ pair ∈ pairs, pair.1.requestId ≠ requestId) →
      pairs.foldl (fun state pair => Function.update state pair.1.requestId ((state pair.1.requestId).update pair.1
        (arrival.stop pair.1.requestId) pair.2)) state requestId = state requestId) ∧
    ∀ pair ∈ pairs, pairs.foldl (fun state pair => Function.update state pair.1.requestId
        ((state pair.1.requestId).update pair.1 (arrival.stop pair.1.requestId) pair.2)) state pair.1.requestId =
      (state pair.1.requestId).update pair.1 (arrival.stop pair.1.requestId) pair.2 := by
  induction pairs generalizing state with
  | nil => exact ⟨fun _ _ => rfl, fun pair member => absurd member List.not_mem_nil⟩
  | cons first pairs ih =>
    obtain ⟨fresh, distinct⟩ := List.nodup_cons.mp distinct
    have others : ∀ other ∈ pairs, other.1.requestId ≠ first.1.requestId := fun other member same =>
      fresh (List.mem_map.mpr ⟨other, member, same⟩)
    obtain ⟨kept, updated⟩ := ih distinct (Function.update state first.1.requestId
      ((state first.1.requestId).update first.1 (arrival.stop first.1.requestId) first.2))
    refine ⟨fun requestId away => ?_, fun pair member => ?_⟩
    · rw [List.foldl_cons, kept requestId fun pair member => away pair (List.mem_cons_of_mem _ member),
        Function.update_of_ne (away first List.mem_cons_self).symm]
    · rw [List.foldl_cons]
      rcases List.mem_cons.mp member with rfl | later
      · rw [kept _ others, Function.update_self]
      · rw [updated pair later, Function.update_of_ne (others pair later)]

/-- A batch does to each of its requests what its own drafts ask for, and nothing to the others. -/
theorem State.step_spec (arrival : Arrival) {state : State} {batch : List Entry}
    (tracks : ∀ requestId, Tracks model argmax arrival requestId (state requestId))
    (admissible : state.Admissible arrival batch) :
    (∀ requestId, (∀ entry ∈ batch, entry.requestId ≠ requestId) →
      state.step model argmax arrival batch requestId = state requestId) ∧
    ∀ entry ∈ batch, state.step model argmax arrival batch entry.requestId =
      (state entry.requestId).update entry (arrival.stop entry.requestId)
        (if ((state entry.requestId).scheduled arrival entry).discarded then []
          else verified (arrival.target entry.requestId model) argmax (state entry.requestId).tokens
            ((state entry.requestId).draftTokens entry)) := by
  have planned : ∀ x ∈ batch.map fun entry => (state entry.requestId).scheduled arrival entry, x.Planned := by
    intro x member
    obtain ⟨entry, inside, rfl⟩ := List.mem_map.mp member
    exact (tracks entry.requestId).planned (admissible.schedulable entry inside)
  have clear : ∀ x ∈ batch.map fun entry => (state entry.requestId).scheduled arrival entry, x.Clear := by
    intro x member
    obtain ⟨entry, inside, rfl⟩ := List.mem_map.mp member
    exact admissible.clear entry inside
  have rows : (batch.flatMap fun entry => (state entry.requestId).rows model entry) =
      (batch.map fun entry => (state entry.requestId).scheduled arrival entry).flatMap (Scheduled.logits model) := by
    rw [List.flatMap_map]
    exact List.flatMap_congr fun entry member => (tracks entry.requestId).rows_eq (admissible.schedulable entry member)
  have executed : state.step model argmax arrival batch = (batch.map fun entry => (entry,
      if ((state entry.requestId).scheduled arrival entry).discarded then []
        else verified (arrival.target entry.requestId model) argmax (state entry.requestId).tokens
            ((state entry.requestId).draftTokens entry))).foldl
      (fun state pair => Function.update state pair.1.requestId ((state pair.1.requestId).update pair.1
        (arrival.stop pair.1.requestId) pair.2)) state := by
    rw [State.step, rows, sampleTokens_eq planned clear, List.map_map, List.map_prod_left_eq_zip]
    rfl
  rw [executed]
  obtain ⟨kept, updated⟩ := foldl_update arrival (batch.map fun entry => (entry,
    if ((state entry.requestId).scheduled arrival entry).discarded then []
      else verified (arrival.target entry.requestId model) argmax (state entry.requestId).tokens
            ((state entry.requestId).draftTokens entry)))
    (by rw [List.map_map]; exact admissible.distinct) state
  refine ⟨fun requestId away => kept requestId fun pair member => ?_, fun entry member =>
    updated _ (List.mem_map_of_mem member)⟩
  obtain ⟨entry, inside, rfl⟩ := List.mem_map.mp member
  exact away entry inside

theorem State.Admissible.tracks {arrival : Arrival} {state : State} {batch : List Entry}
    (admissible : state.Admissible arrival batch)
    (tracks : ∀ requestId, Tracks model argmax arrival requestId (state requestId))
    (requestId : String) : Tracks model argmax arrival requestId
      (state.step model argmax arrival batch requestId) := by
  obtain ⟨kept, updated⟩ := State.step_spec arrival tracks admissible
  by_cases inside : ∃ entry ∈ batch, entry.requestId = requestId
  · obtain ⟨entry, member, rfl⟩ := inside
    have own := tracks entry.requestId
    have schedulable := admissible.schedulable entry member
    rw [updated entry member]
    cases discarded : ((state entry.requestId).scheduled arrival entry).discarded with
    | true => exact own.update_part schedulable (of_decide_eq_true discarded)
    | false => exact own.update_whole schedulable (Scheduled.whole (own.planned schedulable) discarded)
  · rw [kept requestId fun entry member same => inside ⟨entry, member, same⟩]
    exact tracks requestId

theorem reachable_tracks {arrival : Arrival} {state : State} (reachable : Reachable model argmax arrival state)
    (requestId : String) :
    Tracks model argmax arrival requestId (state requestId) := by
  induction reachable generalizing requestId with
  | start kvCache => exact ⟨⟨0, rfl, fun j _ none_below => absurd none_below (Nat.not_lt_zero j),
      iff_of_false Bool.false_ne_true fun ⟨positive, _⟩ => absurd positive (Nat.lt_irrefl 0)⟩,
      fun _ => List.length_pos_iff.mpr (arrival.nonempty requestId), fun _ i none_below => absurd none_below (Nat.not_lt_zero i)⟩
  | step _ admissible ih => exact admissible.tracks ih requestId
  | preempt other kvCache _ ih =>
    by_cases same : requestId = other
    · subst same
      rw [Function.update_self]
      exact (ih requestId).preempt kvCache
    · rw [Function.update_of_ne same]
      exact ih requestId

/-- A step either computes more of a request's tokens or gives it new ones. -/
theorem State.Admissible.progress {arrival : Arrival} {state : State} {batch : List Entry}
    (admissible : state.Admissible arrival batch)
    (tracks : ∀ requestId, Tracks model argmax arrival requestId (state requestId))
    {entry : Entry} (member : entry ∈ batch) :
    (state entry.requestId).tokens.length < (state.step model argmax arrival batch entry.requestId).tokens.length ∨
      (state entry.requestId).numComputedTokens + entry.numNewTokens < (state entry.requestId).tokens.length ∧
      (state.step model argmax arrival batch entry.requestId).tokens = (state entry.requestId).tokens ∧
      (state.step model argmax arrival batch entry.requestId).numComputedTokens =
        (state entry.requestId).numComputedTokens + entry.numNewTokens := by
  rw [(State.step_spec arrival tracks admissible).2 entry member]
  cases discarded : ((state entry.requestId).scheduled arrival entry).discarded with
  | true =>
    rw [if_pos rfl]
    refine .inr ⟨of_decide_eq_true discarded, rfl, ?_⟩
    simp [Request.update]
  | false =>
    have something := List.ne_nil_of_length_pos (length_verified (arrival.target entry.requestId model) argmax (state entry.requestId).tokens
      ((state entry.requestId).draftTokens entry)).1
    rw [if_neg Bool.false_ne_true]
    simp only [Request.update, if_neg something]
    exact .inl ((length_updateRequestWithOutput _ _ _).2 something)

/-- Whatever is drafted, batched and preempted, each request gets the tokens of plain decoding and stops where that
stops: no rejected draft is read from the cache. And every step takes each request of its batch further. -/
theorem reachable_follows {arrival : Arrival} {state : State} (reachable : Reachable model argmax arrival state) :
    (∀ requestId, Follows (arrival.target requestId model) argmax (arrival.stop requestId) (arrival.promptTokenIds requestId)
      (state requestId).tokens (state requestId).stopped) ∧
    ∀ batch, state.Admissible arrival batch → ∀ entry ∈ batch,
      (state entry.requestId).tokens.length < (state.step model argmax arrival batch entry.requestId).tokens.length ∨
        (state entry.requestId).numComputedTokens + entry.numNewTokens < (state entry.requestId).tokens.length ∧
        (state.step model argmax arrival batch entry.requestId).tokens = (state entry.requestId).tokens ∧
        (state.step model argmax arrival batch entry.requestId).numComputedTokens =
          (state entry.requestId).numComputedTokens + entry.numNewTokens :=
  ⟨fun requestId => (reachable_tracks reachable requestId).follows,
    fun _ admissible _ member => admissible.progress (reachable_tracks reachable) member⟩

/-- The model counts modulo 5, and takes the next number where one may not stand. -/
def countingModel (tokens : List Int) : Row 5 := fun token => ((-((token.val + 5 - tokens.length % 5) % 5 : Nat) : ℚ) : ℚ)

def largest (row : Row 5) : Fin 5 :=
  (List.finRange 5).foldl (fun best token => if row best < row token then token else best) 0

/-- A request of three tokens, none of the first two a stop token. -/
def countingArrival : Arrival where
  promptTokenIds := fun _ => [4]
  params := fun _ => ⟨3, some 1, [2], [1, 2], 4, some ⟨2, 1, 3⟩⟩
  maxModelLen := 16
  nonempty := fun _ => List.cons_ne_nil _ _

/-- A first step with a right draft and a wrong one, then one without drafts, which ends with a repetition. -/
theorem reachable_follows_counting : ∃ state, Reachable countingModel largest countingArrival state ∧
    (state "a").tokens = [4, 3, 3, 3] ∧ (state "a").stopped = true ∧
    Follows (countingArrival.target "a" countingModel) largest (countingArrival.stop "a") [4] [4, 3, 3, 3] true := by
  set start : State := fun requestId => ⟨countingArrival.promptTokenIds requestId, false, 0, fun _ => 0⟩ with start_eq
  have drafted : start.Admissible countingArrival [⟨"a", [3, 0], 3⟩] := by
    refine ⟨List.nodup_singleton _, fun entry member => ?_, fun entry member => ?_⟩
    · obtain rfl := List.mem_singleton.mp member
      exact ⟨rfl, by decide, by decide⟩
    · obtain rfl := List.mem_singleton.mp member
      exact .inr (by decide)
  set second := start.step countingModel largest countingArrival [⟨"a", [3, 0], 3⟩] with second_eq
  have going : (second "a").stopped = false := by decide +kernel
  have undrafted : second.Admissible countingArrival [⟨"a", [], 1⟩] := by
    refine ⟨List.nodup_singleton _, fun entry member => ?_, fun entry member => ?_⟩
    · obtain rfl := List.mem_singleton.mp member
      exact ⟨going, by decide, by decide +kernel⟩
    · obtain rfl := List.mem_singleton.mp member
      exact .inr (by decide +kernel)
  have reachable : Reachable countingModel largest countingArrival _ :=
    Reachable.step (Reachable.step (.start fun _ => 0) drafted) undrafted
  have tokens : (second.step countingModel largest countingArrival [⟨"a", [], 1⟩] "a").tokens = [4, 3, 3, 3] := by
    decide +kernel
  have stopped : (second.step countingModel largest countingArrival [⟨"a", [], 1⟩] "a").stopped = true := by
    decide +kernel
  have follows := (reachable_follows reachable).1 "a"
  rw [tokens, stopped] at follows
  exact ⟨_, reachable, tokens, stopped, follows⟩

-- Drafts that lead past `minTokens`: the bonus row is masked as if they were not there.
example : sampleTokens largest (Scheduled.logits countingModel ⟨1, 1, [2], [4], [1], 0, 2⟩) [⟨1, 1, [2], [4], [1], 0, 2⟩] =
      [[1, 3]] ∧
    verified (Scheduled.target countingModel ⟨1, 1, [2], [4], [1], 0, 2⟩) largest [4] [1] = [1, 2] := by
  decide +kernel

end DreamAifd.SpecDecode
