import DreamAifd.CacheHits

/-! The longest hit of a model whose cache groups are of several types: each type in turn shortens the hit
found so far, until all of them agree. -/
namespace DreamAifd.KvCache

variable {η : Type}

structure KvCacheGroup where
  spec : KvCacheSpec
  isEagleGroup : Bool
  deriving DecidableEq, Repr

def addGroup (i : Nat) (group : KvCacheGroup) : List SpecGroup → List SpecGroup
  | [] => [⟨group.spec, [i], group.isEagleGroup⟩]
  | specGroup :: specGroups =>
    if specGroup.spec = group.spec then
      { specGroup with
        groupIds := specGroup.groupIds ++ [i]
        useEagle := specGroup.useEagle || group.isEagleGroup } :: specGroups
    else specGroup :: addGroup i group specGroups

def splitLoop : Nat → List KvCacheGroup → List SpecGroup → List SpecGroup
  | _, [], specGroups => specGroups
  | i, group :: groups, specGroups => splitLoop (i + 1) groups (addGroup i group specGroups)

def SpecGroup.isFull (group : SpecGroup) : Bool := group.spec.attention = .fullAttention

/-- Full attention comes first. -/
def verifyAndSplitKvCacheGroups (groups : List KvCacheGroup) : List SpecGroup :=
  let specGroups := splitLoop 0 groups []
  specGroups.filter (·.isFull) ++ specGroups.filter (!·.isFull)

def hashesOfSize (blockHashes : List η) (hashBlockSize blockSize : Nat) : List η :=
  if blockSize = hashBlockSize then blockHashes else blockHashListWithBlockSize blockHashes hashBlockSize blockSize

/-- The variables of the loop. The hits are kept by the index of their spec group. -/
structure HybridState where
  currHitLength : Nat
  longestHitLength : Nat
  hitBlocks : Nat → Option (List (List BlockRef))
  eagleVerified : List Nat

section Loop

variable [DecidableEq η] (pool : BlockPool η) (blockHashes : List η)
  (hashBlockSize schedulerBlockSize maxCacheHitLength : Nat)

def lookupGroup (idx : Nat) (group : SpecGroup) (state : HybridState) : Except KvError HybridState := do
  let dropEagleBlock := group.useEagle && decide (idx ∉ state.eagleVerified)
  let maxLength :=
    if dropEagleBlock then min (state.currHitLength + group.spec.blockSize) maxCacheHitLength else state.currHitLength
  let rows ← group.findLongestCacheHit pool (hashesOfSize blockHashes hashBlockSize group.spec.blockSize) maxLength
    dropEagleBlock schedulerBlockSize
  let newHitLength := rows.length * group.spec.blockSize
  return {
    currHitLength := newHitLength
    longestHitLength := max state.longestHitLength newHitLength
    hitBlocks := Function.update state.hitBlocks idx (some rows)
    eagleVerified :=
      if dropEagleBlock then idx :: state.eagleVerified
      else if newHitLength < state.currHitLength then [] else state.eagleVerified }

/-- Full attention is looked up once; afterwards its hit is only cut. -/
def visitGroup (idx : Nat) (group : SpecGroup) (state : HybridState) : Except KvError HybridState :=
  if group.isFull ∧ (state.hitBlocks idx).isSome then
    .ok { state with currHitLength := state.currHitLength / group.spec.blockSize * group.spec.blockSize }
  else lookupGroup pool blockHashes hashBlockSize schedulerBlockSize maxCacheHitLength idx group state

def visitGroups : Nat → List SpecGroup → HybridState → Except KvError HybridState
  | _, [], state => .ok state
  | idx, group :: groups, state => do
    let state ← visitGroup pool blockHashes hashBlockSize schedulerBlockSize maxCacheHitLength idx group state
    visitGroups (idx + 1) groups state

/-- The loop ends since each round but the last shortens the hit; `fuel` is only there for the recursion. -/
def hybridLoop (specGroups : List SpecGroup) : Nat → Nat → HybridState → Except KvError (Nat × HybridState)
  | 0, _, _ => .error .runtimeError
  | fuel + 1, hitLength, state => do
    let state ← visitGroups pool blockHashes hashBlockSize schedulerBlockSize maxCacheHitLength 0 specGroups
      { state with currHitLength := hitLength }
    if hitLength ≤ state.currHitLength then return (hitLength, state)
    let isSimpleHybrid := specGroups.length = 2 ∧ specGroups.head?.any (·.isFull)
    if isSimpleHybrid then return (state.currHitLength, state)
    else hybridLoop specGroups fuel state.currHitLength state

/-- The hits of a spec group. Of full attention only the first has its blocks cut to the length of the hit. -/
def finalRows (specGroups : List SpecGroup) (hitLength : Nat) (state : HybridState) (idx : Nat) :
    List (List BlockRef) :=
  let rows := (state.hitBlocks idx).getD []
  match specGroups[idx]? with
  | some group => if idx = 0 ∧ group.isFull then rows.take (hitLength / group.spec.blockSize) else rows
  | none => rows

def column (rows : List (List BlockRef)) (k : Nat) : List BlockRef := rows.filterMap (·[k]?)

def blocksByGroup (specGroups : List SpecGroup) (hitLength : Nat) (state : HybridState) (groupId : Nat) :
    List BlockRef :=
  let idx := specGroups.findIdx (groupId ∈ ·.groupIds)
  let position := (specGroups[idx]?.map (·.groupIds.idxOf groupId)).getD 0
  column (finalRows specGroups hitLength state idx) position

end Loop

def HybridKvCacheCoordinator.findLongestCacheHit [DecidableEq η] (pool : BlockPool η) (blockHashes : List η)
    (hashBlockSize schedulerBlockSize : Nat) (specGroups : List SpecGroup) (numGroups maxCacheHitLength : Nat) :
    Except KvError (List (List BlockRef) × Nat) := do
  let (hitLength, state) ← hybridLoop pool blockHashes hashBlockSize schedulerBlockSize maxCacheHitLength specGroups
    (maxCacheHitLength + 1) maxCacheHitLength ⟨maxCacheHitLength, 0, fun _ => none, []⟩
  return ((List.range numGroups).map (blocksByGroup specGroups hitLength state), hitLength)

/-! ### The rounds -/

section Rounds

variable [DecidableEq η] (pool : BlockPool η) (blockHashes : List η) (hashBlockSize : Nat)

def cachedIn (group : SpecGroup) : Nat → Option (List BlockRef) :=
  cachedAt pool (hashesOfSize blockHashes hashBlockSize group.spec.blockSize) group.groupIds

def RowsFound (group : SpecGroup) (rows : List (List BlockRef)) : Prop :=
  Found (cachedIn pool blockHashes hashBlockSize group) group.spec.attention group.spec.blockSize
    (nullRow pool group.groupIds) rows

def HitOf (group : SpecGroup) (length : Nat) : Prop :=
  Hit (cachedIn pool blockHashes hashBlockSize group) group.spec.attention group.spec.blockSize
    (length / group.spec.blockSize)

/-- The hits of a group as they are kept, for a current length that is at most theirs. -/
structure Kept (schedulerBlockSize : Nat) (group : SpecGroup) (currHitLength bound : Nat)
    (rows : List (List BlockRef)) : Prop where
  found : RowsFound pool blockHashes hashBlockSize group rows
  aligned : schedulerBlockSize ∣ rows.length * group.spec.blockSize
  long : currHitLength ≤ rows.length * group.spec.blockSize
  short : group.isFull = false → rows.length * group.spec.blockSize ≤ bound

variable {pool blockHashes hashBlockSize} {schedulerBlockSize maxCacheHitLength : Nat}

theorem Kept.mono {group : SpecGroup} {curr curr' bound bound' : Nat} {rows : List (List BlockRef)}
    (kept : Kept pool blockHashes hashBlockSize schedulerBlockSize group curr bound rows) (less : curr' ≤ curr)
    (more : bound ≤ bound') : Kept pool blockHashes hashBlockSize schedulerBlockSize group curr' bound' rows :=
  ⟨kept.found, kept.aligned, less.trans kept.long, fun windowed => (kept.short windowed).trans more⟩

/-- What a lookup leaves. Nothing is lost: a length all groups can go on from is never passed over. -/
theorem lookupGroup_spec {idx : Nat} {group : SpecGroup} {state state' : HybridState}
    (positive : 0 < group.spec.blockSize) (divides : group.spec.blockSize ∣ schedulerBlockSize)
    (ran : lookupGroup pool blockHashes hashBlockSize schedulerBlockSize maxCacheHitLength idx group state = .ok state') :
    ∃ rows, state'.hitBlocks = Function.update state.hitBlocks idx (some rows) ∧
      state'.currHitLength = rows.length * group.spec.blockSize ∧ state'.currHitLength ≤ state.currHitLength ∧
      Kept pool blockHashes hashBlockSize schedulerBlockSize group state'.currHitLength state'.currHitLength rows ∧
      (group.useEagle = false → group.spec.LooksBack → ∀ length ≤ state.currHitLength, schedulerBlockSize ∣ length →
        HitOf pool blockHashes hashBlockSize group length → length ≤ state'.currHitLength) := by
  obtain ⟨rows, looked, ran⟩ := bind_eq_ok.mp ran
  obtain ⟨found, aligned, small, longest⟩ := SpecGroup.findLongestCacheHit_spec looked
  obtain rfl := Except.ok.inj ran
  refine ⟨rows, rfl, rfl, ?_, ⟨found, aligned, le_rfl, fun _ => le_rfl⟩, fun plain looksBack length below multiple hit => ?_⟩
  · dsimp only
    rw [← Nat.le_div_iff_mul_le positive]
    split at small
    next dropped =>
      have widened := Nat.div_le_div_right (c := group.spec.blockSize)
        (min_le_left (state.currHitLength + group.spec.blockSize) maxCacheHitLength)
      rw [Nat.add_div_right _ positive] at widened
      have nonneg := Nat.zero_le (state.currHitLength / group.spec.blockSize)
      omega
    next kept =>
      omega
  · have kept : (group.useEagle && decide (idx ∉ state.eagleVerified)) = false := by rw [plain, Bool.false_and]
    rw [kept, if_neg Bool.false_ne_true] at longest
    have whole : length / group.spec.blockSize * group.spec.blockSize = length :=
      Nat.div_mul_cancel (divides.trans multiple)
    have fits := longest rfl looksBack _ (Nat.div_le_div_right below) (by rwa [Aligned, whole]) hit
    dsimp only
    rw [← whole]
    exact Nat.mul_le_mul_right _ fits

/-- What earlier rounds left for a group. -/
def Memo (pool : BlockPool η) (blockHashes : List η) (hashBlockSize schedulerBlockSize : Nat) (group : SpecGroup)
    (idx : Nat) (state : HybridState) : Prop :=
  ∀ rows, state.hitBlocks idx = some rows → schedulerBlockSize ∣ state.currHitLength ∧
    (group.isFull → Kept pool blockHashes hashBlockSize schedulerBlockSize group state.currHitLength
      state.currHitLength rows)

theorem visitGroup_spec {idx : Nat} {group : SpecGroup} {state state' : HybridState}
    (positive : 0 < group.spec.blockSize) (divides : group.spec.blockSize ∣ schedulerBlockSize)
    (memo : Memo pool blockHashes hashBlockSize schedulerBlockSize group idx state)
    (ran : visitGroup pool blockHashes hashBlockSize schedulerBlockSize maxCacheHitLength idx group state = .ok state') :
    state'.currHitLength ≤ state.currHitLength ∧ schedulerBlockSize ∣ state'.currHitLength ∧
      (∀ other ≠ idx, state'.hitBlocks other = state.hitBlocks other) ∧
      (∃ rows, state'.hitBlocks idx = some rows ∧
        Kept pool blockHashes hashBlockSize schedulerBlockSize group state'.currHitLength state'.currHitLength rows ∧
        (state.hitBlocks idx = none → rows.length * group.spec.blockSize ≤ state'.currHitLength)) ∧
      (group.useEagle = false → group.spec.LooksBack → ∀ length ≤ state.currHitLength, schedulerBlockSize ∣ length →
        HitOf pool blockHashes hashBlockSize group length → length ≤ state'.currHitLength) := by
  unfold visitGroup at ran
  split at ran
  next known =>
    obtain ⟨full, some_rows⟩ := known
    obtain ⟨rows, here⟩ := Option.isSome_iff_exists.mp some_rows
    obtain ⟨aligned, kept⟩ := memo rows here
    have whole : state.currHitLength / group.spec.blockSize * group.spec.blockSize = state.currHitLength :=
      Nat.div_mul_cancel (divides.trans aligned)
    rw [whole] at ran
    obtain rfl := Except.ok.inj ran
    refine ⟨le_rfl, aligned, fun _ _ => rfl, ⟨rows, here, kept full, fun fresh => ?_⟩, fun _ _ length below _ _ => below⟩
    simp [here] at fresh
  next =>
    obtain ⟨rows, blocks, curr, less, kept, longest⟩ := lookupGroup_spec positive divides ran
    refine ⟨less, curr ▸ kept.aligned, fun other different => ?_, ⟨rows, ?_, kept, fun _ => curr.ge⟩, longest⟩
    · rw [blocks, Function.update_of_ne different]
    · rw [blocks, Function.update_self]

/-- A round goes through the groups once. -/
theorem visitGroups_spec {idx : Nat} {groups : List SpecGroup} {state state' : HybridState}
    (sizes : ∀ group ∈ groups, 0 < group.spec.blockSize ∧ group.spec.blockSize ∣ schedulerBlockSize)
    (memo : ∀ j group, groups[j]? = some group →
      Memo pool blockHashes hashBlockSize schedulerBlockSize group (idx + j) state)
    (ran : visitGroups pool blockHashes hashBlockSize schedulerBlockSize maxCacheHitLength idx groups state =
      .ok state') :
    state'.currHitLength ≤ state.currHitLength ∧ (groups ≠ [] → schedulerBlockSize ∣ state'.currHitLength) ∧
      (∀ other < idx, state'.hitBlocks other = state.hitBlocks other) ∧
      (∀ j group, groups[j]? = some group → ∃ rows, state'.hitBlocks (idx + j) = some rows ∧
        Kept pool blockHashes hashBlockSize schedulerBlockSize group state'.currHitLength state.currHitLength rows ∧
        (j + 1 = groups.length → group.isFull = false ∨ state.hitBlocks (idx + j) = none →
          rows.length * group.spec.blockSize ≤ state'.currHitLength)) ∧
      ((∀ group ∈ groups, group.useEagle = false ∧ group.spec.LooksBack) → ∀ length ≤ state.currHitLength,
        schedulerBlockSize ∣ length → (∀ group ∈ groups, HitOf pool blockHashes hashBlockSize group length) →
        length ≤ state'.currHitLength) := by
  induction groups generalizing idx state with
  | nil =>
    obtain rfl := Except.ok.inj ran
    exact ⟨le_rfl, fun nonempty => absurd rfl nonempty, fun _ _ => rfl, fun j group here => by simp at here,
      fun _ length below _ _ => below⟩
  | cons group groups ih =>
    obtain ⟨mid, visited, ran⟩ := bind_eq_ok.mp ran
    obtain ⟨positive, divides⟩ := sizes group List.mem_cons_self
    obtain ⟨less, aligned, others, ⟨rows, here, kept, fresh⟩, longest⟩ :=
      visitGroup_spec positive divides (memo 0 group rfl) visited
    have memo' : ∀ j other, groups[j]? = some other →
        Memo pool blockHashes hashBlockSize schedulerBlockSize other (idx + 1 + j) mid := by
      intro j other member rows there
      rw [others _ (by omega), show idx + 1 + j = idx + (j + 1) by omega] at there
      obtain ⟨_, before⟩ := memo (j + 1) other member rows there
      refine ⟨aligned, fun full => ⟨(before full).found, (before full).aligned, less.trans (before full).long, ?_⟩⟩
      exact fun windowed => absurd full (by simp [windowed])
    obtain ⟨less', aligned', others', settled, longest'⟩ :=
      ih (fun other member => sizes other (List.mem_cons_of_mem _ member)) memo' ran
    refine ⟨less'.trans less, fun _ => ?_, fun other before => ?_, fun j other member => ?_,
      fun plain length below multiple hits => ?_⟩
    · rcases groups with _ | ⟨next, rest⟩
      · obtain rfl := Except.ok.inj ran
        exact aligned
      · exact aligned' (List.cons_ne_nil _ _)
    · rw [others' other (by omega), others other (by omega)]
    · cases j with
      | zero =>
        obtain rfl := Option.some.inj member
        refine ⟨rows, (others' idx (by omega)).trans here, kept.mono less' less, fun last once => ?_⟩
        have single : groups = [] := List.eq_nil_of_length_eq_zero (by simpa using last.symm)
        subst single
        obtain rfl := Except.ok.inj ran
        exact once.elim kept.short fresh
      | succ j =>
        obtain ⟨later, there, kept', last⟩ := settled j other member
        rw [show idx + 1 + j = idx + (j + 1) by omega] at there
        refine ⟨later, there, kept'.mono le_rfl less, fun final once => last (by simpa using final) (once.imp_right ?_)⟩
        rw [others _ (by omega), show idx + 1 + j = idx + (j + 1) by omega]
        exact id
    · obtain ⟨plain_here, looksBack⟩ := plain group List.mem_cons_self
      have first := longest plain_here looksBack length below multiple (hits group List.mem_cons_self)
      exact longest' (fun other member => plain other (List.mem_cons_of_mem _ member)) length first multiple
        fun other member => hits other (List.mem_cons_of_mem _ member)

/-- There are enough hashes for the search from right to left. -/
def EnoughHashes (blockHashes : List η) (hashBlockSize maxCacheHitLength : Nat) (group : SpecGroup) : Prop :=
  maxCacheHitLength / group.spec.blockSize ≤ (hashesOfSize blockHashes hashBlockSize group.spec.blockSize).length

theorem SpecGroup.exists_findLongestCacheHit (pool : BlockPool η) (group : SpecGroup) {hashes : List η} {maxLength : Nat}
    (enough : maxLength / group.spec.blockSize ≤ hashes.length) (drop : Bool) (alignmentTokens : Nat) :
    ∃ rows, group.findLongestCacheHit pool hashes maxLength drop alignmentTokens = .ok rows := by
  unfold SpecGroup.findLongestCacheHit
  cases attention : group.spec.attention with
  | fullAttention => exact ⟨_, rfl⟩
  | slidingWindow window => exact ⟨_, if_neg (not_lt.mpr enough)⟩

theorem exists_visitGroup {idx : Nat} {group : SpecGroup} {state : HybridState}
    (positive : 0 < group.spec.blockSize) (divides : group.spec.blockSize ∣ schedulerBlockSize)
    (hashed : EnoughHashes blockHashes hashBlockSize maxCacheHitLength group)
    (below : state.currHitLength ≤ maxCacheHitLength) :
    ∃ state', visitGroup pool blockHashes hashBlockSize schedulerBlockSize maxCacheHitLength idx group state =
      .ok state' ∧ state'.currHitLength ≤ state.currHitLength := by
  unfold visitGroup
  split
  · exact ⟨_, rfl, Nat.div_mul_le_self ..⟩
  · obtain ⟨state', ran⟩ : ∃ state', lookupGroup pool blockHashes hashBlockSize schedulerBlockSize maxCacheHitLength
        idx group state = .ok state' := by
      have enough : (if (group.useEagle && decide (idx ∉ state.eagleVerified)) = true then
          min (state.currHitLength + group.spec.blockSize) maxCacheHitLength else state.currHitLength) /
          group.spec.blockSize ≤ (hashesOfSize blockHashes hashBlockSize group.spec.blockSize).length := by
        refine le_trans (Nat.div_le_div_right ?_) hashed
        split
        · exact min_le_right _ _
        · exact below
      obtain ⟨rows, looked⟩ := SpecGroup.exists_findLongestCacheHit pool group enough
        (group.useEagle && decide (idx ∉ state.eagleVerified)) schedulerBlockSize
      exact ⟨_, bind_eq_ok.mpr ⟨rows, looked, rfl⟩⟩
    obtain ⟨_, _, _, less, _⟩ := lookupGroup_spec positive divides ran
    exact ⟨state', ran, less⟩

theorem exists_visitGroups (idx : Nat) {groups : List SpecGroup} {state : HybridState}
    (sizes : ∀ group ∈ groups, 0 < group.spec.blockSize ∧ group.spec.blockSize ∣ schedulerBlockSize)
    (hashed : ∀ group ∈ groups, EnoughHashes blockHashes hashBlockSize maxCacheHitLength group)
    (below : state.currHitLength ≤ maxCacheHitLength) :
    ∃ state', visitGroups pool blockHashes hashBlockSize schedulerBlockSize maxCacheHitLength idx groups state =
      .ok state' := by
  induction groups generalizing idx state with
  | nil => exact ⟨state, rfl⟩
  | cons group groups ih =>
    obtain ⟨positive, divides⟩ := sizes group List.mem_cons_self
    obtain ⟨mid, visited, less⟩ := exists_visitGroup positive divides (hashed group List.mem_cons_self) below
    obtain ⟨state', ran⟩ := ih (idx + 1) (fun other member => sizes other (List.mem_cons_of_mem _ member))
      (fun other member => hashed other (List.mem_cons_of_mem _ member)) (less.trans below)
    exact ⟨state', bind_eq_ok.mpr ⟨mid, visited, ran⟩⟩

def SimpleHybrid (groups : List SpecGroup) : Prop := groups.length = 2 ∧ groups.head?.any (·.isFull) = true

structure Agreed (pool : BlockPool η) (blockHashes : List η) (hashBlockSize schedulerBlockSize : Nat)
    (groups : List SpecGroup) (bound hitLength : Nat) (state : HybridState) : Prop where
  le : hitLength ≤ bound
  aligned : schedulerBlockSize ∣ hitLength
  kept : ∀ idx group, groups[idx]? = some group → ∃ rows, state.hitBlocks idx = some rows ∧
    Kept pool blockHashes hashBlockSize schedulerBlockSize group hitLength hitLength rows ∧
    (SimpleHybrid groups → idx = 1 → rows.length * group.spec.blockSize ≤ hitLength)
  longest : (∀ group ∈ groups, group.useEagle = false ∧ group.spec.LooksBack) → ∀ length ≤ bound,
    schedulerBlockSize ∣ length → (∀ group ∈ groups, HitOf pool blockHashes hashBlockSize group length) →
    length ≤ hitLength

/-- Each round ends with agreement or with a shorter length, so the loop ends. -/
theorem hybridLoop_spec {groups : List SpecGroup} (nonempty : groups ≠ [])
    (sizes : ∀ group ∈ groups, 0 < group.spec.blockSize ∧ group.spec.blockSize ∣ schedulerBlockSize)
    (hashed : ∀ group ∈ groups, EnoughHashes blockHashes hashBlockSize maxCacheHitLength group)
    {fuel hitLength : Nat} {state : HybridState} (enough : hitLength < fuel) (below : hitLength ≤ maxCacheHitLength)
    (memo : ∀ idx group, groups[idx]? = some group → Memo pool blockHashes hashBlockSize schedulerBlockSize group idx
      { state with currHitLength := hitLength })
    (fresh : SimpleHybrid groups → ∀ idx, state.hitBlocks idx = none) :
    ∃ final state', hybridLoop pool blockHashes hashBlockSize schedulerBlockSize maxCacheHitLength groups fuel
        hitLength state = .ok (final, state') ∧
      Agreed pool blockHashes hashBlockSize schedulerBlockSize groups hitLength final state' := by
  induction fuel generalizing hitLength state with
  | zero => exact absurd enough (Nat.not_lt_zero _)
  | succ fuel ih =>
    obtain ⟨mid, visited⟩ := exists_visitGroups 0 sizes hashed
      (show ({ state with currHitLength := hitLength } : HybridState).currHitLength ≤ maxCacheHitLength from below)
    obtain ⟨less, aligned, _, settled, longest⟩ :=
      visitGroups_spec sizes (fun j group here => by simpa using memo j group here) visited
    simp only [Nat.zero_add] at settled
    have round : hybridLoop pool blockHashes hashBlockSize schedulerBlockSize maxCacheHitLength groups (fuel + 1)
        hitLength state = if hitLength ≤ mid.currHitLength then .ok (hitLength, mid)
          else if groups.length = 2 ∧ groups.head?.any (·.isFull) = true then .ok (mid.currHitLength, mid)
          else hybridLoop pool blockHashes hashBlockSize schedulerBlockSize maxCacheHitLength groups fuel
            mid.currHitLength mid := by
      rw [hybridLoop, visited]
      rfl
    rw [round]
    by_cases stable : hitLength ≤ mid.currHitLength
    · rw [if_pos stable]
      obtain rfl : hitLength = mid.currHitLength := le_antisymm stable less
      refine ⟨_, _, rfl, le_rfl, aligned nonempty, fun idx group here => ?_, longest⟩
      obtain ⟨rows, there, kept, last⟩ := settled idx group here
      exact ⟨rows, there, kept, fun simple second => last (by rw [second, simple.1]) (.inr (fresh simple idx))⟩
    rw [if_neg stable]
    by_cases simple : SimpleHybrid groups
    · rw [if_pos (by exact simple)]
      refine ⟨_, _, rfl, less, aligned nonempty, fun idx group here => ?_, longest⟩
      obtain ⟨rows, there, kept, last⟩ := settled idx group here
      refine ⟨rows, there, ⟨kept.found, kept.aligned, kept.long, fun windowed => ?_⟩, fun _ second =>
        last (by rw [second, simple.1]) (.inr (fresh simple idx))⟩
      -- Of the two groups only the second can have a window, and it was the last to be visited.
      rcases Nat.lt_or_ge idx 1 with first | second
      · obtain rfl : idx = 0 := by omega
        obtain ⟨_, full⟩ := simple
        rw [List.head?_eq_getElem?, here] at full
        exact absurd windowed (by simpa using full)
      · have inside := (List.getElem?_eq_some_iff.mp here).1
        have two := simple.1
        exact last (by omega) (.inl windowed)
    · rw [if_neg (by exact simple)]
      have memo' : ∀ idx group, groups[idx]? = some group →
          Memo pool blockHashes hashBlockSize schedulerBlockSize group idx mid := by
        intro idx group here rows there
        obtain ⟨kept_rows, same, kept, _⟩ := settled idx group here
        obtain rfl := Option.some.inj (there.symm.trans same)
        exact ⟨aligned nonempty, fun full => ⟨kept.found, kept.aligned, kept.long, fun windowed =>
          absurd full (by simp [windowed])⟩⟩
      obtain ⟨final, state', ran, agreed⟩ : ∃ final state', hybridLoop pool blockHashes hashBlockSize
            schedulerBlockSize maxCacheHitLength groups fuel mid.currHitLength mid = .ok (final, state') ∧
          Agreed pool blockHashes hashBlockSize schedulerBlockSize groups mid.currHitLength final state' :=
        ih (by omega) (less.trans below) memo' fun is_simple => absurd is_simple simple
      refine ⟨final, state', ran, agreed.le.trans less, agreed.aligned, agreed.kept,
        fun plain length small multiple hits => ?_⟩
      exact agreed.longest plain length (longest plain length small multiple hits) multiple hits

end Rounds

/-! ### The spec groups -/

/-- The spec groups hold the ids of all groups, each under its specification. -/
structure SplitOf (groups : List KvCacheGroup) (specGroups : List SpecGroup) : Prop where
  member : ∀ specGroup ∈ specGroups, ∀ groupId ∈ specGroup.groupIds,
    ∃ group, groups[groupId]? = some group ∧ group.spec = specGroup.spec
  nonempty : ∀ specGroup ∈ specGroups, specGroup.groupIds ≠ []
  covers : ∀ groupId < groups.length, ∃ specGroup ∈ specGroups, groupId ∈ specGroup.groupIds
  eagle : ∀ specGroup ∈ specGroups, specGroup.useEagle = true → ∃ group ∈ groups, group.isEagleGroup = true

theorem mem_addGroup {i : Nat} {group : KvCacheGroup} {specGroups : List SpecGroup} {specGroup : SpecGroup}
    (member : specGroup ∈ addGroup i group specGroups) :
    specGroup ∈ specGroups ∨ specGroup = ⟨group.spec, [i], group.isEagleGroup⟩ ∨
      ∃ old ∈ specGroups, old.spec = group.spec ∧ specGroup = { old with
        groupIds := old.groupIds ++ [i]
        useEagle := old.useEagle || group.isEagleGroup } := by
  induction specGroups with
  | nil => exact .inr (.inl (List.mem_singleton.mp member))
  | cons first rest ih =>
    unfold addGroup at member
    split at member
    next same =>
      rcases List.mem_cons.mp member with rfl | later
      · exact .inr (.inr ⟨first, List.mem_cons_self, same, rfl⟩)
      · exact .inl (List.mem_cons_of_mem _ later)
    next =>
      rcases List.mem_cons.mp member with rfl | later
      · exact .inl List.mem_cons_self
      · rcases ih later with old | new | ⟨old, here, same⟩
        · exact .inl (List.mem_cons_of_mem _ old)
        · exact .inr (.inl new)
        · exact .inr (.inr ⟨old, List.mem_cons_of_mem _ here, same⟩)

theorem addGroup_covers (i : Nat) (group : KvCacheGroup) (specGroups : List SpecGroup) :
    (∃ specGroup ∈ addGroup i group specGroups, i ∈ specGroup.groupIds) ∧
      ∀ old ∈ specGroups, ∃ specGroup ∈ addGroup i group specGroups, old.groupIds ⊆ specGroup.groupIds := by
  induction specGroups with
  | nil => exact ⟨⟨_, List.mem_singleton_self _, List.mem_singleton_self _⟩, by simp⟩
  | cons first rest ih =>
    unfold addGroup
    split
    · refine ⟨⟨_, List.mem_cons_self, List.mem_append_right _ (List.mem_singleton_self i)⟩, fun old member => ?_⟩
      rcases List.mem_cons.mp member with rfl | later
      · exact ⟨_, List.mem_cons_self, List.subset_append_left _ _⟩
      · exact ⟨old, List.mem_cons_of_mem _ later, List.Subset.refl _⟩
    · obtain ⟨⟨joined, here, inside⟩, kept⟩ := ih
      refine ⟨⟨joined, List.mem_cons_of_mem _ here, inside⟩, fun old member => ?_⟩
      rcases List.mem_cons.mp member with rfl | later
      · exact ⟨old, List.mem_cons_self, List.Subset.refl _⟩
      · obtain ⟨specGroup, there, wider⟩ := kept old later
        exact ⟨specGroup, List.mem_cons_of_mem _ there, wider⟩

theorem SplitOf.add {groups : List KvCacheGroup} {specGroups : List SpecGroup} (split : SplitOf groups specGroups)
    (group : KvCacheGroup) : SplitOf (groups ++ [group]) (addGroup groups.length group specGroups) := by
  have wider : ∀ (groupId : Nat) (old : KvCacheGroup), groups[groupId]? = some old → (groups ++ [group])[groupId]? = some old := by
    intro groupId old here
    rw [List.getElem?_append_left (List.getElem?_eq_some_iff.mp here).1, here]
  have last : (groups ++ [group])[groups.length]? = some group := by simp
  obtain ⟨joined, kept⟩ := addGroup_covers groups.length group specGroups
  refine ⟨fun specGroup here groupId inside => ?_, fun specGroup here => ?_, fun groupId inside => ?_,
    fun specGroup here flagged => ?_⟩
  · rcases mem_addGroup here with old | rfl | ⟨old, there, same, rfl⟩
    · obtain ⟨other, found, spec⟩ := split.member specGroup old groupId inside
      exact ⟨other, wider _ _ found, spec⟩
    · obtain rfl := List.mem_singleton.mp inside
      exact ⟨group, last, rfl⟩
    · rcases List.mem_append.mp inside with before | new
      · obtain ⟨other, found, spec⟩ := split.member old there groupId before
        exact ⟨other, wider _ _ found, spec⟩
      · obtain rfl := List.mem_singleton.mp new
        exact ⟨group, last, same.symm⟩
  · rcases mem_addGroup here with old | rfl | ⟨old, there, _, rfl⟩
    · exact split.nonempty specGroup old
    · exact List.cons_ne_nil _ _
    · simp
  · rw [List.length_append, List.length_singleton, Nat.lt_succ_iff_lt_or_eq] at inside
    rcases inside with before | rfl
    · obtain ⟨old, there, found⟩ := split.covers groupId before
      obtain ⟨specGroup, here, subset⟩ := kept old there
      exact ⟨specGroup, here, subset found⟩
    · exact joined
  · rcases mem_addGroup here with old | rfl | ⟨old, there, _, rfl⟩
    · obtain ⟨other, found, eagle⟩ := split.eagle specGroup old flagged
      exact ⟨other, List.mem_append_left _ found, eagle⟩
    · exact ⟨group, by simp, flagged⟩
    · rcases Bool.or_eq_true_iff.mp flagged with before | new
      · obtain ⟨other, found, eagle⟩ := split.eagle old there before
        exact ⟨other, List.mem_append_left _ found, eagle⟩
      · exact ⟨group, by simp, new⟩

theorem splitLoop_spec {done groups : List KvCacheGroup} {specGroups : List SpecGroup}
    (split : SplitOf done specGroups) : SplitOf (done ++ groups) (splitLoop done.length groups specGroups) := by
  induction groups generalizing done specGroups with
  | nil => simpa [splitLoop] using split
  | cons group groups ih =>
    have next := ih (split.add group)
    rwa [List.append_assoc, List.singleton_append, List.length_append, List.length_singleton] at next

theorem verifyAndSplitKvCacheGroups_spec (groups : List KvCacheGroup) :
    SplitOf groups (verifyAndSplitKvCacheGroups groups) := by
  have empty : SplitOf [] [] := ⟨by simp, by simp, by simp, by simp⟩
  have split : SplitOf groups (splitLoop 0 groups []) := splitLoop_spec empty
  have same : ∀ specGroup, specGroup ∈ verifyAndSplitKvCacheGroups groups ↔ specGroup ∈ splitLoop 0 groups [] := by
    intro specGroup
    unfold verifyAndSplitKvCacheGroups
    dsimp only
    rw [List.mem_append, List.mem_filter, List.mem_filter, ← and_or_left]
    cases specGroup.isFull <;> simp
  refine ⟨fun specGroup here => split.member specGroup ((same specGroup).mp here), fun specGroup here =>
    split.nonempty specGroup ((same specGroup).mp here), fun groupId inside => ?_, fun specGroup here =>
    split.eagle specGroup ((same specGroup).mp here)⟩
  obtain ⟨specGroup, here, found⟩ := split.covers groupId inside
  exact ⟨specGroup, (same specGroup).mpr here, found⟩

/-! ### The hits of each group -/

theorem mapM_eq_some {α β : Type} {f : α → Option β} {xs : List α} {ys : List β} (all : xs.mapM f = some ys) :
    ys.length = xs.length ∧ ∀ (k : Nat) (x : α), xs[k]? = some x → f x = ys[k]? := by
  induction xs generalizing ys with
  | nil =>
    obtain rfl : [] = ys := by simpa using all
    exact ⟨rfl, fun k x here => by simp at here⟩
  | cons x xs ih =>
    rw [List.mapM_cons] at all
    obtain ⟨y, first, all⟩ := Option.bind_eq_some_iff.mp all
    obtain ⟨rest, later, all⟩ := Option.bind_eq_some_iff.mp all
    obtain rfl := Option.some.inj all
    obtain ⟨size, each⟩ := ih later
    refine ⟨by simp [size], fun k other here => ?_⟩
    cases k with
    | zero =>
      obtain rfl := Option.some.inj here
      exact first
    | succ k => exact each k other here

theorem isSome_mapM {α β : Type} {f : α → Option β} {xs : List α} (all : ∀ x ∈ xs, (f x).isSome) :
    (xs.mapM f).isSome := by
  induction xs with
  | nil => simp
  | cons x xs ih =>
    obtain ⟨y, first⟩ := Option.isSome_iff_exists.mp (all x List.mem_cons_self)
    obtain ⟨ys, later⟩ := Option.isSome_iff_exists.mp (ih fun other member => all other (List.mem_cons_of_mem _ member))
    rw [List.mapM_cons, first, later]
    rfl

theorem getElem?_filterMap {α β : Type*} {f : α → Option β} {xs : List α} (all : ∀ x ∈ xs, (f x).isSome) (i : Nat) :
    (xs.filterMap f)[i]? = xs[i]?.bind f := by
  induction xs generalizing i with
  | nil => simp
  | cons x xs ih =>
    obtain ⟨y, here⟩ := Option.isSome_iff_exists.mp (all x List.mem_cons_self)
    rw [List.filterMap_cons, here]
    cases i with
    | zero => exact here.symm
    | succ i => exact ih (fun other member => all other (List.mem_cons_of_mem _ member)) i

theorem length_filterMap {α β : Type*} {f : α → Option β} {xs : List α} (all : ∀ x ∈ xs, (f x).isSome) :
    (xs.filterMap f).length = xs.length := by
  rw [List.length_filterMap_eq_countP, List.countP_eq_length]
  exact all

section LargerBlocks

variable {blockHashes : List η} {hashBlockSize blockSize : Nat}

theorem isSome_blockHash {scale : Nat} {idx : Nat} (inside : idx ∈ List.range (blockHashes.length / scale)) :
    (blockHashes[(idx + 1) * scale - 1]?).isSome := by
  have below := List.mem_range.mp inside
  have positive : 0 < scale := Nat.pos_of_ne_zero fun zero => by simp [zero] at below
  have whole : (idx + 1) * scale ≤ blockHashes.length := (Nat.le_div_iff_mul_le positive).mp below
  have least : scale ≤ (idx + 1) * scale := Nat.le_mul_of_pos_left scale (Nat.succ_pos idx)
  rw [List.getElem?_eq_getElem (show (idx + 1) * scale - 1 < blockHashes.length by omega)]
  rfl

theorem length_hashesOfSize {n : Nat} (full : blockHashes.length = n / hashBlockSize)
    (divides : blockSize % hashBlockSize = 0) : (hashesOfSize blockHashes hashBlockSize blockSize).length = n / blockSize := by
  unfold hashesOfSize
  split
  next same => rw [full, same]
  next =>
    rw [blockHashListWithBlockSize, length_filterMap fun _ => isSome_blockHash, List.length_range, full,
      Nat.div_div_eq_div_mul, Nat.mul_div_cancel' (Nat.dvd_of_mod_eq_zero divides)]

end LargerBlocks

theorem column_getElem? {rows : List (List BlockRef)} {k : Nat} (full : ∀ row ∈ rows, k < row.length) (i : Nat) :
    (column rows k)[i]? = rows[i]?.bind (·[k]?) :=
  getElem?_filterMap (fun row member => by simp [full row member]) i

variable [DecidableEq η]

def blockAt (pool : BlockPool η) (blockHashes : List η) (groupId i : Nat) : Option BlockRef :=
  blockHashes[i]?.bind fun blockHash => pool.cachedBlockHashToBlock.getOneBlock (blockHash, groupId)

def Ready (pool : BlockPool η) (blockHashes : List η) (groupId : Nat) (spec : KvCacheSpec) (length : Nat) : Prop :=
  ∀ i < length / spec.blockSize, Needed spec.attention spec.blockSize (length / spec.blockSize) i →
    (blockAt pool blockHashes groupId i).isSome

/-- The blocks of a group for a hit: all from the cache, null blocks apart, and with none of the needed missing.
With a window there are no others; with full attention there can be more of them. -/
structure GroupHit (pool : BlockPool η) (blockHashes : List η) (groupId : Nat) (spec : KvCacheSpec) (hitLength : Nat)
    (blocks : List BlockRef) : Prop where
  sound : ∀ i block, blocks[i]? = some block → block = pool.nullBlock ∨ blockAt pool blockHashes groupId i = some block
  backed : ∀ i < hitLength / spec.blockSize, Needed spec.attention spec.blockSize (hitLength / spec.blockSize) i →
    ∃ block, blocks[i]? = some block ∧ blockAt pool blockHashes groupId i = some block
  long : hitLength / spec.blockSize ≤ blocks.length

theorem cachedAt_eq_some {pool : BlockPool η} {blockHashes : List η} {groupIds : List Nat} {i : Nat}
    {row : List BlockRef} (found : cachedAt pool blockHashes groupIds i = some row) :
    row.length = groupIds.length ∧ ∀ k groupId : Nat, groupIds[k]? = some groupId →
      blockAt pool blockHashes groupId i = row[k]? := by
  obtain ⟨blockHash, here, cached⟩ := Option.bind_eq_some_iff.mp found
  obtain ⟨size, each⟩ := mapM_eq_some cached
  refine ⟨size, fun k groupId there => ?_⟩
  rw [blockAt, here]
  exact each k groupId there

/-- The spec group is ready when its groups are. -/
theorem hitOf_of_ready {pool : BlockPool η} {blockHashes : List η} {hashBlockSize length : Nat} {group : SpecGroup}
    (nonempty : group.groupIds ≠ []) (ready : ∀ groupId ∈ group.groupIds,
      Ready pool (hashesOfSize blockHashes hashBlockSize group.spec.blockSize) groupId group.spec length) :
    HitOf pool blockHashes hashBlockSize group length := by
  intro i inside needed
  obtain ⟨first, here⟩ := List.exists_mem_of_ne_nil _ nonempty
  obtain ⟨block, found⟩ := Option.isSome_iff_exists.mp (ready first here i inside needed)
  obtain ⟨blockHash, there, _⟩ := Option.bind_eq_some_iff.mp found
  rw [cachedIn, cachedAt, there, Option.bind_some]
  refine isSome_mapM fun groupId member => ?_
  have other := ready groupId member i inside needed
  rwa [blockAt, there, Option.bind_some] at other

theorem RowsFound.full {pool : BlockPool η} {blockHashes : List η} {hashBlockSize k groupId : Nat}
    {group : SpecGroup} {rows : List (List BlockRef)} (found : RowsFound pool blockHashes hashBlockSize group rows)
    (here : group.groupIds[k]? = some groupId) : ∀ row ∈ rows, k < row.length := by
  intro row member
  have inside : k < group.groupIds.length := (List.getElem?_eq_some_iff.mp here).1
  obtain ⟨i, there⟩ := List.getElem?_of_mem member
  rcases found.sound i row there with rfl | cached
  · simpa [nullRow] using inside
  · rwa [(cachedAt_eq_some cached).1]

theorem length_column {rows : List (List BlockRef)} {k : Nat} (full : ∀ row ∈ rows, k < row.length) :
    (column rows k).length = rows.length :=
  length_filterMap fun row member => by simp [full row member]

/-- The columns of the rows found are hits of the groups. -/
theorem groupHit_column {pool : BlockPool η} {blockHashes : List η} {hashBlockSize hitLength k groupId : Nat}
    {group : SpecGroup} {rows : List (List BlockRef)} (found : RowsFound pool blockHashes hashBlockSize group rows)
    (long : hitLength / group.spec.blockSize ≤ rows.length)
    (tight : group.isFull = false → rows.length = hitLength / group.spec.blockSize)
    (here : group.groupIds[k]? = some groupId) :
    GroupHit pool (hashesOfSize blockHashes hashBlockSize group.spec.blockSize) groupId group.spec hitLength
      (column rows k) := by
  have full := found.full here
  have at_i := column_getElem? full
  refine ⟨fun i block there => ?_, fun i before needed => ?_, ?_⟩
  · rw [at_i] at there
    obtain ⟨row, row_i, block_k⟩ := Option.bind_eq_some_iff.mp there
    rcases found.sound i row row_i with rfl | cached
    · rw [nullRow, List.getElem?_map, here] at block_k
      exact .inl (Option.some.inj block_k).symm
    · exact .inr (((cachedAt_eq_some cached).2 k groupId here).trans block_k)
  · have backed : cachedIn pool blockHashes hashBlockSize group i = rows[i]? := by
      refine found.backed i (by omega) ?_
      cases windowed : group.isFull with
      | true => simp [Needed, show group.spec.attention = .fullAttention by simpa [SpecGroup.isFull] using windowed]
      | false => rwa [tight windowed]
    rw [List.getElem?_eq_getElem (by omega)] at backed
    obtain ⟨size, each⟩ := cachedAt_eq_some backed
    have same := each k groupId here
    have block_k := List.getElem?_eq_getElem (full _ (List.getElem_mem (show i < rows.length by omega)))
    refine ⟨_, ?_, same.trans block_k⟩
    rw [at_i, List.getElem?_eq_getElem (by omega), Option.bind_some, block_k]
  · rwa [length_column full]

theorem RowsFound.take {pool : BlockPool η} {blockHashes : List η} {hashBlockSize : Nat} {group : SpecGroup}
    {rows : List (List BlockRef)} (found : RowsFound pool blockHashes hashBlockSize group rows)
    (full : group.isFull = true) (n : Nat) : RowsFound pool blockHashes hashBlockSize group (rows.take n) := by
  have attention : group.spec.attention = .fullAttention := by simpa [SpecGroup.isFull] using full
  unfold RowsFound at found ⊢
  rw [attention] at found ⊢
  exact found_take (fun i inside => found.backed i inside trivial) n _ _ _

/-- Where a length was agreed on, the blocks of each group are a hit of that length. They are no more than that
unless there are three specifications, two of them of full attention. -/
theorem Agreed.groupHit {pool : BlockPool η} {blockHashes : List η}
    {hashBlockSize schedulerBlockSize bound hitLength groupId : Nat} {specGroups : List SpecGroup}
    {state : HybridState} {groups : List KvCacheGroup} {group : KvCacheGroup}
    (agreed : Agreed pool blockHashes hashBlockSize schedulerBlockSize specGroups bound hitLength state)
    (split : SplitOf groups specGroups)
    (sizes : ∀ group ∈ specGroups, 0 < group.spec.blockSize ∧ group.spec.blockSize ∣ schedulerBlockSize)
    (here : groups[groupId]? = some group) :
    GroupHit pool (hashesOfSize blockHashes hashBlockSize group.spec.blockSize) groupId group.spec hitLength
        (blocksByGroup specGroups hitLength state groupId) ∧
      ((∀ idx specGroup, specGroups[idx]? = some specGroup → specGroup.isFull → idx = 0) ∨ SimpleHybrid specGroups →
        (blocksByGroup specGroups hitLength state groupId).length = hitLength / group.spec.blockSize) := by
  obtain ⟨any, member, listed⟩ := split.covers groupId (List.getElem?_eq_some_iff.mp here).1
  have inside : specGroups.findIdx (groupId ∈ ·.groupIds) < specGroups.length :=
    List.findIdx_lt_length_of_exists ⟨any, member, by simpa using listed⟩
  have found_id := List.findIdx_getElem (w := inside)
  rw [decide_eq_true_eq] at found_id
  unfold blocksByGroup
  generalize specGroups.findIdx (groupId ∈ ·.groupIds) = idx at inside found_id ⊢
  have at_idx := List.getElem?_eq_getElem inside
  have mem_idx := List.getElem_mem inside
  generalize specGroups[idx] = specGroup at found_id at_idx mem_idx
  obtain ⟨other, same, spec⟩ := split.member specGroup mem_idx groupId found_id
  obtain rfl := Option.some.inj (here.symm.trans same)
  obtain ⟨positive, divides⟩ := sizes specGroup mem_idx
  obtain ⟨rows, kept_rows, kept, second⟩ := agreed.kept idx specGroup at_idx
  have multiple : specGroup.spec.blockSize ∣ hitLength := divides.trans agreed.aligned
  have long : hitLength / specGroup.spec.blockSize ≤ rows.length :=
    Nat.div_le_of_le_mul (by rw [Nat.mul_comm]; exact kept.long)
  have tight : rows.length * specGroup.spec.blockSize ≤ hitLength →
      rows.length = hitLength / specGroup.spec.blockSize := fun short =>
    le_antisymm ((Nat.le_div_iff_mul_le positive).mpr short) long
  have position : specGroup.groupIds[specGroup.groupIds.idxOf groupId]? = some groupId := by
    rw [List.getElem?_eq_getElem (List.idxOf_lt_length_iff.mpr found_id), List.getElem_idxOf]
  dsimp only
  rw [at_idx, Option.map_some, Option.getD_some, spec]
  have columns : ∀ rows, RowsFound pool blockHashes hashBlockSize specGroup rows →
      (column rows (specGroup.groupIds.idxOf groupId)).length = rows.length := fun rows found =>
    length_column (found.full position)
  have final : finalRows specGroups hitLength state idx = if idx = 0 ∧ specGroup.isFull then
      rows.take (hitLength / specGroup.spec.blockSize) else rows := by
    rw [finalRows, at_idx, kept_rows]
    rfl
  rw [final]
  split
  next first =>
    have size : (rows.take (hitLength / specGroup.spec.blockSize)).length = hitLength / specGroup.spec.blockSize := by
      rw [List.length_take, min_eq_left long]
    exact ⟨groupHit_column (kept.found.take first.2 _) size.ge (fun _ => size) position, fun _ =>
      (columns _ (kept.found.take first.2 _)).trans size⟩
  next later =>
    refine ⟨groupHit_column kept.found long (fun windowed => tight (kept.short windowed)) position, fun few => ?_⟩
    rw [columns _ kept.found]
    refine tight ?_
    cases windowed : specGroup.isFull with
    | false => exact kept.short windowed
    | true =>
      rcases few with one_full | simple
      · exact absurd ⟨one_full idx specGroup at_idx windowed, windowed⟩ later
      · have two := simple.1
        have not_first : idx ≠ 0 := fun zero => later ⟨zero, windowed⟩
        exact second simple (by omega)

end DreamAifd.KvCache
