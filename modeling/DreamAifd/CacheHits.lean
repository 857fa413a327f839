import DreamAifd.BlockPool

/-! The blocks of a new request that are in the cache already, looked up for each type of attention and
for all types together. -/
namespace DreamAifd.KvCache

variable {η : Type}

/-- The cache groups that keep every token of a request, and those that keep the last ones only. -/
inductive AttentionType where
  | fullAttention
  | slidingWindow (slidingWindow : Nat)
  deriving DecidableEq, Repr

/-- A `KVCacheSpec`; `layout` stands for what tells two specifications apart otherwise. -/
structure KvCacheSpec where
  attention : AttentionType
  blockSize : Nat
  layout : String
  deriving DecidableEq, Repr

structure SpecGroup where
  spec : KvCacheSpec
  groupIds : List Nat
  useEagle : Bool
  deriving DecidableEq, Repr

/-- The largest number of blocks up to a given one at which the hits may end. -/
def alignedBlocks (blockSize alignmentTokens : Nat) : Nat → Nat
  | 0 => 0
  | n + 1 =>
    if blockSize ≠ alignmentTokens ∧ (n + 1) * blockSize % alignmentTokens ≠ 0 then
      alignedBlocks blockSize alignmentTokens n
    else n + 1

/-- The blocks found, with one entry for each group, up to the first that is not in the cache. -/
def cachedRows (cached : Nat → Option (List BlockRef)) (i : Nat) : Nat → List (List BlockRef)
  | 0 => []
  | n + 1 =>
    match cached i with
    | some row => row :: cachedRows cached (i + 1) n
    | none => []

namespace FullAttentionManager

/-- The last block is dropped where the draft model needs its hidden states. -/
def findLongestCacheHit (cached : Nat → Option (List BlockRef)) (numHashes maxLength blockSize : Nat)
    (dropEagleBlock : Bool) (alignmentTokens : Nat) : List (List BlockRef) :=
  let rows := cachedRows cached 0 (min (maxLength / blockSize) numHashes)
  let rows := if dropEagleBlock then rows.dropLast else rows
  rows.take (alignedBlocks blockSize alignmentTokens rows.length)

end FullAttentionManager

namespace SlidingWindowManager

def contiguousBlocksForHit (windowSize blockSize : Nat) (useEagle : Bool) : Nat :=
  (windowSize - 1 + (blockSize - 1)) / blockSize + if useEagle then 1 else 0

def postPopBlocks (dropEagleBlock : Bool) (i : Nat) : Nat := if dropEagleBlock then i else i + 1

/-- The search from right to left, with the length of the row of hits so far. It tells whether it ended early. -/
def searchLoop (cached : Nat → Option (List BlockRef)) (need blockSize alignmentTokens : Nat) (dropEagleBlock : Bool) :
    Nat → List (List BlockRef) → Nat → Bool × List (List BlockRef)
  | 0, rows, numContiguousBlocks => (false, rows.take numContiguousBlocks)
  | i + 1, rows, numContiguousBlocks =>
    match cached i with
    | none => searchLoop cached need blockSize alignmentTokens dropEagleBlock i rows 0
    | some row =>
      if numContiguousBlocks = 0 ∧ blockSize ≠ alignmentTokens ∧
          postPopBlocks dropEagleBlock i * blockSize % alignmentTokens ≠ 0 then
        searchLoop cached need blockSize alignmentTokens dropEagleBlock i rows numContiguousBlocks
      else if need ≤ numContiguousBlocks + 1 then (true, (rows.set i row).take (i + (numContiguousBlocks + 1)))
      else searchLoop cached need blockSize alignmentTokens dropEagleBlock i (rows.set i row) (numContiguousBlocks + 1)

/-- The largest index is looked up first, so it is there that a hash can be missing. -/
def findLongestCacheHit (cached : Nat → Option (List BlockRef)) (numHashes maxLength blockSize slidingWindow : Nat)
    (dropEagleBlock : Bool) (alignmentTokens : Nat) (nullRow : List BlockRef) :
    Except KvError (List (List BlockRef)) :=
  let maxNumBlocks := maxLength / blockSize
  if numHashes < maxNumBlocks then .error .indexError
  else
    let need := contiguousBlocksForHit slidingWindow blockSize dropEagleBlock
    let found := searchLoop cached need blockSize alignmentTokens dropEagleBlock maxNumBlocks
      (List.replicate maxNumBlocks nullRow) 0
    let rows := if found.1 then found.2 else found.2.take (alignedBlocks blockSize alignmentTokens found.2.length)
    .ok (if dropEagleBlock then
      rows.dropLast.take (alignedBlocks blockSize alignmentTokens rows.dropLast.length) else rows)

end SlidingWindowManager

section Lookup

variable [DecidableEq η] (pool : BlockPool η)

def cachedAt (blockHashes : List η) (groupIds : List Nat) (i : Nat) : Option (List BlockRef) :=
  blockHashes[i]?.bind fun blockHash => pool.getCachedBlock blockHash groupIds

def nullRow (groupIds : List Nat) : List BlockRef := groupIds.map fun _ => pool.nullBlock

def SpecGroup.findLongestCacheHit (group : SpecGroup) (blockHashes : List η) (maxLength : Nat)
    (dropEagleBlock : Bool) (alignmentTokens : Nat) : Except KvError (List (List BlockRef)) :=
  match group.spec.attention with
  | .fullAttention =>
    .ok (FullAttentionManager.findLongestCacheHit (cachedAt pool blockHashes group.groupIds) blockHashes.length
      maxLength group.spec.blockSize dropEagleBlock alignmentTokens)
  | .slidingWindow slidingWindow =>
    SlidingWindowManager.findLongestCacheHit (cachedAt pool blockHashes group.groupIds) blockHashes.length maxLength
      group.spec.blockSize slidingWindow dropEagleBlock alignmentTokens (nullRow pool group.groupIds)

end Lookup

/-! ### What a lookup finds -/

def Aligned (blockSize alignmentTokens n : Nat) : Prop := alignmentTokens ∣ n * blockSize

theorem alignedBlocks_isGreatest {blockSize alignmentTokens : Nat} (n : Nat) :
    IsGreatest {m | m ≤ n ∧ Aligned blockSize alignmentTokens m} (alignedBlocks blockSize alignmentTokens n) := by
  induction n with
  | zero => exact ⟨⟨le_rfl, by simp [Aligned, alignedBlocks]⟩, fun m member => member.1⟩
  | succ n ih =>
    unfold alignedBlocks
    split
    next unaligned =>
      refine ⟨⟨ih.1.1.trans n.le_succ, ih.1.2⟩, fun m member => ?_⟩
      rcases Nat.lt_or_eq_of_le member.1 with less | rfl
      · exact ih.2 ⟨by omega, member.2⟩
      · exact absurd (Nat.mod_eq_zero_of_dvd member.2) unaligned.2
    next aligned =>
      refine ⟨⟨le_rfl, ?_⟩, fun m member => member.1⟩
      rcases not_and_or.mp aligned with same | divides
      · exact not_not.mp same ▸ Dvd.intro_left (n + 1) rfl
      · exact Nat.dvd_of_mod_eq_zero (not_not.mp divides)

theorem alignedBlocks_le (blockSize alignmentTokens n : Nat) : alignedBlocks blockSize alignmentTokens n ≤ n :=
  (alignedBlocks_isGreatest n).1.1

theorem alignedBlocks_eq_self {blockSize alignmentTokens n : Nat} (aligned : Aligned blockSize alignmentTokens n) :
    alignedBlocks blockSize alignmentTokens n = n :=
  le_antisymm (alignedBlocks_le ..) ((alignedBlocks_isGreatest n).2 ⟨le_rfl, aligned⟩)

/-- The blocks of a prefix of `n` blocks that the next token's attention reaches. -/
def Needed (attention : AttentionType) (blockSize n i : Nat) : Prop :=
  match attention with
  | .fullAttention => True
  | .slidingWindow slidingWindow =>
    n ≤ i + SlidingWindowManager.contiguousBlocksForHit slidingWindow blockSize false

/-- After `n` blocks the request can go on from the cache. -/
def Hit (cached : Nat → Option (List BlockRef)) (attention : AttentionType) (blockSize n : Nat) : Prop :=
  ∀ i < n, Needed attention blockSize n i → (cached i).isSome

/-- All rows were found in the cache but for those left null, which are none of the needed. -/
structure Found (cached : Nat → Option (List BlockRef)) (attention : AttentionType) (blockSize : Nat)
    (nullRow : List BlockRef) (rows : List (List BlockRef)) : Prop where
  sound : ∀ i row, rows[i]? = some row → row = nullRow ∨ cached i = some row
  backed : ∀ i < rows.length, Needed attention blockSize rows.length i → cached i = rows[i]?

theorem Found.hit {cached : Nat → Option (List BlockRef)} {attention : AttentionType} {blockSize : Nat}
    {nullRow : List BlockRef} {rows : List (List BlockRef)} (found : Found cached attention blockSize nullRow rows) :
    Hit cached attention blockSize rows.length := by
  intro i inside needed
  rw [found.backed i inside needed, List.getElem?_eq_getElem inside]
  rfl

section Full

variable {cached : Nat → Option (List BlockRef)}

theorem cachedRows_spec (cached : Nat → Option (List BlockRef)) (i n : Nat) : (cachedRows cached i n).length ≤ n ∧
    (∀ j < (cachedRows cached i n).length, cached (i + j) = (cachedRows cached i n)[j]?) ∧
    ∀ m ≤ n, (∀ j < m, (cached (i + j)).isSome) → m ≤ (cachedRows cached i n).length := by
  induction n generalizing i with
  | zero => exact ⟨le_rfl, fun j inside => absurd inside (Nat.not_lt_zero j), fun m small _ => small⟩
  | succ n ih =>
    obtain ⟨short, rows, longest⟩ := ih (i + 1)
    unfold cachedRows
    cases here : cached i with
    | none =>
      refine ⟨Nat.zero_le _, fun j inside => absurd inside (Nat.not_lt_zero j), fun m _ all => ?_⟩
      cases m with
      | zero => exact le_rfl
      | succ m =>
        have first := all 0 (Nat.succ_pos m)
        simp [here] at first
    | some row =>
      refine ⟨Nat.succ_le_succ short, fun j inside => ?_, fun m small all => ?_⟩
      · cases j with
        | zero => simpa using here
        | succ j =>
          rw [List.getElem?_cons_succ, ← rows j (Nat.lt_of_succ_lt_succ inside)]
          exact congrArg cached (by omega)
      · cases m with
        | zero => exact Nat.zero_le _
        | succ m =>
          refine Nat.succ_le_succ (longest m (by omega) fun j inside => ?_)
          have later := all (j + 1) (by omega)
          rwa [show i + (j + 1) = i + 1 + j by omega] at later

/-- A prefix of rows that were all found. -/
theorem found_take {rows : List (List BlockRef)} (all : ∀ i < rows.length, cached i = rows[i]?) (n : Nat)
    (attention : AttentionType) (blockSize : Nat) (nullRow : List BlockRef) :
    Found cached attention blockSize nullRow (rows.take n) := by
  have every : ∀ i < (rows.take n).length, cached i = (rows.take n)[i]? := by
    intro i inside
    rw [List.length_take] at inside
    rw [all i (by omega), List.getElem?_take_of_lt (by omega)]
  refine ⟨fun i row here => .inr ?_, fun i inside _ => every i inside⟩
  exact (every i (List.getElem?_eq_some_iff.mp here).1).trans here

/-- The left to right scan finds the longest hit, unless a block is dropped from it. -/
theorem FullAttentionManager.findLongestCacheHit_spec (numHashes maxLength blockSize : Nat) (drop : Bool)
    (alignmentTokens : Nat) (nullRow : List BlockRef) (hashed : ∀ i, (cached i).isSome → i < numHashes) :
    let rows := FullAttentionManager.findLongestCacheHit cached numHashes maxLength blockSize drop alignmentTokens
    Found cached .fullAttention blockSize nullRow rows ∧ Aligned blockSize alignmentTokens rows.length ∧
      rows.length + (if drop then min 1 rows.length else 0) ≤ maxLength / blockSize ∧
      (drop = false → ∀ n ≤ maxLength / blockSize, Aligned blockSize alignmentTokens n →
        Hit cached .fullAttention blockSize n → n ≤ rows.length) := by
  obtain ⟨short, all, longest⟩ := cachedRows_spec cached 0 (min (maxLength / blockSize) numHashes)
  unfold FullAttentionManager.findLongestCacheHit
  generalize cachedRows cached 0 (min (maxLength / blockSize) numHashes) = rows at short all longest
  simp only [Nat.zero_add] at all longest
  dsimp only
  cases drop with
  | true =>
    have le := alignedBlocks_le blockSize alignmentTokens rows.dropLast.length
    rw [if_pos rfl, if_pos rfl, List.length_take, min_eq_left le, List.dropLast_eq_take, List.take_take]
    rw [List.length_dropLast] at le
    refine ⟨found_take all _ _ _ _, (alignedBlocks_isGreatest _).1.2, ?_, fun kept => nomatch kept⟩
    rw [List.length_take, min_eq_left (Nat.sub_le ..)]
    omega
  | false =>
    have le := alignedBlocks_le blockSize alignmentTokens rows.length
    simp only [Bool.false_eq_true, if_false, List.length_take, min_eq_left le, Nat.add_zero]
    refine ⟨found_take all _ _ _ _, (alignedBlocks_isGreatest _).1.2, by omega, fun _ n small aligned hit => ?_⟩
    refine (alignedBlocks_isGreatest _).2 ⟨longest n (le_min small ?_) fun j inside => hit j inside trivial, aligned⟩
    rcases Nat.eq_zero_or_pos n with rfl | positive
    · exact Nat.zero_le _
    · have last := hashed _ (hit (n - 1) (by omega) trivial)
      omega

end Full

section Sliding

variable {cached : Nat → Option (List BlockRef)} {need blockSize alignmentTokens : Nat} {drop : Bool}
  {nullRow : List BlockRef}

def MayEnd (blockSize alignmentTokens : Nat) (drop : Bool) (n : Nat) : Prop :=
  Aligned blockSize alignmentTokens (if drop then n - 1 else n)

theorem mod_postPopBlocks {i : Nat} : SlidingWindowManager.postPopBlocks drop i * blockSize % alignmentTokens = 0 ↔
    MayEnd blockSize alignmentTokens drop (i + 1) := by
  rw [MayEnd, Aligned, Nat.dvd_iff_mod_eq_zero, SlidingWindowManager.postPopBlocks, Nat.add_sub_cancel]

def BackedFrom (cached : Nat → Option (List BlockRef)) (start : Nat) (rows : List (List BlockRef)) : Prop :=
  ∀ j, start ≤ j → j < rows.length → cached j = rows[j]?

theorem BackedFrom.take {start : Nat} {rows : List (List BlockRef)} (backed : BackedFrom cached start rows) (n : Nat) :
    BackedFrom cached start (rows.take n) := by
  intro j after inside
  rw [List.length_take] at inside
  rw [backed j after (by omega), List.getElem?_take_of_lt (by omega)]

def SoundRows (cached : Nat → Option (List BlockRef)) (nullRow : List BlockRef) (rows : List (List BlockRef)) : Prop :=
  ∀ j row, rows[j]? = some row → row = nullRow ∨ cached j = some row

theorem SoundRows.take {rows : List (List BlockRef)} (sound : SoundRows cached nullRow rows) (n : Nat) :
    SoundRows cached nullRow (rows.take n) := by
  intro j row here
  rw [List.getElem?_take] at here
  split at here
  · exact sound j row here
  · exact nomatch here

theorem SoundRows.set {rows : List (List BlockRef)} {i : Nat} {row : List BlockRef}
    (sound : SoundRows cached nullRow rows) (here : cached i = some row) : SoundRows cached nullRow (rows.set i row) := by
  intro j other there
  rw [List.getElem?_set] at there
  split at there
  next same =>
    split at there
    · exact .inr (same ▸ Option.some.inj there ▸ here)
    · exact nomatch there
  · exact sound j other there

/-- A hit of the last `need` blocks, or of all of them. -/
def HitAt (cached : Nat → Option (List BlockRef)) (need n : Nat) : Prop :=
  ∀ i < n, n ≤ i + max 1 need → (cached i).isSome

/-- What the search is left with at an index: the row of hits that starts there, and nothing longer. -/
structure SearchState (cached : Nat → Option (List BlockRef)) (need blockSize alignmentTokens : Nat) (drop : Bool)
    (nullRow : List BlockRef) (size i : Nat) (rows : List (List BlockRef)) (n : Nat) : Prop where
  length : rows.length = size
  inside : i + n ≤ size
  short : n < max 1 need
  run : ∀ j, i ≤ j → j < i + n → cached j = rows[j]?
  sound : SoundRows cached nullRow rows
  ends : n ≠ 0 → MayEnd blockSize alignmentTokens drop (i + n)
  longest : drop = false → ∀ m ≤ size, Aligned blockSize alignmentTokens m → HitAt cached need m → m ≤ i + n

namespace SearchState

variable {size i n : Nat} {rows : List (List BlockRef)} {row : List BlockRef}

theorem miss (state : SearchState cached need blockSize alignmentTokens drop nullRow size (i + 1) rows n)
    (none_here : cached i = none) : SearchState cached need blockSize alignmentTokens drop nullRow size i rows 0 := by
  have short := state.short
  have inside := state.inside
  refine ⟨state.length, by omega, by omega, fun j after before => by omega, state.sound, fun nonzero =>
    absurd rfl nonzero, fun kept m small aligned hit => ?_⟩
  have bound := state.longest kept m small aligned hit
  -- A longer hit would reach over the block that is missing.
  by_contra longer
  have reached := hit i (by omega) (by omega)
  simp [none_here] at reached

theorem skip (state : SearchState cached need blockSize alignmentTokens drop nullRow size (i + 1) rows 0)
    (unaligned : ¬ MayEnd blockSize alignmentTokens drop (i + 1)) :
    SearchState cached need blockSize alignmentTokens drop nullRow size i rows 0 := by
  have inside := state.inside
  refine ⟨state.length, by omega, state.short, fun j after before => by omega, state.sound, fun nonzero =>
    absurd rfl nonzero, fun kept m small aligned hit => ?_⟩
  have bound := state.longest kept m small aligned hit
  by_contra longer
  have same : m = i + 1 := by omega
  subst same kept
  exact unaligned aligned

theorem extended_run (state : SearchState cached need blockSize alignmentTokens drop nullRow size (i + 1) rows n)
    (here : cached i = some row) : ∀ j, i ≤ j → j < i + (n + 1) → cached j = (rows.set i row)[j]? := by
  intro j after before
  have inside := state.inside
  rcases Nat.eq_or_lt_of_le after with rfl | later
  · rw [here, List.getElem?_set_self (by rw [state.length]; omega)]
  · rw [List.getElem?_set_ne (by omega), state.run j (by omega) (by omega)]

theorem extend (state : SearchState cached need blockSize alignmentTokens drop nullRow size (i + 1) rows n)
    (here : cached i = some row) (ends : n = 0 → MayEnd blockSize alignmentTokens drop (i + 1))
    (more : ¬ need ≤ n + 1) :
    SearchState cached need blockSize alignmentTokens drop nullRow size i (rows.set i row) (n + 1) := by
  have inside := state.inside
  refine ⟨by rw [List.length_set, state.length], by omega, by omega, state.extended_run here, state.sound.set here,
    fun _ => ?_, fun kept m small aligned hit => ?_⟩
  · rcases Nat.eq_zero_or_pos n with rfl | positive
    · exact ends rfl
    · rw [show i + (n + 1) = i + 1 + n by omega]
      exact state.ends (by omega)
  · have bound := state.longest kept m small aligned hit
    omega

end SearchState

structure SearchEnd (cached : Nat → Option (List BlockRef)) (need blockSize alignmentTokens : Nat) (drop : Bool)
    (nullRow : List BlockRef) (size : Nat) (result : Bool × List (List BlockRef)) : Prop where
  small : result.2.length ≤ size
  sound : SoundRows cached nullRow result.2
  ends : result.2.length ≠ 0 → MayEnd blockSize alignmentTokens drop result.2.length
  backed : ∃ start, BackedFrom cached start result.2 ∧ (start = 0 ∨ result.1 = true ∧ start + max 1 need ≤ result.2.length)
  longest : drop = false → ∀ m ≤ size, Aligned blockSize alignmentTokens m → HitAt cached need m → m ≤ result.2.length

theorem searchLoop_spec {size i n : Nat} {rows : List (List BlockRef)}
    (state : SearchState cached need blockSize alignmentTokens drop nullRow size i rows n) :
    SearchEnd cached need blockSize alignmentTokens drop nullRow size
      (SlidingWindowManager.searchLoop cached need blockSize alignmentTokens drop i rows n) := by
  induction i generalizing rows n with
  | zero =>
    have inside := state.inside
    have size_eq : (rows.take n).length = n := by rw [List.length_take, state.length]; omega
    refine ⟨by simp only [SlidingWindowManager.searchLoop, size_eq]; omega, state.sound.take n, ?_, ⟨0, ?_, .inl rfl⟩, ?_⟩
    · simpa [SlidingWindowManager.searchLoop, size_eq] using state.ends
    · intro j _ before
      have shorter : j < n := size_eq ▸ before
      simp only [SlidingWindowManager.searchLoop]
      rw [List.getElem?_take_of_lt shorter]
      exact state.run j (Nat.zero_le j) (by omega)
    · simpa [SlidingWindowManager.searchLoop, size_eq] using state.longest
  | succ i ih =>
    unfold SlidingWindowManager.searchLoop
    have inside := state.inside
    cases here : cached i with
    | none => exact ih (state.miss here)
    | some row =>
      dsimp only
      split
      next unaligned =>
        obtain ⟨rfl, _, remainder⟩ := unaligned
        exact ih (state.skip fun aligned => remainder (mod_postPopBlocks.mpr aligned))
      next aligned =>
        have ends : n = 0 → MayEnd blockSize alignmentTokens drop (i + 1) := by
          rintro rfl
          rcases not_and_or.mp (fun both => aligned ⟨rfl, both⟩) with same | divides
          · exact mod_postPopBlocks.mp (not_not.mp same ▸ Nat.mul_mod_left ..)
          · exact mod_postPopBlocks.mp (not_not.mp divides)
        split
        next enough =>
          have size_eq : ((rows.set i row).take (i + (n + 1))).length = i + (n + 1) := by
            rw [List.length_take, List.length_set, state.length]
            omega
          refine ⟨by rw [size_eq]; omega, (state.sound.set here).take _, fun _ => ?_, ⟨i, ?_, .inr ⟨rfl, ?_⟩⟩, ?_⟩
          · rw [size_eq]
            rcases Nat.eq_zero_or_pos n with rfl | positive
            · exact ends rfl
            · rw [show i + (n + 1) = i + 1 + n by omega]
              exact state.ends (by omega)
          · intro j after before
            rw [size_eq] at before
            rw [List.getElem?_take_of_lt before]
            exact state.extended_run here j after before
          · rw [size_eq]
            omega
          · intro kept m small divides hit
            have bound := state.longest kept m small divides hit
            rw [size_eq]
            omega
        next more => exact ih (state.extend here ends more)

theorem searchState_init (size : Nat) :
    SearchState cached need blockSize alignmentTokens drop nullRow size size (List.replicate size nullRow) 0 where
  length := List.length_replicate
  inside := le_rfl
  short := by omega
  run j after before := by omega
  sound j row here := .inl (List.eq_of_mem_replicate (List.mem_of_getElem? here))
  ends nonzero := absurd rfl nonzero
  longest _ _ small _ _ := small

theorem found_of_backedFrom {start slidingWindow : Nat} {rows : List (List BlockRef)}
    (sound : SoundRows cached nullRow rows) (backed : BackedFrom cached start rows)
    (enough : start = 0 ∨
      start + SlidingWindowManager.contiguousBlocksForHit slidingWindow blockSize false ≤ rows.length) :
    Found cached (.slidingWindow slidingWindow) blockSize nullRow rows := by
  refine ⟨sound, fun i inside needed => backed i ?_ inside⟩
  have reach : rows.length ≤ i + SlidingWindowManager.contiguousBlocksForHit slidingWindow blockSize false := needed
  omega

/-- The search from right to left finds the longest hit, unless a block is dropped from it. -/
theorem SlidingWindowManager.findLongestCacheHit_spec {numHashes maxLength slidingWindow : Nat}
    {rows : List (List BlockRef)}
    (ran : SlidingWindowManager.findLongestCacheHit cached numHashes maxLength blockSize slidingWindow drop
      alignmentTokens nullRow = .ok rows) :
    Found cached (.slidingWindow slidingWindow) blockSize nullRow rows ∧
      Aligned blockSize alignmentTokens rows.length ∧
      rows.length + (if drop then min 1 rows.length else 0) ≤ maxLength / blockSize ∧
      (drop = false → 0 < contiguousBlocksForHit slidingWindow blockSize false → ∀ n ≤ maxLength / blockSize,
        Aligned blockSize alignmentTokens n → Hit cached (.slidingWindow slidingWindow) blockSize n →
        n ≤ rows.length) := by
  unfold SlidingWindowManager.findLongestCacheHit at ran
  dsimp only at ran
  split at ran
  · exact nomatch ran
  have init : SearchState cached (contiguousBlocksForHit slidingWindow blockSize drop) blockSize alignmentTokens drop
    nullRow _ _ _ 0 := searchState_init (maxLength / blockSize)
  obtain ⟨small, sound, ends, ⟨start, backed, enough⟩, longest⟩ := searchLoop_spec init
  generalize searchLoop cached _ blockSize alignmentTokens drop _ _ 0 = result at ran small sound ends backed enough longest
  obtain ⟨early, found⟩ := result
  dsimp only at ran small sound ends backed enough longest
  cases drop with
  | false =>
    have aligned : Aligned blockSize alignmentTokens found.length := by
      rcases Nat.eq_zero_or_pos found.length with zero | positive
      · simp [Aligned, zero]
      · exact ends (by omega)
    rw [alignedBlocks_eq_self aligned, List.take_length, ite_self, if_neg Bool.false_ne_true] at ran
    obtain rfl := Except.ok.inj ran
    refine ⟨found_of_backedFrom sound backed ?_, aligned, by simpa using small, fun _ positive n below divides hit => ?_⟩
    · rcases enough with zero | ⟨_, reach⟩
      · exact .inl zero
      · exact .inr (by omega)
    · refine longest rfl n below divides fun i inside reach => hit i inside ?_
      rwa [max_eq_right positive] at reach
  | true =>
    have le := alignedBlocks_le blockSize alignmentTokens
    refine ⟨?_, ?_, ?_, fun kept => nomatch kept⟩
    all_goals rw [if_pos rfl] at ran
    all_goals obtain rfl := Except.ok.inj ran
    all_goals clear ran
    · rcases enough with rfl | ⟨rfl, reach⟩
      · have whole : ∀ n, Found cached (.slidingWindow slidingWindow) blockSize nullRow (found.take n) := fun n =>
          found_of_backedFrom (sound.take n) (backed.take n) (.inl rfl)
        rw [List.dropLast_eq_take]
        split
        · rw [List.take_take]
          exact whole _
        · rw [List.take_take, List.take_take]
          exact whole _
      · have reach : start + (contiguousBlocksForHit slidingWindow blockSize false + 1) ≤ found.length := by
          have same : contiguousBlocksForHit slidingWindow blockSize true =
            contiguousBlocksForHit slidingWindow blockSize false + 1 := rfl
          omega
        have aligned : Aligned blockSize alignmentTokens (found.length - 1) := ends (by omega)
        rw [if_pos rfl, List.length_dropLast, alignedBlocks_eq_self aligned, List.dropLast_eq_take, List.take_take,
          min_self]
        exact found_of_backedFrom (sound.take _) (backed.take _) (.inr (by rw [List.length_take]; omega))
    · rw [List.length_take, min_eq_left (le _)]
      exact (alignedBlocks_isGreatest _).1.2
    · rw [if_pos rfl, List.length_take, min_eq_left (le _)]
      have shorter := le (if early = true then found else
        found.take (alignedBlocks blockSize alignmentTokens found.length)).dropLast.length
      have bound : (if early = true then found else
          found.take (alignedBlocks blockSize alignmentTokens found.length)).length ≤ found.length := by
        split
        · exact le_rfl
        · exact List.length_take_le' ..
      rw [List.length_dropLast] at shorter ⊢
      omega

end Sliding

/-- An attention that reaches no token but the current one needs nothing from the cache. -/
def KvCacheSpec.LooksBack (spec : KvCacheSpec) : Prop :=
  match spec.attention with
  | .fullAttention => True
  | .slidingWindow slidingWindow => 0 < SlidingWindowManager.contiguousBlocksForHit slidingWindow spec.blockSize false

/-- A lookup finds a hit of blocks in the cache, and the longest one unless a block is dropped from it. -/
theorem SpecGroup.findLongestCacheHit_spec [DecidableEq η] {pool : BlockPool η} {group : SpecGroup}
    {blockHashes : List η} {maxLength alignmentTokens : Nat} {drop : Bool} {rows : List (List BlockRef)}
    (ran : group.findLongestCacheHit pool blockHashes maxLength drop alignmentTokens = .ok rows) :
    Found (cachedAt pool blockHashes group.groupIds) group.spec.attention group.spec.blockSize
        (nullRow pool group.groupIds) rows ∧
      Aligned group.spec.blockSize alignmentTokens rows.length ∧
      rows.length + (if drop then min 1 rows.length else 0) ≤ maxLength / group.spec.blockSize ∧
      (drop = false → group.spec.LooksBack → ∀ n ≤ maxLength / group.spec.blockSize,
        Aligned group.spec.blockSize alignmentTokens n →
        Hit (cachedAt pool blockHashes group.groupIds) group.spec.attention group.spec.blockSize n →
        n ≤ rows.length) := by
  unfold SpecGroup.findLongestCacheHit at ran
  unfold KvCacheSpec.LooksBack
  cases attention : group.spec.attention with
  | fullAttention =>
    rw [attention] at ran
    obtain rfl := Except.ok.inj ran
    obtain ⟨found, aligned, small, longest⟩ := FullAttentionManager.findLongestCacheHit_spec blockHashes.length
      maxLength group.spec.blockSize drop alignmentTokens (nullRow pool group.groupIds)
      fun i (present : (cachedAt pool blockHashes group.groupIds i).isSome) => by
        by_contra outside
        simp [cachedAt, List.getElem?_eq_none (not_lt.mp outside)] at present
    exact ⟨found, aligned, small, fun kept _ => longest kept⟩
  | slidingWindow window =>
    rw [attention] at ran
    exact SlidingWindowManager.findLongestCacheHit_spec ran

end DreamAifd.KvCache
