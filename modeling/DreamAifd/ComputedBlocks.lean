import DreamAifd.ManagerRuns

/-! What the manager finds in the cache for a request, before it allocates anything for it. -/
namespace DreamAifd.KvCache

open BlockPool SingleTypeKvCacheManager

variable {η : Type}

namespace KvCacheCoordinator

/-- The blocks of a hit end where it does, unless there are three specifications, two of them of full attention. -/
def ExactHits (coordinator : KvCacheCoordinator η) : Prop :=
  coordinator.kind = .hybrid →
    (∀ idx specGroup, (verifyAndSplitKvCacheGroups coordinator.groups)[idx]? = some specGroup →
      specGroup.isFull → idx = 0) ∨ SimpleHybrid (verifyAndSplitKvCacheGroups coordinator.groups)

/-- A hit has a multiple of so many tokens. -/
def alignmentTokens (coordinator : KvCacheCoordinator η) : Nat :=
  match coordinator.kind with
  | .unitary => coordinator.pool.hashBlockSize
  | _ => coordinator.schedulerBlockSize

variable [DecidableEq η]

/-- A hit of all groups: each has its blocks for it, and none is longer where nothing is dropped. -/
structure Finds (coordinator : KvCacheCoordinator η) (blockHashes : List η) (bound : Nat)
    (blocks : List (List BlockRef)) (hitLength : Nat) : Prop where
  length : blocks.length = coordinator.groups.length
  le : hitLength ≤ bound
  aligned : coordinator.alignmentTokens ∣ hitLength
  hits : ∀ (k : Nat) (group : KvCacheGroup), coordinator.groups[k]? = some group →
    GroupHit coordinator.pool (hashesOfSize blockHashes coordinator.pool.hashBlockSize group.spec.blockSize) k group.spec
      hitLength (blocks.getD k [])
  tight : coordinator.ExactHits → ∀ (k : Nat) (group : KvCacheGroup), coordinator.groups[k]? = some group →
    (blocks.getD k []).length * group.spec.blockSize = hitLength
  longest : (∀ group ∈ coordinator.groups, group.isEagleGroup = false ∧ group.spec.LooksBack) →
    ∀ length ≤ bound, coordinator.alignmentTokens ∣ length →
      (∀ (k : Nat) (group : KvCacheGroup), coordinator.groups[k]? = some group →
        Ready coordinator.pool (hashesOfSize blockHashes coordinator.pool.hashBlockSize group.spec.blockSize) k group.spec
          length) → length ≤ hitLength

variable {coordinator : KvCacheCoordinator η} {blockHashes : List η} {bound : Nat}

theorem unitaryHit_spec {group : KvCacheGroup} (one_group : coordinator.groups = [group])
    (unitary : coordinator.kind = .unitary) (size : group.spec.blockSize = coordinator.pool.hashBlockSize)
    (positive : 0 < group.spec.blockSize) (enough : bound / group.spec.blockSize ≤ blockHashes.length) :
    ∃ blocks hitLength, coordinator.unitaryHit group blockHashes bound = .ok (blocks, hitLength) ∧
      coordinator.Finds blockHashes bound blocks hitLength := by
  set specGroup : SpecGroup := ⟨group.spec, [0], group.isEagleGroup⟩ with specGroup_eq
  have hashes : hashesOfSize blockHashes coordinator.pool.hashBlockSize group.spec.blockSize = blockHashes := if_pos size
  have align : coordinator.alignmentTokens = group.spec.blockSize := by rw [alignmentTokens, unitary, size]
  have only : ∀ (k : Nat) (other : KvCacheGroup), coordinator.groups[k]? = some other → k = 0 ∧ other = group := by
    intro k other here
    rw [one_group] at here
    cases k with
    | zero => exact ⟨rfl, (Option.some.inj here).symm⟩
    | succ k => exact nomatch here
  obtain ⟨rows, looked⟩ := SpecGroup.exists_findLongestCacheHit coordinator.pool specGroup enough
    group.isEagleGroup group.spec.blockSize
  obtain ⟨found, _, short, longest⟩ := SpecGroup.findLongestCacheHit_spec looked
  have rows_found : RowsFound coordinator.pool blockHashes coordinator.pool.hashBlockSize specGroup rows := by
    rw [RowsFound, cachedIn, specGroup_eq, hashes]
    exact found
  have count : rows.length * group.spec.blockSize / group.spec.blockSize = rows.length := Nat.mul_div_cancel _ positive
  have full := rows_found.full (show specGroup.groupIds[0]? = some 0 from rfl)
  refine ⟨[column rows 0], rows.length * group.spec.blockSize, bind_eq_ok.mpr ⟨rows, looked, rfl⟩,
    by rw [one_group]; rfl, ?_, ?_, fun k other here => ?_, fun _ k other here => ?_, fun plain length small multiple ready => ?_⟩
  · have fits : rows.length ≤ bound / group.spec.blockSize := le_trans (Nat.le_add_right ..) short
    exact (Nat.le_div_iff_mul_le positive).mp fits
  · rw [align]
    exact Nat.dvd_mul_left ..
  · obtain ⟨rfl, rfl⟩ := only k other here
    exact groupHit_column rows_found count.le (fun _ => count.symm) rfl
  · obtain ⟨rfl, rfl⟩ := only k other here
    exact congrArg (· * other.spec.blockSize) (length_column full)
  · rw [align] at multiple
    have whole := Nat.div_mul_cancel multiple
    obtain ⟨not_eagle, looksBack⟩ := plain group (one_group ▸ List.mem_cons_self)
    rw [not_eagle] at longest
    have hit : HitOf coordinator.pool blockHashes coordinator.pool.hashBlockSize specGroup length :=
      hitOf_of_ready (List.cons_ne_nil 0 []) fun groupId member => by
      obtain rfl := List.mem_singleton.mp member
      exact ready 0 group (by rw [one_group]; rfl)
    rw [HitOf, cachedIn, specGroup_eq, hashes] at hit
    have fits := longest rfl looksBack (length / group.spec.blockSize) (Nat.div_le_div_right small)
      (by rw [Aligned, whole]; exact multiple) hit
    rw [← whole]
    exact Nat.mul_le_mul_right _ fits

theorem hybridHit_spec (hybrid : coordinator.kind = .hybrid)
    (several : 1 < (verifyAndSplitKvCacheGroups coordinator.groups).length)
    (sizes : ∀ group ∈ coordinator.groups, 0 < group.spec.blockSize ∧ group.spec.blockSize ∣ coordinator.schedulerBlockSize)
    (enough : ∀ group ∈ coordinator.groups, bound / group.spec.blockSize ≤
      (hashesOfSize blockHashes coordinator.pool.hashBlockSize group.spec.blockSize).length) :
    ∃ blocks hitLength, HybridKvCacheCoordinator.findLongestCacheHit coordinator.pool blockHashes
        coordinator.pool.hashBlockSize coordinator.schedulerBlockSize (verifyAndSplitKvCacheGroups coordinator.groups)
        coordinator.groups.length bound = .ok (blocks, hitLength) ∧
      coordinator.Finds blockHashes bound blocks hitLength := by
  have split := verifyAndSplitKvCacheGroups_spec coordinator.groups
  set specGroups := verifyAndSplitKvCacheGroups coordinator.groups with specGroups_eq
  have align : coordinator.alignmentTokens = coordinator.schedulerBlockSize := by rw [alignmentTokens, hybrid]
  have of_spec : ∀ specGroup ∈ specGroups, ∃ group ∈ coordinator.groups, group.spec = specGroup.spec := by
    intro specGroup member
    obtain ⟨groupId, inside⟩ := List.exists_mem_of_ne_nil _ (split.nonempty specGroup member)
    obtain ⟨group, here, spec⟩ := split.member specGroup member groupId inside
    exact ⟨group, List.mem_of_getElem? here, spec⟩
  have spec_sizes : ∀ specGroup ∈ specGroups,
      0 < specGroup.spec.blockSize ∧ specGroup.spec.blockSize ∣ coordinator.schedulerBlockSize := by
    intro specGroup member
    obtain ⟨group, inside, spec⟩ := of_spec specGroup member
    rw [← spec]
    exact sizes group inside
  have hashed : ∀ specGroup ∈ specGroups,
      EnoughHashes blockHashes coordinator.pool.hashBlockSize bound specGroup := by
    intro specGroup member
    obtain ⟨group, inside, spec⟩ := of_spec specGroup member
    rw [EnoughHashes, ← spec]
    exact enough group inside
  obtain ⟨hitLength, state, ran, agreed⟩ : ∃ hitLength state, hybridLoop coordinator.pool blockHashes
      coordinator.pool.hashBlockSize coordinator.schedulerBlockSize bound specGroups (bound + 1) bound
      ⟨bound, 0, fun _ => none, []⟩ = .ok (hitLength, state) ∧ Agreed coordinator.pool blockHashes
        coordinator.pool.hashBlockSize coordinator.schedulerBlockSize specGroups bound hitLength state :=
    hybridLoop_spec (List.ne_nil_of_length_pos (by omega)) spec_sizes hashed (Nat.lt_succ_self bound) le_rfl
      (fun idx group here rows kept => nomatch kept) fun _ _ => rfl
  have column_at : ∀ (k : Nat) (group : KvCacheGroup), coordinator.groups[k]? = some group →
      ((List.range coordinator.groups.length).map (blocksByGroup specGroups hitLength state)).getD k [] =
        blocksByGroup specGroups hitLength state k := by
    intro k group here
    rw [List.getD_eq_getElem?_getD, List.getElem?_map, List.getElem?_range (List.getElem?_eq_some_iff.mp here).1]
    rfl
  refine ⟨_, hitLength, bind_eq_ok.mpr ⟨_, ran, rfl⟩, by simp, agreed.le, align ▸ agreed.aligned, fun k group here => ?_,
    fun precise k group here => ?_, fun plain length small multiple ready => ?_⟩
  · rw [column_at k group here]
    exact (agreed.groupHit split spec_sizes here).1
  · rw [column_at k group here, (agreed.groupHit split spec_sizes here).2 (precise hybrid)]
    exact Nat.div_mul_cancel ((sizes group (List.mem_of_getElem? here)).2.trans agreed.aligned)
  · refine agreed.longest (fun specGroup member => ?_) length small (align ▸ multiple) fun specGroup member => ?_
    · obtain ⟨group, inside, spec⟩ := of_spec specGroup member
      refine ⟨?_, spec ▸ (plain group inside).2⟩
      by_contra eagle
      obtain ⟨other, other_mem, is_eagle⟩ := split.eagle specGroup member (by simpa using eagle)
      rw [(plain other other_mem).1] at is_eagle
      exact Bool.noConfusion is_eagle
    · refine hitOf_of_ready (split.nonempty specGroup member) fun groupId inside => ?_
      obtain ⟨group, here, spec⟩ := split.member specGroup member groupId inside
      rw [← spec]
      exact ready groupId group here

end KvCacheCoordinator

variable [DecidableEq η] {evicts : Bool} {free : List BlockRef}

omit [DecidableEq η] in
theorem KvCacheCoordinator.Formed.spec {coordinator : KvCacheCoordinator η} (formed : coordinator.Formed) {k : Nat}
    {one : SingleTypeKvCacheManager} (here : coordinator.managers[k]? = some one) :
    ∃ group, coordinator.groups[k]? = some group ∧ group.spec = one.spec := by
  have same : (coordinator.managers.map (·.spec))[k]? = (coordinator.groups.map (·.spec))[k]? := by rw [formed.specs]
  rw [List.getElem?_map, List.getElem?_map, here] at same
  obtain ⟨group, there, spec⟩ := Option.map_eq_some_iff.mp same.symm
  exact ⟨group, there, spec⟩

omit [DecidableEq η] in
theorem KvCacheCoordinator.Formed.manager {coordinator : KvCacheCoordinator η} (formed : coordinator.Formed)
    {group : KvCacheGroup} (member : group ∈ coordinator.groups) :
    ∃ one ∈ coordinator.managers, one.spec = group.spec := by
  have inside : group.spec ∈ coordinator.groups.map (·.spec) := List.mem_map_of_mem member
  rw [← formed.specs] at inside
  obtain ⟨one, there, spec⟩ := List.mem_map.mp inside
  exact ⟨one, there, spec⟩

/-- What is found by a hash is in the cache. -/
theorem keysOf_of_blockAt {pool : BlockPool η} (indexed : Indexed pool) {blockHashes : List η} {groupId i : Nat}
    {block : BlockRef} (found : blockAt pool blockHashes groupId i = some block) :
    ∃ blockHash, blockHashes[i]? = some blockHash ∧ (blockHash, groupId) ∈ pool.keysOf block := by
  obtain ⟨blockHash, here, found⟩ := Option.bind_eq_some_iff.mp found
  rw [BlockHashToBlockMap.getOneBlock_eq] at found
  exact ⟨blockHash, here, (indexed.under_iff _ _).mp (List.mem_of_head? found)⟩

theorem GroupHit.fromCache {pool : BlockPool η} (indexed : Indexed pool) {blockHashes : List η} {groupId hitLength : Nat}
    {spec : KvCacheSpec} {blocks : List BlockRef} (hit : GroupHit pool blockHashes groupId spec hitLength blocks) :
    FromCache pool blocks := by
  intro block member
  obtain ⟨i, here⟩ := List.getElem?_of_mem member
  refine (hit.sound i block here).imp_right fun found => ?_
  obtain ⟨blockHash, _, keyed⟩ := keysOf_of_blockAt indexed found
  exact List.ne_nil_of_mem keyed

namespace KvCacheManager

variable {manager : KvCacheManager η} {request : Request η}

theorem findLongestCacheHit_spec (consistent : manager.Consistent evicts free) (caching : manager.enableCaching = true)
    (hashed : request.blockHashes.length = request.numTokens / manager.coordinator.pool.hashBlockSize) :
    ∃ blocks hitLength, manager.coordinator.findLongestCacheHit request.blockHashes (request.numTokens - 1) =
        .ok (blocks, hitLength) ∧
      manager.coordinator.Finds request.blockHashes (request.numTokens - 1) blocks hitLength := by
  have on := consistent.caching.symm.trans caching
  have formed := consistent.formed
  have of_group : ∀ group ∈ manager.coordinator.groups, 0 < group.spec.blockSize ∧
      group.spec.blockSize ∣ manager.coordinator.schedulerBlockSize ∧ (request.numTokens - 1) / group.spec.blockSize ≤
        (hashesOfSize request.blockHashes manager.coordinator.pool.hashBlockSize group.spec.blockSize).length := by
    intro group member
    obtain ⟨one, inside, spec⟩ := formed.manager member
    have wired := consistent.wired one inside
    rw [← spec]
    refine ⟨wired.positive, Nat.dvd_of_mod_eq_zero wired.aligned, ?_⟩
    rw [length_hashesOfSize hashed (wired.hashed on)]
    exact Nat.div_le_div_right (Nat.sub_le ..)
  have suits := formed.suits
  unfold KvCacheCoordinator.findLongestCacheHit
  cases kind : manager.coordinator.kind with
  | noPrefixCache =>
    rw [kind] at suits
    exact absurd (on.symm.trans suits) Bool.noConfusion
  | unitary =>
    rw [kind] at suits
    obtain ⟨group, one_group, size⟩ := suits
    obtain ⟨positive, _, enough⟩ := of_group group (one_group ▸ List.mem_cons_self)
    rw [hashesOfSize, if_pos size] at enough
    rw [one_group]
    exact KvCacheCoordinator.unitaryHit_spec one_group kind size positive enough
  | hybrid =>
    rw [kind] at suits
    exact KvCacheCoordinator.hybridHit_spec kind suits.2 (fun group member => ⟨(of_group group member).1,
      (of_group group member).2.1⟩) fun group member => (of_group group member).2.2

/-- What a request is told: blocks that can be held, of a hit for all groups where the cache is read. -/
structure Computed (manager : KvCacheManager η) (request : Request η) (blocks : List (List BlockRef))
    (hitLength : Nat) : Prop where
  fromCache : ∀ k, FromCache manager.coordinator.pool (blocks.getD k [])
  reads : manager.enableCaching = true → request.skipReadingPrefixCache = false →
    manager.coordinator.Finds request.blockHashes (request.numTokens - 1) blocks hitLength
  blind : manager.enableCaching = false ∨ request.skipReadingPrefixCache = true →
    hitLength = 0 ∧ ∀ group ∈ blocks, group = []

/-- What is found for a group of full attention, block by block from the start, may be announced as cached. -/
theorem Computed.announced {blocks : List (List BlockRef)} {hitLength : Nat}
    (computed : manager.Computed request blocks hitLength) (caching : manager.enableCaching = true)
    (reading : request.skipReadingPrefixCache = false) (precise : manager.coordinator.ExactHits) {k : Nat}
    {group : KvCacheGroup} (here : manager.coordinator.groups[k]? = some group)
    (positive : 0 < group.spec.blockSize) (full : group.spec.attention = .fullAttention) :
    ∀ blockHash ∈ (hashesOfSize request.blockHashes manager.coordinator.pool.hashBlockSize group.spec.blockSize).take
      (blocks.getD k []).length, manager.coordinator.pool.under (blockHash, k) ≠ [] := by
  have finds := computed.reads caching reading
  have size : (blocks.getD k []).length = hitLength / group.spec.blockSize := by
    rw [← finds.tight precise k group here, Nat.mul_div_cancel _ positive]
  intro blockHash member
  obtain ⟨i, inside⟩ := List.getElem?_of_mem member
  have short : i < hitLength / group.spec.blockSize := by
    have long := (List.getElem?_eq_some_iff.mp inside).1
    rw [List.length_take, size] at long
    exact lt_of_lt_of_le long (Nat.min_le_left ..)
  rw [List.getElem?_take_of_lt (size ▸ short)] at inside
  obtain ⟨block, _, found⟩ := (finds.hits k group here).backed i short (by rw [full]; trivial)
  obtain ⟨same, there, found⟩ := Option.bind_eq_some_iff.mp found
  obtain rfl := Option.some.inj (inside.symm.trans there)
  rw [BlockHashToBlockMap.getOneBlock_eq] at found
  exact List.ne_nil_of_mem (List.mem_of_head? found)

theorem getD_nil {blocks : List (List BlockRef)} (nothing : ∀ group ∈ blocks, group = []) (k : Nat) :
    blocks.getD k [] = [] := by
  rw [List.getD_eq_getElem?_getD]
  cases here : blocks[k]? with
  | none => rfl
  | some group => exact nothing group (List.mem_of_getElem? here)

theorem getComputedBlocks_spec (consistent : manager.Consistent evicts free)
    (hashed : manager.enableCaching = true →
      request.blockHashes.length = request.numTokens / manager.coordinator.pool.hashBlockSize) :
    ∃ blocks hitLength, manager.getComputedBlocks request = .ok (blocks, hitLength) ∧
      manager.Computed request blocks hitLength := by
  unfold getComputedBlocks
  split
  next blind =>
    have nothing : ∀ group ∈ manager.emptyKvCacheBlocks, group = ([] : List BlockRef) := by
      intro group member
      obtain ⟨_, _, rfl⟩ := List.mem_map.mp member
      rfl
    refine ⟨_, 0, rfl, fun k block member => ?_, fun caching reading => ?_, fun _ => ⟨rfl, nothing⟩⟩
    · rw [getD_nil nothing] at member
      exact absurd member List.not_mem_nil
    · simp [caching, reading] at blind
  next reads =>
    obtain ⟨caching, reading⟩ := not_or.mp reads
    have on := not_not.mp caching
    obtain ⟨blocks, hitLength, ran, finds⟩ := findLongestCacheHit_spec consistent on (hashed on)
    refine ⟨blocks, hitLength, ran, fun k => ?_, fun _ _ => finds, fun blind => ?_⟩
    · by_cases inside : k < manager.coordinator.groups.length
      · exact (finds.hits k _ (List.getElem?_eq_getElem inside)).fromCache consistent.ledger.held.indexed
      · have short := finds.length
        rw [List.getD_eq_getElem?_getD, List.getElem?_eq_none (by omega)]
        exact fun block member => absurd member List.not_mem_nil
    · simp [on, reading] at blind

/-- In no run does the lookup fail. Where the cache is read it finds a hit for all groups, the longest one where no
block is dropped for a draft model, and all of it can be held. -/
theorem reachable_getComputedBlocks (reachable : Reachable evicts manager)
    (hashed : manager.enableCaching = true →
      request.blockHashes.length = request.numTokens / manager.coordinator.pool.hashBlockSize) :
    ∃ blocks hitLength, manager.getComputedBlocks request = .ok (blocks, hitLength) ∧
      manager.Computed request blocks hitLength := by
  obtain ⟨free, consistent⟩ := reachable_consistent reachable
  exact getComputedBlocks_spec consistent hashed

/-- The second group needs only the block that its window looks back to. -/
theorem reachable_getComputedBlocks_sample : ∃ manager manager' : KvCacheManager Nat, sampleManager = .ok manager ∧
    manager.allocateSlots sampleRequest (sampleSlots 5) = .ok (some sampleBlocks, manager') ∧
    manager'.Computed { sampleRequest with requestId := "other" } [[.pooled 1, .pooled 2], [.pooled 0, .pooled 5]] 4 := by
  obtain ⟨manager, manager', made, reachable, asked, ran⟩ := sampleManager_spec
  have sizes : manager'.coordinator.pool.hashBlockSize = 2 ∧
      manager'.getComputedBlocks { sampleRequest with requestId := "other" } = .ok
        ([[.pooled 1, .pooled 2], [.pooled 0, .pooled 5]], 4) := by
    obtain rfl := Except.ok.inj made
    obtain ⟨_, rfl⟩ := Prod.mk.inj (Except.ok.inj ran)
    exact ⟨rfl, rfl⟩
  have hashed : ({ sampleRequest with requestId := "other" } : Request Nat).blockHashes.length =
      ({ sampleRequest with requestId := "other" } : Request Nat).numTokens / manager'.coordinator.pool.hashBlockSize := by
    rw [sizes.1]
    rfl
  obtain ⟨blocks, hitLength, got, computed⟩ := reachable_getComputedBlocks
    (reachable.allocateSlots asked ran) fun _ => hashed
  obtain ⟨rfl, rfl⟩ := Prod.mk.inj (Except.ok.inj (got.symm.trans sizes.2))
  exact ⟨manager, manager', made, ran, computed⟩

/-- A request without blocks may ask for slots with what it was told. -/
theorem Computed.asked (consistent : manager.Consistent evicts free) {slots : SlotRequest}
    (computed : manager.Computed request slots.newComputedBlocks slots.numNewComputedTokens)
    (precise : manager.coordinator.ExactHits) (fresh : ∀ one ∈ manager.coordinator.managers,
      one.blocksOf request.requestId = [] ∧ one.numCachedBlock.get? request.requestId = none)
    (start : request.numComputedTokens = 0) (tokens : 0 < request.numTokens ∧ request.numTokens ≤ manager.maxModelLen)
    (hashed : manager.enableCaching = true →
      request.blockHashes.length = request.numTokens / manager.coordinator.pool.hashBlockSize)
    (some_tokens : slots.numNewTokens ≠ 0) (local_only : slots.numExternalComputedTokens = 0) :
    Asked manager request slots := by
  have local_eq : numLocalComputedTokens request slots = slots.numNewComputedTokens := by
    rw [numLocalComputedTokens, start, Nat.zero_add]
  have reads_or : (manager.enableCaching = true ∧ request.skipReadingPrefixCache = false) ∨
      (slots.numNewComputedTokens = 0 ∧ ∀ group ∈ slots.newComputedBlocks, group = []) := by
    cases caching : manager.enableCaching with
    | false => exact .inr (computed.blind (.inl caching))
    | true =>
      cases skips : request.skipReadingPrefixCache with
      | true => exact .inr (computed.blind (.inr skips))
      | false => exact .inl ⟨rfl, rfl⟩
  have within : slots.numNewComputedTokens ≤ manager.maxModelLen := by
    rcases reads_or with ⟨caching, reading⟩ | ⟨zero, _⟩
    · have bound := (computed.reads caching reading).le
      omega
    · omega
  refine ⟨fun nothing => some_tokens nothing.1, by rw [local_eq, local_only]; exact within, tokens.2, hashed, ?_⟩
  by_cases found : slots.newComputedBlocks.any (· ≠ []) = true
  · refine .inl ⟨.inl found, fresh, fun k one here => ⟨computed.fromCache k, ?_⟩⟩
    rcases reads_or with ⟨caching, reading⟩ | ⟨_, nothing⟩
    · have wired := consistent.wired one (List.mem_of_getElem? here)
      obtain ⟨group, there, spec⟩ := consistent.formed.spec here
      have size := (computed.reads caching reading).tight precise k group there
      rw [spec] at size
      refine ⟨.inl (wired.caching.trans (consistent.caching.symm.trans caching)), ?_⟩
      rw [local_eq, local_only]
      exact size.le
    · rw [getD_nil nothing]
      exact ⟨.inr rfl, by simp⟩
  · have nothing : ∀ group ∈ slots.newComputedBlocks, group = [] := by
      intro group member
      by_contra some_block
      exact found (List.any_eq_true.mpr ⟨group, member, by simpa using some_block⟩)
    refine .inr ⟨nothing, ?_, local_only, fun one _ => by rw [start]; exact Nat.zero_le _⟩
    rcases reads_or with ⟨caching, reading⟩ | ⟨zero, _⟩
    · obtain ⟨group, here⟩ : ∃ group, manager.coordinator.groups[0]? = some group := by
        have suits := consistent.formed.suits
        cases kind : manager.coordinator.kind with
        | noPrefixCache =>
          rw [kind] at suits
          exact absurd ((consistent.caching.symm.trans caching).symm.trans suits) Bool.noConfusion
        | unitary =>
          rw [kind] at suits
          obtain ⟨group, one_group, _⟩ := suits
          exact ⟨group, by rw [one_group]; rfl⟩
        | hybrid =>
          rw [kind] at suits
          refine ⟨_, List.getElem?_eq_getElem (List.length_pos_iff.mpr fun empty => ?_)⟩
          have several := suits.2
          rw [empty] at several
          exact absurd several (by decide)
      have size := (computed.reads caching reading).tight precise 0 group here
      rw [getD_nil nothing, List.length_nil, Nat.zero_mul] at size
      exact size.symm
    · exact zero

end KvCacheManager

end DreamAifd.KvCache
