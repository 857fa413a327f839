import DreamAifd.CacheRoundTrip

/-! Steps of an idle server between the steps that write hidden states. A dummy run has no rows to write,
but it writes what stands in front in the proposer's buffers again. -/
namespace DreamAifd.DummyRuns

variable {ι ρ : Type*} {C : Nat}

def cacheEntry (blockSize : Nat) (slot : Int) : Nat × Nat := slotEntry blockSize (max slot 0).toNat

def Outside (entry : Nat × Nat) : Prop := entry.1 ≠ 0

instance (entry : Nat × Nat) : Decidable (Outside entry) := inferInstanceAs (Decidable (entry.1 ≠ 0))

/-- The slot mapping of the cache-only layer: the proposer's own, if the mappings given have one for it.
The one given is not read. -/
def dummySlotMapping (buffer : List Int) (numInputTokens : Nat) (slotMapping : Option (List Int)) :
    Option (List Int) :=
  slotMapping.map fun _ => buffer.take numInputTokens

structure DummyRun (blockSize numInputTokens : Nat) (slotMapping : Option (List Int)) (s s' : CacheState C ρ) :
    Prop where
  rows : numInputTokens ≤ s.hiddenStates.length
  view : numInputTokens ≤ s.slotMappingBuffer.length
  hiddenStates : s'.hiddenStates = s.hiddenStates
  slotMappingBuffer : s'.slotMappingBuffer = s.slotMappingBuffer
  kvCache : match dummySlotMapping s.slotMappingBuffer numInputTokens slotMapping with
    | none => s'.kvCache = s.kvCache
    | some mapping => BasicCache blockSize (s.hiddenStates.take numInputTokens) mapping s.kvCache s'.kvCache

def dummyRun (blockSize : Nat) (s : CacheState C ρ) (numInputTokens : Nat) (slotMapping : Option (List Int)) :
    CacheState C ρ :=
  match dummySlotMapping s.slotMappingBuffer numInputTokens slotMapping with
  | none => s
  | some mapping =>
    let slots := mapping.map fun slot => (max slot 0).toNat
    { s with kvCache := basicCache blockSize s.kvCache slots (s.hiddenStates.take numInputTokens) }

/-- What a server does. The block tables of two steps need not agree on any request. -/
inductive ServerStep (ι : Type*) (blockSize C : Nat) (ρ : Type*) where
  | propose (table : BlockTable ι) (input : ProposeInput table blockSize C ρ)
  | dummyRun (numInputTokens : Nat) (slotMapping : Option (List Int))

/-- Steps one after the other; `allowed` is asked before each dummy run that writes. -/
inductive ServerRun {blockSize : Nat} (allowed : List (ServerStep ι blockSize C ρ) → Nat → CacheState C ρ → Prop)
    (initial : CacheState C ρ) : List (ServerStep ι blockSize C ρ) → CacheState C ρ → Prop where
  | nil : ServerRun allowed initial [] initial
  | propose {history : List (ServerStep ι blockSize C ρ)} {t u : CacheState C ρ} {table : BlockTable ι}
      {input : ProposeInput table blockSize C ρ} (run : ServerRun allowed initial history t)
      (step : Proposes input t u) : ServerRun allowed initial (history ++ [.propose table input]) u
  | dummyRun {history : List (ServerStep ι blockSize C ρ)} {t u : CacheState C ρ} {numInputTokens : Nat}
      {slotMapping : Option (List Int)} (run : ServerRun allowed initial history t)
      (meets : slotMapping.isSome → allowed history numInputTokens t)
      (step : DummyRun blockSize numInputTokens slotMapping t u) :
      ServerRun allowed initial (history ++ [.dummyRun numInputTokens slotMapping]) u

section History

variable {blockSize : Nat}

def entryRow {table : BlockTable ι} (input : ProposeInput table blockSize C ρ) (entry : Nat × Nat) :
    Option (Fin C → ρ) :=
  ((input.tokens.map fun token => slotEntry blockSize (table.slot blockSize token)).zip input.stacked).lookup entry

/-- The row of an entry after a step that has written it, or not. -/
def rowAfter (entry : Nat × Nat) (held : Fin C → ρ) : ServerStep ι blockSize C ρ → Fin C → ρ
  | .propose _ input => (entryRow input entry).getD held
  | .dummyRun _ _ => held

/-- The row of an entry as the proposals of a history have left it. -/
def proposedRow (initial : KvCache (Fin C → ρ)) (history : List (ServerStep ι blockSize C ρ)) (entry : Nat × Nat) :
    Fin C → ρ :=
  history.foldl (rowAfter entry) (initial entry)

theorem proposedRow_concat (initial : KvCache (Fin C → ρ)) (history : List (ServerStep ι blockSize C ρ))
    (step : ServerStep ι blockSize C ρ) (entry : Nat × Nat) :
    proposedRow initial (history ++ [step]) entry = rowAfter entry (proposedRow initial history entry) step := by
  rw [proposedRow, List.foldl_append, List.foldl_cons, List.foldl_nil, proposedRow]

/-- The buffers' first entries, where they lie outside block 0, repeat what was proposed last for them. -/
def Repeats (initial : KvCache (Fin C → ρ)) (history : List (ServerStep ι blockSize C ρ)) (numInputTokens : Nat)
    (t : CacheState C ρ) : Prop :=
  ∀ i < numInputTokens, ∀ slot ∈ t.slotMappingBuffer[i]?, ∀ row ∈ t.hiddenStates[i]?,
    Outside (cacheEntry blockSize slot) → row = proposedRow initial history (cacheEntry blockSize slot)

instance [DecidableEq ρ] (initial : KvCache (Fin C → ρ)) (history : List (ServerStep ι blockSize C ρ))
    (numInputTokens : Nat) (t : CacheState C ρ) : Decidable (Repeats initial history numInputTokens t) :=
  inferInstanceAs (Decidable (∀ i < numInputTokens, ∀ slot ∈ t.slotMappingBuffer[i]?, ∀ row ∈ t.hiddenStates[i]?,
    Outside (cacheEntry blockSize slot) → row = proposedRow initial history (cacheEntry blockSize slot)))

end History

section Propose

variable {table : BlockTable ι} {blockSize : Nat} {input : ProposeInput table blockSize C ρ} {s s' : CacheState C ρ}

theorem entries_nodup (input : ProposeInput table blockSize C ρ) :
    (input.tokens.map fun token => slotEntry blockSize (table.slot blockSize token)).Nodup :=
  (List.nodup_map_iff_inj_on input.distinct).mpr fun token member token' member' same =>
    BlockTable.slotEntry_inj (input.allocated token member) (input.allocated token' member') same

/-- Outside the null block a step writes the rows of its tokens and nothing else. -/
theorem kvCache_propose (step : Proposes input s s') {entry : Nat × Nat} (outside : Outside entry) :
    s'.kvCache entry = (entryRow input entry).getD (s.kvCache entry) := by
  have notNull : entry ∉ List.replicate (input.numInputTokens - input.tokens.length) (slotEntry blockSize 0) := by
    intro member
    rw [(List.mem_replicate.mp member).2] at outside
    exact outside (Nat.zero_div blockSize)
  by_cases member : entry ∈ input.tokens.map fun token => slotEntry blockSize (table.slot blockSize token)
  · obtain ⟨j, here, stored⟩ := step.scatters.written entry (List.mem_append_left _ member)
    rcases Nat.lt_or_ge j input.tokens.length with inside | behind
    · rw [List.getElem?_append_left (by simpa using inside)] at here
      rw [List.getElem?_append_left (by rwa [input.length_stacked])] at stored
      rw [entryRow, ProposeInput.lookup_zip (entries_nodup input) here stored, Option.getD_some]
    · rw [List.getElem?_append_right (by simpa using behind)] at here
      exact absurd (List.mem_of_getElem? here) notNull
  · have absent : entryRow input entry = none := by
      rw [entryRow, List.lookup_eq_none_iff]
      rintro ⟨other, stored⟩ paired
      rw [bne_iff_ne]
      rintro rfl
      exact member (List.of_mem_zip paired).1
    rw [absent, Option.getD_none]
    exact step.scatters.other entry fun listed => (List.mem_append.mp listed).elim member notNull

end Propose

section Outcomes

variable {blockSize numInputTokens : Nat} {slotMapping : Option (List Int)} {s s' : CacheState C ρ}

/-- Any row of an index may be the one that stays. -/
theorem scatters_update {entries : List (Nat × Nat)} {rows : List ρ} {kvCache kvCache' : KvCache ρ}
    (scatters : Scatters entries rows kvCache kvCache') {i : Nat} {entry : Nat × Nat} {row : ρ}
    (here : entries[i]? = some entry) (stored : rows[i]? = some row) :
    Scatters entries rows kvCache (Function.update kvCache' entry row) where
  sized := scatters.sized
  other := by
    intro other absent
    have different : other ≠ entry := fun same => absent (same ▸ List.mem_of_getElem? here)
    rw [Function.update_of_ne different, scatters.other other absent]
  written := by
    intro other member
    by_cases same : other = entry
    · subst same
      rw [Function.update_self]
      exact ⟨i, here, stored⟩
    · rw [Function.update_of_ne same]
      exact scatters.written other member

theorem dummyRun_scatters (rows : numInputTokens ≤ s.hiddenStates.length)
    (view : numInputTokens ≤ s.slotMappingBuffer.length) :
    BasicCache blockSize (s.hiddenStates.take numInputTokens) (s.slotMappingBuffer.take numInputTokens) s.kvCache
      (basicCache blockSize s.kvCache
        ((s.slotMappingBuffer.take numInputTokens).map fun slot => (max slot 0).toNat)
        (s.hiddenStates.take numInputTokens)) := by
  have sized : (s.hiddenStates.take numInputTokens).length =
      ((s.slotMappingBuffer.take numInputTokens).map fun slot => (max slot 0).toNat).length := by
    rw [List.length_map, List.length_take_of_le rows, List.length_take_of_le view]
  have written := scatters_basicCache blockSize s.kvCache sized
  rw [List.map_map] at written
  exact written

theorem dummyRun_run (rows : numInputTokens ≤ s.hiddenStates.length)
    (view : numInputTokens ≤ s.slotMappingBuffer.length) :
    DummyRun blockSize numInputTokens slotMapping s (dummyRun blockSize s numInputTokens slotMapping) := by
  cases slotMapping with
  | none => exact ⟨rows, view, rfl, rfl, rfl⟩
  | some given => exact ⟨rows, view, rfl, rfl, dummyRun_scatters rows view⟩

/-- A row that a dummy run leaves in an entry was there before, or stands in front in the buffers. -/
theorem kvCache_dummyRun (step : DummyRun blockSize numInputTokens slotMapping s s') (entry : Nat × Nat) :
    s'.kvCache entry = s.kvCache entry ∨ slotMapping.isSome ∧ ∃ i < numInputTokens, ∃ slot,
      s.slotMappingBuffer[i]? = some slot ∧ cacheEntry blockSize slot = entry ∧
        s.hiddenStates[i]? = some (s'.kvCache entry) := by
  have written := step.kvCache
  cases slotMapping with
  | none => exact .inl (congrFun written entry)
  | some given =>
    have scatters : BasicCache blockSize _ _ s.kvCache s'.kvCache := written
    by_cases member : entry ∈ (s.slotMappingBuffer.take numInputTokens).map (cacheEntry blockSize)
    · obtain ⟨i, here, stored⟩ := scatters.written entry member
      rw [List.getElem?_map] at here
      obtain ⟨slot, place, same⟩ := Option.map_eq_some_iff.mp here
      have inside : i < numInputTokens := by
        have bound := (List.getElem?_eq_some_iff.mp place).1
        rw [List.length_take] at bound
        omega
      rw [List.getElem?_take_of_lt inside] at place stored
      exact .inr ⟨rfl, i, inside, slot, place, same, stored⟩
    · exact .inl (scatters.other entry member)

end Outcomes

section Run

variable {blockSize : Nat} {initial t : CacheState C ρ} {history : List (ServerStep ι blockSize C ρ)}

/-- Nothing outside block 0 is changed, whichever rows stay. -/
def Harmless (blockSize numInputTokens : Nat) (slotMapping : Option (List Int)) (t : CacheState C ρ) : Prop :=
  ∀ u, DummyRun blockSize numInputTokens slotMapping t u → ∀ entry, Outside entry → u.kvCache entry = t.kvCache entry

def Proposed (initial : CacheState C ρ) (history : List (ServerStep ι blockSize C ρ)) (t : CacheState C ρ) : Prop :=
  ∀ entry, Outside entry → t.kvCache entry = proposedRow initial.kvCache history entry

theorem harmless_of_repeats (held : Proposed initial history t) {numInputTokens : Nat} {slotMapping : Option (List Int)}
    (repeats : slotMapping.isSome → Repeats initial.kvCache history numInputTokens t) :
    Harmless blockSize numInputTokens slotMapping t := by
  intro u step entry outside
  rcases kvCache_dummyRun step entry with kept | ⟨given, i, inside, slot, place, rfl, stored⟩
  · exact kept
  · rw [repeats given i inside slot place _ stored outside, held _ outside]

theorem repeats_of_harmless (held : Proposed initial history t) {numInputTokens : Nat} {given : List Int}
    (rows : numInputTokens ≤ t.hiddenStates.length) (view : numInputTokens ≤ t.slotMappingBuffer.length)
    (harmless : Harmless blockSize numInputTokens (some given) t) :
    Repeats initial.kvCache history numInputTokens t := by
  intro i inside slot place row stored outside
  have here : ((t.slotMappingBuffer.take numInputTokens).map (cacheEntry blockSize))[i]? =
      some (cacheEntry blockSize slot) := by
    rw [List.getElem?_map, List.getElem?_take_of_lt inside, place, Option.map_some]
  have taken : (t.hiddenStates.take numInputTokens)[i]? = some row := by
    rw [List.getElem?_take_of_lt inside, stored]
  -- the outcome in which this index's row is the one that stays
  let stays := Function.update (dummyRun blockSize t numInputTokens (some given)).kvCache (cacheEntry blockSize slot) row
  have outcome : DummyRun blockSize numInputTokens (some given) t { t with kvCache := stays } :=
    ⟨rows, view, rfl, rfl, scatters_update (dummyRun_scatters rows view) here taken⟩
  have unchanged : stays (cacheEntry blockSize slot) = t.kvCache (cacheEntry blockSize slot) :=
    harmless _ outcome _ outside
  have placed : stays (cacheEntry blockSize slot) = row := by simp [stays]
  rw [← held _ outside, ← unchanged, placed]

/-- In a run whose dummy runs repeat what was proposed, the cache holds what was proposed throughout, and a
next dummy run is harmless exactly if it repeats that as well. -/
theorem dummyRuns_harmless_iff (run : ServerRun (Repeats initial.kvCache) initial history t) :
    Proposed initial history t ∧ ∀ (numInputTokens : Nat) (slotMapping : List Int),
      numInputTokens ≤ t.hiddenStates.length → numInputTokens ≤ t.slotMappingBuffer.length →
        (Harmless blockSize numInputTokens (some slotMapping) t ↔ Repeats initial.kvCache history numInputTokens t) := by
  have held : Proposed initial history t := by
    induction run with
    | nil => exact fun _ _ => rfl
    | propose run step ih =>
      intro entry outside
      rw [kvCache_propose step outside, ih entry outside, proposedRow_concat, rowAfter]
    | dummyRun run meets step ih =>
      intro entry outside
      rw [harmless_of_repeats ih meets _ step entry outside, ih entry outside, proposedRow_concat, rowAfter]
  exact ⟨held, fun numInputTokens slotMapping rows view =>
    ⟨repeats_of_harmless held rows view, fun repeats => harmless_of_repeats held fun _ => repeats⟩⟩

end Run

section Reuse

/-- A request that has two blocks, and after it one that is given the second of them. -/
def firstTable : BlockTable Bool where
  blockIds r := if r then [1, 2] else []
  distinct := by decide
  disjoint := by
    intro r r' apart
    cases r <;> cases r' <;> simp at apart ⊢
  notNull := by decide

def secondTable : BlockTable Bool where
  blockIds r := if r then [] else [2]
  distinct := by decide
  disjoint := by
    intro r r' apart
    cases r <;> cases r' <;> simp at apart ⊢
  notNull := by decide

def prefill : ProposeInput firstTable 2 1 Nat where
  tokens := [(true, 0), (true, 1), (true, 2)]
  distinct := by decide
  allocated := by simp [BlockTable.Allocated, firstTable]
  target := fun _ => [10, 11, 12]
  sized := fun _ => rfl
  padding := 0
  numInputTokens := 3
  enough := by decide

def decodeStep (position : Fin 2) : ProposeInput secondTable 2 1 Nat where
  tokens := [(false, position)]
  distinct := by simp
  allocated := by
    have bound := position.isLt
    simp [BlockTable.Allocated, secondTable]
    omega
  target := fun _ => [20 + position]
  sized := fun _ => rfl
  padding := 0
  numInputTokens := 1
  enough := by simp

def startState : CacheState 1 Nat where
  slotMappingBuffer := List.replicate 4 0
  hiddenStates := List.replicate 4 fun _ => 0
  kvCache := fun _ _ => 0

def noSlots : List Int := List.replicate 4 paddingSlotId

theorem dummyRuns_harmless_prefill : Proposed startState [.propose firstTable prefill, .dummyRun 4 (some noSlots)]
      (dummyRun 2 (startState.propose prefill) 4 (some noSlots)) ∧ ∀ (numInputTokens : Nat) (slotMapping : List Int),
    numInputTokens ≤ 4 → numInputTokens ≤ 4 →
      (Harmless 2 numInputTokens (some slotMapping) (dummyRun 2 (startState.propose prefill) 4 (some noSlots)) ↔
        Repeats startState.kvCache [.propose firstTable prefill, .dummyRun 4 (some noSlots)] numInputTokens
          (dummyRun 2 (startState.propose prefill) 4 (some noSlots))) :=
  dummyRuns_harmless_iff (((ServerRun.nil.propose (proposes_propose (by decide) (by decide) (by decide))).dummyRun
    (fun _ => by decide) (dummyRun_run (by decide) (by decide))))

/-- The second request's first row is in the slot that the first one's last row was in; after its second
row, a dummy run of three tokens writes that last row there again. -/
theorem dummyRuns_not_harmless :
    let written := ((startState.propose prefill).propose (decodeStep 0)).propose (decodeStep 1)
    ServerRun (fun _ _ _ => True) startState
        [.propose firstTable prefill, .propose secondTable (decodeStep 0), .propose secondTable (decodeStep 1)]
        written ∧
      DummyRun 2 3 (some noSlots) written (dummyRun 2 written 3 (some noSlots)) ∧
      Outside (2, 0) ∧ written.kvCache (2, 0) = (fun _ => 20) ∧
      (dummyRun 2 written 3 (some noSlots)).kvCache (2, 0) = fun _ => 12 := by
  intro written
  refine ⟨?_, dummyRun_run (by decide) (by decide), by decide, by decide, by decide⟩
  exact ((ServerRun.nil.propose (proposes_propose (by decide) (by decide) (by decide))).propose
    (proposes_propose (by decide) (by decide) (by decide))).propose
      (proposes_propose (by decide) (by decide) (by decide))

end Reuse

end DreamAifd.DummyRuns
