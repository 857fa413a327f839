import Mathlib

/-! The draft vocabulary. The most frequent tokens are selected, filled up with small ids that did
not occur; two arrays say which target ids are selected and how far the draft ids are off. -/
namespace DreamAifd.VocabMapping

structure Observed (counts : List (Nat × Nat)) : Prop where
  distinct : (counts.map Prod.fst).Nodup
  positive : ∀ entry ∈ counts, 0 < entry.2

def updateEntry (counts : List (Nat × Nat)) (entry : Nat × Nat) : List (Nat × Nat) :=
  if entry.1 ∈ counts.map Prod.fst then
    counts.map fun old => if old.1 = entry.1 then (old.1, old.2 + entry.2) else old
  else counts ++ [entry]

theorem Observed.updateEntry {counts : List (Nat × Nat)} (observed : Observed counts) {entry : Nat × Nat}
    (counted : 0 < entry.2) : Observed (updateEntry counts entry) := by
  rw [VocabMapping.updateEntry]
  split
  next =>
    constructor
    · have keys : (counts.map fun old => if old.1 = entry.1 then (old.1, old.2 + entry.2) else old).map Prod.fst =
          counts.map Prod.fst := by
        rw [List.map_map]
        apply List.map_congr_left
        intro old _
        rw [Function.comp_apply]
        split <;> rfl
      rw [keys]
      exact observed.distinct
    · intro new member
      obtain ⟨old, earlier, rfl⟩ := List.mem_map.mp member
      have positive := observed.positive old earlier
      split
      · exact Nat.add_pos_left positive _
      · exact positive
  next fresh =>
    constructor
    · rw [List.map_append, List.map_singleton, List.nodup_append]
      refine ⟨observed.distinct, List.nodup_singleton _, fun key held other single same => fresh ?_⟩
      rw [← List.mem_singleton.mp single, ← same]
      exact held
    · intro new member
      rcases List.mem_append.mp member with earlier | last
      · exact observed.positive new earlier
      · rw [List.mem_singleton.mp last]
        exact counted

/-- A token frequency table: the tokens that occurred, with their counts. -/
structure TokenFreq where
  counts : List (Nat × Nat)
  observed : Observed counts

namespace TokenFreq

def tokens (freq : TokenFreq) : List Nat := freq.counts.map Prod.fst

def count (freq : TokenFreq) (tid : Nat) : Nat := (freq.counts.lookup tid).getD 0

theorem count_eq {freq : TokenFreq} {tid n : Nat} (entry : (tid, n) ∈ freq.counts) : freq.count tid = n := by
  have keys := freq.observed.distinct
  rw [count]
  generalize freq.counts = counts at entry keys
  induction counts with
  | nil => exact absurd entry List.not_mem_nil
  | cons first counts ih =>
    obtain ⟨fresh, rest⟩ := List.nodup_cons.mp keys
    rw [List.lookup_cons]
    rcases List.mem_cons.mp entry with rfl | later
    · simp
    · have other : (tid == first.1) = false := by
        rw [beq_eq_false_iff_ne]
        rintro rfl
        exact fresh (List.mem_map.mpr ⟨_, later, rfl⟩)
      rw [other]
      exact ih later rest

theorem count_pos {freq : TokenFreq} {tid : Nat} (occurred : tid ∈ freq.tokens) : 0 < freq.count tid := by
  obtain ⟨⟨tid, n⟩, entry, rfl⟩ := List.mem_map.mp occurred
  rw [count_eq entry]
  exact freq.observed.positive _ entry

theorem count_eq_zero {freq : TokenFreq} {tid : Nat} (absent : tid ∉ freq.tokens) : freq.count tid = 0 := by
  rw [count, List.lookup_eq_none_iff.mpr, Option.getD_none]
  intro entry member
  rw [bne_iff_ne]
  rintro rfl
  exact absent (List.mem_map_of_mem member)

end TokenFreq

/-- `Counter.update` with the counts of a batch of tokens or of another table. -/
def TokenFreq.update (freq other : TokenFreq) : TokenFreq where
  counts := other.counts.foldl updateEntry freq.counts
  observed := by
    have positive := other.observed.positive
    have observed := freq.observed
    generalize other.counts = entries at positive
    generalize freq.counts = counts at observed
    induction entries generalizing counts with
    | nil => exact observed
    | cons entry entries ih =>
      exact ih (fun later member => positive later (List.mem_cons_of_mem _ member)) _
        (observed.updateEntry (positive entry List.mem_cons_self))

def uniqueCounts (tokenIds : List Nat) : TokenFreq where
  counts := (tokenIds.dedup.insertionSort (· ≤ ·)).map fun tid => (tid, tokenIds.count tid)
  observed := by
    constructor
    · rw [List.map_map]
      exact (List.map_id' _).symm ▸ (List.perm_insertionSort _ _).nodup_iff.mpr (List.nodup_dedup tokenIds)
    · intro entry member
      obtain ⟨tid, unique, rfl⟩ := List.mem_map.mp member
      exact List.count_pos_iff.mpr (List.mem_dedup.mp (List.mem_insertionSort _ |>.mp unique))

def TokenFreq.empty : TokenFreq := ⟨[], List.nodup_nil, fun _ member => absurd member List.not_mem_nil⟩

/-- `save_token_frequency_distribution`: the tokens of the dataset that are trained on. -/
def saveTokenFrequencyDistribution (dataset : List (List (Nat × Bool))) : TokenFreq :=
  dataset.foldl (fun tokenFreq item => tokenFreq.update (uniqueCounts ((item.filter (·.2)).map (·.1)))) .empty

def combineTokenFrequencyDistributions (tokenFreqs : List TokenFreq) : TokenFreq :=
  tokenFreqs.foldl TokenFreq.update .empty

section Selection

variable (freq : TokenFreq)

/-- The key `(-token_freq_dict[tid], tid)`. -/
def Before (tid other : Nat) : Prop :=
  freq.count other < freq.count tid ∨ (freq.count tid = freq.count other ∧ tid ≤ other)

instance : DecidableRel (Before freq) := fun tid other =>
  inferInstanceAs (Decidable (freq.count other < freq.count tid ∨ (freq.count tid = freq.count other ∧ tid ≤ other)))

instance : Std.Total (Before freq) := ⟨fun tid other => by unfold Before; omega⟩

instance : IsTrans Nat (Before freq) := ⟨fun first second third => by unfold Before; omega⟩

/-- The loop over small ids, which stops where enough are selected. -/
def fillUnused (draftVocabSize : Nat) (currentIds : List Nat) : List Nat → List Nat → List Nat
  | [], selected => selected
  | tid :: tids, selected =>
    let selected := if tid ∈ currentIds then selected else selected ++ [tid]
    if draftVocabSize ≤ selected.length then selected else fillUnused draftVocabSize currentIds tids selected

/-- The ids in the order in which they are selected. -/
def selectTokenIds (draftVocabSize : Nat) : List Nat :=
  let sortedTokens := freq.tokens.insertionSort (Before freq)
  let numTokensToSelect := min draftVocabSize sortedTokens.length
  let selectedTokenIds := sortedTokens.take numTokensToSelect
  if selectedTokenIds.length < draftVocabSize then
    fillUnused draftVocabSize selectedTokenIds (List.range draftVocabSize) selectedTokenIds
  else selectedTokenIds

/-- The offsets of the draft ids and the marks of the target ids; `none` where an id has no mark. -/
def buildVocabMappingsFromDistribution (draftVocabSize targetVocabSize : Nat) : Option (List Int × List Bool) :=
  let selectedTokenIds := (selectTokenIds freq draftVocabSize).insertionSort (· ≤ ·)
  let draftToTarget := List.zipWith (fun (tid : Nat) (i : Nat) => (tid : Int) - i) selectedTokenIds
    (List.range draftVocabSize)
  if ∀ tid ∈ selectedTokenIds, tid < targetVocabSize then
    some (draftToTarget, selectedTokenIds.foldl (fun targetToDraft tid => targetToDraft.set tid true)
      (List.replicate targetVocabSize false))
  else none

end Selection

/-- `load_vocab_mappings` of a draft model; nothing is loaded where the vocabularies are the same. -/
def loadVocabMappings (verifierVocabSize draftVocabSize : Nat) (t2d : Option (List Bool))
    (d2t : Option (List Int)) : Except String (Option (List Bool × List Int)) :=
  match t2d, d2t with
  | none, none => .ok none
  | some _, none => .error ("Both t2d and d2t must be provided together, or both must be None. " ++
      "Got t2d=provided, d2t=None")
  | none, some _ => .error ("Both t2d and d2t must be provided together, or both must be None. " ++
      "Got t2d=None, d2t=provided")
  | some t2d, some d2t =>
    if draftVocabSize = verifierVocabSize then .ok none
    else if t2d.length ≠ verifierVocabSize then
      .error s!"t2d.shape[0] ({t2d.length}) must match verifier_vocab_size ({verifierVocabSize})."
    else if t2d.count true ≠ draftVocabSize then
      .error s!"t2d has {t2d.count true} non-zero values, expected {draftVocabSize}."
    else if d2t.length ≠ draftVocabSize then
      .error s!"d2t.shape[0] ({d2t.length}) must match draft_vocab_size ({draftVocabSize})."
    else .ok (some (t2d, d2t))

/-- Rows selected by a boolean index, as `lm_head_weight[t2d]` of `load_verifier_weights`. -/
def maskedRows {ρ : Type*} (rows : List ρ) (t2d : List Bool) : List ρ := ((rows.zip t2d).filter (·.2)).map (·.1)

section Fill

variable {draftVocabSize : Nat} {currentIds : List Nat}

theorem fillUnused_eq (tids : List Nat) {selected : List Nat} (room : selected.length < draftVocabSize) :
    fillUnused draftVocabSize currentIds tids selected =
      selected ++ (tids.filter (· ∉ currentIds)).take (draftVocabSize - selected.length) := by
  induction tids generalizing selected with
  | nil => simp [fillUnused]
  | cons tid tids ih =>
    rw [fillUnused]
    by_cases used : tid ∈ currentIds
    · simp only [if_pos used]
      rw [if_neg (Nat.not_le.mpr room), ih room]
      simp [used]
    · simp only [if_neg used, List.length_append, List.length_singleton]
      obtain ⟨gap, rest⟩ := Nat.exists_eq_add_of_lt room
      have size : draftVocabSize - selected.length = gap + 1 := by omega
      have unused : (tid :: tids).filter (· ∉ currentIds) = tid :: tids.filter (· ∉ currentIds) := by simp [used]
      rw [size, unused, List.take_succ_cons]
      split
      next full =>
        have last : gap = 0 := by omega
        rw [last, List.take_zero]
      next open_ =>
        have size' : draftVocabSize - (selected ++ [tid]).length = gap := by
          rw [List.length_append, List.length_singleton]
          omega
        rw [ih (by rw [List.length_append, List.length_singleton]; omega), size', List.append_assoc,
          List.singleton_append]

/-- As many small ids as there are draft ids leave enough to fill up with. -/
theorem le_length_unused (currentIds : List Nat) (draftVocabSize : Nat) :
    draftVocabSize - currentIds.length ≤ ((List.range draftVocabSize).filter (· ∉ currentIds)).length := by
  have both := List.length_eq_length_filter_add (l := List.range draftVocabSize) (· ∈ currentIds)
  have used : ((List.range draftVocabSize).filter (· ∈ currentIds)).length ≤ currentIds.length := by
    apply List.Subperm.length_le
    apply (List.nodup_range.filter _).subperm
    intro tid member
    simpa using (List.mem_filter.mp member).2
  rw [List.length_range] at both
  simp only [decide_not]
  omega

end Fill

/-- Ids selected for a draft vocabulary: none twice, and no id left out comes before one of them. -/
structure Selected (freq : TokenFreq) (draftVocabSize targetVocabSize : Nat) (selected : List Nat) : Prop where
  distinct : selected.Nodup
  count : selected.length = draftVocabSize
  inside : ∀ tid ∈ selected, tid < targetVocabSize
  preferred : ∀ tid ∈ selected, ∀ other ∉ selected,
    freq.count other < freq.count tid ∨ (freq.count other = freq.count tid ∧ tid < other)

section Selected

variable {freq : TokenFreq} {draftVocabSize targetVocabSize : Nat}

theorem sortedTokens_facts (freq : TokenFreq) :
    (freq.tokens.insertionSort (Before freq)).Nodup ∧
      (∀ tid, tid ∈ freq.tokens.insertionSort (Before freq) ↔ tid ∈ freq.tokens) ∧
      (freq.tokens.insertionSort (Before freq)).Pairwise (Before freq) :=
  ⟨(List.perm_insertionSort _ _).nodup_iff.mpr freq.observed.distinct, fun _ => List.mem_insertionSort _,
    List.pairwise_insertionSort _ _⟩

/-- Enough tokens occurred. -/
theorem selected_take (inside : ∀ tid ∈ freq.tokens, tid < targetVocabSize)
    (enough : draftVocabSize ≤ freq.tokens.length) :
    Selected freq draftVocabSize targetVocabSize
      ((freq.tokens.insertionSort (Before freq)).take draftVocabSize) := by
  obtain ⟨distinct, members, sorted⟩ := sortedTokens_facts freq
  have size := List.length_insertionSort (Before freq) freq.tokens
  generalize freq.tokens.insertionSort (Before freq) = sortedTokens at distinct members sorted size
  constructor
  case distinct => exact distinct.sublist (List.take_sublist _ _)
  case count => rw [List.length_take, size, Nat.min_eq_left enough]
  case inside => exact fun tid member => inside tid ((members tid).mp (List.mem_of_mem_take member))
  case preferred =>
    intro tid member other absent
    by_cases occurred : other ∈ freq.tokens
    · have held : other ∈ sortedTokens.take draftVocabSize ++ sortedTokens.drop draftVocabSize := by
        rw [List.take_append_drop]
        exact (members other).mpr occurred
      have behind := (List.mem_append.mp held).resolve_left absent
      rw [← List.take_append_drop draftVocabSize sortedTokens] at sorted
      have before := (List.pairwise_append.mp sorted).2.2 tid member other behind
      have different : tid ≠ other := fun same => absent (same ▸ member)
      unfold Before at before
      omega
    · left
      rw [TokenFreq.count_eq_zero occurred]
      exact TokenFreq.count_pos ((members tid).mp (List.mem_of_mem_take member))

/-- Too few did: all of them are selected, and the least ids that did not occur. -/
theorem selected_filled (fits : draftVocabSize ≤ targetVocabSize)
    (inside : ∀ tid ∈ freq.tokens, tid < targetVocabSize) (few : freq.tokens.length < draftVocabSize) :
    Selected freq draftVocabSize targetVocabSize (freq.tokens.insertionSort (Before freq) ++
      ((List.range draftVocabSize).filter (· ∉ freq.tokens.insertionSort (Before freq))).take
        (draftVocabSize - freq.tokens.length)) := by
  obtain ⟨distinct, members, -⟩ := sortedTokens_facts freq
  have size := List.length_insertionSort (Before freq) freq.tokens
  generalize freq.tokens.insertionSort (Before freq) = sortedTokens at distinct members size
  have enough := le_length_unused sortedTokens draftVocabSize
  have increasing : ((List.range draftVocabSize).filter (· ∉ sortedTokens)).Pairwise (· < ·) :=
    List.pairwise_lt_range.filter _
  have unused (tid : Nat) : tid ∈ (List.range draftVocabSize).filter (· ∉ sortedTokens) ↔
      tid < draftVocabSize ∧ tid ∉ freq.tokens := by
    simp [members]
  generalize (List.range draftVocabSize).filter (· ∉ sortedTokens) = fillers at enough increasing unused
  constructor
  case distinct =>
    rw [List.nodup_append]
    refine ⟨distinct, (increasing.imp fun less => less.ne).sublist (List.take_sublist _ _), ?_⟩
    rintro tid occurred other filled rfl
    exact ((unused tid).mp (List.mem_of_mem_take filled)).2 ((members tid).mp occurred)
  case count =>
    rw [List.length_append, List.length_take, size]
    omega
  case inside =>
    intro tid member
    rcases List.mem_append.mp member with occurred | filled
    · exact inside tid ((members tid).mp occurred)
    · exact ((unused tid).mp (List.mem_of_mem_take filled)).1.trans_le fits
  case preferred =>
    intro tid member other absent
    rw [List.mem_append, not_or, members] at absent
    rw [TokenFreq.count_eq_zero absent.1]
    rcases List.mem_append.mp member with occurred | filled
    · exact .inl (TokenFreq.count_pos ((members tid).mp occurred))
    · have filler := (unused tid).mp (List.mem_of_mem_take filled)
      rw [TokenFreq.count_eq_zero filler.2]
      refine .inr ⟨rfl, ?_⟩
      by_cases small : other < draftVocabSize
      · have held : other ∈ fillers.take (draftVocabSize - freq.tokens.length) ++
            fillers.drop (draftVocabSize - freq.tokens.length) := by
          rw [List.take_append_drop]
          exact (unused other).mpr ⟨small, absent.1⟩
        have behind := (List.mem_append.mp held).resolve_left absent.2
        rw [← List.take_append_drop (draftVocabSize - freq.tokens.length) fillers] at increasing
        exact (List.pairwise_append.mp increasing).2.2 tid filled other behind
      · exact filler.1.trans_le (Nat.not_lt.mp small)

theorem selectTokenIds_selected (fits : draftVocabSize ≤ targetVocabSize)
    (inside : ∀ tid ∈ freq.tokens, tid < targetVocabSize) :
    Selected freq draftVocabSize targetVocabSize (selectTokenIds freq draftVocabSize) := by
  have size := List.length_insertionSort (Before freq) freq.tokens
  rw [selectTokenIds, List.length_take, size]
  rcases Nat.lt_or_ge freq.tokens.length draftVocabSize with few | enough
  · have whole : (freq.tokens.insertionSort (Before freq)).take (min draftVocabSize freq.tokens.length) =
        freq.tokens.insertionSort (Before freq) := List.take_of_length_le (by omega)
    rw [if_pos (by omega), whole, fillUnused_eq _ (by omega), size]
    exact selected_filled fits inside few
  · rw [if_neg (by omega), Nat.min_eq_left enough]
    exact selected_take inside enough

end Selected

section Marks

def truePositions (t2d : List Bool) : List Nat := (List.range t2d.length).filter fun tid => t2d.getD tid false

@[simp] theorem length_foldl_set (sorted : List Nat) (t2d : List Bool) :
    (sorted.foldl (fun targetToDraft tid => targetToDraft.set tid true) t2d).length = t2d.length := by
  induction sorted generalizing t2d with
  | nil => rfl
  | cons tid sorted ih => rw [List.foldl_cons, ih, List.length_set]

theorem getElem?_foldl_set (sorted : List Nat) {t2d : List Bool} {tid : Nat} (bounded : tid < t2d.length) :
    (sorted.foldl (fun targetToDraft tid => targetToDraft.set tid true) t2d)[tid]? =
      some (t2d[tid] || decide (tid ∈ sorted)) := by
  induction sorted generalizing t2d with
  | nil => simp
  | cons first sorted ih =>
    rw [List.foldl_cons, ih (by rwa [List.length_set]), List.getElem_set]
    by_cases same : first = tid
    · simp [same]
    · simp [same, Ne.symm same]

variable {targetVocabSize : Nat} {sorted : List Nat}

theorem marks_eq (targetVocabSize : Nat) (sorted : List Nat) :
    sorted.foldl (fun targetToDraft tid => targetToDraft.set tid true) (List.replicate targetVocabSize false) =
      (List.range targetVocabSize).map fun tid => decide (tid ∈ sorted) := by
  apply List.ext_getElem?
  intro tid
  by_cases bounded : tid < targetVocabSize
  · rw [getElem?_foldl_set _ (by rwa [List.length_replicate])]
    simp [bounded]
  · have outside := Nat.not_lt.mp bounded
    rw [List.getElem?_eq_none (by simpa using outside), List.getElem?_eq_none (by simpa using outside)]

/-- An increasing list of ids is found again by its members. -/
theorem filter_mem_range (increasing : sorted.Pairwise (· < ·)) (inside : ∀ tid ∈ sorted, tid < targetVocabSize) :
    (List.range targetVocabSize).filter (fun tid => decide (tid ∈ sorted)) = sorted := by
  apply List.Pairwise.eq_of_mem_iff (List.pairwise_lt_range.filter _) increasing
  intro tid
  rw [List.mem_filter, List.mem_range, decide_eq_true_iff]
  exact ⟨And.right, fun member => ⟨inside tid member, member⟩⟩

theorem truePositions_marks (increasing : sorted.Pairwise (· < ·))
    (inside : ∀ tid ∈ sorted, tid < targetVocabSize) :
    truePositions ((List.range targetVocabSize).map fun tid => decide (tid ∈ sorted)) = sorted := by
  rw [truePositions, List.length_map, List.length_range]
  calc (List.range targetVocabSize).filter
        (fun tid => ((List.range targetVocabSize).map fun tid => decide (tid ∈ sorted)).getD tid false)
      = (List.range targetVocabSize).filter (fun tid => decide (tid ∈ sorted)) := by
        apply List.filter_congr
        intro tid member
        simp [List.getD, List.mem_range.mp member]
    _ = sorted := filter_mem_range increasing inside

theorem count_marks (increasing : sorted.Pairwise (· < ·)) (inside : ∀ tid ∈ sorted, tid < targetVocabSize) :
    ((List.range targetVocabSize).map fun tid => decide (tid ∈ sorted)).count true = sorted.length := by
  rw [List.count_eq_length_filter, List.filter_map, List.length_map]
  conv_rhs => rw [← filter_mem_range increasing inside]
  congr 2
  funext tid
  simp

theorem maskedRows_marks {ρ : Type*} {rows : List ρ} (increasing : sorted.Pairwise (· < ·))
    (inside : ∀ tid ∈ sorted, tid < rows.length) :
    (maskedRows rows ((List.range rows.length).map fun tid => decide (tid ∈ sorted))).map some =
      sorted.map fun tid => rows[tid]? := by
  have pairs : (rows.map some).zip ((List.range rows.length).map fun tid => decide (tid ∈ sorted)) =
      (List.range rows.length).map fun tid => (rows[tid]?, decide (tid ∈ sorted)) := by
    apply List.ext_getElem (by simp)
    intro tid bounded _
    simp
  have lifted : (maskedRows rows ((List.range rows.length).map fun tid => decide (tid ∈ sorted))).map some =
      maskedRows (rows.map some) ((List.range rows.length).map fun tid => decide (tid ∈ sorted)) := by
    rw [maskedRows, maskedRows, List.zip_map_left, List.filter_map, List.map_map, List.map_map]
    rfl
  rw [lifted, maskedRows, pairs, List.filter_map, List.map_map]
  conv_rhs => rw [← filter_mem_range increasing inside]
  rfl

end Marks

/-- What a pair of arrays means for a draft model: they name the same ids, in the same order. -/
structure Consistent (freq : TokenFreq) (draftVocabSize targetVocabSize : Nat) (d2t : List Int)
    (t2d : List Bool) : Prop where
  selected : Selected freq draftVocabSize targetVocabSize (truePositions t2d)
  length_d2t : d2t.length = draftVocabSize
  length_t2d : t2d.length = targetVocabSize
  marked : t2d.count true = draftVocabSize
  position (i : Nat) (bounded : i < d2t.length) : (truePositions t2d)[i]?.map Nat.cast = some (d2t[i] + i)
  increasing (i j : Nat) (less : i < j) (bounded : j < d2t.length) : d2t[i] + i < d2t[j] + j
  same_rows (ρ : Type) (rows : List ρ) (sized : rows.length = targetVocabSize) :
    (maskedRows rows t2d).map some = d2t.mapIdx fun i offset => rows[(offset + (i : Int)).toNat]?
  loaded : loadVocabMappings targetVocabSize draftVocabSize (some t2d) (some d2t) =
    .ok (if draftVocabSize = targetVocabSize then none else some (t2d, d2t))

section Build

variable {freq : TokenFreq} {draftVocabSize targetVocabSize : Nat}

theorem Selected.sorted {selected : List Nat} (facts : Selected freq draftVocabSize targetVocabSize selected) :
    Selected freq draftVocabSize targetVocabSize (selected.insertionSort (· ≤ ·)) where
  distinct := (List.perm_insertionSort _ _).nodup_iff.mpr facts.distinct
  count := (List.length_insertionSort _ _).trans facts.count
  inside tid member := facts.inside tid ((List.mem_insertionSort _).mp member)
  preferred tid member other absent := facts.preferred tid ((List.mem_insertionSort _).mp member) other
    fun selected => absent ((List.mem_insertionSort _).mpr selected)

theorem Selected.increasing {selected : List Nat} (facts : Selected freq draftVocabSize targetVocabSize selected) :
    (selected.insertionSort (· ≤ ·)).Pairwise (· < ·) := by
  have distinct : (selected.insertionSort (· ≤ ·)).Pairwise (· ≠ ·) := facts.sorted.distinct
  exact ((List.pairwise_insertionSort (· ≤ ·) selected).and distinct).imp fun both => lt_of_le_of_ne both.1 both.2

/-- Arrays written for increasing ids. -/
theorem consistent_of_sorted {sorted : List Nat} (facts : Selected freq draftVocabSize targetVocabSize sorted)
    (increasing : sorted.Pairwise (· < ·)) :
    Consistent freq draftVocabSize targetVocabSize
      (List.zipWith (fun (tid : Nat) (i : Nat) => (tid : Int) - i) sorted (List.range draftVocabSize))
      ((List.range targetVocabSize).map fun tid => decide (tid ∈ sorted)) := by
  have positions := truePositions_marks increasing facts.inside
  have length_d2t : (List.zipWith (fun (tid : Nat) (i : Nat) => (tid : Int) - i) sorted
      (List.range draftVocabSize)).length = draftVocabSize := by
    rw [List.length_zipWith, List.length_range, facts.count, Nat.min_self]
  have marked := (count_marks increasing facts.inside).trans facts.count
  constructor
  case selected => exact positions.symm ▸ facts
  case length_d2t => exact length_d2t
  case length_t2d => rw [List.length_map, List.length_range]
  case marked => exact marked
  case position =>
    intro i bounded
    have held : i < sorted.length := facts.count.symm ▸ length_d2t ▸ bounded
    rw [positions, List.getElem?_eq_getElem held, List.getElem_zipWith, List.getElem_range, Int.sub_add_cancel]
    rfl
  case increasing =>
    intro i j less bounded
    have held : j < sorted.length := facts.count.symm ▸ length_d2t ▸ bounded
    have ordered := List.pairwise_iff_getElem.mp increasing i j (less.trans held) held less
    rw [List.getElem_zipWith, List.getElem_zipWith, List.getElem_range, List.getElem_range, Int.sub_add_cancel,
      Int.sub_add_cancel]
    exact Int.ofNat_lt.mpr ordered
  case same_rows =>
    rintro ρ rows rfl
    rw [maskedRows_marks increasing facts.inside]
    apply List.ext_getElem
    · rw [List.length_map, List.length_mapIdx, length_d2t, facts.count]
    · intro i bounded _
      simp
  case loaded =>
    rw [loadVocabMappings]
    split
    next => rfl
    next => rw [if_neg (by simp), if_neg (not_not.mpr marked), if_neg (not_not.mpr length_d2t)]

/-- The arrays are consistent for every table and every draft vocabulary that fits. -/
theorem buildVocabMappingsFromDistribution_consistent (freq : TokenFreq)
    (fits : draftVocabSize ≤ targetVocabSize) (inside : ∀ tid ∈ freq.tokens, tid < targetVocabSize) :
    ∃ d2t t2d, buildVocabMappingsFromDistribution freq draftVocabSize targetVocabSize = some (d2t, t2d) ∧
      Consistent freq draftVocabSize targetVocabSize d2t t2d := by
  have facts := selectTokenIds_selected fits inside
  refine ⟨_, _, ?_, consistent_of_sorted facts.sorted facts.increasing⟩
  rw [buildVocabMappingsFromDistribution, if_pos facts.sorted.inside, marks_eq]

/-- Two tokens for four draft ids: the ids `0` and `1` fill up, and `2` is not selected twice. -/
theorem buildVocabMappingsFromDistribution_two :
    buildVocabMappingsFromDistribution (uniqueCounts [7, 2, 7]) 4 9 =
        some ([0, 0, 0, 4], [true, true, true, false, false, false, false, true, false]) ∧
      ∃ d2t t2d, buildVocabMappingsFromDistribution (uniqueCounts [7, 2, 7]) 4 9 = some (d2t, t2d) ∧
        Consistent (uniqueCounts [7, 2, 7]) 4 9 d2t t2d :=
  ⟨by decide, buildVocabMappingsFromDistribution_consistent (uniqueCounts [7, 2, 7]) (by decide) (by decide)⟩

end Build

end DreamAifd.VocabMapping
