import DreamAifd.Averages
import DreamAifd.Gather

/-! Metrics counted as pairs of a sum and a total: added up over the ranks and the batches of an
epoch, and divided at the end. -/
namespace DreamAifd.CountedMetrics

variable {ν α : Type} [DecidableEq ν]

/-- The keys of a metrics dictionary, by what they end in. -/
inductive Key (ν : Type)
  | sum (name : ν)
  | total (name : ν)
  | plain (name : ν)
  deriving DecidableEq

def Key.total? : Key ν → Option ν
  | .total name => some name
  | _ => none

def countedKeys (names : List ν) : List (Key ν) := names.flatMap fun name => [.sum name, .total name]

abbrev MetricDict (ν α : Type) := AList fun _ : Key ν => α

def mapValues (f : Key ν → α → α) (metrics : MetricDict ν α) : MetricDict ν α :=
  ⟨metrics.entries.map (.map id f), by
    have keys := metrics.keys_nodup
    rwa [List.NodupKeys, List.keys, List.map_map]⟩

theorem lookup_mapValues (f : Key ν → α → α) (metrics : MetricDict ν α) (key : Key ν) :
    (mapValues f metrics).lookup key = (metrics.lookup key).map (f key) :=
  List.dlookup_map₂ key

section Field

variable [Field α] [LinearOrder α]

/-- `dist.all_reduce` of the values in turn, on the rank that holds `own`; the ranks' calls meet by
their order. -/
def allReduce (ranks : List (List (Key ν × α))) (own : List (Key ν × α)) : Option (List (Key ν × α)) :=
  if ranks.all (·.length = own.length) then
    some (own.mapIdx fun i entry => (entry.1, (ranks.map fun other => (other.map (·.2)).getD i 0).sum))
  else none

def accumulate (metrics : MetricDict ν α) (entries : List (Key ν × α)) : MetricDict ν α :=
  entries.foldl (fun metrics entry => metrics.insert entry.1 ((metrics.lookup entry.1).getD 0 + entry.2)) metrics

def ratio (sum total : α) : α := if 0 < total then sum / total else 0

/-- One key that ends in `_total`: the dictionary without the pair, and the normalized names. -/
def normalizeStep (state : MetricDict ν α × List ν) (name : ν) : MetricDict ν α × List ν :=
  let (metrics, normalized) := state
  match metrics.lookup (.sum name) with
  | some sum =>
    let total := (metrics.lookup (.total name)).getD 0
    (((metrics.insert (.plain name) (ratio sum total)).erase (.sum name)).erase (.total name),
      name :: normalized)
  | none => (metrics.erase (.total name), normalized)

def normalizeCountedMetrics (metrics : MetricDict ν α) (worldSize : Nat) : MetricDict ν α :=
  let (metrics, normalized) := (metrics.keys.filterMap Key.total?).foldl normalizeStep (metrics, [])
  if 1 < worldSize then
    mapValues (fun key value => if key ∈ normalized.map Key.plain then value else value / worldSize) metrics
  else metrics

/-- `val_epoch` on a rank, `forward` yielding the metrics of a rank and a batch. Without a process group
the world has one rank. -/
def valEpoch (worldSize numBatches : Nat) (forward : Nat → Nat → Option (List (Key ν × α))) (rank : Nat) :
    Option (MetricDict ν α) := do
  let val ← (List.range numBatches).foldlM (fun val batch => do
    let ranks ← (List.range worldSize).mapM (forward · batch)
    let metrics ← forward rank batch
    let reduced ← allReduce ranks metrics
    some (accumulate val reduced)) (∅ : MetricDict ν α)
  some (normalizeCountedMetrics (mapValues (fun _ value => value / numBatches) val) worldSize)

def counted (names : List ν) (value : Key ν → α) : List (Key ν × α) :=
  (countedKeys names).map fun key => (key, value key)

omit [LinearOrder α] in
theorem accumulate_of_notMem {metrics : MetricDict ν α} {entries : List (Key ν × α)} {key : Key ν}
    (other : key ∉ entries.map (·.1)) : (accumulate metrics entries).lookup key = metrics.lookup key := by
  induction entries generalizing metrics with
  | nil => rfl
  | cons entry entries ih =>
    rw [List.map_cons, List.mem_cons, not_or] at other
    rw [accumulate, List.foldl_cons]
    exact (ih other.2).trans (AList.lookup_insert_ne other.1)

omit [LinearOrder α] in
theorem accumulate_of_mem (metrics : MetricDict ν α) {entries : List (Key ν × α)}
    (distinct : (entries.map (·.1)).Nodup) {key : Key ν} {value : α} (member : (key, value) ∈ entries) :
    (accumulate metrics entries).lookup key = some ((metrics.lookup key).getD 0 + value) := by
  induction entries generalizing metrics with
  | nil => contradiction
  | cons entry entries ih =>
    rw [List.map_cons, List.nodup_cons] at distinct
    rw [accumulate, List.foldl_cons]
    rcases List.mem_cons.mp member with rfl | later
    · exact (accumulate_of_notMem distinct.1).trans (AList.lookup_insert _)
    · have apart : key ≠ entry.1 := fun same => distinct.1 (same ▸ List.mem_map_of_mem (f := (·.1)) later)
      have rest := ih (metrics.insert entry.1 ((metrics.lookup entry.1).getD 0 + entry.2)) distinct.2 later
      rwa [AList.lookup_insert_ne apart] at rest

end Field

section Keys

omit [DecidableEq ν]

theorem mem_countedKeys {names : List ν} {key : Key ν} :
    key ∈ countedKeys names ↔ ∃ name ∈ names, key = .sum name ∨ key = .total name := by
  simp [countedKeys]

theorem nodup_countedKeys {names : List ν} (distinct : names.Nodup) : (countedKeys names).Nodup := by
  induction names with
  | nil => exact List.nodup_nil
  | cons name names ih =>
    obtain ⟨fresh, rest⟩ := List.nodup_cons.mp distinct
    rw [countedKeys, List.flatMap_cons]
    refine List.nodup_append.mpr ⟨by simp, ih rest, ?_⟩
    rintro key here _ there rfl
    obtain ⟨other, member, place⟩ := mem_countedKeys.mp there
    simp only [List.mem_cons, List.not_mem_nil, or_false] at here
    obtain rfl : name = other := by
      rcases here with rfl | rfl <;> simpa using place
    exact fresh member

theorem counted_keys (names : List ν) (value : Key ν → α) :
    (counted names value).map (·.1) = countedKeys names := by
  rw [counted, List.map_map]
  exact List.map_id _

end Keys

section Field

variable [Field α] [LinearOrder α]

omit [DecidableEq ν] [LinearOrder α] in
/-- Ranks that count the same metrics get the sum of each. -/
theorem allReduce_counted (names : List ν) (ranks : List (Key ν → α)) (own : Key ν → α) :
    allReduce (ranks.map (counted names)) (counted names own) =
      some (counted names fun key => (ranks.map (· key)).sum) := by
  rw [allReduce, if_pos (by simp [counted])]
  congr 1
  apply List.ext_getElem
  · simp [counted]
  · intro i inside _
    have bound : i < (countedKeys names).length := by simpa [counted] using inside
    have each : (ranks.map (counted names)).map (fun other => (other.map (·.2)).getD i 0) =
        ranks.map (· (countedKeys names)[i]) := by
      rw [List.map_map]
      refine List.map_congr_left fun value _ => ?_
      simp [counted, bound]
    simp only [List.getElem_mapIdx, each]
    simp [counted]

omit [LinearOrder α] in
/-- What the batches add up to. -/
theorem epoch_lookup {names : List ν} (distinct : names.Nodup) {worldSize : Nat}
    {forward : Nat → Nat → Option (List (Key ν × α))} {value : Nat → Nat → Key ν → α} {rank : Nat}
    (inWorld : rank < worldSize) (batches : List Nat)
    (counts : ∀ r < worldSize, ∀ b ∈ batches, forward r b = some (counted names (value r b)))
    (metrics : MetricDict ν α) :
    ∃ val, batches.foldlM (fun val batch => do
        let ranks ← (List.range worldSize).mapM (forward · batch)
        let metrics ← forward rank batch
        let reduced ← allReduce ranks metrics
        some (accumulate val reduced)) metrics = some val ∧
      ∀ key ∈ countedKeys names, batches ≠ [] ∨ (metrics.lookup key).isSome →
        val.lookup key = some ((metrics.lookup key).getD 0 +
          (batches.map fun b => ((List.range worldSize).map (value · b key)).sum).sum) := by
  induction batches generalizing metrics with
  | nil =>
    refine ⟨metrics, rfl, fun key _ present => ?_⟩
    obtain ⟨v, held⟩ := Option.isSome_iff_exists.mp (present.resolve_left (by simp))
    simp [held]
  | cons b batches ih =>
    have ranks : (List.range worldSize).mapM (forward · b) =
        some ((List.range worldSize).map fun r => counted names (value r b)) :=
      Gather.mapM_some fun r member => counts r (List.mem_range.mp member) b (by simp)
    have reduced := allReduce_counted names ((List.range worldSize).map (value · b)) (value rank b)
    rw [List.map_map] at reduced
    obtain ⟨val, run, result⟩ := ih (fun r inside other member => counts r inside other (by simp [member]))
      (accumulate metrics (counted names fun key => ((List.range worldSize).map (value · b key)).sum))
    refine ⟨val, ?_, fun key member _ => ?_⟩
    · rw [List.foldlM_cons, ranks, counts rank inWorld b (by simp)]
      simp only [Option.bind_eq_bind, Option.bind_some]
      have step : allReduce ((List.range worldSize).map fun r => counted names (value r b))
          (counted names (value rank b)) = some _ := reduced
      rw [step]
      simp only [List.map_map, Option.bind_some]
      exact run
    · have once : ((counted names fun key => ((List.range worldSize).map (value · b key)).sum).map (·.1)).Nodup := by
        rw [counted_keys]
        exact nodup_countedKeys distinct
      have added := accumulate_of_mem metrics once (List.mem_map_of_mem member)
      rw [result key member (.inr (by rw [added]; rfl)), added, Option.getD_some, List.map_cons, List.sum_cons,
        add_assoc]

theorem normalizeStep_other (state : MetricDict ν α × List ν) {name other : ν} (apart : name ≠ other) :
    (normalizeStep state other).1.lookup (.sum name) = state.1.lookup (.sum name) ∧
      (normalizeStep state other).1.lookup (.total name) = state.1.lookup (.total name) ∧
      (normalizeStep state other).1.lookup (.plain name) = state.1.lookup (.plain name) ∧
      (name ∈ state.2 → name ∈ (normalizeStep state other).2) := by
  rw [normalizeStep]
  split
  · simp [AList.lookup_erase_ne, AList.lookup_insert_ne, apart]
  · simp [AList.lookup_erase_ne, apart]

theorem normalizeStep_self {state : MetricDict ν α × List ν} {name : ν} {sum total : α}
    (hasSum : state.1.lookup (.sum name) = some sum) (hasTotal : state.1.lookup (.total name) = some total) :
    (normalizeStep state name).1.lookup (.plain name) = some (ratio sum total) ∧
      name ∈ (normalizeStep state name).2 := by
  rw [normalizeStep]
  simp [hasSum, hasTotal, AList.lookup_erase_ne]

/-- A name already normalized, or whose pair is not in the rest of the loop, keeps its value. -/
theorem foldl_normalizeStep_notMem (state : MetricDict ν α × List ν) {names : List ν} {name : ν}
    (absent : name ∉ names) :
    (names.foldl normalizeStep state).1.lookup (.plain name) = state.1.lookup (.plain name) ∧
      (name ∈ state.2 → name ∈ (names.foldl normalizeStep state).2) := by
  induction names generalizing state with
  | nil => exact ⟨rfl, id⟩
  | cons other names ih =>
    rw [List.mem_cons, not_or] at absent
    obtain ⟨-, -, same, kept⟩ := normalizeStep_other state absent.1
    obtain ⟨value, member⟩ := ih (normalizeStep state other) absent.2
    exact ⟨value.trans same, fun inside => member (kept inside)⟩

theorem foldl_normalizeStep (state : MetricDict ν α × List ν) {names : List ν} {name : ν} (distinct : names.Nodup)
    (member : name ∈ names) {sum total : α} (hasSum : state.1.lookup (.sum name) = some sum)
    (hasTotal : state.1.lookup (.total name) = some total) :
    (names.foldl normalizeStep state).1.lookup (.plain name) = some (ratio sum total) ∧
      name ∈ (names.foldl normalizeStep state).2 := by
  induction names generalizing state with
  | nil => contradiction
  | cons other names ih =>
    obtain ⟨fresh, rest⟩ := List.nodup_cons.mp distinct
    by_cases same : name = other
    · subst same
      obtain ⟨value, inside⟩ := normalizeStep_self hasSum hasTotal
      obtain ⟨later, kept⟩ := foldl_normalizeStep_notMem (normalizeStep state name) fresh
      exact ⟨later.trans value, kept inside⟩
    · obtain ⟨sums, totals, -, -⟩ := normalizeStep_other state same
      exact ih (normalizeStep state other) rest ((List.mem_cons.mp member).resolve_left same) (sums.trans hasSum)
        (totals.trans hasTotal)

/-- Every pair is reported as the ratio of its sum and its total. -/
theorem normalizeCountedMetrics_pair {metrics : MetricDict ν α} (worldSize : Nat) {name : ν} {sum total : α}
    (hasSum : metrics.lookup (.sum name) = some sum) (hasTotal : metrics.lookup (.total name) = some total) :
    (normalizeCountedMetrics metrics worldSize).lookup (.plain name) =
      some (ratio sum total) := by
  have listed : name ∈ metrics.keys.filterMap Key.total? := by
    refine List.mem_filterMap.mpr ⟨.total name, ?_, rfl⟩
    rw [← AList.mem_keys, ← AList.lookup_isSome, hasTotal]
    rfl
  have distinct : (metrics.keys.filterMap Key.total?).Nodup := by
    refine metrics.keys_nodup.filterMap ?_
    rintro (_ | left | _) (_ | right | _) name here there <;> simp_all [Key.total?]
  obtain ⟨value, normalized⟩ := foldl_normalizeStep (metrics, []) distinct listed hasSum hasTotal
  rw [normalizeCountedMetrics]
  generalize (metrics.keys.filterMap Key.total?).foldl normalizeStep (metrics, []) = result at value normalized
  obtain ⟨reported, names⟩ := result
  dsimp only at value normalized ⊢
  split
  · rw [lookup_mapValues, value]
    simp [normalized]
  · exact value

/-- The reported ratio is that of the sums over all batches and ranks. -/
theorem valEpoch_ratio [IsStrictOrderedRing α] {names : List ν} (distinct : names.Nodup) {worldSize numBatches : Nat}
    {forward : Nat → Nat → Option (List (Key ν × α))} {value : Nat → Nat → Key ν → α} {rank : Nat}
    (inWorld : rank < worldSize) (some_batch : 0 < numBatches)
    (counts : ∀ r < worldSize, ∀ b < numBatches, forward r b = some (counted names (value r b))) :
    ∃ val, valEpoch worldSize numBatches forward rank = some val ∧ ∀ name ∈ names,
      let whole (key : Key ν) :=
        ((List.range numBatches).map fun b => ((List.range worldSize).map (value · b key)).sum).sum
      val.lookup (.plain name) = some (ratio (whole (.sum name)) (whole (.total name))) := by
  obtain ⟨val, run, result⟩ := epoch_lookup distinct inWorld (List.range numBatches)
    (fun r inside b member => counts r inside b (List.mem_range.mp member)) ∅
  refine ⟨_, by rw [valEpoch, run]; rfl, fun name member => ?_⟩
  have held (key : Key ν) (known : key ∈ countedKeys names) := result key known (.inl (by simpa using some_batch.ne'))
  simp only [AList.lookup_empty, Option.getD_none, zero_add] at held
  have sums := held (.sum name) (mem_countedKeys.mpr ⟨name, member, .inl rfl⟩)
  have totals := held (.total name) (mem_countedKeys.mpr ⟨name, member, .inr rfl⟩)
  have mean (key : Key ν) : (mapValues (fun _ value => value / (numBatches : α)) val).lookup key =
      (val.lookup key).map (· / (numBatches : α)) := lookup_mapValues _ _ _
  rw [normalizeCountedMetrics_pair worldSize (by rw [mean, sums]; rfl) (by rw [mean, totals]; rfl)]
  have count : (0 : α) < numBatches := Nat.cast_pos.mpr some_batch
  simp only [ratio, div_pos_iff_of_pos_right count, div_div_div_cancel_right₀ count.ne']

end Field

/-! The samples of an epoch in cells, one cell for each batch of each rank. -/

section Cells

open Averages

theorem sum_clamped (cells : List (List α)) : (cells.map fun cell => max cell.length 1).sum =
    (cells.map List.length).sum + cells.countP List.isEmpty := by
  induction cells with
  | nil => rfl
  | cons cell cells ih =>
    rw [List.map_cons, List.sum_cons, List.map_cons, List.sum_cons, List.countP_cons, ih]
    cases cell with
    | nil => simp; omega
    | cons x cell => simp; omega

variable [Field α] [LinearOrder α] [IsStrictOrderedRing α]

/-- With the cells' own numbers for totals the ratio is the mean. -/
theorem ratio_eq_mean (cells : List (List α)) :
    ratio (cells.map List.sum).sum (cells.map fun cell => (cell.length : α)).sum = mean cells.flatten := by
  have count : (cells.map fun cell => (cell.length : α)).sum = (cells.flatten.length : α) := by
    rw [List.length_flatten, Nat.cast_list_sum, List.map_map]
    rfl
  rw [count, mean, List.sum_flatten, ratio]
  split
  next => rfl
  next none =>
    have empty : (cells.flatten.length : α) = 0 := le_antisymm (not_lt.mp none) (Nat.cast_nonneg _)
    rw [empty, div_zero]

/-- With totals of at least one a cell it is the mean only where no cell is empty, or there is nothing to add up. -/
theorem ratio_clamped_iff {cells : List (List α)} (some_cell : cells ≠ []) :
    ratio (cells.map List.sum).sum (cells.map fun cell => max (cell.length : α) 1).sum = mean cells.flatten ↔
      (∀ cell ∈ cells, cell ≠ []) ∨ cells.flatten.sum = 0 := by
  have count : (cells.map fun cell => max (cell.length : α) 1).sum =
      ((cells.flatten.length + cells.countP List.isEmpty : Nat) : α) := by
    rw [List.length_flatten, ← sum_clamped, Nat.cast_list_sum, List.map_map]
    simp [Function.comp_def]
  have full : (∀ cell ∈ cells, cell ≠ []) ↔ cells.countP List.isEmpty = 0 := by
    rw [List.countP_eq_zero]
    simp
  have positive : 0 < cells.flatten.length + cells.countP List.isEmpty := by
    obtain ⟨cell, rest, rfl⟩ := List.exists_cons_of_ne_nil some_cell
    cases cell <;> simp
  rw [count, ratio, if_pos (Nat.cast_pos.mpr positive), mean, ← List.sum_flatten, full]
  by_cases zero : cells.flatten.sum = 0
  · simp [zero]
  · have samples : cells.flatten.length ≠ 0 := by
      intro none
      rw [List.eq_nil_of_length_eq_zero none] at zero
      exact zero List.sum_nil
    have numbers : ((cells.flatten.length + cells.countP List.isEmpty : Nat) : α) ≠ 0 :=
      Nat.cast_ne_zero.mpr positive.ne'
    rw [div_eq_div_iff numbers (Nat.cast_ne_zero.mpr samples), mul_right_inj' zero, Nat.cast_inj,
      or_iff_left zero]
    omega

end Cells

end DreamAifd.CountedMetrics
