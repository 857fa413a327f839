import DreamAifd.Draws
import DreamAifd.Segments

/-! The elements that parallel groups are trained on. A chain starts at an anchor; every depth
keeps a random subset of the chains and moves their targets on by one position. -/
namespace DreamAifd.CodSampling

open Draws Gather

section Code

variable (seqLength : Nat) (allValidIndices : List Nat) (filterPositionZero : Bool)

/-- The pool of the next depth: the positions sampled, shifted by one, where they are trainable. -/
def nextPool (sampledIdx : List Nat) : List Nat :=
  let nextCandidates := sampledIdx.map fun i => (i + 1) % seqLength
  let nextCandidates := if filterPositionZero then nextCandidates.filter (· ≠ 0) else nextCandidates
  nextCandidates.filter (· ∈ allValidIndices)

-- `**` of floats and the rounding of their products
variable (pow : ℚ → Nat → ℚ) (round : ℚ → ℚ)

/-- Elements kept at a depth, as long as the geometric decay and its floor leave any. -/
def sampleSize (downSampleRatio downSampleRatioMin : ℚ) (numSeeds d : Nat) : Nat :=
  let validLength := numSeeds - d
  let ratio := max (pow downSampleRatio d) downSampleRatioMin
  ⌊round (validLength * ratio)⌋.toNat

variable (downSampleRatio downSampleRatioMin : ℚ) (randperm : Nat → Nat → List Nat) (numSeeds : Nat)

/-- The loop over the depths from `d` on; `randperm d m` is the permutation drawn for a pool of `m`. -/
def codRounds : Nat → Nat → List Nat → Option (List (List Int))
  | 0, _, _ => some []
  | depths + 1, d, prevIndices =>
    let size := sampleSize pow round downSampleRatio downSampleRatioMin numSeeds d
    if size = 0 then some []
    else do
      let sampledIdx ←
        if size ≤ prevIndices.length then
          (gather prevIndices ((randperm d prevIndices.length).take size)).map (·.insertionSort (· ≤ ·))
        else some prevIndices
      let later ← codRounds depths (d + 1) (nextPool seqLength allValidIndices filterPositionZero sampledIdx)
      some ((sampledIdx.map fun (i : Nat) => (i : Int) - d) :: later)

end Code

def trainable (lossMask : List ℚ) : List Nat := (List.range lossMask.length).filter fun i => lossMask.getD i 0 = 1

def seedIndices (lossMask : List ℚ) (maxAnchors : Option Nat) (randperm : Nat → Nat → List Nat) :
    Option (List Nat) :=
  let allValidIndices := trainable lossMask
  match maxAnchors with
  | none => some allValidIndices
  | some maxAnchors =>
    if maxAnchors < allValidIndices.length then
      (gather allValidIndices ((randperm 0 allValidIndices.length).take maxAnchors)).map (·.insertionSort (· ≤ ·))
    else some allValidIndices

def generateCodSampleIndices (pow : ℚ → Nat → ℚ) (round : ℚ → ℚ) (seqLength : Nat) (lossMask : List ℚ) (numDepths : Nat)
    (downSampleRatio downSampleRatioMin : ℚ) (filterPositionZero : Bool) (maxAnchors : Option Nat)
    (randperm : Nat → Nat → List Nat) : Option (List Int × List Nat) := do
  let seeds ← seedIndices lossMask maxAnchors randperm
  let rounds ← codRounds seqLength (trainable lossMask) filterPositionZero pow round downSampleRatio downSampleRatioMin
    randperm seeds.length (numDepths - 1) 1 seeds
  let sampleIndices := (List.range seqLength).map Nat.cast :: rounds
  some (sampleIndices.flatten, (sampleIndices.mapIdx fun d indices => List.replicate indices.length d).flatten)

def atDepth (anchorPos : List Int) (depth : List Nat) (d : Nat) : List Int :=
  ((anchorPos.zip depth).filter (·.2 = d)).map (·.1)

section Rounds

variable {seqLength numSeeds : Nat} {allValidIndices : List Nat}

/-- Any way of keeping chains: a part of the pool at every depth, fewer with each. -/
inductive Rounds (seqLength : Nat) (allValidIndices : List Nat) (numSeeds : Nat) :
    Nat → List Nat → List (List Int) → Prop where
  | stop (d : Nat) (pool : List Nat) : Rounds seqLength allValidIndices numSeeds d pool []
  | keep {d : Nat} {pool sampled : List Nat} {later : List (List Int)} (part : sampled.Sublist pool)
      (bounded : sampled.length ≤ numSeeds - d)
      (rest : Rounds seqLength allValidIndices numSeeds (d + 1) (nextPool seqLength allValidIndices true sampled)
        later) :
      Rounds seqLength allValidIndices numSeeds d pool ((sampled.map fun (i : Nat) => (i : Int) - d) :: later)

structure Pool (seqLength : Nat) (allValidIndices pool : List Nat) : Prop where
  increasing : pool.Pairwise (· < ·)
  valid : ∀ i ∈ pool, i ∈ allValidIndices
  inside : ∀ i ∈ pool, i < seqLength

theorem Pool.part {pool sampled : List Nat} (facts : Pool seqLength allValidIndices pool)
    (part : sampled.Sublist pool) : Pool seqLength allValidIndices sampled where
  increasing := facts.increasing.sublist part
  valid i member := facts.valid i (part.subset member)
  inside i member := facts.inside i (part.subset member)

theorem Pool.length_le {pool : List Nat} (facts : Pool seqLength allValidIndices pool) : pool.length ≤ seqLength := by
  have distinct : pool.Nodup := facts.increasing.imp Nat.ne_of_lt
  have part : pool.Subperm (List.range seqLength) := List.subperm_of_subset distinct fun i member =>
    List.mem_range.mpr (facts.inside i member)
  simpa using part.length_le

/-- A candidate that is not dropped has its predecessor among the positions sampled. -/
theorem mem_nextPool {sampled : List Nat} {i : Nat} (facts : Pool seqLength allValidIndices sampled) :
    i ∈ nextPool seqLength allValidIndices true sampled ↔
      i ∈ allValidIndices ∧ i < seqLength ∧ ∃ s ∈ sampled, i = s + 1 := by
  simp only [nextPool, if_true, List.mem_filter, List.mem_map, decide_eq_true_iff]
  constructor
  · rintro ⟨⟨⟨s, member, rfl⟩, positive⟩, valid⟩
    have inside := facts.inside s member
    rcases Nat.lt_or_ge (s + 1) seqLength with early | last
    · rw [Nat.mod_eq_of_lt early] at valid ⊢
      exact ⟨valid, early, s, member, rfl⟩
    · have wrapped : s + 1 = seqLength := by omega
      rw [wrapped, Nat.mod_self] at positive
      exact absurd rfl positive
  · rintro ⟨valid, early, s, member, rfl⟩
    exact ⟨⟨⟨s, member, Nat.mod_eq_of_lt early⟩, by omega⟩, valid⟩

theorem nextPool_facts {sampled : List Nat} (facts : Pool seqLength allValidIndices sampled) :
    Pool seqLength allValidIndices (nextPool seqLength allValidIndices true sampled) where
  valid i member := ((mem_nextPool facts).mp member).1
  inside i member := ((mem_nextPool facts).mp member).2.1
  increasing := by
    -- only the last position may wrap around, and then it is dropped
    have shifted : nextPool seqLength allValidIndices true sampled =
        ((sampled.map (· + 1)).filter (· < seqLength)).filter (· ∈ allValidIndices) := by
      simp only [nextPool, if_true]
      congr 1
      have inside := facts.inside
      clear facts
      induction sampled with
      | nil => rfl
      | cons s sampled ih =>
        rw [List.map_cons, List.map_cons, List.filter_cons, List.filter_cons,
          ih fun i member => inside i (List.mem_cons_of_mem _ member)]
        have first := inside s List.mem_cons_self
        rcases Nat.lt_or_ge (s + 1) seqLength with early | last
        · simp [Nat.mod_eq_of_lt early, early]
        · have wrapped : s + 1 = seqLength := by omega
          simp [wrapped]
    rw [shifted]
    apply List.Pairwise.filter
    apply List.Pairwise.filter
    exact List.pairwise_map.mpr (facts.increasing.imp fun less => Nat.add_lt_add_right less 1)

/-- What holds of the anchors at depth `d`; `previous` are the anchors one depth before. -/
structure Depth (seqLength : Nat) (allValidIndices : List Nat) (numSeeds d : Nat) (previous anchors : List Int) :
    Prop where
  increasing : anchors.Pairwise (· < ·)
  few : anchors.length ≤ numSeeds - d
  target : ∀ a ∈ anchors, ∃ i ∈ allValidIndices, i < seqLength ∧ a + d = i
  chained : ∀ a ∈ anchors, a ∈ previous

def offsets (pool : List Nat) (d : Nat) : List Int := pool.map fun (i : Nat) => (i : Int) - d

theorem depth_of_part {d : Nat} {pool sampled : List Nat} (facts : Pool seqLength allValidIndices pool)
    (part : sampled.Sublist pool) (bounded : sampled.length ≤ numSeeds - d) :
    Depth seqLength allValidIndices numSeeds d (offsets pool d) (offsets sampled d) where
  increasing := by
    refine List.pairwise_map.mpr ((facts.part part).increasing.imp fun less => ?_)
    omega
  few := (List.length_map _).trans_le bounded
  target := by
    intro a member
    obtain ⟨i, held, rfl⟩ := List.mem_map.mp member
    exact ⟨i, facts.valid i (part.subset held), facts.inside i (part.subset held), Int.sub_add_cancel _ _⟩
  chained _ member := List.map_subset _ part.subset member

/-- The depths of a run, each chained to the one before and the first to the pool. -/
theorem Rounds.depths {d : Nat} {pool : List Nat} {rounds : List (List Int)}
    (run : Rounds seqLength allValidIndices numSeeds d pool rounds)
    (facts : Pool seqLength allValidIndices pool) :
    ∀ (e : Nat) (anchors : List Int), rounds[e]? = some anchors →
      ∃ previous, (offsets pool d :: rounds)[e]? = some previous ∧
        Depth seqLength allValidIndices numSeeds (d + e) previous anchors := by
  induction run with
  | stop => exact fun e anchors held => absurd held (by simp)
  | @keep d pool sampled later part bounded rest ih =>
    have sampledFacts := facts.part part
    intro e anchors held
    cases e with
    | zero =>
      obtain rfl := Option.some.inj held
      exact ⟨_, rfl, depth_of_part facts part bounded⟩
    | succ e =>
      obtain ⟨previous, before, depth⟩ := ih (nextPool_facts sampledFacts) e anchors held
      rw [Nat.add_right_comm] at depth
      cases e with
      | succ e => exact ⟨previous, before, depth⟩
      | zero =>
        obtain rfl := Option.some.inj before
        refine ⟨_, rfl, depth.increasing, depth.few, depth.target, fun a member => ?_⟩
        obtain ⟨i, next, rfl⟩ := List.mem_map.mp (depth.chained a member)
        obtain ⟨-, -, s, drawn, rfl⟩ := (mem_nextPool sampledFacts).mp next
        exact List.mem_map.mpr ⟨s, drawn, by omega⟩

end Rounds

section Refines

variable {seqLength : Nat} {allValidIndices : List Nat} {pow : ℚ → Nat → ℚ} {round : ℚ → ℚ}
  {downSampleRatio downSampleRatioMin : ℚ} {randperm : Nat → Nat → List Nat}

/-- No number of elements up to the whole is rounded beyond it. -/
theorem sampleSize_le (powAtMost : ∀ r d, 0 < r → r ≤ 1 → pow r d ≤ 1) (monotone : Monotone round) {numSeeds : Nat}
    (exact : ∀ n ≤ numSeeds, round n = n) (positive : 0 < downSampleRatio) (atMost : downSampleRatio ≤ 1)
    (minAtMost : downSampleRatioMin ≤ 1) (d : Nat) :
    sampleSize pow round downSampleRatio downSampleRatioMin numSeeds d ≤ numSeeds - d := by
  have ratio : max (pow downSampleRatio d) downSampleRatioMin ≤ 1 :=
    max_le (powAtMost downSampleRatio d positive atMost) minAtMost
  have product : ((numSeeds - d : Nat) : ℚ) * max (pow downSampleRatio d) downSampleRatioMin ≤ (numSeeds - d : Nat) :=
    mul_le_of_le_one_right (Nat.cast_nonneg _) ratio
  rw [sampleSize, Int.toNat_le]
  calc ⌊round ((numSeeds - d : Nat) * max (pow downSampleRatio d) downSampleRatioMin)⌋
      ≤ ⌊round (numSeeds - d : Nat)⌋ := Int.floor_le_floor (monotone product)
    _ = (numSeeds - d : Nat) := by rw [exact _ (Nat.sub_le _ _), Int.floor_natCast]

/-- Every permutation drawn gives a run. -/
theorem codRounds_rounds {numSeeds : Nat}
    (bounded : ∀ d, sampleSize pow round downSampleRatio downSampleRatioMin numSeeds d ≤ numSeeds - d)
    (permutes : ∀ d m, (randperm d m).Perm (List.range m)) (depths d : Nat) {pool : List Nat}
    (facts : Pool seqLength allValidIndices pool) :
    ∃ rounds, codRounds seqLength allValidIndices true pow round downSampleRatio downSampleRatioMin randperm numSeeds
        depths d pool = some rounds ∧ Rounds seqLength allValidIndices numSeeds d pool rounds := by
  induction depths generalizing d pool with
  | zero => exact ⟨[], rfl, .stop d pool⟩
  | succ depths ih =>
    rw [codRounds]
    have size := bounded d
    generalize sampleSize pow round downSampleRatio downSampleRatioMin numSeeds d = sampleSize at size
    dsimp only
    split
    next => exact ⟨[], rfl, .stop d pool⟩
    next =>
      split
      next enough =>
        obtain ⟨drawn, picked, -⟩ := draw_subperm (permutes d pool.length) sampleSize
        obtain ⟨part, count⟩ := sortedDraw_sublist facts.increasing (permutes d pool.length) picked
        obtain ⟨later, ran, rest⟩ := ih (d + 1) (nextPool_facts (facts.part part))
        refine ⟨_, ?_, .keep part (by omega) rest⟩
        simp only [picked, ran, Option.map_some, Option.bind_eq_bind, Option.bind_some]
      next few =>
        obtain ⟨later, ran, rest⟩ := ih (d + 1) (nextPool_facts facts)
        refine ⟨_, ?_, .keep (List.Sublist.refl pool) (by omega) rest⟩
        simp only [ran, Option.bind_eq_bind, Option.bind_some]

theorem trainable_pool (lossMask : List ℚ) : Pool lossMask.length (trainable lossMask) (trainable lossMask) where
  increasing := List.pairwise_lt_range.filter _
  valid _ := id
  inside _ member := List.mem_range.mp (List.mem_filter.mp member).1

theorem seedIndices_pool (lossMask : List ℚ) (maxAnchors : Option Nat)
    (permutes : ∀ d m, (randperm d m).Perm (List.range m)) :
    ∃ seeds, seedIndices lossMask maxAnchors randperm = some seeds ∧
      Pool lossMask.length (trainable lossMask) seeds := by
  have facts := trainable_pool lossMask
  unfold seedIndices
  cases maxAnchors with
  | none => exact ⟨_, rfl, facts⟩
  | some maxAnchors =>
    dsimp only
    split
    next =>
      obtain ⟨drawn, picked, -⟩ := draw_subperm (permutes 0 (trainable lossMask).length) maxAnchors
      obtain ⟨part, -⟩ := sortedDraw_sublist facts.increasing (permutes 0 _) picked
      exact ⟨_, by rw [picked, Option.map_some], facts.part part⟩
    next => exact ⟨_, rfl, facts⟩

end Refines

section Elements

def elements (k : Nat) (rounds : List (List Int)) : List (Int × Nat) :=
  (rounds.mapIdx fun d anchors => anchors.map fun a => (a, d + k)).flatten

theorem elements_cons (k : Nat) (anchors : List Int) (rounds : List (List Int)) :
    elements k (anchors :: rounds) = (anchors.map fun a => (a, k)) ++ elements (k + 1) rounds := by
  rw [elements, List.mapIdx_cons, List.flatten_cons, Nat.zero_add, elements]
  congr 3
  funext d anchors
  rw [Nat.add_assoc, Nat.add_comm 1 k]

theorem zip_depths (k : Nat) (rounds : List (List Int)) :
    rounds.flatten.zip (rounds.mapIdx fun d indices => List.replicate indices.length (d + k)).flatten =
      elements k rounds := by
  induction rounds generalizing k with
  | nil => rfl
  | cons anchors rounds ih =>
    have first : anchors.zip (List.replicate anchors.length k) = anchors.map fun a => (a, k) := by
      apply List.ext_getElem (by simp)
      intro i _ _
      simp
    have later : (fun (d : Nat) (indices : List Int) => List.replicate indices.length (d + 1 + k)) =
        fun d indices => List.replicate indices.length (d + (k + 1)) := by
      funext d indices
      rw [Nat.add_assoc, Nat.add_comm 1 k]
    rw [List.mapIdx_cons, List.flatten_cons, List.flatten_cons, List.zip_append (by simp), Nat.zero_add, first, later,
      ih, elements_cons]

theorem mem_elements {k d : Nat} {a : Int} {rounds : List (List Int)} :
    (a, d + k) ∈ elements k rounds ↔ ∃ anchors, rounds[d]? = some anchors ∧ a ∈ anchors := by
  simp only [elements, List.mem_flatten, List.mem_mapIdx]
  constructor
  · rintro ⟨_, ⟨e, bounded, rfl⟩, member⟩
    obtain ⟨b, held, same⟩ := List.mem_map.mp member
    obtain ⟨rfl, level⟩ := Prod.mk.inj same
    obtain rfl : e = d := by omega
    exact ⟨_, List.getElem?_eq_getElem bounded, held⟩
  · rintro ⟨anchors, entry, held⟩
    obtain ⟨bounded, rfl⟩ := List.getElem?_eq_some_iff.mp entry
    exact ⟨_, ⟨d, bounded, rfl⟩, List.mem_map.mpr ⟨a, held, rfl⟩⟩

theorem filter_elements (k d : Nat) (rounds : List (List Int)) :
    ((elements k rounds).filter (·.2 = d + k)).map (·.1) = (rounds[d]?).getD [] := by
  induction rounds generalizing k d with
  | nil => rfl
  | cons anchors rounds ih =>
    rw [elements_cons, List.filter_append, List.map_append]
    cases d with
    | zero =>
      have first : (anchors.map fun a => (a, k)).filter (·.2 = 0 + k) = anchors.map fun a => (a, k) := by
        rw [List.filter_eq_self]
        intro element member
        obtain ⟨a, -, rfl⟩ := List.mem_map.mp member
        simp
      have later : (elements (k + 1) rounds).filter (·.2 = 0 + k) = [] := by
        rw [List.filter_eq_nil_iff]
        rintro ⟨a, d⟩ member
        simp only [elements, List.mem_flatten, List.mem_mapIdx] at member
        obtain ⟨_, ⟨e, _, rfl⟩, held⟩ := member
        obtain ⟨b, -, same⟩ := List.mem_map.mp held
        obtain ⟨-, rfl⟩ := Prod.mk.inj same
        simp
        omega
      rw [first, later, List.map_map, List.map_nil, List.append_nil]
      exact List.map_id anchors
    | succ d =>
      have first : (anchors.map fun a => (a, k)).filter (·.2 = d + 1 + k) = [] := by
        rw [List.filter_eq_nil_iff]
        intro element member
        obtain ⟨a, -, rfl⟩ := List.mem_map.mp member
        simp
      rw [first, Nat.add_assoc, Nat.add_comm 1 k, ih]
      rfl

end Elements

/-- A sample as the masks and the targets rely on it. -/
structure WellFormed (seqLength : Nat) (lossMask : List ℚ) (numSeeds : Nat) (anchorPos : List Int)
    (depth : List Nat) : Prop where
  inside : ∀ a d, (a, d) ∈ anchorPos.zip depth → 0 ≤ a ∧ a + d < seqLength
  target : ∀ a d, (a, d) ∈ anchorPos.zip depth → 1 ≤ d → (a + d).toNat ∈ trainable lossMask
  increasing : ∀ d, (atDepth anchorPos depth d).Pairwise (· < ·)
  closed : ∀ a d, (a, d + 1) ∈ anchorPos.zip depth → (a, d) ∈ anchorPos.zip depth
  few : ∀ d, (atDepth anchorPos depth d).length ≤ numSeeds - d

/-- The same without the chain of anchor `-1`, which begins where position 0 itself is drawn, and
without a bound at depth 0. -/
structure ChainsWellFormed (seqLength : Nat) (lossMask : List ℚ) (numSeeds : Nat) (anchorPos : List Int)
    (depth : List Nat) : Prop where
  inside : ∀ a d, (a, d) ∈ anchorPos.zip depth → a ≠ -1 → 0 ≤ a ∧ a + d < seqLength
  target : ∀ a d, (a, d) ∈ anchorPos.zip depth → 1 ≤ d → (a + d).toNat ∈ trainable lossMask
  increasing : ∀ d, (atDepth anchorPos depth d).Pairwise (· < ·)
  closed : ∀ a d, (a, d + 1) ∈ anchorPos.zip depth → a ≠ -1 → (a, d) ∈ anchorPos.zip depth
  few : ∀ d, 1 ≤ d → (atDepth anchorPos depth d).length ≤ numSeeds - d
  whole : atDepth anchorPos depth 0 = (List.range seqLength).map Nat.cast
  begun : ∀ d, (-1, d) ∈ anchorPos.zip depth → (-1, 1) ∈ anchorPos.zip depth

section Sample

variable {seqLength : Nat} {lossMask : List ℚ} {seeds : List Nat} {rounds : List (List Int)}

def levels (seqLength : Nat) (rounds : List (List Int)) : List (List Int) :=
  (List.range seqLength).map Nat.cast :: rounds

theorem mem_base {a : Int} : (a, 0) ∈ elements 0 (levels seqLength rounds) ↔ 0 ≤ a ∧ a < seqLength := by
  have entry : (a, 0) ∈ elements 0 (levels seqLength rounds) ↔
      ∃ anchors, (levels seqLength rounds)[0]? = some anchors ∧ a ∈ anchors := mem_elements
  rw [entry]
  constructor
  · rintro ⟨anchors, first, member⟩
    obtain rfl := Option.some.inj first
    obtain ⟨i, position, rfl⟩ := List.mem_map.mp member
    have inside := List.mem_range.mp position
    omega
  · rintro ⟨low, high⟩
    exact ⟨_, rfl, List.mem_map.mpr ⟨a.toNat, List.mem_range.mpr (by omega), Int.toNat_of_nonneg low⟩⟩

variable (run : Rounds seqLength (trainable lossMask) seeds.length 1 seeds rounds)
  (facts : Pool seqLength (trainable lossMask) seeds)

include run facts

theorem mem_level {a : Int} {d : Nat} (member : (a, d + 1) ∈ elements 0 (levels seqLength rounds)) :
    ∃ i ∈ trainable lossMask, i < seqLength ∧ a + (d + 1 : Nat) = i := by
  obtain ⟨anchors, entry, held⟩ := mem_elements.mp member
  obtain ⟨previous, -, depth⟩ := run.depths facts d anchors entry
  rw [Nat.add_comm]
  exact depth.target a held

theorem previous_level {a : Int} {d : Nat} (member : (a, d + 1) ∈ elements 0 (levels seqLength rounds))
    (other : a ≠ -1 ∨ d ≠ 0) : (a, d) ∈ elements 0 (levels seqLength rounds) := by
  obtain ⟨anchors, entry, held⟩ := mem_elements.mp member
  obtain ⟨previous, before, depth⟩ := run.depths facts d anchors entry
  have chained := depth.chained a held
  cases d with
  | zero =>
    obtain rfl := Option.some.inj before
    obtain ⟨i, seed, rfl⟩ := List.mem_map.mp chained
    have inside := facts.inside i seed
    have first : (i : Int) - (1 : Nat) ≠ -1 := other.resolve_right (fun none => none rfl)
    exact mem_base.mpr (by omega)
  | succ d => exact mem_elements.mpr ⟨previous, before, chained⟩

theorem nonneg_of_mem {a : Int} {d : Nat} (member : (a, d) ∈ elements 0 (levels seqLength rounds)) (other : a ≠ -1) :
    0 ≤ a := by
  induction d with
  | zero => exact (mem_base.mp member).1
  | succ d ih => exact ih (previous_level run facts member (.inl other))

theorem begun_of_mem {d : Nat} (member : (-1, d + 1) ∈ elements 0 (levels seqLength rounds)) :
    (-1, 1) ∈ elements 0 (levels seqLength rounds) := by
  induction d with
  | zero => exact member
  | succ d ih => exact ih (previous_level run facts member (.inr (Nat.succ_ne_zero d)))

/-- Rounds of chains under the depth that holds every position. -/
theorem chainsWellFormed : ChainsWellFormed seqLength lossMask seeds.length (levels seqLength rounds).flatten
    ((levels seqLength rounds).mapIdx fun d (indices : List Int) => List.replicate indices.length d).flatten := by
  have zipped : (levels seqLength rounds).flatten.zip ((levels seqLength rounds).mapIdx
      fun d (indices : List Int) => List.replicate indices.length d).flatten =
        elements 0 (levels seqLength rounds) := zip_depths 0 _
  have atLevel (d : Nat) : atDepth (levels seqLength rounds).flatten ((levels seqLength rounds).mapIdx
      fun d (indices : List Int) => List.replicate indices.length d).flatten d =
        ((levels seqLength rounds)[d]?).getD [] := by
    rw [atDepth, zipped]
    exact filter_elements 0 d _
  constructor
  case inside =>
    rw [zipped]
    intro a d member other
    refine ⟨nonneg_of_mem run facts member other, ?_⟩
    cases d with
    | zero =>
      have base := mem_base.mp member
      omega
    | succ d =>
      obtain ⟨i, -, inside, position⟩ := mem_level run facts member
      omega
  case target =>
    rw [zipped]
    rintro a (_ | d) member later
    · exact absurd later (by decide)
    · obtain ⟨i, valid, -, position⟩ := mem_level run facts member
      rwa [position, Int.toNat_natCast]
  case increasing =>
    intro d
    rw [atLevel]
    cases entry : (levels seqLength rounds)[d]? with
    | none => exact List.Pairwise.nil
    | some anchors =>
      cases d with
      | zero =>
        obtain rfl := Option.some.inj entry
        exact List.pairwise_map.mpr (List.pairwise_lt_range.imp Int.ofNat_lt.mpr)
      | succ d =>
        obtain ⟨_, -, depth⟩ := run.depths facts d anchors entry
        exact depth.increasing
  case closed =>
    rw [zipped]
    exact fun a d member other => previous_level run facts member (.inl other)
  case few =>
    rintro (_ | d) later
    · exact absurd later (by decide)
    · rw [atLevel]
      cases entry : (levels seqLength rounds)[d + 1]? with
      | none => exact Nat.zero_le _
      | some anchors =>
        obtain ⟨_, -, depth⟩ := run.depths facts d anchors entry
        exact Nat.add_comm 1 d ▸ depth.few
  case whole => exact atLevel 0
  case begun =>
    rw [zipped]
    rintro (_ | d) member
    · exact absurd (mem_base.mp member).1 (by decide)
    · exact begun_of_mem run facts member

end Sample

section Generate

variable {pow : ℚ → Nat → ℚ} {round : ℚ → ℚ} {lossMask : List ℚ} {downSampleRatio downSampleRatioMin : ℚ}
  {randperm : Nat → Nat → List Nat}

/-- What is returned are the levels of a run. -/
theorem generateCodSampleIndices_levels (powAtMost : ∀ r d, 0 < r → r ≤ 1 → pow r d ≤ 1) (monotone : Monotone round)
    (exact : ∀ n ≤ lossMask.length, round n = n) (numDepths : Nat) (maxAnchors : Option Nat)
    (positive : 0 < downSampleRatio) (atMost : downSampleRatio ≤ 1) (minAtMost : downSampleRatioMin ≤ 1)
    (permutes : ∀ d m, (randperm d m).Perm (List.range m)) :
    ∃ seeds rounds, seedIndices lossMask maxAnchors randperm = some seeds ∧
      Pool lossMask.length (trainable lossMask) seeds ∧
      Rounds lossMask.length (trainable lossMask) seeds.length 1 seeds rounds ∧
      generateCodSampleIndices pow round lossMask.length lossMask numDepths downSampleRatio downSampleRatioMin true
          maxAnchors randperm =
        some ((levels lossMask.length rounds).flatten, ((levels lossMask.length rounds).mapIdx
          fun d (indices : List Int) => List.replicate indices.length d).flatten) := by
  obtain ⟨seeds, started, facts⟩ := seedIndices_pool lossMask maxAnchors permutes
  have few : seeds.length ≤ lossMask.length := facts.length_le
  have bounded := sampleSize_le powAtMost monotone (fun n small => exact n (small.trans few)) positive atMost minAtMost
  obtain ⟨rounds, ran, run⟩ := codRounds_rounds bounded permutes (numDepths - 1) 1 facts
  refine ⟨seeds, rounds, started, facts, run, ?_⟩
  rw [generateCodSampleIndices, started, Option.bind_eq_bind, Option.bind_some, ran, Option.bind_eq_bind,
    Option.bind_some]
  rfl

end Generate

/-- Every chain but the one of anchor `-1` is closed, whatever is drawn, and however powers and products are rounded. -/
theorem generateCodSampleIndices_chains (pow : ℚ → Nat → ℚ) (round : ℚ → ℚ)
    (powAtMost : ∀ r d, 0 < r → r ≤ 1 → pow r d ≤ 1) (monotone : Monotone round) (seqLength : Nat)
    (exact : ∀ n ≤ seqLength, round n = n) (lossMask : List ℚ) (numDepths : Nat)
    (downSampleRatio downSampleRatioMin : ℚ) (maxAnchors : Option Nat) (randperm : Nat → Nat → List Nat)
    (masked : lossMask.length = seqLength) (positive : 0 < downSampleRatio) (atMost : downSampleRatio ≤ 1)
    (minAtMost : downSampleRatioMin ≤ 1) (permutes : ∀ d m, (randperm d m).Perm (List.range m)) :
    ∃ seeds anchorPos depth, seedIndices lossMask maxAnchors randperm = some seeds ∧
      generateCodSampleIndices pow round seqLength lossMask numDepths downSampleRatio downSampleRatioMin true maxAnchors
        randperm = some (anchorPos, depth) ∧
      ChainsWellFormed seqLength lossMask seeds.length anchorPos depth := by
  subst masked
  obtain ⟨seeds, rounds, started, facts, run, returned⟩ :=
    generateCodSampleIndices_levels powAtMost monotone exact numDepths maxAnchors positive atMost minAtMost permutes
  exact ⟨seeds, _, _, started, returned, chainsWellFormed run facts⟩

/-- Rounding to the nearest multiple of `2 ^ -47`, which is the format's for numbers from 32 to 64. -/
def roundNear (q : ℚ) : ℚ := ⌊q * 2 ^ 47 + 1 / 2⌋ / 2 ^ 47

theorem roundNear_monotone : Monotone roundNear := by
  intro p q less
  unfold roundNear
  gcongr

theorem roundNear_natCast (n : Nat) : roundNear n = n := by
  have whole : (n : ℚ) * 2 ^ 47 + 1 / 2 = ((n * 2 ^ 47 : Nat) : ℚ) + 1 / 2 := by push_cast; rfl
  have half : ⌊(1 / 2 : ℚ)⌋ = 0 := by norm_num
  rw [roundNear, whole, Int.floor_natCast_add, half]
  rw [add_zero, Int.cast_natCast, Nat.cast_mul, Nat.cast_pow, Nat.cast_ofNat, mul_div_cancel_right₀ _ (by positivity)]

/-- The powers of 0.6 that two depths take. -/
def powNear (r : ℚ) (d : Nat) : ℚ :=
  if d = 2 ∧ r = 5404319552844595 / 2 ^ 53 then 6485183463413514 / 2 ^ 54 else r ^ d

/-- With 102 seeds and a ratio of 0.6 the product at depth 2 is rounded up to 36. -/
theorem generateCodSampleIndices_chains_rounded :
    sampleSize powNear roundNear (5404319552844595 / 2 ^ 53) (3602879701896397 / 2 ^ 54) 102 2 = 36 ∧
    ∃ seeds anchorPos depth, seedIndices (0 :: List.replicate 103 1) (some 102) (fun _ m => List.range m) = some seeds ∧
      generateCodSampleIndices powNear roundNear 104 (0 :: List.replicate 103 1) 3 (5404319552844595 / 2 ^ 53)
        (3602879701896397 / 2 ^ 54) true (some 102) (fun _ m => List.range m) = some (anchorPos, depth) ∧
      ChainsWellFormed 104 (0 :: List.replicate 103 1) seeds.length anchorPos depth := by
  have product : ⌊roundNear (((102 - 2 : Nat) : ℚ) * max (powNear (5404319552844595 / 2 ^ 53) 2)
      (3602879701896397 / 2 ^ 54))⌋ = 36 := by norm_num [powNear, roundNear]
  refine ⟨by rw [sampleSize, product]; rfl, ?_⟩
  refine generateCodSampleIndices_chains powNear roundNear (fun r d positive atMost => ?_) roundNear_monotone 104
    (fun n _ => roundNear_natCast n) (0 :: List.replicate 103 1) 3 _ _ (some 102) (fun _ m => List.range m) rfl
    (by norm_num) (by norm_num) (by norm_num) (fun _ _ => .refl _)
  rw [powNear]
  split
  · norm_num
  · exact pow_le_one₀ positive.le atMost

/-- Depth 0 holds every position, two of which are trainable here; and position 0, drawn at depth 1,
gives an anchor in front of the sequence. -/
theorem generateCodSampleIndices_notWellFormed :
    (seedIndices [0, 1, 1] none (fun _ m => List.range m) = some [1, 2] ∧
      generateCodSampleIndices (· ^ ·) id 3 [0, 1, 1] 2 1 1 true none (fun _ m => List.range m) =
        some ([0, 1, 2, 0], [0, 0, 0, 1]) ∧
      ¬WellFormed 3 [0, 1, 1] 2 [0, 1, 2, 0] [0, 0, 0, 1]) ∧
    seedIndices [1, 1, 1] none (fun _ m => List.range m) = some [0, 1, 2] ∧
      generateCodSampleIndices (· ^ ·) id 3 [1, 1, 1] 2 1 1 true none (fun _ m => List.range m) =
        some ([0, 1, 2, -1, 0], [0, 0, 0, 1, 1]) ∧
      ¬WellFormed 3 [1, 1, 1] 3 [0, 1, 2, -1, 0] [0, 0, 0, 1, 1] := by
  refine ⟨⟨by decide +kernel, by decide +kernel, fun claimed => ?_⟩, by decide +kernel, by decide +kernel,
    fun claimed => ?_⟩
  · exact absurd (claimed.few 0) (by decide)
  · exact absurd (claimed.inside (-1) 1 (by decide)).1 (by decide)

end DreamAifd.CodSampling
