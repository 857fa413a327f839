import Mathlib

/-! Accuracy counts over the test-time-training steps of EAGLE-3. Step `s` scores row `t` against
the target of position `t + s`; one boolean row is cut from its end at every step and updated in
place through the cut. -/
namespace DreamAifd.ConditionalAccuracy

structure StepCounts where
  fullSum : Nat
  fullTotal : Nat
  condSum : Nat
  condTotal : Nat
  deriving DecidableEq

def maskedSelect (rows mask : List Bool) : List Bool := ((rows.zip mask).filter (·.2)).map (·.1)

def computeAccuracySingleStep (predIds targetIds : List Nat) (lossMask prevCorrect : Option (List Bool)) :
    StepCounts × Option (List Bool) :=
  let correct := List.zipWith (· == ·) predIds targetIds
  let condTotal := prevCorrect.elim correct.length (·.count true)
  let correct := prevCorrect.elim correct fun prev => List.zipWith (· && ·) prev correct
  let selected := lossMask.elim correct (maskedSelect correct)
  ({ fullSum := selected.count true, fullTotal := selected.length, condSum := selected.count true, condTotal },
    prevCorrect.map fun _ => correct)

section Code

variable {ω : Type*} (argmax : ω → Nat)

/-- `rows[:, :-ttt_step]`, or all rows at step 0. -/
def draftStarts {β : Type*} (tttStep : Nat) (rows : List β) : List β :=
  if 0 < tttStep then rows.take (rows.length - tttStep) else rows

def alignForStep (logits targets : List ω) (lossMask prevCorrect : Option (List Bool)) (tttStep : Nat) :
    List ω × List ω × Option (List Bool) × Option (List Bool) :=
  (draftStarts tttStep logits, targets.drop tttStep, lossMask.map (·.drop tttStep), prevCorrect.map (draftStarts tttStep))

/-- The counts of `compute_metrics`; the rows of `prev_correct` in front of the cut are replaced. -/
def computeMetrics (logits targets : List ω) (lossMask prevCorrect : Option (List Bool)) (tttStep : Nat) :
    StepCounts × Option (List Bool) :=
  let (sLogits, sTargets, sLossMask, sPrevCorrect) := alignForStep logits targets lossMask prevCorrect tttStep
  let sLossMask := sLossMask.getD (List.replicate sLogits.length true)
  let (counts, updated) := computeAccuracySingleStep (sLogits.map argmax) (sTargets.map argmax) (some sLossMask)
    sPrevCorrect
  (counts, Option.map₂ (fun updated prev => updated ++ prev.drop updated.length) updated prevCorrect)

variable (logits : Nat → List ω) (targets : List ω) (lossMask : Option (List Bool))

/-- The loop of the forward; `logits s` is what the draft head returns at step `s`. -/
def tttLoop : Nat → Nat → Option (List Bool) → List StepCounts
  | 0, _, _ => []
  | steps + 1, tttStep, prevCorrect =>
    let (counts, prevCorrect) := computeMetrics argmax (logits tttStep) targets lossMask prevCorrect tttStep
    counts :: tttLoop steps (tttStep + 1) prevCorrect

def forwardCounts (tttSteps : Nat) : List StepCounts :=
  tttLoop argmax logits targets lossMask tttSteps 0 (some (lossMask.getD (List.replicate targets.length true)))

def Supervised (t : Nat) : Prop := lossMask.elim True fun mask => mask[t]? = some true

def Correct (s t : Nat) : Prop := ((logits s)[t]?).map argmax = (targets[t + s]?).map argmax

instance : (lossMask : Option (List Bool)) → DecidablePred (Supervised lossMask)
  | none => fun _ => .isTrue trivial
  | some mask => fun t => inferInstanceAs (Decidable (mask[t]? = some true))

instance : DecidableRel (Correct argmax logits targets) := fun s t =>
  inferInstanceAs (Decidable (((logits s)[t]?).map argmax = (targets[t + s]?).map argmax))

structure Meant (s : Nat) (counts : StepCounts) : Prop where
  condTotal : counts.condTotal = Nat.count (fun t => Supervised lossMask (t + s) ∧
    ∀ r < s, Supervised lossMask (t + r) ∧ Correct argmax logits targets r t) (targets.length - s)
  condSum : counts.condSum = Nat.count (fun t => (Supervised lossMask (t + s) ∧
    ∀ r < s, Supervised lossMask (t + r) ∧ Correct argmax logits targets r t) ∧ Correct argmax logits targets s t)
      (targets.length - s)
  fullTotal : counts.fullTotal = Nat.count (fun t => Supervised lossMask (t + s)) (targets.length - s)
  fullSum : counts.fullSum = Nat.count (fun t => Supervised lossMask (t + s) ∧
    ∀ r ≤ s, Correct argmax logits targets r t) (targets.length - s)

/-- Rows that were correct so far keep their supervision, and rows that end up correct had it. -/
def KeepsSupervision (s : Nat) : Prop := ∀ t < targets.length - s,
  (Supervised lossMask t → (∀ r < s, Correct argmax logits targets r t) → ∀ r ≤ s, Supervised lossMask (t + r)) ∧
  (Supervised lossMask (t + s) → (∀ r ≤ s, Correct argmax logits targets r t) → Supervised lossMask t)

end Code

section Marks

variable {P Q : Nat → Prop} [DecidablePred P] [DecidablePred Q] {n : Nat}

def marks (n : Nat) (P : Nat → Prop) [DecidablePred P] : List Bool := (List.range n).map fun t => decide (P t)

@[simp] theorem length_marks : (marks n P).length = n := by rw [marks, List.length_map, List.length_range]

@[simp] theorem getElem_marks {t : Nat} (inside : t < (marks n P).length) : (marks n P)[t] = decide (P t) := by
  simp [marks]

theorem marks_congr (same : ∀ t < n, P t ↔ Q t) : marks n P = marks n Q := by
  apply List.map_congr_left
  intro t member
  rw [decide_eq_decide]
  exact same t (List.mem_range.mp member)

theorem take_marks {k : Nat} (less : k ≤ n) : (marks n P).take k = marks k P := by
  rw [marks, ← List.map_take, List.take_range, Nat.min_eq_left less, marks]

theorem count_marks : (marks n P).count true = Nat.count P n := by
  rw [marks, List.count, List.countP_map, Nat.count]
  congr 1
  funext t
  simp

theorem zipWith_marks : List.zipWith (· && ·) (marks n P) (marks n Q) = marks n fun t => P t ∧ Q t := by
  rw [marks, marks, List.zipWith_map, List.zipWith_self, marks]
  simp

theorem maskedSelect_marks : maskedSelect (marks n P) (marks n Q) =
    ((List.range n).filter fun t => decide (Q t)).map fun t => decide (P t) := by
  rw [maskedSelect, marks, marks, List.zip_map', List.filter_map, List.map_map]
  rfl

theorem length_maskedSelect : (maskedSelect (marks n P) (marks n Q)).length = Nat.count Q n := by
  rw [maskedSelect_marks, List.length_map, Nat.count, List.countP_eq_length_filter]

theorem count_maskedSelect :
    (maskedSelect (marks n P) (marks n Q)).count true = Nat.count (fun t => P t ∧ Q t) n := by
  rw [maskedSelect_marks, List.count, List.countP_map, List.countP_filter, Nat.count]
  congr 1
  funext t
  simp

end Marks

section Step

variable {ω : Type*} {argmax : ω → Nat} {logits : Nat → List ω} {targets : List ω} {lossMask : Option (List Bool)}
  {s : Nat}

theorem draftStarts_eq {β : Type*} (tttStep : Nat) (rows : List β) :
    draftStarts tttStep rows = rows.take (rows.length - tttStep) := by
  rw [draftStarts]
  split
  next => rfl
  next first => rw [Nat.eq_zero_of_not_pos first, Nat.sub_zero, List.take_length]

theorem correct_marks (rows : (logits s).length = targets.length) :
    List.zipWith (· == ·) ((draftStarts s (logits s)).map argmax) ((targets.drop s).map argmax) =
      marks (targets.length - s) (Correct argmax logits targets s) := by
  rw [draftStarts_eq]
  apply List.ext_getElem
  · simp [rows]
  · intro t left right
    have inside : t < targets.length - s := by simpa using right
    have scored : t + s < targets.length := by omega
    have drafted : t < (logits s).length := by omega
    simp [Correct, List.getElem?_eq_getElem scored, List.getElem?_eq_getElem drafted, Nat.add_comm s t, beq_eq_decide]

theorem mask_marks (masked : ∀ mask, lossMask = some mask → mask.length = targets.length) :
    (lossMask.map (·.drop s)).getD (List.replicate (targets.length - s) true) =
      marks (targets.length - s) fun t => Supervised lossMask (t + s) := by
  cases lossMask with
  | none =>
    apply List.ext_getElem (by simp)
    intro t _ _
    rw [getElem_marks]
    exact (List.getElem_replicate _).trans (decide_eq_true trivial).symm
  | some mask =>
    have size := masked mask rfl
    apply List.ext_getElem
    · simp [size]
    · intro t left _
      have inside : t + s < mask.length := by
        simp at left
        omega
      rw [getElem_marks]
      simp [Supervised, Nat.add_comm s t, List.getElem?_eq_getElem inside]

variable {P : Nat → Prop} [DecidablePred P]

/-- What one step does to the rows that were correct so far. -/
theorem computeMetrics_eq (rows : (logits s).length = targets.length)
    (masked : ∀ mask, lossMask = some mask → mask.length = targets.length) :
    computeMetrics argmax (logits s) targets lossMask (some (marks targets.length P)) s =
      ({ fullSum := Nat.count (fun t => (P t ∧ Correct argmax logits targets s t) ∧ Supervised lossMask (t + s))
          (targets.length - s)
         fullTotal := Nat.count (fun t => Supervised lossMask (t + s)) (targets.length - s)
         condSum := Nat.count (fun t => (P t ∧ Correct argmax logits targets s t) ∧ Supervised lossMask (t + s))
          (targets.length - s)
         condTotal := Nat.count P (targets.length - s) },
        some (marks targets.length fun t =>
          P t ∧ (t < targets.length - s → Correct argmax logits targets s t))) := by
  have cut : (draftStarts s (logits s)).length = targets.length - s := by
    rw [draftStarts_eq, List.length_take, rows]
    omega
  have prev : draftStarts s (marks targets.length P) = marks (targets.length - s) P := by
    rw [draftStarts_eq, length_marks, take_marks (Nat.sub_le _ _)]
  have both : List.zipWith (· && ·) (marks (targets.length - s) P)
      (List.zipWith (· == ·) ((draftStarts s (logits s)).map argmax) ((targets.drop s).map argmax)) =
        marks (targets.length - s) fun t => P t ∧ Correct argmax logits targets s t := by
    rw [correct_marks rows, zipWith_marks]
  have updated : (marks (targets.length - s) fun t => P t ∧ Correct argmax logits targets s t) ++
      (marks targets.length P).drop (targets.length - s) =
        marks targets.length fun t => P t ∧ (t < targets.length - s → Correct argmax logits targets s t) := by
    apply List.ext_getElem
    · simp
    · intro t _ bounded
      rw [getElem_marks, List.getElem_append]
      split
      next front =>
        rw [length_marks] at front
        simp [front]
      next back =>
        rw [length_marks] at back
        have position : targets.length - s + (t - (targets.length - s)) = t := by omega
        simp only [List.getElem_drop, length_marks, getElem_marks, position]
        simp [back]
  simp only [computeMetrics, alignForStep, computeAccuracySingleStep, Option.map_some, Option.elim_some, prev, cut,
    both, mask_marks masked, length_maskedSelect, count_maskedSelect, count_marks, Option.map₂_some_some,
    length_marks, updated]

end Step

section Run

variable {P Q : Nat → Prop} [DecidablePred P] [DecidablePred Q] {n : Nat}

theorem count_congr (same : ∀ t < n, P t ↔ Q t) : Nat.count P n = Nat.count Q n := by
  rw [← count_marks, ← count_marks, marks_congr same]

/-- Of two nested sets of rows, the counts agree where the sets do. -/
theorem count_eq_iff (part : ∀ t < n, P t → Q t) : Nat.count P n = Nat.count Q n ↔ ∀ t < n, Q t → P t := by
  constructor
  · intro same
    rw [Nat.count_eq_card_filter_range, Nat.count_eq_card_filter_range] at same
    have subset : (Finset.range n).filter P ⊆ (Finset.range n).filter Q := by
      intro t member
      obtain ⟨inside, held⟩ := Finset.mem_filter.mp member
      exact Finset.mem_filter.mpr ⟨inside, part t (Finset.mem_range.mp inside) held⟩
    have whole := Finset.eq_of_subset_of_card_le subset same.ge
    intro t inside held
    have member : t ∈ (Finset.range n).filter P :=
      whole ▸ Finset.mem_filter.mpr ⟨Finset.mem_range.mpr inside, held⟩
    exact (Finset.mem_filter.mp member).2
  · exact fun back => count_congr fun t inside => ⟨part t inside, back t inside⟩

variable {ω : Type*} (argmax : ω → Nat) (logits : Nat → List ω) (targets : List ω) (lossMask : Option (List Bool))

/-- The rows that `prev_correct` holds when step `s` begins. -/
def SoFar (s t : Nat) : Prop :=
  Supervised lossMask t ∧ ∀ r < s, t < targets.length - r → Correct argmax logits targets r t

instance : DecidableRel (SoFar argmax logits targets lossMask) := fun s t =>
  inferInstanceAs (Decidable (Supervised lossMask t ∧ ∀ r < s, t < targets.length - r → Correct argmax logits targets r t))

def reported (s : Nat) : StepCounts where
  fullSum := Nat.count (fun t => (SoFar argmax logits targets lossMask s t ∧ Correct argmax logits targets s t) ∧
    Supervised lossMask (t + s)) (targets.length - s)
  fullTotal := Nat.count (fun t => Supervised lossMask (t + s)) (targets.length - s)
  condSum := Nat.count (fun t => (SoFar argmax logits targets lossMask s t ∧ Correct argmax logits targets s t) ∧
    Supervised lossMask (t + s)) (targets.length - s)
  condTotal := Nat.count (SoFar argmax logits targets lossMask s) (targets.length - s)

variable {argmax logits targets lossMask}

theorem soFar_succ (s t : Nat) : SoFar argmax logits targets lossMask (s + 1) t ↔
    SoFar argmax logits targets lossMask s t ∧ (t < targets.length - s → Correct argmax logits targets s t) := by
  simp only [SoFar, Nat.lt_succ_iff_lt_or_eq, and_assoc]
  refine and_congr_right fun _ => ⟨fun all => ⟨fun r less => all r (.inl less), all s (.inr rfl)⟩, ?_⟩
  rintro ⟨earlier, last⟩ r (less | rfl)
  · exact earlier r less
  · exact last

/-- Rows in front of the cut were scored at every earlier step. -/
theorem soFar_iff {s t : Nat} (front : t < targets.length - s) : SoFar argmax logits targets lossMask s t ↔
    Supervised lossMask t ∧ ∀ r < s, Correct argmax logits targets r t := by
  refine and_congr_right fun _ => forall₂_congr fun r less => ?_
  exact ⟨fun scored => scored (by omega), fun correct _ => correct⟩

variable (rows : ∀ s, (logits s).length = targets.length)
  (masked : ∀ mask, lossMask = some mask → mask.length = targets.length)

include rows masked

theorem tttLoop_eq (steps s : Nat) :
    tttLoop argmax logits targets lossMask steps s
        (some (marks targets.length (SoFar argmax logits targets lossMask s))) =
      (List.range steps).map fun i => reported argmax logits targets lossMask (s + i) := by
  induction steps generalizing s with
  | zero => rfl
  | succ steps ih =>
    have next : (marks targets.length fun t => SoFar argmax logits targets lossMask s t ∧
        (t < targets.length - s → Correct argmax logits targets s t)) =
          marks targets.length (SoFar argmax logits targets lossMask (s + 1)) :=
      marks_congr fun t _ => (soFar_succ s t).symm
    have later : (fun i => reported argmax logits targets lossMask (s + 1 + i)) =
        (fun i => reported argmax logits targets lossMask (s + i)) ∘ Nat.succ := by
      funext i
      rw [Function.comp_apply, Nat.add_assoc, Nat.add_comm 1 i]
    rw [tttLoop, computeMetrics_eq (rows s) masked, next]
    dsimp only
    rw [ih (s + 1), List.range_succ_eq_map, List.map_cons, List.map_map, later]
    rfl

theorem forwardCounts_eq (tttSteps : Nat) : forwardCounts argmax logits targets lossMask tttSteps =
    (List.range tttSteps).map (reported argmax logits targets lossMask) := by
  have start : lossMask.getD (List.replicate targets.length true) =
      marks targets.length (SoFar argmax logits targets lossMask 0) := by
    have mask := mask_marks (s := 0) masked
    rw [Nat.sub_zero] at mask
    have whole : marks targets.length (SoFar argmax logits targets lossMask 0) =
        marks targets.length fun t => Supervised lossMask (t + 0) := by
      apply marks_congr
      intro t _
      simp [SoFar]
    rw [whole, ← mask]
    cases lossMask <;> rfl
  rw [forwardCounts, start, tttLoop_eq rows masked]
  simp only [Nat.zero_add]

omit rows masked

/-- A row that is meant for the conditional count was supervised from step 0 on. -/
theorem supervised_first {s t : Nat} (supervised : Supervised lossMask (t + s))
    (earlier : ∀ r < s, Supervised lossMask (t + r) ∧ Correct argmax logits targets r t) : Supervised lossMask t := by
  cases s with
  | zero => exact supervised
  | succ s => exact (earlier 0 (Nat.succ_pos s)).1

theorem correct_through {s t : Nat} : (∀ r ≤ s, Correct argmax logits targets r t) ↔
    (∀ r < s, Correct argmax logits targets r t) ∧ Correct argmax logits targets s t := by
  constructor
  · exact fun all => ⟨fun r less => all r less.le, all s le_rfl⟩
  · rintro ⟨earlier, last⟩ r most
    rcases most.lt_or_eq with less | rfl
    · exact earlier r less
    · exact last

theorem condTotal_iff (s : Nat) :
    (reported argmax logits targets lossMask s).condTotal = Nat.count (fun t => Supervised lossMask (t + s) ∧
        ∀ r < s, Supervised lossMask (t + r) ∧ Correct argmax logits targets r t) (targets.length - s) ↔
      ∀ t < targets.length - s, Supervised lossMask t → (∀ r < s, Correct argmax logits targets r t) →
        ∀ r ≤ s, Supervised lossMask (t + r) := by
  have part : ∀ t < targets.length - s, (Supervised lossMask (t + s) ∧
      ∀ r < s, Supervised lossMask (t + r) ∧ Correct argmax logits targets r t) →
        SoFar argmax logits targets lossMask s t := by
    rintro t front ⟨supervised, earlier⟩
    exact (soFar_iff front).mpr ⟨supervised_first supervised earlier, fun r less => (earlier r less).2⟩
  rw [reported, eq_comm, count_eq_iff part]
  refine forall₂_congr fun t front => ?_
  rw [soFar_iff front]
  constructor
  · intro back first correct r most
    obtain ⟨supervised, earlier⟩ := back ⟨first, correct⟩
    rcases most.lt_or_eq with less | rfl
    · exact (earlier r less).1
    · exact supervised
  · rintro kept ⟨first, correct⟩
    exact ⟨kept first correct s le_rfl, fun r less => ⟨kept first correct r less.le, correct r less⟩⟩

theorem fullSum_iff (s : Nat) :
    (reported argmax logits targets lossMask s).fullSum = Nat.count (fun t => Supervised lossMask (t + s) ∧
        ∀ r ≤ s, Correct argmax logits targets r t) (targets.length - s) ↔
      ∀ t < targets.length - s, Supervised lossMask (t + s) → (∀ r ≤ s, Correct argmax logits targets r t) →
        Supervised lossMask t := by
  have part : ∀ t < targets.length - s,
      (SoFar argmax logits targets lossMask s t ∧ Correct argmax logits targets s t) ∧ Supervised lossMask (t + s) →
        Supervised lossMask (t + s) ∧ ∀ r ≤ s, Correct argmax logits targets r t := by
    rintro t front ⟨⟨soFar, last⟩, supervised⟩
    exact ⟨supervised, correct_through.mpr ⟨((soFar_iff front).mp soFar).2, last⟩⟩
  rw [reported, count_eq_iff part]
  refine forall₂_congr fun t front => ?_
  rw [soFar_iff front]
  constructor
  · exact fun back supervised correct => (back ⟨supervised, correct⟩).1.1.1
  · rintro kept ⟨supervised, correct⟩
    obtain ⟨earlier, last⟩ := correct_through.mp correct
    exact ⟨⟨⟨kept supervised correct, earlier⟩, last⟩, supervised⟩

/-- The counts of a step are those that are meant exactly where no row loses or gains supervision midway. -/
theorem reported_meant_iff (s : Nat) :
    Meant argmax logits targets lossMask s (reported argmax logits targets lossMask s) ↔
      KeepsSupervision argmax logits targets lossMask s := by
  constructor
  · intro meant t front
    exact ⟨(condTotal_iff s).mp meant.condTotal t front, (fullSum_iff s).mp meant.fullSum t front⟩
  · intro keeps
    refine ⟨(condTotal_iff s).mpr fun t front => (keeps t front).1, ?_, rfl,
      (fullSum_iff s).mpr fun t front => (keeps t front).2⟩
    refine count_congr fun t front => ?_
    rw [soFar_iff front]
    constructor
    · rintro ⟨⟨⟨first, earlier⟩, last⟩, supervised⟩
      exact ⟨⟨supervised, fun r less => ⟨(keeps t front).1 first earlier r less.le, earlier r less⟩⟩, last⟩
    · rintro ⟨⟨supervised, earlier⟩, last⟩
      exact ⟨⟨⟨supervised_first supervised earlier, fun r less => (earlier r less).2⟩, last⟩, supervised⟩

end Run

/-- At every step of every forward, the reported counts are those that are meant exactly where the rows
keep their supervision. -/
theorem forwardCounts_meant_iff {ω : Type*} (argmax : ω → Nat) (logits : Nat → List ω) (targets : List ω)
    (lossMask : Option (List Bool)) (rows : ∀ s, (logits s).length = targets.length)
    (masked : ∀ mask, lossMask = some mask → mask.length = targets.length) (tttSteps : Nat) :
    (forwardCounts argmax logits targets lossMask tttSteps).length = tttSteps ∧
      ∀ s < tttSteps, ∃ counts, (forwardCounts argmax logits targets lossMask tttSteps)[s]? = some counts ∧
        (Meant argmax logits targets lossMask s counts ↔ KeepsSupervision argmax logits targets lossMask s) := by
  rw [forwardCounts_eq rows masked]
  refine ⟨by rw [List.length_map, List.length_range], fun s less => ?_⟩
  refine ⟨reported argmax logits targets lossMask s, ?_, reported_meant_iff s⟩
  rw [List.getElem?_map, List.getElem?_range less, Option.map_some]

/-- Three rows, all supervised. -/
theorem forwardCounts_meant_iff_whole :
    (forwardCounts id (fun s => [5 + s, 6 + s, 7]) [5, 6, 7] (some [true, true, true]) 2).length = 2 ∧
      ∀ s < 2, ∃ counts,
        (forwardCounts id (fun s => [5 + s, 6 + s, 7]) [5, 6, 7] (some [true, true, true]) 2)[s]? = some counts ∧
          (Meant id (fun s => [5 + s, 6 + s, 7]) [5, 6, 7] (some [true, true, true]) s counts ↔
            KeepsSupervision id (fun s => [5 + s, 6 + s, 7]) [5, 6, 7] (some [true, true, true]) s) :=
  forwardCounts_meant_iff id (fun s => [5 + s, 6 + s, 7]) [5, 6, 7] (some [true, true, true]) (fun _ => rfl)
    (by rintro mask ⟨rfl⟩; rfl) 2

/-- A mask with gaps and a head that is always right. At step 1 two rows count as candidates that are not
supervised there, and the row that is supervised at step 1 alone is never correct. -/
theorem forwardCounts_gaps :
    forwardCounts id (fun s => [5 + s, 6 + s, 7 + s, 8]) [5, 6, 7, 8] (some [true, false, true, false]) 2 =
        [⟨2, 2, 2, 2⟩, ⟨0, 1, 0, 2⟩] ∧
      ¬Meant id (fun s => [5 + s, 6 + s, 7 + s, 8]) [5, 6, 7, 8] (some [true, false, true, false]) 1 ⟨0, 1, 0, 2⟩ := by
  refine ⟨by decide, fun meant => ?_⟩
  exact absurd meant.condTotal (by decide)

end DreamAifd.ConditionalAccuracy
