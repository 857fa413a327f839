import Mathlib

/-! Machines whose steps are named by events. A step that the state does not allow has no
outcome, and a run is stuck where no event has one. -/
namespace DreamAifd.Machine

variable {σ ε : Type*} (step : σ → ε → Option σ)

def run : List ε → σ → Option σ
  | [], s => some s
  | event :: events, s => (step s event).bind (run events)

def Enabled (s : σ) : Prop := ∃ event t, step s event = some t

def Reaches : σ → σ → Prop := Relation.ReflTransGen fun s t => ∃ event, step s event = some t

variable {step}

theorem run_append (first second : List ε) (s : σ) :
    run step (first ++ second) s = (run step first s).bind (run step second) := by
  induction first generalizing s with
  | nil => rfl
  | cons event first ih =>
    rw [List.cons_append, run, run, Option.bind_assoc]
    exact congrArg _ (funext ih)

/-- What every step preserves holds at the end of every run. -/
theorem run_invariant {property : σ → Prop}
    (preserved : ∀ {s t event}, property s → step s event = some t → property t)
    {events : List ε} {s t : σ} (initial : property s) (ran : run step events s = some t) : property t := by
  induction events generalizing s with
  | nil =>
    cases ran
    exact initial
  | cons event events ih =>
    obtain ⟨next, stepped, rest⟩ := Option.bind_eq_some_iff.mp ran
    exact ih (preserved initial stepped) rest

variable (step) in
/-- A condition on the states of a run and the events they take. -/
def along (allowed : σ → ε → Bool) : List ε → σ → Bool
  | [], _ => true
  | event :: events, s => allowed s event && (step s event).all (along allowed events)

/-- What every allowed step preserves holds at the end of every run of allowed steps. -/
theorem run_invariant_along {allowed : σ → ε → Bool} {property : σ → Prop}
    (preserved : ∀ {s t event}, property s → allowed s event → step s event = some t → property t)
    {events : List ε} {s t : σ} (initial : property s) (allows : along step allowed events s)
    (ran : run step events s = some t) : property t := by
  induction events generalizing s with
  | nil =>
    cases ran
    exact initial
  | cons event events ih =>
    obtain ⟨next, stepped, rest⟩ := Option.bind_eq_some_iff.mp ran
    obtain ⟨now, later⟩ := Bool.and_eq_true_iff.mp allows
    rw [stepped] at later
    exact ih (preserved initial now stepped) later rest

/-- A run that ends well took allowed steps only, when every other step ends a run and ends it badly. -/
theorem along_of_final {allowed : σ → ε → Bool} {property : σ → Prop} (final : σ → Prop)
    (preserved : ∀ {s t event}, property s → allowed s event → step s event = some t → property t)
    (blocked : ∀ {s t event}, property s → allowed s event = false → step s event = some t →
      ¬ final t ∧ ∀ later, step t later = none)
    {events : List ε} {s t : σ} (initial : property s) (ran : run step events s = some t) (good : final t) :
    along step allowed events s := by
  induction events generalizing s with
  | nil => rfl
  | cons event events ih =>
    obtain ⟨next, stepped, rest⟩ := Option.bind_eq_some_iff.mp ran
    cases allows : allowed s event with
    | true =>
      rw [along, allows, stepped, Bool.true_and]
      exact ih (preserved initial allows stepped) rest
    | false =>
      obtain ⟨bad, ended⟩ := blocked initial allows stepped
      cases events with
      | nil =>
        cases rest
        exact absurd good bad
      | cons later events =>
        rw [run, ended later] at rest
        cases rest

/-- A run with a step inside it, cut there. -/
theorem run_cut {first last : List ε} {event : ε} {s t mid : σ} (before : run step first s = some mid)
    (ran : run step (first ++ event :: last) s = some t) :
    ∃ next, step mid event = some next ∧ run step last next = some t := by
  rw [run_append, before] at ran
  exact Option.bind_eq_some_iff.mp ran

theorem Reaches.next {s t u : σ} {event : ε} (reached : Reaches step s t) (stepped : step t event = some u) :
    Reaches step s u :=
  reached.tail ⟨event, stepped⟩

theorem reaches_iff_run {s t : σ} : Reaches step s t ↔ ∃ events, run step events s = some t := by
  constructor
  · intro reached
    induction reached using Relation.ReflTransGen.head_induction_on with
    | refl => exact ⟨[], rfl⟩
    | head stepped _ ih =>
      obtain ⟨event, stepped⟩ := stepped
      obtain ⟨events, ran⟩ := ih
      refine ⟨event :: events, ?_⟩
      rw [run, stepped, Option.bind_some, ran]
  · rintro ⟨events, ran⟩
    have preserved : ∀ {u v : σ} {event : ε}, Reaches step s u → step u event = some v → Reaches step s v :=
      Reaches.next
    exact run_invariant preserved .refl ran

/-- Stage by stage: wherever one stage holds, the next can be reached. -/
theorem reaches_stages (stage : Nat → σ → Prop) (count : Nat)
    (next : ∀ k < count, ∀ s, stage k s → ∃ t, Reaches step s t ∧ stage (k + 1) t) {s : σ} (first : stage 0 s) :
    ∃ t, Reaches step s t ∧ stage count t := by
  induction count with
  | zero => exact ⟨s, .refl, first⟩
  | succ count ih =>
    obtain ⟨mid, reached, middle⟩ := ih fun k bound => next k (bound.trans (Nat.lt_succ_self _))
    obtain ⟨t, onward, last⟩ := next count (Nat.lt_succ_self count) mid middle
    exact ⟨t, reached.trans onward, last⟩

end DreamAifd.Machine
