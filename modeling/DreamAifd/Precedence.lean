import Mathlib

/-! Queues whose tasks need something that earlier tasks provide. -/
namespace DreamAifd

variable {τ : Type*} (provides requires : τ → Prop)

/-- Every task that requires something is behind one that provides it, unless it is there already. -/
def Supplied : Prop → List τ → Prop
  | _, [] => True
  | present, task :: tasks => (requires task → present) ∧ Supplied (present ∨ provides task) tasks

variable {provides requires} {present : Prop} {tasks : List τ}

namespace Supplied

theorem mono {more : Prop} (supplied : Supplied provides requires present tasks) (still : present → more) :
    Supplied provides requires more tasks := by
  induction tasks generalizing present more with
  | nil => trivial
  | cons task tasks ih => exact ⟨fun required => still (supplied.1 required), ih supplied.2 (Or.imp_left still)⟩

theorem of_present (there : present) : Supplied provides requires present tasks := by
  induction tasks generalizing present with
  | nil => trivial
  | cons task tasks ih => exact ⟨fun _ => there, ih (.inl there)⟩

theorem of_forall (nothing : ∀ task ∈ tasks, ¬ requires task) : Supplied provides requires present tasks := by
  induction tasks generalizing present with
  | nil => trivial
  | cons task tasks ih =>
    exact ⟨fun required => absurd required (nothing task List.mem_cons_self),
      ih fun later member => nothing later (List.mem_cons_of_mem _ member)⟩

theorem append {others : List τ} : Supplied provides requires present (tasks ++ others) ↔
    Supplied provides requires present tasks ∧
      Supplied provides requires (present ∨ ∃ task ∈ tasks, provides task) others := by
  induction tasks generalizing present with
  | nil => simp [Supplied]
  | cons task tasks ih =>
    simp only [List.cons_append, Supplied, ih, and_assoc, List.exists_mem_cons_iff, or_assoc]

end Supplied

end DreamAifd
