import Mathlib

/-! Append-only logs: an entry stays at its index, and every entry was allowed by the entries before it. -/
namespace DreamAifd.AppendOnly

variable {α : Type*}

theorem getElem?_append_old {log : List α} {i : Nat} {entry : α} (old : log[i]? = some entry) (later : List α) :
    (log ++ later)[i]? = some entry := by
  obtain ⟨bound, -⟩ := List.getElem?_eq_some_iff.mp old
  rw [List.getElem?_append_left bound, old]

theorem getElem?_concat_cases {log : List α} {last entry : α} {i : Nat} (here : (log ++ [last])[i]? = some entry) :
    log[i]? = some entry ∨ i = log.length ∧ last = entry := by
  by_cases old : i < log.length
  · exact .inl ((List.getElem?_append_left old).symm.trans here)
  · have inside := (List.getElem?_eq_some_iff.mp here).1
    simp only [List.length_append, List.length_singleton] at inside
    obtain rfl : i = log.length := by omega
    exact .inr ⟨rfl, by simpa using here⟩

def EachAfter (allowed : List α → α → Prop) (log : List α) : Prop :=
  ∀ before entry after, log = before ++ entry :: after → allowed before entry

variable {allowed other : List α → α → Prop}

theorem eachAfter_nil : EachAfter allowed [] := by
  intro before entry after split
  simp at split

/-- Appending needs the new entry to be allowed by the whole log, and nothing else. -/
theorem eachAfter_concat {log : List α} {last : α} :
    EachAfter allowed (log ++ [last]) ↔ EachAfter allowed log ∧ allowed log last := by
  constructor
  · intro each
    refine ⟨fun before entry after split => ?_, each log last [] rfl⟩
    exact each before entry (after ++ [last]) (by rw [split, List.append_assoc, List.cons_append])
  · rintro ⟨each, atEnd⟩ before entry after split
    rcases List.eq_nil_or_concat after with rfl | ⟨between, final, rfl⟩
    · obtain ⟨rfl, same⟩ := List.append_inj' split rfl
      cases same
      exact atEnd
    · rw [List.concat_eq_append, ← List.cons_append, ← List.append_assoc] at split
      exact each before entry between (List.append_inj' split rfl).1

theorem EachAfter.mono {log : List α} (each : EachAfter allowed log)
    (weaker : ∀ before entry, allowed before entry → other before entry) : EachAfter other log :=
  fun before entry after split => weaker before entry (each before entry after split)

end DreamAifd.AppendOnly
