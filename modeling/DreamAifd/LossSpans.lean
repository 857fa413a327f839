import DreamAifd.Bisect

/-! Loss masks from the character spans of the assistant's turns. A span is looked up among the
start offsets of the tokens; from one token in front of there on, tokens are marked up to the
first that starts behind the span. -/
namespace DreamAifd.LossSpans

open Bisect

structure Offset where
  start : Int
  stop : Int
  ordered : start ≤ stop
  deriving DecidableEq

/-- Group 1 of a match; both ends are -1 where the group took no part in it. -/
structure Span where
  start : Int
  stop : Int

def Span.overlaps (span : Span) (token : Offset) : Bool :=
  decide (span.start < token.stop) && decide (token.start < span.stop)

/-- The loop over the tokens from `idx` on, with its early break. -/
def markTokens (span : Span) : Nat → List Offset → List Bool → List Bool
  | _, [], lossMask => lossMask
  | idx, token :: tokens, lossMask =>
    if span.stop ≤ token.start then lossMask
    else markTokens span (idx + 1) tokens (if span.overlaps token then lossMask.set idx true else lossMask)

def markSpan (offsets : List Offset) (lossMask : List Bool) (span : Span) : List Bool :=
  let tokenStarts := offsets.map (·.start)
  let startIdx := bisectLeft tokenStarts span.start
  markTokens span (startIdx - 1) (offsets.drop (startIdx - 1)) lossMask

def noSpansWarning (convIdx maxLength : Option Nat) (numTokens : Nat) : String :=
  let warningMsg := "No assistant response spans found in conversation" ++
    convIdx.elim "" fun convIdx => " " ++ toString convIdx
  let suggestionMsg := if maxLength = some numTokens then
    "Consider increasing --seq-length to avoid truncating the assistant response." else ""
  warningMsg ++ ". " ++ suggestionMsg

/-- The mask, and the warning that is logged. -/
def createLossMaskFromOffsets (finditer : String → List Span) (text : String) (offsets : List Offset)
    (convIdx maxLength : Option Nat) : List Bool × Option String :=
  let found := finditer text
  (found.foldl (markSpan offsets) (List.replicate offsets.length false),
    if found.isEmpty then some (noSpansWarning convIdx maxLength offsets.length) else none)

/-- A token that starts behind the one before it, or is another piece of the same character. -/
def Follows (token next : Offset) : Prop :=
  token.stop ≤ next.start ∨ (next = token ∧ token.stop = token.start + 1)

instance : DecidableRel Follows := fun token next =>
  inferInstanceAs (Decidable (token.stop ≤ next.start ∨ (next = token ∧ token.stop = token.start + 1)))

namespace Follows

variable {token next : Offset}

theorem start_le (follows : Follows token next) : token.start ≤ next.start := by
  rcases follows with behind | ⟨rfl, -⟩
  · exact token.ordered.trans behind
  · exact le_rfl

theorem trans {last : Offset} (first : Follows token next) (second : Follows next last) : Follows token last := by
  rcases first with behind | ⟨rfl, -⟩
  · rcases second with further | ⟨rfl, -⟩
    · exact .inl (behind.trans (next.ordered.trans further))
    · exact .inl behind
  · exact second

/-- Whatever comes before a token that starts in front of a position ends at the position or
before it. -/
theorem stop_le (follows : Follows token next) {position : Int} (before : next.start < position) :
    token.stop ≤ position := by
  rcases follows with behind | ⟨rfl, wide⟩
  · exact behind.trans before.le
  · omega

end Follows

/-- Tokens one behind the other. -/
theorem pairwise_follows {offsets : List Offset} (consecutive : offsets.IsChain Follows) :
    offsets.Pairwise Follows :=
  haveI : IsTrans Offset Follows := ⟨fun _ _ _ => Follows.trans⟩
  List.isChain_iff_pairwise.mp consecutive

/-- The body of the loop touches one token. -/
theorem getElem?_set_overlaps (overlaps : Bool) (idx : Nat) (lossMask : List Bool) (i : Nat) :
    (if overlaps then lossMask.set idx true else lossMask)[i]? =
      lossMask[i]?.map fun marked => marked || (decide (i = idx) && overlaps) := by
  by_cases here : i = idx
  · subst here
    cases overlaps with
    | false => simp
    | true => simp [List.getElem?_set_self', Function.const_def]
  · have elsewhere : (lossMask.set idx true)[i]? = lossMask[i]? := List.getElem?_set_ne (Ne.symm here)
    cases overlaps with
    | false => simp
    | true => simp [elsewhere, here]

/-- The loop marks the tokens that overlap, and the break skips none of them. -/
theorem markTokens_get? (span : Span) (idx : Nat) {tokens : List Offset}
    (sorted : tokens.Pairwise fun token next => token.start ≤ next.start) (lossMask : List Bool) (i : Nat) :
    (markTokens span idx tokens lossMask)[i]? =
      lossMask[i]?.map fun marked => marked || (decide (idx ≤ i) && tokens[i - idx]?.any span.overlaps) := by
  induction tokens generalizing idx lossMask with
  | nil => simp [markTokens]
  | cons token tokens ih =>
    obtain ⟨first, rest⟩ := List.pairwise_cons.mp sorted
    rw [markTokens]
    split
    next behind =>
      have unreached : ∀ other ∈ token :: tokens, span.overlaps other = false := by
        intro other member
        have later : token.start ≤ other.start := by
          rcases List.mem_cons.mp member with rfl | after
          · exact le_rfl
          · exact first other after
        simp [Span.overlaps, behind.trans later]
      have none : (token :: tokens)[i - idx]?.any span.overlaps = false := by
        cases held : (token :: tokens)[i - idx]? with
        | none => rfl
        | some other => exact unreached other (List.mem_of_getElem? held)
      simp [none]
    next reached =>
      rw [ih (idx + 1) rest, getElem?_set_overlaps]
      rcases lt_trichotomy i idx with before | rfl | after
      · simp [before.ne, Nat.not_le.mpr before, Nat.not_le.mpr (before.trans (Nat.lt_succ_self _))]
      · rw [Nat.sub_self]
        simp [Function.comp_def]
      · obtain ⟨k, rfl⟩ := Nat.exists_eq_add_of_lt after
        have shift : idx + k + 1 - idx = k + 1 := by omega
        have shift' : idx + k + 1 - (idx + 1) = k := by omega
        rw [shift, shift', List.getElem?_cons_succ]
        simp [after.ne', Nat.le_of_lt after, Nat.succ_le_of_lt after]

section Tokens

variable {offsets : List Offset} (consecutive : offsets.IsChain Follows)

include consecutive

/-- The token one in front of the bisection's place is the first that can overlap. -/
theorem not_overlaps_of_lt (span : Span) {i : Nat} (hi : i < offsets.length)
    (skipped : i < bisectLeft (offsets.map (·.start)) span.start - 1) : span.overlaps offsets[i] = false := by
  have pairwise := pairwise_follows consecutive
  have bracket := bisectLeft_bracket span.start
    (List.pairwise_map.mpr (pairwise.imp fun follows => follows.start_le))
  generalize bisectLeft (offsets.map (·.start)) span.start = startIdx at skipped bracket
  have inside : startIdx - 1 < offsets.length := by
    have := bracket.inside
    rw [List.length_map] at this
    omega
  have before : offsets[startIdx - 1].start < span.start := by
    have below := bracket.below (startIdx - 1) (by rwa [List.length_map]) (by omega)
    rwa [List.getElem_map] at below
  have follows := List.pairwise_iff_getElem.mp pairwise i (startIdx - 1) hi inside skipped
  simp [Span.overlaps, Int.not_lt.mpr (follows.stop_le before)]

theorem markSpan_get? (span : Span) (lossMask : List Bool) (i : Nat) :
    (markSpan offsets lossMask span)[i]? =
      lossMask[i]?.map fun marked => marked || offsets[i]?.any span.overlaps := by
  have sorted : offsets.Pairwise fun token next => token.start ≤ next.start :=
    (pairwise_follows consecutive).imp fun follows => follows.start_le
  rw [markSpan, markTokens_get? span _ sorted.drop]
  apply Option.map_congr
  intro marked _
  congr 1
  rw [List.getElem?_drop]
  by_cases reached : bisectLeft (offsets.map (·.start)) span.start - 1 ≤ i
  · rw [Nat.add_sub_cancel' reached, decide_eq_true reached, Bool.true_and]
  · rw [decide_eq_false reached, Bool.false_and]
    cases held : offsets[i]? with
    | none => rfl
    | some token =>
      obtain ⟨hi, rfl⟩ := List.getElem?_eq_some_iff.mp held
      exact (not_overlaps_of_lt consecutive span hi (Nat.lt_of_not_le reached)).symm

theorem foldl_markSpan_get? (spans : List Span) (lossMask : List Bool) (i : Nat) :
    (spans.foldl (markSpan offsets) lossMask)[i]? =
      lossMask[i]?.map fun marked => marked || spans.any fun span => offsets[i]?.any span.overlaps := by
  induction spans generalizing lossMask with
  | nil => simp
  | cons span spans ih =>
    rw [List.foldl_cons, ih, markSpan_get? consecutive, Option.map_map]
    simp [Function.comp_def, Bool.or_assoc]

end Tokens

/-- A token is trained on exactly when a span overlaps it. -/
theorem createLossMaskFromOffsets_marked (finditer : String → List Span) (text : String)
    {offsets : List Offset} (consecutive : offsets.IsChain Follows) (convIdx maxLength : Option Nat) :
    (createLossMaskFromOffsets finditer text offsets convIdx maxLength).1.length = offsets.length ∧
      ∀ i (hi : i < offsets.length),
        (createLossMaskFromOffsets finditer text offsets convIdx maxLength).1[i]? = some true ↔
          ∃ span ∈ finditer text, span.start < offsets[i].stop ∧ offsets[i].start < span.stop := by
  have entry (i : Nat) : (createLossMaskFromOffsets finditer text offsets convIdx maxLength).1[i]? = _ :=
    foldl_markSpan_get? consecutive (finditer text) (List.replicate offsets.length false) i
  constructor
  · apply Nat.le_antisymm
    · rw [← Nat.not_lt]
      intro longer
      have value := entry offsets.length
      rw [List.getElem?_eq_getElem longer] at value
      simp at value
    · rw [← Nat.not_lt]
      intro shorter
      have value := entry (createLossMaskFromOffsets finditer text offsets convIdx maxLength).1.length
      rw [List.getElem?_eq_none le_rfl] at value
      simp [shorter] at value
  · intro i hi
    rw [entry i, List.getElem?_replicate, if_pos hi, List.getElem?_eq_getElem hi]
    simp [Span.overlaps]

/-- A word, two pieces of one character and a word of no width, with a span that starts inside the
first word. -/
theorem createLossMaskFromOffsets_pieces :
    let finditer := fun _ : String => [Span.mk 1 4, Span.mk 6 6]
    let offsets := [Offset.mk 0 3 (by decide), ⟨3, 4, by decide⟩, ⟨3, 4, by decide⟩, ⟨4, 4, by decide⟩,
      ⟨5, 8, by decide⟩]
    (createLossMaskFromOffsets finditer "text" offsets none none).1 = [true, true, true, false, true] ∧
      ∀ i (hi : i < offsets.length),
        (createLossMaskFromOffsets finditer "text" offsets none none).1[i]? = some true ↔
          ∃ span ∈ finditer "text", span.start < offsets[i].stop ∧ offsets[i].start < span.stop :=
  ⟨by decide, (createLossMaskFromOffsets_marked _ "text" (by decide) none none).2⟩

end DreamAifd.LossSpans
