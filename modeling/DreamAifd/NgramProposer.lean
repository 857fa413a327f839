import DreamAifd.Borders
import DreamAifd.Segments

/-! Drafts from the tokens themselves: what followed the last n-gram where it stood before. The search walks over the
tokens from the end and keeps the longest borders of the first ones, so that no token is looked at for each n. -/
namespace DreamAifd.NgramProposer

open Borders Segments

variable {α : Type*} [DecidableEq α]

/-! ### The search -/

structure SearchState where
  lps : Nat → Nat
  longestNgram : Nat
  position : Nat
  prevLps : Nat
  i : Nat

def searchStep (tokens : Nat → α) (maxNgram : Nat) (s : SearchState) : SearchState :=
  if tokens s.prevLps = tokens s.i then
    let prevLps := s.prevLps + 1
    -- On a tie the later place, which is the earlier one in the original tokens.
    let longer := s.longestNgram ≤ prevLps
    let lps := if s.i < maxNgram then Function.update s.lps s.i prevLps else s.lps
    { lps
      longestNgram := if longer then prevLps else s.longestNgram
      position := if longer then s.i else s.position
      prevLps := if prevLps = maxNgram then lps (maxNgram - 1) else prevLps
      i := s.i + 1 }
  else if s.prevLps ≠ 0 then { s with prevLps := s.lps (s.prevLps - 1) }
  else { s with i := s.i + 1 }

def searchLoop (tokens : Nat → α) (maxNgram totalToken : Nat) : Nat → SearchState → Option SearchState
  | 0, s => if s.i < totalToken then none else some s
  | fuel + 1, s =>
    if s.i < totalToken then searchLoop tokens maxNgram totalToken fuel (searchStep tokens maxNgram s) else some s

def findLongestMatchedNgramAndProposeTokens [Inhabited α] (originTokens : List α)
    (minNgram maxNgram maxModelLen k : Nat) : Option (List α) :=
  let totalToken := originTokens.length
  if totalToken < minNgram then some []
  else
    let k : Int := min k (maxModelLen - totalToken)
    if k ≤ 0 then some []
    else
      let tokens := fun j => originTokens.reverse.getD j default
      (searchLoop tokens maxNgram totalToken (2 * totalToken) ⟨fun _ => 0, 0, 0, 0, 1⟩).map fun s =>
        if s.longestNgram < minNgram then []
        else
          let startPosition := totalToken - 1 - s.position + s.longestNgram
          slice startPosition (min k.toNat (totalToken - startPosition)) originTokens

/-! ### What the search knows -/

variable {tokens : Nat → α} {maxNgram totalToken : Nat} {s : SearchState}

/-- Before `i` is looked at: the longest border that may go on, and the best n-gram that ended before. -/
structure Scanned (tokens : Nat → α) (maxNgram : Nat) (s : SearchState) : Prop where
  positive : 1 ≤ s.i
  capped : s.prevLps < maxNgram
  proper : s.prevLps < s.i
  border : Border tokens s.prevLps s.i
  widest : ∀ v < maxNgram, v < s.i → Border tokens v s.i → tokens v = tokens s.i → v ≤ s.prevLps
  lps : ∀ j < s.i, j < maxNgram → Longest tokens (s.lps j) (j + 1)
  unset : ∀ j, s.i ≤ j → s.lps j = 0
  best : ∀ e < s.i, ∀ v, 0 < v → v ≤ maxNgram → v ≤ e → Border tokens v (e + 1) →
    v < s.longestNgram ∨ v = s.longestNgram ∧ e ≤ s.position
  found : s.longestNgram = 0 ∨ s.longestNgram ≤ maxNgram ∧ s.longestNgram ≤ s.position ∧ s.position < s.i ∧
    Border tokens s.longestNgram (s.position + 1)

omit [DecidableEq α] in
theorem scanned_start (positive : 0 < maxNgram) : Scanned tokens maxNgram ⟨fun _ => 0, 0, 0, 0, 1⟩ := by
  refine ⟨le_rfl, positive, Nat.zero_lt_one, border_zero _, fun v _ small _ _ => Nat.le_of_lt_succ small,
    fun j small _ => ?_, fun _ _ => rfl, fun e small v some_tokens _ le _ => ?_, .inl rfl⟩
  · obtain rfl : j = 0 := Nat.lt_one_iff.mp small
    exact ⟨border_zero _, Nat.zero_lt_one, fun v small _ => Nat.le_of_lt_succ small⟩
  · have none_left : e < 1 := small
    omega

omit [DecidableEq α] in
/-- An n-gram that ends at `i` is one more than a border that goes on. -/
theorem Scanned.ends (scanned : Scanned tokens maxNgram s) {v : Nat} (some_tokens : 0 < v) (capped : v ≤ maxNgram)
    (le : v ≤ s.i) (border : Border tokens v (s.i + 1)) : v ≤ s.prevLps + 1 ∧ tokens (v - 1) = tokens s.i := by
  obtain ⟨w, rfl⟩ := Nat.exists_eq_succ_of_ne_zero some_tokens.ne'
  obtain ⟨inner, next⟩ := (border_succ_iff (show w ≤ s.i by omega)).mp border
  exact ⟨Nat.succ_le_succ (scanned.widest w (by omega) (by omega) inner next), next⟩

omit [DecidableEq α] in
theorem Scanned.longest_succ (scanned : Scanned tokens maxNgram s) (small : s.i < maxNgram)
    (agrees : tokens s.prevLps = tokens s.i) : Longest tokens (s.prevLps + 1) (s.i + 1) := by
  have proper := scanned.proper
  refine ⟨(border_succ_iff (Nat.le_of_lt proper)).mpr ⟨scanned.border, agrees⟩, by omega, fun v lt border => ?_⟩
  rcases Nat.eq_zero_or_pos v with rfl | some_tokens
  · exact Nat.zero_le _
  · exact (scanned.ends some_tokens (by omega) (by omega) border).1

theorem Scanned.match_step (scanned : Scanned tokens maxNgram s) (agrees : tokens s.prevLps = tokens s.i) :
    Scanned tokens maxNgram (searchStep tokens maxNgram s) := by
  obtain ⟨positive, capped, proper, border, widest, lps, unset, best, found⟩ := scanned
  have scanned : Scanned tokens maxNgram s := ⟨positive, capped, proper, border, widest, lps, unset, best, found⟩
  have grown : Border tokens (s.prevLps + 1) (s.i + 1) := (border_succ_iff (Nat.le_of_lt proper)).mpr ⟨border, agrees⟩
  set lps' := if s.i < maxNgram then Function.update s.lps s.i (s.prevLps + 1) else s.lps with lps_eq
  have table : ∀ j < s.i + 1, j < maxNgram → Longest tokens (lps' j) (j + 1) := by
    intro j before small
    rcases Nat.lt_or_eq_of_le (Nat.le_of_lt_succ before) with earlier | rfl
    · have kept : lps' j = s.lps j := by
        rw [lps_eq]
        split
        · exact Function.update_of_ne (Nat.ne_of_lt earlier) _ _
        · rfl
      rw [kept]
      exact lps j earlier small
    · rw [lps_eq, if_pos small, Function.update_self]
      exact scanned.longest_succ small agrees
  rw [searchStep, if_pos agrees]
  refine ⟨Nat.le_succ_of_le positive, ?_, ?_, ?_, ?_, table, ?_, ?_, ?_⟩
  all_goals dsimp only
  · split
    · exact lt_of_lt_of_le (table (maxNgram - 1) (by omega) (by omega)).lt (by omega)
    · omega
  · split
    · have short := (table (maxNgram - 1) (by omega) (by omega)).lt
      change lps' (maxNgram - 1) < s.i + 1
      omega
    · omega
  · split
    next full =>
      have inner := (table (maxNgram - 1) (by omega) (by omega)).border
      rw [Nat.sub_add_cancel (by omega)] at inner
      exact inner.trans (full ▸ grown)
    · exact grown
  · intro v small before here _
    split
    next full =>
      -- A border below the cap is one of the n-gram that has reached it.
      have longest := table (maxNgram - 1) (by omega) (by omega)
      rw [Nat.sub_add_cancel (show 1 ≤ maxNgram by omega)] at longest
      exact longest.longest v small (here.of_le (full ▸ grown) (Nat.le_of_lt small))
    next =>
      rcases Nat.eq_zero_or_pos v with rfl | some_tokens
      · exact Nat.zero_le _
      · exact (scanned.ends some_tokens (Nat.le_of_lt small) (by omega) here).1
  · intro j after
    split
    · rw [Function.update_of_ne (by omega)]
      exact unset j (by omega)
    · exact unset j (by omega)
  · intro e before v some_tokens small le here
    rcases Nat.lt_or_eq_of_le (Nat.le_of_lt_succ before) with earlier | rfl
    · have known := best e earlier v some_tokens small le here
      split
      · omega
      · exact known
    · have bound := (scanned.ends some_tokens small le here).1
      split
      · omega
      · omega
  · split
    · exact .inr ⟨by omega, by omega, by omega, grown⟩
    · rcases found with nothing | ⟨small, le, before, here⟩
      · omega
      · exact .inr ⟨small, le, by omega, here⟩

theorem Scanned.shrink_step (scanned : Scanned tokens maxNgram s) (differs : tokens s.prevLps ≠ tokens s.i)
    (some_border : s.prevLps ≠ 0) : Scanned tokens maxNgram (searchStep tokens maxNgram s) := by
  obtain ⟨positive, capped, proper, border, widest, lps, unset, best, found⟩ := scanned
  have inner := lps (s.prevLps - 1) (by omega) (by omega)
  rw [Nat.sub_add_cancel (by omega)] at inner
  have smaller := inner.lt
  rw [searchStep, if_neg differs, if_pos some_border]
  refine ⟨positive, by dsimp only; omega, by dsimp only; omega, inner.border.trans border, ?_, lps, unset, best, found⟩
  intro v small before here next
  have le := widest v small before here next
  have different : v ≠ s.prevLps := fun same => differs (same ▸ next)
  exact inner.longest v (by omega) (here.of_le border le)

theorem Scanned.skip_step (scanned : Scanned tokens maxNgram s) (differs : tokens s.prevLps ≠ tokens s.i)
    (no_border : s.prevLps = 0) : Scanned tokens maxNgram (searchStep tokens maxNgram s) := by
  obtain ⟨positive, capped, proper, border, widest, lps, unset, best, found⟩ := scanned
  have scanned : Scanned tokens maxNgram s := ⟨positive, capped, proper, border, widest, lps, unset, best, found⟩
  -- Nothing that ends at `i` is a border: it would be one token, and that differs.
  have nothing : ∀ v ≤ maxNgram, v ≤ s.i → Border tokens v (s.i + 1) → v = 0 := by
    intro v small le here
    rcases Nat.eq_zero_or_pos v with rfl | some_tokens
    · rfl
    · obtain ⟨bound, next⟩ := scanned.ends some_tokens small le here
      obtain rfl : v = 1 := by omega
      rw [no_border] at differs
      exact absurd next differs
  rw [searchStep, if_neg differs, if_neg (not_not.mpr no_border)]
  refine ⟨Nat.le_succ_of_le positive, capped, Nat.lt_succ_of_lt proper, ?_, ?_, ?_, ?_, ?_, ?_⟩
  all_goals dsimp only
  · rw [no_border]
    exact border_zero _
  · intro v small before here _
    exact Nat.le_of_eq ((nothing v (Nat.le_of_lt small) (by omega) here).trans no_border.symm)
  · intro j before small
    rcases Nat.lt_or_eq_of_le (Nat.le_of_lt_succ before) with earlier | rfl
    · exact lps j earlier small
    · rw [unset s.i le_rfl]
      exact ⟨border_zero _, Nat.succ_pos _, fun v lt here => Nat.le_of_eq (nothing v (by omega) (by omega) here)⟩
  · exact fun j after => unset j (by omega)
  · intro e before v some_tokens small le here
    rcases Nat.lt_or_eq_of_le (Nat.le_of_lt_succ before) with earlier | rfl
    · exact best e earlier v some_tokens small le here
    · exact absurd (nothing v small le here) some_tokens.ne'
  · rcases found with none_found | ⟨small, le, before, here⟩
    · exact .inl none_found
    · exact .inr ⟨small, le, by omega, here⟩

/-- A step keeps what is known, and two steps for each token and one for each entry of the border are enough. -/
theorem Scanned.step (scanned : Scanned tokens maxNgram s) (before : s.i < totalToken) :
    Scanned tokens maxNgram (searchStep tokens maxNgram s) ∧ (searchStep tokens maxNgram s).i ≤ totalToken ∧
      2 * (totalToken - (searchStep tokens maxNgram s).i) + (searchStep tokens maxNgram s).prevLps <
        2 * (totalToken - s.i) + s.prevLps := by
  by_cases agrees : tokens s.prevLps = tokens s.i
  · have kept := scanned.match_step agrees
    refine ⟨kept, ?_, ?_⟩
    · rw [searchStep, if_pos agrees]
      exact before
    · have moved : (searchStep tokens maxNgram s).i = s.i + 1 := by rw [searchStep, if_pos agrees]
      have bounded : (searchStep tokens maxNgram s).prevLps ≤ s.prevLps + 1 := by
        have small := kept.capped
        rw [searchStep, if_pos agrees] at small ⊢
        dsimp only at small ⊢
        split at small
        next full =>
          rw [if_pos full]
          omega
        next room => rw [if_neg room]
      omega
  · by_cases no_border : s.prevLps = 0
    · refine ⟨scanned.skip_step agrees no_border, ?_, ?_⟩
      all_goals
        rw [searchStep, if_neg agrees, if_neg (not_not.mpr no_border)]
        dsimp only
        omega
    · have capped := scanned.capped
      have proper := scanned.proper
      have smaller := (scanned.lps (s.prevLps - 1) (by omega) (by omega)).lt
      refine ⟨scanned.shrink_step agrees no_border, ?_, ?_⟩
      all_goals
        rw [searchStep, if_neg agrees, if_pos no_border]
        dsimp only
        omega

/-- The loop ends, and then all tokens are looked at. -/
theorem searchLoop_spec (scanned : Scanned tokens maxNgram s) (within : s.i ≤ totalToken) (fuel : Nat)
    (enough : 2 * (totalToken - s.i) + s.prevLps ≤ fuel) :
    ∃ s', searchLoop tokens maxNgram totalToken fuel s = some s' ∧ Scanned tokens maxNgram s' ∧ s'.i = totalToken := by
  induction fuel generalizing s with
  | zero =>
    have last : s.i = totalToken := by omega
    exact ⟨s, by rw [searchLoop, if_neg (by omega)], scanned, last⟩
  | succ fuel ih =>
    rw [searchLoop]
    split
    next before =>
      obtain ⟨kept, inside, less⟩ := scanned.step before
      exact ih kept inside (by omega)
    next => exact ⟨s, rfl, scanned, by omega⟩

/-! ### What is proposed -/

/-- The last `n` tokens also stand at `place`, before their own place. -/
def Recurs (originTokens : List α) (n place : Nat) : Prop :=
  place + n < originTokens.length ∧ ∀ j < n, originTokens[place + j]? = originTokens[originTokens.length - n + j]?

omit [DecidableEq α] in
theorem recurs_iff [Inhabited α] {originTokens : List α} {n e : Nat} (le : n ≤ e) (inside : e < originTokens.length) :
    Border (fun j => originTokens.reverse.getD j default) n (e + 1) ↔
      Recurs originTokens n (originTokens.length - 1 - e) := by
  have reversed : ∀ j < originTokens.length,
      originTokens[originTokens.length - 1 - j]? = some (originTokens.reverse.getD j default) := by
    intro j small
    rw [List.getD_eq_getElem?_getD, List.getElem?_reverse small,
      List.getElem?_eq_getElem (show originTokens.length - 1 - j < originTokens.length by omega)]
    rfl
  refine ⟨fun ⟨_, same⟩ => ⟨by omega, fun j small => ?_⟩, fun ⟨_, same⟩ => ⟨Nat.le_succ_of_le le, fun j small => ?_⟩⟩
  · have front := reversed (n - 1 - j) (by omega)
    have back := reversed (e + 1 - n + (n - 1 - j)) (by omega)
    rw [show originTokens.length - 1 - (n - 1 - j) = originTokens.length - n + j by omega] at front
    rw [show originTokens.length - 1 - (e + 1 - n + (n - 1 - j)) = originTokens.length - 1 - e + j by omega] at back
    rw [front, back]
    exact congrArg some (same (n - 1 - j) (by omega)).symm
  · have front := reversed j (by omega)
    have back := reversed (e + 1 - n + j) (by omega)
    have equal := same (n - 1 - j) (by omega)
    rw [show originTokens.length - n + (n - 1 - j) = originTokens.length - 1 - j by omega,
      show originTokens.length - 1 - e + (n - 1 - j) = originTokens.length - 1 - (e + 1 - n + j) by omega,
      front, back] at equal
    exact (Option.some.inj equal).symm

omit [DecidableEq α] in
theorem Recurs.border [Inhabited α] {originTokens : List α} {n place : Nat} (recurs : Recurs originTokens n place) :
    n ≤ originTokens.length - 1 - place ∧ originTokens.length - 1 - place < originTokens.length ∧
      Border (fun j => originTokens.reverse.getD j default) n (originTokens.length - 1 - place + 1) := by
  have inside := recurs.1
  have place_eq : originTokens.length - 1 - (originTokens.length - 1 - place) = place := by omega
  have le : n ≤ originTokens.length - 1 - place := by omega
  have small : originTokens.length - 1 - place < originTokens.length := by omega
  exact ⟨le, small, (recurs_iff le small).mpr (by rwa [place_eq])⟩

/-- The longest n-gram within the bounds, where it stood first. -/
structure FirstLongest (originTokens : List α) (minNgram maxNgram n place : Nat) : Prop where
  bounds : minNgram ≤ n ∧ n ≤ maxNgram
  recurs : Recurs originTokens n place
  best : ∀ n' place', 0 < n' → n' ≤ maxNgram → Recurs originTokens n' place' → n' < n ∨ n' = n ∧ place ≤ place'

omit [DecidableEq α] in
theorem FirstLongest.of_scanned [Inhabited α] {originTokens : List α} {minNgram : Nat} {s : SearchState}
    (scanned : Scanned (fun j => originTokens.reverse.getD j default) maxNgram s) (all : s.i = originTokens.length)
    (some_tokens : 0 < s.longestNgram) (long : minNgram ≤ s.longestNgram) :
    FirstLongest originTokens minNgram maxNgram s.longestNgram (originTokens.length - 1 - s.position) := by
  rcases scanned.found with nothing | ⟨small, le, before, border⟩
  · omega
  · refine ⟨⟨long, small⟩, (recurs_iff le (by omega)).mp border, fun n place positive capped recurs => ?_⟩
    have inside := recurs.1
    obtain ⟨fits, small, border⟩ := recurs.border
    have known := scanned.best (originTokens.length - 1 - place) (all ▸ small) n positive capped fits border
    omega

omit [DecidableEq α] in
theorem slice_min (xs : List α) (offset n : Nat) : slice offset (min n (xs.length - offset)) xs = slice offset n xs := by
  rw [slice, slice, ← List.length_drop, ← List.take_eq_take_min]

/-- The search ends for all tokens. It proposes what followed the longest n-gram where it stood first, as many tokens
as are asked for and fit the model; and nothing where no n-gram within the bounds stood before. -/
theorem findLongestMatchedNgramAndProposeTokens_spec [Inhabited α] (originTokens : List α)
    {minNgram maxNgram : Nat} (positive : 0 < minNgram) (ordered : minNgram ≤ maxNgram) (maxModelLen k : Nat) :
    ∃ draft, findLongestMatchedNgramAndProposeTokens originTokens minNgram maxNgram maxModelLen k = some draft ∧
      ((k = 0 ∨ maxModelLen ≤ originTokens.length ∨
          ∀ n place, minNgram ≤ n → n ≤ maxNgram → ¬ Recurs originTokens n place) ∧ draft = [] ∨
        ∃ n place, FirstLongest originTokens minNgram maxNgram n place ∧ draft ≠ [] ∧
          draft = slice (place + n) (min k (maxModelLen - originTokens.length)) originTokens) := by
  rw [findLongestMatchedNgramAndProposeTokens]
  split
  next short =>
    refine ⟨[], rfl, .inl ⟨.inr (.inr fun n place long _ recurs => ?_), rfl⟩⟩
    have inside := recurs.1
    omega
  next enough =>
    dsimp only
    split
    next no_room => exact ⟨[], rfl, .inl ⟨by omega, rfl⟩⟩
    next room =>
      have start : Scanned (fun j => originTokens.reverse.getD j default) maxNgram ⟨fun _ => 0, 0, 0, 0, 1⟩ :=
        scanned_start (lt_of_lt_of_le positive ordered)
      have searched : ∃ s, searchLoop (fun j => originTokens.reverse.getD j default) maxNgram originTokens.length
          (2 * originTokens.length) ⟨fun _ => 0, 0, 0, 0, 1⟩ = some s ∧
          Scanned (fun j => originTokens.reverse.getD j default) maxNgram s ∧ s.i = originTokens.length :=
        searchLoop_spec start (by dsimp only; omega) _ (by dsimp only; omega)
      obtain ⟨s, ran, scanned, all⟩ := searched
      rw [ran, Option.map_some]
      refine ⟨_, rfl, ?_⟩
      split
      next few =>
        refine .inl ⟨.inr (.inr fun n place long capped recurs => ?_), rfl⟩
        obtain ⟨fits, small, border⟩ := recurs.border
        have known := scanned.best (originTokens.length - 1 - place) (all ▸ small) n (by omega) capped fits border
        omega
      next many =>
        have first : FirstLongest originTokens minNgram maxNgram s.longestNgram
            (originTokens.length - 1 - s.position) := .of_scanned scanned all (by omega) (by omega)
        have inside := first.recurs.1
        have wanted : (min (k : Int) (maxModelLen - originTokens.length)).toNat =
            min k (maxModelLen - originTokens.length) := by omega
        rw [wanted, slice_min]
        refine .inr ⟨_, _, first, List.ne_nil_of_length_pos ?_, rfl⟩
        rw [slice, List.length_take, List.length_drop]
        omega

theorem findLongestMatchedNgramAndProposeTokens_spec_repeated :
    findLongestMatchedNgramAndProposeTokens [1, 2, 3, 1, 2, 4, 1, 2] 1 3 16 2 = some [3, 1] ∧
      ∃ n place, FirstLongest [1, 2, 3, 1, 2, 4, 1, 2] 1 3 n place ∧
        [3, 1] = slice (place + n) 2 [1, 2, 3, 1, 2, 4, 1, 2] := by
  have ran : findLongestMatchedNgramAndProposeTokens [1, 2, 3, 1, 2, 4, 1, 2] 1 3 16 2 = some [3, 1] := by
    decide +kernel
  obtain ⟨draft, found, proposed⟩ := findLongestMatchedNgramAndProposeTokens_spec [1, 2, 3, 1, 2, 4, 1, 2]
    (show 0 < 1 by decide) (show 1 ≤ 3 by decide) 16 2
  obtain rfl := Option.some.inj (found.symm.trans ran)
  rcases proposed with ⟨_, nothing⟩ | ⟨n, place, first, _, drafted⟩
  · exact absurd nothing (List.cons_ne_nil _ _)
  · exact ⟨ran, n, place, first, drafted⟩

end DreamAifd.NgramProposer
