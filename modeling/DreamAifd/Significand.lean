import Mathlib

/-! Natural numbers in a floating-point format of `p` significant bits: rounding to nearest with ties
to even, and a counter that is increased by one and rounded. The exponent is not bounded. -/
namespace DreamAifd.Significand

/-- Bits of `n` that do not fit. -/
def excess (p n : Nat) : Nat := n.log2 + 1 - p

def round (p n : Nat) : Nat :=
  let unit := 2 ^ excess p n
  if unit < 2 * (n % unit) ∨ (2 * (n % unit) = unit ∧ n / unit % 2 = 1) then (n / unit + 1) * unit
  else n / unit * unit

/-- The bits that do not fit are zeros. -/
def Representable (p n : Nat) : Prop := 2 ^ excess p n ∣ n

instance : DecidableRel Representable := fun p n => inferInstanceAs (Decidable (2 ^ excess p n ∣ n))

variable {p q n : Nat}

theorem lt_pow_excess (p n : Nat) : n < 2 ^ (p + excess p n) := by
  have whole : n < 2 ^ (n.log2 + 1) := Nat.lt_log2_self
  exact whole.trans_le (Nat.pow_le_pow_right (by decide) (by rw [excess]; omega))

theorem unit_dvd_round (p n : Nat) : 2 ^ excess p n ∣ round p n := by
  rw [round]
  split
  · exact Nat.dvd_mul_left _ _
  · exact Nat.dvd_mul_left _ _

theorem round_eq_iff : round p n = n ↔ Representable p n := by
  constructor
  · intro same
    have divides := unit_dvd_round p n
    rwa [same] at divides
  · intro divides
    have unit_pos : 0 < 2 ^ excess p n := Nat.two_pow_pos _
    have remainder : n % 2 ^ excess p n = 0 := Nat.mod_eq_zero_of_dvd divides
    rw [round, remainder, if_neg (by omega), Nat.div_mul_cancel divides]

theorem Representable.mono (held : Representable p n) (wider : p ≤ q) : Representable q n :=
  (Nat.pow_dvd_pow 2 (by unfold excess; omega)).trans held

theorem representable_of_excess {k : Nat} (divides : 2 ^ k ∣ n) (few : excess p n ≤ k) : Representable p n :=
  (Nat.pow_dvd_pow 2 few).trans divides

/-- A significand of `p` bits, or the power of two behind the last of them. -/
theorem representable_mul (positive : 0 < p) {a : Nat} (bounded : a ≤ 2 ^ p) (k : Nat) :
    Representable p (a * 2 ^ k) := by
  rcases Nat.eq_zero_or_pos a with rfl | nonzero
  · rw [Nat.zero_mul]
    exact Nat.dvd_zero _
  rcases bounded.lt_or_eq with less | rfl
  · have size : a * 2 ^ k < 2 ^ (p + k) := by
      rw [Nat.pow_add]
      exact Nat.mul_lt_mul_of_pos_right less (Nat.two_pow_pos k)
    have log : (a * 2 ^ k).log2 < p + k := (Nat.log2_lt (by positivity)).mpr size
    exact representable_of_excess (Nat.dvd_mul_left _ _) (by unfold excess; omega)
  · rw [← Nat.pow_add]
    refine representable_of_excess (Nat.dvd_refl _) ?_
    rw [excess, Nat.log2_two_pow]
    omega

theorem representable_of_le (positive : 0 < p) (bounded : n ≤ 2 ^ p) : Representable p n := by
  have whole := representable_mul positive bounded 0
  rwa [Nat.pow_zero, Nat.mul_one] at whole

theorem representable_round (positive : 0 < p) (n : Nat) : Representable p (round p n) := by
  have bounded : n / 2 ^ excess p n < 2 ^ p := by
    rw [Nat.div_lt_iff_lt_mul (Nat.two_pow_pos _), ← Nat.pow_add]
    exact lt_pow_excess p n
  rw [round]
  split
  · exact representable_mul positive bounded _
  · exact representable_mul positive bounded.le _

/-- A wider format keeps what was rounded to a narrower one. -/
theorem round_round (positive : 0 < p) (wider : p ≤ q) (n : Nat) : round q (round p n) = round p n :=
  round_eq_iff.mpr ((representable_round positive n).mono wider)

def next (p v : Nat) : Nat := round p (v + 1)

theorem next_of_lt (positive : 0 < p) {v : Nat} (less : v < 2 ^ p) : next p v = v + 1 :=
  round_eq_iff.mpr (representable_of_le positive less)

/-- Past the last significand, only a tie moves the counter, and by two. -/
theorem next_of_ge {v : Nat} (held : Representable p v) (past : 2 ^ p ≤ v) :
    next p v = if v < 2 ^ (p + 1) ∧ v % 4 = 2 then v + 2 else v := by
  have nonzero : v ≠ 0 := (Nat.two_pow_pos p).trans_le past |>.ne'
  have least : p ≤ v.log2 := (Nat.le_log2 nonzero).mpr past
  obtain ⟨e, dropped⟩ : ∃ e, excess p v = e + 1 := ⟨v.log2 - p, by rw [excess]; omega⟩
  have divides : 2 ^ (e + 1) ∣ v := dropped ▸ held
  have two_dvd : 2 ∣ v := (Dvd.intro_left (2 ^ e) rfl).trans divides
  -- an even number and the one behind it have the same length
  have log : (v + 1).log2 = v.log2 := by
    rw [Nat.log2_eq_iff (Nat.succ_ne_zero v)]
    have low := Nat.log2_self_le nonzero
    have high : v < 2 ^ (v.log2 + 1) := Nat.lt_log2_self
    have even : 2 ∣ 2 ^ (v.log2 + 1) := Dvd.intro_left (2 ^ v.log2) rfl
    omega
  have same : excess p (v + 1) = e + 1 := by
    rw [excess, log]
    exact dropped
  obtain ⟨a, rfl⟩ := divides
  have unit : 1 < 2 ^ (e + 1) := Nat.one_lt_two_pow (Nat.succ_ne_zero e)
  have quotient : (2 ^ (e + 1) * a + 1) / 2 ^ (e + 1) = a := by
    rw [Nat.mul_add_div (by omega), Nat.div_eq_of_lt unit, Nat.add_zero]
  have remainder : (2 ^ (e + 1) * a + 1) % 2 ^ (e + 1) = 1 := by
    rw [Nat.mul_add_mod, Nat.mod_eq_of_lt unit]
  rw [next, round, same, quotient, remainder]
  cases e with
  | zero =>
    have small : 2 ^ (0 + 1) * a < 2 ^ (p + 1) := by
      rw [← Nat.log2_lt nonzero]
      unfold excess at dropped
      omega
    have odd : a % 2 = 1 ↔ 2 ^ (0 + 1) * a % 4 = 2 := by omega
    simp only [small, true_and, ← odd]
    norm_num
    split <;> omega
  | succ e =>
    have large : ¬2 ^ (e + 1 + 1) * a < 2 ^ (p + 1) := by
      rw [← Nat.log2_lt nonzero]
      unfold excess at dropped
      omega
    have wide : 2 ^ 2 ≤ 2 ^ (e + 1 + 1) := Nat.pow_le_pow_right (by decide) (by omega)
    rw [if_neg (by omega), if_neg (fun tie => large tie.1), Nat.mul_comm]

/-- The counter stops at the first number whose successor does not fit. -/
theorem iterate_next_of_le (positive : 0 < p) {v : Nat} (m : Nat) (bounded : v + m ≤ 2 ^ p) :
    (next p)^[m] v = v + m := by
  induction m with
  | zero => rfl
  | succ m ih =>
    rw [Function.iterate_succ_apply', ih (by omega), next_of_lt positive (by omega), Nat.add_assoc]

theorem next_pow (many : 2 ≤ p) : next p (2 ^ p) = 2 ^ p := by
  obtain ⟨k, rfl⟩ := Nat.exists_eq_add_of_le' many
  rw [next_of_ge (representable_of_le (by omega) le_rfl) le_rfl, if_neg]
  rintro ⟨-, tie⟩
  rw [Nat.pow_add] at tie
  omega

theorem iterate_next_pow (many : 2 ≤ p) (m : Nat) : (next p)^[m] (2 ^ p) = 2 ^ p :=
  Function.iterate_fixed (next_pow many) m

theorem iterate_next_eq_min (many : 2 ≤ p) {v : Nat} (bounded : v ≤ 2 ^ p) (m : Nat) :
    (next p)^[m] v = min (v + m) (2 ^ p) := by
  rcases Nat.le_total (v + m) (2 ^ p) with within | past
  · rw [iterate_next_of_le (by omega) m within, Nat.min_eq_left within]
  · obtain ⟨rest, rfl⟩ : ∃ rest, m = rest + (2 ^ p - v) := ⟨m - (2 ^ p - v), by omega⟩
    have reached : (next p)^[2 ^ p - v] v = 2 ^ p := by
      rw [iterate_next_of_le (by omega) _ (by omega), Nat.add_sub_cancel' bounded]
    rw [Function.iterate_add_apply, reached, iterate_next_pow many, Nat.min_eq_right past]

/-- How far a counter can be increased without an error. -/
def Continues (p v m : Nat) : Prop :=
  m = 0 ∨ v + m ≤ 2 ^ p ∨ (m = 2 ∧ v % 4 = 2 ∧ 2 ^ p ≤ v ∧ v < 2 ^ (p + 1))

theorem iterate_next_eq_iff (many : 2 ≤ p) {v : Nat} (held : Representable p v) (m : Nat) :
    (next p)^[m] v = v + m ↔ Continues p v m := by
  rw [Continues]
  rcases Nat.lt_or_ge v (2 ^ p) with below | past
  · rw [iterate_next_eq_min many below.le]
    omega
  · have step := next_of_ge held past
    by_cases tie : v < 2 ^ (p + 1) ∧ v % 4 = 2
    · rw [if_pos tie] at step
      have held' : Representable p (v + 2) := step ▸ representable_round (by omega) (v + 1)
      have stuck : next p (v + 2) = v + 2 := by
        rw [next_of_ge held' (by omega), if_neg (by omega)]
      cases m with
      | zero => simp
      | succ m =>
        rw [Function.iterate_succ_apply, step, Function.iterate_fixed stuck]
        omega
    · rw [if_neg tie] at step
      rw [Function.iterate_fixed step]
      omega

end DreamAifd.Significand
