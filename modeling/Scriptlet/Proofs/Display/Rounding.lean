import Mathlib.Algebra.Order.Field.Power
import Mathlib.Tactic.FieldSimp
import Mathlib.Tactic.Linarith
import Mathlib.Tactic.NormNum
import Mathlib.Tactic.Positivity
import Mathlib.Tactic.Ring
import Scriptlet.Decimal.Notation
import Scriptlet.Proofs.Display.Doubles

/-! The shortest decimal is near its double and to no other.

Around every positive double lies an interval of the numbers that are read as it
(`Interval.Holds`), and the intervals of two doubles have no number in common
(`holds_unique`): where one ends and the next begins, the end belongs to the one whose
significand is even. The search for the shortest decimal tries finer and finer grids until
one has a point in the interval, and the finest grid always has one (`holds_shortest`). -/
namespace Scriptlet.Decimal

open Binary64 (Normal minExponent)

namespace Interval

/-! ### What lies in an interval -/

/-- The number lies in the interval. -/
def Holds (i : Interval) (q : ℚ) : Prop :=
  (i.low : ℚ) ≤ q * i.unit ∧ q * i.unit ≤ i.high ∧
    (i.closed = false → (i.low : ℚ) ≠ q * i.unit ∧ q * i.unit ≠ i.high)

theorem contains_iff (i : Interval) (n : Nat) : i.contains n = true ↔ i.Holds n := by
  have hcast : (n : ℚ) * i.unit = ((n * i.unit : Nat) : ℚ) := (Nat.cast_mul _ _).symm
  simp only [contains, Holds, hcast, Nat.cast_le, ne_eq, Nat.cast_inj]
  cases i.closed
  · simp only [Bool.false_eq_true, if_false, Bool.and_eq_true, decide_eq_true_eq, forall_const]
    omega
  · simp

theorem holds_scale (i : Interval) (power : Int) (q : ℚ) :
    (i.scale power).Holds q ↔ i.Holds (q * 10 ^ power) := by
  have hfactor : (0 : ℚ) < 10 ^ (-power).toNat := by positivity
  have hpower : (10 : ℚ) ^ power.toNat = 10 ^ power * 10 ^ (-power).toNat := by
    rw [← zpow_natCast, ← zpow_natCast, ← zpow_add₀ (by norm_num)]
    congr 1
    omega
  have hunit : q * ((i.unit * Nat.pow 10 power.toNat : Nat) : ℚ) =
      q * 10 ^ power * i.unit * 10 ^ (-power).toNat := by
    show q * ((i.unit * 10 ^ power.toNat : Nat) : ℚ) = _
    push_cast
    rw [hpower]
    ring
  have hend (m : Nat) : ((m * Nat.pow 10 (-power).toNat : Nat) : ℚ) = m * 10 ^ (-power).toNat := by
    show ((m * 10 ^ (-power).toNat : Nat) : ℚ) = _
    push_cast
    rfl
  simp only [Holds, scale, hunit, hend, mul_le_mul_iff_of_pos_right hfactor, ne_eq,
    mul_left_inj' hfactor.ne']

theorem contains_scale (i : Interval) (power : Int) (n : Nat) :
    (i.scale power).contains n = true ↔ i.Holds (n * 10 ^ power) := by
  rw [contains_iff, holds_scale]

/-- What is nearest lies in the interval. -/
theorem nearest?_contains {i : Interval} {n : Nat} (h : i.nearest? = some n) :
    i.contains n = true := by
  simp only [nearest?] at h
  split at h
  · cases h
  · cases h; assumption
  · cases h; assumption
  · split at h <;> cases h <;> assumption

/-- If there is room for a step of the grid below the value, the grid has a point there. -/
theorem exists_nearest? {i : Interval} (hstep : i.low + i.unit ≤ i.value) (hup : i.value < i.high)
    (hunit : 0 < i.unit) : ∃ n, i.nearest? = some n := by
  have hmod := Nat.mod_lt i.value hunit
  have hdiv := Nat.div_add_mod' i.value i.unit
  have hcontains : i.contains (i.value / i.unit) = true := by
    simp only [contains]
    split <;> simp only [Bool.and_eq_true, decide_eq_true_eq] <;> omega
  simp only [nearest?, hcontains]
  split <;> first | exact ⟨_, rfl⟩ | (split <;> exact ⟨_, rfl⟩) | contradiction

/-- The search ends on a grid with a point in the interval, or on the finest. -/
theorem coarsest_found (i : Interval) (fuel : Nat) (power : Int)
    (hfinest : ∃ n, (i.scale (power - fuel)).nearest? = some n) :
    i.Holds ((i.coarsest fuel power).1 * 10 ^ (i.coarsest fuel power).2) := by
  induction fuel generalizing power with
  | zero =>
    obtain ⟨n, hn⟩ := hfinest
    rw [Nat.cast_zero, sub_zero] at hn
    rw [coarsest, hn]
    exact (contains_scale i power n).mp (nearest?_contains hn)
  | succ fuel ih =>
    rw [coarsest]
    cases hnearest : (i.scale power).nearest? with
    | some n => exact (contains_scale i power n).mp (nearest?_contains hnearest)
    | none =>
      refine ih (power - 1) ?_
      rwa [Nat.cast_succ, ← sub_sub, sub_right_comm] at hfinest

end Interval

/-! ### Intervals around doubles -/

/-- How many quarters of a unit in the last place the interval around a double reaches down. -/
def quartersBelow (significand : Nat) (exponent : Int) : Nat :=
  if significand = Binary64.hidden ∧ exponent ≠ minExponent then 1 else 2

theorem quartersBelow_cases (significand : Nat) (exponent : Int) :
    significand = Binary64.hidden ∧ quartersBelow significand exponent = 1 ∨
      quartersBelow significand exponent = 2 := by
  unfold quartersBelow
  split
  next h => exact .inl ⟨h.1, rfl⟩
  next => exact .inr rfl

/-- The lower end of the interval around a double. -/
def lowEnd (significand : Nat) (exponent : Int) : ℚ :=
  (significand - quartersBelow significand exponent / 4) * 2 ^ exponent

/-- The upper end of the interval around a double. -/
def highEnd (significand : Nat) (exponent : Int) : ℚ :=
  (significand + 1 / 2) * 2 ^ exponent

/-- The interval lies between the two ends, which do not belong to it if the significand is odd. -/
theorem holds_ofDouble {significand : Nat} {exponent : Int} {q : ℚ} (hpos : 0 < significand) :
    (Interval.ofDouble significand exponent).Holds q ↔
      lowEnd significand exponent ≤ q ∧ q ≤ highEnd significand exponent ∧
        (significand % 2 = 1 →
          lowEnd significand exponent ≠ q ∧ q ≠ highEnd significand exponent) := by
  have hunit : (0 : ℚ) < 4 * 2 ^ (-exponent).toNat := by positivity
  have hpower : (2 : ℚ) ^ exponent.toNat = 2 ^ exponent * 2 ^ (-exponent).toNat := by
    rw [← zpow_natCast, ← zpow_natCast, ← zpow_add₀ (by norm_num)]
    congr 1
    omega
  have hbelow : quartersBelow significand exponent ≤ 4 * significand := by
    unfold quartersBelow
    split <;> omega
  have hlow : (((Interval.ofDouble significand exponent).low : Nat) : ℚ) =
      lowEnd significand exponent * (4 * 2 ^ (-exponent).toNat) := by
    show (((4 * significand - quartersBelow significand exponent) * 2 ^ exponent.toNat : Nat) : ℚ) = _
    rw [Nat.cast_mul, Nat.cast_sub hbelow, lowEnd]
    push_cast
    rw [hpower]
    ring
  have hhigh : (((Interval.ofDouble significand exponent).high : Nat) : ℚ) =
      highEnd significand exponent * (4 * 2 ^ (-exponent).toNat) := by
    show (((4 * significand + 2) * 2 ^ exponent.toNat : Nat) : ℚ) = _
    rw [highEnd]
    push_cast
    rw [hpower]
    ring
  have hvalue : (((Interval.ofDouble significand exponent).unit : Nat) : ℚ) =
      4 * 2 ^ (-exponent).toNat := by
    show ((4 * 2 ^ (-exponent).toNat : Nat) : ℚ) = _
    push_cast
    rfl
  have hodd : (Interval.ofDouble significand exponent).closed = false ↔ significand % 2 = 1 := by
    show (significand % 2 == 0) = false ↔ _
    rw [beq_eq_false_iff_ne]
    omega
  simp only [Interval.Holds, hlow, hhigh, hvalue, mul_le_mul_iff_of_pos_right hunit, ne_eq,
    mul_left_inj' hunit.ne', hodd]

/-- A double lies in the interval around it. -/
theorem holds_self {significand : Nat} {exponent : Int} (hpos : 0 < significand) :
    (Interval.ofDouble significand exponent).Holds (significand * 2 ^ exponent) := by
  have hunit : (0 : ℚ) < 2 ^ exponent := by positivity
  have hquarters : (0 : ℚ) < quartersBelow significand exponent := by
    rcases quartersBelow_cases significand exponent with ⟨-, hq⟩ | hq <;> rw [hq] <;> norm_num
  have hlow : lowEnd significand exponent < significand * 2 ^ exponent :=
    mul_lt_mul_of_pos_right (by linarith) hunit
  have hhigh : significand * 2 ^ exponent < highEnd significand exponent :=
    mul_lt_mul_of_pos_right (by linarith) hunit
  exact (holds_ofDouble hpos).mpr ⟨hlow.le, hhigh.le, fun _ => ⟨hlow.ne, hhigh.ne⟩⟩

/-- Of a double with a greater exponent the unit is twice as large, or more, and the significand
has its leading bit. -/
theorem le_lowEnd {s : Nat} {e e' : Int} (h : Normal s e') (hleast : minExponent ≤ e)
    (hless : e < e') : (2 * Binary64.hidden - 1 / 2) * (2 : ℚ) ^ e ≤ lowEnd s e' := by
  have hminimal : e' ≠ minExponent := by omega
  have hleading := h.leading.resolve_right hminimal
  have hdouble : (2 : ℚ) * 2 ^ e ≤ 2 ^ e' := by
    rw [← zpow_one_add₀ (by norm_num)]
    exact zpow_le_zpow_right₀ (by norm_num) (by omega)
  have hlow : (Binary64.hidden : ℚ) - 1 / 4 ≤ s - quartersBelow s e' / 4 := by
    unfold quartersBelow
    split
    next heq => rw [heq.1, Nat.cast_one]
    next hne =>
      have hmore : Binary64.hidden + 1 ≤ s :=
        Nat.lt_of_le_of_ne hleading fun heq => hne ⟨heq.symm, hminimal⟩
      have hmore : (Binary64.hidden : ℚ) + 1 ≤ s := by exact_mod_cast hmore
      push_cast
      linarith
  have hhidden : (1 : ℚ) ≤ Binary64.hidden := by exact_mod_cast (by decide : 1 ≤ Binary64.hidden)
  calc (2 * Binary64.hidden - 1 / 2) * (2 : ℚ) ^ e
      = (Binary64.hidden - 1 / 4) * (2 * 2 ^ e) := by ring
    _ ≤ lowEnd s e' := mul_le_mul hlow hdouble (by positivity) (by linarith)

/-- The interval around a double ends before that of a greater one begins, or where it begins, and
then one of the two significands is odd. -/
theorem highEnd_le_lowEnd {s s' : Nat} {e e' : Int} (h : Normal s e) (h' : Normal s' e')
    (hless : e < e' ∨ e = e' ∧ s < s') :
    highEnd s e ≤ lowEnd s' e' ∧ (highEnd s e = lowEnd s' e' → s % 2 = 1 ∨ s' % 2 = 1) := by
  have hunit : (0 : ℚ) < 2 ^ e := by positivity
  rcases hless with hless | ⟨rfl, hless⟩
  · have hbetween := le_lowEnd h' h.least hless
    have hbounded : (s : ℚ) + 1 ≤ 2 * Binary64.hidden := by exact_mod_cast h.bounded
    refine ⟨le_trans (mul_le_mul_of_nonneg_right (by linarith) hunit.le) hbetween, fun heq => ?_⟩
    rw [← heq, highEnd, mul_le_mul_iff_of_pos_right hunit] at hbetween
    have hlast : 2 * Binary64.hidden ≤ s + 1 := by
      have : (2 * Binary64.hidden : ℚ) ≤ s + 1 := by linarith
      exact_mod_cast this
    have := h.bounded
    left
    omega
  · have hcast : (s : ℚ) + 1 ≤ s' := by exact_mod_cast hless
    have hquarters : (quartersBelow s' e : ℚ) ≤ 2 := by
      rcases quartersBelow_cases s' e with ⟨-, hq⟩ | hq <;> rw [hq] <;> norm_num
    refine ⟨mul_le_mul_of_nonneg_right (by linarith) hunit.le, fun heq => ?_⟩
    have hends := (mul_left_inj' hunit.ne').mp heq
    have hnext : s' ≤ s + 1 := by
      have : (s' : ℚ) ≤ s + 1 := by linarith
      exact_mod_cast this
    omega

/-- The intervals around two doubles have no number in common. -/
theorem holds_unique {s s' : Nat} {e e' : Int} {q : ℚ} (h : Normal s e) (h' : Normal s' e')
    (hpos : 0 < s) (hpos' : 0 < s') (hq : (Interval.ofDouble s e).Holds q)
    (hq' : (Interval.ofDouble s' e').Holds q) : s = s' ∧ e = e' := by
  have hnot {s s' : Nat} {e e' : Int} (h : Normal s e) (h' : Normal s' e') (hpos : 0 < s)
      (hpos' : 0 < s') (hq : (Interval.ofDouble s e).Holds q)
      (hq' : (Interval.ofDouble s' e').Holds q) : ¬ (e < e' ∨ e = e' ∧ s < s') := by
    intro hless
    obtain ⟨hapart, hodd⟩ := highEnd_le_lowEnd h h' hless
    obtain ⟨-, hhigh, hopen⟩ := (holds_ofDouble hpos).mp hq
    obtain ⟨hlow, -, hopen'⟩ := (holds_ofDouble hpos').mp hq'
    have hq : q = highEnd s e := le_antisymm hhigh (hapart.trans hlow)
    have hq' : lowEnd s' e' = q := le_antisymm hlow (hhigh.trans hapart)
    rcases hodd (hq.symm.trans hq'.symm) with hone | hone
    · exact (hopen hone).2 hq
    · exact (hopen' hone).1 hq'
  have hless := hnot h h' hpos hpos' hq hq'
  have hmore := hnot h' h hpos' hpos hq' hq
  omega

/-- Doubles of one value have the same parts. -/
theorem parts_unique {s s' : Nat} {e e' : Int} (h : Normal s e) (h' : Normal s' e')
    (heq : (s : ℚ) * 2 ^ e = s' * 2 ^ e') : s = s' ∧ e = e' := by
  have hunit (e : Int) : (2 : ℚ) ^ e ≠ 0 := by positivity
  have hzero : s = 0 ↔ s' = 0 := by
    rw [← Nat.cast_eq_zero (R := ℚ), ← mul_eq_zero_iff_right (hunit e), heq,
      mul_eq_zero_iff_right (hunit e'), Nat.cast_eq_zero]
  rcases Nat.eq_zero_or_pos s with hs | hpos
  · have hleast {s : Nat} {e : Int} (h : Normal s e) (hs : s = 0) : e = minExponent :=
      h.leading.resolve_left (by rw [hs]; decide)
    exact ⟨hs.trans (hzero.mp hs).symm, (hleast h hs).trans (hleast h' (hzero.mp hs)).symm⟩
  · have hpos' : 0 < s' := Nat.pos_of_ne_zero fun hs' => hpos.ne' (hzero.mpr hs')
    exact holds_unique h h' hpos hpos' (holds_self hpos) (heq ▸ holds_self hpos')

/-! ### The shortest decimal -/

/-- The finest grid has a point in the interval around every double. -/
theorem exists_finest {significand : Nat} {exponent : Int} (h : Normal significand exponent)
    (hpos : 0 < significand) :
    ∃ n, ((Interval.ofDouble significand exponent).scale (309 - (309 + 324 : Nat))).nearest? =
      some n := by
  have hfine : 4 * 2 ^ (-exponent).toNat ≤ Nat.pow 10 (-(309 - (309 + 324 : Nat) : Int)).toNat := by
    have hleast : (-exponent).toNat ≤ 1074 := by
      have hleast : -1074 ≤ exponent := h.least
      omega
    calc 4 * 2 ^ (-exponent).toNat
        ≤ 4 * 2 ^ 1074 := Nat.mul_le_mul_left 4 (Nat.pow_le_pow_right (by decide) hleast)
      _ ≤ _ := by decide +kernel
  have hcoarse : Nat.pow 10 (309 - (309 + 324 : Nat) : Int).toNat = 1 := rfl
  have hup : 0 < 2 ^ exponent.toNat := Nat.two_pow_pos _
  have hquarters := quartersBelow_cases significand exponent
  apply Interval.exists_nearest? <;> simp only [Interval.scale, hcoarse, Nat.mul_one]
  all_goals
    generalize Nat.pow 10 (-(309 - (309 + 324 : Nat) : Int)).toNat = fine at hfine ⊢
  · show (4 * significand - quartersBelow significand exponent) * 2 ^ exponent.toNat * fine +
      4 * 2 ^ (-exponent).toNat ≤ 4 * significand * 2 ^ exponent.toNat * fine
    calc (4 * significand - quartersBelow significand exponent) * 2 ^ exponent.toNat * fine +
          4 * 2 ^ (-exponent).toNat
        ≤ (4 * significand - quartersBelow significand exponent) * 2 ^ exponent.toNat * fine +
          1 * 2 ^ exponent.toNat * fine := by
          refine Nat.add_le_add_left (hfine.trans ?_) _
          rw [Nat.one_mul]
          exact Nat.le_mul_of_pos_left fine hup
      _ = (4 * significand - quartersBelow significand exponent + 1) * 2 ^ exponent.toNat * fine := by
          rw [Nat.add_mul, Nat.add_mul]
      _ ≤ 4 * significand * 2 ^ exponent.toNat * fine := by
          refine Nat.mul_le_mul_right _ (Nat.mul_le_mul_right _ ?_)
          omega
  · show 4 * significand * 2 ^ exponent.toNat * fine <
      (4 * significand + 2) * 2 ^ exponent.toNat * fine
    have hpositive : 0 < fine :=
      Nat.lt_of_lt_of_le (Nat.mul_pos (by decide) (Nat.two_pow_pos _)) hfine
    exact Nat.mul_lt_mul_of_pos_right (Nat.mul_lt_mul_of_pos_right (by omega) hup) hpositive
  · exact Nat.mul_pos (by decide) (Nat.two_pow_pos _)

/-- The shortest decimal of a double lies in the interval around it. -/
theorem holds_shortest {significand : Nat} {exponent : Int} (h : Normal significand exponent)
    (hpos : 0 < significand) :
    (Interval.ofDouble significand exponent).Holds
      ((shortest significand exponent).1 * 10 ^ (shortest significand exponent).2) :=
  Interval.coarsest_found _ _ _ (exists_finest h hpos)

end Scriptlet.Decimal
