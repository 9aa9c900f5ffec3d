import Mathlib.Algebra.Order.Ring.Rat
import Mathlib.Order.Compare
import Mathlib.Order.WithBot
import Scriptlet.Proofs.Display.Rounding

/-! The order of doubles is the order of the numbers that they stand for.

A double stands for a rational number or for an infinity (`Binary64.value?`), and only what
is no number stands for nothing. Doubles are compared by their parts: signs first, then
exponents, then significands. As no double has two sets of parts, this is the order of the
values, in which both zeros are one number (`compare_unpacked`). -/
namespace Scriptlet.Decimal

open Float.Model (UnpackedFloat)
open Float.Model.UnpackedFloat (Sign)

namespace Binary64

/-! ### Values -/

/-- A rational number or an infinity. -/
abbrev Value := WithBot (WithTop ℚ)

/-- A sign as a factor. -/
def factor (negative : Bool) : ℚ :=
  if negative then -1 else 1

/-- What a double stands for. -/
def value? : Binary64 → Option Value
  | .nan => none
  | .infinite negative => some (if negative then ⊥ else ⊤)
  | .finite negative significand exponent =>
    some ((factor negative * (significand * 2 ^ exponent) : ℚ) : WithTop ℚ)

/-- The parts are those of a double. -/
def Proper : Binary64 → Prop
  | .finite _ significand exponent => Normal significand exponent
  | _ => True

theorem ofFloat_proper (x : Float) : (ofFloat x).Proper := by
  cases h : ofFloat x with
  | nan => trivial
  | infinite => trivial
  | finite => exact ofBits_normal h

/-! ### Unpacked doubles -/

def sign (negative : Bool) : Sign :=
  if negative then .negative else .positive

/-- The parts as arithmetic takes them, which has zeros apart. -/
def unpacked : Binary64 → UnpackedFloat
  | .nan => .notANumber
  | .infinite negative => .infinity (sign negative)
  | .finite negative significand exponent =>
    if h : 0 < significand then .finite (sign negative) significand exponent h
    else .zero (sign negative)

theorem unpacked_zero (negative : Bool) (e : Int) :
    (finite negative 0 e).unpacked = .zero (sign negative) := by
  rw [unpacked, dif_neg (Nat.lt_irrefl 0)]

theorem unpacked_pos (negative : Bool) {s : Nat} (e : Int) (h : 0 < s) :
    (finite negative s e).unpacked = .finite (sign negative) s e h :=
  dif_pos h

theorem unpacked_finite (negative : Bool) (s : Nat) (e : Int) :
    (finite negative s e).unpacked = .zero (sign negative) ∨
      ∃ h, (finite negative s e).unpacked = .finite (sign negative) s e h := by
  rcases Nat.eq_zero_or_pos s with rfl | h
  · exact .inl (unpacked_zero negative e)
  · exact .inr ⟨h, unpacked_pos negative e h⟩

section
open Float.Model Float.Model.UnpackedFloat
variable (b : BitVec Format.binary64.numBits)

theorem toNat_unpackMantissa : (unpackMantissa b).toNat = b.toNat % hidden := by
  show (b.toNat >>> 0) % 2 ^ 52 = _
  rw [Nat.shiftRight_zero]
  rfl

theorem toNat_unpackExponent : (unpackExponent b).toNat = b.toNat / hidden % Nat.pow 2 11 := by
  show (b.toNat >>> 52) % 2 ^ 11 = _
  rw [Nat.shiftRight_eq_div_pow]
  rfl

theorem ofBitVec_unpackSign :
    Sign.ofBitVec (unpackSign b) = sign (b.toNat / Nat.pow 2 63 % 2 == 1) := by
  have hbit : (unpackSign b).toNat = b.toNat / Nat.pow 2 63 % 2 := by
    show (b.toNat >>> 63) % 2 ^ 1 = _
    rw [Nat.shiftRight_eq_div_pow]
  rw [← hbit]
  rcases BitVec.eq_zero_or_eq_one (unpackSign b) with hs | hs <;> rw [hs] <;> rfl

theorem finite_congr {g g' : Sign} {s s' : Nat} {e e' : Int} (hg : g = g') (hs : s = s')
    (he : e = e') (h : 0 < s) (h' : 0 < s') :
    UnpackedFloat.finite g s e h = .finite g' s' e' h' := by
  subst hg hs he
  rfl

/-- Both ways of taking a double apart give the same parts. -/
theorem unpack_eq : UnpackedFloat.unpack Format.binary64 b = (ofBits b.toNat).unpacked := by
  have hsign := ofBitVec_unpackSign b
  have hsignificand : (1#1 ++ unpackMantissa b).toNat = hidden + (unpackMantissa b).toNat := by
    rw [BitVec.toNat_append, ← Nat.shiftLeft_add_eq_or_of_lt (unpackMantissa b).isLt,
      Nat.shiftLeft_eq]
    rfl
  have hlast : unpackExponent b = -1#_ ↔ (unpackExponent b).toNat = 2047 :=
    BitVec.toNat_inj.symm
  have hfirst : unpackExponent b = 0#_ ↔ (unpackExponent b).toNat = 0 := BitVec.toNat_inj.symm
  have hzero : unpackMantissa b = 0#_ ↔ (unpackMantissa b).toNat = 0 := BitVec.toNat_inj.symm
  have hbias : (Format.binary64.exponentBias + Format.binary64.mantissaBitsWithoutImplicit : Int) =
      1 - minExponent := rfl
  rw [ofBits, ← toNat_unpackMantissa, ← toNat_unpackExponent]
  delta UnpackedFloat.unpack
  by_cases hinfinite : (unpackExponent b).toNat = 2047
  · rw [if_pos hinfinite]
    refine (if_pos (hlast.mpr hinfinite)).trans ?_
    by_cases hnone : (unpackMantissa b).toNat = 0
    · rw [if_pos hnone]
      exact (if_pos (hzero.mpr hnone)).trans (congrArg _ hsign)
    · rw [if_neg hnone]
      exact if_neg (mt hzero.mp hnone)
  · rw [if_neg hinfinite]
    refine (if_neg (mt hlast.mp hinfinite)).trans ?_
    by_cases hexponent : (unpackExponent b).toNat = 0
    · rw [if_pos hexponent]
      refine (if_pos (hfirst.mpr hexponent)).trans ?_
      by_cases hnone : (unpackMantissa b).toNat = 0
      · refine (dif_pos (hzero.mpr hnone)).trans ?_
        rw [hnone, unpacked_zero, hsign]
      · rw [unpacked_pos _ _ (Nat.pos_of_ne_zero hnone)]
        refine (dif_neg (mt hzero.mp hnone)).trans (finite_congr hsign rfl ?_ _ _)
        rw [hexponent, hbias]
        rfl
    · rw [if_neg hexponent, unpacked_pos _ _ (Nat.add_pos_left (by decide) _)]
      refine (if_neg (mt hfirst.mp hexponent)).trans (finite_congr hsign hsignificand ?_ _ _)
      rw [hbias]
      omega

end

/-! ### Comparing -/

/-- The magnitudes of doubles are ordered by exponents first. -/
theorem magnitude_lt {s s' : Nat} {e e' : Int} (h : Normal s e) (h' : Normal s' e')
    (hpos : 0 < s') (hless : e < e' ∨ e = e' ∧ s < s') : (s : ℚ) * 2 ^ e < s' * 2 ^ e' :=
  calc (s : ℚ) * 2 ^ e
      < highEnd s e := mul_lt_mul_of_pos_right (by linarith) (by positivity)
    _ ≤ lowEnd s' e' := (highEnd_le_lowEnd h h' hless).1
    _ ≤ s' * 2 ^ e' := ((holds_ofDouble hpos).mp (holds_self hpos)).1

theorem cmp_magnitude {s s' : Nat} {e e' : Int} (h : Normal s e) (h' : Normal s' e')
    (hpos : 0 < s) (hpos' : 0 < s') :
    (compare e e').then (compare s s') = cmp ((s : ℚ) * 2 ^ e) (s' * 2 ^ e') := by
  rcases lt_trichotomy e e' with hless | rfl | hmore
  · rw [compare_lt_iff_lt.mpr hless, (cmp_eq_lt_iff _ _).mpr (magnitude_lt h h' hpos' (.inl hless))]
    rfl
  · rw [compare_eq_iff_eq.mpr rfl]
    rcases lt_trichotomy s s' with hless | rfl | hmore
    · rw [compare_lt_iff_lt.mpr hless,
        (cmp_eq_lt_iff _ _).mpr (magnitude_lt h h' hpos' (.inr ⟨rfl, hless⟩))]
      rfl
    · rw [compare_eq_iff_eq.mpr rfl, cmp_self_eq_eq]
      rfl
    · rw [compare_gt_iff_gt.mpr hmore,
        (cmp_eq_gt_iff _ _).mpr (magnitude_lt h' h hpos (.inr ⟨rfl, hmore⟩))]
      rfl
  · rw [compare_gt_iff_gt.mpr hmore, (cmp_eq_gt_iff _ _).mpr (magnitude_lt h' h hpos (.inl hmore))]
    rfl

section
variable {α : Type} [LinearOrder α] {p q : α}

theorem some_cmp_of_lt (h : p < q) : some .lt = some (cmp p q) :=
  congrArg some ((cmp_eq_lt_iff p q).mpr h).symm

theorem some_cmp_of_gt (h : q < p) : some .gt = some (cmp p q) :=
  congrArg some ((cmp_eq_gt_iff p q).mpr h).symm

end

/-- Without signs numbers keep their order. -/
theorem cmp_positive (p q : ℚ) : cmp (factor false * p) (factor false * q) = cmp p q := by
  have hmono : StrictMono (factor false * ·) := fun _ _ h => by simpa [factor] using h
  exact hmono.cmp_map_eq p q

/-- Two negative numbers have the order of what is without their signs, the other way round. -/
theorem cmp_negative (p q : ℚ) : cmp (factor true * p) (factor true * q) = cmp q p := by
  have hanti : StrictAnti (factor true * ·) := fun _ _ h => by simpa [factor] using h
  exact hanti.cmp_map_eq p q

theorem signed_finite (negative : Bool) {s : Nat} (e : Int) (h : 0 < s) :
    if negative then factor negative * ((s : ℚ) * 2 ^ e) < 0
      else 0 < factor negative * ((s : ℚ) * 2 ^ e) := by
  have hmagnitude : (0 : ℚ) < s * 2 ^ e := mul_pos (Nat.cast_pos.mpr h) (by positivity)
  cases negative <;> simpa [factor] using hmagnitude

theorem compare_finite {negative negative' : Bool} {s s' : Nat} {e e' : Int} (h : Normal s e)
    (h' : Normal s' e') :
    (finite negative s e).unpacked.compare (finite negative' s' e').unpacked =
      some (cmp (factor negative * (s * 2 ^ e)) (factor negative' * (s' * 2 ^ e'))) := by
  have hzero (negative : Bool) (e : Int) : factor negative * (((0 : ℕ) : ℚ) * 2 ^ e) = 0 := by
    rw [Nat.cast_zero, zero_mul, mul_zero]
  rcases Nat.eq_zero_or_pos s with rfl | hpos <;> rcases Nat.eq_zero_or_pos s' with rfl | hpos'
  · rw [unpacked_zero, unpacked_zero]
    exact congrArg some ((cmp_eq_eq_iff _ _).mpr ((hzero _ _).trans (hzero _ _).symm)).symm
  · have hsign := signed_finite negative' e' hpos'
    rw [unpacked_zero, unpacked_pos negative' e' hpos']
    cases negative'
    · exact some_cmp_of_lt ((hzero _ _).trans_lt hsign)
    · exact some_cmp_of_gt (hsign.trans_eq (hzero _ _).symm)
  · have hsign := signed_finite negative e hpos
    rw [unpacked_zero, unpacked_pos negative e hpos]
    cases negative
    · exact some_cmp_of_gt ((hzero _ _).trans_lt hsign)
    · exact some_cmp_of_lt (hsign.trans_eq (hzero _ _).symm)
  · have hsign := signed_finite negative e hpos
    have hsign' := signed_finite negative' e' hpos'
    have hcmp := cmp_magnitude h h' hpos hpos'
    rw [unpacked_pos negative e hpos, unpacked_pos negative' e' hpos']
    cases negative <;> cases negative'
    · exact congrArg some (hcmp.trans (cmp_positive _ _).symm)
    · exact some_cmp_of_gt (lt_trans hsign' hsign)
    · exact some_cmp_of_lt (lt_trans hsign hsign')
    · refine congrArg some ?_
      rw [cmp_negative, ← cmp_swap, ← hcmp]

/-- Between the infinities lie all numbers. -/
theorem between_infinities (q : ℚ) : (⊥ : Value) < (q : WithTop ℚ) ∧ ((q : WithTop ℚ) : Value) < ⊤ :=
  ⟨WithBot.bot_lt_coe _, WithBot.coe_lt_coe.mpr (WithTop.coe_lt_top q)⟩

/-- **Doubles are compared as what they stand for.** -/
theorem compare_unpacked {a b : Binary64} {p q : Value} (ha : a.Proper) (hb : b.Proper)
    (hp : a.value? = some p) (hq : b.value? = some q) :
    a.unpacked.compare b.unpacked = some (cmp p q) := by
  cases a with
  | nan => cases hp
  | infinite negative =>
    cases b with
    | nan => cases hq
    | infinite negative' =>
      cases hp
      cases hq
      cases negative <;> cases negative' <;> decide
    | finite negative' s e =>
      cases hp
      cases hq
      have hbetween := between_infinities (factor negative' * (s * 2 ^ e))
      rcases unpacked_finite negative' s e with h | ⟨hpos, h⟩ <;> rw [h] <;> cases negative
      · exact some_cmp_of_gt hbetween.2
      · exact some_cmp_of_lt hbetween.1
      · exact some_cmp_of_gt hbetween.2
      · exact some_cmp_of_lt hbetween.1
  | finite negative s e =>
    cases b with
    | nan => cases hq
    | infinite negative' =>
      cases hp
      cases hq
      have hbetween := between_infinities (factor negative * (s * 2 ^ e))
      rcases unpacked_finite negative s e with h | ⟨hpos, h⟩ <;> rw [h] <;> cases negative'
      · exact some_cmp_of_lt hbetween.2
      · exact some_cmp_of_gt hbetween.1
      · exact some_cmp_of_lt hbetween.2
      · exact some_cmp_of_gt hbetween.1
    | finite negative' s' e' =>
      cases hp
      cases hq
      have hmono : StrictMono fun q : ℚ => ((q : WithTop ℚ) : Value) :=
        WithBot.coe_strictMono.comp WithTop.coe_strictMono
      rw [compare_finite ha hb]
      exact congrArg some (hmono.cmp_map_eq _ _).symm

end Binary64

/-! ### Doubles -/

/-- What a double stands for, if it is a number or an infinity. -/
def value? (x : Float) : Option Binary64.Value :=
  (Binary64.ofFloat x).value?

theorem unpack_toModel (x : Float) : x.toModel.unpack = (Binary64.ofFloat x).unpacked :=
  Binary64.unpack_eq _

theorem isNaN_iff (x : Float) : x.isNaN = true ↔ value? x = none := by
  show x.toModel.unpack.isNaN = true ↔ _
  rw [unpack_toModel, value?]
  cases Binary64.ofFloat x with
  | nan => exact ⟨fun _ => rfl, fun _ => rfl⟩
  | infinite => exact ⟨nofun, nofun⟩
  | finite negative s e =>
    rcases Binary64.unpacked_finite negative s e with h | ⟨hpos, h⟩ <;> rw [h] <;>
      exact ⟨nofun, nofun⟩

section
variable {x y : Float}

theorem compare_toModel {p q : Binary64.Value} (hp : value? x = some p) (hq : value? y = some q) :
    x.toModel.unpack.compare y.toModel.unpack = some (cmp p q) := by
  rw [unpack_toModel, unpack_toModel]
  exact Binary64.compare_unpacked (Binary64.ofFloat_proper x) (Binary64.ofFloat_proper y) hp hq

/-- With what is no number nothing can be compared. -/
theorem compare_nan (h : x.isNaN = true ∨ y.isNaN = true) :
    x.toModel.unpack.compare y.toModel.unpack = none := by
  have hnan {u : UnpackedFloat} (h : u.isNaN = true) : u = .notANumber := by
    cases u with
    | notANumber => rfl
    | infinity | zero | finite => cases h
  rcases h with h | h
  · rw [hnan h]
    rfl
  · rw [hnan (u := y.toModel.unpack) h]
    cases x.toModel.unpack <;> rfl

theorem beq_iff_compare : (x == y) = true ↔
    x.toModel.unpack.compare y.toModel.unpack = some .eq := by
  show (x.toModel.unpack.compare y.toModel.unpack == some .eq) = true ↔ _
  exact beq_iff_eq

theorem lt_iff_compare : x < y ↔ x.toModel.unpack.compare y.toModel.unpack = some .lt := by
  show decide (x.toModel < y.toModel) = true ↔ _
  rw [decide_eq_true_iff]
  exact beq_iff_eq

theorem le_iff_compare : x ≤ y ↔
    (x.toModel.unpack.compare y.toModel.unpack).any (·.isLE) = true := by
  show decide (x.toModel ≤ y.toModel) = true ↔ _
  rw [decide_eq_true_iff]
  exact Iff.rfl

section
variable (h : x.isNaN = true ∨ y.isNaN = true)
include h

theorem beq_of_nan : (x == y) = false := by
  rw [← Bool.not_eq_true, beq_iff_compare, compare_nan h]
  nofun

theorem not_lt_of_nan : ¬ x < y := by
  rw [lt_iff_compare, compare_nan h]
  nofun

theorem not_le_of_nan : ¬ x ≤ y := by
  rw [le_iff_compare, compare_nan h]
  nofun

end

section
variable {p q : Binary64.Value} (hp : value? x = some p) (hq : value? y = some q)
include hp hq

theorem beq_iff : (x == y) = true ↔ p = q := by
  rw [beq_iff_compare, compare_toModel hp hq, Option.some_inj, cmp_eq_eq_iff]

theorem lt_iff : x < y ↔ p < q := by
  rw [lt_iff_compare, compare_toModel hp hq, Option.some_inj, cmp_eq_lt_iff]

theorem le_iff : x ≤ y ↔ p ≤ q := by
  rw [le_iff_compare, compare_toModel hp hq, Option.any_some, Ordering.isLE_iff_ne_gt,
    not_congr (cmp_eq_gt_iff p q), not_lt]

end

end

/-! ### Numerals without a sign -/

/-- Without a sign a double stands for something, and for nothing below zero. -/
theorem Unsigned.exists_value {x : Float} (h : Unsigned x) : ∃ p, value? x = some p ∧ 0 ≤ p := by
  rcases h with hx | ⟨s, e, hx⟩
  · exact ⟨⊤, congrArg Binary64.value? hx, le_top⟩
  · refine ⟨_, congrArg Binary64.value? hx, WithBot.coe_nonneg.mpr (WithTop.coe_nonneg.mpr ?_)⟩
    show (0 : ℚ) ≤ 1 * (s * 2 ^ e)
    positivity

theorem value?_zero : value? 0 = some 0 := by
  have hzero : Binary64.ofFloat 0 = .finite false 0 Binary64.minExponent := by decide +kernel
  rw [value?, hzero, Binary64.value?, Nat.cast_zero, zero_mul, mul_zero]
  rfl

theorem Unsigned.nonneg {x : Float} (h : Unsigned x) : x.isNaN = false ∧ 0 ≤ x := by
  obtain ⟨p, hp, hpos⟩ := h.exists_value
  refine ⟨Bool.eq_false_iff.mpr fun hnan => ?_, (le_iff value?_zero hp).mpr hpos⟩
  rw [(isNaN_iff x).mp hnan] at hp
  cases hp

end Scriptlet.Decimal
