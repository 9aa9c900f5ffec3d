import Mathlib.Tactic.Ring
import Scriptlet.Decimal.Notation
import Scriptlet.Decimal.Numeral

/-! The doubles that numerals denote.

A numeral without a sign denotes a double without a sign, and that is a number or an
infinity (`nearestDouble_unsigned`). The parts of a double determine it: its bits can be
put together again (`ofFloat_injective`), and its significand has a leading bit unless the
exponent is the least (`Normal`), so that no double is taken apart in two ways. -/
namespace Scriptlet.Decimal

namespace Binary64

/-! ### Bits -/

/-- The significand and the exponent of a finite double. -/
structure Normal (significand : Nat) (exponent : Int) : Prop where
  least : minExponent ≤ exponent
  bounded : significand < 2 * hidden
  leading : hidden ≤ significand ∨ exponent = minExponent

theorem ofBits_normal {bits : Nat} {negative : Bool} {significand : Nat} {exponent : Int}
    (h : ofBits bits = .finite negative significand exponent) : Normal significand exponent := by
  have hfraction : bits % hidden < hidden := Nat.mod_lt _ (by decide)
  simp only [ofBits] at h
  split at h
  · split at h <;> cases h
  · split at h <;> cases h
    · exact ⟨Int.le_refl _, by omega, .inr rfl⟩
    · exact ⟨by omega, by omega, .inl (Nat.le_add_right _ _)⟩

/-- The bits that stand for a double. -/
def bits : Binary64 → Nat
  | .nan => 0
  | .infinite negative => negative.toNat * Nat.pow 2 63 + 2047 * hidden
  | .finite negative significand exponent =>
    negative.toNat * Nat.pow 2 63 +
      if significand < hidden then significand
      else ((exponent - minExponent).toNat + 1) * hidden + (significand - hidden)

/-- The sign, the exponent and the fraction make up the bits. -/
theorem bits_ofBits {b : Nat} (h : b < 2 ^ 64) (hnan : ofBits b ≠ .nan) : (ofBits b).bits = b := by
  have hsign : (b / Nat.pow 2 63 % 2 == 1).toNat = b / Nat.pow 2 63 := by
    have hone : b / Nat.pow 2 63 < 2 := Nat.div_lt_of_lt_mul h
    rcases Nat.le_one_iff_eq_zero_or_eq_one.mp (Nat.le_of_lt_succ hone) with hone | hone <;>
      rw [hone] <;> rfl
  have hparts : b / Nat.pow 2 63 * Nat.pow 2 63 + (b / hidden % Nat.pow 2 11 * hidden +
      b % hidden) = b := by
    have h63 : Nat.pow 2 63 = 9223372036854775808 := rfl
    have h52 : hidden = 4503599627370496 := rfl
    have h11 : Nat.pow 2 11 = 2048 := rfl
    rw [h63, h52, h11]
    omega
  have hfraction : b % hidden < hidden := Nat.mod_lt _ (by decide)
  simp only [ofBits] at hnan ⊢
  generalize b / hidden % Nat.pow 2 11 = exponent at *
  generalize b % hidden = fraction at *
  split at hnan
  next hexponent =>
    split at hnan
    next hzero =>
      rw [if_pos hexponent, if_pos hzero, bits, hsign, ← hexponent]
      rwa [hzero, Nat.add_zero] at hparts
    next => exact absurd rfl hnan
  next hexponent =>
    rw [if_neg hexponent]
    split
    next hzero =>
      rw [bits, hsign, if_pos hfraction]
      rwa [hzero, Nat.zero_mul, Nat.zero_add] at hparts
    next hpos =>
      have hstep : (minExponent + ((exponent - 1 : Nat) : Int) - minExponent).toNat + 1 =
          exponent := by
        rw [add_sub_cancel_left, Int.toNat_natCast]
        exact Nat.sub_add_cancel (Nat.pos_of_ne_zero hpos)
      rw [bits, hsign, if_neg (Nat.not_lt.mpr (Nat.le_add_right _ _)), hstep,
        Nat.add_sub_cancel_left]
      exact hparts

/-- A double is determined by its parts. -/
theorem ofFloat_injective {x y : Float} (h : ofFloat x = ofFloat y) (hnan : ofFloat x ≠ .nan) :
    x = y := by
  have hbits : x.toBits = y.toBits := by
    refine UInt64.toNat_inj.mp ?_
    have hx := bits_ofBits x.toBits.toNat_lt hnan
    have hy := bits_ofBits y.toBits.toNat_lt fun hy => hnan (h.trans hy)
    rw [← hx, ← hy]
    exact congrArg bits h
  obtain ⟨⟨bits, _⟩⟩ := x
  obtain ⟨⟨bits', _⟩⟩ := y
  obtain rfl : bits = bits' := hbits
  rfl

end Binary64

/-! ### Numerals without a sign -/

/-- A double that is a number or an infinity, without a sign. -/
def Unsigned (x : Float) : Prop :=
  Binary64.ofFloat x = .infinite false ∨
    ∃ significand exponent, Binary64.ofFloat x = .finite false significand exponent

open Float.Model Float.Model.UnpackedFloat

/-- The doubles that are not packed yet and are numbers or an infinity, without a sign. -/
def Nonnegative : UnpackedFloat → Prop
  | .infinity s | .zero s | .finite s .. => s = .positive
  | .notANumber => False

theorem nonnegative_dite {p : Prop} [Decidable p] {f : p → UnpackedFloat}
    {g : ¬ p → UnpackedFloat} (hf : ∀ h, Nonnegative (f h)) (hg : ∀ h, Nonnegative (g h)) :
    Nonnegative (if h : p then f h else g h) := by
  by_cases h : p
  · rw [dif_pos h]
    exact hf h
  · rw [dif_neg h]
    exact hg h

theorem roundWithAccuracy_nonnegative (mantissa : Nat) (exponent : Int) (accuracy : Accuracy) :
    Nonnegative (roundWithAccuracy Format.binary64 .positive mantissa exponent accuracy) :=
  nonnegative_dite (fun _ => rfl) fun _ => rfl

theorem ofScientific_nonnegative (digits : Nat) (power : Int) :
    Nonnegative (UnpackedFloat.ofScientific Format.binary64 digits power) := by
  unfold UnpackedFloat.ofScientific
  refine nonnegative_dite (fun _ => rfl) fun _ => iteInduction (fun _ => rfl) fun _ =>
    iteInduction (fun _ => rfl) fun _ => iteInduction (fun _ => ?_) fun _ => ?_
  · exact roundWithAccuracy_nonnegative _ _ _
  · exact roundWithAccuracy_nonnegative _ _ _

/-- Without a sign there are only the exponent and the fraction. -/
theorem toNat_packComponents (exponent : BitVec 11) (fraction : BitVec 52) :
    (packComponents Format.binary64 .positive exponent fraction).toNat =
      exponent.toNat * Binary64.hidden + fraction.toNat := by
  have happend {m n : Nat} (x : BitVec m) (y : BitVec n) :
      (x ++ y).toNat = x.toNat * 2 ^ n + y.toNat := by
    rw [BitVec.toNat_append, ← Nat.shiftLeft_add_eq_or_of_lt y.isLt, Nat.shiftLeft_eq]
  rw [packComponents, happend, happend]
  show (0 * 2 ^ 11 + exponent.toNat) * 2 ^ 52 + fraction.toNat = _
  rw [Nat.zero_mul, Nat.zero_add]
  rfl

theorem unsigned_components {x : Float} {exponent : BitVec 11} {fraction : BitVec 52}
    (h : x.toBits.toNat = (packComponents Format.binary64 .positive exponent fraction).toNat)
    (hnan : exponent.toNat = 2047 → fraction.toNat = 0) : Unsigned x := by
  rw [toNat_packComponents] at h
  have hexponent := exponent.isLt
  have hfraction : fraction.toNat < Binary64.hidden := fraction.isLt
  have hnegative : x.toBits.toNat / Nat.pow 2 63 = 0 := by
    have h63 : Nat.pow 2 63 = 9223372036854775808 := rfl
    have h52 : Binary64.hidden = 4503599627370496 := rfl
    rw [h52] at h hfraction
    rw [h, h63]
    omega
  have hdiv : x.toBits.toNat / Binary64.hidden % Nat.pow 2 11 = exponent.toNat := by
    rw [h, Nat.mul_comm, Nat.mul_add_div (by decide), Nat.div_eq_of_lt hfraction, Nat.add_zero]
    exact Nat.mod_eq_of_lt hexponent
  have hmod : x.toBits.toNat % Binary64.hidden = fraction.toNat := by
    rw [h, Nat.mul_comm, Nat.mul_add_mod]
    exact Nat.mod_eq_of_lt hfraction
  simp only [Unsigned, Binary64.ofFloat, Binary64.ofBits, hnegative, hdiv, hmod]
  split
  next h2047 =>
    rw [if_pos (hnan h2047)]
    exact .inl rfl
  next =>
    split
    · exact .inr ⟨_, _, rfl⟩
    · exact .inr ⟨_, _, rfl⟩

theorem unsigned_pack {f : UnpackedFloat} (h : Nonnegative f) :
    Unsigned (.ofModel (Float.Model.pack f)) := by
  have hparts : ∃ (exponent : BitVec 11) (fraction : BitVec 52),
      UnpackedFloat.pack Format.binary64 f =
        packComponents Format.binary64 .positive exponent fraction ∧
      (exponent.toNat = 2047 → fraction.toNat = 0) := by
    cases f with
    | notANumber => exact h.elim
    | infinity s =>
      obtain rfl : s = .positive := h
      exact ⟨-1#11, 0#52, rfl, fun _ => rfl⟩
    | zero s =>
      obtain rfl : s = .positive := h
      exact ⟨0#11, 0#52, rfl, fun _ => rfl⟩
    | finite s mantissa exponent hpos =>
      obtain rfl : s = .positive := h
      unfold UnpackedFloat.pack
      dsimp only
      split
      · exact ⟨-1#11, 0#52, rfl, fun _ => rfl⟩
      next hsmall =>
        split
        · refine ⟨_, _, rfl, fun h2047 => absurd (BitVec.toNat_ofNat _ _ ▸ h2047) ?_⟩
          have hless : _ < 2 ^ 11 - 1 := Nat.lt_of_not_le fun hle => hsmall (Nat.le_add_of_sub_le hle)
          rw [Nat.mod_eq_of_lt (Nat.lt_of_lt_of_le hless (by decide))]
          exact Nat.ne_of_lt hless
        · exact ⟨0#11, _, rfl, nofun⟩
  obtain ⟨exponent, fraction, hpack, hnan⟩ := hparts
  exact unsigned_components (congrArg BitVec.toNat hpack) hnan

/-- A numeral without a sign denotes a double without a sign. -/
theorem nearestDouble_unsigned (digits : Nat) (power : Int) : Unsigned (nearestDouble digits power) :=
  unsigned_pack (ofScientific_nonnegative digits power)

end Scriptlet.Decimal
