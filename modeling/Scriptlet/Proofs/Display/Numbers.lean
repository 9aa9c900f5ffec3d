import Scriptlet.Decimal.Notation
import Scriptlet.Proofs.Display.Rounding
import Scriptlet.Proofs.Lexing.Numerals

/-! What is written of a number tells which number it is.

The text of a number that is not whole has a value, that of its digits with the point
and the exponent taken into account, and this is the value of the shortest decimal
(`textValue_fractional`). The shortest decimal lies near no other double, so that two
doubles without a sign that are written the same are the same (`write_injective`). -/
namespace Scriptlet.Decimal

open Binary64 (Normal minExponent)

/-! ### The value of a text -/

/-- The number that digits denote. -/
def digitsValue (digits : List Char) : Nat :=
  Nat.ofDigitChars 10 digits 0

/-- The value of digits with a point among them, or with none. -/
def pointValue (text : List Char) : ℚ :=
  let fraction := (text.dropWhile (· ≠ '.')).drop 1
  digitsValue (text.takeWhile (· ≠ '.') ++ fraction) * 10 ^ (-(fraction.length : ℤ))

/-- The value of such digits with an exponent below zero, or with none. -/
def textValue (text : List Char) : ℚ :=
  pointValue (text.takeWhile (· ≠ 'e')) *
    10 ^ (-(digitsValue ((text.dropWhile (· ≠ 'e')).drop 2) : ℤ))

/-- Digits and no other characters. -/
def AllDigits (digits : List Char) : Prop :=
  ∀ c ∈ digits, c.isDigit = true

section
variable {whole fraction digits : List Char}

theorem AllDigits.append (h : AllDigits whole) (h' : AllDigits fraction) :
    AllDigits (whole ++ fraction) :=
  fun c hc => (List.mem_append.mp hc).elim (h c) (h' c)

theorem allDigits_toDigits (n : Nat) : AllDigits (Nat.toDigits 10 n) :=
  fun _ => Nat.isDigit_of_mem_toDigits (by decide) (by decide)

theorem allDigits_zeros (n : Nat) : AllDigits (List.replicate n '0') :=
  fun _ hc => List.eq_of_mem_replicate hc ▸ rfl

theorem AllDigits.ne (h : AllDigits digits) {mark : Char} (hmark : mark.isDigit = false) :
    ∀ c ∈ digits, decide (c ≠ mark) = true := by
  intro c hc
  rw [decide_eq_true_iff]
  rintro rfl
  rw [h c hc] at hmark
  cases hmark

/-- Taking what stands before a mark, and the mark and what stands behind it. -/
theorem span_mark {p : Char → Bool} {text : List Char} (h : ∀ c ∈ text, p c = true) {mark : Char}
    (hmark : p mark = false) (rest : List Char) :
    (text ++ mark :: rest).takeWhile p = text ∧
      (text ++ mark :: rest).dropWhile p = mark :: rest := by
  rw [List.takeWhile_append_of_pos h, List.dropWhile_append_of_pos h,
    List.takeWhile_cons_of_neg (by simp [hmark]), List.dropWhile_cons_of_neg (by simp [hmark]),
    List.append_nil]
  exact ⟨rfl, rfl⟩

theorem pointValue_point (hw : AllDigits whole) (fraction : List Char) :
    pointValue (whole ++ '.' :: fraction) =
      digitsValue (whole ++ fraction) * 10 ^ (-(fraction.length : ℤ)) := by
  obtain ⟨htake, hdrop⟩ := span_mark (hw.ne (by decide : '.'.isDigit = false))
    (by decide : decide ('.' ≠ '.') = false) fraction
  rw [pointValue, htake, hdrop]
  rfl

theorem pointValue_digits (h : AllDigits digits) : pointValue digits = digitsValue digits := by
  obtain ⟨htake, hdrop⟩ := span_all (h.ne (by decide : '.'.isDigit = false))
  rw [pointValue, htake, hdrop]
  simp

/-- Zeros in front do not count. -/
theorem digitsValue_zeros (n : Nat) (digits : List Char) :
    digitsValue (List.replicate n '0' ++ digits) = digitsValue digits := by
  rw [digitsValue, Nat.ofDigitChars_append, Nat.ofDigitChars_replicate_zero, Nat.mul_zero]
  rfl

/-- Every zero behind multiplies by ten. -/
theorem digitsValue_append_zeros (digits : List Char) (n : Nat) :
    digitsValue (digits ++ List.replicate n '0') = digitsValue digits * 10 ^ n := by
  rw [digitsValue, Nat.ofDigitChars_append, Nat.ofDigitChars_replicate_zero, Nat.mul_comm]
  rfl

end

/-- A text without an exponent has the value of its digits and its point. -/
theorem textValue_plain {text : List Char} (h : ∀ c ∈ text, c ≠ 'e') :
    textValue text = pointValue text := by
  obtain ⟨htake, hdrop⟩ := span_all fun c hc => decide_eq_true (h c hc)
  rw [textValue, htake, hdrop]
  simp [digitsValue, Nat.ofDigitChars]

/-! ### Numbers that are not whole -/

/-- How a number is written that is not whole: with its value, and not with digits alone. -/
structure Denotes (text : List Char) (value : ℚ) : Prop where
  value : textValue text = value
  begins : ∃ c rest, text = c :: rest ∧ c.isDigit = true
  plain : ∀ c ∈ text, c.isDigit = true ∨ c ∈ ['.', 'e', '-']
  fractional : ∃ c ∈ text, c.isDigit = false

theorem denotes_point {whole fraction : List Char} (hne : whole ≠ []) (hw : AllDigits whole)
    (hf : AllDigits fraction) :
    Denotes (whole ++ '.' :: fraction)
      (digitsValue (whole ++ fraction) * 10 ^ (-(fraction.length : ℤ))) := by
  have hplain : ∀ c ∈ whole ++ '.' :: fraction, c.isDigit = true ∨ c = '.' := by
    intro c hc
    rcases List.mem_append.mp hc with hc | hc
    · exact .inl (hw c hc)
    · exact (List.mem_cons.mp hc).symm.imp (hf c) id
  obtain ⟨c, rest, rfl⟩ := List.exists_cons_of_ne_nil hne
  refine ⟨?_, ⟨c, _, rfl, hw c List.mem_cons_self⟩, fun d hd => ?_,
    '.', List.mem_append_right _ List.mem_cons_self, rfl⟩
  · rw [textValue_plain fun d hd he => ?_, pointValue_point hw]
    subst he
    rcases hplain _ hd with hdigit | hpoint
    · cases hdigit
    · cases hpoint
  · refine (hplain d hd).imp id ?_
    rintro rfl
    exact List.mem_cons_self

/-- The point falls in front of all digits. -/
theorem denotes_zeros_front {digits : List Char} (h : AllDigits digits) (zeros : Nat) :
    Denotes ('0' :: '.' :: (List.replicate zeros '0' ++ digits))
      (digitsValue digits * 10 ^ (-(zeros : ℤ) - digits.length)) := by
  have hdenotes := denotes_point (List.cons_ne_nil '0' []) (allDigits_zeros 1)
    ((allDigits_zeros zeros).append h)
  have hpower : -((List.replicate zeros '0' ++ digits).length : ℤ) =
      -(zeros : ℤ) - digits.length := by
    rw [List.length_append, List.length_replicate]
    omega
  have hvalue : digitsValue (['0'] ++ (List.replicate zeros '0' ++ digits)) =
      digitsValue digits := digitsValue_zeros (zeros + 1) digits
  rwa [hpower, hvalue] at hdenotes

/-- The point falls behind all digits. -/
theorem denotes_zeros_behind {digits : List Char} (hne : digits ≠ []) (h : AllDigits digits)
    (zeros : Nat) :
    Denotes (digits ++ List.replicate zeros '0' ++ '.' :: ['0'])
      (digitsValue digits * 10 ^ (zeros : ℤ)) := by
  have hdenotes := denotes_point (List.append_ne_nil_of_left_ne_nil hne _)
    (h.append (allDigits_zeros zeros)) (allDigits_zeros 1)
  have hvalue : (digitsValue (digits ++ List.replicate zeros '0' ++ ['0']) : ℚ) * 10 ^ (-1 : ℤ) =
      digitsValue digits * 10 ^ (zeros : ℤ) := by
    have hzeros := digitsValue_append_zeros digits (zeros + 1)
    rw [List.replicate_succ', ← List.append_assoc] at hzeros
    rw [hzeros]
    push_cast
    rw [mul_assoc, ← zpow_natCast, ← zpow_add₀ (by norm_num)]
    congr 2
    omega
  exact hvalue ▸ hdenotes

theorem denotes_positional {digits : List Char} (hne : digits ≠ []) (h : AllDigits digits)
    (point : ℤ) :
    Denotes (positional digits point) (digitsValue digits * 10 ^ (point - digits.length)) := by
  unfold positional
  split
  next hpoint =>
    have hzeros : -((-point).toNat : ℤ) = point := by omega
    have hdenotes := denotes_zeros_front h (-point).toNat
    rwa [hzeros] at hdenotes
  next hpoint =>
    dsimp only
    split
    next hempty =>
      have hlength : digits.length ≤ point.toNat := by
        rwa [List.isEmpty_iff, List.drop_eq_nil_iff] at hempty
      have hzeros : ((point.toNat - digits.length : Nat) : ℤ) = point - digits.length := by omega
      rw [List.take_of_length_le hlength, ← hzeros]
      exact denotes_zeros_behind hne h _
    next hmore =>
      have hlength : point.toNat < digits.length := by
        rwa [List.isEmpty_iff, List.drop_eq_nil_iff, Nat.not_le] at hmore
      have htake : digits.take point.toNat ≠ [] := by
        rw [ne_eq, List.take_eq_nil_iff, not_or]
        exact ⟨by omega, hne⟩
      have hdenotes := denotes_point htake (fun c hc => h c (List.mem_of_mem_take hc))
        fun c hc => h c (List.mem_of_mem_drop (i := point.toNat) hc)
      have hpower : -((digits.drop point.toNat).length : ℤ) = point - digits.length := by
        rw [List.length_drop]
        omega
      rw [List.take_append_drop, hpower] at hdenotes
      rwa [Nat.sub_eq_zero_of_le hlength.le, List.replicate_zero, List.append_nil]

/-- Digits with a point behind the first one, if there are more. -/
def pointed (first : Char) (rest : List Char) : List Char :=
  first :: if rest.isEmpty then [] else '.' :: rest

/-- The digits of an exponent, of which there are two at least. -/
def atLeastTwo (digits : List Char) : List Char :=
  if digits.length < 2 then '0' :: digits else digits

theorem scientific_cons (first : Char) (rest : List Char) (exponent : Int) :
    scientific (first :: rest) exponent =
      pointed first rest ++ 'e' :: '-' :: atLeastTwo (Nat.toDigits 10 (-exponent).toNat) :=
  rfl

section
variable {first : Char} {rest digits : List Char}

theorem pointValue_pointed (h : AllDigits (first :: rest)) :
    pointValue (pointed first rest) =
      digitsValue (first :: rest) * 10 ^ (-(rest.length : ℤ)) := by
  obtain ⟨hfirst, hrest⟩ := List.forall_mem_cons.mp h
  cases rest with
  | nil =>
    refine (pointValue_digits h).trans ?_
    simp
  | cons d rest => exact pointValue_point (List.forall_mem_singleton.mpr hfirst) (d :: rest)

theorem pointed_plain (h : AllDigits (first :: rest)) :
    ∀ c ∈ pointed first rest, c.isDigit = true ∨ c = '.' := by
  obtain ⟨hfirst, hrest⟩ := List.forall_mem_cons.mp h
  refine List.forall_mem_cons.mpr ⟨.inl hfirst, fun c hc => ?_⟩
  split at hc
  · cases hc
  · exact (List.mem_cons.mp hc).symm.imp (hrest c) id

theorem AllDigits.atLeastTwo (h : AllDigits digits) : AllDigits (atLeastTwo digits) := by
  unfold Decimal.atLeastTwo
  split
  · exact List.forall_mem_cons.mpr ⟨rfl, h⟩
  · exact h

theorem digitsValue_atLeastTwo (digits : List Char) :
    digitsValue (atLeastTwo digits) = digitsValue digits := by
  unfold atLeastTwo
  split
  · exact digitsValue_zeros 1 digits
  · rfl

end

theorem denotes_scientific {digits : List Char} (hne : digits ≠ []) (h : AllDigits digits)
    {exponent : ℤ} (hexponent : exponent ≤ 0) :
    Denotes (scientific digits exponent)
      (digitsValue digits * 10 ^ (exponent + 1 - digits.length)) := by
  obtain ⟨first, rest, rfl⟩ := List.exists_cons_of_ne_nil hne
  have hplain := pointed_plain h
  have hpower := (allDigits_toDigits (-exponent).toNat).atLeastTwo
  have hmark : ∀ c ∈ pointed first rest, decide (c ≠ 'e') = true := by
    intro c hc
    rw [decide_eq_true_iff]
    rintro rfl
    rcases hplain _ hc with hdigit | hpoint
    · cases hdigit
    · cases hpoint
  rw [scientific_cons]
  refine ⟨?_, ⟨first, _, rfl, h first List.mem_cons_self⟩, fun c hc => ?_,
    'e', List.mem_append_right _ List.mem_cons_self, rfl⟩
  · obtain ⟨htake, hdrop⟩ := span_mark hmark (by decide : decide ('e' ≠ 'e') = false)
      ('-' :: atLeastTwo (Nat.toDigits 10 (-exponent).toNat))
    have hvalue : digitsValue (atLeastTwo (Nat.toDigits 10 (-exponent).toNat)) =
        (-exponent).toNat := (digitsValue_atLeastTwo _).trans Nat.ofDigitChars_ten_toDigits
    have hexponent : -((-exponent).toNat : ℤ) = exponent := by omega
    rw [textValue, htake, hdrop, pointValue_pointed h, List.drop_succ_cons, List.drop_succ_cons,
      List.drop_zero, hvalue, hexponent, mul_assoc, ← zpow_add₀ (by norm_num)]
    congr 2
    rw [List.length_cons]
    omega
  · rcases List.mem_append.mp hc with hc | hc
    · refine (hplain c hc).imp id ?_
      rintro rfl
      exact List.mem_cons_self
    · rcases List.mem_cons.mp hc with rfl | hc
      · exact .inr (by decide)
      rcases List.mem_cons.mp hc with rfl | hc
      · exact .inr (by decide)
      · exact .inl (hpower c hc)

/-- **A number that is not whole is written with its value.** -/
theorem denotes_fractional (digits : Nat) (power : ℤ) :
    Denotes (fractional digits power) (digits * 10 ^ power) := by
  have hne : Nat.toDigits 10 digits ≠ [] := Nat.toDigits_ne_nil
  have hdigits := allDigits_toDigits digits
  have hvalue : digitsValue (Nat.toDigits 10 digits) = digits := Nat.ofDigitChars_ten_toDigits
  unfold fractional
  dsimp only
  split
  next hsmall =>
    have hexponent : (Nat.toDigits 10 digits).length + power - 1 ≤ 0 := by
      have hless : (Nat.toDigits 10 digits).length + power - 1 < -4 := hsmall
      omega
    have hdenotes := denotes_scientific hne hdigits hexponent
    have hpower : (Nat.toDigits 10 digits).length + power - 1 + 1 -
        (Nat.toDigits 10 digits).length = power := by omega
    rwa [hvalue, hpower] at hdenotes
  next =>
    have hdenotes := denotes_positional hne hdigits ((Nat.toDigits 10 digits).length + power)
    have hpower : (Nat.toDigits 10 digits).length + power -
        (Nat.toDigits 10 digits).length = power := by omega
    rwa [hvalue, hpower] at hdenotes

/-! ### All numbers without a sign -/

theorem whole?_value {significand : Nat} {exponent : Int} {n : Nat}
    (h : whole? significand exponent = some n) : (n : ℚ) = significand * 2 ^ exponent := by
  cases exponent with
  | ofNat e =>
    cases h
    show ((significand * 2 ^ e : Nat) : ℚ) = significand * 2 ^ (e : ℤ)
    rw [zpow_natCast]
    push_cast
    rfl
  | negSucc e =>
    simp only [whole?] at h
    split at h
    next hmod =>
      cases h
      obtain ⟨k, rfl⟩ : 2 ^ (e + 1) ∣ significand := Nat.dvd_of_mod_eq_zero hmod
      show ((2 ^ (e + 1) * k / 2 ^ (e + 1) : Nat) : ℚ) = _
      rw [Nat.mul_div_cancel_left k (Nat.two_pow_pos _), zpow_negSucc]
      push_cast
      field_simp
    next => cases h

/-- Zero is whole. -/
theorem pos_of_whole? {significand : Nat} {exponent : Int}
    (h : whole? significand exponent = none) : 0 < significand := by
  refine Nat.pos_of_ne_zero ?_
  rintro rfl
  cases exponent with
  | ofNat => cases h
  | negSucc e =>
    rw [whole?, if_pos (Nat.zero_mod _)] at h
    cases h

/-- The ways in which a number without a sign is written. -/
inductive Written (x : Float) : List Char → Prop
  | infinite : Binary64.ofFloat x = .infinite false → Written x ['i', 'n', 'f']
  | whole {significand exponent} {n : Nat} : Binary64.ofFloat x = .finite false significand exponent →
      (n : ℚ) = significand * 2 ^ exponent → Written x (Nat.toDigits 10 n)
  | fractional {significand exponent text} :
      Binary64.ofFloat x = .finite false significand exponent → 0 < significand →
      Denotes text ((shortest significand exponent).1 * 10 ^ (shortest significand exponent).2) →
      Written x text

theorem Unsigned.written {x : Float} (h : Unsigned x) (nan : String) :
    Written x (write nan x).toList := by
  rcases h with hx | ⟨significand, exponent, hx⟩
  · have hwrite : write nan x = "inf" := by rw [write, hx]; rfl
    rw [hwrite]
    exact .infinite hx
  · cases hwhole : whole? significand exponent with
    | some n =>
      have hwrite : write nan x = String.ofList (Nat.toDigits 10 n) := by
        rw [write, hx]
        simp only [hwhole, Bool.false_and, Bool.false_eq_true, if_false, List.nil_append]
      rw [hwrite, String.toList_ofList]
      exact .whole hx (whole?_value hwhole)
    | none =>
      have hwrite : write nan x = String.ofList
          (Decimal.fractional (shortest significand exponent).1 (shortest significand exponent).2) := by
        rw [write, hx]
        simp only [hwhole, Bool.false_eq_true, if_false, List.nil_append]
      rw [hwrite, String.toList_ofList]
      exact .fractional hx (pos_of_whole? hwhole) (denotes_fractional _ _)

/-- A number that is no infinity is written with a digit first. -/
theorem Written.begins {x : Float} {text : List Char} (h : Written x text) :
    x = infinity ∧ text = ['i', 'n', 'f'] ∨ ∃ c rest, text = c :: rest ∧ c.isDigit = true := by
  cases h with
  | infinite hx =>
    have hinfinity : Binary64.ofFloat infinity = .infinite false := by decide +kernel
    refine .inl ⟨Binary64.ofFloat_injective (hx.trans hinfinity.symm) ?_, rfl⟩
    rw [hx]
    nofun
  | whole _ _ =>
    obtain ⟨c, rest, htext⟩ := List.exists_cons_of_ne_nil (Nat.toDigits_ne_nil)
    exact .inr ⟨c, rest, htext, allDigits_toDigits _ c (htext ▸ List.mem_cons_self)⟩
  | fractional _ _ h => exact .inr h.begins

theorem normal_of_finite {x : Float} {negative : Bool} {significand : Nat} {exponent : Int}
    (h : Binary64.ofFloat x = .finite negative significand exponent) :
    Normal significand exponent :=
  Binary64.ofBits_normal h

/-- A text is written of one number only. -/
theorem Written.unique {x y : Float} {text other : List Char} (hx : Written x text)
    (hy : Written y other) (h : text = other) : Binary64.ofFloat x = Binary64.ofFloat y := by
  -- An infinity begins with a letter, and only what is whole has nothing but digits.
  have hinf {z : Float} (hz : Written z ['i', 'n', 'f']) : Binary64.ofFloat z = .infinite false := by
    rcases hz.begins with ⟨rfl, -⟩ | ⟨c, rest, htext, hc⟩
    · decide +kernel
    · cases htext
      cases hc
  have hapart {n : Nat} {q : ℚ} (hq : Denotes (Nat.toDigits 10 n) q) : False := by
    obtain ⟨c, hc, hdigit⟩ := hq.fractional
    rw [allDigits_toDigits n c hc] at hdigit
    cases hdigit
  cases hx with
  | infinite hx => rw [hx, hinf (h ▸ hy)]
  | whole hx hvalue =>
    cases hy with
    | infinite hy => rw [hy, hinf (h ▸ .whole hx hvalue)]
    | whole hy hvalue' =>
      have hn := congrArg digitsValue h
      simp only [digitsValue, Nat.ofDigitChars_ten_toDigits] at hn
      subst hn
      obtain ⟨rfl, rfl⟩ := parts_unique (normal_of_finite hx) (normal_of_finite hy)
        (hvalue.symm.trans hvalue')
      rw [hx, hy]
    | fractional _ _ hdenotes => exact (hapart (h ▸ hdenotes)).elim
  | fractional hx hpos hdenotes =>
    cases hy with
    | infinite hy => rw [hy, hinf (h ▸ .fractional hx hpos hdenotes)]
    | whole => exact (hapart (h ▸ hdenotes)).elim
    | fractional hy hpos' hdenotes' =>
      have hvalue := hdenotes.value.symm.trans (h ▸ hdenotes'.value)
      obtain ⟨rfl, rfl⟩ := holds_unique (normal_of_finite hx) (normal_of_finite hy) hpos hpos'
        (holds_shortest (normal_of_finite hx) hpos)
        (hvalue ▸ holds_shortest (normal_of_finite hy) hpos')
      rw [hx, hy]

/-- **Two numbers without a sign that are written the same are the same.** -/
theorem write_injective {x y : Float} (hx : Unsigned x) (hy : Unsigned y) {nan : String}
    (h : write nan x = write nan y) : x = y := by
  have hparts := (hx.written nan).unique (hy.written nan) (congrArg String.toList h)
  refine Binary64.ofFloat_injective hparts ?_
  rcases hx with hx | ⟨_, _, hx⟩ <;> rw [hx] <;> nofun

end Scriptlet.Decimal
