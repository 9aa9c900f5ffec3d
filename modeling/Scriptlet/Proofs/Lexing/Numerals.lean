import Scriptlet.Decimal.Numeral
import Scriptlet.Proofs.Lexing.Exactness

/-! The numbers of a source can be read.

Numerals allow much that no number token has: signs, exponents, underscores, other
scripts, blanks around them. Of a number token only ASCII digits are left, with a
point among them or without one, so that none of the ways in which a numeral can
be malformed is open to it. -/
namespace Scriptlet

/-! ### Digits -/

namespace Text

theorem isDigit_bounds {c : Char} (h : c.isDigit = true) : 48 ≤ c.toNat ∧ c.toNat ≤ 57 := by
  simp only [Char.isDigit, Bool.and_eq_true, decide_eq_true_eq, UInt32.le_iff_toNat_le] at h
  exact h

/-- A digit of ASCII is a digit. -/
theorem digit?_isSome {c : Char} (h : c.isDigit = true) : (digit? c).isSome = true := by
  obtain ⟨hl, hu⟩ := isDigit_bounds h
  rw [digit?, zeros, Option.isSome_map, List.find?_cons_of_pos]
  · rfl
  · simp only [Bool.and_eq_true, decide_eq_true_eq]
    omega

theorem groupedDigits?_isSome {ds : List Char} (hne : ds ≠ [])
    (h : ∀ c ∈ ds, c.isDigit = true) : (groupedDigits? ds).isSome = true := by
  fun_induction groupedDigits? ds with
  | case1 => exact absurd rfl hne
  | case2 c => simpa using digit?_isSome (h c List.mem_cons_self)
  | case3 c rest ih =>
    have := h '_' (by simp)
    exact absurd this (by decide)
  | case4 c rest hrest _ ih =>
    obtain ⟨hc, hds⟩ := List.forall_mem_cons.mp h
    obtain ⟨d, hd⟩ := Option.isSome_iff_exists.mp (digit?_isSome hc)
    obtain ⟨ds, hds⟩ := Option.isSome_iff_exists.mp (ih hrest hds)
    simp [hd, hds]

theorem trimBy_eq_self {p : Char → Bool} {text : List Char} (h : ∀ c ∈ text, p c = false) :
    trimBy p text = text := by
  have hdrop {cs : List Char} (hcs : ∀ c ∈ cs, p c = false) : cs.dropWhile p = cs := by
    cases cs with
    | nil => rfl
    | cons c cs => rw [List.dropWhile_cons_of_neg (by simp [hcs c List.mem_cons_self])]
  rw [trimBy, hdrop h, hdrop (by simpa using h), List.reverse_reverse]

end Text

/-! ### Numerals -/

namespace Decimal

/-- Digits and points. -/
def Plain (cs : List Char) : Prop :=
  ∀ c ∈ cs, c.isDigit = true ∨ c = '.'

theorem plain_digits {ds : List Char} (h : ∀ c ∈ ds, c.isDigit = true) : Plain ds :=
  fun c hc => .inl (h c hc)

theorem plain_fraction {whole ds : List Char} (hw : ∀ c ∈ whole, c.isDigit = true)
    (hd : ∀ c ∈ ds, c.isDigit = true) : Plain (whole ++ '.' :: ds) := by
  intro c hc
  rcases List.mem_append.mp hc with hc | hc
  · exact .inl (hw c hc)
  · rcases List.mem_cons.mp hc with rfl | hc
    · exact .inr rfl
    · exact .inl (hd c hc)

theorem Plain.bounds {cs : List Char} (h : Plain cs) {c : Char} (hc : c ∈ cs) :
    46 ≤ c.toNat ∧ c.toNat ≤ 57 := by
  rcases h c hc with hd | rfl
  · have := Text.isDigit_bounds hd
    omega
  · decide

/-- A numeral of digits and points stands as it is. -/
theorem Plain.numeralChars {cs : List Char} (h : Plain cs) :
    Text.numeralChars (String.ofList cs) = cs := by
  have hplain : cs.map Text.plainChar = cs := by
    refine (List.map_congr_left fun c hc => ?_).trans (List.map_id cs)
    have := h.bounds hc
    rw [Text.plainChar, if_pos (by omega), id]
  rw [Text.numeralChars, String.toList_ofList, hplain, Text.trimBy_eq_self]
  intro c hc
  have := h.bounds hc
  simp only [Text.isPadding, Bool.or_eq_false_iff, beq_eq_false_iff_ne, Bool.and_eq_false_iff,
    decide_eq_false_iff_not]
  refine ⟨?_, by omega⟩
  intro he
  subst he
  exact absurd this (by decide)

/-- Taking what stands before the first character that is not `p`. -/
theorem span_all {p : Char → Bool} {cs : List Char} (h : ∀ c ∈ cs, p c = true) :
    cs.takeWhile p = cs ∧ cs.dropWhile p = [] := by
  have htake : (cs ++ []).takeWhile p = cs ++ [].takeWhile p := List.takeWhile_append_of_pos h
  have hdrop : (cs ++ []).dropWhile p = [].dropWhile p := List.dropWhile_append_of_pos h
  rw [List.append_nil] at htake hdrop
  exact ⟨htake.trans (List.append_nil _), hdrop⟩

theorem isDigit_ne_point {c : Char} (h : c.isDigit = true) : decide (c ≠ '.') = true := by
  rw [decide_eq_true_eq]
  intro he
  subst he
  exact absurd h (by decide)

theorem significand?_digits {ds : List Char} (hne : ds ≠ []) (h : ∀ c ∈ ds, c.isDigit = true) :
    (significand? ds).isSome = true := by
  obtain ⟨htake, hdrop⟩ := span_all fun c hc => isDigit_ne_point (h c hc)
  simp only [significand?, htake, hdrop, Option.isSome_map]
  exact Text.groupedDigits?_isSome hne h

theorem digitsOrNone?_eq {ds : List Char} (hne : ds ≠ []) :
    digitsOrNone? ds = Text.groupedDigits? ds := by
  cases ds with
  | nil => exact absurd rfl hne
  | cons d ds => rfl

theorem significand?_fraction {whole ds : List Char} (hw : whole ≠ [])
    (hwhole : ∀ c ∈ whole, c.isDigit = true) (hne : ds ≠ []) (h : ∀ c ∈ ds, c.isDigit = true) :
    (significand? (whole ++ '.' :: ds)).isSome = true := by
  have hp : ∀ c ∈ whole, decide (c ≠ '.') = true := fun c hc => isDigit_ne_point (hwhole c hc)
  have htake : (whole ++ '.' :: ds).takeWhile (· ≠ '.') = whole := by
    rw [List.takeWhile_append_of_pos hp, List.takeWhile_cons_of_neg (by decide), List.append_nil]
  have hdrop : (whole ++ '.' :: ds).dropWhile (· ≠ '.') = '.' :: ds := by
    rw [List.dropWhile_append_of_pos hp, List.dropWhile_cons_of_neg (by decide)]
  obtain ⟨ws, hws⟩ := Option.isSome_iff_exists.mp (Text.groupedDigits?_isSome hw hwhole)
  obtain ⟨fs, hfs⟩ := Option.isSome_iff_exists.mp (Text.groupedDigits?_isSome hne h)
  have hempty : (whole.isEmpty && ds.isEmpty) = false := by simp [hw]
  simp only [significand?, htake, hdrop, hempty, digitsOrNone?_eq hw, digitsOrNone?_eq hne, hws,
    hfs]
  rfl

/-- No word for a number that is not finite begins with a digit. -/
theorem toLower_of_isDigit {c : Char} (h : c.isDigit = true) : c.toLower = c := by
  have hle := (Text.isDigit_bounds h).2
  refine dif_neg fun hupper => ?_
  have hge : 65 ≤ c.toNat := UInt32.le_iff_toNat_le.mp hupper.1
  omega

/-- A numeral of digits and points that begins with a digit is read by its significand. -/
theorem Plain.exists_nearestDouble {c : Char} {cs : List Char} (h : Plain (c :: cs))
    (hc : c.isDigit = true) (hs : (significand? (c :: cs)).isSome = true) :
    ∃ digits power, read? (String.ofList (c :: cs)) = some (nearestDouble digits power) := by
  have hfirst := Text.isDigit_bounds hc
  have hword {d : Char} (hd : d.isDigit = false) : c ≠ d := by
    intro he
    subst he
    rw [hc] at hd
    cases hd
  have hsign : c ≠ '-' ∧ c ≠ '+' := ⟨hword (by decide), hword (by decide)⟩
  have hmark : ∀ d ∈ c :: cs, (!(d == 'e' || d == 'E')) = true := by
    intro d hd
    have := h.bounds hd
    simp only [Bool.not_eq_true', Bool.or_eq_false_iff, beq_eq_false_iff_ne]
    constructor <;>
    · intro he
      subst he
      exact absurd this (by decide)
  obtain ⟨htake, hdrop⟩ := span_all hmark
  obtain ⟨⟨digits, places⟩, hs⟩ := Option.isSome_iff_exists.mp hs
  have hlower : (c :: cs).map Char.toLower = c :: cs.map Char.toLower := by
    rw [List.map_cons, toLower_of_isDigit hc]
  have hmagnitude : magnitude? (c :: cs) =
      some (nearestDouble (Text.ofDigits digits) (0 - places)) := by
    unfold magnitude?
    simp only [hlower, List.cons.injEq, hword (by decide : 'i'.isDigit = false),
      hword (by decide : 'n'.isDigit = false), false_and, or_self, if_false, htake, hdrop, hs]
    rfl
  rw [read?, h.numeralChars]
  split
  next he => exact absurd (List.cons.inj he).1 hsign.1
  next he => exact absurd (List.cons.inj he).1 hsign.2
  next => exact ⟨_, _, hmagnitude⟩

end Decimal

/-! ### Number tokens -/

/-- Every number lexeme is a numeral, without a sign. -/
theorem Lexeme.exists_nearestDouble {lexeme rest : List Char} (h : Lexeme .number lexeme rest) :
    ∃ digits power,
      Decimal.read? (String.ofList lexeme) = some (Decimal.nearestDouble digits power) := by
  cases h with
  | mark hk => exact absurd hk (by decide)
  | keyword hk => exact absurd hk (by decide)
  | number hne hd =>
    obtain ⟨d, ds, rfl⟩ := List.exists_cons_of_ne_nil hne
    exact (Decimal.plain_digits hd).exists_nearestDouble (hd d List.mem_cons_self)
      (Decimal.significand?_digits hne hd)
  | fraction hne hw hne' hd =>
    have hs := Decimal.significand?_fraction hne hw hne' hd
    have hplain := Decimal.plain_fraction hw hd
    obtain ⟨d, whole, rfl⟩ := List.exists_cons_of_ne_nil hne
    exact hplain.exists_nearestDouble (hw d List.mem_cons_self) hs

/-- Every token is the longest lexeme where it begins. -/
theorem Splits.standing {position : Nat} {source : List Char} {ts : List Token}
    (h : Splits position source ts) :
    ∀ t ∈ ts, ∃ before rest, source = before ++ (t.text.toList ++ rest) ∧
      t.start = position + before.length ∧ LongestLexeme t.kind t.text.toList rest := by
  induction h with
  | last => exact nofun
  | @next position gap kind lexeme rest ts _ hlexeme _ ih =>
    refine List.forall_mem_cons.mpr ⟨⟨gap, rest, ?_, rfl, ?_⟩, fun t ht => ?_⟩
    · rw [String.toList_ofList]
    · rw [String.toList_ofList]
      exact hlexeme
    · obtain ⟨before, behind, hrest, hstart, ht⟩ := ih t ht
      refine ⟨gap ++ lexeme ++ before, behind, ?_, ?_, ht⟩
      · rw [hrest, List.append_assoc, List.append_assoc]
      · simp only [hstart, List.length_append]
        omega

/-- The text of every token is the longest lexeme where it stands. -/
theorem Splits.longestLexeme {position : Nat} {source : List Char} {ts : List Token}
    (h : Splits position source ts) :
    ∀ t ∈ ts, ∃ rest, LongestLexeme t.kind t.text.toList rest := by
  intro t ht
  obtain ⟨_, rest, -, -, hlexeme⟩ := h.standing t ht
  exact ⟨rest, hlexeme⟩

/-- The numbers of a source can be read. -/
theorem Splits.number {position : Nat} {source : List Char} {ts : List Token}
    (h : Splits position source ts) :
    ∀ t ∈ ts, t.kind = .number → (Decimal.read? t.text).isSome = true := by
  intro t ht hk
  obtain ⟨rest, hlexeme⟩ := h.longestLexeme t ht
  rw [hk] at hlexeme
  cases hlexeme with
  | known hlexeme =>
    obtain ⟨digits, power, hread⟩ := hlexeme.exists_nearestDouble
    rw [String.ofList_toList] at hread
    rw [hread]
    rfl

end Scriptlet
