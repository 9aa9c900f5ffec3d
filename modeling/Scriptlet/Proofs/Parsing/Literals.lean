import Scriptlet.Proofs.Comparing.Doubles
import Scriptlet.Proofs.Display.Leaves
import Scriptlet.Proofs.Locality.Spacing
import Scriptlet.Proofs.Parsing.Grounds

/-! Literals mean what their text says.

The scanner cuts a literal out of the source by its span, and the parser takes its value
from the text alone: a string is closed if its text ends with a quote, and a number is what
its digits are read as. Both agree for every source (`Token.Spelled`), so that no number is
ever refused (`literals_spelled`). -/
namespace Scriptlet

/-- Digits, and possibly a point with digits behind it. -/
def IsNumeral (text : List Char) : Prop :=
  ∃ whole, whole ≠ [] ∧ (∀ c ∈ whole, c.isDigit = true) ∧
    (text = whole ∨ ∃ digits, digits ≠ [] ∧ (∀ c ∈ digits, c.isDigit = true) ∧
      text = whole ++ '.' :: digits)

/-- Another quote stands in the source, behind the one that the string begins with. -/
def Token.Terminated (source : List Char) (t : Token) : Prop :=
  '"' ∈ source.drop (t.start + 1)

instance (source : List Char) (t : Token) : Decidable (t.Terminated source) :=
  inferInstanceAs (Decidable ('"' ∈ source.drop (t.start + 1)))

/-- What the text of a token is, and how that is read. -/
structure Token.Spelled (source : List Char) (t : Token) : Prop where
  span : t.kind ≠ .eof → t.text.toList = Text.slice source t.start (t.stop + 1)
  quoted : t.kind = .string → '"' ∉ t.stringValue.toList ∧
    t.text.toList =
      '"' :: (t.stringValue.toList ++ if t.Terminated source then ['"'] else [])
  reported : t.kind = .string →
    (⟨.unterminatedString, t⟩ ∈ (Tokens.scan source).lexical ↔ ¬ t.Terminated source)
  numeral : t.kind = .number → IsNumeral t.text.toList
  number : t.kind = .number →
    ∃ x, Decimal.read? t.text = some x ∧ Decimal.Unsigned x ∧ x.isNaN = false ∧ 0 ≤ x
  name : t.kind = .identifier → IsName t.text

theorem Lexeme.isNumeral {lexeme rest : List Char} (h : Lexeme .number lexeme rest) :
    IsNumeral lexeme := by
  cases h with
  | mark hk => exact absurd hk (by decide)
  | keyword hk => exact absurd hk (by decide)
  | number hne hd => exact ⟨_, hne, hd, .inl rfl⟩
  | fraction hne hw hne' hd => exact ⟨_, hne, hw, .inr ⟨_, hne', hd, rfl⟩⟩

theorem Lexeme.exists_number {t : Token} {rest : List Char}
    (h : Lexeme .number t.text.toList rest) :
    ∃ x, Decimal.read? t.text = some x ∧ Decimal.Unsigned x ∧ x.isNaN = false ∧ 0 ≤ x := by
  obtain ⟨digits, power, hread⟩ := h.exists_nearestDouble
  have hunsigned := Decimal.nearestDouble_unsigned digits power
  rw [String.ofList_toList] at hread
  exact ⟨_, hread, hunsigned, hunsigned.nonneg⟩

/-- Whether a string is closed can be told from its text and from the source alike. -/
theorem Lexeme.quoted {t : Token} {before rest source : List Char}
    (h : Lexeme .string t.text.toList rest) (hsource : source = before ++ (t.text.toList ++ rest))
    (hstart : t.start = before.length) :
    (t.text.toList =
      '"' :: (t.stringValue.toList ++ if t.Terminated source then ['"'] else [])) ∧
    (t.isClosed = true ↔ t.Terminated source) := by
  have hbehind {inner : List Char} (ht : t.text.toList = '"' :: inner) :
      source.drop (t.start + 1) = inner ++ rest := by
    rw [hsource, hstart, ht, ← List.drop_drop, List.drop_left]
    rfl
  obtain ⟨text, htext, hclosed | ⟨hopen, hrest⟩⟩ := h.of_string
  · have hterminated : t.Terminated source := by
      rw [Token.Terminated, hbehind hclosed]
      exact List.mem_append_left rest List.mem_concat_self
    rw [if_pos hterminated, Token.stringValue_closed hclosed]
    exact ⟨hclosed, iff_of_true (Token.isClosed_of_closed hclosed) hterminated⟩
  · have hno : '"' ∉ text := fun hmem => htext _ hmem rfl
    have hterminated : ¬ t.Terminated source := by
      rw [Token.Terminated, hbehind hopen, hrest, List.append_nil]
      exact hno
    have hnotClosed : t.isClosed = false := Token.isClosed_of_open (by rw [hopen]; exact hno)
    rw [if_neg hterminated, Token.stringValue_open hopen htext, List.append_nil, hnotClosed]
    exact ⟨hopen, iff_of_false Bool.false_ne_true hterminated⟩

theorem LongestLexeme.lexeme {kind : Kind} {lexeme rest : List Char}
    (h : LongestLexeme kind lexeme rest) (hk : kind ≠ .unknown) : Lexeme kind lexeme rest := by
  cases h with
  | known h => exact h
  | unknown => exact absurd rfl hk

theorem mem_lexical {source : List Char} {t : Token} (ht : t ∈ (Tokens.scan source).body)
    (hk : t.kind = .string) :
    ⟨.unterminatedString, t⟩ ∈ (Tokens.scan source).lexical ↔ ¬ t.isClosed = true := by
  have hunterminated : t.isUnterminated = true ↔ ¬ t.isClosed = true := by
    rw [Token.isUnterminated, hk]
    simp
  rw [← hunterminated, Tokens.lexical, List.mem_map]
  constructor
  · rintro ⟨u, hu, he⟩
    cases he
    exact (List.mem_filter.mp hu).2
  · exact fun h => ⟨t, List.mem_filter.mpr ⟨ht, h⟩, rfl⟩

theorem scan_spelled (source : List Char) : ∀ t ∈ (Tokens.scan source).toList, t.Spelled source := by
  intro t ht
  have hlegible := scan_legible source t ht
  rcases List.mem_append.mp ht with hbody | hfinal
  · have hsplits : Splits 0 source (Tokens.scan source).body := splits_iff.mpr rfl
    obtain ⟨before, rest, hsource, hstart, hlongest⟩ := hsplits.standing t hbody
    rw [Nat.zero_add] at hstart
    have hlexeme {kind : Kind} (hk : t.kind = kind) (hknown : kind ≠ .unknown) :
        Lexeme kind t.text.toList rest :=
      (hk ▸ hlongest).lexeme hknown
    refine ⟨fun _ => ((hsplits.standsIn [] rfl).1 t hbody).text, fun hk => ?_, fun hk => ?_,
      fun hk => (hlexeme hk nofun).isNumeral, fun hk => (hlexeme hk nofun).exists_number,
      hlegible.name⟩
    · exact ⟨hlegible.string hk, ((hlexeme hk nofun).quoted hsource hstart).1⟩
    · rw [mem_lexical hbody hk, ((hlexeme hk nofun).quoted hsource hstart).2]
  · obtain rfl := List.mem_singleton.mp hfinal
    constructor <;> exact nofun

/-- The parser refuses no number, whatever the source and the limit. -/
theorem numbers_accepted (room : Nat) (source : List Char) (text : String) :
    ∀ d ∈ (parse room source).diagnostics, d.fault ≠ .invalidNumber text := by
  intro d hd hfault
  have htoken := diagnostics_mem room source d hd
  rcases List.mem_append.mp hd with hlexical | hnoted
  · obtain ⟨t, -, rfl⟩ := List.mem_map.mp hlexical
    cases hfault
  · have hgrounded := parseTokens_grounded room (Tokens.scan source) d hnoted
    rw [Diagnostic.Grounded, hfault] at hgrounded
    obtain ⟨hk, htext, hread⟩ := hgrounded
    obtain ⟨x, hx, -⟩ := (scan_spelled source d.token htoken).number hk
    rw [htext, hread] at hx
    cases hx

/-- **Literals are read as they are spelled.** A string is what stands between its quotes, and
it has the second one exactly if the source does; a number is read as a double that is no less
than zero; a name is a word that is no keyword. Hence no number is at fault. -/
theorem literals_spelled (source : List Char) :
    (∀ t ∈ (Tokens.scan source).toList, t.Spelled source) ∧
      ∀ limit : Int, ∀ d ∈ (parse limit.toNat source).diagnostics, ∀ text,
        d.fault ≠ .invalidNumber text :=
  ⟨scan_spelled source, fun limit d hd text => numbers_accepted limit.toNat source text d hd⟩

/-- A quote with nothing behind it. -/
theorem literals_spelled_quote :
    (⟨.string, 0, 0, "\""⟩ : Token).Spelled ['"'] ∧
      Fault.unterminatedString ≠ .invalidNumber "\"" :=
  ⟨(literals_spelled ['"']).1 _ (by decide),
    (literals_spelled ['"']).2 41 ⟨.unterminatedString, ⟨.string, 0, 0, "\""⟩⟩ (by decide) _⟩

end Scriptlet
