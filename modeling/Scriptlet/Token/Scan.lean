import Scriptlet.Text.Basic
import Scriptlet.Token.Basic

/-! Scanning: from the source to its tokens.

At every position of a source stands an item: a blank, a comment or a lexeme.
`itemAt` names the item that begins with a given character and says how many of
the following characters belong to it, always as many as can. The scan walks
over the source once, emits a token for each lexeme and passes over the
characters that an item has claimed. It never fails: a character that begins no
lexeme becomes a token of its own, and a string without a closing quote takes
the rest of the source. -/
namespace Scriptlet

/-- What begins at a position, with the number of characters it has beside the
first. -/
inductive Item where
  /-- A blank or a comment. -/
  | gap (more : Nat)
  | lexeme (kind : Kind) (more : Nat)
  deriving DecidableEq, Repr

namespace Item

def more : Item → Nat
  | .gap more => more
  | .lexeme _ more => more

/-- The token of a lexeme at `position`, where `c` stands before `rest`. -/
def token? (position : Nat) (c : Char) (rest : List Char) : Item → Option Token
  | .gap _ => none
  | .lexeme kind more =>
    some ⟨kind, position, position + more, String.ofList (c :: rest.take more)⟩

/-- How many characters at the beginning of `rest` satisfy `p`. -/
def run (p : Char → Bool) (rest : List Char) : Nat :=
  (rest.takeWhile p).length

/-- The letters of names: those of ASCII, and the underscore. -/
def isNameChar (c : Char) : Bool :=
  c.isAlpha || c == '_'

/-- How many characters of `rest` are a point and the digits behind it. -/
def fractionLength : List Char → Nat
  | '.' :: d :: rest => if d.isDigit then 2 + run Char.isDigit rest else 0
  | _ => 0

/-- A number goes on with digits, and with a point if a digit follows it. -/
def numberRest (rest : List Char) : Nat :=
  let whole := run Char.isDigit rest
  whole + fractionLength (rest.drop whole)

/-- A string goes on to the next quote, or to the end of the source. -/
def stringRest (rest : List Char) : Nat :=
  let inner := run (· ≠ '"') rest
  if inner < rest.length then inner + 1 else inner

/-- The lexeme that begins with `c`, which is not blank, before `rest`. -/
def lexemeAt (c : Char) (rest : List Char) : Item :=
  match Kind.ofMark? c with
  | some kind => .lexeme kind 0
  | none =>
    match Kind.ofMarkBeforeEqual? c with
    | some (bare, withEqual) =>
      if rest.head? = some '=' then .lexeme withEqual 1 else .lexeme bare 0
    | none =>
      if c = '"' then .lexeme .string (stringRest rest)
      else if c.isDigit then .lexeme .number (numberRest rest)
      else if isNameChar c then
        let more := run isNameChar rest
        .lexeme (Kind.ofWord (String.ofList (c :: rest.take more))) more
      else .lexeme .unknown 0

/-- The item that begins with `c` before `rest`. A comment begins with two
slashes and ends before the next newline. -/
def itemAt (c : Char) (rest : List Char) : Item :=
  if Text.isBlank c then .gap 0
  else if c = '/' ∧ rest.head? = some '/' then .gap (run (· ≠ '\n') rest)
  else lexemeAt c rest

end Item

/-- The tokens of a source from `position` on, of which the first `skip`
characters are already claimed. -/
def tokensFrom : Nat → Nat → List Char → List Token
  | _, _, [] => []
  | position, skip + 1, _ :: rest => tokensFrom (position + 1) skip rest
  | position, 0, c :: rest =>
    let item := Item.itemAt c rest
    (item.token? position c rest).toList ++ tokensFrom (position + 1) item.more rest

/-! ### One item after the other -/

namespace Item

theorem run_le (p : Char → Bool) (rest : List Char) : run p rest ≤ rest.length :=
  (List.takeWhile_sublist p).length_le

theorem fractionLength_le (rest : List Char) : fractionLength rest ≤ rest.length := by
  fun_cases fractionLength with
  | case1 d more _ =>
    have := run_le Char.isDigit more
    simp only [List.length_cons]
    omega
  | case2 => exact Nat.zero_le _
  | case3 => exact Nat.zero_le _

theorem numberRest_le (rest : List Char) : numberRest rest ≤ rest.length := by
  have h := run_le Char.isDigit rest
  have hf := fractionLength_le (rest.drop (run Char.isDigit rest))
  rw [List.length_drop] at hf
  simp only [numberRest]
  omega

theorem stringRest_le (rest : List Char) : stringRest rest ≤ rest.length := by
  have h := run_le (· ≠ '"') rest
  simp only [stringRest]
  split <;> omega

theorem more_lexemeAt_le (c : Char) (rest : List Char) :
    (lexemeAt c rest).more ≤ rest.length := by
  fun_cases lexemeAt with
  | case1 => exact Nat.zero_le _
  | case2 _ _ _ _ h => cases rest <;> simp_all [more]
  | case3 => exact Nat.zero_le _
  | case4 => exact stringRest_le rest
  | case5 => exact numberRest_le rest
  | case6 => exact run_le isNameChar rest
  | case7 => exact Nat.zero_le _

/-- An item claims no more characters than there are. -/
theorem more_itemAt_le (c : Char) (rest : List Char) : (itemAt c rest).more ≤ rest.length := by
  fun_cases itemAt with
  | case1 => exact Nat.zero_le _
  | case2 => exact run_le _ rest
  | case3 => exact more_lexemeAt_le c rest

end Item

/-- Claimed characters are passed over. -/
theorem tokensFrom_skip (position skip : Nat) (source : List Char) (h : skip ≤ source.length) :
    tokensFrom position skip source = tokensFrom (position + skip) 0 (source.drop skip) := by
  induction source generalizing position skip with
  | nil => simp [tokensFrom]
  | cons c rest ih =>
    cases skip with
    | zero => rfl
    | succ n =>
      rw [tokensFrom, ih _ _ (by simpa using h), List.drop_succ_cons]
      congr 1
      omega

/-- The scan goes on behind the item at its position. -/
theorem tokensFrom_cons (position : Nat) (c : Char) (rest : List Char) :
    tokensFrom position 0 (c :: rest) =
      ((Item.itemAt c rest).token? position c rest).toList ++
        tokensFrom (position + 1 + (Item.itemAt c rest).more) 0
          (rest.drop (Item.itemAt c rest).more) := by
  rw [tokensFrom, tokensFrom_skip _ _ _ (Item.more_itemAt_le c rest)]

/-! ### Whole sources -/

/-- The end marker of a source, at its last character. -/
def endMarker (length : Nat) : Token :=
  ⟨.eof, length - 1, length - 1, ""⟩

/-- The tokens of a source. -/
def Tokens.scan (source : List Char) : Tokens :=
  ⟨tokensFrom 0 0 source, endMarker source.length⟩

/-- The tokens of a source whose kinds and spans are known. Spans may reach
beyond the source; a token has the text that is there. What comes behind the
first end marker does not count. -/
def Tokens.ofSpans (source : List Char) (spans : List (Kind × Nat × Nat)) : Tokens :=
  let token := fun (kind, start, stop) =>
    if kind = .eof then (⟨kind, start, stop, ""⟩ : Token)
    else ⟨kind, start, stop, String.ofList ((source.take (stop + 1)).drop start)⟩
  let (body, rest) := spans.span fun s => s.1 ≠ .eof
  ⟨body.map token, (rest.head?.map token).getD (endMarker source.length)⟩

end Scriptlet
