import Scriptlet.Text.Basic

/-! Reading numerals.

A numeral is a sign, digits with a point among them or beside them, and an
exponent; only the digits on one side of the point must be there. Underscores
may group the digits. The words for infinity and for no number are numerals too,
in either case of letters. Blanks around a numeral do not matter. The value is
the double nearest to it. -/
namespace Scriptlet.Decimal

/-- The double nearest to `digits * 10 ^ power`; beyond all doubles, infinity. -/
def nearestDouble (digits : Nat) (power : Int) : Float :=
  .ofModel (.ofScientific digits power)

def infinity : Float :=
  .ofBits 0x7FF0000000000000

def notANumber : Float :=
  .ofBits 0x7FF8000000000000

/-- The digits beside a point; there may be none. -/
def digitsOrNone? (text : List Char) : Option (List Nat) :=
  if text.isEmpty then some [] else Text.groupedDigits? text

/-- A numeral without sign or exponent: all its digits, and how many of them are
behind the point. -/
def significand? (text : List Char) : Option (List Nat × Nat) :=
  let whole := text.takeWhile (· ≠ '.')
  match text.dropWhile (· ≠ '.') with
  | [] => (Text.groupedDigits? whole).map (·, 0)
  | _ :: fraction =>
    if whole.isEmpty && fraction.isEmpty then none
    else do
      let ws ← digitsOrNone? whole
      let fs ← digitsOrNone? fraction
      return (ws ++ fs, fs.length)

/-- The magnitude of a numeral without its sign. -/
def magnitude? (text : List Char) : Option Float := do
  let lower := text.map Char.toLower
  if lower = ['i', 'n', 'f'] ∨ lower = ['i', 'n', 'f', 'i', 'n', 'i', 't', 'y'] then
    return infinity
  if lower = ['n', 'a', 'n'] then
    return notANumber
  let isMark := fun c : Char => c == 'e' || c == 'E'
  let (digits, places) ← significand? (text.takeWhile fun c => !isMark c)
  let power ← match text.dropWhile fun c => !isMark c with
    | [] => some 0
    | _ :: rest => Text.signed? rest
  return nearestDouble (Text.ofDigits digits) (power - places)

/-- The double that a numeral denotes. -/
def read? (text : String) : Option Float :=
  match Text.numeralChars text with
  | '-' :: rest => (magnitude? rest).map fun x => -x
  | '+' :: rest => magnitude? rest
  | rest => magnitude? rest

end Scriptlet.Decimal
