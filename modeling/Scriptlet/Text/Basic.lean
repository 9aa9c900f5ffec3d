/-! Characters and lines of a text.

The blank characters are the ASCII ones — tab to carriage return, the four
information separators, the space — and those Unicode counts as separators of
words or lines. The scanner skips them, and `trim` removes them at both ends.

Unicode gives each script that has decimal digits ten consecutive characters for
them, from zero to nine, so a table of the zeros determines all digits. Whole
numbers are written with the digits of any script. Digits may be grouped by
underscores, and a sign may stand before them. How long a whole number may be is
limited.

The end of a line is a newline. Offsets count characters from zero and may lie
behind the end of the text. The line that holds an offset is found in two ways that
agree: by its number, which counts the newlines before the offset, and as an
excerpt, the characters around the offset up to the nearest newlines. -/
namespace Scriptlet.Text

/-! ### Blanks -/

def isBlank (c : Char) : Bool :=
  let n := c.toNat
  (9 ≤ n && n ≤ 13) || (28 ≤ n && n ≤ 32) || n == 0x85 || n == 0xA0 || n == 0x1680 ||
    (0x2000 ≤ n && n ≤ 0x200A) || n == 0x2028 || n == 0x2029 || n == 0x202F || n == 0x205F ||
    n == 0x3000

/-- The text without the characters at both ends that `p` holds of. -/
def trimBy (p : Char → Bool) (text : List Char) : List Char :=
  ((text.dropWhile p).reverse.dropWhile p).reverse

/-- The text without the blanks at both ends. -/
def trim (text : List Char) : List Char :=
  trimBy isBlank text

/-! ### Digits -/

/-- The digit zero of every script, as code points. -/
def zeros : List Nat :=
  [0x30, 0x660, 0x6F0, 0x7C0, 0x966, 0x9E6, 0xA66, 0xAE6, 0xB66, 0xBE6, 0xC66, 0xCE6, 0xD66,
    0xDE6, 0xE50, 0xED0, 0xF20, 0x1040, 0x1090, 0x17E0, 0x1810, 0x1946, 0x19D0, 0x1A80, 0x1A90,
    0x1B50, 0x1BB0, 0x1C40, 0x1C50, 0xA620, 0xA8D0, 0xA900, 0xA9D0, 0xA9F0, 0xAA50, 0xABF0,
    0xFF10, 0x104A0, 0x10D30, 0x11066, 0x110F0, 0x11136, 0x111D0, 0x112F0, 0x11450, 0x114D0,
    0x11650, 0x116C0, 0x11730, 0x118E0, 0x11950, 0x11C50, 0x11D50, 0x11DA0, 0x16A60, 0x16AC0,
    0x16B50, 0x1D7CE, 0x1D7D8, 0x1D7E2, 0x1D7EC, 0x1D7F6, 0x1E140, 0x1E2F0, 0x1E950, 0x1FBF0]

/-- The value of a decimal digit of any script. -/
def digit? (c : Char) : Option Nat :=
  (zeros.find? fun z => z ≤ c.toNat && c.toNat < z + 10).map (c.toNat - ·)

/-- Reads decimal digits, at least one. An underscore may stand between two digits
and nowhere else. -/
def groupedDigits? : List Char → Option (List Nat)
  | [] => none
  | [c] => (digit? c).map ([·])
  | c :: '_' :: rest => do return (← digit? c) :: (← groupedDigits? rest)
  | c :: rest => do return (← digit? c) :: (← groupedDigits? rest)

/-- The number that a list of decimal digits denotes. -/
def ofDigits (digits : List Nat) : Nat :=
  digits.foldl (fun n d => 10 * n + d) 0

/-- Digits behind a sign, or without one. -/
def signed? : List Char → Option Int
  | '-' :: rest => (groupedDigits? rest).map fun ds => -(ofDigits ds : Int)
  | '+' :: rest => (groupedDigits? rest).map fun ds => (ofDigits ds : Int)
  | rest => (groupedDigits? rest).map fun ds => (ofDigits ds : Int)

/-- The blanks that may stand around a numeral. -/
def isPadding (c : Char) : Bool :=
  c == ' ' || (9 ≤ c.toNat && c.toNat ≤ 13)

/-- A character as a numeral takes it: the digits of all scripts are those of
ASCII, and all blanks beyond ASCII are spaces. -/
def plainChar (c : Char) : Char :=
  if c.toNat < 0x7F then c
  else if isBlank c then ' '
  else match digit? c with
    | some d => Nat.digitChar d
    | none => c

/-- The characters of a numeral, without the blanks around it. -/
def numeralChars (text : String) : List Char :=
  trimBy isPadding (text.toList.map plainChar)

/-- How many digits a whole number may have, zeros in front included. -/
def maxDigits : Nat := 4300

/-- The whole number that a text denotes, if it is not too long. -/
def integer? (text : String) : Option Int :=
  let numeral := numeralChars text
  if numeral.countP Char.isDigit ≤ maxDigits then signed? numeral else none

/-! ### Lines -/

/-- The number, from one, of the line that holds the offset. -/
def lineNumber (text : List Char) (offset : Nat) : Nat :=
  (text.take offset).count '\n' + 1

/-- The offset at which the line that holds `offset` begins. -/
def lineStart (text : List Char) (offset : Nat) : Nat :=
  let before := text.take offset
  before.length - (before.reverse.takeWhile (· ≠ '\n')).length

/-- The offset of the newline that ends the line holding `offset`, or of the end
of the text. -/
def lineEnd (text : List Char) (offset : Nat) : Nat :=
  min offset text.length + ((text.drop offset).takeWhile (· ≠ '\n')).length

/-- The characters from one offset up to another. -/
def slice (text : List Char) (start stop : Nat) : List Char :=
  (text.take stop).drop start

/-- The text in which every line ends with a newline, whether it ended with a
newline, a carriage return or both. -/
def unifyNewlines : List Char → List Char
  | [] => []
  | '\r' :: '\n' :: rest => '\n' :: unifyNewlines rest
  | '\r' :: rest => '\n' :: unifyNewlines rest
  | c :: rest => c :: unifyNewlines rest

/-- The lines of an input; an unfinished last line counts, an empty one does not. -/
def splitLines (text : List Char) : List (List Char) :=
  go [] text
where
  /-- `done` is the line read so far, backwards. -/
  go (done : List Char) : List Char → List (List Char)
    | [] => if done.isEmpty then [] else [done.reverse]
    | c :: rest => if c = '\n' then done.reverse :: go [] rest else go (c :: done) rest

end Scriptlet.Text
