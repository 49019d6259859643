/-! Decimal numerals: unsigned, of ASCII digits, leading zeros allowed. Both reading and writing
stop at a fixed number of digits. -/

namespace Forth.Numeral

/-- The most digits that a numeral may have to be read, and a number to be written. -/
def digitLimit : Nat := 4300

/-- Whether a lexeme is a numeral: at least one character, and digits only. -/
def isNumeral (lexeme : String) : Bool :=
  !lexeme.isEmpty && lexeme.toList.all Char.isDigit

def value (numeral : String) : Nat :=
  Nat.ofDigitChars 10 numeral.toList 0

/-- A number that can be written: the sign apart, it has at most `digitLimit` digits. -/
abbrev Writable (n : Int) : Prop :=
  n.natAbs < Nat.pow 10 digitLimit

end Forth.Numeral
