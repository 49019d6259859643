import Forth.Numeral
import Forth.Text.Upper

/-! Tokens: what single lexemes mean, before any dictionary is asked. -/

namespace Forth

inductive Token where
  | number (value : Nat)
  /-- A numeral of more digits than can be read. -/
  | overlong (digits : Nat)
  /-- The colon, which begins a definition. -/
  | colon
  /-- The semicolon, which ends a definition. -/
  | semicolon
  /-- Any other lexeme, in upper case. -/
  | word (name : String)
  deriving DecidableEq, Repr

def Token.ofName (name : String) : Token :=
  if name = ":" then .colon else if name = ";" then .semicolon else .word name

def Token.ofLexeme (lexeme : String) : Token :=
  if Numeral.isNumeral lexeme then
    if lexeme.length ≤ Numeral.digitLimit then .number (Numeral.value lexeme)
    else .overlong lexeme.length
  else
    .ofName (Text.upper lexeme)

end Forth
