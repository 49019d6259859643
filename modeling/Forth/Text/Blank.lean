/-! Blanks and the lexemes they separate. Six ASCII characters are blank and nothing else is, so
the other spaces of Unicode are part of the lexeme they stand in. -/

namespace Forth.Text

/-- Space, tab, line feed, carriage return, form feed and vertical tab. -/
def isBlank (c : Char) : Bool :=
  c = ' ' || c = '\t' || c = '\n' || c = '\r' || c = '\x0c' || c = '\x0b'

/-- The maximal runs without a blank, in order. -/
def chunks : List Char → List (List Char)
  | [] => []
  | c :: rest =>
    if isBlank c then chunks rest
    else (c :: rest.takeWhile (!isBlank ·)) :: chunks (rest.dropWhile (!isBlank ·))
termination_by cs => cs.length
decreasing_by
  · exact Nat.lt_succ_self _
  · exact Nat.lt_succ_of_le (List.dropWhile_sublist _).length_le

def lexemes (text : String) : List String :=
  (chunks text.toList).map String.ofList

end Forth.Text
