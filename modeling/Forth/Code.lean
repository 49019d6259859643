import Forth.Primitive
import Forth.Token

/-! Code: what the dictionary binds to a name and what the bodies of definitions are made of, with
its texts for people and for the journal. -/

namespace Forth

open Text (shownBuiltin shownNumber shownWord)

def Numeral.write (n : Int) : Except Fault String :=
  if Writable n then .ok (toString n) else .error .numberTooLong

inductive Code where
  /-- Pushes a number. -/
  | literal (value : Int)
  /-- Executes what the dictionary binds to a name when it is reached. -/
  | call (name : String)
  | primitive (p : Primitive)
  /-- A built-in without behaviour: it can be shown and bound, never executed. -/
  | inert (name comment : String)
  | colon (name : String) (body : List Code)
  deriving Repr

namespace Code

mutual

/-- The coloured text of a piece of code. A definition is shown as its body. -/
def text : Code → Except Fault String
  | literal value => (Numeral.write value).map shownNumber
  | call name => .ok (shownWord name)
  | primitive p => .ok (shownBuiltin p.name)
  | inert name _ => .ok (shownBuiltin name)
  | colon _ body => (texts body).map (String.intercalate " ")

def texts : List Code → Except Fault (List String)
  | [] => .ok []
  | code :: codes => do return (← text code) :: (← texts codes)

end

/-- The code with one layer of definition opened. -/
def unbox : Code → Except Fault (List Code)
  | literal value => .ok [literal value]
  | call name => .error (.notUnboxable name)
  | primitive p => .ok [primitive p]
  | inert name comment => .ok [inert name comment]
  | colon _ body => .ok body

def describe (code : Code) : Except Fault String := do
  let body ← code.unbox
  return " ".intercalate (← texts body)

/-- The uncoloured text by which the journal tells a piece of code. -/
def plainText : Code → Except Fault String
  | literal value => Numeral.write value
  | call name => .ok name
  | primitive p => .ok p.name
  | inert name _ => .ok name
  | colon .. => .error .nestedBody

end Code

/-- A token by itself as code: the colon and the semicolon are names like others. -/
def Token.code : Token → Except Fault Code
  | .number value => .ok (.literal value)
  | .overlong digits => .error (.numeralTooLong digits)
  | .colon => .ok (.call ":")
  | .semicolon => .ok (.call ";")
  | .word name => .ok (.call name)

end Forth
