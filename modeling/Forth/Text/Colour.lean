/-! Terminal colours: the sequences that switch the colour of what follows, and painted texts. -/

namespace Forth.Text

inductive Colour where
  | green
  | yellow
  | cyan
  | grey
  | brightRed
  | brightWhite
  deriving DecidableEq, Repr

def Colour.on : Colour → String
  | .green => "\x1b[32m"
  | .yellow => "\x1b[33m"
  | .cyan => "\x1b[36m"
  | .grey => "\x1b[90m"
  | .brightRed => "\x1b[91m"
  | .brightWhite => "\x1b[97m"

/-- The escape sequence that switches back to the terminal's own colour. -/
def colourOff : String := "\x1b[39m"

def Colour.paint (colour : Colour) (text : String) : String :=
  colour.on ++ text ++ colourOff

end Forth.Text
