import Forth.Text.Colour

/-! How numbers, words and built-ins are shown: each kind in a colour of its own. -/

namespace Forth.Text

def shownNumber (digits : String) : String :=
  Colour.cyan.paint digits

def shownWord (name : String) : String :=
  Colour.yellow.paint name

def shownBuiltin (name : String) : String :=
  Colour.grey.paint ("intrinsic<" ++ name ++ ">")

end Forth.Text
