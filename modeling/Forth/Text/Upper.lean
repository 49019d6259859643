import Forth.Text.CaseRuns

/-! Upper case of characters and of texts. One letter may become several, so a text can grow. -/

namespace Forth.Text

/-- The upper case of a code point: itself unless a run of letters covers it, which no run does that
begins after it. -/
def upperCode (c : Nat) : List Nat :=
  match (caseRuns.takeWhile (·.first ≤ c)).find? (·.covers c) with
  | some run => run.apply c
  | none => [c]

def upperChar (c : Char) : List Char :=
  (upperCode c.toNat).map Char.ofNat

/-- A text with every character replaced by its upper case, whatever stands around it. -/
def upper (text : String) : String :=
  String.ofList (text.toList.flatMap upperChar)

end Forth.Text
