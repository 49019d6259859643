import Forth.Numeral
import Forth.Text.Shown

/-! What can go wrong, by cause, and how it is told. Most faults belong to a family of errors that
a session reports and survives; those without a family end it. -/

namespace Forth

open Text (Colour shownBuiltin shownNumber shownWord)

inductive Family where
  | error
  | execution
  | stackUnderflow
  | divisionByZero
  | unknownWord
  | parsing
  | invalidWord
  deriving DecidableEq, Repr

/-- The name by which the journal mentions the family. -/
def Family.name : Family → String
  | .error => "Error"
  | .execution => "ExecutionError"
  | .stackUnderflow => "StackUnderflow"
  | .divisionByZero => "DivisionByZero"
  | .unknownWord => "UnknownWord"
  | .parsing => "ParsingError"
  | .invalidWord => "InvalidWord"

/-- The family and those that contain it, up to the one of all errors. -/
def Family.lineage : Family → List Family
  | .error => [.error]
  | .execution => [.execution, .error]
  | .stackUnderflow => [.stackUnderflow, .execution, .error]
  | .divisionByZero => [.divisionByZero, .execution, .error]
  | .unknownWord => [.unknownWord, .error]
  | .parsing => [.parsing, .error]
  | .invalidWord => [.invalidWord, .parsing, .error]

structure Report where
  family : Family
  message : String
  deriving DecidableEq, Repr

/-- The report as a session shows it. -/
def Report.text (report : Report) : String :=
  Colour.brightRed.paint "ERROR:" ++ " " ++ report.message

inductive Fault where
  /-- Fewer values than `needed` were on the stack. -/
  | underflow (needed available : Nat)
  | divisionByZero (dividend : Int)
  /-- No word has the name, which stands as it was written. -/
  | unknownWord (name : String)
  | notExecutable (name : String)
  /-- A reference to a word was asked for its contents. -/
  | notUnboxable (name : String)
  /-- Nothing follows the colon. -/
  | missingName
  | numericName (value : Nat)
  | reservedName (name : String)
  /-- A colon inside the body of the definition `name`. -/
  | nestedDefinition (name : String)
  /-- No semicolon ends the definition `name`. -/
  | unclosedDefinition (name : String)
  /-- A semicolon outside any definition. -/
  | strayClose
  /-- A numeral with more digits than can be read. -/
  | numeralTooLong (digits : Nat)
  /-- A number with more digits than can be written. -/
  | numberTooLong
  /-- A position beyond either end of the stack. -/
  | noSuchValue
  /-- A position that is too far away for any stack. -/
  | outOfReach
  /-- The body of a new definition holds a definition, which the journal cannot tell. -/
  | nestedBody
  /-- A word that refers to itself, by way of others or not. -/
  | circular (name : String)
  deriving DecidableEq, Repr

namespace Fault

/-- The family of a fault that a session survives. -/
def family? : Fault → Option Family
  | underflow .. => some .stackUnderflow
  | divisionByZero _ => some .divisionByZero
  | unknownWord _ => some .unknownWord
  | notExecutable _ | notUnboxable _ => some .execution
  | missingName | numericName _ | reservedName _ | nestedDefinition _ | unclosedDefinition _
  | strayClose => some .invalidWord
  | numeralTooLong _ | numberTooLong | noSuchValue | outOfReach | nestedBody | circular _ => none

def message : Fault → String
  | underflow needed available =>
    if 1 < needed then
      toString needed ++ " values needed, " ++ toString available ++ " on stack"
    else
      "one value needed (empty stack)"
  | divisionByZero dividend => "division of " ++ toString dividend ++ " by zero"
  | unknownWord name => "unknown word " ++ shownWord name
  | notExecutable name => "atom " ++ shownBuiltin name ++ " cannot be executed"
  | notUnboxable name => "atom " ++ shownWord name ++ " cannot be unboxed"
  | missingName => "missing word name after :"
  | numericName value => "word name " ++ shownNumber (toString value) ++ " is a number"
  | reservedName name => "word name " ++ shownWord name ++ " is reserved"
  | nestedDefinition name => "nested definition inside " ++ shownWord name
  | unclosedDefinition name => "missing closing ; in definition of " ++ shownWord name
  | strayClose => shownWord ";" ++ " without matching :"
  | numeralTooLong digits =>
    "Exceeds the limit (" ++ toString Numeral.digitLimit ++
      " digits) for integer string conversion: value has " ++ toString digits ++
      " digits; use sys.set_int_max_str_digits() to increase the limit"
  | numberTooLong =>
    "Exceeds the limit (" ++ toString Numeral.digitLimit ++
      " digits) for integer string conversion; use sys.set_int_max_str_digits() to increase " ++
      "the limit"
  | noSuchValue => "list index out of range"
  | outOfReach => "cannot fit 'int' into an index-sized integer"
  | nestedBody => "'Definition' object has no attribute 'value'"
  | circular name => "word " ++ shownWord name ++ " refers to itself"

def report? (fault : Fault) : Option Report :=
  fault.family?.map fun family => ⟨family, fault.message⟩

end Fault

end Forth
