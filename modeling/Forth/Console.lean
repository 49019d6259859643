import Forth.Evaluation

/-! The console: a session that reads lines, evaluates each, and prints reports, the stack and a
prompt between them. A fault without a report ends the session, also one met while printing. -/

namespace Forth.Console

open Text (Colour shownNumber shownWord)

inductive Row where
  /-- A value, labelled with its position counted from the top one, which is 1. -/
  | value (label : Nat) (shown : Int)
  /-- The mark between the bottom value and the topmost ones. -/
  | ellipsis
  deriving DecidableEq, Repr

/-- The most values that a listing shows one after the other. -/
def shownDepth : Nat := 10

/-- The listing of a stack: its topmost values, the top one last. A deeper stack has its bottom
value above them, and a mark. -/
def rows (s : Stack) : List Row :=
  let topmost := ((s.values.take shownDepth).zipIdx 1).reverse.map fun (shown, label) =>
    Row.value label shown
  match s.values.getLast? with
  | some bottom =>
    if shownDepth < s.depth then .value s.depth bottom :: .ellipsis :: topmost else topmost
  | none => topmost

def Row.line : Row → String
  | value label shown =>
    Colour.grey.paint ("  " ++ toString label ++ " :") ++ "\r\t\t" ++
      shownNumber (toString shown) ++ "\n"
  | ellipsis => Colour.grey.paint "  ...\r\t\t..." ++ "\n"

def Row.isWritable : Row → Bool
  | value _ shown => decide (Numeral.Writable shown)
  | ellipsis => true

/-- What a session prints, one thing after the other. -/
inductive Item where
  | greeting (words : List String)
  /-- The heading of a listing, with an empty line above. -/
  | heading
  | row (row : Row)
  | prompt (text : String)
  | report (report : Report)
  | farewell
  deriving DecidableEq, Repr

def Item.text : Item → String
  | .greeting words =>
    "Welcome to " ++ Colour.brightWhite.paint "MINIFORTH" ++ " " ++
      Colour.green.paint "( minimal Forth evaluator )" ++ ".\n" ++
      "Words : " ++ " ".intercalate (words.map shownWord) ++ "\n" ++
      "Example:" ++ Colour.grey.paint "  : square dup * ; 7 square" ++ "\n\n"
  | .heading => "\n" ++ Colour.grey.paint "STACK" ++ "\n"
  | .row shown => shown.line
  | .prompt text => text
  | .report told => told.text ++ "\n"
  | .farewell => "\nSee you soon !\n\n"

def output (run : Run Item) : String :=
  String.join (run.written.map Item.text)

/-- How a console presents itself. -/
structure Settings where
  prompt : String := Colour.brightWhite.paint ">> "
  showStack : Bool := true
  deriving DecidableEq, Repr

def greet (m : Machine) : Run Item :=
  .wrote [.greeting m.dictionary.names] m

/-- Prints rows up to the first that cannot be written. -/
def printRows : List Row → Machine → Run Item
  | [], m => .wrote [] m
  | row :: rest, m =>
    if row.isWritable then (Run.wrote [.row row] m).andThen (printRows rest)
    else .stopped .numberTooLong m

def printStack (m : Machine) : Run Item :=
  (Run.wrote [.heading] m).andThen (printRows (rows m.stack))

def ask (settings : Settings) (m : Machine) : Run Item :=
  (if settings.showStack then printStack m else .wrote [] m).andThen
    (.wrote [.prompt settings.prompt])

/-- Evaluates a line of input, and prints the report if there is one. -/
def answer (line : String) (m : Machine) : Run Item :=
  let run := m.eval line
  match run.fault? with
  | none => .wrote [] run.machine
  | some fault =>
    match fault.report? with
    | some report => .wrote [.report report] run.machine
    | none => .stopped fault run.machine

/-- Works through lines of input: asks for each, and once more before it takes its leave. -/
def converse (settings : Settings) : List String → Machine → Run Item
  | [], m => (ask settings m).andThen (.wrote [.farewell])
  | line :: rest, m => ((ask settings m).andThen (answer line)).andThen (converse settings rest)

/-- The lines of a text: a line feed ends a line, and what follows the last one is a line too if
it is not empty. -/
def lines : List Char → List (List Char)
  | [] => []
  | c :: rest =>
    if c = '\n' then [] :: lines rest
    else match lines rest with
      | [] => [[c]]
      | line :: others => (c :: line) :: others

def session (settings : Settings) (input : String) : Run Item :=
  (greet .fresh).andThen (converse settings ((lines input.toList).map String.ofList))

end Forth.Console
