import Forth.Definition
import Forth.Text.Blank

/-! Evaluation: a machine performs the phrases of a program in order, up to the first fault. -/

namespace Forth.Machine

def affect (m : Machine) (effect : Stack → Effect) : Run Notice :=
  let after := effect m.stack
  ⟨{ m with stack := after.stack }, [], after.fault?⟩

def execute (name : String) (m : Machine) : Run Notice :=
  m.affect (m.dictionary.invoke name)

def perform : Phrase → Machine → Run Notice
  | .term (.number value), m => m.affect fun s => .done (s.push value)
  | .term (.word name), m => m.execute name
  | .definition source, m => m.define source

def performAll : List Phrase → Machine → Run Notice
  | [], m => .wrote [] m
  | phrase :: phrases, m => (m.perform phrase).andThen (performAll phrases)

/-- Runs lexemes as a program: performs the phrases read from them, then fails if reading did. -/
def run (lexemes : List String) (m : Machine) : Run Notice :=
  let program := Program.read lexemes
  (m.performAll program.phrases).andThen fun after => ⟨after, [], program.fault?⟩

/-- Evaluates a text and records the report that stops it. -/
def eval (text : String) (m : Machine) : Run Notice :=
  let run := m.run (Text.lexemes text)
  match run.fault?.bind Fault.report? with
  | some report => { run with written := run.written ++ [.stopped report] }
  | none => run

end Forth.Machine
