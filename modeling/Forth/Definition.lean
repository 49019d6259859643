import Forth.Journal
import Forth.Machine
import Forth.Program

/-! Colon definitions: their bodies are resolved against the dictionary as it stands when the
semicolon is reached, so binding a name anew leaves the words defined before as they are. -/

namespace Forth

/-- The code of a body's part as the dictionary stands: a word gives way to what it is bound to,
opened by one layer. -/
def Dictionary.resolve (d : Dictionary) : Term → Except Fault (List Code)
  | .number value => .ok [.literal value]
  | .word name =>
    match d.lookup name with
    | some code => code.unbox
    | none => .error (.unknownWord name)

def Dictionary.resolveAll (d : Dictionary) : List Term → Except Fault (List Code)
  | [] => .ok []
  | term :: terms => do return (← d.resolve term) ++ (← d.resolveAll terms)

namespace Machine

/-- Binds the name of a definition to its code and records it. The word stays bound when its body
cannot be recorded. -/
def install (name : String) (body : List Code) (m : Machine) : Run Notice :=
  let after := { m with dictionary := m.dictionary.define name (.colon name body) }
  match body.mapM Code.plainText with
  | .ok texts => .wrote [.defined name texts] after
  | .error fault => .stopped fault after

/-- Compiles a definition: resolves its whole body, then binds its name. -/
def define (source : Source) (m : Machine) : Run Notice :=
  match m.dictionary.resolveAll source.body with
  | .ok body => m.install source.name body
  | .error fault => .stopped fault m

end Machine

/-- Compiling one definition from the front of some lexemes: the run, the code on success, and the
lexemes that were not read. -/
structure Compilation where
  run : Run Notice
  code? : Option Code
  rest : List String

def Machine.compile (lexemes : List String) (m : Machine) : Compilation :=
  let reading := Source.read lexemes
  match reading.result with
  | .error fault => ⟨.stopped fault m, none, reading.rest⟩
  | .ok source =>
    let run := m.define source
    let code? := match run.fault? with
      | none => run.machine.dictionary.lookup source.name
      | some _ => none
    ⟨run, code?, reading.rest⟩

end Forth
