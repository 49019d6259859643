import Forth.Fault
import Forth.Token

/-! Programs as they are written: lexemes read into phrases, each a number, a word or a whole colon
definition. What a lexeme means does not hang on the state of the machine, so reading comes before
running. A program that breaks off keeps the phrases read until then. -/

namespace Forth

/-- A number or a word, the parts of a definition's body. -/
inductive Term where
  | number (value : Nat)
  | word (name : String)
  deriving DecidableEq, Repr

structure Source where
  name : String
  body : List Term
  deriving DecidableEq, Repr

/-- The outcome of reading from the front of a list of lexemes, and the lexemes not read. -/
structure Reading (α : Type) where
  result : Except Fault α
  rest : List String

def Reading.map {α β : Type} (f : α → β) (reading : Reading α) : Reading β :=
  ⟨reading.result.map f, reading.rest⟩

/-- Reads the body of the definition `name`, up to and including the semicolon. -/
def Source.readBody (name : String) : List String → Reading (List Term)
  | [] => ⟨.error (.unclosedDefinition name), []⟩
  | lexeme :: rest =>
    match Token.ofLexeme lexeme with
    | .semicolon => ⟨.ok [], rest⟩
    | .colon => ⟨.error (.nestedDefinition name), rest⟩
    | .overlong digits => ⟨.error (.numeralTooLong digits), rest⟩
    | .number value => (readBody name rest).map (.number value :: ·)
    | .word w => (readBody name rest).map (.word w :: ·)

/-- Reads what follows a colon: the name, then the body. -/
def Source.read : List String → Reading Source
  | [] => ⟨.error .missingName, []⟩
  | lexeme :: rest =>
    match Token.ofLexeme lexeme with
    | .number value => ⟨.error (.numericName value), rest⟩
    | .overlong digits => ⟨.error (.numeralTooLong digits), rest⟩
    | .colon => ⟨.error (.reservedName ":"), rest⟩
    | .semicolon => ⟨.error (.reservedName ";"), rest⟩
    | .word name => (readBody name rest).map (Source.mk name)

theorem Source.length_rest_readBody_le (name : String) (lexemes : List String) :
    (readBody name lexemes).rest.length ≤ lexemes.length := by
  induction lexemes with
  | nil => simp [readBody]
  | cons lexeme rest ih =>
    rw [readBody]
    split <;> simp only [Reading.map, List.length_cons] <;> omega

theorem Source.length_rest_read_le (lexemes : List String) :
    (read lexemes).rest.length ≤ lexemes.length := by
  cases lexemes with
  | nil => simp [read]
  | cons lexeme rest =>
    rw [read]
    split
    · simp
    · simp
    · simp
    · simp
    · exact Nat.le_succ_of_le (length_rest_readBody_le _ rest)

/-- What a program does as one step. -/
inductive Phrase where
  | term (term : Term)
  | definition (source : Source)
  deriving DecidableEq, Repr

/-- The phrases of a program in order, and the fault at which reading it stops. -/
structure Program where
  phrases : List Phrase
  fault? : Option Fault
  deriving DecidableEq, Repr

def Program.cons (phrase : Phrase) (program : Program) : Program :=
  { program with phrases := phrase :: program.phrases }

def Program.read : List String → Program
  | [] => ⟨[], none⟩
  | lexeme :: rest =>
    match Token.ofLexeme lexeme with
    | .number value => .cons (.term (.number value)) (read rest)
    | .word name => .cons (.term (.word name)) (read rest)
    | .overlong digits => ⟨[], some (.numeralTooLong digits)⟩
    | .semicolon => ⟨[], some .strayClose⟩
    | .colon =>
      let reading := Source.read rest
      match reading.result with
      | .ok source => .cons (.definition source) (read reading.rest)
      | .error fault => ⟨[], some fault⟩
termination_by lexemes => lexemes.length
decreasing_by
  · simp
  · simp
  · exact Nat.lt_succ_of_le (Source.length_rest_read_le rest)

end Forth
