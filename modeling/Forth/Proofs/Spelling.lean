import Forth.Proofs.Running
import Forth.Proofs.Text.Lexemes

/-! The case of letters makes no difference anywhere in the language. Reading only asks what lexemes
mean as tokens, and those of a text in upper case mean what those of the text do, so two texts with
the same upper case are evaluated alike on every machine. -/

namespace Forth

/-- A reading that leaves the same lexemes, in upper case. -/
def Reading.folded {α : Type} (reading : Reading α) : Reading α :=
  ⟨reading.result, reading.rest.map Text.upper⟩

theorem Source.readBody_map_upper (name : String) (lexemes : List String) :
    readBody name (lexemes.map Text.upper) = (readBody name lexemes).folded := by
  induction lexemes with
  | nil => rfl
  | cons lexeme rest ih =>
    rw [List.map_cons, readBody, readBody, Token.ofLexeme_upper, ih]
    cases Token.ofLexeme lexeme <;> rfl

theorem Source.read_map_upper (lexemes : List String) :
    read (lexemes.map Text.upper) = (read lexemes).folded := by
  cases lexemes with
  | nil => rfl
  | cons lexeme rest =>
    rw [List.map_cons, read, read, Token.ofLexeme_upper]
    cases Token.ofLexeme lexeme with
    | word name => exact congrArg (Reading.map (mk name)) (readBody_map_upper name rest)
    | _ => rfl

theorem Phrase.read_map_upper (lexeme : String) (rest : List String) :
    read (Text.upper lexeme) (rest.map Text.upper) = (read lexeme rest).folded := by
  rw [read, read, Token.ofLexeme_upper]
  cases Token.ofLexeme lexeme with
  | colon => exact congrArg (Reading.map definition) (Source.read_map_upper rest)
  | _ => rfl

theorem Program.read_map_upper (lexemes : List String) :
    Program.read (lexemes.map Text.upper) = Program.read lexemes := by
  induction lexemes using Phrase.induction_on_lexemes with
  | nil => rfl
  | cons lexeme rest ih =>
    rw [List.map_cons, Program.read_cons, Program.read_cons, Phrase.read_map_upper,
      Reading.folded, ih]

namespace Machine

theorem run_map_upper (lexemes : List String) (m : Machine) :
    m.run (lexemes.map Text.upper) = m.run lexemes := by
  rw [run, run, Program.read_map_upper]

theorem eval_upper (text : String) (m : Machine) : m.eval (Text.upper text) = m.eval text := by
  rw [eval, eval, Text.lexemes_upper, run_map_upper]

/-- Texts with the same upper case leave the same stack and dictionary, write the same and fail with
the same fault, if they fail. -/
theorem eval_eq_of_upper_eq {text other : String} (same : Text.upper text = Text.upper other)
    (m : Machine) : m.eval text = m.eval other := by
  rw [← eval_upper text, same, eval_upper]

/-- Letters that become others, and one that becomes two, in the name of a word and in a call. -/
theorem eval_eq_of_upper_eq_mass :
    Text.upper ": maß dup ; 3 maß ſwap ﬁn" = Text.upper ": MASS DUP ; 3 Mass SwaP Fin" ∧
      fresh.eval ": maß dup ; 3 maß ſwap ﬁn" = fresh.eval ": MASS DUP ; 3 Mass SwaP Fin" := by
  have same :
      Text.upper ": maß dup ; 3 maß ſwap ﬁn" = Text.upper ": MASS DUP ; 3 Mass SwaP Fin" := by
    decide +kernel
  exact ⟨same, eval_eq_of_upper_eq same fresh⟩

end Machine

end Forth
