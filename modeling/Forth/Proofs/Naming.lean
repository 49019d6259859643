import Forth.Proofs.Reading

/-! The names that programs mention: those of the words they call and define, and those in the
bodies of their definitions. Each of them is the upper case of a lexeme of the program. -/

namespace Forth

def Term.names : Term → List String
  | .number _ => []
  | .word name => [name]

/-- The name that a definition binds, and those in its body. -/
def Source.names (source : Source) : List String :=
  source.name :: source.body.flatMap Term.names

def Phrase.names : Phrase → List String
  | .term part => part.names
  | .definition source => source.names

theorem Term.MeantBy.upper {lexeme : String} {term : Term} (meant : term.MeantBy lexeme) :
    ∀ name ∈ term.names, Text.upper lexeme = name := by
  cases meant with
  | number _ => simp [Term.names]
  | word token => simpa [Term.names] using Token.upper_of_ofLexeme token

namespace Source

theorem exists_meantBy_of_readBody {name : String} {lexemes : List String} {terms : List Term}
    (h : (readBody name lexemes).result = .ok terms) :
    ∀ term ∈ terms, ∃ lexeme ∈ lexemes, term.MeantBy lexeme := by
  induction lexemes generalizing terms with
  | nil => cases h
  | cons lexeme rest ih =>
    rcases readBody_cons_eq_ok h with ⟨-, rfl⟩ | ⟨term, later, meant, read, rfl, -⟩
    · simp
    · refine List.forall_mem_cons.2 ⟨⟨lexeme, List.mem_cons_self, meant⟩, fun other member => ?_⟩
      obtain ⟨found, within, otherMeant⟩ := ih read other member
      exact ⟨found, List.mem_cons_of_mem _ within, otherMeant⟩

theorem names_of_read {lexemes : List String} {source : Source}
    (h : (read lexemes).result = .ok source) :
    ∀ name ∈ source.names, ∃ lexeme ∈ lexemes, Text.upper lexeme = name := by
  cases lexemes with
  | nil => cases h
  | cons lexeme rest =>
    obtain ⟨token, body, -⟩ := read_cons_eq_ok h
    refine List.forall_mem_cons.2
      ⟨⟨lexeme, List.mem_cons_self, Token.upper_of_ofLexeme token⟩, fun name member => ?_⟩
    obtain ⟨term, inBody, named⟩ := List.mem_flatMap.1 member
    obtain ⟨found, within, meant⟩ := exists_meantBy_of_readBody body term inBody
    exact ⟨found, List.mem_cons_of_mem _ within, meant.upper name named⟩

end Source

theorem Phrase.names_of_read {lexeme : String} {rest : List String} {phrase : Phrase}
    (h : (read lexeme rest).result = .ok phrase) :
    ∀ name ∈ phrase.names, ∃ found ∈ lexeme :: rest, Text.upper found = name := by
  intro name member
  rcases read_eq_ok h with ⟨term, meant, rfl⟩ | ⟨source, read, rfl⟩
  · exact ⟨lexeme, List.mem_cons_self, meant.upper name member⟩
  · obtain ⟨found, within, same⟩ := Source.names_of_read read name member
    exact ⟨found, List.mem_cons_of_mem _ within, same⟩

theorem Program.names_of_read (lexemes : List String) :
    ∀ phrase ∈ (Program.read lexemes).phrases, ∀ name ∈ phrase.names,
      ∃ lexeme ∈ lexemes, Text.upper lexeme = name := by
  induction lexemes using Phrase.induction_on_lexemes with
  | nil => simp [Program.read]
  | cons lexeme rest ih =>
    rw [Program.read_cons]
    cases result : (Phrase.read lexeme rest).result with
    | error fault => simp
    | ok phrase =>
      refine List.forall_mem_cons.2 ⟨Phrase.names_of_read result, fun other member name named => ?_⟩
      obtain ⟨found, within, same⟩ := ih other member name named
      obtain ⟨taken, cut, -⟩ := Phrase.read_settled (Reading.whole_of_ok result)
      exact ⟨found, List.mem_cons_of_mem _ (cut ▸ List.mem_append_right taken within), same⟩

end Forth
