import Forth.Proofs.Stops

/-! The grammar of programs: numerals, words and definitions, one after the other. Every program
that goes through is in the grammar, and the faults of malformed definitions come up outside of it
only, so that the machine accepts just what the grammar does. -/

namespace Forth

/-- A sequence of numerals, words, and definitions from the colon to the semicolon. -/
inductive Grammatical : List String → Prop
  | nil : Grammatical []
  | term {lexeme : String} {rest : List String} (isPart : IsPart lexeme)
    (later : Grammatical rest) : Grammatical (lexeme :: rest)
  | definition {name : String} {body rest : List String} (isName : IsWord name)
    (parts : ∀ part ∈ body, IsPart part) (later : Grammatical rest) :
    Grammatical (":" :: name :: (body ++ ";" :: rest))

/-! ### Reading -/

/-- What was read of a definition is its name, its body and the semicolon. -/
theorem Source.exists_body_of_read {lexemes : List String} {source : Source}
    (h : (read lexemes).result = .ok source) :
    ∃ name body, lexemes = name :: (body ++ ";" :: (read lexemes).rest) ∧ IsWord name ∧
      ∀ part ∈ body, IsLegible part := by
  cases lexemes with
  | nil => cases h
  | cons lexeme rest =>
    obtain ⟨token, -, -⟩ := read_cons_eq_ok h
    have isName := Token.isWord_of_ofLexeme token
    obtain ⟨body, tail, rfl, legible, ends⟩ := exists_body rest
    obtain ⟨terms, appended⟩ := readBody_append legible (Text.upper lexeme)
    rw [read_of_isWord isName, appended] at h ⊢
    cases ends with
    | semicolon more =>
      rw [readBody_semicolon]
      exact ⟨lexeme, body, rfl, isName, legible⟩
    | nil => cases h
    | colon more => rw [readBody_colon] at h; cases h
    | overlong overlong more => rw [readBody_overlong overlong] at h; cases h

/-- What was read of a phrase is a numeral or a word, or a whole definition. -/
theorem Phrase.lexemes_of_read {lexeme : String} {rest : List String} {phrase : Phrase}
    (h : (read lexeme rest).result = .ok phrase) :
    IsLegible lexeme ∧ (read lexeme rest).rest = rest ∨
      lexeme = ":" ∧ ∃ name body, rest = name :: (body ++ ";" :: (read lexeme rest).rest) ∧
        IsWord name ∧ ∀ part ∈ body, IsLegible part := by
  have kind := Token.meantBy_ofLexeme lexeme
  rw [read] at h ⊢
  generalize Token.ofLexeme lexeme = token at kind h ⊢
  cases kind with
  | number numeral short => exact .inl ⟨.numeral numeral short, rfl⟩
  | word isWord => exact .inl ⟨.word isWord, rfl⟩
  | colon same =>
    obtain ⟨source, result, -⟩ := Reading.of_map_eq_ok h
    exact .inr ⟨same, Source.exists_body_of_read result⟩
  | overlong _ => cases h
  | semicolon _ => cases h

/-- A program that can be read to its end is in the grammar, without an overlong numeral. -/
theorem grammatical_of_read {lexemes : List String}
    (whole : (Program.read lexemes).fault? = none) :
    Grammatical lexemes ∧ ∀ lexeme ∈ lexemes, ¬Numeral.IsOverlong lexeme := by
  induction lexemes using Phrase.induction_on_lexemes with
  | nil => exact ⟨.nil, by simp⟩
  | cons lexeme rest ih =>
    rw [Program.read_cons] at whole
    cases result : (Phrase.read lexeme rest).result with
    | error fault => simp [result] at whole
    | ok phrase =>
      simp only [result] at whole
      obtain ⟨later, short⟩ := ih whole
      rcases Phrase.lexemes_of_read result with
        ⟨legible, same⟩ | ⟨rfl, name, body, cut, isName, legible⟩
      · rw [same] at later short
        exact ⟨.term legible.1 later, List.forall_mem_cons.2 ⟨legible.2, short⟩⟩
      · rw [cut]
        refine ⟨.definition isName (fun part member => (legible part member).1) later, ?_⟩
        simp only [List.forall_mem_cons, List.forall_mem_append]
        exact ⟨Numeral.not_isOverlong (by decide), Numeral.not_isOverlong isName.1,
          fun part member => (legible part member).2, Numeral.not_isOverlong (by decide), short⟩

/-- A body within the grammar is read to its end, or up to an overlong numeral. -/
theorem Source.readBody_of_parts {body : List String} (parts : ∀ part ∈ body, IsPart part)
    (name : String) (rest : List String) :
    (∃ terms, readBody name (body ++ ";" :: rest) = ⟨.ok terms, rest⟩) ∨
      ∃ lexeme ∈ body, Numeral.IsOverlong lexeme ∧
        (readBody name (body ++ ";" :: rest)).result = .error (.numeralTooLong lexeme.length) := by
  obtain ⟨front, tail, rfl, legible, ends⟩ := exists_body body
  obtain ⟨terms, appended⟩ := readBody_append legible name
  rw [List.append_assoc, appended]
  cases ends with
  | nil =>
    rw [List.nil_append, readBody_semicolon]
    exact .inl ⟨_, rfl⟩
  | overlong overlong more =>
    rw [List.cons_append, readBody_overlong overlong]
    exact .inr ⟨_, by simp, overlong, rfl⟩
  | semicolon more => exact absurd rfl ((isPart_iff _).1 (parts ";" (by simp))).2
  | colon more => exact absurd rfl ((isPart_iff _).1 (parts ":" (by simp))).1

/-- Reading a program in the grammar stops at an overlong numeral only. -/
theorem Grammatical.read {lexemes : List String} (grammatical : Grammatical lexemes)
    {fault : Fault} (stopped : (Program.read lexemes).fault? = some fault) :
    ∃ lexeme ∈ lexemes, Numeral.IsOverlong lexeme ∧ fault = .numeralTooLong lexeme.length := by
  induction grammatical with
  | nil => simp [Program.read] at stopped
  | @term lexeme rest isPart _ ih =>
    rw [Program.read_cons] at stopped
    by_cases overlong : Numeral.IsOverlong lexeme
    · rw [Phrase.read_overlong overlong] at stopped
      exact ⟨lexeme, by simp, overlong, (Option.some.inj stopped).symm⟩
    · obtain ⟨term, meant⟩ := IsLegible.meantBy ⟨isPart, overlong⟩
      rw [meant.read] at stopped
      obtain ⟨found, member, told⟩ := ih stopped
      exact ⟨found, List.mem_cons_of_mem _ member, told⟩
  | @definition name body rest isName parts _ ih =>
    rw [Program.read_cons, Phrase.read_colon, Source.read_of_isWord isName] at stopped
    rcases Source.readBody_of_parts parts (Text.upper name) rest with
      ⟨terms, read⟩ | ⟨found, member, overlong, read⟩
    · rw [read] at stopped
      obtain ⟨found, member, told⟩ := ih stopped
      exact ⟨found, by simp [member], told⟩
    · simp only [Reading.map, read] at stopped
      exact ⟨found, by simp [member], overlong, (Option.some.inj stopped).symm⟩

/-- The programs that can be read to their end are those of the grammar, as far as their numerals
can be read. -/
theorem fault?_read_eq_none_iff (lexemes : List String) :
    (Program.read lexemes).fault? = none ↔
      Grammatical lexemes ∧ ∀ lexeme ∈ lexemes, ¬Numeral.IsOverlong lexeme := by
  refine ⟨grammatical_of_read, fun ⟨grammatical, short⟩ => ?_⟩
  cases stopped : (Program.read lexemes).fault? with
  | none => rfl
  | some fault =>
    obtain ⟨lexeme, member, overlong, -⟩ := grammatical.read stopped
    exact absurd overlong (short lexeme member)

/-! ### Running -/

namespace Machine

/-- No phrase fails with the fault of a malformed definition. -/
theorem family?_performAll {m : Machine} (sound : m.dictionary.Sound) {phrases : List Phrase}
    (readable : ∀ phrase ∈ phrases, phrase.Readable) {fault : Fault}
    (stopped : (m.performAll phrases).fault? = some fault) :
    fault.family? ≠ some .invalidWord := by
  induction phrases generalizing m with
  | nil => cases stopped
  | cons phrase phrases ih =>
    obtain ⟨first, later⟩ := List.forall_mem_cons.1 readable
    rw [performAll] at stopped
    cases performed : (m.perform phrase).fault? with
    | none =>
      rw [Run.andThen_of_done performed] at stopped
      exact ih ((History.perform first m).sound sound) later stopped
    | some other =>
      rw [Run.andThen_of_stopped performed, performed] at stopped
      cases stopped
      rcases perform_stopped sound first performed with ⟨name, -, -, rfl⟩ | ⟨_, p, s, -, -, failed⟩
      · exact fun same => by cases same
      · rcases Primitive.family?_of_apply_eq_error failed with family | family | rfl
        · simp [family]
        · simp [family]
        · exact fun same => by cases same

/-- A run that goes through has read a program of the grammar, and one that fails for a malformed
definition has not. -/
theorem grammatical_of_run {m : Machine} (reached : m.Reached) (lexemes : List String) :
    ((m.run lexemes).fault? = none → Grammatical lexemes) ∧
      ∀ fault, (m.run lexemes).fault? = some fault → fault.family? = some .invalidWord →
        ¬Grammatical lexemes := by
  constructor
  · intro done
    rw [run, Run.fault?_andThen_eq_none] at done
    exact ((fault?_read_eq_none_iff lexemes).1 done.2).1
  · intro fault stopped family grammatical
    rw [run] at stopped
    cases performed : (m.performAll (Program.read lexemes).phrases).fault? with
    | none =>
      rw [Run.andThen_of_done performed] at stopped
      obtain ⟨lexeme, -, -, rfl⟩ := grammatical.read stopped
      cases family
    | some other =>
      rw [Run.andThen_of_stopped performed, performed] at stopped
      cases stopped
      exact family?_performAll reached.sound (Program.readable_read lexemes) performed family

/-- A program with a definition in it, and one whose definition holds another. -/
theorem grammatical_of_run_nested :
    let m := fresh.after [.eval ": twice dup + ;"]
    ((m.run ["3", ":", "quad", "Twice", "twice", ";", "quad"]).fault? = none ∧
      Grammatical ["3", ":", "quad", "Twice", "twice", ";", "quad"]) ∧
    ((m.run ["3", ":", "quad", "Twice", ":", "twice", ";", ";"]).fault? =
        some (.nestedDefinition "QUAD") ∧
      ¬Grammatical ["3", ":", "quad", "Twice", ":", "twice", ";", ";"]) := by
  intro m
  have done : (m.run ["3", ":", "quad", "Twice", "twice", ";", "quad"]).fault? = none := by
    decide +kernel
  have stopped : (m.run ["3", ":", "quad", "Twice", ":", "twice", ";", ";"]).fault? =
      some (.nestedDefinition "QUAD") := by
    decide +kernel
  exact ⟨⟨done, (grammatical_of_run ⟨_, rfl⟩ _).1 done⟩,
    ⟨stopped, (grammatical_of_run ⟨_, rfl⟩ _).2 _ stopped rfl⟩⟩

end Machine

end Forth
