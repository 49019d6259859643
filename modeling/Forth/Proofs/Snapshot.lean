import Forth.Proofs.Invocation

/-! A definition is a snapshot of its body. Calling a word does what running its body did on the
dictionary that it was compiled on, whatever has been defined since, as long as the word itself has
not been defined anew. -/

namespace Forth

/-- The names that a journal records as defined, in order. -/
def Notice.definedNames (journal : List Notice) : List String :=
  journal.filterMap fun
    | .defined name _ => some name
    | .stopped _ => none

theorem Notice.definedNames_append (first later : List Notice) :
    definedNames (first ++ later) = definedNames first ++ definedNames later :=
  List.filterMap_append

/-- What a name is bound to changes by definitions of that name only. -/
theorem History.lookup {m now : Machine} {written : List Notice} (h : History m written now)
    (sound : m.dictionary.Sound) {name : String}
    (kept : ∀ other ∈ Notice.definedNames written, Text.upper other ≠ Text.upper name) :
    now.dictionary.lookup name = m.dictionary.lookup name := by
  induction h with
  | refl => rfl
  | restack s _ ih => exact ih kept
  | report r _ ih =>
    rw [Notice.definedNames_append] at kept
    exact ih fun other member => kept other (List.mem_append_left _ member)
  | @define written now source readable h ih =>
    rw [Notice.definedNames_append] at kept
    have before := ih fun other member => kept other (List.mem_append_left _ member)
    -- A definition that fails installs nothing, and one that goes through is in the journal.
    rcases Machine.define_cases (h.sound sound) readable with
      ⟨fault, stopped⟩ | ⟨body, texts, -, -, defined⟩
    · rw [stopped]
      exact before
    · rw [defined] at kept ⊢
      have different : Text.upper source.name ≠ Text.upper name :=
        kept _ (List.mem_append_right _ List.mem_cons_self)
      show (now.dictionary.define source.name _).lookup name = _
      rw [Dictionary.lookup_define, if_neg (Ne.symm different), before]

/-! ### Bodies as programs -/

/-- The lexemes of a body, read as a program, are the parts of the body. -/
theorem Program.read_of_readBody {name : String} {body : List String}
    (noSemicolon : ∀ lexeme ∈ body, Token.ofLexeme lexeme ≠ .semicolon) {terms : List Term}
    (h : (Source.readBody name (body ++ [";"])).result = .ok terms) :
    Program.read body = ⟨terms.map .term, none⟩ ∧
      (Source.readBody name (body ++ [";"])).rest = [] := by
  induction body generalizing terms with
  | nil =>
    rw [List.nil_append, Source.readBody, Token.ofLexeme_semicolon] at h ⊢
    cases h
    exact ⟨by rw [Program.read]; rfl, rfl⟩
  | cons lexeme rest ih =>
    have others : ∀ other ∈ rest, Token.ofLexeme other ≠ .semicolon :=
      fun other member => noSemicolon other (by simp [member])
    rcases Source.readBody_cons_eq_ok h with ⟨semicolon, -⟩ | ⟨term, later, meant, read, rfl, ends⟩
    · exact absurd semicolon (noSemicolon lexeme (by simp))
    · obtain ⟨program, done⟩ := ih others read
      rw [Program.read_cons, meant.read]
      exact ⟨by rw [program]; rfl, ends.trans done⟩

theorem Source.read_of_body {name : String} {body : List String}
    (noSemicolon : ∀ lexeme ∈ body, Token.ofLexeme lexeme ≠ .semicolon) {source : Source}
    (h : (read (name :: (body ++ [";"]))).result = .ok source) :
    Text.upper name = source.name ∧ Program.read body = ⟨source.body.map .term, none⟩ ∧
      (read (name :: (body ++ [";"]))).rest = [] := by
  obtain ⟨word, readBody, ends⟩ := read_cons_eq_ok h
  obtain ⟨program, done⟩ := Program.read_of_readBody noSemicolon readBody
  exact ⟨Token.upper_of_ofLexeme word, program, ends.trans done⟩

namespace Machine

theorem affect_andThen_affect (m : Machine) (first later : Stack → Effect) :
    ((m.affect first).andThen fun now => now.affect later) =
      m.affect fun s => (first s).andThen later := by
  cases ended : (first m.stack).fault? with
  | none => simp [affect, Run.andThen, Effect.andThen, ended]
  | some fault => simp [affect, Run.andThen, Effect.andThen, ended]

variable {d : Dictionary}

theorem perform_term (sound : d.Sound) {term : Term} {body : List Code}
    (resolved : d.resolve term = .ok body) (call : String → Stack → Effect) (s : Stack) :
    perform (.term term) ⟨s, d⟩ = affect ⟨s, d⟩ (Code.execAll call body) := by
  cases term with
  | number value =>
    cases resolved
    rw [perform, affect, affect, Code.execAll_singleton, Code.exec]
  | word name =>
    rw [Dictionary.resolve] at resolved
    cases found : d.lookup name with
    | none => simp [found] at resolved
    | some code =>
      simp only [found] at resolved
      rw [perform, execute]
      exact congrArg (affect ⟨s, d⟩) (funext fun t => sound.invoke found resolved call t)

theorem performAll_terms (sound : d.Sound) {terms : List Term} {body : List Code}
    (resolved : d.resolveAll terms = .ok body) (call : String → Stack → Effect) (s : Stack) :
    performAll (terms.map .term) ⟨s, d⟩ = affect ⟨s, d⟩ (Code.execAll call body) := by
  induction terms generalizing s body with
  | nil =>
    cases resolved
    rw [List.map_nil, performAll, affect, Code.execAll]
    rfl
  | cons term terms ih =>
    obtain ⟨first, later, resolvedFirst, resolvedLater, rfl⟩ :=
      Dictionary.resolveAll_cons_eq_ok resolved
    have appended : Code.execAll call (first ++ later) = fun s =>
        (Code.execAll call first s).andThen (Code.execAll call later) :=
      funext fun s => Code.execAll_append call first later s
    rw [List.map_cons, performAll, perform_term sound resolvedFirst call, appended,
      ← affect_andThen_affect]
    -- The first part has left the dictionary as it was, so the others resolve as before.
    exact Run.andThen_congr fun _ => ih resolvedLater (Code.execAll call first s).stack

theorem run_append_of_source {lexemes : List String} {source : Source}
    (h : (Source.read lexemes).result = .ok source) (whole : (Source.read lexemes).rest = [])
    (back : List String) (m : Machine) :
    m.run (":" :: (lexemes ++ back)) = (m.define source).andThen (run back) := by
  have phrase : Phrase.read ":" (lexemes ++ back) = ⟨.ok (.definition source), back⟩ := by
    have settled := Source.read_settled (Reading.whole_of_ok h)
    rw [Phrase.read_colon, settled.append back, h, whole]
    rfl
  rw [run_cons_of_ok (congrArg Reading.result phrase), phrase]
  rfl

/-- A program that is one definition does what the definition does. -/
theorem run_of_source {lexemes : List String} {source : Source}
    (h : (Source.read lexemes).result = .ok source) (whole : (Source.read lexemes).rest = [])
    (m : Machine) : m.run (":" :: lexemes) = m.define source := by
  have alone := run_append_of_source h whole [] m
  rwa [List.append_nil, funext run_nil, Run.andThen_wrote_nil] at alone

/-- A definition that goes through binds its name to what its body resolves to, and changes nothing
else. -/
theorem machine_run_definition {m : Machine} (sound : m.dictionary.Sound) {name : String}
    {body : List String} (noSemicolon : ∀ lexeme ∈ body, Token.ofLexeme lexeme ≠ .semicolon)
    (done : (m.run (":" :: name :: (body ++ [";"]))).fault? = none) :
    WordName (Text.upper name) ∧ ∃ terms codes, Program.read body = ⟨terms.map .term, none⟩ ∧
      m.dictionary.resolveAll terms = .ok codes ∧ (∀ code ∈ codes, code.Flat) ∧
      (m.run (":" :: name :: (body ++ [";"]))).machine =
        { m with dictionary :=
          m.dictionary.define (Text.upper name) (.colon (Text.upper name) codes) } := by
  cases result : (Source.read (name :: (body ++ [";"]))).result with
  | error fault =>
    rw [run_cons_of_error (by rw [Phrase.read_colon, Reading.map, result]; rfl)] at done
    cases done
  | ok source =>
    obtain ⟨isName, program, rest⟩ := Source.read_of_body noSemicolon result
    have readable := Source.readable_read result
    rw [run_of_source result rest] at done ⊢
    rcases define_cases sound readable with
      ⟨fault, stopped⟩ | ⟨codes, texts, resolved, flat, defined⟩
    · rw [stopped] at done
      cases done
    · rw [isName, defined]
      exact ⟨readable.name, source.body, codes, program, resolved, flat, rfl⟩

theorem run_definition {m : Machine} (sound : m.dictionary.Sound) {name : String}
    {body : List String} (noSemicolon : ∀ lexeme ∈ body, Token.ofLexeme lexeme ≠ .semicolon)
    (done : (m.run (":" :: name :: (body ++ [";"]))).fault? = none) :
    ∃ terms codes, Program.read body = ⟨terms.map .term, none⟩ ∧
      m.dictionary.resolveAll terms = .ok codes ∧
      (m.run (":" :: name :: (body ++ [";"]))).machine.dictionary =
        m.dictionary.define (Text.upper name) (.colon (Text.upper name) codes) := by
  obtain ⟨-, terms, codes, program, resolved, -, machine⟩ :=
    machine_run_definition sound noSemicolon done
  exact ⟨terms, codes, program, resolved, by rw [machine]⟩

/-- Whatever has been asked of a machine since a word was defined, other than to define that word
anew, calling the word does on every stack what running its body does on the dictionary that the
definition was compiled on. A body holds no semicolon, since the first one ends it. -/
theorem execute_eq_run_body {m : Machine} (reached : m.Reached) {name : String}
    {body : List String} (noSemicolon : ∀ lexeme ∈ body, Token.ofLexeme lexeme ≠ .semicolon)
    (done : (m.run (":" :: name :: (body ++ [";"]))).fault? = none) (ops : List Operation)
    (kept : ∀ other ∈ Notice.definedNames
      ((m.run (":" :: name :: (body ++ [";"]))).machine.journal ops),
      Text.upper other ≠ Text.upper name)
    {spelling : String} (same : Text.upper spelling = Text.upper name) (s : Stack) :
    let later := (m.run (":" :: name :: (body ++ [";"]))).machine.after ops
    let called := ({ later with stack := s } : Machine).execute spelling
    let inlined := ({ m with stack := s } : Machine).run body
    called.machine.stack = inlined.machine.stack ∧ called.fault? = inlined.fault? := by
  intro later called inlined
  have sound := reached.sound
  obtain ⟨terms, codes, program, resolved, defined⟩ := run_definition sound noSemicolon done
  have history := History.run (":" :: name :: (body ++ [";"])) m
  have laterSound := (History.after ops _).sound (history.sound sound)
  have found : later.dictionary.lookup spelling = some (.colon (Text.upper name) codes) := by
    have unchanged := (History.after ops _).lookup (history.sound sound)
      fun other member => same ▸ kept other member
    rw [unchanged, defined, Dictionary.lookup_define, if_pos (by rw [same, Text.upper_upper])]
  have calledEffect : called = ({ later with stack := s } : Machine).affect
      (Code.execAll m.dictionary.invoke codes) := by
    refine congrArg (Machine.affect _) (funext fun t => ?_)
    exact laterSound.invoke found rfl m.dictionary.invoke t
  have inlinedEffect : inlined = ({ m with stack := s } : Machine).affect
      (Code.execAll m.dictionary.invoke codes) := by
    rw [← performAll_terms sound resolved m.dictionary.invoke s,
      ← Run.andThen_wrote_nil (performAll _ _)]
    show ({ m with stack := s } : Machine).run body = _
    rw [run, program]
    rfl
  rw [calledEffect, inlinedEffect]
  exact ⟨rfl, rfl⟩

/-- Both words of the body are defined anew, and the word that it defines is spelt otherwise. -/
theorem execute_quad_eq_run_body :
    let m := fresh.after [.eval ": twice 2 * ;"]
    let defined := m.run [":", "quad", "twice", "Twice", "+", ";"]
    let ops : List Operation :=
      [.eval ": + - ; : twice 3 ;", .execute "nope", .compile ["*", "twice", ";"]]
    let later := defined.machine.after ops
    let called := ({ later with stack := .ofList [1, 5] } : Machine).execute "QUAD"
    let inlined := ({ m with stack := .ofList [1, 5] } : Machine).run ["twice", "Twice", "+"]
    defined.fault? = none ∧ called.machine.stack = inlined.machine.stack ∧
      called.fault? = inlined.fault? := by
  intro m defined ops later called inlined
  have noSemicolon : ∀ lexeme ∈ ["twice", "Twice", "+"], Token.ofLexeme lexeme ≠ .semicolon := by
    decide +kernel
  have done : defined.fault? = none := by decide +kernel
  exact ⟨done, execute_eq_run_body ⟨_, rfl⟩ noSemicolon done ops (by decide +kernel)
    (by decide +kernel) (.ofList [1, 5])⟩

end Machine

end Forth
