import Forth.Proofs.Binding
import Forth.Proofs.Invocation

/-! The contract of compiling, on any dictionary and for any lexemes. A definition is read up to its
semicolon or rejected, then its parts are opened from left to right, and then its name is bound and
the journal told. What fails before the binding leaves the machine as it was, and what fails after
it leaves the word bound. -/

namespace Forth

/-- Each element of a list has an image, or the list is cut at the first that has none. -/
theorem forall₂_or_first {α β : Type} {image : α → β → Prop} {stuck : α → Prop} {whole : List α}
    (each : ∀ a ∈ whole, (∃ b, image a b) ∨ stuck a) :
    (∃ images, List.Forall₂ image whole images) ∨
      ∃ front a back, whole = front ++ a :: back ∧ (∀ before ∈ front, ∃ b, image before b) ∧
        stuck a := by
  induction whole with
  | nil => exact .inl ⟨[], .nil⟩
  | cons a whole ih =>
    obtain ⟨here, later⟩ := List.forall_mem_cons.1 each
    rcases here with ⟨b, first⟩ | stops
    · rcases ih later with ⟨images, others⟩ | ⟨front, next, back, rfl, before, stops⟩
      · exact .inl ⟨b :: images, .cons first others⟩
      · exact .inr ⟨a :: front, next, back, rfl, List.forall_mem_cons.2 ⟨⟨b, first⟩, before⟩, stops⟩
    · exact .inr ⟨[], a, whole, rfl, by simp, stops⟩

/-! ### Reading -/

namespace Source

/-- Reading a definition fails with the fault and leaves the lexemes at the end. The first lexeme
that is no name, or behind a name the first that is no part of a body, decides. -/
inductive Rejects : List String → Fault → List String → Prop
  | missingName : Rejects [] .missingName []
  | numericName {lexeme : String} (numeral : Numeral.isNumeral lexeme = true)
    (short : lexeme.length ≤ Numeral.digitLimit) (rest : List String) :
    Rejects (lexeme :: rest) (.numericName (Numeral.value lexeme)) rest
  | overlongName {lexeme : String} (overlong : Numeral.IsOverlong lexeme) (rest : List String) :
    Rejects (lexeme :: rest) (.numeralTooLong lexeme.length) rest
  | reservedName {lexeme : String} (reserved : lexeme = ":" ∨ lexeme = ";") (rest : List String) :
    Rejects (lexeme :: rest) (.reservedName lexeme) rest
  | unclosed {name : String} {parts : List String} (isName : IsWord name)
    (legible : ∀ part ∈ parts, IsLegible part) :
    Rejects (name :: parts) (.unclosedDefinition (Text.upper name)) []
  | nested {name : String} {parts : List String} (isName : IsWord name)
    (legible : ∀ part ∈ parts, IsLegible part) (rest : List String) :
    Rejects (name :: (parts ++ ":" :: rest)) (.nestedDefinition (Text.upper name)) rest
  | overlongPart {name lexeme : String} {parts : List String} (isName : IsWord name)
    (legible : ∀ part ∈ parts, IsLegible part) (overlong : Numeral.IsOverlong lexeme)
    (rest : List String) :
    Rejects (name :: (parts ++ lexeme :: rest)) (.numeralTooLong lexeme.length) rest

theorem Rejects.read {lexemes : List String} {fault : Fault} {rest : List String}
    (rejects : Rejects lexemes fault rest) : read lexemes = ⟨.error fault, rest⟩ := by
  cases rejects with
  | missingName => rfl
  | numericName numeral short =>
    simp only [Source.read, Token.meantBy_iff.1 (.number numeral short)]
  | overlongName overlong => rw [read_overlong overlong]
  | reservedName reserved =>
    rcases reserved with rfl | rfl
    · simp only [Source.read, Token.ofLexeme_colon]
    · simp only [Source.read, Token.ofLexeme_semicolon]
  | unclosed isName legible =>
    obtain ⟨terms, appended⟩ := readBody_append legible (Text.upper _)
    have unended := appended []
    rw [List.append_nil] at unended
    rw [read_of_isWord isName, unended]
    rfl
  | nested isName legible =>
    obtain ⟨terms, appended⟩ := readBody_append legible (Text.upper _)
    rw [read_of_isWord isName, appended, readBody_colon]
    rfl
  | overlongPart isName legible overlong =>
    obtain ⟨terms, appended⟩ := readBody_append legible (Text.upper _)
    rw [read_of_isWord isName, appended, readBody_overlong overlong]
    rfl

/-- What is not rejected begins with a name, a body and a semicolon. -/
theorem rejects_or_closed (lexemes : List String) :
    (∃ fault rest, Rejects lexemes fault rest) ∨
      ∃ name parts rest, lexemes = name :: (parts ++ ";" :: rest) ∧ IsWord name ∧
        ∀ part ∈ parts, IsLegible part := by
  cases lexemes with
  | nil => exact .inl ⟨_, _, .missingName⟩
  | cons name rest =>
    have kind := Token.meantBy_ofLexeme name
    generalize Token.ofLexeme name = token at kind
    cases kind with
    | number numeral short => exact .inl ⟨_, _, .numericName numeral short rest⟩
    | overlong overlong => exact .inl ⟨_, _, .overlongName overlong rest⟩
    | colon same => exact .inl ⟨_, _, .reservedName (.inl same) rest⟩
    | semicolon same => exact .inl ⟨_, _, .reservedName (.inr same) rest⟩
    | word isName =>
      obtain ⟨parts, tail, rfl, legible, ends⟩ := exists_body rest
      cases ends with
      | nil =>
        rw [List.append_nil]
        exact .inl ⟨_, _, .unclosed isName legible⟩
      | semicolon more => exact .inr ⟨name, parts, more, rfl, isName, legible⟩
      | colon more => exact .inl ⟨_, _, .nested isName legible more⟩
      | overlong overlong more => exact .inl ⟨_, _, .overlongPart isName legible overlong more⟩

theorem read_closed {name : String} {parts : List String} {terms : List Term}
    (isName : IsWord name) (meant : List.Forall₂ Term.MeantBy parts terms) (rest : List String) :
    read (name :: (parts ++ ";" :: rest)) = ⟨.ok ⟨Text.upper name, terms⟩, rest⟩ := by
  rw [read_of_isWord isName, readBody_of_forall₂ meant, readBody_semicolon]
  simp only [Reading.map, Except.map, List.append_nil]

end Source

/-! ### Opening -/

namespace Term.MeantBy

variable {part : String} {term : Term}

theorem of_numeral (meant : term.MeantBy part) (numeral : Numeral.isNumeral part = true)
    (short : part.length ≤ Numeral.digitLimit) : term = .number (Numeral.value part) := by
  have token := Token.meantBy_iff.1 (.number numeral short)
  cases meant with
  | number same => cases token.symm.trans same; rfl
  | word same => cases token.symm.trans same

theorem of_isWord (meant : term.MeantBy part) (isWord : IsWord part) :
    term = .word (Text.upper part) := by
  have token := Token.meantBy_iff.1 (.word isWord)
  cases meant with
  | number same => cases token.symm.trans same
  | word same => cases token.symm.trans same; rfl

end Term.MeantBy

namespace Dictionary

/-- What a part of a body becomes: a numeral stands for itself, and a word gives way to what it is
bound to, opened by one layer. -/
inductive Opens (d : Dictionary) (part : String) : List Code → Prop
  | number (numeral : Numeral.isNumeral part = true)
    (short : part.length ≤ Numeral.digitLimit) : Opens d part [.literal (Numeral.value part)]
  | word {code : Code} {codes : List Code} (isWord : IsWord part)
    (found : d.lookup part = some code) (opened : code.unbox = .ok codes) : Opens d part codes

/-- A part of a body that cannot be opened: a word without an entry, or one bound to nothing but a
reference to another. -/
inductive Blocks (d : Dictionary) (part : String) : Fault → Prop
  | unbound (isWord : IsWord part) (notFound : d.lookup part = none) :
    Blocks d part (.unknownWord (Text.upper part))
  | reference {target : String} (isWord : IsWord part)
    (found : d.lookup part = some (.call target)) : Blocks d part (.notUnboxable target)

variable {d : Dictionary}

theorem opens_or_blocks (d : Dictionary) {part : String} (legible : IsLegible part) :
    (∃ codes, d.Opens part codes) ∨ ∃ fault, d.Blocks part fault := by
  have kind := Token.meantBy_ofLexeme part
  generalize Token.ofLexeme part = token at kind
  cases kind with
  | number numeral short => exact .inl ⟨_, .number numeral short⟩
  | overlong overlong => exact absurd overlong legible.2
  | colon same => exact absurd same ((isPart_iff part).1 legible.1).1
  | semicolon same => exact absurd same ((isPart_iff part).1 legible.1).2
  | word isWord =>
    cases found : d.lookup part with
    | none => exact .inr ⟨_, .unbound isWord found⟩
    | some code =>
      cases code with
      | call target => exact .inr ⟨_, .reference isWord found⟩
      | _ => exact .inl ⟨_, .word isWord found rfl⟩

theorem Opens.resolve {part : String} {codes : List Code} (opens : d.Opens part codes)
    {term : Term} (meant : term.MeantBy part) : d.resolve term = .ok codes := by
  cases opens with
  | number numeral short => rw [meant.of_numeral numeral short, Dictionary.resolve]
  | word isWord found opened =>
    rw [meant.of_isWord isWord]
    simp only [Dictionary.resolve, lookup_upper, found, opened]

theorem Blocks.resolve {part : String} {fault : Fault} (blocks : d.Blocks part fault)
    {term : Term} (meant : term.MeantBy part) : d.resolve term = .error fault := by
  cases blocks with
  | unbound isWord notFound =>
    rw [meant.of_isWord isWord]
    simp only [Dictionary.resolve, lookup_upper, notFound]
  | reference isWord found =>
    rw [meant.of_isWord isWord]
    simp only [Dictionary.resolve, lookup_upper, found, Code.unbox]

theorem Opens.isLegible {part : String} {codes : List Code} (opens : d.Opens part codes) :
    IsLegible part := by
  cases opens with
  | number numeral short => exact .numeral numeral short
  | word isWord _ _ => exact .word isWord

theorem legible_of_opens {parts : List String} {bodies : List (List Code)}
    (opens : List.Forall₂ d.Opens parts bodies) : ∀ part ∈ parts, IsLegible part := by
  intro part member
  obtain ⟨codes, here⟩ := exists_forall₂_iff.1 ⟨bodies, opens⟩ part member
  exact here.isLegible

theorem resolveAll_of_opens {parts : List String} {terms : List Term} {bodies : List (List Code)}
    (meant : List.Forall₂ Term.MeantBy parts terms) (opens : List.Forall₂ d.Opens parts bodies) :
    d.resolveAll terms = .ok bodies.flatten := by
  induction meant generalizing bodies with
  | nil =>
    cases opens
    rfl
  | cons first _ ih =>
    cases opens with
    | cons here later =>
      rw [resolveAll, here.resolve first, ih later]
      rfl

/-- The first part that cannot be opened decides, whatever parts there are behind it. -/
theorem resolveAll_of_blocks {front back : List String} {part : String} {terms : List Term}
    {fault : Fault} (meant : List.Forall₂ Term.MeantBy (front ++ part :: back) terms)
    (opens : ∀ before ∈ front, ∃ codes, d.Opens before codes) (blocks : d.Blocks part fault) :
    d.resolveAll terms = .error fault := by
  induction front generalizing terms with
  | nil =>
    cases meant with
    | cons first _ =>
      rw [resolveAll, blocks.resolve first]
      rfl
  | cons before front ih =>
    obtain ⟨⟨codes, here⟩, others⟩ := List.forall_mem_cons.1 opens
    cases meant with
    | cons first later =>
      rw [resolveAll, here.resolve first, ih later others]
      rfl

end Dictionary

/-! ### Recording -/

namespace Code

/-- The text by which the journal tells a piece of code. -/
inductive ToldAs : Code → String → Prop
  | number {value : Int} (writable : Numeral.Writable value) :
    ToldAs (.literal value) (toString value)
  | reference (name : String) : ToldAs (.call name) name
  | primitive (p : Primitive) : ToldAs (.primitive p) p.name
  | inert (name comment : String) : ToldAs (.inert name comment) name

/-- Code that the journal cannot tell: a number with too many digits, or a whole definition. -/
inductive Untold : Code → Fault → Prop
  | number {value : Int} (long : ¬Numeral.Writable value) : Untold (.literal value) .numberTooLong
  | definition (name : String) (body : List Code) : Untold (.colon name body) .nestedBody

theorem toldAs_or_untold (code : Code) :
    (∃ text, code.ToldAs text) ∨ ∃ fault, code.Untold fault := by
  cases code with
  | literal value =>
    by_cases writable : Numeral.Writable value
    · exact .inl ⟨_, .number writable⟩
    · exact .inr ⟨_, .number writable⟩
  | call name => exact .inl ⟨_, .reference name⟩
  | primitive p => exact .inl ⟨_, .primitive p⟩
  | inert name comment => exact .inl ⟨_, .inert name comment⟩
  | colon name body => exact .inr ⟨_, .definition name body⟩

theorem ToldAs.plainText {code : Code} {text : String} (told : code.ToldAs text) :
    code.plainText = .ok text := by
  cases told with
  | number writable => rw [Code.plainText, Numeral.write, if_pos writable]
  | reference _ => rfl
  | primitive _ => rfl
  | inert _ _ => rfl

theorem Untold.plainText {code : Code} {fault : Fault} (untold : code.Untold fault) :
    code.plainText = .error fault := by
  cases untold with
  | number long => rw [Code.plainText, Numeral.write, if_neg long]
  | definition _ _ => rfl

theorem mapM_plainText_of_toldAs {body : List Code} {texts : List String}
    (told : List.Forall₂ ToldAs body texts) : body.mapM Code.plainText = .ok texts := by
  induction told with
  | nil => rfl
  | cons first _ ih =>
    rw [List.mapM_cons, first.plainText, ih]
    rfl

/-- The first code that cannot be told decides, whatever code there is behind it. -/
theorem mapM_plainText_of_untold {front : List Code} {code : Code} {fault : Fault}
    (told : ∀ before ∈ front, ∃ text, before.ToldAs text) (untold : code.Untold fault)
    (back : List Code) : (front ++ code :: back).mapM Code.plainText = .error fault := by
  induction front with
  | nil =>
    rw [List.nil_append, List.mapM_cons, untold.plainText]
    rfl
  | cons before front ih =>
    obtain ⟨⟨text, here⟩, others⟩ := List.forall_mem_cons.1 told
    rw [List.cons_append, List.mapM_cons, here.plainText, ih others]
    rfl

end Code

/-! ### Compiling -/

namespace Machine

/-- What compiling lexemes comes to, by the kinds of the lexemes and by what the dictionary binds
their words to. -/
inductive Compiles (m : Machine) : List String → Compilation → Prop
  | rejected {lexemes rest : List String} {fault : Fault}
    (rejects : Source.Rejects lexemes fault rest) :
    Compiles m lexemes ⟨.stopped fault m, none, rest⟩
  | blocked {name part : String} {front back : List String} {fault : Fault} (isName : IsWord name)
    (legible : ∀ other ∈ front ++ part :: back, IsLegible other)
    (opens : ∀ before ∈ front, ∃ codes, m.dictionary.Opens before codes)
    (blocks : m.dictionary.Blocks part fault) (rest : List String) :
    Compiles m (name :: (front ++ part :: back ++ ";" :: rest)) ⟨.stopped fault m, none, rest⟩
  | untold {name : String} {parts : List String} {bodies : List (List Code)}
    {front back : List Code} {code : Code} {fault : Fault} (isName : IsWord name)
    (opens : List.Forall₂ m.dictionary.Opens parts bodies)
    (cut : bodies.flatten = front ++ code :: back)
    (told : ∀ before ∈ front, ∃ text, before.ToldAs text) (untold : code.Untold fault)
    (rest : List String) :
    Compiles m (name :: (parts ++ ";" :: rest))
      ⟨.stopped fault
        { m with dictionary := m.dictionary.bind ⟨Text.upper name, bodies.flatten⟩ }, none, rest⟩
  | told {name : String} {parts texts : List String} {bodies : List (List Code)}
    (isName : IsWord name) (opens : List.Forall₂ m.dictionary.Opens parts bodies)
    (told : List.Forall₂ Code.ToldAs bodies.flatten texts) (rest : List String) :
    Compiles m (name :: (parts ++ ";" :: rest))
      ⟨.wrote [.defined (Text.upper name) texts]
        { m with dictionary := m.dictionary.bind ⟨Text.upper name, bodies.flatten⟩ },
        some (.colon (Text.upper name) bodies.flatten), rest⟩

variable {m : Machine}

theorem compile_of_stopped {name : String} {parts : List String} {terms : List Term}
    (isName : IsWord name) (meant : List.Forall₂ Term.MeantBy parts terms) {fault : Fault}
    {after : Machine} (stopped : m.define ⟨Text.upper name, terms⟩ = .stopped fault after)
    (rest : List String) :
    m.compile (name :: (parts ++ ";" :: rest)) = ⟨.stopped fault after, none, rest⟩ := by
  simp only [compile, Source.read_closed isName meant, stopped, Run.stopped]

theorem compile_of_wrote {name : String} {parts : List String} {terms : List Term}
    (isName : IsWord name) (meant : List.Forall₂ Term.MeantBy parts terms) {notices : List Notice}
    {after : Machine} (wrote : m.define ⟨Text.upper name, terms⟩ = .wrote notices after)
    (rest : List String) :
    m.compile (name :: (parts ++ ";" :: rest)) =
      ⟨.wrote notices after, after.dictionary.lookup (Text.upper name), rest⟩ := by
  simp only [compile, Source.read_closed isName meant, wrote, Run.wrote]

theorem Compiles.compile {lexemes : List String} {compilation : Compilation}
    (compiles : m.Compiles lexemes compilation) : m.compile lexemes = compilation := by
  cases compiles with
  | rejected rejects => simp only [Machine.compile, rejects.read]
  | blocked isName legible opens blocks rest =>
    obtain ⟨terms, meant⟩ := Source.exists_terms legible
    refine compile_of_stopped isName meant ?_ rest
    simp only [define, Dictionary.resolveAll_of_blocks meant opens blocks]
  | untold isName opens cut told untold rest =>
    obtain ⟨terms, meant⟩ := Source.exists_terms (Dictionary.legible_of_opens opens)
    have failed := cut ▸ Code.mapM_plainText_of_untold told untold _
    refine compile_of_stopped isName meant ?_ rest
    simp only [define, Dictionary.resolveAll_of_opens meant opens, install, failed,
      Dictionary.bind]
  | @told name _ texts bodies isName opens told rest =>
    obtain ⟨terms, meant⟩ := Source.exists_terms (Dictionary.legible_of_opens opens)
    have defined : m.define ⟨Text.upper name, terms⟩ =
        .wrote [.defined (Text.upper name) texts]
          { m with dictionary := m.dictionary.bind ⟨Text.upper name, bodies.flatten⟩ } := by
      simp only [define, Dictionary.resolveAll_of_opens meant opens, install,
        Code.mapM_plainText_of_toldAs told, Dictionary.bind]
    simp only [compile_of_wrote isName meant defined, Dictionary.bind, Dictionary.lookup_define,
      if_pos]

/-- Whatever the lexemes and the dictionary are, one of the cases applies. -/
theorem exists_compiles (m : Machine) (lexemes : List String) :
    ∃ compilation, m.Compiles lexemes compilation := by
  rcases Source.rejects_or_closed lexemes with
    ⟨fault, rest, rejects⟩ | ⟨name, parts, rest, rfl, isName, legible⟩
  · exact ⟨_, .rejected rejects⟩
  · rcases forall₂_or_first fun part member =>
        m.dictionary.opens_or_blocks (legible part member) with
      ⟨bodies, opens⟩ | ⟨front, part, back, rfl, opens, fault, blocks⟩
    · rcases forall₂_or_first fun code (_ : code ∈ bodies.flatten) => code.toldAs_or_untold with
        ⟨texts, told⟩ | ⟨front, code, back, cut, told, fault, untold⟩
      · exact ⟨_, .told isName opens told rest⟩
      · exact ⟨_, .untold isName opens cut told untold rest⟩
    · exact ⟨_, .blocked isName legible opens blocks rest⟩

/-- Compiling comes to just what the cases say. A definition that is rejected or blocked leaves the
machine as it was, and every syntax fault comes before any part is opened. One that is resolved is
bound, also where the journal cannot tell it. -/
theorem compile_eq_iff (m : Machine) (lexemes : List String) (compilation : Compilation) :
    m.compile lexemes = compilation ↔ m.Compiles lexemes compilation := by
  constructor
  · rintro rfl
    obtain ⟨compilation, compiles⟩ := m.exists_compiles lexemes
    rwa [compiles.compile]
  · exact Compiles.compile

/-- A definition inside of an entry cannot be recorded, yet the word that copies it stays bound. -/
example :
    let outer := Dictionary.empty.define "OUTER" (.colon "OUTER" [.colon "INNER" []])
    let compilation := Machine.compile ["Copy", "outer", ";", "5"] ⟨.empty, outer⟩
    compilation.run.fault? = some .nestedBody ∧ compilation.rest = ["5"] ∧
      compilation.run.machine.dictionary.contains "copy" = true := by
  decide +kernel

end Machine

end Forth
