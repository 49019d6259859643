import Forth.Proofs.Token
import Forth.Program
import Mathlib.Data.List.Forall2

/-! Reading phrase by phrase. A phrase ends where it ends, whatever lexemes follow, unless it is a
definition that breaks off. What can be read is within bounds: names mean themselves as lexemes, and
numbers can be written. -/

namespace Forth

/-- The faults of a definition that breaks off, which further lexemes might mend. -/
def Fault.isIncomplete : Fault → Bool
  | .missingName | .unclosedDefinition _ => true
  | _ => false

namespace Reading

variable {α β : Type}

/-- The lexemes do not end within what is read. -/
def Whole (reading : Reading α) : Prop :=
  ∀ fault, reading.result = .error fault → fault.isIncomplete = false

theorem whole_of_ok {reading : Reading α} {a : α} (h : reading.result = .ok a) :
    reading.Whole := by
  intro fault failed
  rw [h] at failed
  contradiction

theorem Whole.of_map {f : α → β} {reading : Reading α} (h : (reading.map f).Whole) :
    reading.Whole := by
  intro fault failed
  exact h fault (by rw [map, failed]; rfl)

theorem of_map_eq_ok {f : α → β} {reading : Reading α} {b : β}
    (h : (reading.map f).result = .ok b) : ∃ a, reading.result = .ok a ∧ f a = b := by
  cases result : reading.result with
  | ok a =>
    rw [map, result] at h
    exact ⟨a, rfl, Except.ok.inj h⟩
  | error fault =>
    rw [map, result] at h
    cases h

theorem map_id' (reading : Reading α) : reading.map (fun a => a) = reading := by
  obtain ⟨_ | a, rest⟩ := reading <;> rfl

theorem map_map {γ : Type} (f : α → β) (g : β → γ) (reading : Reading α) :
    (reading.map f).map g = reading.map (g ∘ f) := by
  obtain ⟨_ | a, rest⟩ := reading <;> rfl

/-- Reading from the front of the lexemes takes some of them away, and comes to the same result
whatever follows those. -/
def Settled (read : List String → Reading α) (lexemes : List String) : Prop :=
  ∃ taken, lexemes = taken ++ (read lexemes).rest ∧
    ∀ more, read (taken ++ more) = ⟨(read lexemes).result, more⟩

namespace Settled

variable {read inner : List String → Reading α} {lexemes : List String}

theorem append (h : Settled read lexemes) (more : List String) :
    read (lexemes ++ more) = ⟨(read lexemes).result, (read lexemes).rest ++ more⟩ := by
  obtain ⟨taken, cut, same⟩ := h
  conv => lhs; rw [cut, List.append_assoc]
  exact same _

theorem now (result : Except Fault α) : Settled (⟨result, ·⟩) lexemes :=
  ⟨[], rfl, fun _ => rfl⟩

theorem map (f : α → β) (h : Settled read lexemes) :
    Settled (fun lexemes => (read lexemes).map f) lexemes := by
  obtain ⟨taken, cut, same⟩ := h
  exact ⟨taken, cut, fun more => by simp only [same, Reading.map]⟩

/-- One lexeme is taken away, then reading goes on. -/
theorem cons {first : String} (h : Settled inner lexemes)
    (step : ∀ more, read (first :: more) = inner more) : Settled read (first :: lexemes) := by
  obtain ⟨taken, cut, same⟩ := h
  refine ⟨first :: taken, ?_, fun more => ?_⟩
  · rw [step, List.cons_append, ← cut]
  · rw [List.cons_append, step, step, same]

end Settled

end Reading

open Reading

namespace Source

theorem readBody_settled {name : String} {lexemes : List String}
    (whole : (readBody name lexemes).Whole) : Settled (readBody name) lexemes := by
  induction lexemes with
  | nil => cases whole _ rfl
  | cons lexeme rest ih =>
    rw [readBody] at whole
    cases token : Token.ofLexeme lexeme with
    | number value =>
      simp only [token] at whole
      have later := ih whole.of_map
      exact (later.map (.number value :: ·)).cons fun more => by simp only [readBody, token]
    | word w =>
      simp only [token] at whole
      have later := ih whole.of_map
      exact (later.map (.word w :: ·)).cons fun more => by simp only [readBody, token]
    | overlong digits =>
      exact (Settled.now (.error (.numeralTooLong digits))).cons fun more => by
        simp only [readBody, token]
    | colon =>
      exact (Settled.now (.error (.nestedDefinition name))).cons fun more => by
        simp only [readBody, token]
    | semicolon =>
      exact (Settled.now (.ok [])).cons fun more => by simp only [readBody, token]

theorem read_settled {lexemes : List String} (whole : (read lexemes).Whole) :
    Settled read lexemes := by
  cases lexemes with
  | nil => cases whole _ rfl
  | cons lexeme rest =>
    rw [read] at whole
    cases token : Token.ofLexeme lexeme with
    | word name =>
      simp only [token] at whole
      have later := readBody_settled whole.of_map
      exact (later.map (mk name)).cons fun more => by simp only [read, token]
    | number value =>
      exact (Settled.now (.error (.numericName value))).cons fun more => by
        simp only [read, token]
    | overlong digits =>
      exact (Settled.now (.error (.numeralTooLong digits))).cons fun more => by
        simp only [read, token]
    | colon =>
      exact (Settled.now (.error (.reservedName ":"))).cons fun more => by
        simp only [read, token]
    | semicolon =>
      exact (Settled.now (.error (.reservedName ";"))).cons fun more => by
        simp only [read, token]

end Source

namespace Phrase

/-- Reads the phrase that begins with a lexeme, given the lexemes after it. -/
def read (lexeme : String) (rest : List String) : Reading Phrase :=
  match Token.ofLexeme lexeme with
  | .number value => ⟨.ok (.term (.number value)), rest⟩
  | .word name => ⟨.ok (.term (.word name)), rest⟩
  | .overlong digits => ⟨.error (.numeralTooLong digits), rest⟩
  | .semicolon => ⟨.error .strayClose, rest⟩
  | .colon => (Source.read rest).map .definition

theorem read_settled {lexeme : String} {rest : List String}
    (whole : (read lexeme rest).Whole) : Settled (read lexeme) rest := by
  cases token : Token.ofLexeme lexeme with
  | colon =>
    have same : read lexeme = fun rest => (Source.read rest).map .definition := by
      funext rest
      simp only [read, token]
    rw [same] at whole ⊢
    exact (Source.read_settled whole.of_map).map _
  | _ =>
    -- The lexeme is the whole phrase, or is none.
    unfold read
    simp only [token]
    exact .now _

theorem length_rest_read_le (lexeme : String) (rest : List String) :
    (read lexeme rest).rest.length ≤ rest.length := by
  unfold read
  split
  case h_5 => exact Source.length_rest_read_le rest
  all_goals exact Nat.le_refl _

theorem induction_on_lexemes {P : List String → Prop} (nil : P [])
    (cons : ∀ lexeme rest, P (read lexeme rest).rest → P (lexeme :: rest)) :
    ∀ lexemes, P lexemes
  | [] => nil
  | lexeme :: rest => cons lexeme rest (induction_on_lexemes nil cons (read lexeme rest).rest)
termination_by lexemes => lexemes.length
decreasing_by exact Nat.lt_succ_of_le (length_rest_read_le lexeme rest)

end Phrase

theorem Program.read_cons (lexeme : String) (rest : List String) :
    Program.read (lexeme :: rest) =
      match (Phrase.read lexeme rest).result with
      | .ok phrase => .cons phrase (Program.read (Phrase.read lexeme rest).rest)
      | .error fault => ⟨[], some fault⟩ := by
  rw [Program.read, Phrase.read]
  cases Token.ofLexeme lexeme with
  | colon =>
    simp only [Reading.map]
    cases (Source.read rest).result <;> rfl
  | _ => rfl

/-! ### What was read -/

/-- The term that a lexeme means by itself. -/
inductive Term.MeantBy (lexeme : String) : Term → Prop
  | number {value : Nat} (token : Token.ofLexeme lexeme = .number value) :
    MeantBy lexeme (.number value)
  | word {name : String} (token : Token.ofLexeme lexeme = .word name) : MeantBy lexeme (.word name)

theorem Source.readBody_cons_eq_ok {name lexeme : String} {rest : List String}
    {terms : List Term} (h : (readBody name (lexeme :: rest)).result = .ok terms) :
    Token.ofLexeme lexeme = .semicolon ∧ terms = [] ∨
    ∃ term later, term.MeantBy lexeme ∧ (readBody name rest).result = .ok later ∧
      terms = term :: later ∧
      (readBody name (lexeme :: rest)).rest = (readBody name rest).rest := by
  rw [readBody] at h ⊢
  cases token : Token.ofLexeme lexeme with
  | semicolon =>
    simp only [token] at h
    exact .inl ⟨rfl, (Except.ok.inj h).symm⟩
  | number value =>
    simp only [token] at h ⊢
    obtain ⟨later, read, rfl⟩ := of_map_eq_ok h
    exact .inr ⟨.number value, later, .number token, read, rfl, rfl⟩
  | word w =>
    simp only [token] at h ⊢
    obtain ⟨later, read, rfl⟩ := of_map_eq_ok h
    exact .inr ⟨.word w, later, .word token, read, rfl, rfl⟩
  | overlong digits => simp [token] at h
  | colon => simp [token] at h

theorem Source.read_cons_eq_ok {lexeme : String} {rest : List String} {source : Source}
    (h : (read (lexeme :: rest)).result = .ok source) :
    Token.ofLexeme lexeme = .word source.name ∧
      (readBody source.name rest).result = .ok source.body ∧
      (read (lexeme :: rest)).rest = (readBody source.name rest).rest := by
  rw [read] at h ⊢
  cases token : Token.ofLexeme lexeme with
  | word name =>
    simp only [token] at h ⊢
    obtain ⟨terms, body, rfl⟩ := of_map_eq_ok h
    exact ⟨rfl, body, rfl⟩
  | number value => simp [token] at h
  | overlong digits => simp [token] at h
  | colon => simp [token] at h
  | semicolon => simp [token] at h

theorem Phrase.read_eq_ok {lexeme : String} {rest : List String} {phrase : Phrase}
    (h : (read lexeme rest).result = .ok phrase) :
    (∃ term, term.MeantBy lexeme ∧ phrase = .term term) ∨
    ∃ source, (Source.read rest).result = .ok source ∧ phrase = .definition source := by
  rw [read] at h
  cases token : Token.ofLexeme lexeme with
  | number value =>
    simp only [token] at h
    exact .inl ⟨.number value, .number token, (Except.ok.inj h).symm⟩
  | word name =>
    simp only [token] at h
    exact .inl ⟨.word name, .word token, (Except.ok.inj h).symm⟩
  | colon =>
    simp only [token] at h
    obtain ⟨source, read, rfl⟩ := of_map_eq_ok h
    exact .inr ⟨source, read, rfl⟩
  | overlong digits => simp [token] at h
  | semicolon => simp [token] at h

theorem Term.MeantBy.read {lexeme : String} {term : Term} (meant : term.MeantBy lexeme)
    (rest : List String) : Phrase.read lexeme rest = ⟨.ok (.term term), rest⟩ := by
  cases meant with
  | number token => rw [Phrase.read, token]
  | word token => rw [Phrase.read, token]

/-! ### Reading by the kinds of lexemes -/

theorem IsLegible.meantBy {lexeme : String} (legible : IsLegible lexeme) :
    ∃ term : Term, term.MeantBy lexeme := by
  obtain ⟨isPart, notOverlong⟩ := legible
  obtain ⟨notColon, notSemicolon⟩ := (isPart_iff lexeme).1 isPart
  cases token : Token.ofLexeme lexeme with
  | number value => exact ⟨.number value, .number token⟩
  | word name => exact ⟨.word name, .word token⟩
  | overlong digits =>
    cases Token.meantBy_iff.2 token with
    | overlong overlong => exact absurd overlong notOverlong
  | colon =>
    cases Token.meantBy_iff.2 token with
    | colon same => exact absurd same notColon
  | semicolon =>
    cases Token.meantBy_iff.2 token with
    | semicolon same => exact absurd same notSemicolon

theorem exists_forall₂_iff {α β : Type} {image : α → β → Prop} {whole : List α} :
    (∃ images, List.Forall₂ image whole images) ↔ ∀ a ∈ whole, ∃ b, image a b := by
  induction whole with
  | nil => exact iff_of_true ⟨[], .nil⟩ (by simp)
  | cons a whole ih =>
    rw [List.forall_mem_cons, ← ih]
    constructor
    · rintro ⟨images, all⟩
      obtain ⟨b, others, first, later, -⟩ := List.forall₂_cons_left_iff.1 all
      exact ⟨⟨b, first⟩, others, later⟩
    · rintro ⟨⟨b, first⟩, images, later⟩
      exact ⟨b :: images, .cons first later⟩

namespace Source

theorem readBody_of_meantBy {lexeme : String} {term : Term} (meant : term.MeantBy lexeme)
    (name : String) (rest : List String) :
    readBody name (lexeme :: rest) = (readBody name rest).map (term :: ·) := by
  cases meant with
  | number token => simp only [readBody, token]
  | word token => simp only [readBody, token]

theorem readBody_semicolon (name : String) (rest : List String) :
    readBody name (";" :: rest) = ⟨.ok [], rest⟩ := by
  simp only [readBody, Token.ofLexeme_semicolon]

theorem readBody_colon (name : String) (rest : List String) :
    readBody name (":" :: rest) = ⟨.error (.nestedDefinition name), rest⟩ := by
  simp only [readBody, Token.ofLexeme_colon]

theorem readBody_overlong {lexeme : String} (overlong : Numeral.IsOverlong lexeme)
    (name : String) (rest : List String) :
    readBody name (lexeme :: rest) = ⟨.error (.numeralTooLong lexeme.length), rest⟩ := by
  simp only [readBody, Token.meantBy_iff.1 (.overlong overlong)]

/-- Parts of a body are read as the terms that they mean. -/
theorem readBody_of_forall₂ {body : List String} {terms : List Term}
    (meant : List.Forall₂ Term.MeantBy body terms) (name : String) (rest : List String) :
    readBody name (body ++ rest) = (readBody name rest).map (terms ++ ·) := by
  induction meant with
  | nil => exact (Reading.map_id' _).symm
  | cons first _ ih =>
    rw [List.cons_append, readBody_of_meantBy first, ih, Reading.map_map]
    rfl

theorem exists_terms {body : List String} (legible : ∀ part ∈ body, IsLegible part) :
    ∃ terms, List.Forall₂ Term.MeantBy body terms :=
  exists_forall₂_iff.2 fun part member => (legible part member).meantBy

theorem readBody_append {body : List String} (legible : ∀ part ∈ body, IsLegible part)
    (name : String) :
    ∃ terms, ∀ rest, readBody name (body ++ rest) = (readBody name rest).map (terms ++ ·) := by
  obtain ⟨terms, meant⟩ := exists_terms legible
  exact ⟨terms, readBody_of_forall₂ meant name⟩

theorem read_of_isWord {name : String} (isName : IsWord name) (rest : List String) :
    read (name :: rest) = (readBody (Text.upper name) rest).map (mk (Text.upper name)) := by
  simp only [read, Token.meantBy_iff.1 (.word isName)]

theorem read_overlong {lexeme : String} (overlong : Numeral.IsOverlong lexeme)
    (rest : List String) :
    read (lexeme :: rest) = ⟨.error (.numeralTooLong lexeme.length), rest⟩ := by
  simp only [read, Token.meantBy_iff.1 (.overlong overlong)]

/-- What a body comes to an end at: nothing more, a semicolon, a colon or an overlong numeral. -/
inductive EndsBody : List String → Prop
  | nil : EndsBody []
  | semicolon (rest : List String) : EndsBody (";" :: rest)
  | colon (rest : List String) : EndsBody (":" :: rest)
  | overlong {lexeme : String} (overlong : Numeral.IsOverlong lexeme) (rest : List String) :
    EndsBody (lexeme :: rest)

theorem exists_body (lexemes : List String) :
    ∃ body rest, lexemes = body ++ rest ∧ (∀ part ∈ body, IsLegible part) ∧ EndsBody rest := by
  induction lexemes with
  | nil => exact ⟨[], [], rfl, by simp, .nil⟩
  | cons lexeme lexemes ih =>
    have further (legible : IsLegible lexeme) : ∃ body rest, lexeme :: lexemes = body ++ rest ∧
        (∀ part ∈ body, IsLegible part) ∧ EndsBody rest := by
      obtain ⟨body, rest, rfl, others, ends⟩ := ih
      exact ⟨lexeme :: body, rest, rfl, List.forall_mem_cons.2 ⟨legible, others⟩, ends⟩
    have here (ends : EndsBody (lexeme :: lexemes)) : ∃ body rest,
        lexeme :: lexemes = body ++ rest ∧ (∀ part ∈ body, IsLegible part) ∧ EndsBody rest :=
      ⟨[], _, rfl, by simp, ends⟩
    have kind := Token.meantBy_ofLexeme lexeme
    generalize Token.ofLexeme lexeme = token at kind
    cases kind with
    | number numeral short => exact further (.numeral numeral short)
    | word isWord => exact further (.word isWord)
    | overlong overlong => exact here (.overlong overlong lexemes)
    | colon same => exact here (same ▸ .colon lexemes)
    | semicolon same => exact here (same ▸ .semicolon lexemes)

end Source

namespace Phrase

theorem read_colon (rest : List String) : read ":" rest = (Source.read rest).map .definition := by
  simp only [read, Token.ofLexeme_colon]

theorem read_overlong {lexeme : String} (overlong : Numeral.IsOverlong lexeme)
    (rest : List String) : read lexeme rest = ⟨.error (.numeralTooLong lexeme.length), rest⟩ := by
  simp only [read, Token.meantBy_iff.1 (.overlong overlong)]

theorem read_of_isWord {lexeme : String} (isWord : IsWord lexeme) (rest : List String) :
    read lexeme rest = ⟨.ok (.term (.word (Text.upper lexeme))), rest⟩ := by
  simp only [read, Token.meantBy_iff.1 (.word isWord)]

theorem isWord_of_read {lexeme name : String} {rest : List String}
    (h : (read lexeme rest).result = .ok (.term (.word name))) :
    IsWord lexeme ∧ name = Text.upper lexeme := by
  rcases read_eq_ok h with ⟨term, meant, same⟩ | ⟨source, -, same⟩
  · cases same
    cases meant with
    | word token =>
      exact ⟨Token.isWord_of_ofLexeme token, (Token.upper_of_ofLexeme token).symm⟩
  · cases same

end Phrase

/-! ### What can be read -/

inductive Term.Readable : Term → Prop
  | number {value : Nat} (bound : value < 10 ^ Numeral.digitLimit) : Readable (.number value)
  | word {name : String} (h : WordName name) : Readable (.word name)

/-- A definition that some lexemes can mean: its name and all parts of its body are readable. -/
structure Source.Readable (source : Source) : Prop where
  name : WordName source.name
  body : ∀ term ∈ source.body, term.Readable

inductive Phrase.Readable : Phrase → Prop
  | term {term : Term} (h : term.Readable) : Readable (.term term)
  | definition {source : Source} (h : source.Readable) : Readable (.definition source)

theorem Term.MeantBy.readable {lexeme : String} {term : Term} (meant : term.MeantBy lexeme) :
    term.Readable := by
  cases meant with
  | number token => exact .number (Token.lt_of_ofLexeme token)
  | word token => exact .word (WordName.ofLexeme token)

theorem Source.readable_readBody {name : String} {lexemes : List String} {terms : List Term}
    (h : (readBody name lexemes).result = .ok terms) : ∀ term ∈ terms, term.Readable := by
  induction lexemes generalizing terms with
  | nil => cases h
  | cons lexeme rest ih =>
    rcases readBody_cons_eq_ok h with ⟨-, rfl⟩ | ⟨term, later, meant, read, rfl, -⟩
    · simp
    · exact List.forall_mem_cons.2 ⟨meant.readable, ih read⟩

theorem Source.readable_read {lexemes : List String} {source : Source}
    (h : (read lexemes).result = .ok source) : source.Readable := by
  cases lexemes with
  | nil => cases h
  | cons lexeme rest =>
    obtain ⟨name, body, -⟩ := read_cons_eq_ok h
    exact ⟨WordName.ofLexeme name, readable_readBody body⟩

theorem Phrase.readable_read {lexeme : String} {rest : List String} {phrase : Phrase}
    (h : (read lexeme rest).result = .ok phrase) : phrase.Readable := by
  rcases read_eq_ok h with ⟨term, meant, rfl⟩ | ⟨source, read, rfl⟩
  · exact .term meant.readable
  · exact .definition (Source.readable_read read)

theorem Program.readable_read (lexemes : List String) :
    ∀ phrase ∈ (Program.read lexemes).phrases, phrase.Readable := by
  induction lexemes using Phrase.induction_on_lexemes with
  | nil => simp [Program.read]
  | cons lexeme rest ih =>
    rw [Program.read_cons]
    cases result : (Phrase.read lexeme rest).result with
    | error fault => simp
    | ok phrase => exact List.forall_mem_cons.2 ⟨Phrase.readable_read result, ih⟩

end Forth
