import Forth.Proofs.Binding
import Forth.Proofs.Carrying
import Forth.Proofs.Grammar
import Forth.Proofs.Introspection
import Forth.Proofs.Naming
import Forth.Proofs.Snapshot

/-! A definition can change places with a program that has nothing to do with it: one that neither
mentions the name defined nor defines a word of the body. A machine on which the name is bound
differs in that binding only, and such a program carries the difference along to its end. -/

namespace Forth

/-! ### Dictionaries -/

namespace Entries

theorem lookup_of_mem {entries : List (String × Code)} (sorted : entries.Pairwise (·.1 < ·.1))
    {name : String} {code : Code} (member : (name, code) ∈ entries) :
    lookup name entries = some code := by
  induction entries with
  | nil => cases member
  | cons first rest ih =>
    obtain ⟨below, sortedRest⟩ := List.pairwise_cons.1 sorted
    rcases List.mem_cons.1 member with rfl | later
    · rw [lookup, if_pos rfl]
    · have different : name ≠ first.1 := (String.ne_of_lt (below _ later)).symm
      rw [lookup, if_neg different, ih sortedRest later]

/-- Sorted entries are told by what the names are bound to. -/
theorem eq_of_lookup {entries others : List (String × Code)}
    (sorted : entries.Pairwise (·.1 < ·.1)) (othersSorted : others.Pairwise (·.1 < ·.1))
    (same : ∀ name, lookup name entries = lookup name others) : entries = others := by
  refine List.Pairwise.eq_of_mem_iff sorted othersSorted fun ⟨name, code⟩ => ?_
  constructor
  · intro member
    exact mem_of_lookup ((same name).symm.trans (lookup_of_mem sorted member))
  · intro member
    exact mem_of_lookup ((same name).trans (lookup_of_mem othersSorted member))

theorem insert_comm {name other : String} (apart : name ≠ other) (code otherCode : Code)
    {entries : List (String × Code)} (sorted : entries.Pairwise (·.1 < ·.1)) :
    insert name code (insert other otherCode entries) =
      insert other otherCode (insert name code entries) := by
  refine eq_of_lookup (pairwise_insert (pairwise_insert sorted))
    (pairwise_insert (pairwise_insert sorted)) fun sought => ?_
  simp only [lookup_insert]
  by_cases first : sought = name
  · rw [if_pos first, if_neg (first ▸ apart), if_pos first]
  · rw [if_neg first, if_neg first]

end Entries

namespace Dictionary

theorem eq_of_entries {d e : Dictionary} (same : d.entries = e.entries) : d = e := by
  cases d
  cases e
  cases same
  rfl

theorem bind_comm (d : Dictionary) (first second : Binding)
    (apart : Text.upper first.name ≠ Text.upper second.name) :
    (d.bind first).bind second = (d.bind second).bind first :=
  eq_of_entries (Entries.insert_comm apart.symm _ _ d.sorted)

theorem resolveAll_of_lookup {d e : Dictionary} {terms : List Term}
    (same : ∀ name ∈ terms.flatMap Term.names, d.lookup name = e.lookup name) :
    d.resolveAll terms = e.resolveAll terms := by
  refine resolveAll_congr fun term member => ?_
  cases term with
  | number value => rfl
  | word name =>
    have found := same name (List.mem_flatMap.2 ⟨_, member, List.mem_singleton_self name⟩)
    rw [resolve, resolve, found]

end Dictionary

/-! ### Machines with a name bound -/

namespace Machine

/-- The machine with the name bound, anew if it was bound before. -/
def bind (binding : Binding) (m : Machine) : Machine :=
  { m with dictionary := m.dictionary.bind binding }

theorem lookup_bind {binding : Binding} {name : String}
    (other : Text.upper name ≠ Text.upper binding.name) (m : Machine) :
    (m.bind binding).dictionary.lookup name = m.dictionary.lookup name :=
  (Dictionary.lookup_define _ _ _ _).trans (if_neg other)

variable {binding : Binding}

theorem execute_bind {m : Machine} (sound : m.dictionary.Sound)
    (boundSound : (m.bind binding).dictionary.Sound) {name : String}
    (other : Text.upper name ≠ Text.upper binding.name) :
    (m.bind binding).execute name = (m.execute name).map (bind binding) := by
  have opened : (m.bind binding).dictionary.opened name = m.dictionary.opened name :=
    congrArg (Option.map Code.unbox) (lookup_bind other m)
  have same := boundSound.invoke_congr sound opened m.stack
  show affect (m.bind binding) _ = _
  simp only [affect, bind] at same ⊢
  rw [same]
  rfl

theorem install_bind {name : String} (other : Text.upper name ≠ Text.upper binding.name)
    (body : List Code) (m : Machine) :
    (m.bind binding).install name body = (m.install name body).map (bind binding) := by
  have swapped := m.dictionary.bind_comm binding ⟨name, body⟩ other.symm
  simp only [Dictionary.bind] at swapped
  simp only [install, bind, Dictionary.bind, swapped]
  cases body.mapM Code.plainText <;> rfl

theorem define_bind {source : Source}
    (others : ∀ name ∈ source.names, Text.upper name ≠ Text.upper binding.name) (m : Machine) :
    (m.bind binding).define source = (m.define source).map (bind binding) := by
  obtain ⟨other, mentioned⟩ := List.forall_mem_cons.1 others
  have same : (m.bind binding).dictionary.resolveAll source.body =
      m.dictionary.resolveAll source.body :=
    Dictionary.resolveAll_of_lookup fun name member => lookup_bind (mentioned name member) m
  rw [define, define, same]
  cases m.dictionary.resolveAll source.body with
  | error fault => rfl
  | ok body => exact install_bind other body m

/-- A phrase that does not mention a name makes nothing of what it is bound to. -/
theorem carries_bind_perform (isName : WordName binding.name)
    (flat : ∀ code ∈ binding.body, code.Flat) {phrase : Phrase}
    (others : ∀ name ∈ phrase.names, Text.upper name ≠ Text.upper binding.name) :
    Carries (bind binding) (fun _ => False) (perform phrase) := by
  intro m sound _
  cases phrase with
  | definition source => exact define_bind others m
  | term term =>
    cases term with
    | number value => rfl
    | word name =>
      exact execute_bind sound (sound.define isName flat) (others name List.mem_cons_self)

theorem run_bind (binding : Binding) (isName : WordName binding.name)
    (flat : ∀ code ∈ binding.body, code.Flat) {lexemes : List String}
    (others : ∀ lexeme ∈ lexemes, Text.upper lexeme ≠ Text.upper binding.name) {m : Machine}
    (sound : m.dictionary.Sound) :
    (m.bind binding).run lexemes = (m.run lexemes).map (bind binding) := by
  have carries : Carries (bind binding) (fun _ => False) (run lexemes) := by
    refine carries_run fun phrase member => carries_bind_perform isName flat fun name named => ?_
    obtain ⟨lexeme, found, rfl⟩ := Program.names_of_read lexemes phrase member name named
    rw [Text.upper_upper]
    exact others lexeme found
  exact carries m sound fun _ _ => id

/-! ### Definitions and independent programs -/

theorem resolveAll_run {m : Machine} (sound : m.dictionary.Sound) {lexemes : List String}
    {terms : List Term}
    (apart : ∀ other, .definition other ∈ (Program.read lexemes).phrases →
      ∀ name ∈ terms.flatMap Term.names, Text.upper other.name ≠ Text.upper name) :
    (m.run lexemes).machine.dictionary.resolveAll terms = m.dictionary.resolveAll terms := by
  refine Dictionary.resolveAll_of_lookup fun name named => ?_
  rw [dictionary_run]
  refine Dictionary.lookup_foldl_bind (fun binding member => ?_) m.dictionary
  obtain ⟨⟨other, within, bound⟩, -⟩ :=
    of_mem_bindings sound (Program.readable_read lexemes) binding member
  rw [bound]
  exact apart other within name named

theorem define_of_resolveAll {m : Machine} (sound : m.dictionary.Sound) {source : Source}
    (readable : source.Readable) {body : List Code}
    (resolved : m.dictionary.resolveAll source.body = .ok body) :
    ∃ texts, m.define source =
      .wrote [.defined source.name texts] (m.bind ⟨source.name, body⟩) := by
  obtain ⟨texts, installed⟩ :=
    install_of_flat source.name (sound.resolveAll readable.body resolved) m
  exact ⟨texts, by rw [define, resolved]; exact installed⟩

end Machine

/-- The runs go through both or neither, and where they do they lead to the same machine. -/
def Run.EndsAs {α : Type} (run other : Run α) : Prop :=
  (run.fault? = none ↔ other.fault? = none) ∧ (run.fault? = none → run.machine = other.machine)

namespace Run.EndsAs

variable {α : Type} {run other third : Run α}

theorem refl (run : Run α) : run.EndsAs run := ⟨.rfl, fun _ => rfl⟩

theorem symm (same : run.EndsAs other) : other.EndsAs run :=
  ⟨same.1.symm, fun done => (same.2 (same.1.2 done)).symm⟩

theorem trans (first : run.EndsAs other) (second : other.EndsAs third) : run.EndsAs third :=
  ⟨first.1.trans second.1, fun done => (first.2 done).trans (second.2 (first.1.1 done))⟩

theorem of_failing (failed : run.fault? ≠ none) (otherFailed : other.fault? ≠ none) :
    run.EndsAs other :=
  ⟨iff_of_false failed otherFailed, fun done => absurd done failed⟩

theorem wrote_andThen (written : List α) (m : Machine) (next : Machine → Run α) :
    ((wrote written m).andThen next).EndsAs (next m) :=
  ⟨.rfl, fun _ => rfl⟩

theorem andThen_wrote {next : Machine → Run α} {written : List α} {change : Machine → Machine}
    (later : next run.machine = wrote written (change run.machine)) :
    (run.andThen next).EndsAs (run.map change) := by
  cases ended : run.fault? with
  | none =>
    rw [andThen_of_done ended, later]
    exact ⟨iff_of_true rfl ended, fun _ => rfl⟩
  | some fault =>
    rw [andThen_of_stopped ended]
    exact .of_failing (by simp [ended]) (by simp [ended])

end Run.EndsAs

namespace Machine

/-- A definition performed before a program does what it does after it, if the program mentions no
word of that name and defines none of those in the body. -/
theorem define_andThen_run {m : Machine} (sound : m.dictionary.Sound) {source : Source}
    (readable : source.Readable) {lexemes : List String}
    (unmentioned : ∀ lexeme ∈ lexemes, Text.upper lexeme ≠ Text.upper source.name)
    (apart : ∀ other, .definition other ∈ (Program.read lexemes).phrases →
      ∀ name ∈ source.body.flatMap Term.names, Text.upper other.name ≠ Text.upper name) :
    ((m.define source).andThen (run lexemes)).EndsAs
      ((m.run lexemes).andThen (define source)) := by
  have same := resolveAll_run sound apart
  cases resolved : m.dictionary.resolveAll source.body with
  | error fault =>
    have first : m.define source = .stopped fault m := by rw [define, resolved]
    have later : (m.run lexemes).machine.define source =
        .stopped fault (m.run lexemes).machine := by rw [define, same, resolved]
    refine .of_failing (by simp [first, Run.stopped]) ?_
    simp [later, Run.stopped]
  | ok body =>
    have soundLater := (History.run lexemes m).sound sound
    obtain ⟨texts, first⟩ := define_of_resolveAll sound readable resolved
    obtain ⟨textsLater, later⟩ := define_of_resolveAll soundLater readable (same.trans resolved)
    have carried : (m.bind ⟨source.name, body⟩).run lexemes =
        (m.run lexemes).map (bind ⟨source.name, body⟩) :=
      run_bind ⟨source.name, body⟩ readable.name (sound.resolveAll readable.body resolved)
        unmentioned sound
    rw [first]
    refine .trans (.wrote_andThen _ _ _) ?_
    rw [carried]
    exact (Run.EndsAs.andThen_wrote later).symm

end Machine

/-! ### The lexemes of a definition -/

theorem IsPart.ofLexeme_ne_semicolon {lexeme : String} (isPart : IsPart lexeme) :
    Token.ofLexeme lexeme ≠ .semicolon := by
  intro token
  cases Token.meantBy_iff.2 token with
  | semicolon same => exact ((isPart_iff lexeme).1 isPart).2 same

namespace Source

theorem whole_of_parts {body : List String} (parts : ∀ part ∈ body, IsPart part) (name : String) :
    (read (name :: (body ++ [";"]))).Whole := by
  intro fault failed
  rw [read] at failed
  cases token : Token.ofLexeme name with
  | word word =>
    simp only [token] at failed
    rcases readBody_of_parts parts word [] with ⟨terms, read⟩ | ⟨lexeme, -, -, read⟩
    · simp [Reading.map, Except.map, read] at failed
    · simp only [Reading.map, Except.map, read, Except.error.injEq] at failed
      exact failed ▸ rfl
  | _ =>
    -- The lexeme cannot be a name, so reading stops there.
    simp only [token, Except.error.injEq] at failed
    exact failed ▸ rfl

/-- A body that is closed is closed before any further colon. -/
theorem readBody_of_append_colon {name : String} {lexemes more : List String} {terms : List Term}
    (h : (readBody name (lexemes ++ ":" :: more)).result = .ok terms) :
    (readBody name lexemes).result = .ok terms := by
  induction lexemes generalizing terms with
  | nil =>
    rw [List.nil_append, readBody_colon] at h
    cases h
  | cons lexeme rest ih =>
    rcases readBody_cons_eq_ok h with ⟨token, rfl⟩ | ⟨term, later, meant, read, rfl, -⟩
    · simp only [readBody, token]
    · rw [readBody_of_meantBy meant, Reading.map, ih read]
      rfl

theorem read_of_append_colon {lexemes more : List String} {source : Source}
    (h : (read (lexemes ++ ":" :: more)).result = .ok source) :
    (read lexemes).result = .ok source := by
  cases lexemes with
  | nil =>
    rw [List.nil_append, read, Token.ofLexeme_colon] at h
    cases h
  | cons lexeme rest =>
    obtain ⟨token, body, -⟩ := read_cons_eq_ok h
    simp only [read, token, Reading.map, readBody_of_append_colon body]
    rfl

end Source

theorem Phrase.read_of_append_colon {lexeme : String} {rest more : List String} {phrase : Phrase}
    (h : (read lexeme (rest ++ ":" :: more)).result = .ok phrase) :
    (read lexeme rest).result = .ok phrase := by
  cases token : Token.ofLexeme lexeme with
  | colon =>
    simp only [read, token] at h ⊢
    obtain ⟨source, appended, rfl⟩ := Reading.of_map_eq_ok h
    rw [Reading.map, Source.read_of_append_colon appended]
    rfl
  | _ => simpa only [read, token] using h

namespace Machine

/-- A program that goes through with a definition behind it goes through without. -/
theorem fault?_of_run_append_colon {m : Machine} {front more : List String}
    (done : (m.run (front ++ ":" :: more)).fault? = none) : (m.run front).fault? = none := by
  induction front using Phrase.induction_on_lexemes generalizing m with
  | nil => rw [run_nil]; rfl
  | cons lexeme rest ih =>
    rw [List.cons_append] at done
    cases appended : (Phrase.read lexeme (rest ++ ":" :: more)).result with
    | error fault =>
      rw [run_cons_of_error appended] at done
      cases done
    | ok phrase =>
      have result := Phrase.read_of_append_colon appended
      have cut := (Phrase.read_settled (Reading.whole_of_ok result)).append (":" :: more)
      rw [run_cons_of_ok appended, cut, Run.fault?_andThen_eq_none] at done
      rw [run_cons_of_ok result, Run.fault?_andThen_eq_none]
      exact ⟨done.1, ih done.2⟩

theorem run_append_colon (m : Machine) (front more : List String) :
    (m.run (front ++ ":" :: more)).EndsAs ((m.run front).andThen (run (":" :: more))) := by
  cases ended : (m.run front).fault? with
  | none =>
    rw [run_append (by simp [ended])]
    exact .refl _
  | some fault =>
    refine .of_failing (fun done => ?_) (by simp [ended])
    exact Option.some_ne_none fault (ended.symm.trans (fault?_of_run_append_colon done))

theorem run_append_of_error {lexemes : List String} {fault : Fault}
    (whole : (Source.read lexemes).Whole) (h : (Source.read lexemes).result = .error fault)
    (back : List String) (m : Machine) :
    m.run (":" :: (lexemes ++ back)) = .stopped fault m := by
  refine run_cons_of_error ?_ m
  rw [Phrase.read_colon, Reading.map, (Source.read_settled whole).append back, h]
  rfl

/-- The program mentions no word of that name, and defines none of those in the body. -/
structure Independent (name : String) (body lexemes : List String) : Prop where
  unmentioned : ∀ lexeme ∈ lexemes, Text.upper lexeme ≠ Text.upper name
  apart : ∀ other, .definition other ∈ (Program.read lexemes).phrases →
    ∀ part ∈ body, Text.upper other.name ≠ Text.upper part

/-- A definition and a program that is independent of it can change places: both orders go through
or neither does, and where they go through they lead to the same machine. -/
theorem run_definition_comm {m : Machine} (reached : m.Reached) {name : String}
    {body lexemes : List String} (parts : ∀ part ∈ body, IsPart part)
    (independent : Independent name body lexemes) :
    let definition := ":" :: name :: (body ++ [";"])
    (m.run (definition ++ lexemes)).EndsAs (m.run (lexemes ++ definition)) := by
  intro definition
  have sound := reached.sound
  have whole := Source.whole_of_parts parts name
  refine .trans ?_ (run_append_colon m lexemes (name :: (body ++ [";"]))).symm
  show Run.EndsAs (m.run (":" :: (name :: (body ++ [";"]) ++ lexemes))) _
  cases result : (Source.read (name :: (body ++ [";"]))).result with
  | error fault =>
    have alone (n : Machine) := run_append_of_error whole result [] n
    simp only [List.append_nil] at alone
    rw [run_append_of_error whole result lexemes m]
    exact .of_failing (by simp [Run.stopped]) (by simp [alone, Run.stopped])
  | ok source =>
    obtain ⟨named, program, rest⟩ :=
      Source.read_of_body (fun part member => (parts part member).ofLexeme_ne_semicolon) result
    have alone : run definition = define source := by
      funext n
      have behind := run_append_of_source result rest [] n
      rwa [List.append_nil, funext run_nil, Run.andThen_wrote_nil] at behind
    rw [run_append_of_source result rest lexemes m, alone]
    refine define_andThen_run sound (Source.readable_read result) (fun lexeme member => ?_)
      fun other within word mentioned => ?_
    · rw [← named, Text.upper_upper]
      exact independent.unmentioned lexeme member
    · obtain ⟨term, inBody, isName⟩ := List.mem_flatMap.1 mentioned
      have among : Phrase.term term ∈ (Program.read body).phrases :=
        program ▸ List.mem_map_of_mem inBody
      obtain ⟨part, found, rfl⟩ := Program.names_of_read body _ among word isName
      rw [Text.upper_upper]
      exact independent.apart other within part found

/-- The program redefines a word that those of the body were compiled from. -/
theorem run_definition_comm_quad :
    let m := fresh.after [.eval ": twice dup + ;"]
    let lexemes := ["3", ":", "+", "*", ";", "4", "+"]
    Independent "quad" ["twice", "Twice"] lexemes ∧
      (m.run ([":", "quad", "twice", "Twice", ";"] ++ lexemes)).fault? = none ∧
      (m.run ([":", "quad", "twice", "Twice", ";"] ++ lexemes)).EndsAs
        (m.run (lexemes ++ [":", "quad", "twice", "Twice", ";"])) := by
  intro m lexemes
  have phrases : (Program.read lexemes).phrases =
      [.term (.number 3), .definition ⟨"+", [.word "*"]⟩, .term (.number 4),
        .term (.word "+")] := by decide +kernel
  have parts : ∀ part ∈ ["twice", "Twice"], part ≠ ":" ∧ part ≠ ";" := by decide
  have independent : Independent "quad" ["twice", "Twice"] lexemes := by
    refine ⟨by decide +kernel, fun other within => ?_⟩
    rw [phrases] at within
    obtain rfl : other = ⟨"+", [.word "*"]⟩ := by simpa using within
    decide +kernel
  refine ⟨independent, by decide +kernel, ?_⟩
  exact run_definition_comm ⟨_, rfl⟩ (fun part member => (isPart_iff part).2 (parts part member))
    independent

end Machine

end Forth
