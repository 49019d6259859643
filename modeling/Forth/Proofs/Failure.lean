import Forth.Proofs.Invocation

/-! What a run that fails leaves behind. The lexemes before the phrase that fails do all that they
do by themselves, and the phrase does nothing, unless it calls a definition: then the parts of its
body before the one that fails are executed too. -/

namespace Forth

/-- `front` is the longest of the lists with the property `p` that `whole` begins with. -/
structure Longest {α : Type} (p : List α → Prop) (front whole : List α) : Prop where
  begins : front <+: whole
  holds : p front
  longest : ∀ other, other <+: whole → p other → other.length ≤ front.length

theorem Longest.of_next {α : Type} {p : List α → Prop} {front rest : List α} {next : α}
    (holds : p front) (fails : ∀ more, more <+: rest → ¬p (front ++ next :: more)) :
    Longest p front (front ++ next :: rest) := by
  refine ⟨List.prefix_append _ _, holds, fun other begins otherHolds => ?_⟩
  rcases Nat.lt_or_ge front.length other.length with long | short
  · obtain ⟨tail, rfl⟩ : front <+: other :=
      List.prefix_of_prefix_length_le (List.prefix_append _ _) begins (Nat.le_of_lt long)
    rw [List.prefix_append_right_inj] at begins
    cases tail with
    | nil => simp at long
    | cons first more =>
      obtain ⟨rfl, within⟩ := List.cons_prefix_cons.1 begins
      exact absurd otherHolds (fails more within)
  · exact short

/-! ### Inside a body -/

namespace Code

variable {call : String → Stack → Effect}

theorem execAll_append_of_done {front : List Code} {s : Stack}
    (done : (execAll call front s).fault? = none) (code : Code) (rest : List Code) :
    execAll call (front ++ code :: rest) s =
      (exec call code (execAll call front s).stack).andThen (execAll call rest) := by
  rw [execAll_append, Effect.andThen, done, execAll]

theorem exists_failing_part {body : List Code} {s : Stack}
    (stopped : (execAll call body s).fault? ≠ none) :
    ∃ front code rest, body = front ++ code :: rest ∧ (execAll call front s).fault? = none ∧
      (exec call code (execAll call front s).stack).fault? ≠ none := by
  induction body generalizing s with
  | nil => exact absurd (by rw [execAll]; rfl) stopped
  | cons code codes ih =>
    cases first : (exec call code s).fault? with
    | some fault =>
      refine ⟨[], code, codes, rfl, by rw [execAll]; rfl, ?_⟩
      rw [execAll, Effect.done, first]
      exact Option.some_ne_none fault
    | none =>
      have step : ∀ others, execAll call (code :: others) s =
          execAll call others (exec call code s).stack := by
        intro others
        rw [execAll, Effect.andThen, first]
      rw [step] at stopped
      obtain ⟨front, next, rest, cut, done, fails⟩ := ih stopped
      exact ⟨code :: front, next, rest, by rw [cut, List.cons_append], by rw [step, done],
        by rwa [step]⟩

theorem exists_longest_executed {body : List Code} (flat : ∀ code ∈ body, code.Flat) {s : Stack}
    (stopped : (execAll call body s).fault? ≠ none) :
    ∃ front, Longest (fun part => (execAll call part s).fault? = none) front body ∧
      (execAll call body s).stack = (execAll call front s).stack := by
  obtain ⟨front, code, rest, rfl, done, fails⟩ := exists_failing_part stopped
  have fault : ∀ others, execAll call (front ++ code :: others) s =
      exec call code (execAll call front s).stack := by
    intro others
    rw [execAll_append_of_done done, Effect.andThen]
    split
    case h_1 ended => exact absurd ended fails
    case h_2 => rfl
  refine ⟨front, .of_next done fun more _ => by rwa [fault], ?_⟩
  rw [fault]
  exact (flat code (by simp)).stack_exec fails

end Code

/-! ### Between phrases -/

namespace Machine

/-- The phrase that begins with the lexeme cannot be read, or fails when it is performed. -/
def StopsAt (m : Machine) (lexeme : String) (rest : List String) : Prop :=
  ∀ phrase, (Phrase.read lexeme rest).result = .ok phrase → (m.perform phrase).fault? ≠ none

theorem StopsAt.not_done {m : Machine} {lexeme : String} {rest more : List String}
    (stops : m.StopsAt lexeme rest) (within : more <+: rest) :
    (m.run (lexeme :: more)).fault? ≠ none := by
  intro done
  obtain ⟨others, rfl⟩ := within
  cases result : (Phrase.read lexeme more).result with
  | error fault =>
    rw [run_cons_of_error result] at done
    cases done
  | ok phrase =>
    have read := (Phrase.read_settled (Reading.whole_of_ok result)).append others
    rw [run_cons_of_ok result, Run.fault?_andThen_eq_none] at done
    exact stops phrase (by rw [read, result]) done.1

theorem exists_stop {m : Machine} {lexemes : List String}
    (stopped : (m.run lexemes).fault? ≠ none) :
    ∃ front next rest, lexemes = front ++ next :: rest ∧ (m.run front).fault? = none ∧
      (m.run front).machine.StopsAt next rest := by
  -- Phrase by phrase: what goes through is moved in front of the cut, with all of its lexemes.
  induction lexemes using Phrase.induction_on_lexemes generalizing m with
  | nil => exact absurd (by rw [run_nil]; rfl) stopped
  | cons lexeme rest ih =>
    by_cases stops : m.StopsAt lexeme rest
    · exact ⟨[], lexeme, rest, rfl, by rw [run_nil]; rfl, by rwa [run_nil]⟩
    · obtain ⟨phrase, result, performed⟩ : ∃ phrase,
          (Phrase.read lexeme rest).result = .ok phrase ∧ (m.perform phrase).fault? = none := by
        simpa [StopsAt] using stops
      obtain ⟨taken, cut, same⟩ := Phrase.read_settled (Reading.whole_of_ok result)
      have step : ∀ more, m.run (lexeme :: (taken ++ more)) =
          (m.perform phrase).andThen (run more) := by
        intro more
        rw [run_cons_of_ok (by rw [same, result]), same]
      have later :
          ((m.perform phrase).machine.run (Phrase.read lexeme rest).rest).fault? ≠ none := by
        rw [cut, step, Run.andThen_of_done performed] at stopped
        exact stopped
      obtain ⟨front, next, others, cutLater, done, stopsLater⟩ := ih later
      refine ⟨lexeme :: (taken ++ front), next, others, ?_, ?_, ?_⟩
      · rw [List.cons_append, List.append_assoc, ← cutLater, ← cut]
      · rw [step, Run.andThen_of_done performed, done]
      · rwa [step, Run.andThen_of_done performed]

/-- A phrase that fails and calls no definition changes nothing. -/
theorem perform_failed {m : Machine} (sound : m.dictionary.Sound) {phrase : Phrase}
    (readable : phrase.Readable) (failed : (m.perform phrase).fault? ≠ none)
    (noCall : ∀ name, phrase = .term (.word name) →
      ∀ key body, m.dictionary.lookup name ≠ some (.colon key body)) :
    ∃ fault, m.perform phrase = .stopped fault m := by
  cases readable with
  | @definition source readable =>
    rcases define_cases sound readable with stopped | ⟨body, texts, -, -, defined⟩
    · exact stopped
    · exact absurd (by rw [perform, defined]; rfl) failed
  | @term term readable =>
    cases readable with
    | number bound => exact absurd rfl failed
    | @word name _ =>
      cases found : m.dictionary.lookup name with
      | none =>
        refine ⟨.unknownWord name, ?_⟩
        rw [perform, execute, affect, Dictionary.invoke_of_lookup_eq_none found]
        rfl
      | some code =>
        cases sound.lookup found with
        | colon _ _ => exact absurd found (noCall name rfl _ _)
        | @primitive p _ =>
          have called := sound.invoke found rfl m.dictionary.invoke m.stack
          rw [Code.execAll_singleton] at called
          simp only [perform, execute, affect, called] at failed ⊢
          obtain ⟨fault, stopped⟩ := Option.ne_none_iff_exists'.1 failed
          rw [(Code.Flat.primitive p).stack_exec failed, stopped]
          exact ⟨fault, rfl⟩

theorem perform_call {m : Machine} (sound : m.dictionary.Sound) {name key : String}
    {body : List Code} (found : m.dictionary.lookup name = some (.colon key body)) :
    (m.perform (.term (.word name))).machine =
        { m with stack := (Code.execAll m.dictionary.invoke body m.stack).stack } ∧
      (m.perform (.term (.word name))).fault? =
        (Code.execAll m.dictionary.invoke body m.stack).fault? := by
  have called := sound.invoke found rfl m.dictionary.invoke m.stack
  rw [perform, execute, affect, called]
  exact ⟨rfl, rfl⟩

theorem run_of_call {m : Machine} (sound : m.dictionary.Sound) {lexeme key : String}
    {rest : List String} {body : List Code} (stops : m.StopsAt lexeme rest)
    (found : m.dictionary.lookup lexeme = some (.colon key body)) :
    (Code.execAll m.dictionary.invoke body m.stack).fault? ≠ none ∧
      (m.run (lexeme :: rest)).written = [] ∧
      (m.run (lexeme :: rest)).machine =
        { m with stack := (Code.execAll m.dictionary.invoke body m.stack).stack } := by
  have result : (Phrase.read lexeme rest).result = .ok (.term (.word (Text.upper lexeme))) := by
    rw [Phrase.read, sound.ofLexeme found]
  have failed := stops _ result
  obtain ⟨fault, stopped⟩ := Option.ne_none_iff_exists'.1 failed
  rw [← m.dictionary.lookup_upper] at found
  obtain ⟨machine, fault?⟩ := perform_call sound found
  rw [run_cons_of_ok result, Run.andThen_of_stopped stopped]
  exact ⟨by rwa [← fault?], rfl, machine⟩

theorem run_of_no_call {m : Machine} (sound : m.dictionary.Sound) {lexeme : String}
    {rest : List String} (stops : m.StopsAt lexeme rest)
    (noCall : ∀ key body, m.dictionary.lookup lexeme ≠ some (.colon key body)) :
    ∃ fault, m.run (lexeme :: rest) = .stopped fault m := by
  cases result : (Phrase.read lexeme rest).result with
  | error fault => exact ⟨fault, run_cons_of_error result m⟩
  | ok phrase =>
    have stopped : ∃ fault, m.perform phrase = .stopped fault m := by
      refine perform_failed sound (Phrase.readable_read result) (stops phrase result) ?_
      rintro name rfl key body
      rcases Phrase.read_eq_ok result with ⟨term, meant, same⟩ | ⟨source, -, same⟩
      · cases same
        cases meant with
        | word token =>
          rw [← Token.upper_of_ofLexeme token, Dictionary.lookup_upper]
          exact noCall key body
      · cases same
    obtain ⟨fault, performed⟩ := stopped
    exact ⟨fault, by rw [run_cons_of_ok result, performed, Run.stopped_andThen]⟩

/-- What becomes of a machine on which the phrase that begins with the lexeme fails: it stays as it
is, unless the lexeme calls a definition. Of its body, all that can be executed is. -/
structure FailsInto (before : Machine) (lexeme : String) (after : Machine) : Prop where
  dictionary : after.dictionary = before.dictionary
  call : ∀ key body, before.dictionary.lookup lexeme = some (.colon key body) →
    ∃ executed,
      Longest (fun part => (Code.execAll before.dictionary.invoke part before.stack).fault? = none)
        executed body ∧
      after.stack = (Code.execAll before.dictionary.invoke executed before.stack).stack
  other : (∀ key body, before.dictionary.lookup lexeme ≠ some (.colon key body)) →
    after.stack = before.stack
  definition : Token.ofLexeme lexeme = .colon → after = before

theorem StopsAt.failsInto {m : Machine} (sound : m.dictionary.Sound) {lexeme : String}
    {rest : List String} (stops : m.StopsAt lexeme rest) :
    (m.run (lexeme :: rest)).written = [] ∧
      m.FailsInto lexeme (m.run (lexeme :: rest)).machine := by
  by_cases calls : ∃ key body, m.dictionary.lookup lexeme = some (.colon key body)
  · obtain ⟨key, body, found⟩ := calls
    obtain ⟨fails, written, machine⟩ := run_of_call sound stops found
    have isWord := sound.ofLexeme found
    have flat : ∀ code ∈ body, code.Flat := by
      cases sound.lookup found with
      | colon _ flat => exact flat
    rw [written, machine]
    refine ⟨rfl, rfl, fun other parts same => ?_, fun noCall => absurd found (noCall _ _), ?_⟩
    · cases found.symm.trans same
      exact Code.exists_longest_executed flat fails
    · intro isColon
      rw [isWord] at isColon
      contradiction
  · have noCall : ∀ key body, m.dictionary.lookup lexeme ≠ some (.colon key body) := by
      intro key body found
      exact calls ⟨key, body, found⟩
    obtain ⟨fault, nothing⟩ := run_of_no_call sound stops noCall
    rw [nothing]
    exact ⟨rfl, rfl, fun key body found => absurd found (noCall key body), fun _ => rfl,
      fun _ => rfl⟩

/-- A run that fails has done what its longest part that goes through does, and nothing more, unless
it failed inside the body of a definition. -/
theorem run_stopped {m : Machine} (reached : m.Reached) {lexemes : List String} {fault : Fault}
    (stopped : (m.run lexemes).fault? = some fault) :
    ∃ front next rest written before, lexemes = front ++ next :: rest ∧
      Longest (fun part => (m.run part).fault? = none) front lexemes ∧
      m.run front = .wrote written before ∧
      (m.run lexemes).written = written ∧
      before.FailsInto next (m.run lexemes).machine := by
  have failed : (m.run lexemes).fault? ≠ none := by simp [stopped]
  obtain ⟨front, next, rest, rfl, done, stops⟩ := exists_stop failed
  have sound : (m.run front).machine.dictionary.Sound := (History.run front m).sound reached.sound
  have split : ∀ back, m.run (front ++ back) = (m.run front).andThen (run back) :=
    run_append (by simp [done])
  have longest : Longest (fun part => (m.run part).fault? = none) front (front ++ next :: rest) :=
    .of_next done fun more within => by
      rw [split, Run.fault?_andThen_eq_none]
      exact fun both => stops.not_done within both.2
  have wrote : m.run front = .wrote (m.run front).written (m.run front).machine := by
    rw [Run.wrote, ← done]
  obtain ⟨written, into⟩ := stops.failsInto sound
  refine ⟨front, next, rest, _, _, rfl, longest, wrote, ?_⟩
  rw [split, Run.andThen_of_done done, written, List.append_nil]
  exact ⟨rfl, into⟩

/-- A run that adds to the empty stack inside a definition keeps the number pushed there. -/
theorem run_stopped_inside_call :
    let m := fresh.after [.eval ": bad 1 + ;"]
    let lexemes := ["2", "drop", "Bad", "5"]
    (m.run lexemes).fault? = some (.underflow 2 1) ∧
      ∃ front next rest written before, lexemes = front ++ next :: rest ∧
        Longest (fun part => (m.run part).fault? = none) front lexemes ∧
        m.run front = .wrote written before ∧
        (m.run lexemes).written = written ∧
        before.FailsInto next (m.run lexemes).machine := by
  intro m lexemes
  have stopped : (m.run lexemes).fault? = some (.underflow 2 1) := by decide +kernel
  exact ⟨stopped, run_stopped ⟨_, rfl⟩ stopped⟩

end Machine

end Forth
