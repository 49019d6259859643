import Forth.Proofs.Outcome
import Forth.Proofs.Replay

/-! Reports are true of the machine that they leave. The numbers and names in the message of a
report are those of the stack and of the dictionary after the evaluation that it stopped, wherever
that came to its end. -/

namespace Forth

/-! ### What a report tells -/

namespace Fault

-- These lemmas stand for unfolding `message`, which would compute the text of the digit limit.

theorem message_underflow_of_one_lt {needed : Nat} (several : 1 < needed) (available : Nat) :
    (underflow needed available).message =
      toString needed ++ " values needed, " ++ toString available ++ " on stack" :=
  if_pos several

theorem message_underflow_of_le_one {needed : Nat} (one : needed ≤ 1) (available : Nat) :
    (underflow needed available).message = "one value needed (empty stack)" :=
  if_neg (Nat.not_lt.2 one)

theorem message_divisionByZero (dividend : Int) :
    (divisionByZero dividend).message = "division of " ++ toString dividend ++ " by zero" := rfl

theorem message_unknownWord (name : String) :
    (unknownWord name).message = "unknown word " ++ Text.shownWord name := rfl

/-- The two messages about a stack that is too low differ in their last characters. -/
theorem values_needed_ne_one_value (needed available : String) :
    needed ++ " values needed, " ++ available ++ " on stack" ≠
      "one value needed (empty stack)" := by
  intro same
  have last := congrArg (fun text => text.toList.reverse.head?) same
  simp at last

/-- The message of an underflow tells both numbers: the first one ends at the first space. -/
theorem values_needed_inj {needed available otherNeeded otherAvailable : Nat}
    (same : toString needed ++ " values needed, " ++ toString available ++ " on stack" =
      toString otherNeeded ++ " values needed, " ++ toString otherAvailable ++ " on stack") :
    needed = otherNeeded ∧ available = otherAvailable := by
  have spaced : " values needed, ".toList = ' ' :: "values needed, ".toList := by decide
  have first : (toString needed).toList = (toString otherNeeded).toList := by
    have lists := congrArg (fun text => text.toList.takeWhile (· ≠ ' ')) same
    simpa only [String.toList_append, List.append_assoc, spaced, List.cons_append,
      Text.takeWhile_toString_append_space] using lists
  have neededSame : needed = otherNeeded := Numeral.repr_injective (String.toList_inj.1 first)
  subst neededSame
  have second := (String.append_right_inj _).1 ((String.append_left_inj _).1 same)
  exact ⟨rfl, Numeral.repr_injective second⟩

section

variable {fault : Fault}

theorem of_report?_eq_some {family : Family} {text : String}
    (told : fault.report? = some ⟨family, text⟩) :
    fault.family? = some family ∧ fault.message = text := by
  obtain ⟨found, known, same⟩ := Option.map_eq_some_iff.1 told
  cases same
  exact ⟨known, rfl⟩

/-- A report that tells two numbers is about a stack with too few values, and tells both. -/
theorem eq_underflow_of_report {needed available : Nat}
    (told : fault.report? = some ⟨.stackUnderflow, toString needed ++ " values needed, " ++
      toString available ++ " on stack"⟩) : fault = .underflow needed available := by
  obtain ⟨family, same⟩ := of_report?_eq_some told
  cases fault with
  | underflow n k =>
    rcases Nat.lt_or_ge 1 n with several | one
    · rw [message_underflow_of_one_lt several] at same
      obtain ⟨rfl, rfl⟩ := values_needed_inj same
      rfl
    · rw [message_underflow_of_le_one one] at same
      exact absurd same.symm (values_needed_ne_one_value _ _)
  | _ => cases family

/-- The report of an empty stack is that of a fault for which one value was enough. -/
theorem exists_underflow_of_report
    (told : fault.report? = some ⟨.stackUnderflow, "one value needed (empty stack)"⟩) :
    ∃ needed available, fault = .underflow needed available ∧ needed ≤ 1 := by
  obtain ⟨family, same⟩ := of_report?_eq_some told
  cases fault with
  | underflow n k =>
    rcases Nat.lt_or_ge 1 n with several | one
    · rw [message_underflow_of_one_lt several] at same
      exact absurd same (values_needed_ne_one_value _ _)
    · exact ⟨n, k, rfl, one⟩
  | _ => cases family

theorem eq_divisionByZero_of_report {dividend : Int}
    (told : fault.report? = some ⟨.divisionByZero, "division of " ++ toString dividend ++
      " by zero"⟩) : fault = .divisionByZero dividend := by
  obtain ⟨family, same⟩ := of_report?_eq_some told
  cases fault with
  | divisionByZero other =>
    rw [message_divisionByZero, String.append_left_inj, String.append_right_inj] at same
    exact congrArg divisionByZero (Numeral.int_repr_injective same)
  | _ => cases family

theorem eq_unknownWord_of_report {name : String}
    (told : fault.report? = some ⟨.unknownWord, "unknown word " ++ Text.shownWord name⟩) :
    fault = .unknownWord name := by
  obtain ⟨family, same⟩ := of_report?_eq_some told
  cases fault with
  | unknownWord other =>
    rw [message_unknownWord, String.append_right_inj] at same
    exact congrArg unknownWord (Text.Colour.paint_eq_iff.1 same).2
  | _ => cases family

end

/-! ### Faults that are true -/

/-- What a fault says of the machine that it leaves. -/
def TrueOf : Fault → Machine → Prop
  | underflow needed available, m => available < needed ∧ m.stack.depth = available
  | divisionByZero dividend, m => ∃ below, m.stack = ⟨0 :: dividend :: below⟩
  | unknownWord name, m => m.dictionary.contains name = false
  | _, _ => True

theorem trueOf_of_invalidWord {fault : Fault} (family : fault.family? = some .invalidWord)
    (m : Machine) : fault.TrueOf m := by
  cases fault with
  | underflow _ _ | divisionByZero _ | unknownWord _ => cases family
  | _ => trivial

end Fault

theorem Primitive.trueOf_of_apply_eq_error {p : Primitive} {s : Stack} {fault : Fault}
    (failed : p.apply s = .error fault) (d : Dictionary) : fault.TrueOf ⟨s, d⟩ := by
  rcases apply_eq_error failed with ⟨short, rfl⟩ | ⟨dividend, below, -, rfl, told⟩
  · exact ⟨short, rfl⟩
  · rcases eq_divisionFault_iff.1 told with ⟨-, rfl⟩ | ⟨-, rfl⟩
    · exact ⟨below, rfl⟩
    · exact True.intro

namespace Machine

variable {m : Machine} {fault : Fault}

theorem dictionary_of_perform_stopped (sound : m.dictionary.Sound) {phrase : Phrase}
    (readable : phrase.Readable) (stopped : (m.perform phrase).fault? = some fault) :
    (m.perform phrase).machine.dictionary = m.dictionary := by
  cases readable with
  | @term term _ => cases term <;> rfl
  | definition readable =>
    rw [perform] at stopped ⊢
    rcases define_cases sound readable with ⟨other, nothing⟩ | ⟨body, texts, -, -, defined⟩
    · rw [nothing]
      rfl
    · rw [defined] at stopped
      cases stopped

/-- A phrase that fails leaves a machine of which the fault is true, be it on the top level or in
the body of a word that it calls. -/
theorem trueOf_of_perform_stopped (sound : m.dictionary.Sound) {phrase : Phrase}
    (readable : phrase.Readable) (stopped : (m.perform phrase).fault? = some fault) :
    fault.TrueOf (m.perform phrase).machine := by
  rcases perform_stopped sound readable stopped with
    ⟨name, -, unbound, rfl⟩ | ⟨name, p, s, rfl, invokes, failed⟩
  · have kept := dictionary_of_perform_stopped sound readable stopped
    rw [Fault.TrueOf, kept, Dictionary.contains, unbound]
    rfl
  · rw [perform, invokes.execute sound failed]
    exact p.trueOf_of_apply_eq_error failed m.dictionary

/-- The word that a phrase does not know has its name from a lexeme of the phrase. -/
theorem mem_names_of_perform_stopped (sound : m.dictionary.Sound) {phrase : Phrase}
    (readable : phrase.Readable) {name : String}
    (stopped : (m.perform phrase).fault? = some (.unknownWord name)) : name ∈ phrase.names := by
  rcases perform_stopped sound readable stopped with
    ⟨other, named, -, same⟩ | ⟨_, p, s, -, -, failed⟩
  · cases same
    exact named
  · rcases p.family?_of_apply_eq_error failed with family | family | same
    · cases family
    · cases family
    · cases same

/-- Where a run stops, the fault is true, and the lexemes there name the word that is not known. -/
theorem StopsAt.trueOf_run (sound : m.dictionary.Sound) {next : String} {rest : List String}
    (stops : m.StopsAt next rest) (stopped : (m.run (next :: rest)).fault? = some fault) :
    fault.TrueOf (m.run (next :: rest)).machine ∧
      ∀ name, fault = .unknownWord name → ∃ lexeme ∈ next :: rest, Text.upper lexeme = name := by
  cases result : (Phrase.read next rest).result with
  | error other =>
    rw [run_cons_of_error result] at stopped ⊢
    cases stopped
    rcases Phrase.readsTo_of_error result with family | ⟨lexeme, -, -, rfl⟩
    · exact ⟨Fault.trueOf_of_invalidWord family m, by rintro name rfl; cases family⟩
    · exact ⟨True.intro, by rintro name ⟨⟩⟩
  | ok phrase =>
    have readable := Phrase.readable_read result
    obtain ⟨other, failed⟩ := Option.ne_none_iff_exists'.1 (stops phrase result)
    rw [run_cons_of_ok result, Run.andThen_of_stopped failed] at stopped ⊢
    refine ⟨trueOf_of_perform_stopped sound readable stopped, ?_⟩
    rintro name rfl
    exact Phrase.names_of_read result name (mem_names_of_perform_stopped sound readable stopped)

/-- A run that fails leaves a machine of which the fault is true. Its dictionary is that before the
phrase that failed, and a word that is not known has its name from a lexeme. -/
theorem trueOf_run_of_stopped (sound : m.dictionary.Sound) {lexemes : List String}
    (stopped : (m.run lexemes).fault? = some fault) :
    fault.TrueOf (m.run lexemes).machine ∧
      (∀ name, fault = .unknownWord name → ∃ lexeme ∈ lexemes, Text.upper lexeme = name) ∧
      ∃ front next rest, lexemes = front ++ next :: rest ∧ (m.run front).fault? = none ∧
        (m.run front).machine.StopsAt next rest ∧
        (m.run lexemes).machine.dictionary = (m.run front).machine.dictionary := by
  obtain ⟨front, next, rest, rfl, done, stops⟩ :=
    exists_stop (Option.ne_none_iff_exists'.2 ⟨_, stopped⟩)
  have frontSound := (History.run front m).sound sound
  have split : m.run (front ++ next :: rest) = (m.run front).andThen (run (next :: rest)) :=
    run_append (by simp [done]) _
  rw [split, Run.andThen_of_done done] at stopped ⊢
  obtain ⟨trueOf, named⟩ := stops.trueOf_run frontSound stopped
  refine ⟨trueOf, fun name same => ?_, front, next, rest, rfl, done, stops,
    (stops.failsInto frontSound).2.dictionary⟩
  obtain ⟨lexeme, member, upper⟩ := named name same
  exact ⟨lexeme, List.mem_append_right _ member, upper⟩

/-- What the report of an evaluation says is true of the machine that the evaluation leaves: how
many values are on the stack, what was to be divided by the zero on top, and that no word has the
name, neither at the phrase that failed nor afterwards. -/
theorem eval_report_true (reached : m.Reached) {text : String} {report : Report}
    (stopped : (m.eval text).fault?.bind Fault.report? = some report) :
    let left := (m.eval text).machine
    (∀ needed available : Nat, report = ⟨.stackUnderflow, toString needed ++ " values needed, " ++
        toString available ++ " on stack"⟩ →
      available < needed ∧ left.stack.depth = available) ∧
    (report = ⟨.stackUnderflow, "one value needed (empty stack)"⟩ → left.stack = .empty) ∧
    (∀ dividend : Int, report = ⟨.divisionByZero, "division of " ++ toString dividend ++
        " by zero"⟩ →
      ∃ below, left.stack = ⟨0 :: dividend :: below⟩) ∧
    ∀ name, report = ⟨.unknownWord, "unknown word " ++ Text.shownWord name⟩ →
      (∃ lexeme ∈ Text.lexemes text, Text.upper lexeme = name) ∧
      ∃ front next rest, Text.lexemes text = front ++ next :: rest ∧
        (m.run front).fault? = none ∧ (m.run front).machine.StopsAt next rest ∧
        (m.run front).machine.dictionary.contains name = false ∧
        left.dictionary.contains name = false := by
  intro left
  obtain ⟨fault, failed, told⟩ := Option.bind_eq_some_iff.1 stopped
  rw [fault?_eval] at failed
  obtain ⟨trueOf, named, front, next, rest, cut, done, stops, kept⟩ :=
    trueOf_run_of_stopped reached.sound failed
  rw [← machine_eval] at trueOf kept
  refine ⟨?_, ?_, ?_, ?_⟩
  · rintro needed available rfl
    cases Fault.eq_underflow_of_report told
    exact trueOf
  · rintro rfl
    obtain ⟨needed, available, rfl, one⟩ := Fault.exists_underflow_of_report told
    obtain ⟨short, depth⟩ := trueOf
    have none : left.stack.values.length = 0 := depth.trans (by omega)
    exact congrArg Stack.mk (List.length_eq_zero_iff.1 none)
  · rintro dividend rfl
    cases Fault.eq_divisionByZero_of_report told
    exact trueOf
  · rintro name rfl
    cases Fault.eq_unknownWord_of_report told
    exact ⟨named name rfl, front, next, rest, cut, done, stops, kept ▸ trueOf, trueOf⟩

/-- The division fails inside a call, the unknown word inside a definition that comes after another
one has been installed. -/
theorem eval_report_true_inside_call :
    let m := fresh.after [.eval ": void 0 / ;"]
    let text := "1 : twice 2 * ; : Void twice Lost ; 5"
    (m.eval "3 7 Void 8").fault?.bind Fault.report? =
        some ⟨.divisionByZero, "division of " ++ toString (7 : Int) ++ " by zero"⟩ ∧
      (∃ below, (m.eval "3 7 Void 8").machine.stack = ⟨0 :: 7 :: below⟩) ∧
      (m.eval text).fault?.bind Fault.report? =
        some ⟨.unknownWord, "unknown word " ++ Text.shownWord "LOST"⟩ ∧
      (∃ lexeme ∈ Text.lexemes text, Text.upper lexeme = "LOST") ∧
      (m.eval text).machine.dictionary.contains "LOST" = false := by
  intro m text
  have divided : (m.eval "3 7 Void 8").fault?.bind Fault.report? =
      some ⟨.divisionByZero, "division of " ++ toString (7 : Int) ++ " by zero"⟩ := by
    decide +kernel
  have lost : (m.eval text).fault?.bind Fault.report? =
      some ⟨.unknownWord, "unknown word " ++ Text.shownWord "LOST"⟩ := by decide +kernel
  obtain ⟨-, -, ofDivision, -⟩ := eval_report_true ⟨_, rfl⟩ divided
  obtain ⟨-, -, -, ofName⟩ := eval_report_true ⟨_, rfl⟩ lost
  obtain ⟨named, _, _, _, -, -, -, -, unbound⟩ := ofName "LOST" rfl
  exact ⟨divided, ofDivision 7 rfl, lost, named, unbound⟩

end Machine

end Forth
