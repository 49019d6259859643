import Forth.Proofs.Cutting
import Forth.Proofs.Grammar
import Mathlib.Algebra.Group.Int.Defs

/-! How an evaluation can end. It goes through, or fails with a fault of one of four families, or
meets a number of too many digits: a numeral that it comes to read, or a dividend that the report of
a division by zero would have to name. -/

namespace Forth

/-- The faults of numbers with more digits than can be read or written. -/
def Fault.isTooLong : Fault → Bool
  | .numeralTooLong _ | .numberTooLong => true
  | _ => false

theorem Fault.family?_of_isTooLong {fault : Fault} (tooLong : fault.isTooLong = true) :
    fault.family? = none := by
  cases fault with
  | numeralTooLong _ => rfl
  | numberTooLong => rfl
  | _ => cases tooLong

/-! ### Reading up to a lexeme -/

/-- Reading a phrase from the front of some lexemes comes to `lexeme`: as the phrase or its colon,
as the name of a definition, or in its body. -/
inductive Phrase.ReadsTo (lexeme : String) : List String → Prop
  | first (rest : List String) : ReadsTo lexeme (lexeme :: rest)
  | name (rest : List String) : ReadsTo lexeme (":" :: lexeme :: rest)
  | part {name : String} {body : List String} (isName : IsWord name)
    (legible : ∀ part ∈ body, IsLegible part) (rest : List String) :
    ReadsTo lexeme (":" :: name :: (body ++ lexeme :: rest))

namespace Phrase

theorem result_of_readsTo {lexeme first : String} {rest : List String}
    (readsTo : ReadsTo lexeme (first :: rest)) (overlong : Numeral.IsOverlong lexeme) :
    (read first rest).result = .error (.numeralTooLong lexeme.length) := by
  cases readsTo with
  | first rest => rw [read_overlong overlong]
  | name rest =>
    rw [read_colon, Source.read_overlong overlong]
    rfl
  | part isName legible rest =>
    obtain ⟨terms, appended⟩ := Source.readBody_append legible (Text.upper _)
    rw [read_colon, Source.read_of_isWord isName, appended, Source.readBody_overlong overlong]
    rfl

theorem readsTo_of_source {rest : List String} {fault : Fault}
    (failed : (Source.read rest).result = .error fault) :
    fault.family? = some .invalidWord ∨
      ∃ lexeme, ReadsTo lexeme (":" :: rest) ∧ Numeral.IsOverlong lexeme ∧
        fault = .numeralTooLong lexeme.length := by
  cases rest with
  | nil => cases failed; exact .inl rfl
  | cons name rest =>
    have kind := Token.meantBy_ofLexeme name
    rw [Source.read] at failed
    generalize Token.ofLexeme name = token at kind failed
    cases kind with
    | number _ _ => cases failed; exact .inl rfl
    | colon _ => cases failed; exact .inl rfl
    | semicolon _ => cases failed; exact .inl rfl
    | overlong overlong =>
      cases failed
      exact .inr ⟨name, .name rest, overlong, rfl⟩
    | word isName =>
      obtain ⟨body, tail, rfl, legible, ends⟩ := Source.exists_body rest
      obtain ⟨terms, appended⟩ := Source.readBody_append legible (Text.upper name)
      simp only [appended] at failed
      cases ends with
      | nil => cases failed; exact .inl rfl
      | semicolon more => rw [Source.readBody_semicolon] at failed; cases failed
      | colon more => rw [Source.readBody_colon] at failed; cases failed; exact .inl rfl
      | @overlong lexeme overlong more =>
        rw [Source.readBody_overlong overlong] at failed
        cases failed
        exact .inr ⟨lexeme, .part isName legible more, overlong, rfl⟩

/-- A phrase that cannot be read is malformed, or reading it comes to an overlong numeral. -/
theorem readsTo_of_error {first : String} {rest : List String} {fault : Fault}
    (failed : (read first rest).result = .error fault) :
    fault.family? = some .invalidWord ∨
      ∃ lexeme, ReadsTo lexeme (first :: rest) ∧ Numeral.IsOverlong lexeme ∧
        fault = .numeralTooLong lexeme.length := by
  have kind := Token.meantBy_ofLexeme first
  rw [read] at failed
  generalize Token.ofLexeme first = token at kind failed
  cases kind with
  | number _ _ => cases failed
  | word _ => cases failed
  | semicolon _ => cases failed; exact .inl rfl
  | overlong overlong =>
    cases failed
    exact .inr ⟨first, .first rest, overlong, rfl⟩
  | colon same =>
    rw [same]
    refine readsTo_of_source ?_
    cases result : (Source.read rest).result with
    | ok source => simp [Reading.map, result, Except.map] at failed
    | error other => simpa [Reading.map, result, Except.map] using failed

end Phrase

/-! ### Running up to a lexeme or a primitive -/

theorem Primitive.divide_of_isTooLong {p : Primitive} {s : Stack} {fault : Fault}
    (failed : p.apply s = .error fault) (tooLong : fault.isTooLong = true) :
    ∃ dividend below, p = .divide ∧ s = ⟨0 :: dividend :: below⟩ ∧
      ¬Numeral.Writable dividend := by
  rcases apply_eq_error failed with ⟨-, rfl⟩ | ⟨dividend, below, isDivide, values, told⟩
  · cases tooLong
  · rcases eq_divisionFault_iff.1 told with ⟨-, rfl⟩ | ⟨long, -⟩
    · cases tooLong
    · exact ⟨dividend, below, isDivide, values, long⟩

namespace Machine

/-- Running the lexemes comes to read `lexeme`. -/
inductive ReadsTo (m : Machine) (lexeme : String) : List String → Prop
  | read {front rest : List String} (done : (m.run front).fault? = none)
    (readsTo : Phrase.ReadsTo lexeme rest) : ReadsTo m lexeme (front ++ rest)

/-- Running the lexemes comes to execute the primitive on the stack `s`, in the call of a word. -/
inductive Executes (m : Machine) (p : Primitive) (s : Stack) : List String → Prop
  | call {front : List String} {lexeme : String} (done : (m.run front).fault? = none)
    (isWord : IsWord lexeme) (invokes : (m.run front).machine.Invokes lexeme p s)
    (rest : List String) : Executes m p s (front ++ lexeme :: rest)

theorem ReadsTo.fault?_run {m : Machine} {lexeme : String} {lexemes : List String}
    (readsTo : m.ReadsTo lexeme lexemes) (overlong : Numeral.IsOverlong lexeme) :
    (m.run lexemes).fault? = some (.numeralTooLong lexeme.length) := by
  cases readsTo with
  | @read front rest done readsTo =>
    rw [fault?_run_append done]
    cases rest with
    | nil => cases readsTo
    | cons first rest =>
      rw [run_cons_of_error (Phrase.result_of_readsTo readsTo overlong)]
      rfl

theorem Executes.fault?_run {m : Machine} (sound : m.dictionary.Sound) {p : Primitive} {s : Stack}
    {lexemes : List String} (executes : m.Executes p s lexemes) {fault : Fault}
    (failed : p.apply s = .error fault) : (m.run lexemes).fault? = some fault := by
  cases executes with
  | @call front lexeme done isWord invokes rest =>
    have frontSound := (History.run front m).sound sound
    have stopped := (invokes_upper.2 invokes).execute frontSound failed
    rw [fault?_run_append done, run_cons_of_ok (by rw [Phrase.read_of_isWord isWord]), perform,
      stopped, Run.stopped_andThen]
    rfl

/-- A run that fails has come to something malformed, to an overlong numeral, to a name without a
word, or to a primitive that fails. -/
theorem run_fault_cases {m : Machine} (sound : m.dictionary.Sound) {lexemes : List String}
    {fault : Fault} (stopped : (m.run lexemes).fault? = some fault) :
    fault.family? = some .invalidWord ∨
      (∃ lexeme, m.ReadsTo lexeme lexemes ∧ Numeral.IsOverlong lexeme ∧
        fault = .numeralTooLong lexeme.length) ∨
      (∃ name, fault = .unknownWord name) ∨
      ∃ p s, m.Executes p s lexemes ∧ p.apply s = .error fault := by
  obtain ⟨front, next, rest, rfl, done, stops⟩ :=
    exists_stop (Option.ne_none_iff_exists'.2 ⟨_, stopped⟩)
  rw [fault?_run_append done] at stopped
  cases result : (Phrase.read next rest).result with
  | error other =>
    rw [run_cons_of_error result] at stopped
    cases stopped
    rcases Phrase.readsTo_of_error result with family | ⟨lexeme, readsTo, overlong, told⟩
    · exact .inl family
    · exact .inr (.inl ⟨lexeme, .read done readsTo, overlong, told⟩)
  | ok phrase =>
    obtain ⟨other, performed⟩ := Option.ne_none_iff_exists'.1 (stops phrase result)
    rw [run_cons_of_ok result, Run.andThen_of_stopped performed, performed] at stopped
    cases stopped
    have frontSound := (History.run front m).sound sound
    rcases perform_stopped frontSound (Phrase.readable_read result) performed with
      ⟨name, -, -, told⟩ | ⟨name, p, s, rfl, invokes, failed⟩
    · exact .inr (.inr (.inl ⟨name, told⟩))
    · obtain ⟨isWord, same⟩ := Phrase.isWord_of_read result
      refine .inr (.inr (.inr ⟨p, s, .call done isWord ?_ rest, failed⟩))
      rw [same] at invokes
      exact invokes_upper.1 invokes

/-- The only faults of an evaluation without a report are those of numbers with too many digits. -/
theorem report?_eq_none_iff {m : Machine} (sound : m.dictionary.Sound) {text : String}
    {fault : Fault} (stopped : (m.eval text).fault? = some fault) :
    fault.report? = none ↔ fault.isTooLong = true := by
  rw [Fault.report?, Option.map_eq_none_iff]
  refine ⟨fun unreported => ?_, Fault.family?_of_isTooLong⟩
  rw [fault?_eval] at stopped
  rcases run_fault_cases sound stopped with
    family | ⟨lexeme, -, -, rfl⟩ | ⟨name, rfl⟩ | ⟨p, s, -, failed⟩
  · cases unreported.symm.trans family
  · rfl
  · cases unreported
  · rcases Primitive.family?_of_apply_eq_error failed with family | family | rfl
    · cases unreported.symm.trans family
    · cases unreported.symm.trans family
    · rfl

/-- An evaluation goes through, or fails with a fault of one of four families or with a number of
too many digits. It meets such a number just where it comes to read an overlong numeral, or to
divide a number that cannot be written by zero. No definition fails to be recorded. -/
theorem eval_fault_cases {m : Machine} (reached : m.Reached) (text : String) :
    (∀ fault, (m.eval text).fault? = some fault →
      fault.family? = some .stackUnderflow ∨ fault.family? = some .divisionByZero ∨
        fault.family? = some .unknownWord ∨ fault.family? = some .invalidWord ∨
        fault.family? = none ∧ fault.isTooLong = true) ∧
    ((∃ fault, (m.eval text).fault? = some fault ∧ fault.isTooLong = true) ↔
      (∃ lexeme, m.ReadsTo lexeme (Text.lexemes text) ∧ Numeral.IsOverlong lexeme) ∨
        ∃ dividend below, m.Executes .divide ⟨0 :: dividend :: below⟩ (Text.lexemes text) ∧
          ¬Numeral.Writable dividend) ∧
    ∀ lexemes source body, (Source.read lexemes).result = .ok source →
      m.dictionary.resolveAll source.body = .ok body →
        ∃ texts, body.mapM Code.plainText = .ok texts := by
  simp only [fault?_eval]
  have sound := reached.sound
  refine ⟨fun fault stopped => ?_, ⟨?_, ?_⟩, fun lexemes source body read resolved => ?_⟩
  · rcases run_fault_cases sound stopped with
      family | ⟨lexeme, -, -, rfl⟩ | ⟨name, rfl⟩ | ⟨p, s, -, failed⟩
    · exact .inr (.inr (.inr (.inl family)))
    · exact .inr (.inr (.inr (.inr ⟨rfl, rfl⟩)))
    · exact .inr (.inr (.inl rfl))
    · rcases Primitive.family?_of_apply_eq_error failed with family | family | rfl
      · exact .inl family
      · exact .inr (.inl family)
      · exact .inr (.inr (.inr (.inr ⟨rfl, rfl⟩)))
  · rintro ⟨fault, stopped, tooLong⟩
    rcases run_fault_cases sound stopped with
      family | ⟨lexeme, readsTo, overlong, -⟩ | ⟨name, rfl⟩ | ⟨p, s, executes, failed⟩
    · rw [Fault.family?_of_isTooLong tooLong] at family
      cases family
    · exact .inl ⟨lexeme, readsTo, overlong⟩
    · cases tooLong
    · obtain ⟨dividend, below, rfl, rfl, unwritable⟩ := Primitive.divide_of_isTooLong failed tooLong
      exact .inr ⟨dividend, below, executes, unwritable⟩
  · rintro (⟨lexeme, readsTo, overlong⟩ | ⟨dividend, below, executes, unwritable⟩)
    · exact ⟨_, readsTo.fault?_run overlong, rfl⟩
    · refine ⟨.numberTooLong, executes.fault?_run sound ?_, rfl⟩
      exact congrArg Except.error (if_neg unwritable)
  · exact Code.plainTexts_of_flat (sound.resolveAll (Source.readable_read read).body resolved)

/-- A dividend that cannot be written, met in the call of a word. -/
theorem eval_fault_cases_division :
    let m := fresh.after [.eval ": over swap 0 / ;", .push (10 ^ Numeral.digitLimit)]
    (m.eval "7 Over").fault? = some .numberTooLong ∧
      ((∃ lexeme, m.ReadsTo lexeme (Text.lexemes "7 Over") ∧ Numeral.IsOverlong lexeme) ∨
        ∃ dividend below, m.Executes .divide ⟨0 :: dividend :: below⟩ (Text.lexemes "7 Over") ∧
          ¬Numeral.Writable dividend) := by
  intro m
  have stopped : (m.eval "7 Over").fault? = some .numberTooLong := by decide +kernel
  exact ⟨stopped, (eval_fault_cases ⟨_, rfl⟩ "7 Over").2.1.1 ⟨_, stopped, rfl⟩⟩

end Machine

end Forth
