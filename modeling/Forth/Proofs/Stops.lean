import Forth.Proofs.Failure
import Forth.Proofs.Naming

/-! What can stop an execution on a sound dictionary: a name without a word, or a primitive that
does not find what it needs. Whatever a machine is asked to perform, no other fault comes up, and
the primitive that fails can be pointed out. -/

namespace Forth

/-- The fault of a stack with too few values. -/
abbrev Fault.IsUnderflow (fault : Fault) : Prop := fault.family? = some .stackUnderflow

namespace Primitive

/-- A primitive finds too few values, or is a division by zero, or goes through. -/
theorem apply_cases (p : Primitive) (s : Stack) :
    s.depth < p.arity ∧ p.apply s = .error (.underflow p.arity s.depth) ∨
      (∃ dividend below, p = .divide ∧ s = ⟨0 :: dividend :: below⟩ ∧
        p.apply s = .error (divisionFault dividend)) ∨
      ∃ after, p.apply s = .ok after := by
  obtain ⟨_ | ⟨b, _ | ⟨a, below⟩⟩⟩ := s
  case nil => exact .inl ⟨by cases p <;> decide, by cases p <;> rfl⟩
  case cons.nil =>
    cases p with
    | duplicate | drop => exact .inr (.inr ⟨_, rfl⟩)
    | _ => exact .inl ⟨Nat.lt_succ_self 1, rfl⟩
  case cons.cons =>
    refine .inr ?_
    cases p with
    | divide =>
      by_cases zero : b = 0
      · subst zero
        exact .inl ⟨a, below, rfl, rfl, rfl⟩
      · exact .inr ⟨_, if_neg zero⟩
    | _ => exact .inr ⟨_, rfl⟩

theorem apply_of_depth_lt {p : Primitive} {s : Stack} (short : s.depth < p.arity) :
    p.apply s = .error (.underflow p.arity s.depth) := by
  obtain ⟨_ | ⟨b, _ | ⟨a, below⟩⟩⟩ := s
  case nil => cases p <;> rfl
  case cons.nil =>
    cases p with
    | duplicate | drop => exact absurd short (Nat.lt_irrefl 1)
    | _ => rfl
  case cons.cons =>
    have arity_le : p.arity ≤ 2 := by cases p <;> decide
    simp only [Stack.depth, List.length_cons] at short
    omega

theorem arity_le_of_apply {p : Primitive} {s after : Stack} (applied : p.apply s = .ok after) :
    p.arity ≤ s.depth := by
  by_contra short
  rw [apply_of_depth_lt (Nat.lt_of_not_le short)] at applied
  cases applied

theorem apply_eq_error {p : Primitive} {s : Stack} {fault : Fault}
    (failed : p.apply s = .error fault) :
    s.depth < p.arity ∧ fault = .underflow p.arity s.depth ∨
      ∃ dividend below, p = .divide ∧ s = ⟨0 :: dividend :: below⟩ ∧
        fault = divisionFault dividend := by
  rcases apply_cases p s with ⟨short, same⟩ | ⟨dividend, below, isDivide, values, same⟩ | ⟨_, same⟩
  · exact .inl ⟨short, Except.error.inj (failed.symm.trans same)⟩
  · exact .inr ⟨dividend, below, isDivide, values, Except.error.inj (failed.symm.trans same)⟩
  · rw [same] at failed
    cases failed

theorem eq_divisionFault_iff {dividend : Int} {fault : Fault} :
    fault = divisionFault dividend ↔
      Numeral.Writable dividend ∧ fault = .divisionByZero dividend ∨
        ¬Numeral.Writable dividend ∧ fault = .numberTooLong :=
  eq_ite_iff

theorem not_isUnderflow_divisionFault (dividend : Int) :
    ¬(divisionFault dividend).IsUnderflow := by
  intro underflow
  rcases eq_divisionFault_iff.1 (Eq.refl (divisionFault dividend)) with ⟨-, told⟩ | ⟨-, told⟩
  · rw [told] at underflow
    cases underflow
  · rw [told] at underflow
    cases underflow

theorem family?_of_apply_eq_error {p : Primitive} {s : Stack} {fault : Fault}
    (failed : p.apply s = .error fault) :
    fault.family? = some .stackUnderflow ∨ fault.family? = some .divisionByZero ∨
      fault = .numberTooLong := by
  rcases apply_eq_error failed with ⟨-, told⟩ | ⟨dividend, -, -, -, told⟩
  · exact .inl (told ▸ rfl)
  · rcases eq_divisionFault_iff.1 told with ⟨-, rfl⟩ | ⟨-, rfl⟩
    · exact .inr (.inl rfl)
    · exact .inr (.inr rfl)

end Primitive

namespace Code

variable {call : String → Stack → Effect} {body : List Code} {s : Stack} {fault : Fault}

/-- Flat code that fails does so at a primitive. -/
theorem exists_failing_primitive (flat : ∀ code ∈ body, code.Flat)
    (stopped : (execAll call body s).fault? = some fault) :
    ∃ front p rest after, body = front ++ .primitive p :: rest ∧
      execAll call front s = .done after ∧ p.apply after = .error fault := by
  have failed : (execAll call body s).fault? ≠ none := by simp [stopped]
  obtain ⟨front, code, rest, rfl, done, fails⟩ := exists_failing_part failed
  rw [execAll_append_of_done done] at stopped
  have through : execAll call front s = .done (execAll call front s).stack := by
    rw [Effect.done, ← done]
  cases flat code (by simp) with
  | literal bound => exact absurd (by rw [exec]; rfl) fails
  | primitive p =>
    refine ⟨front, p, rest, _, rfl, through, ?_⟩
    cases result : p.apply (execAll call front s).stack with
    | ok after => exact absurd (by rw [exec, result]; rfl) fails
    | error other =>
      rw [exec, result, Effect.ofExcept, Effect.stopped_andThen] at stopped
      rw [Option.some.inj stopped]

theorem execAll_of_error {front rest : List Code} {p : Primitive} {after : Stack}
    (before : execAll call front s = .done after) (failed : p.apply after = .error fault) :
    execAll call (front ++ .primitive p :: rest) s = .stopped fault after := by
  rw [execAll_append, before, Effect.done_andThen, execAll, exec, failed, Effect.ofExcept,
    Effect.stopped_andThen]

end Code

namespace Dictionary

/-- A body that cannot be resolved has a term that cannot. -/
theorem resolveAll_eq_error {d : Dictionary} {terms : List Term} {fault : Fault}
    (failed : d.resolveAll terms = .error fault) :
    ∃ term ∈ terms, d.resolve term = .error fault := by
  induction terms with
  | nil => cases failed
  | cons term terms ih =>
    rw [resolveAll] at failed
    cases first : d.resolve term with
    | error other =>
      rw [first] at failed
      cases failed
      exact ⟨term, List.mem_cons_self, first⟩
    | ok codes =>
      cases later : d.resolveAll terms with
      | ok others => rw [first, later] at failed; cases failed
      | error other =>
        rw [first, later] at failed
        obtain ⟨found, member, same⟩ := ih (later.trans failed)
        exact ⟨found, List.mem_cons_of_mem _ member, same⟩

namespace Sound

variable {d : Dictionary} {fault : Fault}

theorem resolve_eq_error (sound : d.Sound) {term : Term}
    (failed : d.resolve term = .error fault) :
    ∃ name ∈ term.names, d.lookup name = none ∧ fault = .unknownWord name := by
  cases term with
  | number value => cases failed
  | word name =>
    rw [Dictionary.resolve] at failed
    cases found : d.lookup name with
    | none =>
      rw [found] at failed
      exact ⟨name, List.mem_singleton_self name, found, (Except.error.inj failed).symm⟩
    | some code =>
      obtain ⟨body, opened, -⟩ := (sound.lookup found).unbox
      rw [found] at failed
      cases opened.symm.trans failed

theorem resolveAll_eq_error (sound : d.Sound) {terms : List Term}
    (failed : d.resolveAll terms = .error fault) :
    ∃ name ∈ terms.flatMap Term.names, d.lookup name = none ∧ fault = .unknownWord name := by
  obtain ⟨term, member, stopped⟩ := Dictionary.resolveAll_eq_error failed
  obtain ⟨name, named, unbound⟩ := sound.resolve_eq_error stopped
  exact ⟨name, List.mem_flatMap.2 ⟨term, member, named⟩, unbound⟩

end Sound

end Dictionary

namespace Machine

/-- Executing the name comes to execute the primitive on the stack `s`. -/
inductive Invokes (m : Machine) (name : String) (p : Primitive) (s : Stack) : Prop
  | intro {code : Code} {front rest : List Code} (found : m.dictionary.lookup name = some code)
    (opened : code.unbox = .ok (front ++ .primitive p :: rest))
    (before : Code.execAll m.dictionary.invoke front m.stack = .done s) : Invokes m name p s

theorem invokes_upper {m : Machine} {name : String} {p : Primitive} {s : Stack} :
    m.Invokes (Text.upper name) p s ↔ m.Invokes name p s := by
  constructor <;> rintro ⟨found, opened, before⟩
  · exact .intro (m.dictionary.lookup_upper name ▸ found) opened before
  · exact .intro ((m.dictionary.lookup_upper name).trans found) opened before

theorem Invokes.execute {m : Machine} (sound : m.dictionary.Sound) {name : String}
    {p : Primitive} {s : Stack} (invokes : m.Invokes name p s) {fault : Fault}
    (failed : p.apply s = .error fault) :
    m.execute name = .stopped fault { m with stack := s } := by
  obtain ⟨found, opened, before⟩ := invokes
  have called := sound.invoke found opened m.dictionary.invoke m.stack
  rw [Code.execAll_of_error before failed] at called
  rw [Machine.execute, affect, called]
  rfl

theorem execute_stopped {m : Machine} (sound : m.dictionary.Sound) {name : String} {fault : Fault}
    (stopped : (m.execute name).fault? = some fault) :
    m.dictionary.lookup name = none ∧ fault = .unknownWord name ∨
      ∃ p s, m.Invokes name p s ∧ p.apply s = .error fault := by
  cases found : m.dictionary.lookup name with
  | none =>
    rw [execute, affect, Dictionary.invoke_of_lookup_eq_none found] at stopped
    exact .inl ⟨rfl, (Option.some.inj stopped).symm⟩
  | some code =>
    obtain ⟨body, opened, flat⟩ := (sound.lookup found).unbox
    rw [execute, affect, sound.invoke found opened m.dictionary.invoke] at stopped
    obtain ⟨front, p, rest, s, rfl, before, failed⟩ := Code.exists_failing_primitive flat stopped
    exact .inr ⟨p, s, .intro found opened before, failed⟩

theorem define_stopped {m : Machine} (sound : m.dictionary.Sound) {source : Source}
    (readable : source.Readable) {fault : Fault}
    (stopped : (m.define source).fault? = some fault) :
    ∃ name ∈ source.names, m.dictionary.lookup name = none ∧ fault = .unknownWord name := by
  cases resolved : m.dictionary.resolveAll source.body with
  | error other =>
    rw [define, resolved] at stopped
    cases stopped
    obtain ⟨name, member, unbound⟩ := sound.resolveAll_eq_error resolved
    exact ⟨name, List.mem_cons_of_mem _ member, unbound⟩
  | ok body =>
    obtain ⟨texts, installed⟩ :=
      install_of_flat source.name (sound.resolveAll readable.body resolved) m
    simp only [define, resolved, installed] at stopped
    cases stopped

/-- A phrase that fails comes to a name without a word, or calls a primitive that fails. -/
theorem perform_stopped {m : Machine} (sound : m.dictionary.Sound) {phrase : Phrase}
    (readable : phrase.Readable) {fault : Fault}
    (stopped : (m.perform phrase).fault? = some fault) :
    (∃ name ∈ phrase.names, m.dictionary.lookup name = none ∧ fault = .unknownWord name) ∨
      ∃ name p s, phrase = .term (.word name) ∧ m.Invokes name p s ∧ p.apply s = .error fault := by
  cases readable with
  | definition readable => exact .inl (define_stopped sound readable stopped)
  | @term term _ =>
    cases term with
    | number value => cases stopped
    | word name =>
      rcases execute_stopped sound stopped with ⟨unbound, told⟩ | ⟨p, s, invokes, failed⟩
      · exact .inl ⟨name, List.mem_singleton_self name, unbound, told⟩
      · exact .inr ⟨name, p, s, rfl, invokes, failed⟩

end Machine

end Forth
