import Forth.Evaluation
import Forth.Proofs.Reading

/-! Running phrase by phrase. A program is performed while it is read: what stands in front of some
lexemes runs as it does by itself, unless it breaks off inside a definition. -/

namespace Forth.Machine

@[simp] theorem run_nil (m : Machine) : m.run [] = .wrote [] m := by
  simp [run, Program.read, performAll, Run.wrote, Run.andThen]

theorem run_cons (lexeme : String) (rest : List String) (m : Machine) :
    m.run (lexeme :: rest) =
      match (Phrase.read lexeme rest).result with
      | .ok phrase => (m.perform phrase).andThen (run (Phrase.read lexeme rest).rest)
      | .error fault => .stopped fault m := by
  rw [run, Program.read_cons]
  cases (Phrase.read lexeme rest).result with
  | ok phrase =>
    simp only [Program.cons, performAll, Run.andThen_assoc]
    rfl
  | error fault => simp [performAll, Run.stopped]

theorem run_cons_of_ok {lexeme : String} {rest : List String} {phrase : Phrase}
    (h : (Phrase.read lexeme rest).result = .ok phrase) (m : Machine) :
    m.run (lexeme :: rest) =
      (m.perform phrase).andThen (run (Phrase.read lexeme rest).rest) := by
  rw [run_cons, h]

theorem run_cons_of_error {lexeme : String} {rest : List String} {fault : Fault}
    (h : (Phrase.read lexeme rest).result = .error fault) (m : Machine) :
    m.run (lexeme :: rest) = .stopped fault m := by
  rw [run_cons, h]

/-- Running lexemes is running the first of them and then the others, if the first ones do not end
inside a definition. -/
theorem run_append {front : List String} {m : Machine}
    (whole : ∀ fault, (m.run front).fault? = some fault → fault.isIncomplete = false)
    (back : List String) : m.run (front ++ back) = (m.run front).andThen (run back) := by
  induction front using Phrase.induction_on_lexemes generalizing m with
  | nil => rw [List.nil_append, run_nil, Run.wrote_nil_andThen]
  | cons lexeme rest ih =>
    cases result : (Phrase.read lexeme rest).result with
    | error fault =>
      rw [run_cons_of_error result] at whole ⊢
      have complete : (Phrase.read lexeme rest).Whole := by
        intro other failed
        exact whole other (by rw [← Except.error.inj (result.symm.trans failed)]; rfl)
      have read := (Phrase.read_settled complete).append back
      rw [Run.stopped_andThen, List.cons_append]
      exact run_cons_of_error (by rw [read, result]) m
    | ok phrase =>
      have read := (Phrase.read_settled (Reading.whole_of_ok result)).append back
      rw [result] at read
      rw [List.cons_append, run_cons_of_ok (by rw [read]), run_cons_of_ok result, read,
        Run.andThen_assoc]
      rw [run_cons_of_ok result] at whole
      refine Run.andThen_congr fun performed => ih ?_
      rwa [Run.andThen_of_done performed] at whole

theorem fault?_run_append {m : Machine} {front : List String}
    (done : (m.run front).fault? = none) (back : List String) :
    (m.run (front ++ back)).fault? = ((m.run front).machine.run back).fault? := by
  rw [run_append (by simp [done]), Run.andThen_of_done done]

end Forth.Machine
