import Forth.Proofs.Running
import Forth.Proofs.Text.Lexemes

/-! How a text is cut into evaluations makes no difference. A text may be cut at blanks wherever no
definition is open: the pieces, evaluated one after the other, do what the whole does. -/

namespace Forth

def Run.recorded (run : Run Notice) : Run Notice :=
  match run.fault?.bind Fault.report? with
  | some report => { run with written := run.written ++ [.stopped report] }
  | none => run

namespace Run

theorem fault?_recorded (run : Run Notice) : run.recorded.fault? = run.fault? := by
  unfold recorded
  split <;> rfl

theorem machine_recorded (run : Run Notice) : run.recorded.machine = run.machine := by
  unfold recorded
  split <;> rfl

theorem written_recorded (run : Run Notice) : run.recorded.written =
    run.written ++ (run.fault?.bind Fault.report?).toList.map .stopped := by
  unfold recorded
  split
  case h_1 report told => rw [told]; rfl
  case h_2 told => rw [told]; exact (List.append_nil _).symm

theorem recorded_of_done {run : Run Notice} (h : run.fault? = none) : run.recorded = run := by
  rw [recorded, h, Option.bind_none]

theorem recorded_andThen {run : Run Notice} (h : run.fault? = none)
    (next : Machine → Run Notice) :
    (run.andThen next).recorded = run.andThen fun m => (next m).recorded := by
  rw [andThen_of_done h, andThen_of_done h, recorded, recorded]
  cases (next run.machine).fault?.bind Fault.report? with
  | none => rfl
  | some report => simp only [List.append_assoc]

end Run

namespace Machine

theorem eval_eq_recorded (text : String) (m : Machine) :
    m.eval text = (m.run (Text.lexemes text)).recorded := rfl

theorem machine_eval (text : String) (m : Machine) :
    (m.eval text).machine = (m.run (Text.lexemes text)).machine :=
  Run.machine_recorded _

theorem fault?_eval (text : String) (m : Machine) :
    (m.eval text).fault? = (m.run (Text.lexemes text)).fault? :=
  Run.fault?_recorded _

/-- With blanks between them, two texts are evaluated like the first and, if that goes through, the
second. Only a first text that breaks off inside a definition reads on into the second. -/
theorem eval_append {gap : String} (nonempty : gap ≠ "")
    (blank : ∀ c ∈ gap.toList, Text.isBlank c = true) (front back : String) (m : Machine) :
    ((m.eval front).fault? = none →
      m.eval (front ++ gap ++ back) = (m.eval front).andThen (eval back)) ∧
    ∀ fault, (m.eval front).fault? = some fault → fault.isIncomplete = false →
      m.eval (front ++ gap ++ back) = m.eval front := by
  rw [fault?_eval, eval_eq_recorded, eval_eq_recorded, Text.lexemes_append nonempty blank]
  constructor
  · intro done
    have complete : ∀ fault, (m.run (Text.lexemes front)).fault? = some fault →
        fault.isIncomplete = false := by
      intro fault stopped
      rw [done] at stopped
      contradiction
    rw [run_append complete, Run.recorded_andThen done, Run.recorded_of_done done]
    rfl
  · intro fault stopped complete
    have first : ∀ other, (m.run (Text.lexemes front)).fault? = some other →
        other.isIncomplete = false := by
      intro other same
      rwa [← Option.some.inj (stopped.symm.trans same)]
    rw [run_append first, Run.andThen_of_stopped stopped]

/-- A cut behind a definition, and one behind a fault. -/
theorem eval_append_lines :
    fresh.eval (": double dup + ;" ++ "\r\n" ++ "3 double /") =
        (fresh.eval ": double dup + ;").andThen (eval "3 double /") ∧
      fresh.eval ("1 drop drop" ++ "\r\n" ++ "; : 2") = fresh.eval "1 drop drop" := by
  have blank : ∀ c ∈ "\r\n".toList, Text.isBlank c = true :=
    List.all_eq_true.1 (by decide +kernel)
  have done : (fresh.eval ": double dup + ;").fault? = none := by decide +kernel
  have stopped : (fresh.eval "1 drop drop").fault? = some (.underflow 1 0) := by decide +kernel
  exact ⟨(eval_append (by decide) blank _ _ fresh).1 done,
    (eval_append (by decide) blank _ _ fresh).2 _ stopped rfl⟩

end Machine

end Forth
