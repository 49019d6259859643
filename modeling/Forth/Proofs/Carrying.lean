import Forth.Proofs.Soundness

/-! Changes that a machine carries along. Some changes of a machine, such as values put underneath
its stack, make no difference to a run but that they are there before and after it. If every phrase
of a program carries a change along, then so does the program. -/

namespace Forth

namespace Run

variable {α : Type}

/-- The run with the machine after it changed. -/
def map (change : Machine → Machine) (run : Run α) : Run α :=
  { run with machine := change run.machine }

@[simp] theorem machine_map (change : Machine → Machine) (run : Run α) :
    (run.map change).machine = change run.machine := rfl

@[simp] theorem fault?_map (change : Machine → Machine) (run : Run α) :
    (run.map change).fault? = run.fault? := rfl

theorem map_andThen {change : Machine → Machine} {run : Run α} {next later : Machine → Run α}
    (carries : run.fault? = none → later (change run.machine) = (next run.machine).map change) :
    (run.map change).andThen later = (run.andThen next).map change := by
  cases ended : run.fault? with
  | none =>
    rw [andThen_of_done ended, andThen_of_done ((fault?_map change run).trans ended), machine_map,
      carries ended]
    rfl
  | some fault =>
    rw [andThen_of_stopped ended, andThen_of_stopped ((fault?_map change run).trans ended)]

end Run

namespace Machine

/-- On a sound dictionary the act carries the change along: what it does to a machine is what it
does to the machine without the change. This need not be so where it stops with an exempt fault. -/
def Carries (change : Machine → Machine) (exempt : Fault → Prop) (act : Machine → Run Notice) :
    Prop :=
  ∀ m : Machine, m.dictionary.Sound → (∀ fault, (act m).fault? = some fault → ¬exempt fault) →
    act (change m) = (act m).map change

variable {change : Machine → Machine} {exempt : Fault → Prop}

theorem carries_performAll {phrases : List Phrase}
    (readable : ∀ phrase ∈ phrases, phrase.Readable)
    (each : ∀ phrase ∈ phrases, Carries change exempt (perform phrase)) :
    Carries change exempt (performAll phrases) := by
  induction phrases with
  | nil => exact fun m _ _ => rfl
  | cons phrase phrases ih =>
    intro m sound notExempt
    obtain ⟨readableFirst, readableLater⟩ := List.forall_mem_cons.1 readable
    obtain ⟨first, later⟩ := List.forall_mem_cons.1 each
    rw [performAll] at notExempt ⊢
    rw [performAll, first m sound]
    · refine Run.map_andThen fun done => ?_
      rw [Run.andThen_of_done done] at notExempt
      exact ih readableLater later _ ((History.perform readableFirst m).sound sound) notExempt
    · intro fault stopped
      rw [Run.andThen_of_stopped stopped] at notExempt
      exact notExempt fault stopped

/-- A program carries along what its phrases do. -/
theorem carries_run {lexemes : List String}
    (each : ∀ phrase ∈ (Program.read lexemes).phrases, Carries change exempt (perform phrase)) :
    Carries change exempt (run lexemes) := by
  intro m sound notExempt
  have all := carries_performAll (Program.readable_read lexemes) each m sound
  rw [run] at notExempt ⊢
  rw [run, all]
  · exact Run.map_andThen fun _ => rfl
  · intro fault stopped
    rw [Run.andThen_of_stopped stopped] at notExempt
    exact notExempt fault stopped

end Machine

end Forth
