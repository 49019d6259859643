import Forth.Effect

/-! The machine, a stack beside a dictionary, and runs on it. A run can be stopped by a fault: it
keeps what it changed and what it wrote until then. -/

namespace Forth

structure Machine where
  stack : Stack
  dictionary : Dictionary

/-- A machine with an empty stack that knows the primitives. -/
def Machine.fresh : Machine := ⟨.empty, .seeded⟩

/-- A machine after a run, what was written on the way, and the fault that stopped the run. -/
structure Run (α : Type) where
  machine : Machine
  written : List α
  fault? : Option Fault

namespace Run

variable {α : Type}

def wrote (written : List α) (m : Machine) : Run α := ⟨m, written, none⟩

/-- A run stopped by a fault before it wrote anything. -/
def stopped (fault : Fault) (m : Machine) : Run α := ⟨m, [], some fault⟩

/-- Goes on from where a run went through, writing behind it. -/
def andThen (run : Run α) (next : Machine → Run α) : Run α :=
  match run.fault? with
  | none => { next run.machine with written := run.written ++ (next run.machine).written }
  | some _ => run

@[simp] theorem wrote_nil_andThen (m : Machine) (next : Machine → Run α) :
    (wrote [] m).andThen next = next m := rfl

@[simp] theorem stopped_andThen (fault : Fault) (m : Machine) (next : Machine → Run α) :
    (stopped fault m).andThen next = stopped fault m := rfl

theorem andThen_of_done {run : Run α} (h : run.fault? = none) (next : Machine → Run α) :
    run.andThen next =
      { next run.machine with written := run.written ++ (next run.machine).written } := by
  rw [andThen, h]

theorem andThen_of_stopped {run : Run α} {fault : Fault} (h : run.fault? = some fault)
    (next : Machine → Run α) : run.andThen next = run := by
  rw [andThen, h]

/-- What comes after a run matters only where it goes through. -/
theorem andThen_congr {run : Run α} {next other : Machine → Run α}
    (h : run.fault? = none → next run.machine = other run.machine) :
    run.andThen next = run.andThen other := by
  cases ended : run.fault? with
  | none => rw [andThen_of_done ended, andThen_of_done ended, h ended]
  | some fault => rw [andThen_of_stopped ended, andThen_of_stopped ended]

@[simp] theorem fault?_andThen_eq_none (run : Run α) (next : Machine → Run α) :
    (run.andThen next).fault? = none ↔ run.fault? = none ∧ (next run.machine).fault? = none := by
  obtain ⟨m, written, _ | fault⟩ := run <;> simp [andThen]

@[simp] theorem andThen_wrote_nil (run : Run α) : run.andThen (wrote []) = run := by
  obtain ⟨m, written, _ | fault⟩ := run <;> simp [andThen, wrote]

theorem machine_andThen_wrote (run : Run α) (written : List α) :
    (run.andThen (wrote written)).machine = run.machine := by
  obtain ⟨m, _, _ | fault⟩ := run <;> rfl

theorem fault?_andThen_wrote (run : Run α) (written : List α) :
    (run.andThen (wrote written)).fault? = run.fault? := by
  obtain ⟨m, _, _ | fault⟩ := run <;> rfl

theorem andThen_assoc (run : Run α) (next last : Machine → Run α) :
    (run.andThen next).andThen last = run.andThen fun m => (next m).andThen last := by
  obtain ⟨m, written, _ | fault⟩ := run
  · simp only [andThen]
    split <;> simp_all
  · rfl

end Run

end Forth
