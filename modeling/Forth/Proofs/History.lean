import Forth.Proofs.Running

/-! What can happen to a machine. Whatever is asked of it, its stack is replaced, words are defined
and reports are recorded, one after the other: a `History` is made of these changes only, so what
they all preserve is preserved by every use of the machine, also by those that fail midway. -/

namespace Forth

/-- What can be asked of a machine: to evaluate, to run, to execute, to compile, and to work on its
stack. -/
inductive Operation where
  | eval (text : String)
  | run (lexemes : List String)
  | execute (name : String)
  | compile (lexemes : List String)
  | push (value : Int)
  | pop (n : Int)
  | peek (i : Int)
  | require (n : Int)
  deriving DecidableEq, Repr

namespace Machine

def operate : Operation → Machine → Run Notice
  | .eval text, m => m.eval text
  | .run lexemes, m => m.run lexemes
  | .execute name, m => m.execute name
  | .compile lexemes, m => (m.compile lexemes).run
  | .push value, m => m.affect fun s => .done (s.push value)
  | .pop n, m => m.affect fun s => .ofExcept s ((s.pop n).map (·.2))
  | .peek i, m => m.affect fun s => .ofExcept s ((s.peek i).map fun _ => s)
  | .require n, m => m.affect fun s => .ofExcept s ((s.require n).map fun _ => s)

/-- The machine after some operations, each performed however the ones before it ended. -/
def after : List Operation → Machine → Machine
  | [], m => m
  | op :: ops, m => after ops (m.operate op).machine

def journal : List Operation → Machine → List Notice
  | [], _ => []
  | op :: ops, m => (m.operate op).written ++ journal ops (m.operate op).machine

def Reached (m : Machine) : Prop := ∃ ops, m = fresh.after ops

end Machine

/-- From `m`, writing a journal, to another machine, change by change. -/
inductive History (m : Machine) : List Notice → Machine → Prop
  | refl : History m [] m
  | restack {written : List Notice} {now : Machine} (s : Stack) (h : History m written now) :
    History m written { now with stack := s }
  | define {written : List Notice} {now : Machine} {source : Source} (readable : source.Readable)
    (h : History m written now) :
    History m (written ++ (now.define source).written) (now.define source).machine
  | report {written : List Notice} {now : Machine} (report : Report) (h : History m written now) :
    History m (written ++ [.stopped report]) now

namespace History

theorem trans {m between now : Machine} {first later : List Notice}
    (h : History m first between) (h' : History between later now) :
    History m (first ++ later) now := by
  induction h' with
  | refl => rwa [List.append_nil]
  | restack s _ ih => exact ih.restack s
  | define readable _ ih =>
    rw [← List.append_assoc]
    exact ih.define readable
  | report report _ ih =>
    rw [← List.append_assoc]
    exact ih.report report

theorem andThen {m : Machine} {run : Run Notice} {next : Machine → Run Notice}
    (first : History m run.written run.machine)
    (later : History run.machine (next run.machine).written (next run.machine).machine) :
    History m (run.andThen next).written (run.andThen next).machine := by
  cases ended : run.fault? with
  | none =>
    rw [Run.andThen_of_done ended]
    exact first.trans later
  | some fault => rwa [Run.andThen_of_stopped ended]

theorem affect (m : Machine) (effect : Stack → Effect) :
    History m (m.affect effect).written (m.affect effect).machine :=
  .restack _ .refl

theorem perform {phrase : Phrase} (readable : phrase.Readable) (m : Machine) :
    History m (m.perform phrase).written (m.perform phrase).machine := by
  cases readable with
  | @term term _ => cases term <;> exact affect _ _
  | definition h => exact .define h .refl

theorem run (lexemes : List String) (m : Machine) :
    History m (m.run lexemes).written (m.run lexemes).machine := by
  induction lexemes using Phrase.induction_on_lexemes generalizing m with
  | nil =>
    rw [Machine.run_nil]
    exact .refl
  | cons lexeme rest ih =>
    cases result : (Phrase.read lexeme rest).result with
    | ok phrase =>
      rw [Machine.run_cons_of_ok result]
      exact (perform (Phrase.readable_read result) m).andThen (ih _)
    | error fault =>
      rw [Machine.run_cons_of_error result]
      exact .refl

theorem eval (text : String) (m : Machine) :
    History m (m.eval text).written (m.eval text).machine := by
  simp only [Machine.eval]
  split
  · exact (run (Text.lexemes text) m).report _
  · exact run (Text.lexemes text) m

theorem compile (lexemes : List String) (m : Machine) :
    History m (m.compile lexemes).run.written (m.compile lexemes).run.machine := by
  cases result : (Source.read lexemes).result with
  | ok source =>
    simp only [Machine.compile, result]
    exact .define (Source.readable_read result) .refl
  | error fault =>
    simp only [Machine.compile, result]
    exact .refl

theorem operate (op : Operation) (m : Machine) :
    History m (m.operate op).written (m.operate op).machine := by
  cases op with
  | eval text => exact eval text m
  | run lexemes => exact run lexemes m
  | compile lexemes => exact compile lexemes m
  | execute name => exact affect m _
  | push value => exact affect m _
  | pop n => exact affect m _
  | peek i => exact affect m _
  | require n => exact affect m _

theorem after (ops : List Operation) (m : Machine) :
    History m (m.journal ops) (m.after ops) := by
  induction ops generalizing m with
  | nil => exact .refl
  | cons op ops ih => exact (operate op m).trans (ih _)

end History

end Forth
