import Forth.Proofs.Lines

/-! Sessions are causal: what a session prints depends on the lines that it has read and on none
that come later. With more lines behind its input a session goes on in place of taking its leave,
and one that a fault ends has ended before it could read them. -/

namespace Forth.Console

/-- A session on some lines up to the last of them: it neither asks for another nor takes its
leave. -/
def exchanges (settings : Settings) : List String → Machine → Run Item
  | [], m => .wrote [] m
  | line :: rest, m => ((ask settings m).andThen (answer line)).andThen (exchanges settings rest)

theorem converse_append (settings : Settings) (front back : List String) (m : Machine) :
    converse settings (front ++ back) m =
      (exchanges settings front m).andThen (converse settings back) := by
  induction front generalizing m with
  | nil => rfl
  | cons line rest ih =>
    rw [List.cons_append, converse, exchanges, funext ih]
    exact (Run.andThen_assoc _ _ _).symm

/-- Whatever lines there are, a session begins by asking for one. -/
theorem exists_converse_eq (settings : Settings) (lines : List String) :
    ∃ next, converse settings lines = fun m => (ask settings m).andThen next := by
  cases lines with
  | nil => exact ⟨.wrote [.farewell], rfl⟩
  | cons line rest =>
    refine ⟨fun m => (answer line m).andThen (converse settings rest), funext fun m => ?_⟩
    rw [converse, Run.andThen_assoc]

/-- A session up to where it asks for a line behind the given ones. -/
def opening (settings : Settings) (lines : List String) : Run Item :=
  ((greet .fresh).andThen (exchanges settings lines)).andThen (ask settings)

theorem session_eq_opening (settings : Settings) (input : String) :
    session settings input =
      (opening settings (linesOf input)).andThen (.wrote [.farewell]) := by
  have conversed := converse_append settings (linesOf input) []
  simp only [List.append_nil] at conversed
  rw [opening, Run.andThen_assoc, Run.andThen_assoc]
  exact congrArg _ (funext conversed)

theorem exists_session_eq_opening (settings : Settings) (front : List String) (back : String) :
    ∃ next, session settings (ended front ++ back) =
      (opening settings (linesOf (ended front))).andThen next := by
  obtain ⟨next, asks⟩ := exists_converse_eq settings (linesOf back)
  refine ⟨next, ?_⟩
  have conversed := converse_append settings (linesOf (ended front)) (linesOf back)
  rw [← linesOf_ended_append, asks] at conversed
  rw [opening, Run.andThen_assoc, Run.andThen_assoc]
  exact congrArg _ (funext conversed)

/-- Taking its leave cannot stop a session: one that is stopped is stopped before. -/
theorem fault?_session (settings : Settings) (input : String) :
    (session settings input).fault? = (opening settings (linesOf input)).fault? := by
  rw [session_eq_opening, Run.fault?_andThen_wrote]

theorem linesOf_ended_append_of_ne {last : String} (front : List String) (nonempty : last ≠ "")
    (noFeed : '\n' ∉ last.toList) :
    linesOf (ended front ++ last) = linesOf (ended (front ++ [last])) := by
  have fed : linesOf (ended [last]) = [last] :=
    linesOf_ended (List.forall_mem_singleton.2 noFeed)
  rw [ended_append, linesOf_ended_append, linesOf_ended_append, fed,
    linesOf_of_not_mem nonempty noFeed]

theorem output_andThen {run : Run Item} (done : run.fault? = none) (next : Machine → Run Item) :
    output (run.andThen next) = output run ++ output (next run.machine) := by
  rw [Run.andThen_of_done done, output, List.map_append, String.join_append]
  rfl

/-- With more lines behind its input, a session that lasts prints what it would print without them,
less the farewell, and goes on from there; and one that a fault ends does the very same. A line feed
behind a last line that is not empty makes no difference. -/
theorem session_append (settings : Settings) (front back : List String) :
    let shorter := session settings (ended front)
    let longer := session settings (ended (front ++ back))
    (shorter.fault? = none → ∃ printed later, output shorter = printed ++ Item.farewell.text ∧
      output longer = printed ++ later) ∧
    (∀ fault, shorter.fault? = some fault →
      longer.fault? = some fault ∧ output longer = output shorter) ∧
    ∀ last, last ≠ "" → '\n' ∉ last.toList →
      session settings (ended front ++ last) = session settings (ended (front ++ [last])) := by
  intro shorter longer
  obtain ⟨next, goesOn⟩ := exists_session_eq_opening settings front (ended back)
  rw [← ended_append] at goesOn
  have ends := session_eq_opening settings (ended front)
  have faults := fault?_session settings (ended front)
  refine ⟨fun done => ?_, fun fault stopped => ?_, fun last nonempty noFeed => ?_⟩
  · have opened := faults.symm.trans done
    exact ⟨_, _, (congrArg output ends).trans (output_andThen opened _),
      (congrArg output goesOn).trans (output_andThen opened _)⟩
  · -- A stopped opening is the whole of both sessions.
    have opened := faults.symm.trans stopped
    rw [Run.andThen_of_stopped opened] at ends goesOn
    have same : longer = shorter := goesOn.trans ends.symm
    rw [same]
    exact ⟨stopped, rfl⟩
  · have same := linesOf_ended_append_of_ne front nonempty noFeed
    exact congrArg (fun lines => (greet .fresh).andThen (converse settings lines)) same

/-- A session that cannot show what its second line leaves never comes to the line that drops it. -/
theorem session_append_stopped :
    let front := [": eighth dup * dup * dup * ;", "10000000000 eighth eighth eighth 5"]
    let shorter := session {} (ended front)
    let longer := session {} (ended (front ++ ["drop drop", "foo"]))
    shorter.fault? = some .numberTooLong ∧ longer.fault? = some .numberTooLong ∧
      output longer = output shorter := by
  intro front shorter longer
  have stopped : shorter.fault? = some .numberTooLong := by decide +kernel
  obtain ⟨-, stops, -⟩ := session_append {} front ["drop drop", "foo"]
  exact ⟨stopped, stops _ stopped⟩

end Forth.Console
