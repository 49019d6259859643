import Forth.Proofs.Session
import Mathlib.Data.List.Infix

/-! The settings of a session decide what is printed between its lines and nothing else. A session
that shows the stack prints what one does that hides it, with a listing put in front of each prompt,
and only the listings can end it where the other goes on. -/

namespace Forth.Console

/-- The items with each prompt exchanged for another one, behind a block of its own: the first block
is for the first prompt, and so on. -/
def insertBlocks (prompt : String) : List Item → List (List Item) → List Item
  | [], _ => []
  | .prompt _ :: items, block :: blocks =>
    block ++ .prompt prompt :: insertBlocks prompt items blocks
  | item :: items, blocks => item :: insertBlocks prompt items blocks

theorem insertBlocks_append (prompt : String) {front : List Item}
    (noPrompt : ∀ other, .prompt other ∉ front) (items : List Item) (blocks : List (List Item)) :
    insertBlocks prompt (front ++ items) blocks = front ++ insertBlocks prompt items blocks := by
  induction front with
  | nil => rfl
  | cons item front ih =>
    have later := ih fun other member => noPrompt other (List.mem_cons_of_mem _ member)
    cases item with
    | prompt text => exact absurd List.mem_cons_self (noPrompt text)
    | _ =>
      rw [List.cons_append, insertBlocks, later, List.cons_append]
      simp

/-- The listings of a session that works through the lines: one before each line, and the last one
before the end. -/
def listings (lines : List String) (m : Machine) : List (List Item) :=
  lines.inits.map fun front => listing (m.after (front.map .eval)).stack

theorem listings_cons (line : String) (rest : List String) (m : Machine) :
    listings (line :: rest) m = listing m.stack :: listings rest (m.eval line).machine := by
  rw [listings, List.inits_cons, List.map_cons, List.map_map]
  rfl

theorem script_eq_insertBlocks (prompt other : String) (lines : List String) (m : Machine) :
    script ⟨prompt, true⟩ lines m =
      insertBlocks prompt (script ⟨other, false⟩ lines m) (listings lines m) := by
  induction lines generalizing m with
  | nil => simp [script, display, listings, insertBlocks, Machine.after]
  | cons line rest ih =>
    have hidden : script ⟨other, false⟩ (line :: rest) m =
        .prompt other :: (replies line m ++ script ⟨other, false⟩ rest (m.eval line).machine) := by
      simp [script, display]
    rw [hidden, listings_cons, insertBlocks,
      insertBlocks_append prompt (prompt_not_mem_replies line m), ← ih]
    simp [script, display]

/-! ### Reports -/

/-- The reports among the items. -/
def reports (items : List Item) : List Report :=
  items.filterMap fun
    | .report told => some told
    | _ => none

theorem reports_append (front back : List Item) :
    reports (front ++ back) = reports front ++ reports back :=
  List.filterMap_append

theorem reports_display (settings : Settings) (m : Machine) :
    reports (display settings m) = [] := by
  rw [display]
  split
  case isTrue =>
    refine List.filterMap_eq_nil_iff.2 (List.forall_mem_cons.2 ⟨rfl, fun item member => ?_⟩)
    obtain ⟨row, -, rfl⟩ := List.mem_map.1 member
    rfl
  case isFalse => rfl

theorem reports_script (settings others : Settings) (lines : List String) (m : Machine) :
    reports (script settings lines m) = reports (script others lines m) := by
  induction lines generalizing m with
  | nil =>
    simp only [script, reports_append, reports_display]
    rfl
  | cons line rest ih =>
    simp only [script, reports_append, reports_display, ih (m.eval line).machine]
    rfl

/-! ### Sessions -/

/-- Where a session that shows the stack lasts to its end, one that hides it does too, whatever its
prompt: it leaves the same machine, gives the same reports, and prints the same but for the prompts
and for the listing in front of each, which shows the stack as it is then. -/
theorem session_eq_insertBlocks {prompt input : String}
    (done : (session ⟨prompt, true⟩ input).fault? = none) (other : String) :
    let shown := session ⟨prompt, true⟩ input
    let hidden := session ⟨other, false⟩ input
    hidden.fault? = none ∧ hidden.machine = shown.machine ∧
      reports hidden.written = reports shown.written ∧
      shown.written = insertBlocks prompt hidden.written (listings (linesOf input) .fresh) := by
  intro shown hidden
  have shownFollows := follows_session ⟨prompt, true⟩ input
  have hiddenFollows := follows_session ⟨other, false⟩ input
  have unbroken := shownFollows.fault?.1 done
  -- The lines must be answered in both sessions; the one that hides the stack has none to display.
  have hiddenDone : hidden.fault? = none :=
    hiddenFollows.fault?.2 ⟨unbroken.answered, fun _ _ isShown => by cases isShown⟩
  obtain ⟨front, -, machine, whole⟩ := exists_machine_session ⟨prompt, true⟩ input
  obtain ⟨hiddenFront, -, hiddenMachine, hiddenWhole⟩ :=
    exists_machine_session ⟨other, false⟩ input
  refine ⟨hiddenDone, ?_, ?_, ?_⟩
  · rw [machine, hiddenMachine, whole done, hiddenWhole hiddenDone]
  · rw [shownFollows.whole done, hiddenFollows.whole hiddenDone]
    exact reports_script _ _ _ _
  · rw [shownFollows.whole done, hiddenFollows.whole hiddenDone, insertBlocks]
    · exact congrArg _ (script_eq_insertBlocks prompt other _ _)
    · simp

/-- Reports between the displays, and a stack that becomes too deep to be shown as a whole. -/
theorem session_eq_insertBlocks_deep :
    let input := ": pair over over ;\n1 2 pair pair pair pair\nfoo pair\npair drop 0 /\n"
    let shown := session ⟨"> ", true⟩ input
    let hidden := session ⟨"", false⟩ input
    shown.fault? = none ∧ hidden.fault? = none ∧ hidden.machine = shown.machine ∧
      reports hidden.written = reports shown.written ∧
      shown.written = insertBlocks "> " hidden.written (listings (linesOf input) .fresh) := by
  intro input shown hidden
  have done : shown.fault? = none := by decide +kernel
  exact ⟨done, session_eq_insertBlocks done ""⟩

end Forth.Console
