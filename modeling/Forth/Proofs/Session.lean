import Forth.Proofs.Lines
import Forth.Proofs.Outcome

/-! What a session does with its input. It evaluates one line after the other on the machine that
the line before left, whether or not that one failed, and prints a fixed script: the display of the
stack if it is asked for, a prompt, the report of the line if there is one. Only a number with too
many digits, one to be read, reported or shown, ends a session early, and then it has printed the
front of the script. -/

namespace Forth

namespace Console

/-! ### The script of a session -/

def listing (s : Stack) : List Item :=
  .heading :: (rows s).map .row

def display (settings : Settings) (m : Machine) : List Item :=
  if settings.showStack then listing m.stack else []

/-- The report of the evaluation of a line, if it gives one. -/
def replies (line : String) (m : Machine) : List Item :=
  ((m.eval line).fault?.bind Fault.report?).toList.map .report

/-- What a session on some lines prints if it lasts to its end. -/
def script (settings : Settings) : List String → Machine → List Item
  | [], m => display settings m ++ [.prompt settings.prompt] ++ [.farewell]
  | line :: rest, m =>
    display settings m ++ [.prompt settings.prompt] ++ replies line m ++
      script settings rest (m.eval line).machine

theorem prompt_not_mem_display (settings : Settings) (m : Machine) (prompt : String) :
    .prompt prompt ∉ display settings m := by
  rw [display]
  split <;> simp [listing]

theorem prompt_not_mem_replies (line : String) (m : Machine) (prompt : String) :
    .prompt prompt ∉ replies line m := by
  simp [replies]

theorem exists_script_eq (settings : Settings) (lines : List String) (m : Machine) :
    ∃ front, script settings lines m = front ++ [.farewell] ∧
      front.count (.prompt settings.prompt) = lines.length + 1 := by
  have noneShown (m : Machine) : (display settings m).count (.prompt settings.prompt) = 0 :=
    List.count_eq_zero_of_not_mem (prompt_not_mem_display settings m _)
  induction lines generalizing m with
  | nil =>
    refine ⟨_, rfl, ?_⟩
    rw [List.count_append, noneShown, List.count_singleton_self, List.length_nil]
  | cons line rest ih =>
    obtain ⟨front, later, prompts⟩ := ih (m.eval line).machine
    have noneReplied : (replies line m).count (.prompt settings.prompt) = 0 :=
      List.count_eq_zero_of_not_mem (prompt_not_mem_replies line m _)
    refine ⟨_, by rw [script, later, ← List.append_assoc], ?_⟩
    simp only [List.count_append, noneShown, noneReplied, List.count_singleton_self, prompts,
      List.length_cons]
    omega

/-! ### Runs that follow a script -/

/-- The run writes the items, and all of them if it is not stopped; it is stopped unless `p`. -/
structure Follows (run : Run Item) (items : List Item) (p : Prop) : Prop where
  begins : run.written <+: items
  whole : run.fault? = none → run.written = items
  fault? : run.fault? = none ↔ p

namespace Follows

variable {run : Run Item} {items : List Item} {p q : Prop}

theorem wrote (items : List Item) (m : Machine) : Follows (.wrote items m) items True :=
  ⟨List.prefix_rfl, fun _ => rfl, iff_of_true rfl trivial⟩

theorem stopped (fault : Fault) (m : Machine) (items : List Item) (impossible : ¬p) :
    Follows (.stopped fault m) items p :=
  have failed : (Run.stopped (α := Item) fault m).fault? ≠ none := Option.some_ne_none fault
  ⟨List.nil_prefix, fun done => absurd done failed, iff_of_false failed impossible⟩

theorem congr (follows : Follows run items p) (same : p ↔ q) : Follows run items q :=
  ⟨follows.begins, follows.whole, follows.fault?.trans same⟩

theorem andThen {next : Machine → Run Item} {more : List Item} (first : Follows run items p)
    (later : run.fault? = none → Follows (next run.machine) more q) :
    Follows (run.andThen next) (items ++ more) (p ∧ q) := by
  cases ended : run.fault? with
  | none =>
    have behind := later ended
    rw [Run.andThen_of_done ended, first.whole ended]
    refine ⟨(List.prefix_append_right_inj items).2 behind.begins,
      fun done => congrArg (items ++ ·) (behind.whole done), behind.fault?.trans ?_⟩
    exact (and_iff_right (first.fault?.1 ended)).symm
  | some fault =>
    have failed : run.fault? ≠ none := by simp [ended]
    rw [Run.andThen_of_stopped ended]
    exact ⟨first.begins.trans (List.prefix_append _ _), fun done => absurd done failed,
      iff_of_false failed fun both => failed (first.fault?.2 both.1)⟩

end Follows

/-! ### Displays -/

/-- The listing of the stack shows the value: as one of the topmost, or as the bottom one of a stack
that is too deep to be shown as a whole. -/
def Shows (s : Stack) (value : Int) : Prop :=
  value ∈ s.values.take shownDepth ∨ shownDepth < s.depth ∧ s.values.getLast? = some value

theorem isWritable_value_iff (label : Nat) (shown : Int) :
    (Row.value label shown).isWritable = true ↔ Numeral.Writable shown := by
  rw [Row.isWritable, decide_eq_true_iff]

theorem forall_isWritable_topmost (values : List Int) (label : Nat) :
    (∀ row ∈ (values.zipIdx label).reverse.map fun (shown, label) => Row.value label shown,
        row.isWritable = true) ↔
      ∀ value ∈ values, Numeral.Writable value := by
  have firsts : (values.zipIdx label).map Prod.fst = values := List.zipIdx_map_fst label values
  constructor
  · intro writable value member
    rw [← firsts] at member
    obtain ⟨⟨shown, place⟩, within, rfl⟩ := List.mem_map.1 member
    exact (isWritable_value_iff place shown).1
      (writable _ (List.mem_map_of_mem (List.mem_reverse.2 within)))
  · intro writable row member
    obtain ⟨⟨shown, place⟩, within, rfl⟩ := List.mem_map.1 member
    refine (isWritable_value_iff place shown).2 (writable shown ?_)
    rw [← firsts]
    exact List.mem_map_of_mem (List.mem_reverse.1 within)

theorem forall_isWritable_rows (s : Stack) :
    (∀ row ∈ rows s, row.isWritable = true) ↔ ∀ value, Shows s value → Numeral.Writable value := by
  have topmost := forall_isWritable_topmost (s.values.take shownDepth) 1
  rw [rows]
  by_cases deep : shownDepth < s.depth
  · cases found : s.values.getLast? with
    | none =>
      rw [Stack.depth, List.getLast?_eq_none_iff.1 found] at deep
      cases deep
    | some bottom =>
      simp only [if_pos deep, List.forall_mem_cons, topmost, isWritable_value_iff]
      constructor
      · rintro ⟨writable, -, others⟩ value (member | ⟨-, last⟩)
        · exact others value member
        · rwa [Option.some.inj (found.symm.trans last)] at writable
      · intro writable
        exact ⟨writable bottom (.inr ⟨deep, found⟩), rfl,
          fun value member => writable value (.inl member)⟩
  · have shallow : ∀ value, Shows s value ↔ value ∈ s.values.take shownDepth := fun value =>
      or_iff_left fun both => deep both.1
    simp only [if_neg deep, shallow]
    cases s.values.getLast? <;> exact topmost

/-- All that is to be shown of the stack can be written. -/
def Displayable (settings : Settings) (m : Machine) : Prop :=
  settings.showStack = true → ∀ value, Shows m.stack value → Numeral.Writable value

theorem follows_printRows (rows : List Row) (m : Machine) :
    Follows (printRows rows m) (rows.map .row) (∀ row ∈ rows, row.isWritable = true) ∧
      (printRows rows m).machine = m := by
  induction rows with
  | nil => exact ⟨(Follows.wrote [] m).congr (by simp), rfl⟩
  | cons row rest ih =>
    rw [printRows]
    split
    case isTrue writable =>
      have first := Follows.wrote [.row row] m
      exact ⟨(first.andThen fun _ => ih.1).congr (by simp [writable]), ih.2⟩
    case isFalse unwritable => exact ⟨.stopped _ m _ (by simp [unwritable]), rfl⟩

theorem follows_printStack (m : Machine) :
    Follows (printStack m) (listing m.stack) (∀ value, Shows m.stack value →
      Numeral.Writable value) ∧ (printStack m).machine = m := by
  obtain ⟨follows, machine⟩ := follows_printRows (rows m.stack) m
  have printed := (Follows.wrote [.heading] m).andThen fun _ => follows
  exact ⟨printed.congr ((and_iff_right trivial).trans (forall_isWritable_rows m.stack)), machine⟩

theorem follows_ask (settings : Settings) (m : Machine) :
    Follows (ask settings m) (display settings m ++ [.prompt settings.prompt])
      (Displayable settings m) := by
  obtain ⟨follows, -⟩ := follows_printStack m
  rw [ask, display, Displayable]
  split
  case isTrue shown =>
    have asked := follows.andThen fun _ => Follows.wrote [.prompt settings.prompt] _
    exact asked.congr ⟨fun both _ => both.1, fun writable => ⟨writable shown, trivial⟩⟩
  case isFalse hidden =>
    have asked := (Follows.wrote [] m).andThen fun _ => Follows.wrote [.prompt settings.prompt] _
    exact asked.congr (iff_of_true ⟨trivial, trivial⟩ fun shown => absurd shown hidden)

theorem machine_ask (settings : Settings) (m : Machine) : (ask settings m).machine = m := by
  obtain ⟨-, machine⟩ := follows_printStack m
  rw [ask, Run.machine_andThen_wrote]
  split
  case isTrue => exact machine
  case isFalse => rfl

/-! ### Lines -/

/-- The evaluation of the line comes upon no number with too many digits. -/
def Answerable (line : String) (m : Machine) : Prop :=
  ∀ fault, (m.eval line).fault? = some fault → fault.isTooLong = false

theorem machine_answer (line : String) (m : Machine) :
    (answer line m).machine = (m.eval line).machine := by
  simp only [answer]
  split
  · rfl
  · split <;> rfl

theorem follows_answer (line : String) {m : Machine} (sound : m.dictionary.Sound) :
    Follows (answer line m) (replies line m) (Answerable line m) := by
  rw [answer, replies, Answerable]
  cases stopped : (m.eval line).fault? with
  | none => exact (Follows.wrote [] _).congr (by simp)
  | some fault =>
    have unreported := Machine.report?_eq_none_iff sound stopped
    cases told : fault.report? with
    | none =>
      simp only [told]
      refine .stopped fault _ _ fun answerable => ?_
      exact Bool.false_ne_true ((answerable fault rfl).symm.trans (unreported.1 told))
    | some report =>
      have short : fault.isTooLong = false := by simpa [told] using unreported
      simp only [Option.bind_some, told]
      exact (Follows.wrote [.report report] _).congr (by simp [short])

/-- Nothing ends a session on the lines before its end: no line comes upon a number with too many
digits, and neither does any display before, between and after the lines. -/
structure Unbroken (settings : Settings) (lines : List String) (m : Machine) : Prop where
  answered : ∀ front line, front ++ [line] <+: lines → Answerable line (m.after (front.map .eval))
  displayed : ∀ front, front <+: lines → Displayable settings (m.after (front.map .eval))

theorem unbroken_nil_iff (settings : Settings) (m : Machine) :
    Unbroken settings [] m ↔ Displayable settings m := by
  constructor
  · exact fun unbroken => unbroken.displayed [] List.prefix_rfl
  · intro displayable
    refine ⟨fun front line begins => ?_, fun front begins => ?_⟩
    · simp at begins
    · rwa [List.prefix_nil.1 begins]

theorem unbroken_cons_iff (settings : Settings) (line : String) (rest : List String) (m : Machine) :
    Unbroken settings (line :: rest) m ↔
      (Displayable settings m ∧ Answerable line m) ∧
        Unbroken settings rest (m.eval line).machine := by
  constructor
  · intro unbroken
    refine ⟨⟨unbroken.displayed [] List.nil_prefix, unbroken.answered [] line ?_⟩, ?_, ?_⟩
    · exact List.prefix_append [line] rest
    · intro front other begins
      exact unbroken.answered (line :: front) other ((List.prefix_cons_inj line).2 begins)
    · intro front begins
      exact unbroken.displayed (line :: front) ((List.prefix_cons_inj line).2 begins)
  · rintro ⟨⟨displayable, answerable⟩, unbroken⟩
    constructor
    · intro front other begins
      cases front with
      | nil =>
        obtain ⟨rfl, -⟩ := List.cons_prefix_cons.1 begins
        exact answerable
      | cons first front =>
        obtain ⟨rfl, within⟩ := List.cons_prefix_cons.1 begins
        exact unbroken.answered front other within
    · intro front begins
      cases front with
      | nil => exact displayable
      | cons first front =>
        obtain ⟨rfl, within⟩ := List.cons_prefix_cons.1 begins
        exact unbroken.displayed front within

theorem machine_exchange_cases (settings : Settings) (line : String) (m : Machine) :
    let exchanged := (ask settings m).andThen (answer line)
    exchanged.fault? ≠ none ∧ exchanged.machine = m ∨
      exchanged.machine = (m.eval line).machine := by
  intro exchanged
  cases asked : (ask settings m).fault? with
  | none =>
    have answered := congrArg Run.machine (Run.andThen_of_done asked (answer line))
    exact .inr (answered.trans (by rw [machine_answer, machine_ask]))
  | some fault =>
    have unanswered : exchanged = ask settings m := Run.andThen_of_stopped asked (answer line)
    rw [unanswered]
    exact .inl ⟨by simp [asked], machine_ask settings m⟩

theorem machine_exchange (settings : Settings) (line : String) {m : Machine}
    (done : ((ask settings m).andThen (answer line)).fault? = none) :
    ((ask settings m).andThen (answer line)).machine = (m.eval line).machine :=
  (machine_exchange_cases settings line m).resolve_left fun unasked => unasked.1 done

theorem follows_exchange (settings : Settings) (line : String) {m : Machine}
    (sound : m.dictionary.Sound) :
    Follows ((ask settings m).andThen (answer line))
      (display settings m ++ [.prompt settings.prompt] ++ replies line m)
      (Displayable settings m ∧ Answerable line m) := by
  refine (follows_ask settings m).andThen fun _ => ?_
  rw [machine_ask]
  exact follows_answer line sound

/-! ### Sessions -/

theorem follows_converse (settings : Settings) (lines : List String) {m : Machine}
    (sound : m.dictionary.Sound) :
    Follows (converse settings lines m) (script settings lines m) (Unbroken settings lines m) := by
  induction lines generalizing m with
  | nil =>
    have ended := (follows_ask settings m).andThen fun _ => Follows.wrote [.farewell] _
    exact ended.congr ((and_iff_left trivial).trans (unbroken_nil_iff settings m).symm)
  | cons line rest ih =>
    have exchanged := follows_exchange settings line sound
    refine (exchanged.andThen fun done => ?_).congr (unbroken_cons_iff settings line rest m).symm
    -- A stopped exchange can leave `m` itself; only one that goes through is known to leave this.
    rw [machine_exchange settings line done]
    exact ih ((History.eval line m).sound sound)

/-- A session leaves what the evaluations of its first lines leave, and of all if it is not
stopped. -/
theorem exists_machine_converse (settings : Settings) (lines : List String) (m : Machine) :
    ∃ front, front <+: lines ∧ (converse settings lines m).machine = m.after (front.map .eval) ∧
      ((converse settings lines m).fault? = none → front = lines) := by
  induction lines generalizing m with
  | nil =>
    refine ⟨[], List.prefix_rfl, ?_, fun _ => rfl⟩
    rw [converse, Run.machine_andThen_wrote, machine_ask]
    rfl
  | cons line rest ih =>
    rw [converse]
    cases exchanged : ((ask settings m).andThen (answer line)).fault? with
    | none =>
      obtain ⟨front, begins, machine, whole⟩ := ih (m.eval line).machine
      rw [Run.andThen_of_done exchanged, machine_exchange settings line exchanged]
      exact ⟨line :: front, (List.prefix_cons_inj line).2 begins, machine,
        fun done => congrArg (line :: ·) (whole done)⟩
    | some fault =>
      have stopped : ((ask settings m).andThen (answer line)).fault? ≠ none := by simp [exchanged]
      rw [Run.andThen_of_stopped exchanged]
      rcases machine_exchange_cases settings line m with ⟨-, same⟩ | led
      · exact ⟨[], List.nil_prefix, same, fun done => absurd done stopped⟩
      · exact ⟨[line], List.prefix_append [line] rest, led, fun done => absurd done stopped⟩

theorem follows_session (settings : Settings) (input : String) :
    Follows (session settings input)
      (.greeting Machine.fresh.dictionary.names :: script settings (linesOf input) .fresh)
      (Unbroken settings (linesOf input) .fresh) := by
  have conversed := follows_converse settings (linesOf input) (m := .fresh) Dictionary.sound_seeded
  have greeted := Follows.wrote [.greeting Machine.fresh.dictionary.names] .fresh
  exact (greeted.andThen fun _ => conversed).congr (and_iff_right trivial)

theorem exists_machine_session (settings : Settings) (input : String) :
    ∃ front, front <+: linesOf input ∧
      (session settings input).machine = Machine.fresh.after (front.map .eval) ∧
      ((session settings input).fault? = none → front = linesOf input) :=
  exists_machine_converse settings (linesOf input) .fresh

end Console

/-! ### All lines at once -/

/-- Texts that are evaluated without a fault, one after the other, do what their lexemes do when
they are run as one program. -/
theorem Machine.run_flatMap_lexemes {texts : List String} {m : Machine}
    (done : ∀ front text, front ++ [text] <+: texts →
      ((m.after (front.map .eval)).eval text).fault? = none) :
    (m.run (texts.flatMap Text.lexemes)).fault? = none ∧
      (m.run (texts.flatMap Text.lexemes)).machine = m.after (texts.map .eval) := by
  induction texts generalizing m with
  | nil =>
    rw [List.flatMap_nil, run_nil]
    exact ⟨rfl, rfl⟩
  | cons text texts ih =>
    have first : (m.run (Text.lexemes text)).fault? = none := by
      rw [← fault?_eval]
      exact done [] text (List.prefix_append [text] texts)
    obtain ⟨doneLater, led⟩ := ih fun front other begins =>
      done (text :: front) other ((List.prefix_cons_inj text).2 begins)
    rw [List.flatMap_cons, run_append (by simp [first]), Run.fault?_andThen_eq_none,
      Run.andThen_of_done first, ← machine_eval]
    exact ⟨⟨first, doneLater⟩, led⟩

namespace Console

/-- A session evaluates the lines of its input in order, each on what the lines before it left,
failed or not, and prints the front of its script. It lasts to the farewell, with one prompt more
than there are lines, just if neither a line nor a display comes upon a number with too many digits.
If no line fails at all, then one evaluation of the whole input leaves the same machine. -/
theorem session_fault?_eq_none_iff (settings : Settings) (input : String) :
    let run := session settings input
    let texts := linesOf input
    let printed := .greeting Machine.fresh.dictionary.names :: script settings texts .fresh
    (∃ front last, (∀ text ∈ front, '\n' ∉ text.toList) ∧ '\n' ∉ last.toList ∧
      input = ended front ++ last ∧ texts = if last = "" then front else front ++ [last]) ∧
    (∃ front, front <+: texts ∧ run.machine = Machine.fresh.after (front.map .eval)) ∧
    run.written <+: printed ∧
    (run.fault? = none ↔ Unbroken settings texts .fresh) ∧
    (run.fault? = none →
      run.machine = Machine.fresh.after (texts.map .eval) ∧ run.written = printed ∧
      (∃ front, run.written = front ++ [.farewell] ∧
        front.count (.prompt settings.prompt) = texts.length + 1) ∧
      ((∀ front line, front ++ [line] <+: texts →
          ((Machine.fresh.after (front.map .eval)).eval line).fault? = none) →
        run.machine = (Machine.fresh.eval input).machine)) := by
  intro run texts printed
  have follows : Follows run printed (Unbroken settings texts .fresh) :=
    follows_session settings input
  obtain ⟨front, begins, machine, whole⟩ := exists_machine_session settings input
  refine ⟨linesOf_cut input, ⟨front, begins, machine⟩, follows.begins, follows.fault?,
    fun done => ?_⟩
  have last : run.machine = Machine.fresh.after (texts.map .eval) := by rw [machine, whole done]
  refine ⟨last, follows.whole done, ?_, fun faultless => ?_⟩
  · obtain ⟨items, ends, prompts⟩ := exists_script_eq settings texts .fresh
    refine ⟨.greeting Machine.fresh.dictionary.names :: items, ?_, ?_⟩
    · rw [follows.whole done]
      exact congrArg _ ends
    · rw [List.count_cons_of_ne (by simp), prompts]
  · -- A line feed is blank, so the lexemes of the input are those of its lines, one after another.
    rw [last, Machine.machine_eval, lexemes_eq_flatMap]
    exact (Machine.run_flatMap_lexemes faultless).2.symm

/-- Two lines that fail, an empty one, and a last one without a line feed. -/
theorem session_fault?_eq_none_iff_faults :
    let input := "1 2 drop foo\n: square dup * ;\n\n7 square 0 / 5\nSquare"
    let run := session {} input
    run.fault? = none ∧ Unbroken {} (linesOf input) .fresh ∧
      run.machine = Machine.fresh.after ((linesOf input).map .eval) := by
  intro input run
  have done : run.fault? = none := by decide +kernel
  obtain ⟨-, -, -, lasts, ends⟩ := session_fault?_eq_none_iff {} input
  exact ⟨done, lasts.1 done, (ends done).1⟩

end Console

end Forth
