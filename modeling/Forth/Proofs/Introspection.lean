import Forth.Proofs.Cutting
import Forth.Proofs.Description
import Forth.Proofs.Invocation
import Mathlib.Data.List.Sort
import Mathlib.Data.String.Basic

/-! What a machine tells of itself is all that there is to it. Two machines with the same stack,
whose words have the same names and descriptions, answer alike whatever is asked of them, even if
one has a primitive where the other has a definition of it. -/

namespace Forth

namespace Dictionary

/-- The body that a name opens to, which is all that matters of what it is bound to. -/
def opened (d : Dictionary) (name : String) : Option (Except Fault (List Code)) :=
  (d.lookup name).map Code.unbox

theorem opened_define (d : Dictionary) (name other : String) (code : Code) :
    (d.define name code).opened other =
      if Text.upper other = Text.upper name then some code.unbox else d.opened other := by
  rw [opened, lookup_define]
  split <;> rfl

theorem resolve_word (d : Dictionary) (name : String) :
    d.resolve (.word name) = (d.opened name).getD (.error (.unknownWord name)) := by
  rw [resolve, opened]
  cases d.lookup name <;> rfl

theorem describe_eq (d : Dictionary) (name : String) :
    d.describe name = ((d.opened name).getD (.error (.unknownWord (Text.upper name)))).bind
      fun body => do return " ".intercalate (← Code.texts body) := by
  rw [describe, opened]
  cases d.lookup name <;> rfl

theorem resolve_congr {d e : Dictionary} (same : ∀ name, d.opened name = e.opened name)
    (term : Term) : d.resolve term = e.resolve term := by
  cases term with
  | number value => rfl
  | word name => rw [resolve_word, resolve_word, same]

theorem resolveAll_congr {d e : Dictionary} {terms : List Term}
    (same : ∀ term ∈ terms, d.resolve term = e.resolve term) :
    d.resolveAll terms = e.resolveAll terms := by
  induction terms with
  | nil => rfl
  | cons term terms ih =>
    obtain ⟨first, later⟩ := List.forall_mem_cons.1 same
    rw [resolveAll, resolveAll, first, ih later]

theorem isSome_opened (d : Dictionary) (name : String) :
    (d.opened name).isSome = d.contains name :=
  Option.isSome_map

theorem mem_names_iff (d : Dictionary) (name : String) :
    Text.upper name ∈ d.names ↔ d.contains name = true := by
  rw [names, contains, lookup]
  induction d.entries with
  | nil => simp [Entries.lookup]
  | cons entry rest ih =>
    rw [List.map_cons, List.mem_cons, Entries.lookup, ih]
    by_cases same : Text.upper name = entry.1
    · simp [same]
    · simp [same]

theorem pairwise_names (d : Dictionary) : d.names.Pairwise (· < ·) :=
  List.pairwise_map.2 d.sorted

namespace Sound

variable {d e : Dictionary}

theorem upper_of_mem_names (sound : d.Sound) {key : String} (member : key ∈ d.names) :
    Text.upper key = key := by
  obtain ⟨entry, found, rfl⟩ := List.mem_map.1 member
  exact (sound.entries entry found).upper_key

theorem names_congr (sound : d.Sound) (other : e.Sound)
    (same : ∀ name, d.opened name = e.opened name) : d.names = e.names := by
  have contained : ∀ name, d.contains name = e.contains name := fun name => by
    rw [← isSome_opened, ← isSome_opened, same]
  refine List.Pairwise.eq_of_mem_iff d.pairwise_names e.pairwise_names fun key => ?_
  constructor
  · intro member
    have upper := sound.upper_of_mem_names member
    rwa [← upper, mem_names_iff, contained, ← mem_names_iff, upper] at member
  · intro member
    have upper := other.upper_of_mem_names member
    rwa [← upper, mem_names_iff, ← contained, ← mem_names_iff, upper] at member

theorem invoke_congr (sound : d.Sound) (other : e.Sound) {name : String}
    (same : d.opened name = e.opened name) (s : Stack) : d.invoke name s = e.invoke name s := by
  cases found : d.lookup name with
  | none =>
    have unbound : e.lookup name = none := by simpa [opened, found] using same.symm
    rw [invoke_of_lookup_eq_none found, invoke_of_lookup_eq_none unbound]
  | some code =>
    obtain ⟨body, unboxed, -⟩ := (sound.lookup found).unbox
    obtain ⟨otherCode, otherFound, otherUnboxed⟩ :
        ∃ otherCode, e.lookup name = some otherCode ∧ otherCode.unbox = .ok body := by
      simpa [opened, found, unboxed] using same.symm
    rw [sound.invoke found unboxed e.invoke, other.invoke otherFound otherUnboxed e.invoke]

/-- Names and descriptions tell what every name opens to. -/
theorem opened_of_described (sound : d.Sound) (other : e.Sound) (names : d.names = e.names)
    (described : ∀ key ∈ d.names, d.describe key = e.describe key) (name : String) :
    d.opened name = e.opened name := by
  have contained : d.contains name = e.contains name := by
    rw [Bool.eq_iff_iff, ← mem_names_iff, ← mem_names_iff, names]
  cases found : d.lookup name with
  | none =>
    have unbound : e.lookup name = none := by simpa [contains, found] using contained.symm
    rw [opened, opened, found, unbound]
  | some code =>
    obtain ⟨otherCode, otherFound⟩ : ∃ otherCode, e.lookup name = some otherCode :=
      Option.isSome_iff_exists.1 (by simpa [contains, found] using contained.symm)
    have same := described (Text.upper name) ((d.mem_names_iff name).2 (by simp [contains, found]))
    simp only [describe, lookup_upper, found, otherFound] at same
    rw [opened, opened, found, otherFound, Option.map_some, Option.map_some,
      (sound.lookup found).unbox_eq_of_describe_eq (other.lookup otherFound) same]

end Sound

end Dictionary

/-! ### Machines that are alike -/

/-- The stacks agree, and every name opens to the same body. -/
structure Machine.Alike (m n : Machine) : Prop where
  stack : m.stack = n.stack
  sound : m.dictionary.Sound
  otherSound : n.dictionary.Sound
  opened : ∀ name, m.dictionary.opened name = n.dictionary.opened name

/-- The runs write the same, end the same and lead to machines that are alike. -/
structure Run.Alike (run other : Run Notice) : Prop where
  machine : run.machine.Alike other.machine
  written : run.written = other.written
  fault? : run.fault? = other.fault?

theorem Run.Alike.andThen {run other : Run Notice} (first : run.Alike other)
    {next : Machine → Run Notice} (later : ∀ m n, m.Alike n → (next m).Alike (next n)) :
    (run.andThen next).Alike (other.andThen next) := by
  have same := first.fault?
  cases ended : run.fault? with
  | none =>
    rw [ended] at same
    have behind := later _ _ first.machine
    rw [Run.andThen_of_done ended, Run.andThen_of_done same.symm]
    exact ⟨behind.machine, by rw [first.written, behind.written], behind.fault?⟩
  | some fault =>
    rw [ended] at same
    rwa [Run.andThen_of_stopped ended, Run.andThen_of_stopped same.symm]

theorem Run.Alike.recorded {run other : Run Notice} (alike : run.Alike other) :
    run.recorded.Alike other.recorded := by
  rw [Run.recorded, Run.recorded, alike.fault?]
  cases other.fault?.bind Fault.report? with
  | none => exact alike
  | some report => exact ⟨alike.machine, congrArg (· ++ [.stopped report]) alike.written, rfl⟩

namespace Machine.Alike

variable {m n : Machine}

theorem affect (alike : m.Alike n) {effect other : Stack → Effect}
    (same : ∀ s, effect s = other s) : (m.affect effect).Alike (n.affect other) := by
  have effects : effect m.stack = other n.stack := by rw [alike.stack, same]
  refine ⟨⟨?_, alike.sound, alike.otherSound, alike.opened⟩, rfl, ?_⟩
  · exact congrArg Effect.stack effects
  · exact congrArg Effect.fault? effects

theorem affect_self (alike : m.Alike n) (effect : Stack → Effect) :
    (m.affect effect).Alike (n.affect effect) :=
  alike.affect fun _ => rfl

theorem execute (alike : m.Alike n) (name : String) : (m.execute name).Alike (n.execute name) :=
  alike.affect (alike.sound.invoke_congr alike.otherSound (alike.opened name))

theorem define (alike : m.Alike n) {source : Source} (readable : source.Readable) :
    (m.define source).Alike (n.define source) := by
  have same : m.dictionary.resolveAll source.body = n.dictionary.resolveAll source.body :=
    Dictionary.resolveAll_congr fun term _ => Dictionary.resolve_congr alike.opened term
  rw [Machine.define, Machine.define, same]
  cases resolved : n.dictionary.resolveAll source.body with
  | error fault => exact ⟨alike, rfl, rfl⟩
  | ok body =>
    have flat := alike.otherSound.resolveAll readable.body resolved
    obtain ⟨texts, told⟩ := Code.plainTexts_of_flat flat
    simp only [install, told]
    refine ⟨⟨alike.stack, alike.sound.define readable.name flat,
      alike.otherSound.define readable.name flat, fun name => ?_⟩, rfl, rfl⟩
    show (m.dictionary.define _ _).opened name = (n.dictionary.define _ _).opened name
    rw [Dictionary.opened_define, Dictionary.opened_define, alike.opened]

theorem perform (alike : m.Alike n) {phrase : Phrase} (readable : phrase.Readable) :
    (m.perform phrase).Alike (n.perform phrase) := by
  cases readable with
  | definition readable => exact alike.define readable
  | @term term _ =>
    cases term with
    | number value =>
      rw [Machine.perform, Machine.perform]
      exact alike.affect_self _
    | word name => exact alike.execute name

theorem run (alike : m.Alike n) (lexemes : List String) :
    (m.run lexemes).Alike (n.run lexemes) := by
  induction lexemes using Phrase.induction_on_lexemes generalizing m n with
  | nil =>
    rw [run_nil, run_nil]
    exact ⟨alike, rfl, rfl⟩
  | cons lexeme rest ih =>
    cases result : (Phrase.read lexeme rest).result with
    | error fault =>
      rw [run_cons_of_error result, run_cons_of_error result]
      exact ⟨alike, rfl, rfl⟩
    | ok phrase =>
      rw [run_cons_of_ok result, run_cons_of_ok result]
      exact (alike.perform (Phrase.readable_read result)).andThen fun _ _ later => ih later

theorem eval (alike : m.Alike n) (text : String) : (m.eval text).Alike (n.eval text) := by
  rw [eval_eq_recorded, eval_eq_recorded]
  exact (alike.run (Text.lexemes text)).recorded

theorem compile (alike : m.Alike n) (lexemes : List String) :
    (m.compile lexemes).run.Alike (n.compile lexemes).run := by
  rw [Machine.compile, Machine.compile]
  cases result : (Source.read lexemes).result with
  | error fault => exact ⟨alike, rfl, rfl⟩
  | ok source => exact alike.define (Source.readable_read result)

theorem operate (alike : m.Alike n) (op : Operation) :
    (m.operate op).Alike (n.operate op) := by
  unfold Machine.operate
  cases op with
  | eval text => exact alike.eval text
  | run lexemes => exact alike.run lexemes
  | execute name => exact alike.execute name
  | compile lexemes => exact alike.compile lexemes
  | push value => exact alike.affect_self _
  | pop n => exact alike.affect_self _
  | peek i => exact alike.affect_self _
  | require n => exact alike.affect_self _

end Machine.Alike

/-! ### Conversations -/

/-- What can be asked of a machine: to do something, or to tell of its words. -/
inductive Request where
  | operate (op : Operation)
  | words
  | describe (name : String)
  deriving DecidableEq, Repr

inductive Answer where
  | ran (written : List Notice) (fault? : Option Fault)
  | words (names : List String)
  | description (result : Except Fault String)
  deriving DecidableEq

namespace Machine

def answer : Request → Machine → Answer
  | .operate op, m => .ran (m.operate op).written (m.operate op).fault?
  | .words, m => .words m.dictionary.names
  | .describe name, m => .description (m.dictionary.describe name)

/-- The machine after a request: only operations change it. -/
def next : Request → Machine → Machine
  | .operate op, m => (m.operate op).machine
  | .words, m => m
  | .describe _, m => m

/-- The answers to some requests in order, each with the stack after it. -/
def transcript : List Request → Machine → List (Answer × Stack)
  | [], _ => []
  | request :: requests, m =>
    (m.answer request, (m.next request).stack) :: transcript requests (m.next request)

theorem Alike.answer {m n : Machine} (alike : m.Alike n) (request : Request) :
    m.answer request = n.answer request ∧ (m.next request).Alike (n.next request) := by
  cases request with
  | operate op =>
    have same := alike.operate op
    exact ⟨by rw [Machine.answer, Machine.answer, same.written, same.fault?], same.machine⟩
  | words =>
    have same := alike.sound.names_congr alike.otherSound alike.opened
    exact ⟨by rw [Machine.answer, Machine.answer, same], alike⟩
  | describe name =>
    have same : m.dictionary.describe name = n.dictionary.describe name := by
      rw [Dictionary.describe_eq, Dictionary.describe_eq, alike.opened]
    exact ⟨by rw [Machine.answer, Machine.answer, same], alike⟩

theorem Alike.transcript {m n : Machine} (alike : m.Alike n) (requests : List Request) :
    m.transcript requests = n.transcript requests := by
  induction requests generalizing m n with
  | nil => rfl
  | cons request requests ih =>
    obtain ⟨same, later⟩ := alike.answer request
    rw [Machine.transcript, Machine.transcript, same, later.stack, ih later]

/-- Machines with the same stack, whose words have the same names and descriptions, answer alike for
ever. -/
theorem transcript_eq_of_described {m n : Machine} (reached : m.Reached) (otherReached : n.Reached)
    (stack : m.stack = n.stack) (names : m.dictionary.names = n.dictionary.names)
    (described : ∀ key ∈ m.dictionary.names,
      m.dictionary.describe key = n.dictionary.describe key) (requests : List Request) :
    m.transcript requests = n.transcript requests := by
  have opened := reached.sound.opened_of_described otherReached.sound names described
  exact Alike.transcript ⟨stack, reached.sound, otherReached.sound, opened⟩ requests

/-- A primitive on one side and a definition of it on the other, behind different histories. -/
theorem transcript_eq_of_described_dup :
    let m := fresh.after [.eval ": twice dup + ;", .eval "3 4 swap drop"]
    let n := fresh.after [.eval ": dup dup ; : twice", .eval ": twice 2 * ; : Twice dup + ; 4"]
    let requests : List Request :=
      [.operate (.eval ": dup 5 twice ; dup over /"), .describe "Dup", .words,
        .operate (.execute "twice"), .operate (.eval "0 / : x x ;"), .describe "x"]
    (m.stack = n.stack ∧ m.dictionary.names = n.dictionary.names ∧
      ∀ key ∈ m.dictionary.names, m.dictionary.describe key = n.dictionary.describe key) ∧
    m.transcript requests = n.transcript requests := by
  intro m n requests
  have stack : m.stack = n.stack := by decide +kernel
  have names : m.dictionary.names = n.dictionary.names := by decide +kernel
  have described : ∀ key ∈ m.dictionary.names,
      m.dictionary.describe key = n.dictionary.describe key := by
    decide +kernel
  exact ⟨⟨stack, names, described⟩,
    transcript_eq_of_described ⟨_, rfl⟩ ⟨_, rfl⟩ stack names described requests⟩

end Machine

end Forth
