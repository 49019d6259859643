import Forth.Proofs.Independence

/-! A definition makes no difference to evaluations that do not mention its name. They do with it
what they do without it, even if it takes the place of a primitive or of a word that other words
were made of: bodies refer to no name, so only a lexeme of that name could come upon it. -/

namespace Forth

theorem Run.recorded_map (change : Machine → Machine) (run : Run Notice) :
    (run.map change).recorded = run.recorded.map change := by
  rw [recorded, recorded, fault?_map]
  cases run.fault?.bind Fault.report? <;> rfl

namespace Machine

/-! ### Evaluations with a name bound -/

section

variable (binding : Binding) (isName : WordName binding.name)
  (flat : ∀ code ∈ binding.body, code.Flat)

include isName flat

theorem eval_bind {text : String}
    (others : ∀ lexeme ∈ Text.lexemes text, Text.upper lexeme ≠ Text.upper binding.name)
    {m : Machine} (sound : m.dictionary.Sound) :
    (m.bind binding).eval text = (m.eval text).map (bind binding) := by
  rw [eval_eq_recorded, eval_eq_recorded, run_bind binding isName flat others sound,
    Run.recorded_map]

theorem evals_bind {texts : List String}
    (others : ∀ text ∈ texts, ∀ lexeme ∈ Text.lexemes text,
      Text.upper lexeme ≠ Text.upper binding.name)
    {m : Machine} (sound : m.dictionary.Sound) :
    (m.bind binding).transcript (texts.map fun text => .operate (.eval text)) =
        m.transcript (texts.map fun text => .operate (.eval text)) ∧
      (m.bind binding).after (texts.map .eval) = (m.after (texts.map .eval)).bind binding := by
  induction texts generalizing m with
  | nil => exact ⟨rfl, rfl⟩
  | cons text texts ih =>
    obtain ⟨first, later⟩ := List.forall_mem_cons.1 others
    have carried := eval_bind binding isName flat first sound
    obtain ⟨told, led⟩ := ih later ((History.eval text m).sound sound)
    simp only [List.map_cons, transcript, answer, next, after, operate, carried, Run.machine_map]
    exact ⟨congrArg _ told, led⟩

end

/-! ### Definitions -/

/-- Texts that never mention the name of a definition are evaluated alike with the definition and
without it, one by one: they leave the same stacks, write the same and fail with the same faults. In
the end no other name is bound to anything else. -/
theorem transcript_of_unmentioned {m : Machine} (reached : m.Reached) {definition name : String}
    {body : List String} (single : Text.lexemes definition = ":" :: name :: (body ++ [";"]))
    (noSemicolon : ∀ lexeme ∈ body, Token.ofLexeme lexeme ≠ .semicolon)
    (done : (m.eval definition).fault? = none) {texts : List String}
    (unmentioned : ∀ text ∈ texts, ∀ lexeme ∈ Text.lexemes text,
      Text.upper lexeme ≠ Text.upper name) :
    let defined := (m.eval definition).machine
    defined.transcript (texts.map fun text => .operate (.eval text)) =
        m.transcript (texts.map fun text => .operate (.eval text)) ∧
      (defined.after (texts.map .eval)).stack = (m.after (texts.map .eval)).stack ∧
      ∀ other, Text.upper other ≠ Text.upper name →
        (defined.after (texts.map .eval)).dictionary.lookup other =
          (m.after (texts.map .eval)).dictionary.lookup other := by
  intro defined
  have sound := reached.sound
  rw [fault?_eval, single] at done
  obtain ⟨isName, -, codes, -, -, flat, bound⟩ := machine_run_definition sound noSemicolon done
  have installed : defined = m.bind ⟨Text.upper name, codes⟩ := by
    rw [← single, ← machine_eval] at bound
    exact bound
  -- The definition binds the name in upper case, whatever its spelling.
  have others : ∀ text ∈ texts, ∀ lexeme ∈ Text.lexemes text,
      Text.upper lexeme ≠ Text.upper (Text.upper name) := by
    rwa [Text.upper_upper]
  obtain ⟨told, led⟩ := evals_bind ⟨Text.upper name, codes⟩ isName flat others sound
  rw [installed, led]
  refine ⟨told, rfl, fun other apart => lookup_bind ?_ _⟩
  show Text.upper other ≠ Text.upper (Text.upper name)
  rwa [Text.upper_upper]

/-- The definition hides a primitive that an earlier word was made of. -/
theorem transcript_of_unmentioned_dup :
    let m := fresh.after [.eval ": twice dup + ;", .eval "1"]
    let texts :=
      ["Twice : quad twice twice ;", "5 quad 0 /", ": quad Quad quad ; 2 QUAD foo", "+ +"]
    let defined := (m.eval " : dup\tdrop swap ;").machine
    (m.eval " : dup\tdrop swap ;").fault? = none ∧
      defined.transcript (texts.map fun text => .operate (.eval text)) =
        m.transcript (texts.map fun text => .operate (.eval text)) ∧
      (defined.after (texts.map .eval)).stack = (m.after (texts.map .eval)).stack ∧
      ∀ other, Text.upper other ≠ Text.upper "dup" →
        (defined.after (texts.map .eval)).dictionary.lookup other =
          (m.after (texts.map .eval)).dictionary.lookup other := by
  intro m texts defined
  have single : Text.lexemes " : dup\tdrop swap ;" =
      ":" :: "dup" :: (["drop", "swap"] ++ [";"]) := by decide +kernel
  have done : (m.eval " : dup\tdrop swap ;").fault? = none := by decide +kernel
  exact ⟨done, transcript_of_unmentioned ⟨_, rfl⟩ single (by decide +kernel) done
    (by decide +kernel)⟩

end Machine

end Forth
