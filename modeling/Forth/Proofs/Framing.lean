import Forth.Proofs.Carrying
import Forth.Proofs.Stops

/-! Programs work on top of the stack. What a program does to some values it does with others
underneath too, which stay where they are and make no difference: to the result, to the dictionary,
to what is written, or to a fault. Only a program that comes to the end of the stack can tell. -/

namespace Forth

/-- The stack with the values of `below` underneath its own. -/
def Stack.on (s below : Stack) : Stack := ⟨s.values ++ below.values⟩

@[simp] theorem Stack.toList_on (s below : Stack) :
    (s.on below).toList = below.toList ++ s.toList :=
  List.reverse_append

/-! ### Stacks -/

namespace Primitive

/-- With its values at hand a primitive looks at no other. -/
theorem apply_on {p : Primitive} {s : Stack} (enough : p.arity ≤ s.depth) (below : Stack) :
    p.apply (s.on below) = (p.apply s).map (·.on below) := by
  obtain ⟨_ | ⟨b, _ | ⟨a, rest⟩⟩⟩ := s
  case nil => cases p <;> cases enough
  case cons.nil =>
    cases p with
    | duplicate | drop => rfl
    | _ => exact absurd enough (by decide : ¬2 ≤ 1)
  case cons.cons =>
    cases p with
    | divide =>
      by_cases zero : b = 0
      · simp [Stack.on, apply, zero, Except.map]
      · simp [Stack.on, apply, zero, Except.map]
    | _ => rfl

end Primitive

namespace Effect

/-- The effect with the values of `below` underneath those it leaves. -/
def on (effect : Effect) (below : Stack) : Effect := ⟨effect.stack.on below, effect.fault?⟩

/-- What the act does to a stack it does to the stack on other values too, unless it comes to the
end of the stack. -/
def Framed (act : Stack → Effect) : Prop :=
  ∀ s below, (∀ fault, (act s).fault? = some fault → ¬fault.IsUnderflow) →
    act (s.on below) = (act s).on below

theorem framed_stopped (fault : Fault) : Framed (stopped fault) := fun _ _ _ => rfl

theorem framed_push (value : Int) : Framed fun s => done (s.push value) := fun _ _ _ => rfl

theorem framed_apply (p : Primitive) : Framed fun s => ofExcept s (p.apply s) := by
  intro s below notUnderflow
  beta_reduce at notUnderflow ⊢
  rcases Nat.lt_or_ge s.depth p.arity with short | enough
  · rw [Primitive.apply_of_depth_lt short] at notUnderflow
    exact absurd rfl (notUnderflow _ rfl)
  · rw [Primitive.apply_on enough]
    cases p.apply s <;> rfl

theorem Framed.andThen {first later : Stack → Effect} (framedFirst : Framed first)
    (framedLater : Framed later) : Framed fun s => (first s).andThen later := by
  intro s below notUnderflow
  cases ended : (first s).fault? with
  | none =>
    have through : ∀ fault, (first s).fault? = some fault → ¬fault.IsUnderflow := by simp [ended]
    simp only [Effect.andThen, ended] at notUnderflow ⊢
    rw [framedFirst s below through]
    simp only [on, ended]
    exact framedLater _ below notUnderflow
  | some fault =>
    simp only [Effect.andThen, ended] at notUnderflow ⊢
    rw [framedFirst s below (by rwa [ended])]
    simp only [on, ended]

end Effect

namespace Code

variable {call : String → Stack → Effect}

theorem Flat.framed_exec {code : Code} (flat : code.Flat) : Effect.Framed (exec call code) := by
  cases flat with
  | literal bound =>
    rw [exec_literal]
    exact Effect.framed_push _
  | primitive p =>
    rw [exec_primitive]
    exact Effect.framed_apply p

theorem framed_execAll {body : List Code} (flat : ∀ code ∈ body, code.Flat) :
    Effect.Framed (execAll call body) := by
  induction body with
  | nil =>
    rw [execAll_nil]
    exact fun s below _ => rfl
  | cons code codes ih =>
    obtain ⟨flatFirst, flatLater⟩ := List.forall_mem_cons.1 flat
    rw [execAll_cons]
    exact flatFirst.framed_exec.andThen (ih flatLater)

end Code

theorem Dictionary.Sound.framed_invoke {d : Dictionary} (sound : d.Sound) (name : String) :
    Effect.Framed (d.invoke name) := by
  cases found : d.lookup name with
  | none =>
    rw [funext (invoke_of_lookup_eq_none found)]
    exact Effect.framed_stopped _
  | some code =>
    obtain ⟨body, opened, flat⟩ := (sound.lookup found).unbox
    rw [funext (sound.invoke found opened d.invoke)]
    exact Code.framed_execAll flat

/-! ### Machines -/

namespace Machine

/-- The machine with the values of `below` underneath those of its stack. -/
def on (below : Stack) (m : Machine) : Machine := { m with stack := m.stack.on below }

theorem affect_on {m : Machine} {act : Stack → Effect} (framed : Effect.Framed act)
    (below : Stack) (notUnderflow : ∀ fault, (m.affect act).fault? = some fault →
      ¬fault.IsUnderflow) :
    (m.on below).affect act = (m.affect act).map (on below) := by
  simp only [affect, on, framed m.stack below notUnderflow]
  rfl

theorem define_on (m : Machine) (source : Source) (below : Stack) :
    (m.on below).define source = (m.define source).map (on below) := by
  simp only [define, on]
  cases m.dictionary.resolveAll source.body with
  | error fault => rfl
  | ok body =>
    simp only [install]
    cases body.mapM Code.plainText <;> rfl

theorem carries_on_perform (below : Stack) (phrase : Phrase) :
    Carries (on below) Fault.IsUnderflow (perform phrase) := by
  intro m sound notUnderflow
  cases phrase with
  | definition source => exact define_on m source below
  | term term =>
    cases term with
    | number value => exact affect_on (Effect.framed_push value) below notUnderflow
    | word name => exact affect_on (sound.framed_invoke name) below notUnderflow

/-- Values underneath the stack make no difference to a program, and stay there: with them it leaves
the same dictionary and the same values above them, writes the same and ends the same. It can only
be otherwise where the program stops for want of values. -/
theorem run_on {m : Machine} (reached : m.Reached) (lexemes : List String) (s below : Stack) :
    let run := ({ m with stack := s } : Machine).run lexemes
    let deeper := ({ m with stack := s.on below } : Machine).run lexemes
    (∀ fault, run.fault? = some fault → fault.family? ≠ some .stackUnderflow) →
      deeper.machine.stack = run.machine.stack.on below ∧
        deeper.machine.dictionary = run.machine.dictionary ∧
        deeper.written = run.written ∧ deeper.fault? = run.fault? := by
  intro run deeper notUnderflow
  have carried : deeper = run.map (on below) :=
    carries_run (fun phrase _ => carries_on_perform below phrase) { m with stack := s }
      reached.sound notUnderflow
  rw [carried]
  exact ⟨rfl, rfl, rfl, rfl⟩

/-- A program that defines a word, and then divides by zero in a call of it. -/
theorem run_on_ratio :
    let m := fresh.after [.eval ": square dup * ;"]
    let lexemes := ["3", ":", "ratio", "swap", "square", "over", "/", ";", "ratio", "0", "Ratio"]
    let run := ({ m with stack := .ofList [5] } : Machine).run lexemes
    let deeper := ({ m with stack := (Stack.ofList [5]).on (.ofList [1, 2]) } : Machine).run lexemes
    run.fault? = some (.divisionByZero 64) ∧
      deeper.machine.stack = run.machine.stack.on (.ofList [1, 2]) ∧
      deeper.machine.dictionary = run.machine.dictionary ∧
      deeper.written = run.written ∧ deeper.fault? = run.fault? := by
  intro m lexemes run deeper
  have stopped : run.fault? = some (.divisionByZero 64) := by decide +kernel
  refine ⟨stopped, run_on ⟨_, rfl⟩ lexemes (.ofList [5]) (.ofList [1, 2]) fun fault told => ?_⟩
  cases stopped.symm.trans told
  exact fun same => by cases same

end Machine

end Forth
