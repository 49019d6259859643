import Forth.Proofs.Stops

/-! Primitives are atomic and local. Written as acts on a stack that lose nothing of what they did
when they fail midway, they still leave the stack as it was whenever they fail, since all that can
fail comes before the first change; and where they go through they replace as many values as they
have arguments. -/

namespace Forth

/-- An act that changes a stack. Where it fails, what it changed before stays changed. -/
abbrev Act (α : Type) := EStateM Fault Stack α

namespace Act

/-- Asks the stack something, and leaves it alone. -/
def ask {α : Type} (question : Stack → Except Fault α) : Act α := do
  match question (← get) with
  | .ok answer => return answer
  | .error fault => throw fault

def require (n : Nat) : Act Unit := ask (·.require n)

def peek (i : Nat) : Act Int := ask (·.peek i)

def push (value : Int) : Act Unit := modify (·.push value)

def pushEach : List Int → Act Unit
  | [] => return
  | value :: values => do
    push value
    pushEach values

/-- Takes the top value away. -/
def popTop : Act Int := do
  match (← get).values with
  | value :: below =>
    set (Stack.mk below)
    return value
  | [] => throw .noSuchValue

/-- Takes values away one by one, the top one first. -/
def popEach : Nat → Act (List Int)
  | 0 => return []
  | n + 1 => do
    let value ← popTop
    return value :: (← popEach n)

/-- Makes sure of `n` values before it takes any away. -/
def pop (n : Nat) : Act (List Int) := do
  require n
  popEach n

/-- Takes two values and pushes what is made of them, the second value being the top one. -/
def exchange (make : Int → Int → List Int) : Act Unit := do
  match ← pop 2 with
  | [b, a] => pushEach (make a b)
  | _ => throw .noSuchValue

section

variable {α β : Type} {act : Act α} {s after : Stack} {n : Nat}

theorem run_bind_of_ok {value : α} (done : act.run s = .ok value after) (next : α → Act β) :
    (act >>= next).run s = (next value).run after := by
  rw [EStateM.run_bind, done]

theorem run_bind_of_error {fault : Fault} (failed : act.run s = .error fault after)
    (next : α → Act β) : (act >>= next).run s = .error fault after := by
  rw [EStateM.run_bind, failed]

theorem run_ask_of_ok {question : Stack → Except Fault α} {answer : α}
    (answered : question s = .ok answer) : (ask question).run s = .ok answer s := by
  rw [ask, run_bind_of_ok (EStateM.run_get s), answered]
  rfl

theorem run_ask_of_error {question : Stack → Except Fault α} {fault : Fault}
    (failed : question s = .error fault) : (ask question).run s = .error fault s := by
  rw [ask, run_bind_of_ok (EStateM.run_get s), failed]
  rfl

theorem run_require (enough : n ≤ s.depth) : (require n).run s = .ok () s :=
  run_ask_of_ok (Stack.require_eq_ok (Int.ofNat_le.2 enough))

theorem run_require_of_lt (short : s.depth < n) :
    (require n).run s = .error (Stack.shortageFault n s.depth) s :=
  run_ask_of_error (Stack.require_eq_error (Int.ofNat_lt.2 short))

theorem run_pushEach (values : List Int) (s : Stack) :
    (pushEach values).run s = .ok () (values.foldl Stack.push s) := by
  induction values generalizing s with
  | nil => rfl
  | cons value values ih =>
    have first : (push value).run s = .ok () (s.push value) := rfl
    rw [pushEach, run_bind_of_ok first, ih, List.foldl_cons]

theorem run_popEach (enough : n ≤ s.depth) :
    (popEach n).run s = .ok (s.values.take n) ⟨s.values.drop n⟩ := by
  induction n generalizing s with
  | zero => rfl
  | succ n ih =>
    obtain ⟨_ | ⟨value, below⟩⟩ := s
    · cases enough
    · have first : popTop.run ⟨value :: below⟩ = .ok value ⟨below⟩ := rfl
      have later := ih (s := ⟨below⟩) (Nat.le_of_succ_le_succ enough)
      rw [popEach, run_bind_of_ok first, run_bind_of_ok later]
      rfl

theorem run_pop (enough : n ≤ s.depth) :
    (pop n).run s = .ok (s.values.take n) ⟨s.values.drop n⟩ := by
  rw [pop, run_bind_of_ok (run_require enough), run_popEach enough]

theorem run_pop_of_lt (short : s.depth < n) :
    (pop n).run s = .error (Stack.shortageFault n s.depth) s := by
  rw [pop, run_bind_of_error (run_require_of_lt short)]

theorem run_exchange (b a : Int) (below : List Int) (make : Int → Int → List Int) :
    (exchange make).run ⟨b :: a :: below⟩ = .ok () ((make a b).foldl Stack.push ⟨below⟩) := by
  have enough : 2 ≤ Stack.depth ⟨b :: a :: below⟩ := Nat.le_add_left 2 below.length
  rw [exchange, run_bind_of_ok (run_pop enough)]
  exact run_pushEach (make a b) ⟨below⟩

theorem run_exchange_of_lt (short : s.depth < 2) (make : Int → Int → List Int) :
    (exchange make).run s = .error (Stack.shortageFault (2 : Nat) s.depth) s := by
  rw [exchange, run_bind_of_error (run_pop_of_lt short)]

end

end Act

/-- The effect of an act on a stack, which is the stack that it leaves, failing or not. -/
def Effect.ofAct (act : Act Unit) (s : Stack) : Effect :=
  match act.run s with
  | .ok () after => .done after
  | .error fault after => .stopped fault after

theorem Effect.ofAct_of_ok {act : Act Unit} {s after : Stack} (done : act.run s = .ok () after) :
    ofAct act s = .done after := by
  rw [ofAct, done]

theorem Effect.ofAct_of_error {act : Act Unit} {s after : Stack} {fault : Fault}
    (failed : act.run s = .error fault after) : ofAct act s = .stopped fault after := by
  rw [ofAct, failed]

namespace Primitive

/-- The quotient of the magnitudes, negative if one of the numbers is and the other is not. -/
def quotient (a b : Int) : Int :=
  let magnitude : Int := (a.natAbs / b.natAbs : Nat)
  if a < 0 ↔ b < 0 then magnitude else -magnitude

theorem quotient_eq_tdiv (a b : Int) : quotient a b = a.tdiv b := by
  have natural (k : Nat) : ¬Int.ofNat k < 0 := Int.not_lt.2 (Int.natCast_nonneg k)
  have negative (k : Nat) : Int.negSucc k < 0 := Int.negSucc_lt_zero k
  unfold quotient
  cases a with
  | ofNat m =>
    cases b with
    | ofNat n => rw [if_pos (iff_of_false (natural m) (natural n))]; rfl
    | negSucc n => rw [if_neg fun same => natural m (same.2 (negative n))]; rfl
  | negSucc m =>
    cases b with
    | ofNat n => rw [if_neg fun same => natural n (same.1 (negative m))]; rfl
    | negSucc n => rw [if_pos (iff_of_true (negative m) (negative n))]; rfl

/-- The primitive as an act: what it makes sure of, looks at, takes away and pushes, in order. -/
def act : Primitive → Act Unit
  | add => Act.exchange fun a b => [a + b]
  | subtract => Act.exchange fun a b => [a - b]
  | multiply => Act.exchange fun a b => [a * b]
  | divide => do
    Act.require 2
    if (← Act.peek 0) = 0 then
      throw (divisionFault (← Act.peek 1))
    else
      Act.exchange fun a b => [quotient a b]
  | duplicate => do
    Act.require 1
    Act.push (← Act.peek 0)
  | drop => do
    let _ ← Act.pop 1
  | swap => Act.exchange fun a b => [b, a]
  | copySecond => do
    Act.require 2
    Act.push (← Act.peek 1)

/-- What a primitive needs is few enough to be told. -/
theorem shortageFault_arity (p : Primitive) (available : Nat) :
    Stack.shortageFault p.arity available = .underflow p.arity available := by
  have few : Numeral.Writable p.arity := by cases p <;> decide +kernel
  rw [Stack.shortageFault, if_pos few, Int.toNat_natCast]

theorem run_act_of_lt {p : Primitive} {s : Stack} (short : s.depth < p.arity) :
    p.act.run s = .error (.underflow p.arity s.depth) s := by
  rw [← shortageFault_arity p s.depth]
  cases p with
  | add | subtract | multiply | swap => exact Act.run_exchange_of_lt short _
  | divide | duplicate | copySecond => exact Act.run_bind_of_error (Act.run_require_of_lt short) _
  | drop => exact Act.run_bind_of_error (Act.run_pop_of_lt short) _

theorem run_act_divide (b a : Int) (below : List Int) :
    divide.act.run ⟨b :: a :: below⟩ =
      if b = 0 then .error (divisionFault a) ⟨b :: a :: below⟩
      else .ok () ⟨quotient a b :: below⟩ := by
  have enough : 2 ≤ Stack.depth ⟨b :: a :: below⟩ := Nat.le_add_left 2 below.length
  have top : (Act.peek 0).run ⟨b :: a :: below⟩ = .ok b ⟨b :: a :: below⟩ := rfl
  have second : (Act.peek 1).run ⟨b :: a :: below⟩ = .ok a ⟨b :: a :: below⟩ := rfl
  rw [act, Act.run_bind_of_ok (Act.run_require enough), Act.run_bind_of_ok top]
  by_cases zero : b = 0
  · rw [if_pos zero, if_pos zero, Act.run_bind_of_ok second]
    rfl
  · rw [if_neg zero, if_neg zero, Act.run_exchange]
    rfl

end Primitive

theorem Stack.exists_of_one_le {s : Stack} (enough : 1 ≤ s.depth) :
    ∃ a below, s = ⟨a :: below⟩ := by
  obtain ⟨_ | ⟨a, below⟩⟩ := s
  · cases enough
  · exact ⟨a, below, rfl⟩

theorem Stack.exists_of_two_le {s : Stack} (enough : 2 ≤ s.depth) :
    ∃ b a below, s = ⟨b :: a :: below⟩ := by
  obtain ⟨b, _ | ⟨a, below⟩, rfl⟩ := exists_of_one_le (Nat.le_of_succ_le enough)
  · cases Nat.le_of_succ_le_succ enough
  · exact ⟨b, a, below, rfl⟩

namespace Primitive

theorem apply_divide_zero (a : Int) (below : List Int) :
    divide.apply ⟨0 :: a :: below⟩ = .error (divisionFault a) :=
  rfl

theorem apply_divide {b : Int} (nonzero : b ≠ 0) (a : Int) (below : List Int) :
    divide.apply ⟨b :: a :: below⟩ = .ok ⟨a.tdiv b :: below⟩ :=
  if_neg nonzero

/-- Step by step a primitive has the effect that it has as a whole, and none where it fails. -/
theorem ofAct_act (p : Primitive) (s : Stack) :
    Effect.ofAct p.act s = .ofExcept s (p.apply s) := by
  by_cases short : s.depth < p.arity
  · rw [Effect.ofAct_of_error (run_act_of_lt short), apply_of_depth_lt short]
    rfl
  have enough : p.arity ≤ s.depth := Nat.le_of_not_lt short
  cases p with
  | add | subtract | multiply | swap =>
    obtain ⟨b, a, below, rfl⟩ := Stack.exists_of_two_le enough
    exact Effect.ofAct_of_ok (Act.run_exchange b a below _)
  | divide =>
    obtain ⟨b, a, below, rfl⟩ := Stack.exists_of_two_le enough
    have run := run_act_divide b a below
    by_cases zero : b = 0
    · subst zero
      rw [Effect.ofAct_of_error run, apply_divide_zero]
      rfl
    · rw [if_neg zero, quotient_eq_tdiv] at run
      rw [Effect.ofAct_of_ok run, apply_divide zero]
      rfl
  | duplicate =>
    obtain ⟨a, below, rfl⟩ := Stack.exists_of_one_le enough
    exact Effect.ofAct_of_ok (Act.run_bind_of_ok (Act.run_require enough) _)
  | drop =>
    obtain ⟨a, below, rfl⟩ := Stack.exists_of_one_le enough
    exact Effect.ofAct_of_ok (Act.run_bind_of_ok (Act.run_pop enough) _)
  | copySecond =>
    obtain ⟨b, a, below, rfl⟩ := Stack.exists_of_two_le enough
    exact Effect.ofAct_of_ok (Act.run_bind_of_ok (Act.run_require enough) _)

/-- What the arguments of a primitive are replaced by, both written from the bottom up. -/
def outcome : Primitive → List Int → List Int
  | add, [a, b] => [a + b]
  | subtract, [a, b] => [a - b]
  | multiply, [a, b] => [a * b]
  | divide, [a, b] => [a.tdiv b]
  | duplicate, [a] => [a, a]
  | drop, [_] => []
  | swap, [a, b] => [b, a]
  | copySecond, [a, b] => [a, b, a]
  | _, arguments => arguments

theorem exists_outcome_of_apply {p : Primitive} {s after : Stack}
    (applied : p.apply s = .ok after) :
    ∃ below arguments, s.toList = below ++ arguments ∧ arguments.length = p.arity ∧
      after.toList = below ++ p.outcome arguments := by
  have enough : p.arity ≤ s.depth := arity_le_of_apply applied
  cases p with
  | add | subtract | multiply | swap | copySecond =>
    obtain ⟨b, a, below, rfl⟩ := Stack.exists_of_two_le enough
    cases applied
    exact ⟨below.reverse, [a, b], by simp [Stack.toList], rfl, by simp [Stack.toList, outcome]⟩
  | divide =>
    obtain ⟨b, a, below, rfl⟩ := Stack.exists_of_two_le enough
    by_cases zero : b = 0
    · subst zero
      cases (apply_divide_zero a below).symm.trans applied
    · cases (apply_divide zero a below).symm.trans applied
      exact ⟨below.reverse, [a, b], by simp [Stack.toList], rfl, by simp [Stack.toList, outcome]⟩
  | duplicate | drop =>
    obtain ⟨a, below, rfl⟩ := Stack.exists_of_one_le enough
    cases applied
    exact ⟨below.reverse, [a], by simp [Stack.toList], rfl, by simp [Stack.toList, outcome]⟩

theorem apply_eq_error_iff {p : Primitive} {s : Stack} {fault : Fault} :
    p.apply s = .error fault ↔
      s.depth < p.arity ∧ fault = .underflow p.arity s.depth ∨
        p = .divide ∧ ∃ dividend below, s = ⟨0 :: dividend :: below⟩ ∧
          fault = divisionFault dividend := by
  constructor
  · intro failed
    rcases apply_eq_error failed with short | ⟨dividend, below, isDivide, values, told⟩
    · exact .inl short
    · exact .inr ⟨isDivide, dividend, below, values, told⟩
  · rintro (⟨short, told⟩ | ⟨rfl, dividend, below, rfl, told⟩)
    · rw [told, apply_of_depth_lt short]
    · rw [told, apply_divide_zero]

/-- A primitive fails where it has too few arguments, and a division also where the divisor is zero,
and then it leaves the stack as it was although nothing is put back. Where it goes through, the
values below its arguments stay, and what it makes of the arguments takes their place. -/
theorem exec_atomic (p : Primitive) (call : String → Stack → Effect) (s : Stack) :
    let after := Code.exec call (.primitive p) s
    after = Effect.ofAct p.act s ∧
      (∀ fault, after.fault? = some fault ↔
        s.depth < p.arity ∧ fault = .underflow p.arity s.depth ∨
          p = .divide ∧ ∃ dividend below, s = ⟨0 :: dividend :: below⟩ ∧
            (Numeral.Writable dividend ∧ fault = .divisionByZero dividend ∨
              ¬Numeral.Writable dividend ∧ fault = .numberTooLong)) ∧
      (after.fault? ≠ none → after.stack = s) ∧
      (after.fault? = none → ∃ below arguments, s.toList = below ++ arguments ∧
        arguments.length = p.arity ∧ after.stack.toList = below ++ p.outcome arguments) := by
  intro after
  have whole : after = .ofExcept s (p.apply s) := congrFun (Code.exec_primitive call p) s
  have stepwise : after = Effect.ofAct p.act s := whole.trans (p.ofAct_act s).symm
  simp only [← eq_divisionFault_iff, ← apply_eq_error_iff]
  cases applied : p.apply s with
  | error fault =>
    rw [applied, Effect.ofExcept] at whole
    refine ⟨stepwise, fun other => ?_, fun _ => ?_, fun done => ?_⟩
    · rw [whole, Effect.stopped, Option.some_inj, Except.error.injEq]
    · rw [whole, Effect.stopped]
    · rw [whole] at done
      cases done
  | ok left =>
    rw [applied, Effect.ofExcept] at whole
    refine ⟨stepwise, fun other => ?_, fun failed => ?_, fun _ => ?_⟩
    · rw [whole]
      exact iff_of_false (fun told => by cases told) (fun told => by cases told)
    · rw [whole] at failed
      exact absurd rfl failed
    · rw [whole]
      exact exists_outcome_of_apply applied

/-- The division fails, although its arguments could be taken away; exchanging them goes through. -/
theorem exec_atomic_zero_on_top :
    let s := Stack.ofList [5, -7, 0]
    let divided := Code.exec Dictionary.seeded.invoke (.primitive .divide) s
    let swapped := Code.exec Dictionary.seeded.invoke (.primitive .swap) s
    divided.fault? = some (.divisionByZero (-7)) ∧ divided.stack = s ∧ swapped.fault? = none ∧
      ∃ below arguments, s.toList = below ++ arguments ∧ arguments.length = 2 ∧
        swapped.stack.toList = below ++ outcome .swap arguments := by
  intro s divided swapped
  have failed : divided.fault? = some (.divisionByZero (-7)) := by decide +kernel
  have done : swapped.fault? = none := by decide +kernel
  obtain ⟨-, -, kept, -⟩ := exec_atomic .divide Dictionary.seeded.invoke s
  obtain ⟨-, -, -, replaced⟩ := exec_atomic .swap Dictionary.seeded.invoke s
  exact ⟨failed, kept (by simp [divided, failed]), done, replaced done⟩

end Primitive

end Forth
