import Forth.Dictionary

/-! What code does to a stack. A fault stops the execution and keeps the stack as it was left until
then. Names are looked up when they are reached, so a word can refer to itself; such a word is found
out by the depth of its calls, which otherwise never passes the number of entries. -/

namespace Forth

/-- A stack after some execution, and the fault that stopped it. -/
structure Effect where
  stack : Stack
  fault? : Option Fault
  deriving DecidableEq, Repr

namespace Effect

def done (s : Stack) : Effect := ⟨s, none⟩

def stopped (fault : Fault) (s : Stack) : Effect := ⟨s, some fault⟩

/-- An effect that takes place as a whole or not at all. -/
def ofExcept (s : Stack) : Except Fault Stack → Effect
  | .ok after => done after
  | .error fault => stopped fault s

/-- Goes on from where an execution went through. -/
def andThen (effect : Effect) (next : Stack → Effect) : Effect :=
  match effect.fault? with
  | none => next effect.stack
  | some _ => effect

@[simp] theorem done_andThen (s : Stack) (next : Stack → Effect) :
    (done s).andThen next = next s := rfl

@[simp] theorem stopped_andThen (fault : Fault) (s : Stack) (next : Stack → Effect) :
    (stopped fault s).andThen next = stopped fault s := rfl

@[simp] theorem andThen_done (effect : Effect) : effect.andThen done = effect := by
  obtain ⟨s, _ | fault⟩ := effect <;> rfl

theorem andThen_assoc (effect : Effect) (next last : Stack → Effect) :
    (effect.andThen next).andThen last = effect.andThen fun s => (next s).andThen last := by
  obtain ⟨s, _ | fault⟩ := effect <;> rfl

end Effect

namespace Code

mutual

/-- Executes a piece of code, given what executing a name does. -/
def exec (call : String → Stack → Effect) : Code → Stack → Effect
  | literal value, s => .done (s.push value)
  | Code.call name, s => call name s
  | primitive p, s => .ofExcept s (p.apply s)
  | inert name _, s => .stopped (.notExecutable name) s
  | colon _ body, s => execAll call body s

def execAll (call : String → Stack → Effect) : List Code → Stack → Effect
  | [], s => .done s
  | code :: codes, s => (exec call code s).andThen (execAll call codes)

end

section

variable (call : String → Stack → Effect)

theorem exec_literal (value : Int) :
    exec call (.literal value) = fun s => .done (s.push value) :=
  funext fun s => by rw [exec]

theorem exec_primitive (p : Primitive) :
    exec call (.primitive p) = fun s => .ofExcept s (p.apply s) :=
  funext fun s => by rw [exec]

theorem execAll_nil : execAll call [] = .done :=
  funext fun s => by rw [execAll]

theorem execAll_cons (code : Code) (codes : List Code) :
    execAll call (code :: codes) = fun s => (exec call code s).andThen (execAll call codes) :=
  funext fun s => by rw [execAll]

end

theorem execAll_append (call : String → Stack → Effect) (before after : List Code) (s : Stack) :
    execAll call (before ++ after) s = (execAll call before s).andThen (execAll call after) := by
  induction before generalizing s with
  | nil => simp [execAll]
  | cons code codes ih =>
    simp only [List.cons_append, execAll, Effect.andThen_assoc]
    congr
    funext t
    exact ih t

end Code

namespace Dictionary

/-- Executes a name with at most `depth` calls under way. A word that refers to itself is stopped
there, also where it would come to an end by another fault after more calls. -/
def invokeWithin (d : Dictionary) : Nat → String → Stack → Effect
  | 0, name, s => .stopped (.circular name) s
  | depth + 1, name, s =>
    match d.lookup name with
    | some code => code.exec (d.invokeWithin depth) s
    | none => .stopped (.unknownWord name) s

/-- Executes what a name is bound to. A chain of calls without a repetition visits every entry
once at most, and then perhaps a name without one. -/
def invoke (d : Dictionary) (name : String) (s : Stack) : Effect :=
  d.invokeWithin (d.entries.length + 1) name s

def exec (d : Dictionary) (code : Code) (s : Stack) : Effect :=
  code.exec d.invoke s

end Dictionary

end Forth
