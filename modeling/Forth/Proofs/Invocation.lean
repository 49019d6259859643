import Forth.Proofs.Soundness

/-! Calls on a sound dictionary. Flat code does the same whatever names are bound to, so calling a
word is executing what it opens to, and a part of flat code that fails leaves the stack alone. -/

namespace Forth

namespace Code

variable {call : String → Stack → Effect} {code : Code} {body : List Code}

theorem Flat.exec_eq (flat : code.Flat) (other : String → Stack → Effect) (s : Stack) :
    exec call code s = exec other code s := by
  cases flat with
  | literal bound => rw [exec, exec]
  | primitive p => rw [exec, exec]

theorem execAll_eq_of_flat (flat : ∀ code ∈ body, code.Flat) (other : String → Stack → Effect)
    (s : Stack) : execAll call body s = execAll other body s := by
  induction body generalizing s with
  | nil => rw [execAll, execAll]
  | cons code codes ih =>
    have first : exec call code s = exec other code s := (flat code (by simp)).exec_eq other s
    have later : execAll call codes = execAll other codes :=
      funext fun t => ih (fun part member => flat part (by simp [member])) t
    rw [execAll, execAll, first, later]

theorem Flat.stack_exec (flat : code.Flat) {s : Stack}
    (stopped : (exec call code s).fault? ≠ none) : (exec call code s).stack = s := by
  cases flat with
  | literal bound => exact absurd (by rw [exec]; rfl) stopped
  | primitive p =>
    rw [exec] at stopped ⊢
    cases result : p.apply s with
    | ok after => exact absurd (by rw [result]; rfl) stopped
    | error fault => rfl

theorem execAll_singleton (code : Code) (s : Stack) :
    execAll call [code] s = exec call code s := by
  rw [execAll, execAll_nil, Effect.andThen_done]

end Code

namespace Dictionary

variable {d : Dictionary} {name : String}

theorem invoke_of_lookup_eq_none (h : d.lookup name = none) (s : Stack) :
    d.invoke name s = .stopped (.unknownWord name) s := by
  rw [invoke, invokeWithin, h]

theorem Sound.invoke (sound : d.Sound) {code : Code} {body : List Code}
    (found : d.lookup name = some code) (opened : code.unbox = .ok body)
    (call : String → Stack → Effect) (s : Stack) : d.invoke name s = Code.execAll call body s := by
  rw [Dictionary.invoke, invokeWithin, found]
  show Code.exec (d.invokeWithin d.entries.length) code s = _
  cases sound.lookup found with
  | @primitive p _ =>
    cases opened
    rw [Code.execAll_singleton, Code.exec, Code.exec]
  | colon _ flat =>
    cases opened
    rw [Code.exec]
    -- A flat body makes no call, so nothing hangs on what a call would do.
    exact Code.execAll_eq_of_flat flat call s

theorem Sound.ofLexeme (sound : d.Sound) {lexeme key : String} {body : List Code}
    (found : d.lookup lexeme = some (.colon key body)) :
    Token.ofLexeme lexeme = .word (Text.upper lexeme) := by
  have bound := sound.lookup found
  rw [← Token.ofLexeme_upper]
  cases bound with
  | colon name _ => exact name

theorem lookup_upper (d : Dictionary) (name : String) :
    d.lookup (Text.upper name) = d.lookup name := by
  rw [lookup, lookup, Text.upper_upper]

end Dictionary

end Forth
