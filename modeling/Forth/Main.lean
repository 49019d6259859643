import Forth.Console

/-! The console on standard input and output. -/

namespace Forth.Console

/-- Prints what a run did. A fault that stopped it is told on standard error. -/
def print (run : Run Item) : IO Bool := do
  let stdout ← IO.getStdout
  stdout.putStr (output run)
  stdout.flush
  match run.fault? with
  | none => return true
  | some fault =>
    IO.eprintln fault.message
    return false

/-- Asks for lines and answers them until the input ends or a fault ends the session. The result
is the exit code. -/
partial def attend (settings : Settings) (m : Machine) : IO UInt32 := do
  unless ← print (ask settings m) do return 1
  let line ← (← IO.getStdin).getLine
  if line.isEmpty then
    let _ ← print (.wrote [.farewell] m)
    return 0
  let run := answer (if line.back = '\n' then (line.dropEnd 1).toString else line) m
  unless ← print run do return 1
  attend settings run.machine

end Forth.Console

open Forth.Console in
def main : IO UInt32 := do
  let run := greet .fresh
  let _ ← print run
  attend {} run.machine
