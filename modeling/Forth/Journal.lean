import Forth.Fault

/-! The journal that runs write: the words they define and the reports that stop them. -/

namespace Forth

inductive Notice where
  /-- A word was defined, with the texts of its body. -/
  | defined (name : String) (body : List String)
  | stopped (report : Report)
  deriving DecidableEq, Repr

def Notice.line : Notice → String
  | defined name body =>
    "DEBUG compiler: defined " ++ name ++ " as [" ++ " ".intercalate body ++ "]"
  | stopped report =>
    "DEBUG evaluator: evaluation stopped by " ++ report.family.name ++ ": " ++ report.message

end Forth
