import Forth.Stack

/-! The primitives: the words that the language brings along. Each looks at the topmost values only
and checks all it needs before it changes anything. -/

namespace Forth

inductive Primitive where
  | add
  | subtract
  | multiply
  | divide
  | duplicate
  | drop
  | swap
  | copySecond
  deriving DecidableEq, Repr

namespace Primitive

def all : List Primitive :=
  [.add, .subtract, .multiply, .divide, .duplicate, .drop, .swap, .copySecond]

def name : Primitive → String
  | add => "+"
  | subtract => "-"
  | multiply => "*"
  | divide => "/"
  | duplicate => "DUP"
  | drop => "DROP"
  | swap => "SWAP"
  | copySecond => "OVER"

/-- The stack before and after, the top to the right. -/
def comment : Primitive → String
  | add => "a b -- a+b"
  | subtract => "a b -- a-b"
  | multiply => "a b -- a*b"
  | divide => "a b -- a/b"
  | duplicate => "a -- a a"
  | drop => "a --"
  | swap => "a b -- b a"
  | copySecond => "a b -- a b a"

def ofName? (name : String) : Option Primitive :=
  all.find? (·.name = name)

/-- How many values must be on the stack. -/
def arity : Primitive → Nat
  | add | subtract | multiply | divide | swap | copySecond => 2
  | duplicate | drop => 1

/-- The fault of dividing by zero, which names the dividend if it can be written. -/
def divisionFault (dividend : Int) : Fault :=
  if Numeral.Writable dividend then .divisionByZero dividend else .numberTooLong

/-- The stack after the primitive. Quotients are rounded toward zero. -/
def apply (p : Primitive) (s : Stack) : Except Fault Stack :=
  match p, s.values with
  | add, b :: a :: below => .ok ⟨(a + b) :: below⟩
  | subtract, b :: a :: below => .ok ⟨(a - b) :: below⟩
  | multiply, b :: a :: below => .ok ⟨(a * b) :: below⟩
  | divide, b :: a :: below =>
    if b = 0 then .error (divisionFault a) else .ok ⟨a.tdiv b :: below⟩
  | duplicate, a :: below => .ok ⟨a :: a :: below⟩
  | drop, _ :: below => .ok ⟨below⟩
  | swap, b :: a :: below => .ok ⟨a :: b :: below⟩
  | copySecond, b :: a :: below => .ok ⟨a :: b :: a :: below⟩
  | p, values => .error (.underflow p.arity values.length)

end Primitive

end Forth
