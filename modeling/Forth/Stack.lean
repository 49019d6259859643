import Forth.Fault

/-! The stack of integers. Every operation that can fail leaves the stack as it was when it does. -/

namespace Forth

/-- A stack of integers, written from the top down. -/
structure Stack where
  values : List Int
  deriving DecidableEq, Repr

namespace Stack

def empty : Stack := ⟨[]⟩

def depth (s : Stack) : Nat := s.values.length

/-- The values from the bottom up. -/
def toList (s : Stack) : List Int := s.values.reverse

/-- The stack of the given values, the last one on top. -/
def ofList (values : List Int) : Stack := ⟨values.reverse⟩

def push (s : Stack) (value : Int) : Stack := ⟨value :: s.values⟩

@[simp] theorem toList_empty : empty.toList = [] := rfl

@[simp] theorem toList_push (s : Stack) (value : Int) :
    (s.push value).toList = s.toList ++ [value] :=
  List.reverse_cons

@[simp] theorem toList_ofList (values : List Int) : (ofList values).toList = values :=
  List.reverse_reverse values

@[simp] theorem ofList_toList (s : Stack) : ofList s.toList = s := by
  simp [ofList, toList]

@[simp] theorem length_toList (s : Stack) : s.toList.length = s.depth :=
  List.length_reverse

@[simp] theorem depth_push (s : Stack) (value : Int) : (s.push value).depth = s.depth + 1 := rfl

/-- The fault of needing `n` values where fewer are available. It tells the number, if that can be
written. -/
def shortageFault (n : Int) (available : Nat) : Fault :=
  if Numeral.Writable n then .underflow n.toNat available else .numberTooLong

/-- Fails unless at least `n` values are on the stack. -/
def require (s : Stack) (n : Int) : Except Fault Unit :=
  if s.depth < n then .error (shortageFault n s.depth) else .ok ()

/-- Takes the `n` topmost values away, none when `n` is negative, and gives them top first. -/
def pop (s : Stack) (n : Int) : Except Fault (List Int × Stack) := do
  s.require n
  return (s.values.take n.toNat, ⟨s.values.drop n.toNat⟩)

/-- How far away a position can be told: in a word of 64 bits, of which one is for the sign. -/
def reach : Nat := Nat.pow 2 63

/-- The fault of looking for a value at a depth where there is none. -/
def absenceFault (i : Int) : Fault :=
  if -reach ≤ i ∧ i < reach then .noSuchValue else .outOfReach

/-- The value at depth `i`, the top one having depth 0. Negative depths count from the bottom,
which has depth -1. -/
def peek (s : Stack) (i : Int) : Except Fault Int :=
  let found := match i with
    | .ofNat k => s.values[k]?
    | .negSucc k => s.toList[k]?
  match found with
  | some value => .ok value
  | none => .error (absenceFault i)

section

variable {s : Stack} {n : Int}

theorem require_eq_ok (enough : n ≤ s.depth) : s.require n = .ok () :=
  if_neg (Int.not_lt.2 enough)

theorem require_eq_error (short : s.depth < n) :
    s.require n = .error (shortageFault n s.depth) :=
  if_pos short

theorem pop_eq_ok (enough : n ≤ s.depth) :
    s.pop n = .ok (s.values.take n.toNat, ⟨s.values.drop n.toNat⟩) := by
  rw [pop, require_eq_ok enough]
  rfl

theorem pop_eq_error (short : s.depth < n) : s.pop n = .error (shortageFault n s.depth) := by
  rw [pop, require_eq_error short]
  rfl

end

end Stack

end Forth
