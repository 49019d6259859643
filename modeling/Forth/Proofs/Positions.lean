import Forth.Proofs.Atomicity

/-! Positions on a stack. Values are taken away from the top down, looked at by their depth below
the top, and looked at by negative depths from the bottom up. The three agree: what stands at a
depth is what is taken away last by taking one value more than the depth, and a depth is an index of
the values from the bottom up. -/

namespace Forth

namespace Act

/-- Makes sure of `n` values and takes them away one by one, none when `n` is negative. -/
def popMany (n : Int) : Act (List Int) := do
  ask (·.require n)
  popEach n.toNat

/-- The result of an operation as a whole, which leaves the stack alone where it fails. -/
def settled {α : Type} (s : Stack) : Except Fault (α × Stack) → EStateM.Result Fault Stack α
  | .ok (answer, after) => .ok answer after
  | .error fault => .error fault s

end Act

namespace Stack

variable {s : Stack} {n : Int}

theorem pop_eq_error_iff {fault : Fault} : s.pop n = .error fault ↔ s.depth < n ∧
    (Numeral.Writable n ∧ fault = .underflow n.toNat s.depth ∨
      ¬Numeral.Writable n ∧ fault = .numberTooLong) := by
  by_cases short : s.depth < n
  · rw [pop_eq_error short, Except.error.injEq, and_iff_right short, eq_comm]
    exact eq_ite_iff
  · rw [pop_eq_ok (Int.not_lt.1 short)]
    exact iff_of_false (fun failed => by cases failed) fun both => short both.1

/-- Taken away one by one, the values are those that are taken away as a whole, or none. -/
theorem run_popMany (n : Int) (s : Stack) : (Act.popMany n).run s = Act.settled s (s.pop n) := by
  by_cases short : s.depth < n
  · rw [Act.popMany, Act.run_bind_of_error (Act.run_ask_of_error (require_eq_error short)),
      pop_eq_error short]
    rfl
  · have enough : n ≤ s.depth := Int.not_lt.1 short
    rw [Act.popMany, Act.run_bind_of_ok (Act.run_ask_of_ok (require_eq_ok enough)),
      Act.run_popEach (Int.toNat_le.2 enough), pop_eq_ok enough]
    rfl

theorem foldl_push (values : List Int) (s : Stack) :
    values.foldl push s = ⟨values.reverse ++ s.values⟩ := by
  induction values generalizing s with
  | nil => rfl
  | cons value values ih =>
    rw [List.foldl_cons, ih, List.reverse_cons, List.append_assoc]
    rfl

/-- What is taken away stood on top, the top first, and can be pushed back in the other order. -/
theorem exists_of_pop (enough : n ≤ s.depth) : ∃ taken rest, s.pop n = .ok (taken, rest) ∧
    (taken.length : Int) = max n 0 ∧ s.toList = rest.toList ++ taken.reverse ∧
      taken.reverse.foldl push rest = s := by
  have whole : s.values.take n.toNat ++ s.values.drop n.toNat = s.values :=
    List.take_append_drop n.toNat s.values
  refine ⟨_, _, pop_eq_ok enough, ?_, ?_, ?_⟩
  · rw [List.length_take_of_le (Int.toNat_le.2 enough), Int.toNat_eq_max]
  · rw [toList, toList, ← List.reverse_append, whole]
  · rw [foldl_push, List.reverse_reverse, whole]

theorem pop_pop {m : Int} (n_nonneg : 0 ≤ n) (m_nonneg : 0 ≤ m) (enough : n + m ≤ s.depth) :
    ∃ first between second rest, s.pop n = .ok (first, between) ∧
      between.pop m = .ok (second, rest) ∧ s.pop (n + m) = .ok (first ++ second, rest) := by
  have left : m ≤ Stack.depth ⟨s.values.drop n.toNat⟩ := by
    rw [depth, List.length_drop]
    rw [depth] at enough
    omega
  refine ⟨_, _, _, _, pop_eq_ok (by omega), pop_eq_ok left, ?_⟩
  rw [pop_eq_ok enough, Int.toNat_add n_nonneg m_nonneg, List.take_add, List.drop_drop]

/-! ### Looking at values -/

/-- The item at an index, a negative one counting from the end. -/
def itemAt? (items : List Int) (j : Int) : Option Int :=
  let place := if j < 0 then items.length + j else j
  if place < 0 then none else items[place.toNat]?

theorem itemAt?_natCast (items : List Int) (k : Nat) : itemAt? items k = items[k]? := by
  have nonneg : ¬(k : Int) < 0 := by omega
  simp only [itemAt?, nonneg, if_false, Int.toNat_natCast]

theorem itemAt?_negSucc (items : List Int) (k : Nat) :
    itemAt? items (.negSucc k) = items.reverse[k]? := by
  have negative : Int.negSucc k < 0 := Int.negSucc_lt_zero k
  simp only [itemAt?, negative, if_true]
  by_cases inside : k < items.length
  · have place : (items.length + Int.negSucc k).toNat = items.length - 1 - k := by omega
    rw [if_neg (by omega), place, List.getElem?_reverse inside]
  · have outside : items.length ≤ k := Nat.le_of_not_lt inside
    rw [if_pos (by omega), List.getElem?_eq_none (by rwa [List.length_reverse])]

theorem peek_natCast (s : Stack) (k : Nat) :
    s.peek k = (s.values[k]?).elim (.error (absenceFault k)) .ok := by
  rw [← Int.ofNat_eq_natCast, peek]
  cases s.values[k]? <;> rfl

theorem elim_eq_ok_iff {found : Option Int} {fault : Fault} {value : Int} :
    found.elim (.error fault) .ok = Except.ok value ↔ found = some value := by
  cases found with
  | none => exact iff_of_false (fun same => by cases same) fun same => by cases same
  | some other => rw [Option.elim, Except.ok.injEq, Option.some_inj]

theorem peek_natCast_eq_ok_iff {k : Nat} {value : Int} :
    s.peek k = .ok value ↔ s.values[k]? = some value := by
  rw [peek_natCast, elim_eq_ok_iff]

theorem peek_negSucc (s : Stack) (k : Nat) :
    s.peek (.negSucc k) = (s.toList[k]?).elim (.error (absenceFault (.negSucc k))) .ok := by
  rw [peek]
  cases s.toList[k]? <;> rfl

/-- Looking at a depth is looking at an index of the values from the bottom up. -/
theorem peek_eq_itemAt? (s : Stack) (i : Int) :
    s.peek i = (itemAt? s.toList (-(i + 1))).elim (.error (absenceFault i)) .ok := by
  cases i with
  | ofNat k =>
    have index : -(Int.ofNat k + 1) = .negSucc k := (Int.negSucc_eq k).symm
    rw [index, itemAt?_negSucc, toList, List.reverse_reverse]
    exact peek_natCast s k
  | negSucc k =>
    have index : -(Int.negSucc k + 1) = k := by omega
    rw [index, itemAt?_natCast]
    exact peek_negSucc s k

/-- What stands at a depth is taken away last of the values down to it. -/
theorem peek_of_nonneg {i : Int} (nonneg : 0 ≤ i) (inside : i < s.depth) :
    ∃ taken rest value, s.pop (i + 1) = .ok (taken, rest) ∧ taken.getLast? = some value ∧
      s.peek i = .ok value := by
  obtain ⟨k, rfl⟩ := Int.eq_ofNat_of_zero_le nonneg
  have within : k < s.values.length := Int.ofNat_lt.1 inside
  have found := List.getElem?_eq_getElem within
  refine ⟨_, _, s.values[k], pop_eq_ok inside, ?_, ?_⟩
  · have taken : ((k : Int) + 1).toNat = k + 1 := by omega
    rw [taken, List.take_add_one, found]
    exact List.getLast?_concat
  · rw [peek_natCast, found]
    rfl

/-- What is counted from the bottom stays where it is, whatever is pushed. -/
theorem peek_of_neg {i : Int} (above : -s.depth ≤ i) (negative : i < 0) :
    ∃ value, s.toList[(-i - 1).toNat]? = some value ∧
      ∀ pushed : List Int, (pushed.foldl push s).peek i = .ok value := by
  obtain ⟨k, rfl⟩ := Int.eq_negSucc_of_lt_zero negative
  have index : (-Int.negSucc k - 1).toNat = k := by omega
  have within : k < s.toList.length := by
    rw [length_toList]
    omega
  have found := List.getElem?_eq_getElem within
  refine ⟨s.toList[k], by rw [index, found], fun pushed => ?_⟩
  have longer : (pushed.foldl push s).toList = s.toList ++ pushed := by
    rw [foldl_push, toList, List.reverse_append, List.reverse_reverse, toList]
  rw [peek_negSucc, longer, List.getElem?_append_left within, found]
  rfl

theorem elim_eq_error_iff {found : Option Int} {missing fault : Fault} :
    found.elim (.error missing) .ok = Except.error (α := Int) fault ↔
      found = none ∧ fault = missing := by
  cases found with
  | none => rw [Option.elim, Except.error.injEq, eq_comm, and_iff_right rfl]
  | some value => exact iff_of_false (fun same => by cases same) fun both => by cases both.1

theorem peek_eq_error_iff (i : Int) (fault : Fault) : s.peek i = .error fault ↔
    (i < -s.depth ∨ s.depth ≤ i) ∧
      ((-reach ≤ i ∧ i < reach) ∧ fault = .noSuchValue ∨
        ¬(-reach ≤ i ∧ i < reach) ∧ fault = .outOfReach) := by
  have told : fault = absenceFault i ↔ (-reach ≤ i ∧ i < reach) ∧ fault = .noSuchValue ∨
      ¬(-reach ≤ i ∧ i < reach) ∧ fault = .outOfReach := eq_ite_iff
  rw [← told]
  cases i with
  | ofNat k =>
    rw [Int.ofNat_eq_natCast, peek_natCast, elim_eq_error_iff, List.getElem?_eq_none_iff, depth]
    exact and_congr_left fun _ => by omega
  | negSucc k =>
    rw [peek_negSucc, elim_eq_error_iff, List.getElem?_eq_none_iff, length_toList]
    exact and_congr_left fun _ => by omega

/-- Taking away `n` values fails just if there are fewer, and then leaves the stack as it was
although they are taken one by one; the fault is that of a stack with too few values if `n` can be
written, and that of a number too long if it cannot. Else the topmost values are given, the top
first, and pushing these back in the other order restores the stack. Taking away twice is taking
away as many at once. Looking at a depth finds the last value that is taken away down to it, looking
at a negative one counts from the bottom and does not hang on what is pushed, and looking elsewhere
fails. -/
theorem positions_agree (s : Stack) (n m i : Int) :
    (Act.popMany n).run s = Act.settled s (s.pop n) ∧
    (∀ fault, s.pop n = .error fault ↔ s.depth < n ∧
      (Numeral.Writable n ∧ fault = .underflow n.toNat s.depth ∨
        ¬Numeral.Writable n ∧ fault = .numberTooLong)) ∧
    (n ≤ s.depth → ∃ taken rest, s.pop n = .ok (taken, rest) ∧ (taken.length : Int) = max n 0 ∧
      s.toList = rest.toList ++ taken.reverse ∧ taken.reverse.foldl push rest = s) ∧
    (0 ≤ n → 0 ≤ m → n + m ≤ s.depth → ∃ first between second rest,
      s.pop n = .ok (first, between) ∧ between.pop m = .ok (second, rest) ∧
        s.pop (n + m) = .ok (first ++ second, rest)) ∧
    (0 ≤ i → i < s.depth → ∃ taken rest value,
      s.pop (i + 1) = .ok (taken, rest) ∧ taken.getLast? = some value ∧ s.peek i = .ok value) ∧
    (-s.depth ≤ i → i < 0 → ∃ value, s.toList[(-i - 1).toNat]? = some value ∧
      ∀ pushed : List Int, (pushed.foldl push s).peek i = .ok value) ∧
    (∀ fault, s.peek i = .error fault ↔ (i < -s.depth ∨ s.depth ≤ i) ∧
      ((-reach ≤ i ∧ i < reach) ∧ fault = .noSuchValue ∨
        ¬(-reach ≤ i ∧ i < reach) ∧ fault = .outOfReach)) ∧
    s.peek i = (itemAt? s.toList (-(i + 1))).elim (.error (absenceFault i)) .ok :=
  ⟨run_popMany n s, fun _ => pop_eq_error_iff, exists_of_pop, pop_pop, peek_of_nonneg, peek_of_neg,
    peek_eq_error_iff i, peek_eq_itemAt? s i⟩

/-- The depth next to the bottom, counted both ways, and one value more than there are. -/
theorem positions_agree_four :
    let s := Stack.ofList [5, -7, 0, 3]
    ((1 : Int) ≤ s.depth ∧ ∃ taken rest, s.pop 1 = .ok (taken, rest) ∧
      s.toList = rest.toList ++ taken.reverse ∧ taken.reverse.foldl push rest = s) ∧
    ((0 : Int) ≤ 1 ∧ (0 : Int) ≤ 2 ∧ (1 : Int) + 2 ≤ s.depth ∧ ∃ first between second rest,
      s.pop 1 = .ok (first, between) ∧ between.pop 2 = .ok (second, rest) ∧
        s.pop 3 = .ok (first ++ second, rest)) ∧
    ((0 : Int) ≤ 2 ∧ (2 : Int) < s.depth ∧ s.peek 2 = .ok (-7)) ∧
    (-s.depth ≤ (-2 : Int) ∧ (-2 : Int) < 0 ∧ ((s.push 8).push 9).peek (-2) = .ok (-7)) ∧
    (Act.popMany 5).run s = .error (.underflow 5 4) s ∧ s.peek 4 = .error .noSuchValue := by
  intro s
  obtain ⟨-, -, popped, twice, above, -, -, -⟩ := positions_agree s 1 2 2
  obtain ⟨stepwise, short, -, -, -, below, -, -⟩ := positions_agree s 5 0 (-2)
  obtain ⟨-, -, -, -, -, -, outside, -⟩ := positions_agree s 0 0 4
  obtain ⟨taken, rest, pop, -, whole, back⟩ := popped (by decide)
  have twice := twice (by decide) (by decide) (by decide)
  obtain ⟨_, _, third, three, last, looked⟩ := above (by decide) (by decide)
  obtain ⟨second, found, same⟩ := below (by decide) (by decide)
  obtain rfl : third = -7 := by
    cases three
    exact (Option.some.inj last).symm
  obtain rfl : second = -7 := (Option.some.inj found).symm
  rw [(short _).2 ⟨by decide, .inl ⟨by decide +kernel, rfl⟩⟩] at stepwise
  exact ⟨⟨by decide, taken, rest, pop, whole, back⟩, ⟨by decide, by decide, by decide, twice⟩,
    ⟨by decide, by decide, looked⟩, ⟨by decide, by decide, same [8, 9]⟩, stepwise,
    (outside _).2 ⟨.inr (by decide), .inl ⟨by decide, rfl⟩⟩⟩

/-- Far more values are asked for than there are, and yet that is not what the fault is about. -/
theorem pop_far_too_many :
    let s := Stack.ofList [1]
    let n : Int := (10 ^ Numeral.digitLimit : Nat)
    s.pop n = .error .numberTooLong ∧
      ¬(s.depth < n ↔ ∃ fault, s.pop n = .error fault ∧ fault.family? = some .stackUnderflow) := by
  intro s n
  have short : s.depth < n := Int.ofNat_lt.2 (Nat.one_lt_pow (by decide) (by decide))
  have long : ¬Numeral.Writable n := by
    rw [Numeral.writable_iff, Int.natAbs_natCast]
    exact Nat.lt_irrefl _
  have failed : s.pop n = .error .numberTooLong := pop_eq_error_iff.2 ⟨short, .inr ⟨long, rfl⟩⟩
  refine ⟨failed, fun same => ?_⟩
  obtain ⟨fault, other, family⟩ := same.1 short
  cases Except.error.inj (failed.symm.trans other)
  cases family

end Stack

end Forth
