import Forth.Proofs.Positions
import Forth.Proofs.Replay
import Forth.Proofs.Session
import Mathlib.Data.List.Induction

/-! What a listing says of the stack. Its rows can be counted down as they are printed, and the
count is right: a label is the position of the value beside it, the top one having position 1. The
mark between the bottom value and the others means that something is hidden, except where a stack is
deeper by one value than the number of topmost values: then the bottom one is the only other. -/

namespace Forth.Console

open Text (Colour shownNumber)

/-! ### Lines -/

theorem Row.line_value_inj {label other : Nat} {shown otherShown : Int}
    (same : (value label shown).line = (value other otherShown).line) :
    label = other ∧ shown = otherShown := by
  have lists := congrArg String.toList same
  have spaced : " :".toList = ' ' :: ":".toList := by decide
  simp only [line, Colour.paint, String.toList_append, List.append_assoc, spaced, List.cons_append,
    List.append_right_inj] at lists
  have labels : (toString label).toList = (toString other).toList := by
    have ends := congrArg (List.takeWhile (· ≠ ' ')) lists
    rwa [Text.takeWhile_toString_append_space, Text.takeWhile_toString_append_space] at ends
  obtain rfl : label = other := Numeral.repr_injective (String.toList_inj.1 labels)
  simp only [List.append_right_inj, List.cons.injEq, true_and, ← List.append_assoc,
    List.append_left_inj, shownNumber] at lists
  have digits := (Colour.paint_eq_iff.1 (String.toList_inj.1 lists)).2
  exact ⟨rfl, Numeral.int_repr_injective digits⟩

/-- Where a row of a value has the first digit of its label, the mark has a dot. -/
theorem Row.line_value_ne_ellipsis (label : Nat) (shown : Int) :
    (value label shown).line ≠ ellipsis.line := by
  intro same
  have lists := congrArg String.toList same
  have dots : "  ...\r\t\t...".toList = "  ".toList ++ '.' :: "..\r\t\t...".toList := by decide
  simp only [line, Colour.paint, String.toList_append, List.append_assoc, List.append_right_inj,
    dots] at lists
  have digits := Numeral.forall_isDigit (Numeral.isNumeral_repr label)
  obtain ⟨first, others, cut⟩ := List.exists_cons_of_ne_nil (l := (Nat.repr label).toList) (by simp)
  change (Nat.repr label).toList ++ _ = _ at lists
  rw [cut] at lists digits
  obtain ⟨dot, -⟩ := List.cons.inj lists
  exact absurd (digits first List.mem_cons_self) (by rw [dot]; decide)

theorem Row.line_injective : Function.Injective line := by
  intro row other same
  cases row with
  | value label shown =>
    cases other with
    | value otherLabel otherShown =>
      obtain ⟨rfl, rfl⟩ := line_value_inj same
      rfl
    | ellipsis => exact absurd same (line_value_ne_ellipsis label shown)
  | ellipsis =>
    cases other with
    | value label shown => exact absurd same.symm (line_value_ne_ellipsis label shown)
    | ellipsis => rfl

/-! ### The rows counted down -/

/-- The rows of values from the bottom up, under labels that count down from `label`. -/
def countDown : Nat → List Int → List Row
  | _, [] => []
  | label, value :: values => .value label value :: countDown (label - 1) values

/-- The values that are shown one after the other, from the bottom up. -/
def topmost (s : Stack) : List Int :=
  s.toList.drop (s.depth - shownDepth)

/-- The rows of a stack as they are counted: from the depth down, or if the stack is too deep for
that, from the number of topmost values down once the bottom value and the mark are there. -/
def counted (s : Stack) : List Row :=
  if shownDepth < s.depth then
    s.toList.head?.toList.map (.value s.depth) ++ .ellipsis :: countDown shownDepth (topmost s)
  else
    countDown s.depth (topmost s)

theorem reverse_topmost (s : Stack) : (topmost s).reverse = s.values.take shownDepth := by
  rw [topmost, Stack.toList, Stack.depth, ← List.reverse_take, List.reverse_reverse]

theorem length_topmost (s : Stack) : (topmost s).length = min shownDepth s.depth := by
  rw [← List.length_reverse, reverse_topmost, List.length_take, Stack.depth]

theorem map_zipIdx_eq_countDown (values : List Int) :
    ((values.zipIdx 1).reverse.map fun (shown, label) => Row.value label shown) =
      countDown values.length values.reverse := by
  induction values using List.reverseRecOn with
  | nil => rfl
  | append_singleton values value ih =>
    rw [List.zipIdx_append, List.reverse_append, List.reverse_append, List.length_append]
    simp [countDown, ih, Nat.add_comm]

theorem rows_eq_counted (s : Stack) : rows s = counted s := by
  have taken : (s.values.take shownDepth).reverse = topmost s := by
    rw [← reverse_topmost, List.reverse_reverse]
  have bottom : s.toList.head? = s.values.getLast? := List.head?_reverse
  have depth : s.values.length = s.depth := rfl
  simp only [rows, counted, map_zipIdx_eq_countDown, taken, bottom, List.length_take, depth]
  by_cases deep : shownDepth < s.depth
  · rw [Nat.min_eq_left (Nat.le_of_lt deep), if_pos deep]
    cases found : s.values.getLast? with
    | none =>
      rw [Stack.depth, List.getLast?_eq_none_iff.1 found] at deep
      cases deep
    | some value => exact if_pos deep
  · rw [Nat.min_eq_right (Nat.not_lt.1 deep), if_neg deep]
    cases s.values.getLast? with
    | none => rfl
    | some value => exact if_neg deep

/-! ### Labels -/

def Row.label? : Row → Option Nat
  | value label _ => some label
  | ellipsis => none

/-- The labels of the rows in order. -/
def labels (rows : List Row) : List Nat := rows.filterMap Row.label?

theorem mem_labels_iff {rows : List Row} {label : Nat} :
    label ∈ labels rows ↔ ∃ shown, .value label shown ∈ rows := by
  rw [labels, List.mem_filterMap]
  constructor
  · rintro ⟨_ | _, member, same⟩
    · cases same
      exact ⟨_, member⟩
    · cases same
  · rintro ⟨shown, member⟩
    exact ⟨_, member, rfl⟩

theorem labels_countDown (values : List Int) :
    labels (countDown values.length values) = (List.range' 1 values.length).reverse := by
  induction values with
  | nil => rfl
  | cons value values ih =>
    rw [List.length_cons, List.range'_1_concat, List.reverse_append, ← ih]
    simp [countDown, labels, Row.label?, Nat.add_comm]

/-- Under a count that starts with the number of values, each label is the position of its value,
counted from the last one. -/
theorem mem_countDown_iff {values : List Int} {label : Nat} {shown : Int} :
    .value label shown ∈ countDown values.length values ↔
      1 ≤ label ∧ values.reverse[label - 1]? = some shown := by
  induction values with
  | nil => simp [countDown]
  | cons value values ih =>
    rw [List.length_cons, countDown, List.mem_cons, Nat.add_sub_cancel, ih, List.reverse_cons,
      List.getElem?_append, List.length_reverse, Row.value.injEq]
    split
    case isTrue inside => exact or_iff_right fun both => by omega
    case isFalse outside =>
      have none : values.reverse[label - 1]? = none :=
        List.getElem?_eq_none (by rw [List.length_reverse]; omega)
      rw [none, List.getElem?_singleton, or_iff_left (by simp)]
      split
      case isTrue first =>
        have place : label = values.length + 1 ↔ 1 ≤ label := by omega
        rw [place, Option.some_inj, eq_comm (a := shown)]
      case isFalse beyond => exact iff_of_false (by omega) (by simp)

theorem ellipsis_not_mem_countDown (label : Nat) (values : List Int) :
    .ellipsis ∉ countDown label values := by
  induction values generalizing label with
  | nil => simp [countDown]
  | cons value values ih => simp [countDown, ih]

/-! ### Rows of a stack -/

section

variable {s : Stack} {label : Nat} {shown : Int}

theorem peek_label_iff (positive : 1 ≤ label) :
    s.peek (label - 1) = .ok shown ↔ s.values[label - 1]? = some shown := by
  have place : (label : Int) - 1 = (label - 1 : Nat) := by omega
  rw [place, Stack.peek_natCast_eq_ok_iff]

theorem rows_of_shallow (shallow : s.depth ≤ shownDepth) :
    rows s = countDown (topmost s).length (topmost s) := by
  rw [rows_eq_counted, counted, if_neg (Nat.not_lt.2 shallow), length_topmost,
    Nat.min_eq_right shallow]

theorem rows_of_deep (deep : shownDepth < s.depth) : ∃ bottom, s.peek (-1) = .ok bottom ∧
    s.values[s.depth - 1]? = some bottom ∧
    rows s = .value s.depth bottom :: .ellipsis :: countDown (topmost s).length (topmost s) := by
  have nonempty : s.toList ≠ [] := by
    rw [← List.length_pos_iff, Stack.length_toList]
    omega
  obtain ⟨bottom, others, cut⟩ := List.exists_cons_of_ne_nil nonempty
  have last : s.values[s.depth - 1]? = some bottom := by
    rw [Stack.depth, ← List.getLast?_eq_getElem?, ← List.head?_reverse, ← Stack.toList, cut,
      List.head?_cons]
  refine ⟨bottom, ?_, last, ?_⟩
  · rw [show (-1 : Int) = .negSucc 0 from rfl, Stack.peek_negSucc, cut]
    rfl
  · rw [rows_eq_counted, counted, if_pos deep, cut, length_topmost,
      Nat.min_eq_left (Nat.le_of_lt deep)]
    rfl

theorem labels_rows (s : Stack) :
    labels (rows s) = (if shownDepth < s.depth then [s.depth] else []) ++
      (List.range' 1 (min shownDepth s.depth)).reverse := by
  rw [← length_topmost, ← labels_countDown]
  split
  case isTrue deep =>
    obtain ⟨bottom, -, -, cut⟩ := rows_of_deep deep
    rw [cut]
    rfl
  case isFalse shallow => rw [rows_of_shallow (Nat.not_lt.1 shallow), List.nil_append]

theorem pairwise_labels_rows (s : Stack) : (labels (rows s)).Pairwise (· > ·) := by
  rw [labels_rows, List.pairwise_append]
  refine ⟨by split <;> simp, List.pairwise_reverse.2 List.pairwise_lt_range', ?_⟩
  intro first opens label member
  split at opens
  case isTrue deep =>
    have places := List.mem_range'_1.1 (List.mem_reverse.1 member)
    rw [List.mem_singleton.1 opens]
    omega
  case isFalse => cases opens

theorem getLast?_labels_rows (nonempty : s.depth ≠ 0) :
    (labels (rows s)).getLast? = some 1 := by
  have positive : 0 < min shownDepth s.depth :=
    Nat.lt_min.2 ⟨by decide, Nat.pos_of_ne_zero nonempty⟩
  obtain ⟨others, count⟩ := Nat.exists_eq_add_of_lt positive
  rw [labels_rows, count, Nat.zero_add, List.range'_succ, List.reverse_cons, ← List.append_assoc,
    List.getLast?_concat]

theorem of_mem_topmost (member : .value label shown ∈ countDown (topmost s).length (topmost s)) :
    1 ≤ label ∧ s.values[label - 1]? = some shown := by
  obtain ⟨positive, found⟩ := mem_countDown_iff.1 member
  rw [reverse_topmost, List.getElem?_take] at found
  split at found
  case isTrue => exact ⟨positive, found⟩
  case isFalse => cases found

/-- Each label is the position of the value beside it. -/
theorem peek_of_mem_rows (member : .value label shown ∈ rows s) :
    1 ≤ label ∧ s.peek (label - 1) = .ok shown := by
  suffices found : 1 ≤ label ∧ s.values[label - 1]? = some shown from
    ⟨found.1, (peek_label_iff found.1).2 found.2⟩
  by_cases deep : shownDepth < s.depth
  · obtain ⟨bottom, -, last, cut⟩ := rows_of_deep deep
    rw [cut] at member
    rcases List.mem_cons.1 member with isBottom | later
    · cases isBottom
      exact ⟨Nat.zero_lt_of_lt deep, last⟩
    · rcases List.mem_cons.1 later with isMark | isTop
      · cases isMark
      · exact of_mem_topmost isTop
  · rw [rows_of_shallow (Nat.not_lt.1 deep)] at member
    exact of_mem_topmost member

theorem ellipsis_mem_rows_iff : .ellipsis ∈ rows s ↔ shownDepth < s.depth := by
  by_cases deep : shownDepth < s.depth
  · obtain ⟨bottom, -, -, cut⟩ := rows_of_deep deep
    exact iff_of_true (by simp [cut]) deep
  · rw [rows_of_shallow (Nat.not_lt.1 deep)]
    exact iff_of_false (ellipsis_not_mem_countDown _ _) deep

end

/-! ### Printing -/

theorem mem_values_of_shows {s : Stack} {value : Int} (shows : Shows s value) :
    value ∈ s.values :=
  shows.elim List.mem_of_mem_take fun bottom => List.mem_of_getLast? bottom.2

theorem printStack_eq_wrote (m : Machine)
    (writable : ∀ value, Shows m.stack value → Numeral.Writable value) :
    printStack m = .wrote (listing m.stack) m := by
  obtain ⟨follows, machine⟩ := follows_printStack m
  have done := follows.fault?.2 writable
  have written := follows.whole done
  rcases run : printStack m with ⟨after, items, fault?⟩
  simp only [run] at done written machine
  rw [done, written, machine]
  rfl

theorem output_listing (m : Machine) :
    output (.wrote (listing m.stack) m) =
      Item.heading.text ++ String.join ((rows m.stack).map Row.line) := by
  rw [output, Run.wrote, listing, List.map_cons, String.join_cons, List.map_map]
  rfl

/-- A stack whose values can be written is printed as its rows, and these are the rows that are
counted down. A line shows the value at the position that is its label, labels decrease down to one,
and each of the topmost values has its line. If there are more values, one further line comes first
and shows the bottom one, under the depth as its label. -/
theorem printStack_labels (m : Machine)
    (writable : ∀ value, Shows m.stack value → Numeral.Writable value) :
    let s := m.stack
    let lines := (rows s).map Row.line
    printStack m = .wrote (listing s) m ∧
      output (printStack m) = Item.heading.text ++ String.join lines ∧
      rows s = counted s ∧
      (∀ label shown, (Row.value label shown).line ∈ lines →
        1 ≤ label ∧ s.peek (label - 1) = .ok shown) ∧
      (labels (rows s)).Pairwise (· > ·) ∧
      (s.depth = 0 → rows s = []) ∧
      (s.depth ≠ 0 → (labels (rows s)).getLast? = some 1) ∧
      (∀ label, 1 ≤ label → label ≤ min shownDepth s.depth →
        ∃ shown, (Row.value label shown).line ∈ lines) ∧
      (shownDepth < s.depth → ∃ bottom rest, s.peek (-1) = .ok bottom ∧
        rows s = .value s.depth bottom :: rest ∧
        labels rest = (List.range' 1 shownDepth).reverse) := by
  intro s lines
  have printed : printStack m = .wrote (listing s) m := printStack_eq_wrote m writable
  refine ⟨printed, printed ▸ output_listing m, rows_eq_counted s, ?_, pairwise_labels_rows s, ?_,
    getLast?_labels_rows, ?_, ?_⟩
  · intro label shown member
    exact peek_of_mem_rows ((List.mem_map_of_injective Row.line_injective).1 member)
  · intro empty
    have none : topmost s = [] := by
      rw [← List.length_eq_zero_iff, length_topmost, empty, Nat.min_zero]
    rw [rows_of_shallow (empty ▸ Nat.zero_le _), none]
    rfl
  · intro label positive within
    have listed : label ∈ labels (rows s) := by
      rw [labels_rows, List.mem_append, List.mem_reverse, List.mem_range'_1]
      exact .inr ⟨positive, by omega⟩
    obtain ⟨shown, member⟩ := mem_labels_iff.1 listed
    exact ⟨shown, List.mem_map_of_mem member⟩
  · intro deep
    obtain ⟨bottom, found, -, cut⟩ := rows_of_deep deep
    refine ⟨bottom, _, found, cut, ?_⟩
    have count : (topmost s).length = shownDepth := by
      rw [length_topmost, Nat.min_eq_left (Nat.le_of_lt deep)]
    rw [← count, ← labels_countDown]
    rfl

/-- Twelve values: the second from the bottom is not shown, and the one above it is the tenth. -/
theorem printStack_labels_twelve :
    let s := Stack.ofList [100, 0, 2, -3, 4, 5, 6, 7, 8, 9, 10, 11]
    let m : Machine := ⟨s, .seeded⟩
    (∀ value, Shows s value → Numeral.Writable value) ∧
      printStack m = .wrote (listing s) m ∧
      (Row.value 9 (-3)).line ∈ (rows s).map Row.line ∧ s.peek 8 = .ok (-3) ∧
      s.depth ≠ 0 ∧ (labels (rows s)).getLast? = some 1 ∧
      shownDepth < s.depth ∧ ∃ bottom rest, s.peek (-1) = .ok bottom ∧
        rows s = .value 12 bottom :: rest ∧ labels rest = (List.range' 1 shownDepth).reverse := by
  intro s m
  have small : ∀ value ∈ s.values, Numeral.Writable value := by decide +kernel
  have writable : ∀ value, Shows s value → Numeral.Writable value := fun value shows =>
    small value (mem_values_of_shows shows)
  have ninth : (Row.value 9 (-3)).line ∈ (rows s).map Row.line :=
    List.mem_map_of_mem (by decide)
  have deep : shownDepth < s.depth := by decide
  obtain ⟨printed, -, -, labelled, -, -, last, -, further⟩ := printStack_labels m writable
  exact ⟨writable, printed, ninth, (labelled 9 (-3) ninth).2, by decide, last (by decide), deep,
    further deep⟩

/-! ### The mark -/

/-- No line of the listing shows the value at the position. -/
def Hidden (s : Stack) (label : Nat) : Prop :=
  ∀ shown, (Row.value label shown).line ∉ (rows s).map Row.line

theorem hidden_iff {s : Stack} {label : Nat} : Hidden s label ↔ label ∉ labels (rows s) := by
  simp only [Hidden, mem_labels_iff, not_exists, List.mem_map_of_injective Row.line_injective]

theorem exists_hidden_iff (s : Stack) :
    (∃ label, 1 ≤ label ∧ label ≤ s.depth ∧ Hidden s label) ↔ shownDepth + 1 < s.depth := by
  have shown (label : Nat) : label ∈ labels (rows s) ↔
      shownDepth < s.depth ∧ label = s.depth ∨ 1 ≤ label ∧ label ≤ min shownDepth s.depth := by
    rw [labels_rows, List.mem_append, List.mem_reverse, List.mem_range'_1]
    split <;> simp [*] <;> omega
  simp only [hidden_iff, shown]
  constructor
  · rintro ⟨label, positive, within, notShown⟩
    omega
  · intro deep
    exact ⟨shownDepth + 1, by omega, by omega, by omega⟩

/-- The mark stands just if the stack is deeper than the number of topmost values that are shown,
while a value is hidden just if it is deeper by more than one: the bottom value has a line of its
own. The mark is therefore right about every stack but those which are deeper by exactly one. -/
theorem ellipsis_line_iff (m : Machine)
    (writable : ∀ value, Shows m.stack value → Numeral.Writable value) :
    let s := m.stack
    let lines := (rows s).map Row.line
    printStack m = .wrote (listing s) m ∧
      output (printStack m) = Item.heading.text ++ String.join lines ∧
      (Row.ellipsis.line ∈ lines ↔ shownDepth < s.depth) ∧
      ((∃ label, 1 ≤ label ∧ label ≤ s.depth ∧ Hidden s label) ↔ shownDepth + 1 < s.depth) ∧
      ((Row.ellipsis.line ∈ lines ↔ ∃ label, 1 ≤ label ∧ label ≤ s.depth ∧ Hidden s label) ↔
        s.depth ≠ shownDepth + 1) := by
  intro s lines
  have printed : printStack m = .wrote (listing s) m := printStack_eq_wrote m writable
  have marked : Row.ellipsis.line ∈ lines ↔ shownDepth < s.depth :=
    (List.mem_map_of_injective Row.line_injective).trans ellipsis_mem_rows_iff
  have hides := exists_hidden_iff s
  refine ⟨printed, printed ▸ output_listing m, marked, hides, ?_⟩
  rw [marked, hides]
  omega

/-- Of twelve values the second from the bottom is hidden. -/
theorem ellipsis_line_iff_twelve :
    let s := Stack.ofList [100, 0, 2, 3, 4, 5, 6, 7, 8, 9, 10, 11]
    let m : Machine := ⟨s, .seeded⟩
    (∀ value, Shows s value → Numeral.Writable value) ∧ printStack m = .wrote (listing s) m ∧
      Row.ellipsis.line ∈ (rows s).map Row.line ∧
      ∃ label, 1 ≤ label ∧ label ≤ s.depth ∧ Hidden s label := by
  intro s m
  have small : ∀ value ∈ s.values, Numeral.Writable value := by decide +kernel
  have writable : ∀ value, Shows s value → Numeral.Writable value := fun value shows =>
    small value (mem_values_of_shows shows)
  obtain ⟨printed, -, marked, hides, -⟩ := ellipsis_line_iff m writable
  exact ⟨writable, printed, marked.2 (by decide), hides.2 (by decide)⟩

/-- All of eleven values are shown, and yet the mark stands between the bottom one and the rest. -/
theorem ellipsis_although_all_shown :
    let s := Stack.ofList [1, 2, 3, 4, 5, 6, 7, 8, 9, 10, 11]
    (∀ value, Shows s value → Numeral.Writable value) ∧
      printStack ⟨s, .seeded⟩ = .wrote (listing s) ⟨s, .seeded⟩ ∧
      Row.ellipsis.line ∈ (rows s).map Row.line ∧
      ¬∃ label, 1 ≤ label ∧ label ≤ s.depth ∧ Hidden s label := by
  intro s
  have small : ∀ value ∈ s.values, Numeral.Writable value := by decide +kernel
  have writable : ∀ value, Shows s value → Numeral.Writable value := fun value shows =>
    small value (mem_values_of_shows shows)
  refine ⟨writable, printStack_eq_wrote ⟨s, .seeded⟩ writable, List.mem_map_of_mem (by decide), ?_⟩
  rw [exists_hidden_iff]
  decide

end Forth.Console
