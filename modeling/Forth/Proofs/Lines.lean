import Forth.Console
import Forth.Proofs.Text.Lexemes

/-! The lines of the input that a session works through. An input falls into lines at its line
feeds, whatever stands in them, and what stands behind a line feed is cut independently of what
stands before it. A line feed is blank, so the lexemes of an input are those of its lines. -/

namespace Forth.Console

theorem lines_feed (rest : List Char) : lines ('\n' :: rest) = [] :: lines rest := by
  rw [lines, if_pos rfl]

theorem lines_of_eq_nil {c : Char} {rest : List Char} (other : c ≠ '\n') (h : lines rest = []) :
    lines (c :: rest) = [[c]] := by
  rw [lines, if_neg other, h]

theorem lines_of_eq_cons {c : Char} {rest line : List Char} {others : List (List Char)}
    (other : c ≠ '\n') (h : lines rest = line :: others) :
    lines (c :: rest) = (c :: line) :: others := by
  rw [lines, if_neg other, h]

/-- What stands behind a line feed has no part in the lines before it. -/
theorem exists_lines_append_feed (front : List Char) :
    ∃ line others, ∀ back, lines (front ++ '\n' :: back) = line :: (others ++ lines back) := by
  induction front with
  | nil => exact ⟨[], [], fun back => lines_feed back⟩
  | cons c front ih =>
    obtain ⟨line, others, cut⟩ := ih
    by_cases feed : c = '\n'
    · subst feed
      exact ⟨[], line :: others, fun back => by rw [List.cons_append, lines_feed, cut]; rfl⟩
    · exact ⟨c :: line, others, fun back => by
        rw [List.cons_append, lines_of_eq_cons feed (cut back)]⟩

theorem lines_append_feed (front back : List Char) :
    lines (front ++ '\n' :: back) = lines (front ++ ['\n']) ++ lines back := by
  obtain ⟨line, others, cut⟩ := exists_lines_append_feed front
  rw [cut, cut, lines, List.append_nil, List.cons_append]

theorem lines_of_not_mem {line : List Char} (nonempty : line ≠ []) (noFeed : '\n' ∉ line) :
    lines line = [line] := by
  induction line with
  | nil => exact absurd rfl nonempty
  | cons c rest ih =>
    obtain ⟨other, later⟩ := List.ne_and_not_mem_of_not_mem_cons noFeed
    by_cases last : rest = []
    · rw [last, lines_of_eq_nil other.symm rfl]
    · exact lines_of_eq_cons other.symm (ih last later)

theorem lines_of_not_mem_feed {line : List Char} (noFeed : '\n' ∉ line) :
    lines (line ++ ['\n']) = [line] := by
  induction line with
  | nil => exact lines_feed []
  | cons c rest ih =>
    obtain ⟨other, later⟩ := List.ne_and_not_mem_of_not_mem_cons noFeed
    rw [List.cons_append, lines_of_eq_cons other.symm (ih later)]

/-! ### Inputs -/

/-- The lines of an input, in order. -/
def linesOf (input : String) : List String :=
  (lines input.toList).map String.ofList

/-- The texts with a line feed behind each. -/
def ended (texts : List String) : String :=
  String.join (texts.map (· ++ "\n"))

theorem ended_cons (text : String) (texts : List String) :
    ended (text :: texts) = text ++ "\n" ++ ended texts := by
  rw [ended, List.map_cons, String.join_cons]
  rfl

theorem ended_append (front back : List String) :
    ended (front ++ back) = ended front ++ ended back := by
  rw [ended, List.map_append, String.join_append]
  rfl

theorem linesOf_feed_append (front back : String) :
    linesOf (front ++ "\n" ++ back) = linesOf (front ++ "\n") ++ linesOf back := by
  simp only [linesOf, String.toList_append, List.append_assoc, ← List.map_append]
  exact congrArg _ (lines_append_feed front.toList back.toList)

theorem linesOf_of_not_mem {text : String} (nonempty : text ≠ "") (noFeed : '\n' ∉ text.toList) :
    linesOf text = [text] := by
  rw [linesOf, lines_of_not_mem (by simpa using nonempty) noFeed, List.map_singleton,
    String.ofList_toList]

theorem linesOf_of_not_mem_feed {text : String} (noFeed : '\n' ∉ text.toList) :
    linesOf (text ++ "\n") = [text] := by
  rw [linesOf, String.toList_append]
  refine (congrArg _ (lines_of_not_mem_feed noFeed)).trans ?_
  rw [List.map_singleton, String.ofList_toList]

theorem linesOf_ended_append (texts : List String) (back : String) :
    linesOf (ended texts ++ back) = linesOf (ended texts) ++ linesOf back := by
  induction texts with
  | nil => exact congrArg linesOf String.empty_append
  | cons text texts ih =>
    rw [ended_cons, String.append_assoc, linesOf_feed_append, ih, linesOf_feed_append,
      List.append_assoc]

theorem linesOf_ended {texts : List String} (noFeed : ∀ text ∈ texts, '\n' ∉ text.toList) :
    linesOf (ended texts) = texts := by
  induction texts with
  | nil => rfl
  | cons text texts ih =>
    obtain ⟨first, later⟩ := List.forall_mem_cons.1 noFeed
    rw [ended_cons, linesOf_feed_append, linesOf_of_not_mem_feed first, ih later,
      List.singleton_append]

/-- Every input is some lines, each with a line feed behind it, and then a text without any. -/
theorem exists_ended_append (input : String) : ∃ front last,
    (∀ text ∈ front, '\n' ∉ text.toList) ∧ '\n' ∉ last.toList ∧ input = ended front ++ last := by
  generalize same : input.toList = cs
  obtain rfl : String.ofList cs = input := by rw [← same, String.ofList_toList]
  clear same
  induction cs with
  | nil => exact ⟨[], "", by simp, by simp, rfl⟩
  | cons c rest ih =>
    obtain ⟨front, last, noFeed, lastNoFeed, cut⟩ := ih
    have first : String.ofList (c :: rest) = String.ofList [c] ++ String.ofList rest :=
      @String.ofList_append [c] rest
    rw [first, cut]
    by_cases feed : c = '\n'
    · subst feed
      refine ⟨"" :: front, last, List.forall_mem_cons.2 ⟨by simp, noFeed⟩, lastNoFeed, ?_⟩
      rw [ended_cons, String.append_assoc]
      rfl
    · have other : '\n' ≠ c := Ne.symm feed
      cases front with
      | nil => exact ⟨[], String.ofList [c] ++ last, by simp, by simp [other, lastNoFeed], rfl⟩
      | cons text texts =>
        obtain ⟨here, later⟩ := List.forall_mem_cons.1 noFeed
        refine ⟨(String.ofList [c] ++ text) :: texts, last,
          List.forall_mem_cons.2 ⟨by simp [other, here], later⟩, lastNoFeed, ?_⟩
        rw [ended_cons, ended_cons]
        simp only [String.append_assoc]

/-- The lines of an input are what stands before its line feeds, and what stands behind the last one
if that is not empty. -/
theorem linesOf_cut (input : String) : ∃ front last,
    (∀ text ∈ front, '\n' ∉ text.toList) ∧ '\n' ∉ last.toList ∧ input = ended front ++ last ∧
      linesOf input = if last = "" then front else front ++ [last] := by
  obtain ⟨front, last, noFeed, lastNoFeed, cut⟩ := exists_ended_append input
  refine ⟨front, last, noFeed, lastNoFeed, cut, ?_⟩
  rw [cut, linesOf_ended_append, linesOf_ended noFeed]
  split
  case isTrue empty => rw [empty]; exact List.append_nil front
  case isFalse nonempty => rw [linesOf_of_not_mem nonempty lastNoFeed]

/-! ### Lexemes -/

theorem lexemes_ended_append (texts : List String) (back : String) :
    Text.lexemes (ended texts ++ back) = texts.flatMap Text.lexemes ++ Text.lexemes back := by
  have blank : ∀ c ∈ "\n".toList, Text.isBlank c = true := List.all_eq_true.1 (by decide)
  induction texts with
  | nil => exact congrArg Text.lexemes String.empty_append
  | cons text texts ih =>
    rw [ended_cons, String.append_assoc, Text.lexemes_append (by decide) blank, ih,
      List.flatMap_cons, List.append_assoc]

theorem lexemes_eq_flatMap (input : String) :
    Text.lexemes input = (linesOf input).flatMap Text.lexemes := by
  obtain ⟨front, last, -, -, cut, lines⟩ := linesOf_cut input
  rw [lines, cut, lexemes_ended_append]
  split
  case isTrue empty =>
    rw [empty, Text.lexemes, String.toList_empty, Text.chunks, List.map_nil, List.append_nil]
  case isFalse => rw [List.flatMap_append, List.flatMap_singleton]

end Forth.Console
