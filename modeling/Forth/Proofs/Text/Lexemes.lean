import Forth.Text.Blank
import Forth.Proofs.Text.Folding

/-! Cutting a text at blanks cuts its lexemes: what stands before a run of blanks and what stands
behind it are split independently, and lexemes that are joined by blanks come apart again. Upper
case leaves the blanks where they are, so a text in upper case has the lexemes of the text, each in
upper case. -/

namespace Forth.Text

theorem chunks_cons_blank {c : Char} (blank : isBlank c = true) (rest : List Char) :
    chunks (c :: rest) = chunks rest := by
  rw [chunks, if_pos blank]

theorem chunks_cons {c : Char} (notBlank : ¬isBlank c = true) (rest : List Char) :
    chunks (c :: rest) =
      (c :: rest.takeWhile (!isBlank ·)) :: chunks (rest.dropWhile (!isBlank ·)) := by
  rw [chunks, if_neg notBlank]

theorem takeWhile_append_blank {c : Char} (blank : isBlank c = true) (front back : List Char) :
    (front ++ c :: back).takeWhile (!isBlank ·) = front.takeWhile (!isBlank ·) := by
  induction front with
  | nil => simp [blank]
  | cons first front ih => simp [List.takeWhile_cons, ih]

theorem dropWhile_append_blank {c : Char} (blank : isBlank c = true) (front back : List Char) :
    (front ++ c :: back).dropWhile (!isBlank ·) =
      front.dropWhile (!isBlank ·) ++ c :: back := by
  induction front with
  | nil => simp [blank]
  | cons first front ih =>
    rw [List.cons_append, List.dropWhile_cons, List.dropWhile_cons, ih]
    split <;> rfl

theorem chunks_append_blank {c : Char} (blank : isBlank c = true) (front back : List Char) :
    chunks (front ++ c :: back) = chunks front ++ chunks back := by
  induction front using chunks.induct with
  | case1 => rw [List.nil_append, chunks_cons_blank blank, chunks, List.nil_append]
  | case2 first front firstBlank ih =>
    rw [List.cons_append, chunks_cons_blank firstBlank, chunks_cons_blank firstBlank, ih]
  | case3 first front notBlank ih =>
    rw [List.cons_append, chunks_cons notBlank, chunks_cons notBlank,
      takeWhile_append_blank blank, dropWhile_append_blank blank, ih, List.cons_append]

theorem chunks_blanks_append {gap : List Char} (blank : ∀ c ∈ gap, isBlank c = true)
    (back : List Char) : chunks (gap ++ back) = chunks back := by
  induction gap with
  | nil => rfl
  | cons c gap ih =>
    rw [List.cons_append, chunks_cons_blank (blank c (by simp)),
      ih fun d member => blank d (by simp [member])]

/-- Texts with blanks between them have the lexemes of the first, then those of the second. -/
theorem lexemes_append {gap : String} (nonempty : gap ≠ "")
    (blank : ∀ c ∈ gap.toList, isBlank c = true) (front back : String) :
    lexemes (front ++ gap ++ back) = lexemes front ++ lexemes back := by
  have someBlank : gap.toList ≠ [] := by simpa using nonempty
  obtain ⟨c, rest, cut⟩ := List.exists_cons_of_ne_nil someBlank
  have restBlank : ∀ d ∈ rest, isBlank d = true := fun d member => blank d (by simp [cut, member])
  simp only [lexemes, String.toList_append, List.append_assoc, cut, List.cons_append]
  rw [chunks_append_blank (blank c (by simp [cut])), chunks_blanks_append restBlank,
    List.map_append]

/-! ### Lexemes put together -/

/-- A run of characters that are not blank is the front of one chunk. -/
theorem chunks_append {front : List Char} (nonempty : front ≠ [])
    (notBlank : ∀ c ∈ front, isBlank c = false) (back : List Char) :
    chunks (front ++ back) =
      (front ++ back.takeWhile (!isBlank ·)) :: chunks (back.dropWhile (!isBlank ·)) := by
  obtain ⟨c, rest, rfl⟩ := List.exists_cons_of_ne_nil nonempty
  have later : ∀ d ∈ rest, (!isBlank d) = true := fun d member => by simp [notBlank d, member]
  rw [List.cons_append, chunks_cons (by simp [notBlank c]), List.takeWhile_append_of_pos later,
    List.dropWhile_append_of_pos later, List.cons_append]

/-- A text that is a single lexeme. -/
def IsLexeme (text : String) : Prop :=
  text ≠ "" ∧ ∀ c ∈ text.toList, isBlank c = false

theorem IsLexeme.lexemes {text : String} (isLexeme : IsLexeme text) : lexemes text = [text] := by
  have nonempty : text.toList ≠ [] := by simpa using isLexeme.1
  have alone := chunks_append nonempty isLexeme.2 []
  rw [List.append_nil, List.takeWhile_nil, List.append_nil, List.dropWhile_nil, chunks] at alone
  rw [Text.lexemes, alone, List.map_singleton, String.ofList_toList]

theorem isLexeme_of_mem_lexemes {text lexeme : String} (member : lexeme ∈ Text.lexemes text) :
    IsLexeme lexeme := by
  have each (cs : List Char) :
      ∀ chunk ∈ chunks cs, chunk ≠ [] ∧ ∀ c ∈ chunk, isBlank c = false := by
    induction cs using chunks.induct with
    | case1 => simp [chunks]
    | case2 c rest blank ih => rwa [chunks_cons_blank blank]
    | case3 c rest notBlank ih =>
      rw [chunks_cons notBlank]
      refine List.forall_mem_cons.2 ⟨⟨List.cons_ne_nil _ _, ?_⟩, ih⟩
      refine List.forall_mem_cons.2 ⟨by simpa using notBlank, fun d within => ?_⟩
      simpa using List.all_eq_true.1 List.all_takeWhile d within
  obtain ⟨chunk, found, rfl⟩ := List.mem_map.1 member
  obtain ⟨nonempty, notBlank⟩ := each _ chunk found
  exact ⟨by simpa using nonempty, by simpa using notBlank⟩

theorem lexemes_intercalate {texts : List String} (each : ∀ text ∈ texts, IsLexeme text) :
    lexemes (" ".intercalate texts) = texts := by
  induction texts with
  | nil => simp [lexemes, chunks]
  | cons text texts ih =>
    obtain ⟨first, later⟩ := List.forall_mem_cons.1 each
    cases texts with
    | nil => rw [String.intercalate_singleton, first.lexemes]
    | cons next texts =>
      have blank : ∀ c ∈ " ".toList, isBlank c = true := List.all_eq_true.1 (by decide)
      rw [String.intercalate_cons_cons, lexemes_append (by decide) blank, first.lexemes, ih later,
        List.singleton_append]

/-! ### Upper case -/

theorem toNat_lt_of_isBlank (c : Char) (blank : isBlank c = true) : c.toNat < 0x41 := by
  simp only [isBlank, Bool.or_eq_true, decide_eq_true_eq] at blank
  rcases blank with ((((rfl | rfl) | rfl) | rfl) | rfl) | rfl <;> decide

theorem isBlank_of_mem_upperChar {c i : Char} (image : i ∈ upperChar c) :
    isBlank i = isBlank c :=
  apply_of_mem_upperChar toNat_lt_of_isBlank image

theorem IsLexeme.upper {text : String} (isLexeme : IsLexeme text) : IsLexeme (upper text) := by
  constructor
  · intro empty
    have same := isEmpty_upper text
    rw [empty] at same
    exact isLexeme.1 (String.isEmpty_iff.1 same.symm)
  · intro i image
    rw [toList_upper] at image
    obtain ⟨c, member, image⟩ := List.mem_flatMap.1 image
    rw [isBlank_of_mem_upperChar image, isLexeme.2 c member]

theorem upperChar_of_isBlank {c : Char} (blank : isBlank c = true) : upperChar c = [c] := by
  have := toNat_lt_of_isBlank c blank
  exact upperChar_of_upperCode (upperCode_of_lt (by omega))

theorem takeWhile_flatMap_upperChar (cs : List Char) :
    (cs.flatMap upperChar).takeWhile (!isBlank ·) =
      (cs.takeWhile (!isBlank ·)).flatMap upperChar := by
  induction cs with
  | nil => rfl
  | cons c rest ih =>
    by_cases blank : isBlank c = true
    · simp [upperChar_of_isBlank blank, blank]
    · have each : ∀ i ∈ upperChar c, (!isBlank i) = true := by
        intro i image
        simpa [isBlank_of_mem_upperChar image] using blank
      rw [List.flatMap_cons, List.takeWhile_append_of_pos each, ih,
        List.takeWhile_cons_of_pos (by simpa using blank), List.flatMap_cons]

theorem dropWhile_flatMap_upperChar (cs : List Char) :
    (cs.flatMap upperChar).dropWhile (!isBlank ·) =
      (cs.dropWhile (!isBlank ·)).flatMap upperChar := by
  have whole := (cs.flatMap upperChar).takeWhile_append_dropWhile (p := (!isBlank ·))
  have cut := congrArg (List.flatMap upperChar) (cs.takeWhile_append_dropWhile (p := (!isBlank ·)))
  rw [List.flatMap_append] at cut
  rw [takeWhile_flatMap_upperChar] at whole
  exact List.append_cancel_left (whole.trans cut.symm)

theorem chunks_flatMap_upperChar (cs : List Char) :
    chunks (cs.flatMap upperChar) = (chunks cs).map (List.flatMap upperChar) := by
  induction cs using chunks.induct with
  | case1 => simp [chunks]
  | case2 c rest blank ih =>
    rw [List.flatMap_cons, upperChar_of_isBlank blank, List.singleton_append,
      chunks_cons_blank blank, chunks_cons_blank blank, ih]
  | case3 c rest notBlank ih =>
    have each : ∀ i ∈ upperChar c, isBlank i = false := by
      intro i image
      simpa [isBlank_of_mem_upperChar image] using notBlank
    rw [List.flatMap_cons, chunks_append (upperChar_ne_nil c) each, chunks_cons notBlank,
      takeWhile_flatMap_upperChar, dropWhile_flatMap_upperChar, ih, List.map_cons,
      List.flatMap_cons]

theorem lexemes_upper (text : String) : lexemes (upper text) = (lexemes text).map upper := by
  rw [lexemes, toList_upper, chunks_flatMap_upperChar, lexemes, List.map_map, List.map_map]
  refine List.map_congr_left fun cs _ => ?_
  rw [Function.comp_apply, Function.comp_apply, upper, String.toList_ofList]

end Forth.Text
