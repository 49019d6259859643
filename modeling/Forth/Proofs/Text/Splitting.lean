import Forth.Proofs.Text.Lexemes

/-! There is one way to split a text at blanks: every text is gaps and lexemes in turn, and although
it can be any blanks that make a gap, the lexemes are determined. A scan finds them one at a time,
and can be left off and taken up again at any of them. -/

namespace Forth.Text

/-- Some blanks, or none. -/
def IsGap (text : String) : Prop := ∀ c ∈ text.toList, isBlank c = true

/-- A gap, then lexemes with a gap behind each. -/
def spaced (leading : String) : List (String × String) → String
  | [] => leading
  | (lexeme, gap) :: parts => leading ++ lexeme ++ spaced gap parts

/-- The text is a gap and then lexemes with a gap behind each, which is empty behind the last lexeme
at most. -/
structure Split (text leading : String) (parts : List (String × String)) : Prop where
  whole : text = spaced leading parts
  lexemes : ∀ part ∈ parts, IsLexeme part.1
  leading : IsGap leading
  gaps : ∀ part ∈ parts, IsGap part.2
  apart : ∀ part ∈ parts.dropLast, part.2 ≠ ""

theorem isGap_empty : IsGap "" := fun _ member => nomatch member

def SplitsInto (text : String) (lexemes : List String) : Prop :=
  ∃ leading parts, Split text leading parts ∧ parts.map Prod.fst = lexemes

theorem spaced_append (front leading : String) (parts : List (String × String)) :
    spaced (front ++ leading) parts = front ++ spaced leading parts := by
  cases parts with
  | nil => rfl
  | cons part parts => simp only [spaced, String.append_assoc]

theorem forall_mem_dropLast_cons {α : Type} {p : α → Prop} {first : α} {others : List α} :
    (∀ item ∈ (first :: others).dropLast, p item) ↔
      (others ≠ [] → p first) ∧ ∀ item ∈ others.dropLast, p item := by
  by_cases last : others = []
  · simp [last]
  · rw [List.dropLast_cons_of_ne_nil last, List.forall_mem_cons]
    exact and_congr_left fun _ => (imp_iff_right last).symm

/-! ### Any split gives the lexemes -/

theorem lexemes_empty : lexemes "" = [] := by
  rw [lexemes, String.toList_empty, chunks, List.map_nil]

theorem lexemes_gap_append {gap : String} (isGap : IsGap gap) (back : String) :
    lexemes (gap ++ back) = lexemes back := by
  rw [lexemes, String.toList_append, chunks_blanks_append isGap, ← lexemes]

/-- A lexeme ends where a blank stands or the text ends. -/
theorem lexemes_lexeme_append {lexeme back : String} (isLexeme : IsLexeme lexeme)
    (ends : ∀ c ∈ back.toList.head?, isBlank c = true) :
    lexemes (lexeme ++ back) = lexeme :: lexemes back := by
  have nonempty : lexeme.toList ≠ [] := by simpa using isLexeme.1
  have taken : back.toList.takeWhile (!isBlank ·) = [] := by
    cases cut : back.toList with
    | nil => rfl
    | cons c rest => simp [ends c (by simp [cut])]
  have dropped := back.toList.takeWhile_append_dropWhile (p := (!isBlank ·))
  rw [taken, List.nil_append] at dropped
  rw [lexemes, String.toList_append, chunks_append nonempty isLexeme.2, taken, dropped,
    List.append_nil, List.map_cons, String.ofList_toList, ← lexemes]

/-- What stands behind a lexeme of a split begins with a blank. -/
theorem isBlank_of_head?_spaced {gap : String} {parts : List (String × String)}
    (isGap : IsGap gap) (apart : parts ≠ [] → gap ≠ "") :
    ∀ c ∈ (spaced gap parts).toList.head?, isBlank c = true := by
  intro c first
  cases parts with
  | nil => exact isGap c (List.mem_of_mem_head? first)
  | cons part parts =>
    have nonempty : gap.toList ≠ [] := by simpa using apart (List.cons_ne_nil part parts)
    obtain ⟨d, rest, cut⟩ := List.exists_cons_of_ne_nil nonempty
    simp only [spaced, String.toList_append, List.append_assoc, cut, List.cons_append,
      List.head?_cons, Option.mem_some_iff] at first
    exact first ▸ isGap d (by simp [cut])

theorem Split.lexemes_eq {text leading : String} {parts : List (String × String)}
    (split : Split text leading parts) : Text.lexemes text = parts.map Prod.fst := by
  obtain ⟨rfl, each, isGap, gaps, apart⟩ := split
  induction parts generalizing leading with
  | nil =>
    rw [spaced, ← String.append_empty (s := leading), lexemes_gap_append isGap, lexemes_empty,
      List.map_nil]
  | cons part parts ih =>
    obtain ⟨lexeme, gap⟩ := part
    obtain ⟨isLexeme, others⟩ := List.forall_mem_cons.1 each
    obtain ⟨gapBehind, gapsBehind⟩ := List.forall_mem_cons.1 gaps
    obtain ⟨apartHere, apartBehind⟩ := forall_mem_dropLast_cons.1 apart
    rw [spaced, String.append_assoc, lexemes_gap_append isGap,
      lexemes_lexeme_append isLexeme (isBlank_of_head?_spaced gapBehind apartHere),
      ih others gapBehind gapsBehind apartBehind, List.map_cons]

/-! ### Every text has a split -/

theorem Split.gap_append {gap text leading : String} {parts : List (String × String)}
    (isGap : IsGap gap) (split : Split text leading parts) :
    Split (gap ++ text) (gap ++ leading) parts where
  whole := by rw [spaced_append, split.whole]
  lexemes := split.lexemes
  leading c member := by
    rw [String.toList_append, List.mem_append] at member
    exact member.elim (isGap c) (split.leading c)
  gaps := split.gaps
  apart := split.apart

theorem Split.lexeme_append {lexeme text leading : String} {parts : List (String × String)}
    (isLexeme : IsLexeme lexeme) (split : Split text leading parts)
    (apart : parts ≠ [] → leading ≠ "") :
    Split (lexeme ++ text) "" ((lexeme, leading) :: parts) where
  whole := by rw [spaced, String.empty_append, ← split.whole]
  lexemes := List.forall_mem_cons.2 ⟨isLexeme, split.lexemes⟩
  leading := isGap_empty
  gaps := List.forall_mem_cons.2 ⟨split.leading, split.gaps⟩
  apart := forall_mem_dropLast_cons.2 ⟨apart, split.apart⟩

theorem split_gap {gap : String} (isGap : IsGap gap) : Split gap gap [] :=
  ⟨rfl, nofun, isGap, nofun, nofun⟩

/-- Behind the front of a text without a blank stand blanks, if anything. -/
theorem dropWhile_eq_nil_of_takeWhile {cs : List Char}
    (noGap : (cs.dropWhile (!isBlank ·)).takeWhile isBlank = []) :
    cs.dropWhile (!isBlank ·) = [] := by
  cases cut : cs.dropWhile (!isBlank ·) with
  | nil => rfl
  | cons c rest =>
    have stops := List.head?_dropWhile_not (!isBlank ·) cs
    have blank : isBlank c = true := by simpa [cut] using stops
    rw [cut, List.takeWhile_cons_of_pos blank] at noGap
    exact absurd noGap (List.cons_ne_nil _ _)

/-- The blanks at the front of a text make a gap, and what stands behind it can be split. -/
theorem exists_split (cs : List Char) :
    ∃ parts, Split (String.ofList cs) (String.ofList (cs.takeWhile isBlank)) parts := by
  induction cs using chunks.induct with
  | case1 => exact ⟨[], split_gap isGap_empty⟩
  | case2 c rest blank ih =>
    obtain ⟨parts, split⟩ := ih
    have isGap : IsGap (String.singleton c) := by simpa [IsGap] using blank
    have longer := split.gap_append isGap
    rw [List.takeWhile_cons_of_pos blank]
    exact ⟨parts, by simpa using longer⟩
  | case3 c rest notBlank ih =>
    obtain ⟨parts, split⟩ := ih
    have first : String.ofList (c :: rest.takeWhile (!isBlank ·)) ∈
        lexemes (String.ofList (c :: rest)) := by
      rw [lexemes, String.toList_ofList, chunks_cons notBlank, List.map_cons]
      exact List.mem_cons_self
    have apart : parts ≠ [] →
        String.ofList ((rest.dropWhile (!isBlank ·)).takeWhile isBlank) ≠ "" := by
      intro more empty
      have none : rest.dropWhile (!isBlank ·) = [] :=
        dropWhile_eq_nil_of_takeWhile (by simpa using empty)
      rw [none] at split
      exact more (List.map_eq_nil_iff.1 (split.lexemes_eq.symm.trans lexemes_empty))
    have longer := split.lexeme_append (isLexeme_of_mem_lexemes first) apart
    rw [← String.ofList_append, List.cons_append, List.takeWhile_append_dropWhile] at longer
    rw [List.takeWhile_cons_of_neg notBlank]
    exact ⟨_, longer⟩

theorem splitsInto_iff {text : String} {tokens : List String} :
    SplitsInto text tokens ↔ tokens = lexemes text := by
  constructor
  · rintro ⟨leading, parts, split, rfl⟩
    exact split.lexemes_eq.symm
  · rintro rfl
    obtain ⟨parts, split⟩ := exists_split text.toList
    rw [String.ofList_toList] at split
    exact ⟨_, parts, split, split.lexemes_eq.symm⟩

/-- Nothing but blanks is lost, and the rest keeps its order. -/
theorem flatMap_toList_lexemes (text : String) :
    (lexemes text).flatMap String.toList = text.toList.filter (!isBlank ·) := by
  have each (cs : List Char) : (chunks cs).flatten = cs.filter (!isBlank ·) := by
    induction cs using chunks.induct with
    | case1 => rw [chunks]; rfl
    | case2 c rest blank ih =>
      rw [chunks_cons_blank blank, ih, List.filter_cons_of_neg (by simpa using blank)]
    | case3 c rest notBlank ih =>
      have kept : (rest.takeWhile (!isBlank ·)).filter (!isBlank ·) =
          rest.takeWhile (!isBlank ·) :=
        List.filter_eq_self.2 (List.all_eq_true.1 List.all_takeWhile)
      have whole := congrArg (List.filter (!isBlank ·))
        (rest.takeWhile_append_dropWhile (p := (!isBlank ·)))
      rw [List.filter_append, kept] at whole
      rw [chunks_cons notBlank, List.flatten_cons, ih, List.cons_append, whole,
        List.filter_cons_of_pos (by simpa using notBlank)]
  rw [lexemes, List.flatMap_map, ← each, ← List.flatMap_id]
  exact List.flatMap_congr fun chunk _ => String.toList_ofList

/-! ### Lexemes put together with any gaps -/

/-- The texts with a gap between any two that follow each other. -/
def joined (gap : Nat → String) : List String → String
  | [] => ""
  | [text] => text
  | text :: next :: texts => text ++ gap 0 ++ joined (fun i => gap (i + 1)) (next :: texts)

theorem lexemes_joined {gap : Nat → String} (isGap : ∀ i, IsGap (gap i))
    (nonempty : ∀ i, gap i ≠ "") {tokens : List String}
    (each : ∀ token ∈ tokens, IsLexeme token) : lexemes (joined gap tokens) = tokens := by
  induction tokens generalizing gap with
  | nil => exact lexemes_empty
  | cons token tokens ih =>
    obtain ⟨first, later⟩ := List.forall_mem_cons.1 each
    cases tokens with
    | nil => exact first.lexemes
    | cons next tokens =>
      rw [joined, lexemes_append (nonempty 0) (isGap 0), first.lexemes,
        ih (fun i => isGap (i + 1)) (fun i => nonempty (i + 1)) later, List.singleton_append]

/-! ### Scans -/

namespace Scan

/-- The next lexeme and the text behind it. -/
def next? (text : String) : Option (String × String) :=
  match text.toList.dropWhile isBlank with
  | [] => none
  | c :: rest =>
    some (String.ofList (c :: rest.takeWhile (!isBlank ·)),
      String.ofList (rest.dropWhile (!isBlank ·)))

theorem chunks_dropWhile (cs : List Char) : chunks (cs.dropWhile isBlank) = chunks cs := by
  have blank : ∀ c ∈ cs.takeWhile isBlank, isBlank c = true := List.all_eq_true.1 List.all_takeWhile
  rw [← chunks_blanks_append blank, List.takeWhile_append_dropWhile]

theorem lexemes_of_next?_eq_none {text : String} (ended : next? text = none) :
    lexemes text = [] := by
  rw [lexemes, ← chunks_dropWhile]
  cases cut : text.toList.dropWhile isBlank with
  | nil => rw [chunks, List.map_nil]
  | cons c back => simp [next?, cut] at ended

section

variable {text lexeme rest : String}

theorem exists_of_next?_eq_some (found : next? text = some (lexeme, rest)) :
    ∃ c back, text.toList.dropWhile isBlank = c :: back ∧
      lexeme = String.ofList (c :: back.takeWhile (!isBlank ·)) ∧
      rest = String.ofList (back.dropWhile (!isBlank ·)) := by
  cases cut : text.toList.dropWhile isBlank with
  | nil => simp [next?, cut] at found
  | cons c back =>
    simp only [next?, cut, Option.some.injEq, Prod.mk.injEq] at found
    exact ⟨c, back, rfl, found.1.symm, found.2.symm⟩

/-- What is found next comes first, and the lexemes behind it are those of the text behind it. -/
theorem lexemes_of_next?_eq_some (found : next? text = some (lexeme, rest)) :
    lexemes text = lexeme :: lexemes rest := by
  obtain ⟨c, back, cut, rfl, rfl⟩ := exists_of_next?_eq_some found
  have stops := List.head?_dropWhile_not isBlank text.toList
  have notBlank : ¬isBlank c = true := by simpa [cut] using stops
  rw [lexemes, ← chunks_dropWhile, cut, chunks_cons notBlank, List.map_cons, lexemes,
    String.toList_ofList]

theorem length_lt_of_next?_eq_some (found : next? text = some (lexeme, rest)) :
    rest.length < text.length := by
  obtain ⟨c, back, cut, -, rfl⟩ := exists_of_next?_eq_some found
  have shorter := (List.dropWhile_sublist (!isBlank ·) (l := back)).length_le
  have within := (List.dropWhile_sublist isBlank (l := text.toList)).length_le
  rw [cut, List.length_cons, String.length_toList] at within
  rw [String.length_ofList]
  omega

end

/-- All lexemes that are left. -/
def drain (text : String) : List String :=
  match _found : next? text with
  | none => []
  | some (lexeme, rest) => lexeme :: drain rest
termination_by text.length
decreasing_by exact length_lt_of_next?_eq_some _found

/-- The next `n` lexemes, or as many as there are, and the text behind them. -/
def take : Nat → String → List String × String
  | 0, text => ([], text)
  | n + 1, text =>
    match next? text with
    | none => ([], text)
    | some (lexeme, rest) => (lexeme :: (take n rest).1, (take n rest).2)

theorem drain_eq_lexemes (text : String) : drain text = lexemes text := by
  fun_induction drain text with
  | case1 text ended => exact (lexemes_of_next?_eq_none ended).symm
  | case2 text lexeme rest found ih => rw [ih, lexemes_of_next?_eq_some found]

theorem take_eq (n : Nat) (text : String) :
    (take n text).1 = (lexemes text).take n ∧ lexemes (take n text).2 = (lexemes text).drop n := by
  induction n generalizing text with
  | zero => exact ⟨rfl, rfl⟩
  | succ n ih =>
    cases found : next? text with
    | none =>
      have none := lexemes_of_next?_eq_none found
      simp [take, found, none]
    | some pair =>
      obtain ⟨lexeme, rest⟩ := pair
      obtain ⟨taken, left⟩ := ih rest
      simp [take, found, lexemes_of_next?_eq_some found, taken, left]

end Scan

/-- A text can be split into gaps and lexemes in one way only, as far as the lexemes are concerned.
They are what the text is made of, blanks apart, and putting lexemes together with any gaps between
them gives a text with just these lexemes. A scan of the text yields them in order, and one that is
left off after `n` of them goes on with the others. -/
theorem lexemes_is_only_split (text : String) :
    (∃! tokens, SplitsInto text tokens) ∧ SplitsInto text (lexemes text) ∧
      (lexemes text).flatMap String.toList = text.toList.filter (!isBlank ·) ∧
      (∀ (gap : Nat → String) (tokens : List String), (∀ i, IsGap (gap i) ∧ gap i ≠ "") →
        (∀ token ∈ tokens, IsLexeme token) → lexemes (joined gap tokens) = tokens) ∧
      Scan.drain text = lexemes text ∧
      ∀ n, (Scan.take n text).1 = (lexemes text).take n ∧
        (Scan.take n text).1 ++ Scan.drain (Scan.take n text).2 = Scan.drain text := by
  refine ⟨⟨lexemes text, splitsInto_iff.2 rfl, fun tokens => splitsInto_iff.1⟩,
    splitsInto_iff.2 rfl, flatMap_toList_lexemes text, ?_, Scan.drain_eq_lexemes text, ?_⟩
  · intro gap tokens gaps each
    exact lexemes_joined (fun i => (gaps i).1) (fun i => (gaps i).2) each
  · intro n
    obtain ⟨taken, left⟩ := Scan.take_eq n text
    refine ⟨taken, ?_⟩
    rw [Scan.drain_eq_lexemes, Scan.drain_eq_lexemes, taken, left, List.take_append_drop]

/-- A space that is not blank stands inside a lexeme, and blanks of several kinds between two. -/
theorem lexemes_is_only_split_mixed :
    let gap : Nat → String := fun i => if i = 0 then "\t \x0b" else "\n"
    let tokens := [":", "a\u00a0b", ";"]
    joined gap tokens = ":\t \x0ba\u00a0b\n;" ∧ lexemes (joined gap tokens) = tokens ∧
      (Scan.take 2 (joined gap tokens)).1 ++ Scan.drain (Scan.take 2 (joined gap tokens)).2 =
        tokens := by
  intro gap tokens
  have gaps : ∀ i, IsGap (gap i) ∧ gap i ≠ "" := by
    intro i
    by_cases first : i = 0
    · simp only [gap, if_pos first]
      exact ⟨List.all_eq_true.1 (by decide), by decide⟩
    · simp only [gap, if_neg first]
      exact ⟨List.all_eq_true.1 (by decide), by decide⟩
  have each : ∀ token ∈ tokens, IsLexeme token := by
    simp only [tokens, List.forall_mem_cons]
    simp [IsLexeme, isBlank]
  obtain ⟨-, -, -, put, drained, scanned⟩ := lexemes_is_only_split (joined gap tokens)
  have back : lexemes (joined gap tokens) = tokens := put gap tokens gaps each
  exact ⟨by decide, back, (scanned 2).2.trans (drained.trans back)⟩

end Forth.Text
