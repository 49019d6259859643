import Forth.Proofs.Binding
import Forth.Proofs.Cutting
import Forth.Proofs.Description
import Forth.Proofs.Naming

/-! The journal is enough to tell the dictionary. Every line about a definition gives back the name
and the body that it was written for, so binding them again, in the order of the lines, leads from
the primitives to the dictionary of the machine that wrote the journal. -/

namespace Forth

/-- What stands behind `front`, if the characters begin with it. -/
def Text.behind? (front : String) (cs : List Char) : Option (List Char) :=
  front.toList.isPrefixOf? cs

/-- What stands in front of `back`, if the characters end with it. -/
def Text.before? (back : String) (cs : List Char) : Option (List Char) :=
  back.toList.isSuffixOf? cs

/-- The code of which the journal writes the text: a numeral is a number, and anything else has to
be the name of a primitive. -/
def Code.ofText? (text : String) : Option Code :=
  if Numeral.isNumeral text then some (.literal (Numeral.value text))
  else (Primitive.ofName? text).map .primitive

/-- The binding that a line of the journal tells of, if it tells of any. The name goes up to the
next space, and the parts of the body stand between brackets with blanks between them. -/
def Binding.ofLine? (line : String) : Option Binding := do
  let told ← Text.behind? "DEBUG compiler: defined " line.toList
  let bracketed ← Text.behind? " as [" (told.dropWhile (· ≠ ' '))
  let parts ← Text.before? "]" bracketed
  let body ← (Text.lexemes (String.ofList parts)).mapM Code.ofText?
  return ⟨String.ofList (told.takeWhile (· ≠ ' ')), body⟩

/-- The dictionary that comes of the primitives by the bindings that the lines of a journal tell
of. -/
def Dictionary.replay (lines : List String) : Dictionary :=
  (lines.filterMap Binding.ofLine?).foldl bind seeded

/-! ### Texts read back -/

theorem Text.behind?_append (front : String) (cs : List Char) :
    behind? front (front.toList ++ cs) = some cs :=
  List.isPrefixOf?_eq_some_iff_append_eq.2 rfl

theorem Text.takeWhile_append_space {front : List Char} (noSpace : ∀ c ∈ front, c ≠ ' ')
    (back : List Char) : (front ++ ' ' :: back).takeWhile (· ≠ ' ') = front := by
  rw [List.takeWhile_append_of_pos fun c member => decide_eq_true (noSpace c member),
    List.takeWhile_cons_of_neg (by decide), List.append_nil]

/-- The digits of a number end at the first space behind them. -/
theorem Text.takeWhile_toString_append_space (n : Nat) (back : List Char) :
    ((toString n).toList ++ ' ' :: back).takeWhile (· ≠ ' ') = (toString n).toList := by
  refine takeWhile_append_space (fun c member => ?_) back
  rintro rfl
  exact absurd (Numeral.forall_isDigit (Numeral.isNumeral_repr n) ' ' member) (by decide)

theorem Text.dropWhile_append_space {front : List Char} (noSpace : ∀ c ∈ front, c ≠ ' ')
    (back : List Char) : (front ++ ' ' :: back).dropWhile (· ≠ ' ') = ' ' :: back := by
  rw [List.dropWhile_append_of_pos fun c member => decide_eq_true (noSpace c member),
    List.dropWhile_cons_of_neg (by decide)]

theorem Text.before?_append (back : String) (cs : List Char) :
    before? back (cs ++ back.toList) = some cs := by
  simp [before?, List.isSuffixOf?, List.isPrefixOf?_eq_some_iff_append_eq]

theorem Notice.toList_line_defined (name : String) (texts : List String) :
    (defined name texts).line.toList =
      "DEBUG compiler: defined ".toList ++ (name.toList ++ (" as [".toList ++
        ((" ".intercalate texts).toList ++ "]".toList))) := by
  show ("DEBUG compiler: defined " ++ name ++ " as [" ++ " ".intercalate texts ++ "]").toList = _
  simp only [String.toList_append, List.append_assoc]

theorem Notice.toList_line_stopped (report : Report) :
    ∃ rest, (stopped report).line.toList =
      "DEBUG evaluator: evaluation stopped by ".toList ++ rest := by
  show ∃ rest, ("DEBUG evaluator: evaluation stopped by " ++ report.family.name ++ ": " ++
    report.message).toList = _
  simp only [String.toList_append, List.append_assoc]
  exact ⟨_, rfl⟩

namespace Code

theorem Flat.ofText?_plainText {code : Code} (flat : code.Flat) {text : String}
    (told : code.plainText = .ok text) : Text.IsLexeme text ∧ ofText? text = some code := by
  cases flat with
  | @literal value bound =>
    rw [Code.plainText, write_of_lt bound] at told
    cases told
    show Text.IsLexeme (Nat.repr value) ∧ ofText? (Nat.repr value) = _
    refine ⟨⟨Nat.repr_ne_empty, fun c member => ?_⟩, ?_⟩
    · exact Text.isBlank_of_isDigit (Numeral.forall_isDigit (Numeral.isNumeral_repr value) c member)
    · rw [ofText?, if_pos (Numeral.isNumeral_repr value), Numeral.value_repr]
  | primitive p =>
    cases told
    have notNumeral : Numeral.isNumeral p.name = false := by cases p <;> decide
    refine ⟨⟨by cases p <;> decide, Text.forall_not_isBlank (by cases p <;> decide)⟩, ?_⟩
    rw [ofText?, notNumeral, if_neg Bool.false_ne_true, Primitive.ofName?_name]
    rfl

theorem ofText?_plainTexts {body : List Code} (flat : ∀ code ∈ body, code.Flat)
    {texts : List String} (told : body.mapM plainText = .ok texts) :
    (∀ text ∈ texts, Text.IsLexeme text) ∧ texts.mapM ofText? = some body := by
  induction body generalizing texts with
  | nil =>
    cases told
    simp
  | cons code codes ih =>
    obtain ⟨flatFirst, flatLater⟩ := List.forall_mem_cons.1 flat
    obtain ⟨first, toldFirst⟩ := flatFirst.plainText
    obtain ⟨later, toldLater⟩ := plainTexts_of_flat flatLater
    rw [List.mapM_cons, toldFirst, toldLater] at told
    cases told
    obtain ⟨firstLexeme, firstRead⟩ := flatFirst.ofText?_plainText toldFirst
    obtain ⟨laterLexemes, laterRead⟩ := ih flatLater toldLater
    refine ⟨List.forall_mem_cons.2 ⟨firstLexeme, laterLexemes⟩, ?_⟩
    rw [List.mapM_cons, firstRead, laterRead]
    rfl

end Code

namespace Binding

theorem ofLine?_line {binding : Binding} {notice : Notice} (told : binding.ToldBy notice)
    (oneWord : ∀ c ∈ binding.name.toList, Text.isBlank c = false)
    (flat : ∀ code ∈ binding.body, code.Flat) : ofLine? notice.line = some binding := by
  obtain ⟨texts, plain, rfl⟩ := told
  obtain ⟨lexemes, read⟩ := Code.ofText?_plainTexts flat plain
  have noSpace : ∀ c ∈ binding.name.toList, c ≠ ' ' := by
    rintro _ member rfl
    exact Bool.false_ne_true ((oneWord ' ' member).symm.trans (by decide))
  have name (rest : List Char) :
      (binding.name.toList ++ (" as [".toList ++ rest)).takeWhile (· ≠ ' ') =
        binding.name.toList := Text.takeWhile_append_space noSpace _
  have behind (rest : List Char) :
      (binding.name.toList ++ (" as [".toList ++ rest)).dropWhile (· ≠ ' ') =
        " as [".toList ++ rest := Text.dropWhile_append_space noSpace _
  simp only [ofLine?, Notice.toList_line_defined, Text.behind?_append, Option.bind_eq_bind,
    Option.bind_some, behind, name, Text.before?_append, String.ofList_toList,
    Text.lexemes_intercalate lexemes, read]
  rfl

theorem ofLine?_stopped (report : Report) : ofLine? (Notice.stopped report).line = none := by
  obtain ⟨rest, line⟩ := Notice.toList_line_stopped report
  have other :
      Text.behind? "DEBUG compiler: defined " (Notice.stopped report).line.toList = none := by
    rw [line, Option.eq_none_iff_forall_not_mem]
    intro told begins
    -- The names of the two writers differ before the seventh character is over.
    have same := congrArg (List.take 7) (List.isPrefixOf?_eq_some_iff_append_eq.1 begins)
    rw [List.take_append_of_le_length (by decide),
      List.take_append_of_le_length (by decide)] at same
    exact absurd same (by decide)
  rw [ofLine?, other]
  rfl

theorem filterMap_ofLine? {bindings : List Binding} {notices : List Notice}
    (told : List.Forall₂ ToldBy bindings notices)
    (oneWord : ∀ binding ∈ bindings, Text.IsLexeme binding.name)
    (flat : ∀ binding ∈ bindings, ∀ code ∈ binding.body, code.Flat) :
    (notices.map Notice.line).filterMap ofLine? = bindings := by
  induction told with
  | nil => rfl
  | cons first _ ih =>
    obtain ⟨oneWordFirst, oneWordLater⟩ := List.forall_mem_cons.1 oneWord
    obtain ⟨flatFirst, flatLater⟩ := List.forall_mem_cons.1 flat
    rw [List.map_cons, List.filterMap_cons_some (ofLine?_line first oneWordFirst.2 flatFirst),
      ih oneWordLater flatLater]

theorem filterMap_ofLine?_stopped (reports : List Report) :
    ((reports.map Notice.stopped).map Notice.line).filterMap ofLine? = [] := by
  induction reports with
  | nil => rfl
  | cons report reports ih =>
    rw [List.map_cons, List.map_cons, List.filterMap_cons_none (ofLine?_stopped report), ih]

end Binding

/-! ### Evaluations -/

namespace Machine

/-- What evaluating a text binds, in order. -/
def evalBindings (m : Machine) (text : String) : List Binding :=
  m.bindings (Program.read (Text.lexemes text)).phrases

theorem dictionary_eval (m : Machine) (text : String) : (m.eval text).machine.dictionary =
    (m.evalBindings text).foldl Dictionary.bind m.dictionary := by
  rw [machine_eval, dictionary_run, evalBindings]

theorem written_eval (m : Machine) (text : String) : (m.eval text).written =
    (m.run (Text.lexemes text)).written ++
      ((m.eval text).fault?.bind Fault.report?).toList.map .stopped := by
  rw [fault?_eval, eval_eq_recorded, Run.written_recorded]

/-- The names that an evaluation binds are single lexemes, so they hold no space. -/
theorem isLexeme_of_mem_evalBindings {m : Machine} (sound : m.dictionary.Sound) {text : String} :
    ∀ binding ∈ m.evalBindings text, Text.IsLexeme binding.name := by
  intro binding member
  obtain ⟨⟨source, within, name⟩, -⟩ :=
    of_mem_bindings sound (Program.readable_read _) binding member
  obtain ⟨lexeme, found, same⟩ :=
    Program.names_of_read _ _ within source.name List.mem_cons_self
  rw [name, ← same]
  exact (Text.isLexeme_of_mem_lexemes found).upper

theorem filterMap_ofLine?_eval {m : Machine} (sound : m.dictionary.Sound) (text : String) :
    ((m.eval text).written.map Notice.line).filterMap Binding.ofLine? = m.evalBindings text := by
  have told : List.Forall₂ Binding.ToldBy (m.evalBindings text) _ :=
    written_run sound (Text.lexemes text)
  rw [written_eval, List.map_append, List.filterMap_append, Binding.filterMap_ofLine?_stopped,
    List.append_nil]
  exact Binding.filterMap_ofLine? told (isLexeme_of_mem_evalBindings sound)
    fun binding member => (of_mem_bindings sound (Program.readable_read _) binding member).2

theorem foldl_journal {m : Machine} (sound : m.dictionary.Sound) (texts : List String) :
    (((m.journal (texts.map .eval)).map Notice.line).filterMap Binding.ofLine?).foldl
        Dictionary.bind m.dictionary =
      (m.after (texts.map .eval)).dictionary := by
  induction texts generalizing m with
  | nil => rfl
  | cons text texts ih =>
    have later := ih ((History.eval text m).sound sound)
    rw [List.map_cons, journal, after, List.map_append, List.filterMap_append, List.foldl_append,
      operate, filterMap_ofLine?_eval sound, ← dictionary_eval, later]

/-- After some evaluations, whichever of them failed, another one writes a notice of each binding
that it makes, in order, and then the report that stops it, if there is one. The lines of the
journal alone give back the whole dictionary. -/
theorem replay_journal (texts : List String) :
    let m := fresh.after (texts.map .eval)
    (∀ text, ∃ notices,
      List.Forall₂ Binding.ToldBy (m.evalBindings text) notices ∧
        (m.eval text).machine.dictionary =
          (m.evalBindings text).foldl Dictionary.bind m.dictionary ∧
        (m.eval text).written =
          notices ++ ((m.eval text).fault?.bind Fault.report?).toList.map .stopped) ∧
    Dictionary.replay ((fresh.journal (texts.map .eval)).map Notice.line) = m.dictionary := by
  intro m
  have sound : m.dictionary.Sound := Reached.sound ⟨_, rfl⟩
  have retold := foldl_journal (m := fresh) Dictionary.sound_seeded texts
  refine ⟨fun text => ?_, retold⟩
  exact ⟨_, written_run sound _, dictionary_eval m text, written_eval m text⟩

end Machine

end Forth
