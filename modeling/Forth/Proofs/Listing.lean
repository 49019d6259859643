import Forth.Proofs.Introspection
import Forth.Proofs.Replay

/-! Listed words can be called. Only single lexemes become names when texts are evaluated, and upper
case makes no name a numeral, a reserved word or several lexemes. So whatever name a dictionary
lists, the name alone is a text, and evaluating it executes the entry. -/

namespace Forth

instance (text : String) : Decidable (Text.IsLexeme text) :=
  decidable_of_iff (text ≠ "" ∧ text.toList.all (!Text.isBlank ·) = true) (by simp [Text.IsLexeme])

/-- No name that is bound is read as anything but a word. -/
theorem Code.BoundTo.wordName {key : String} {code : Code} (bound : code.BoundTo key) :
    WordName key := by
  cases bound with
  | @primitive p name =>
    subst name
    unfold WordName
    cases p <;> decide +kernel
  | colon name _ => exact name

namespace Dictionary

/-- Every name that is bound is a single lexeme. -/
def SingleNames (d : Dictionary) : Prop := ∀ key ∈ d.names, Text.IsLexeme key

namespace SingleNames

variable {d : Dictionary}

theorem define (single : d.SingleNames) {name : String} (isLexeme : Text.IsLexeme name)
    (code : Code) : (d.define name code).SingleNames := by
  intro key member
  obtain ⟨entry, found, rfl⟩ := List.mem_map.1 member
  rcases mem_define found with rfl | old
  · exact isLexeme.upper
  · exact single _ (List.mem_map_of_mem old)

theorem foldl_define {α : Type} {name : α → String} (code : α → Code) (single : d.SingleNames)
    {items : List α} (lexemes : ∀ item ∈ items, Text.IsLexeme (name item)) :
    (items.foldl (fun d item => d.define (name item) (code item)) d).SingleNames := by
  induction items generalizing d with
  | nil => exact single
  | cons item items ih =>
    obtain ⟨first, later⟩ := List.forall_mem_cons.1 lexemes
    exact ih (single.define first (code item)) later

end SingleNames

theorem singleNames_seeded : seeded.SingleNames := by
  refine SingleNames.foldl_define .primitive (by simp [SingleNames, names, empty]) fun p _ => ?_
  cases p <;> decide +kernel

namespace Sound

variable {d : Dictionary}

theorem wordName_of_mem_names (sound : d.Sound) {key : String} (listed : key ∈ d.names) :
    WordName key := by
  obtain ⟨entry, found, rfl⟩ := List.mem_map.1 listed
  exact (sound.entries entry found).wordName

theorem exists_lookup_of_mem_names (sound : d.Sound) {key : String} (listed : key ∈ d.names) :
    ∃ code, d.lookup key = some code := by
  rw [← sound.upper_of_mem_names listed, mem_names_iff] at listed
  exact Option.isSome_iff_exists.1 listed

/-- Executing a name is executing what it is bound to. -/
theorem invoke_eq_exec (sound : d.Sound) {name : String} {code : Code}
    (found : d.lookup name = some code) : d.invoke name = d.exec code := by
  funext s
  obtain ⟨body, opened, -⟩ := (sound.lookup found).unbox
  rw [sound.invoke found opened d.invoke, Dictionary.exec]
  cases sound.lookup found with
  | primitive _ => cases opened; rw [Code.execAll_singleton]
  | colon _ _ => cases opened; rw [Code.exec]

end Sound

end Dictionary

namespace Machine

theorem singleNames_eval {m : Machine} (sound : m.dictionary.Sound)
    (single : m.dictionary.SingleNames) (text : String) :
    (m.eval text).machine.dictionary.SingleNames := by
  rw [dictionary_eval]
  exact single.foldl_define _ (isLexeme_of_mem_evalBindings sound)

theorem singleNames_evals {m : Machine} (sound : m.dictionary.Sound)
    (single : m.dictionary.SingleNames) (texts : List String) :
    (m.after (texts.map .eval)).dictionary.SingleNames := by
  induction texts generalizing m with
  | nil => exact single
  | cons text texts ih =>
    exact ih ((History.eval text m).sound sound) (singleNames_eval sound single text)

/-- A lexeme that means a word is a program that calls the word. -/
theorem run_singleton {name : String} (wordName : WordName name) (m : Machine) :
    m.run [name] = m.execute name := by
  have read : Phrase.read name [] = ⟨.ok (.term (.word name)), []⟩ :=
    (Term.MeantBy.word wordName).read []
  rw [run_cons_of_ok (congrArg Reading.result read), read, funext run_nil, Run.andThen_wrote_nil]
  rfl

/-- Every name that is listed after some evaluations is a lexeme, no numeral and not reserved.
Evaluated as a text, it does what calling the word does, and that is to execute its entry. -/
theorem eval_listed (texts : List String) {name : String}
    (listed : name ∈ (fresh.after (texts.map .eval)).dictionary.names) :
    let m := fresh.after (texts.map .eval)
    Text.IsLexeme name ∧ IsWord name ∧
      (m.eval name).machine = (m.execute name).machine ∧
      (m.eval name).fault? = (m.execute name).fault? ∧
      ∃ code, m.dictionary.lookup name = some code ∧
        m.execute name = m.affect (m.dictionary.exec code) := by
  intro m
  have sound : m.dictionary.Sound := Reached.sound ⟨_, rfl⟩
  have isLexeme : Text.IsLexeme name :=
    singleNames_evals Dictionary.sound_seeded Dictionary.singleNames_seeded texts name listed
  have wordName := sound.wordName_of_mem_names listed
  obtain ⟨code, found⟩ := sound.exists_lookup_of_mem_names listed
  rw [machine_eval, fault?_eval, isLexeme.lexemes, run_singleton wordName]
  refine ⟨isLexeme, Token.isWord_of_ofLexeme wordName, rfl, rfl, code, found, ?_⟩
  rw [execute, sound.invoke_eq_exec found]

/-- The upper case of the letters in these names is two letters each. Both texts fail after they
defined a word, and so does the word. -/
theorem eval_listed_shouted :
    let texts := [": ﬁx 1 + ; : ; 7", ": straße Dup ﬁx / ; : / 0 ; ; :"]
    let m := fresh.after (texts.map .eval)
    ("FIX" ∈ m.dictionary.names ∧ "STRASSE" ∈ m.dictionary.names) ∧
      Text.IsLexeme "STRASSE" ∧ IsWord "STRASSE" ∧
      (m.eval "STRASSE").machine = (m.execute "STRASSE").machine ∧
      (m.eval "STRASSE").fault? = (m.execute "STRASSE").fault? ∧
      ∃ code, m.dictionary.lookup "STRASSE" = some code ∧
        m.execute "STRASSE" = m.affect (m.dictionary.exec code) := by
  intro texts m
  have listed : "FIX" ∈ m.dictionary.names ∧ "STRASSE" ∈ m.dictionary.names := by decide +kernel
  exact ⟨listed, eval_listed texts listed.2⟩

end Machine

end Forth
