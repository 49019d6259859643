import Forth.Proofs.Introspection
import Mathlib.Data.List.Induction
import Mathlib.Tactic.TFAE

/-! A dictionary is a map whose keys are names in upper case. Whatever has been defined in whatever
order, a name finds the code of the last definition whose name agrees with it in upper case, and all
ways to ask whether a name is bound agree. -/

namespace Forth

/-! ### Descriptions that fail -/

theorem Numeral.eq_numberTooLong_of_write {n : Int} {fault : Fault}
    (failed : write n = .error fault) : fault = .numberTooLong := by
  by_cases writable : Writable n
  · rw [write, if_pos writable] at failed
    cases failed
  · rw [write, if_neg writable] at failed
    exact (Except.error.inj failed).symm

namespace Code

mutual

/-- Only a number that is too long keeps code from being shown. -/
theorem eq_numberTooLong_of_text {fault : Fault} :
    (code : Code) → code.text = .error fault → fault = .numberTooLong
  | literal value => by
    intro failed
    rw [text] at failed
    cases written : Numeral.write value with
    | ok digits => rw [written] at failed; cases failed
    | error other =>
      rw [written] at failed
      cases failed
      exact Numeral.eq_numberTooLong_of_write written
  | call _ | primitive _ | inert _ _ => by
    intro failed
    rw [text] at failed
    cases failed
  | colon _ body => by
    intro failed
    rw [text] at failed
    cases told : texts body with
    | ok shown => rw [told] at failed; cases failed
    | error other =>
      rw [told] at failed
      cases failed
      exact eq_numberTooLong_of_texts body told

theorem eq_numberTooLong_of_texts {fault : Fault} :
    (body : List Code) → texts body = .error fault → fault = .numberTooLong
  | [] => by
    intro failed
    rw [texts] at failed
    cases failed
  | code :: codes => by
    intro failed
    rw [texts] at failed
    cases first : code.text with
    | error other =>
      rw [first] at failed
      cases failed
      exact eq_numberTooLong_of_text code first
    | ok shown =>
      cases later : texts codes with
      | error other =>
        rw [first, later] at failed
        cases failed
        exact eq_numberTooLong_of_texts codes later
      | ok others => rw [first, later] at failed; cases failed

end

theorem describe_of_unbox {code : Code} {body : List Code} (opened : code.unbox = .ok body) :
    code.describe = (texts body).map (" ".intercalate ·) := by
  rw [describe, opened]
  rfl

/-- Describing code looks no name up, so it is never for an unknown word that it fails. -/
theorem family?_of_describe_eq_error {code : Code} {fault : Fault}
    (failed : code.describe = .error fault) : fault.family? ≠ some .unknownWord := by
  cases code with
  | call name =>
    cases failed
    exact fun same => by cases same
  | literal _ | primitive _ | inert _ _ | colon _ _ =>
    rw [describe_of_unbox rfl] at failed
    cases told : texts _ with
    | ok shown => rw [told] at failed; cases failed
    | error other =>
      rw [told] at failed
      cases failed
      rw [eq_numberTooLong_of_texts _ told]
      exact fun same => by cases same

end Code

namespace Dictionary

/-- The dictionary after definitions in order, each a name and the code that it is bound to. -/
def defineAll (d : Dictionary) (definitions : List (String × Code)) : Dictionary :=
  definitions.foldl (fun d definition => d.define definition.1 definition.2) d

/-- The code of the last definition whose name agrees with `name` in upper case. -/
def latest? (definitions : List (String × Code)) (name : String) : Option Code :=
  (definitions.reverse.find? fun definition => Text.upper definition.1 = Text.upper name).map (·.2)

theorem defineAll_concat (d : Dictionary) (definitions : List (String × Code))
    (definition : String × Code) :
    d.defineAll (definitions ++ [definition]) =
      (d.defineAll definitions).define definition.1 definition.2 := by
  rw [defineAll, List.foldl_append]
  rfl

theorem latest?_concat (definitions : List (String × Code)) (definition : String × Code)
    (name : String) :
    latest? (definitions ++ [definition]) name =
      if Text.upper name = Text.upper definition.1 then some definition.2
      else latest? definitions name := by
  rw [latest?, List.reverse_append, List.reverse_singleton, List.singleton_append, List.find?_cons]
  by_cases same : Text.upper name = Text.upper definition.1
  · simp [same]
  · simp [same, Ne.symm same, latest?]

theorem lookup_defineAll (definitions : List (String × Code)) (name : String) :
    (empty.defineAll definitions).lookup name = latest? definitions name := by
  induction definitions using List.reverseRecOn with
  | nil => rfl
  | append_singleton definitions definition ih =>
    rw [defineAll_concat, lookup_define, latest?_concat, ih]

theorem upper_of_mem_names_defineAll {definitions : List (String × Code)} {key : String}
    (listed : key ∈ (empty.defineAll definitions).names) : Text.upper key = key := by
  induction definitions using List.reverseRecOn with
  | nil => cases listed
  | append_singleton definitions definition ih =>
    rw [defineAll_concat] at listed
    obtain ⟨entry, found, rfl⟩ := List.mem_map.1 listed
    rcases mem_define found with rfl | old
    · exact Text.upper_upper definition.1
    · exact ih (List.mem_map_of_mem old)

/-! ### Whether a name is bound -/

theorem contains_eq_true_iff (d : Dictionary) (name : String) :
    d.contains name = true ↔ ∃ code, d.lookup name = some code :=
  Option.isSome_iff_exists

theorem describe_unknown_iff (d : Dictionary) (name : String) :
    (∃ fault, d.describe name = .error fault ∧ fault.family? = some .unknownWord) ↔
      d.lookup name = none := by
  rw [describe]
  cases found : d.lookup name with
  | none => exact iff_of_true ⟨_, rfl, rfl⟩ rfl
  | some code =>
    refine iff_of_false ?_ (by simp)
    rintro ⟨fault, failed, family⟩
    exact Code.family?_of_describe_eq_error failed family

theorem bound_tfae (d : Dictionary) (name : String) :
    [d.contains name = true, name ∈ d, d.lookup name ≠ none, Text.upper name ∈ d.names,
      ¬∃ fault, d.describe name = .error fault ∧ fault.family? = some .unknownWord].TFAE := by
  tfae_have 1 ↔ 2 := Iff.rfl
  tfae_have 1 ↔ 3 := by rw [contains, Option.isSome_iff_ne_none]
  tfae_have 1 ↔ 4 := (d.mem_names_iff name).symm
  tfae_have 3 ↔ 5 := not_congr (d.describe_unknown_iff name).symm
  tfae_finish

/-- Whatever is defined in an empty dictionary, each name finds the code of the last definition
whose name agrees with it in upper case, and all ways to ask whether it is bound agree. The names
are listed in strictly increasing order, in upper case, and each is found. -/
theorem defineAll_isMap (definitions : List (String × Code)) (name : String) :
    let d := empty.defineAll definitions
    d.lookup name = latest? definitions name ∧
      [d.contains name = true, name ∈ d, d.lookup name ≠ none, Text.upper name ∈ d.names,
        ¬∃ fault, d.describe name = .error fault ∧ fault.family? = some .unknownWord].TFAE ∧
      d.names.Pairwise (· < ·) ∧
      ∀ key ∈ d.names, Text.upper key = key ∧ ∃ code, d.lookup key = some code := by
  intro d
  refine ⟨lookup_defineAll definitions name, d.bound_tfae name, d.pairwise_names, ?_⟩
  intro key listed
  have upper : Text.upper key = key := upper_of_mem_names_defineAll listed
  refine ⟨upper, (d.contains_eq_true_iff key).1 ?_⟩
  rwa [← d.mem_names_iff, upper]

/-- Two of the letters have upper cases of two letters each, so three spellings are one name. -/
theorem defineAll_isMap_spellings :
    let definitions : List (String × Code) := [("straße", .colon "one" [.literal 1]),
      ("ﬁx", .primitive .swap), ("STRASSE", .primitive .add), ("Fix", .inert "fix" ""),
      ("+", .colon "none" [])]
    let d := empty.defineAll definitions
    d.names = ["+", "FIX", "STRASSE"] ∧ d.lookup "ſtraße" = some (.primitive .add) ∧
      Text.upper "FIX" = "FIX" ∧ ∃ code, d.lookup "FIX" = some code := by
  intro definitions d
  have names : d.names = ["+", "FIX", "STRASSE"] := by decide +kernel
  have fix : "FIX" ∈ d.names := by
    rw [names]
    decide
  obtain ⟨latest, -, -, listed⟩ := defineAll_isMap definitions "ſtraße"
  exact ⟨names, latest.trans rfl, listed "FIX" fix⟩

end Dictionary

end Forth
