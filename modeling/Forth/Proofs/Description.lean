import Forth.Proofs.Soundness
import Forth.Proofs.Text.Lexemes

/-! What descriptions say. The texts of numbers and primitives are lexemes that tell them apart, so
the description of a word gives back the body that it opens to. -/

namespace Forth

namespace Text

theorem Colour.on_injective {colour other : Colour} (same : colour.on = other.on) :
    colour = other := by
  cases colour <;> cases other <;> first | rfl | exact absurd same (by decide)

theorem Colour.length_on (colour : Colour) : colour.on.toList.length = 5 := by
  cases colour <;> rfl

theorem Colour.paint_eq_iff {colour other : Colour} {text told : String} :
    colour.paint text = other.paint told ↔ colour = other ∧ text = told := by
  constructor
  · intro same
    have lists := congrArg String.toList same
    simp only [paint, String.toList_append, List.append_assoc] at lists
    obtain ⟨on, rest⟩ := List.append_inj lists (by rw [length_on, length_on])
    exact ⟨on_injective (String.toList_inj.1 on),
      String.toList_inj.1 (List.append_cancel_right rest)⟩
  · rintro ⟨rfl, rfl⟩
    rfl

theorem forall_not_isBlank {chars : List Char} (h : chars.all (!isBlank ·) = true) :
    ∀ c ∈ chars, isBlank c = false := by
  simpa using h

theorem Colour.isLexeme_paint (colour : Colour) {text : String}
    (notBlank : ∀ c ∈ text.toList, isBlank c = false) : IsLexeme (colour.paint text) := by
  have on : ∀ c ∈ colour.on.toList, isBlank c = false :=
    forall_not_isBlank (by cases colour <;> decide)
  have off : ∀ c ∈ colourOff.toList, isBlank c = false := forall_not_isBlank (by decide)
  constructor
  · intro empty
    have nothing := congrArg (List.length ∘ String.toList) empty
    simp [paint, length_on] at nothing
  · intro c member
    simp only [paint, String.toList_append, List.mem_append] at member
    rcases member with (here | within) | behind
    · exact on c here
    · exact notBlank c within
    · exact off c behind

theorem isBlank_of_isDigit {c : Char} (digit : c.isDigit = true) : isBlank c = false := by
  by_contra blank
  simp only [isBlank, Bool.not_eq_false, Bool.or_eq_true, decide_eq_true_eq] at blank
  rcases blank with ((((rfl | rfl) | rfl) | rfl) | rfl) | rfl <;> revert digit <;> decide

end Text

theorem Primitive.ofName?_name (p : Primitive) : ofName? p.name = some p := by
  cases p <;> decide

namespace Code

theorem text_literal {value : Nat} (bound : value < 10 ^ Numeral.digitLimit) :
    (literal value).text = .ok (Text.shownNumber (Nat.repr value)) := by
  rw [Code.text, write_of_lt bound]
  rfl

theorem text_primitive (p : Primitive) : (primitive p).text = .ok (Text.shownBuiltin p.name) := by
  rw [Code.text]

/-- What flat code is shown as is a lexeme. -/
theorem Flat.isLexeme_text {code : Code} (flat : code.Flat) {shown : String}
    (told : code.text = .ok shown) : Text.IsLexeme shown := by
  cases flat with
  | @literal value bound =>
    rw [text_literal bound] at told
    cases told
    refine Text.Colour.isLexeme_paint _ fun c member => ?_
    rw [Nat.toList_repr] at member
    exact Text.isBlank_of_isDigit (Nat.isDigit_of_mem_toDigits (by decide) (by decide) member)
  | primitive p =>
    rw [text_primitive] at told
    cases told
    exact Text.Colour.isLexeme_paint _ (Text.forall_not_isBlank (by cases p <;> decide))

theorem Flat.eq_of_text_eq {code other : Code} (flat : code.Flat) (otherFlat : other.Flat)
    (same : code.text = other.text) : code = other := by
  cases flat with
  | @literal value bound =>
    cases otherFlat with
    | @literal otherValue otherBound =>
      rw [text_literal bound, text_literal otherBound] at same
      have digits := (Text.Colour.paint_eq_iff.1 (Except.ok.inj same)).2
      rw [Numeral.repr_injective digits]
    | primitive p =>
      rw [text_literal bound, text_primitive] at same
      cases (Text.Colour.paint_eq_iff.1 (Except.ok.inj same)).1
  | primitive p =>
    cases otherFlat with
    | literal bound =>
      rw [text_literal bound, text_primitive] at same
      cases (Text.Colour.paint_eq_iff.1 (Except.ok.inj same)).1
    | primitive q =>
      rw [text_primitive, text_primitive] at same
      have shown := (Text.Colour.paint_eq_iff.1 (Except.ok.inj same)).2
      have names := (String.append_right_inj _).1 ((String.append_left_inj _).1 shown)
      have primitives := congrArg Primitive.ofName? names
      rw [Primitive.ofName?_name, Primitive.ofName?_name] at primitives
      rw [Option.some.inj primitives]

theorem texts_cons_eq_ok {code : Code} {codes : List Code} {shown : List String}
    (told : texts (code :: codes) = .ok shown) :
    ∃ first later, code.text = .ok first ∧ texts codes = .ok later ∧ shown = first :: later := by
  rw [texts] at told
  cases first : code.text with
  | error fault => rw [first] at told; cases told
  | ok text =>
    cases later : texts codes with
    | error fault => rw [first, later] at told; cases told
    | ok others =>
      rw [first, later] at told
      exact ⟨text, others, rfl, rfl, (Except.ok.inj told).symm⟩

theorem isLexeme_of_texts {body : List Code} (flat : ∀ code ∈ body, code.Flat)
    {shown : List String} (told : texts body = .ok shown) :
    ∀ text ∈ shown, Text.IsLexeme text := by
  induction body generalizing shown with
  | nil =>
    rw [texts] at told
    cases told
    simp
  | cons code codes ih =>
    obtain ⟨first, later, toldFirst, toldLater, rfl⟩ := texts_cons_eq_ok told
    obtain ⟨flatFirst, flatLater⟩ := List.forall_mem_cons.1 flat
    exact List.forall_mem_cons.2 ⟨flatFirst.isLexeme_text toldFirst, ih flatLater toldLater⟩

theorem eq_of_texts_eq {body other : List Code} (flat : ∀ code ∈ body, code.Flat)
    (otherFlat : ∀ code ∈ other, code.Flat) {shown : List String} (told : texts body = .ok shown)
    (otherTold : texts other = .ok shown) : body = other := by
  induction body generalizing other shown with
  | nil =>
    cases other with
    | nil => rfl
    | cons code codes =>
      obtain ⟨first, later, -, -, rfl⟩ := texts_cons_eq_ok otherTold
      rw [texts] at told
      cases told
  | cons code codes ih =>
    obtain ⟨first, later, toldFirst, toldLater, rfl⟩ := texts_cons_eq_ok told
    obtain ⟨flatFirst, flatLater⟩ := List.forall_mem_cons.1 flat
    cases other with
    | nil =>
      rw [texts] at otherTold
      cases otherTold
    | cons otherCode otherCodes =>
      obtain ⟨_, _, otherFirst, otherLater, same⟩ := texts_cons_eq_ok otherTold
      obtain ⟨otherFlatFirst, otherFlatLater⟩ := List.forall_mem_cons.1 otherFlat
      cases same
      rw [flatFirst.eq_of_text_eq otherFlatFirst (toldFirst.trans otherFirst.symm),
        ih flatLater otherFlatLater toldLater otherLater]

/-- The description of a word is that of the body it opens to, which it tells apart from others. -/
theorem BoundTo.unbox_eq_of_describe_eq {key otherKey : String} {code other : Code}
    (bound : code.BoundTo key) (otherBound : other.BoundTo otherKey)
    (same : code.describe = other.describe) : code.unbox = other.unbox := by
  obtain ⟨body, opened, flat⟩ := bound.unbox
  obtain ⟨otherBody, otherOpened, otherFlat⟩ := otherBound.unbox
  obtain ⟨shown, told⟩ := texts_of_flat flat
  obtain ⟨otherShown, otherTold⟩ := texts_of_flat otherFlat
  rw [describe_eq_ok opened told, describe_eq_ok otherOpened otherTold] at same
  have lexemes := congrArg Text.lexemes (Except.ok.inj same)
  rw [Text.lexemes_intercalate (isLexeme_of_texts flat told),
    Text.lexemes_intercalate (isLexeme_of_texts otherFlat otherTold)] at lexemes
  rw [← lexemes] at otherTold
  rw [opened, otherOpened, eq_of_texts_eq flat otherFlat told otherTold]

end Code

end Forth
