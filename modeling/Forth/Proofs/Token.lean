import Forth.Token
import Forth.Proofs.Text.Folding

/-! What a lexeme means does not hang on its case, and a number that can be read is small enough to
be written. -/

namespace Forth

namespace Numeral

theorem writable_iff (n : Int) : Writable n ↔ n.natAbs < 10 ^ digitLimit := by
  rw [Writable, Nat.pow_eq]

theorem toNat_lt_of_isDigit {c : Char} (digit : c.isDigit = true) : c.toNat - '0'.toNat < 10 := by
  simp only [Char.isDigit, Bool.and_eq_true, decide_eq_true_eq, UInt32.le_iff_toNat_le] at digit
  have high : c.toNat ≤ 57 := digit.2
  have zero : '0'.toNat = 48 := rfl
  omega

theorem ofDigitChars_lt {digits : List Char} (all : ∀ c ∈ digits, c.isDigit = true) :
    Nat.ofDigitChars 10 digits 0 < 10 ^ digits.length := by
  induction digits with
  | nil => simp
  | cons c rest ih =>
    have first : c.toNat - '0'.toNat < 10 := toNat_lt_of_isDigit (all c (by simp))
    have later := ih fun d member => all d (by simp [member])
    rw [Nat.ofDigitChars_cons, Nat.ofDigitChars_eq_ofDigitChars_zero, List.length_cons]
    calc
      10 ^ rest.length * (10 * 0 + (c.toNat - '0'.toNat)) + Nat.ofDigitChars 10 rest 0 <
          10 ^ rest.length * (10 * 0 + (c.toNat - '0'.toNat)) + 10 ^ rest.length :=
        Nat.add_lt_add_left later _
      _ = 10 ^ rest.length * (c.toNat - '0'.toNat + 1) := by
        rw [Nat.mul_zero, Nat.zero_add, Nat.mul_succ]
      _ ≤ 10 ^ rest.length * 10 := Nat.mul_le_mul_left _ first
      _ = 10 ^ (rest.length + 1) := (Nat.pow_succ ..).symm

theorem forall_isDigit {lexeme : String} (numeral : isNumeral lexeme = true) :
    ∀ c ∈ lexeme.toList, c.isDigit = true := by
  simp only [isNumeral, Bool.and_eq_true, List.all_eq_true] at numeral
  exact numeral.2

theorem value_lt {lexeme : String} (numeral : isNumeral lexeme = true) :
    value lexeme < 10 ^ lexeme.length := by
  rw [value, ← String.length_toList]
  exact ofDigitChars_lt (forall_isDigit numeral)

theorem value_repr (n : Nat) : value (Nat.repr n) = n := by
  rw [value, Nat.toList_repr, Nat.ofDigitChars_toDigits (by decide) (by decide)]

theorem isNumeral_repr (n : Nat) : isNumeral (Nat.repr n) = true := by
  have digits : ∀ c ∈ (Nat.repr n).toList, c.isDigit = true := by
    intro c member
    rw [Nat.toList_repr] at member
    exact Nat.isDigit_of_mem_toDigits (by decide) (by decide) member
  simp only [isNumeral, Bool.and_eq_true, List.all_eq_true]
  exact ⟨by simp, digits⟩

theorem repr_injective : Function.Injective Nat.repr :=
  Function.LeftInverse.injective value_repr

/-- No digit is a sign. -/
theorem repr_ne_minus (n : Nat) (text : String) : Nat.repr n ≠ "-" ++ text := by
  intro same
  have digits := forall_isDigit (isNumeral_repr n)
  rw [same, String.toList_append] at digits
  exact absurd (digits '-' (List.mem_append_left _ (by decide))) (by decide)

theorem int_repr_injective : Function.Injective Int.repr := by
  intro a b same
  cases a with
  | ofNat m =>
    cases b with
    | ofNat n => exact congrArg Int.ofNat (repr_injective same)
    | negSucc n => exact absurd same (repr_ne_minus m _)
  | negSucc m =>
    cases b with
    | ofNat n => exact absurd same.symm (repr_ne_minus n _)
    | negSucc n =>
      have digits := repr_injective ((String.append_right_inj "-").1 same)
      rw [Nat.succ.inj digits]

theorem toNat_lt_of_digit (c : Char) (digit : c.isDigit = true) : c.toNat < 0x41 := by
  have := toNat_lt_of_isDigit digit
  have zero : '0'.toNat = 48 := rfl
  omega

theorem upper_of_isNumeral {lexeme : String} (numeral : isNumeral lexeme = true) :
    Text.upper lexeme = lexeme := by
  refine Text.upper_of_lt fun c member => ?_
  have := toNat_lt_of_digit c (forall_isDigit numeral c member)
  omega

@[simp] theorem isNumeral_upper (lexeme : String) :
    isNumeral (Text.upper lexeme) = isNumeral lexeme := by
  have digits : (Text.upper lexeme).toList.all Char.isDigit = lexeme.toList.all Char.isDigit := by
    rw [Text.toList_upper, List.all_flatMap]
    simp only [Text.all_upperChar toNat_lt_of_digit]
  rw [isNumeral, isNumeral, digits, Text.isEmpty_upper]

end Numeral

/-! ### Kinds of lexemes -/

/-- A numeral of more digits than can be read. -/
def Numeral.IsOverlong (lexeme : String) : Prop :=
  isNumeral lexeme = true ∧ digitLimit < lexeme.length

/-- A lexeme that stands for a word: no numeral, no colon and no semicolon. -/
def IsWord (lexeme : String) : Prop :=
  Numeral.isNumeral lexeme = false ∧ lexeme ≠ ":" ∧ lexeme ≠ ";"

/-- A lexeme that can be a part of a body. -/
def IsPart (lexeme : String) : Prop :=
  Numeral.isNumeral lexeme = true ∨ IsWord lexeme

theorem isPart_iff (lexeme : String) : IsPart lexeme ↔ lexeme ≠ ":" ∧ lexeme ≠ ";" := by
  constructor
  · rintro (numeral | isWord)
    · constructor <;> rintro rfl <;> exact absurd numeral (by decide)
    · exact isWord.2
  · intro other
    cases numeral : Numeral.isNumeral lexeme with
    | true => exact .inl numeral
    | false => exact .inr ⟨numeral, other⟩

/-- A part of a body that can be read. -/
def IsLegible (lexeme : String) : Prop :=
  IsPart lexeme ∧ ¬Numeral.IsOverlong lexeme

theorem Numeral.not_isOverlong {lexeme : String} (notNumeral : isNumeral lexeme = false) :
    ¬IsOverlong lexeme :=
  fun overlong => Bool.false_ne_true (notNumeral.symm.trans overlong.1)

theorem IsLegible.numeral {lexeme : String} (numeral : Numeral.isNumeral lexeme = true)
    (short : lexeme.length ≤ Numeral.digitLimit) : IsLegible lexeme :=
  ⟨.inl numeral, fun overlong => Nat.not_lt.2 short overlong.2⟩

theorem IsLegible.word {lexeme : String} (isWord : IsWord lexeme) : IsLegible lexeme :=
  ⟨.inr isWord, Numeral.not_isOverlong isWord.1⟩

namespace Token

@[simp] theorem ofLexeme_upper (lexeme : String) :
    ofLexeme (Text.upper lexeme) = ofLexeme lexeme := by
  by_cases numeral : Numeral.isNumeral lexeme = true
  · rw [Numeral.upper_of_isNumeral numeral]
  · simp [ofLexeme, numeral]

/-- What the lexeme means, by its kind. -/
inductive MeantBy (lexeme : String) : Token → Prop
  | number (numeral : Numeral.isNumeral lexeme = true)
    (short : lexeme.length ≤ Numeral.digitLimit) : MeantBy lexeme (.number (Numeral.value lexeme))
  | overlong (overlong : Numeral.IsOverlong lexeme) : MeantBy lexeme (.overlong lexeme.length)
  | colon (same : lexeme = ":") : MeantBy lexeme .colon
  | semicolon (same : lexeme = ";") : MeantBy lexeme .semicolon
  | word (isWord : IsWord lexeme) : MeantBy lexeme (.word (Text.upper lexeme))

theorem ofLexeme_colon : ofLexeme ":" = .colon := by decide +kernel

theorem ofLexeme_semicolon : ofLexeme ";" = .semicolon := by decide +kernel

theorem upper_eq_colon_iff (lexeme : String) : Text.upper lexeme = ":" ↔ lexeme = ":" :=
  Text.upper_eq_iff_of_lt (List.forall_mem_singleton.2 (by decide))

theorem upper_eq_semicolon_iff (lexeme : String) : Text.upper lexeme = ";" ↔ lexeme = ";" :=
  Text.upper_eq_iff_of_lt (List.forall_mem_singleton.2 (by decide))

theorem meantBy_ofLexeme (lexeme : String) : (ofLexeme lexeme).MeantBy lexeme := by
  rw [ofLexeme]
  split
  case isTrue numeral =>
    split
    case isTrue short => exact .number numeral short
    case isFalse long => exact .overlong ⟨numeral, Nat.not_le.1 long⟩
  case isFalse notNumeral =>
    rw [ofName]
    split
    case isTrue same => exact .colon ((upper_eq_colon_iff lexeme).1 same)
    case isFalse notColon =>
      split
      case isTrue same => exact .semicolon ((upper_eq_semicolon_iff lexeme).1 same)
      case isFalse notSemicolon =>
        exact .word ⟨(Bool.not_eq_true _).mp notNumeral,
          mt (upper_eq_colon_iff lexeme).2 notColon,
          mt (upper_eq_semicolon_iff lexeme).2 notSemicolon⟩

theorem meantBy_iff {lexeme : String} {token : Token} :
    token.MeantBy lexeme ↔ ofLexeme lexeme = token := by
  constructor
  · intro meant
    cases meant with
    | number numeral short => rw [ofLexeme, if_pos numeral, if_pos short]
    | overlong overlong =>
      rw [ofLexeme, if_pos overlong.1, if_neg (Nat.not_le.2 overlong.2)]
    | colon same => rw [same, ofLexeme_colon]
    | semicolon same => rw [same, ofLexeme_semicolon]
    | word isWord =>
      obtain ⟨notNumeral, notColon, notSemicolon⟩ := isWord
      rw [ofLexeme, notNumeral, if_neg Bool.false_ne_true, ofName,
        if_neg (mt (upper_eq_colon_iff lexeme).1 notColon),
        if_neg (mt (upper_eq_semicolon_iff lexeme).1 notSemicolon)]
  · rintro rfl
    exact meantBy_ofLexeme lexeme

theorem lt_of_ofLexeme {lexeme : String} {value : Nat} (h : ofLexeme lexeme = .number value) :
    value < 10 ^ Numeral.digitLimit := by
  cases meantBy_iff.2 h with
  | number numeral short =>
    exact Nat.lt_of_lt_of_le (Numeral.value_lt numeral) (Nat.pow_le_pow_right (by decide) short)

theorem isWord_of_ofLexeme {lexeme name : String} (h : ofLexeme lexeme = .word name) :
    IsWord lexeme := by
  cases meantBy_iff.2 h with
  | word isWord => exact isWord

theorem upper_of_ofLexeme {lexeme name : String} (h : ofLexeme lexeme = .word name) :
    Text.upper lexeme = name := by
  cases meantBy_iff.2 h with
  | word _ => rfl

end Token

/-- The name can be that of a word: as a lexeme it means itself. -/
def WordName (name : String) : Prop := Token.ofLexeme name = .word name

namespace WordName

theorem ofLexeme {lexeme name : String} (h : Token.ofLexeme lexeme = .word name) :
    WordName name := by
  rw [WordName, ← Token.upper_of_ofLexeme h, Token.ofLexeme_upper, h, Token.upper_of_ofLexeme h]

theorem upper {name : String} (h : WordName name) : Text.upper name = name :=
  Token.upper_of_ofLexeme h

end WordName

end Forth
