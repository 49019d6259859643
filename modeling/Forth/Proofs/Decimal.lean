import Forth.Proofs.Description
import Mathlib.Tactic.Ring

/-! Numerals are read and written exactly. What is read is the sum that the digits stand for, and
what is written is the numeral again without the zeros in front. Anything else than digits is a
word, in upper case as before. -/

namespace Forth

namespace Numeral

/-- At least one character, and each of them one of the ten digits. -/
def IsDigits (lexeme : String) : Prop :=
  lexeme ≠ "" ∧ ∀ c ∈ lexeme.toList, '0' ≤ c ∧ c ≤ '9'

/-- The number that digits stand for: the sum of what each is worth, times the power of ten that
belongs to its place. The last place has the power zero. -/
def positional (digits : List Char) : Nat :=
  (digits.reverse.mapIdx fun place c => (c.toNat - '0'.toNat) * 10 ^ place).sum

/-- The numeral from its first digit on that is not zero, and one zero if there is none. -/
def significant (numeral : String) : String :=
  match numeral.toList.dropWhile (· = '0') with
  | [] => "0"
  | digits => String.ofList digits

theorem isDigit_iff (c : Char) : c.isDigit = true ↔ '0' ≤ c ∧ c ≤ '9' := by
  simp only [Char.isDigit, Bool.and_eq_true, decide_eq_true_eq]
  exact Iff.rfl

theorem isNumeral_iff (lexeme : String) : isNumeral lexeme = true ↔ IsDigits lexeme := by
  rw [isNumeral, IsDigits, Bool.and_eq_true, List.all_eq_true]
  simp only [isDigit_iff]
  simp

/-! ### Reading -/

theorem ofDigitChars_eq_positional (digits : List Char) :
    Nat.ofDigitChars 10 digits 0 = positional digits := by
  induction digits with
  | nil => rfl
  | cons c rest ih =>
    rw [Nat.ofDigitChars_cons, Nat.ofDigitChars_eq_ofDigitChars_zero, ih, positional, positional,
      List.reverse_cons, List.mapIdx_append]
    simp
    ring

theorem ofDigitChars_dropWhile (digits : List Char) :
    Nat.ofDigitChars 10 (digits.dropWhile (· = '0')) 0 = Nat.ofDigitChars 10 digits 0 := by
  induction digits with
  | nil => rfl
  | cons c rest ih =>
    by_cases zero : c = '0'
    · rw [List.dropWhile_cons_of_pos (by simpa using zero), ih, zero, Nat.ofDigitChars_cons,
        Nat.mul_zero, Nat.sub_self]
    · rw [List.dropWhile_cons_of_neg (by simpa using zero)]

/-! ### Writing -/

theorem digitChar_of_isDigit {c : Char} (digit : c.isDigit = true) :
    Nat.digitChar (c.toNat - '0'.toNat) = c := by
  have worth := toNat_lt_of_isDigit digit
  have low : '0'.toNat ≤ c.toNat := ((isDigit_iff c).1 digit).1
  apply Char.toNat_inj.1
  rw [Nat.toNat_digitChar_of_lt_ten worth]
  have zero : '0'.toNat = 48 := rfl
  omega

/-- Reading goes on behind a number that is not zero as if its digits stood in front. -/
theorem toDigits_ofDigitChars {front : Nat} (positive : 0 < front) {digits : List Char}
    (all : ∀ c ∈ digits, c.isDigit = true) :
    Nat.toDigits 10 (Nat.ofDigitChars 10 digits front) = Nat.toDigits 10 front ++ digits := by
  induction digits generalizing front with
  | nil => rw [Nat.ofDigitChars_nil, List.append_nil]
  | cons c rest ih =>
    obtain ⟨digit, later⟩ := List.forall_mem_cons.1 all
    have worth := toNat_lt_of_isDigit digit
    have longer := Nat.toDigits_append_toDigits (by decide) positive worth
    rw [Nat.toDigits_of_lt_base worth, digitChar_of_isDigit digit] at longer
    rw [Nat.ofDigitChars_cons, ih (by omega) later, ← longer, List.append_assoc,
      List.singleton_append]

theorem toDigits_ofDigitChars_zero {c : Char} {rest : List Char} (notZero : c ≠ '0')
    (all : ∀ d ∈ c :: rest, d.isDigit = true) :
    Nat.toDigits 10 (Nat.ofDigitChars 10 (c :: rest) 0) = c :: rest := by
  obtain ⟨digit, later⟩ := List.forall_mem_cons.1 all
  have low : '0'.toNat ≤ c.toNat := ((isDigit_iff c).1 digit).1
  have other : c.toNat ≠ '0'.toNat := fun same => notZero (Char.toNat_inj.1 same)
  have positive : 0 < c.toNat - '0'.toNat := by omega
  rw [Nat.ofDigitChars_cons, Nat.mul_zero, Nat.zero_add, toDigits_ofDigitChars positive later,
    Nat.toDigits_of_lt_base (toNat_lt_of_isDigit digit), digitChar_of_isDigit digit,
    List.singleton_append]

theorem repr_value {numeral : String} (isNumeral : isNumeral numeral = true) :
    Nat.repr (value numeral) = significant numeral := by
  apply String.toList_injective
  rw [Nat.toList_repr, value, ← ofDigitChars_dropWhile, significant]
  cases cut : numeral.toList.dropWhile (· = '0') with
  | nil => rfl
  | cons c rest =>
    have stops := List.head?_dropWhile_not (· = '0') numeral.toList
    have notZero : c ≠ '0' := by simpa [cut] using stops
    have kept := (List.dropWhile_sublist (· = '0') (l := numeral.toList)).subset
    rw [String.toList_ofList]
    exact toDigits_ofDigitChars_zero notZero fun d member =>
      forall_isDigit isNumeral d (kept (cut ▸ member))

end Numeral

/-- The message tells how many digits the numeral has. -/
theorem Fault.message_numeralTooLong (digits : Nat) :
    (numeralTooLong digits).message =
      "Exceeds the limit (4300 digits) for integer string conversion: value has " ++
        toString digits ++
        " digits; use sys.set_int_max_str_digits() to increase the limit" := by
  have limit : "Exceeds the limit (" ++ toString Numeral.digitLimit ++
      " digits) for integer string conversion: value has " =
        "Exceeds the limit (4300 digits) for integer string conversion: value has " := by
    decide +kernel
  -- Rewriting with `limit` would compare the two texts by computing them.
  exact congrArg
    (· ++ toString digits ++ " digits; use sys.set_int_max_str_digits() to increase the limit")
    limit

namespace Token

open Numeral (IsDigits positional significant digitLimit)

theorem code_ofName (name : String) : (ofName name).code = .ok (.call name) := by
  rw [ofName]
  split
  case isTrue same => rw [same, code]
  case isFalse =>
    split
    case isTrue same => rw [same, code]
    case isFalse => rw [code]

theorem code_ofLexeme_of_not_isNumeral {lexeme : String}
    (notNumeral : Numeral.isNumeral lexeme = false) :
    (ofLexeme lexeme).code = .ok (.call (Text.upper lexeme)) := by
  rw [ofLexeme, notNumeral, if_neg Bool.false_ne_true, code_ofName]

/-- Digits are read as the number that they stand for, unless they are too many, which is told with
their number; the number is shown by its significant digits. Any number that can be written is read
again from what is shown of it. All else is a word, whose name is the lexeme in upper case, and no
numeral either. -/
theorem code_ofLexeme_exact (lexeme : String) :
    (IsDigits lexeme → lexeme.length ≤ digitLimit →
      (ofLexeme lexeme).code = .ok (.literal (positional lexeme.toList)) ∧
      (Code.literal (positional lexeme.toList)).text =
        .ok (Text.shownNumber (significant lexeme))) ∧
    (IsDigits lexeme → digitLimit < lexeme.length →
      ∃ fault, (ofLexeme lexeme).code = .error fault ∧ fault = .numeralTooLong lexeme.length ∧
        fault.family? = none ∧ fault.message =
          "Exceeds the limit (4300 digits) for integer string conversion: value has " ++
            toString lexeme.length ++
            " digits; use sys.set_int_max_str_digits() to increase the limit") ∧
    (¬IsDigits lexeme →
      (ofLexeme lexeme).code = .ok (.call (Text.upper lexeme)) ∧ ¬IsDigits (Text.upper lexeme) ∧
      (ofLexeme (Text.upper lexeme)).code = .ok (.call (Text.upper lexeme))) ∧
    ∀ n : Nat, n < 10 ^ digitLimit → ∃ digits,
      (Code.literal n).text = .ok (Text.shownNumber digits) ∧
      (ofLexeme digits).code = .ok (.literal n) := by
  simp only [← Numeral.isNumeral_iff]
  refine ⟨fun numeral short => ?_, fun numeral long => ?_, fun other => ?_, fun n bound => ?_⟩
  · have stands : Numeral.value lexeme = positional lexeme.toList :=
      Numeral.ofDigitChars_eq_positional lexeme.toList
    have read := meantBy_iff.1 (.number numeral short)
    rw [← stands, ← Numeral.repr_value numeral]
    exact ⟨by rw [read, code], Code.text_literal (lt_of_ofLexeme read)⟩
  · have read := meantBy_iff.1 (.overlong ⟨numeral, long⟩)
    exact ⟨_, by rw [read, code], rfl, rfl, Fault.message_numeralTooLong lexeme.length⟩
  · have notNumeral : Numeral.isNumeral lexeme = false := (Bool.not_eq_true _).mp other
    have upper : Numeral.isNumeral (Text.upper lexeme) = false := by
      rw [Numeral.isNumeral_upper, notNumeral]
    refine ⟨code_ofLexeme_of_not_isNumeral notNumeral, (Bool.not_eq_true _).mpr upper, ?_⟩
    rw [code_ofLexeme_of_not_isNumeral upper, Text.upper_upper]
  · have short := (Nat.length_repr_le_iff (by decide)).2 bound
    have read := meantBy_iff.1 (.number (Numeral.isNumeral_repr n) short)
    refine ⟨Nat.repr n, Code.text_literal bound, ?_⟩
    rw [read, Numeral.value_repr, code]

/-- Zeros in front count where there are too many digits, and a digit of another script is none. -/
theorem code_ofLexeme_exact_zeros :
    let zeros := String.ofList (List.replicate (digitLimit + 1) '0')
    (IsDigits "0042" ∧ "0042".length ≤ digitLimit ∧ (ofLexeme "0042").code = .ok (.literal 42) ∧
      (Code.literal 42).text = .ok (Text.shownNumber "42")) ∧
    (IsDigits zeros ∧ digitLimit < zeros.length ∧
      (ofLexeme zeros).code = .error (.numeralTooLong zeros.length)) ∧
    (¬IsDigits "-٣ß" ∧ (ofLexeme "-٣ß").code = .ok (.call "-٣SS") ∧ ¬IsDigits "-٣SS") ∧
    42 < 10 ^ digitLimit ∧ ∃ digits, (Code.literal 42).text = .ok (Text.shownNumber digits) ∧
      (ofLexeme digits).code = .ok (.literal 42) := by
  intro zeros
  have digits : IsDigits "0042" := (Numeral.isNumeral_iff _).1 (by decide)
  have allZeros : IsDigits zeros := by
    refine ⟨by simp [zeros], fun c member => ?_⟩
    obtain rfl : c = '0' := by simpa [zeros] using member
    decide
  have long : digitLimit < zeros.length := by simp [zeros]
  have other : ¬IsDigits "-٣ß" := mt (Numeral.isNumeral_iff _).2 (by decide)
  have small : 42 < 10 ^ digitLimit :=
    Nat.lt_trans (by decide : 42 < digitLimit) (Nat.lt_pow_self (by decide))
  obtain ⟨number, -, -, again⟩ := code_ofLexeme_exact "0042"
  obtain ⟨-, tooLong, -, -⟩ := code_ofLexeme_exact zeros
  obtain ⟨-, -, word, -⟩ := code_ofLexeme_exact "-٣ß"
  obtain ⟨read, shown⟩ := number digits (by decide)
  obtain ⟨_, failed, rfl, -, -⟩ := tooLong allZeros long
  have upper : Text.upper "-٣ß" = "-٣SS" := by decide +kernel
  obtain ⟨named, notDigits, -⟩ := word other
  rw [upper] at named notDigits
  exact ⟨⟨digits, by decide, read, shown⟩, ⟨allZeros, long, failed⟩, ⟨other, named, notDigits⟩,
    small, again 42 small⟩

end Token

end Forth
