import Forth.Text.Upper
import Mathlib.Algebra.Group.Nat.Defs
import Mathlib.Data.List.Basic

/-! Upper case is reached in one step. No image of a letter is a letter with an upper case of its
own, which a check of the runs establishes: the letters and the images are the bits of two numbers
without a common bit. Letters and images alike lie above the ASCII digits, the blanks and the
punctuation that the language reads, so all of these survive a change of case. -/

namespace Forth.Text

/-- How far the letters of the run lie behind the first. -/
def CaseRun.offsets (r : CaseRun) : List Nat :=
  (List.range ((r.last - r.first) / r.step + 1)).map (· * r.step)

def CaseRun.letters (r : CaseRun) : List Nat :=
  r.offsets.map (r.first + ·)

/-- The code points that occur in the upper cases of the letters of the run. -/
def CaseRun.images (r : CaseRun) : List Nat :=
  r.offsets.map (r.image + ·) ++ r.rest

def letters : List Nat := caseRuns.flatMap CaseRun.letters

def images : List Nat := caseRuns.flatMap CaseRun.images

theorem CaseRun.mem_offsets {r : CaseRun} {c : Nat} (covered : r.covers c = true) :
    c - r.first ∈ r.offsets := by
  simp only [CaseRun.covers, Bool.and_eq_true, decide_eq_true_eq] at covered
  obtain ⟨⟨-, high⟩, divides⟩ := covered
  have whole : (c - r.first) / r.step * r.step = c - r.first :=
    Nat.div_mul_cancel (Nat.dvd_of_mod_eq_zero divides)
  have small : (c - r.first) / r.step ≤ (r.last - r.first) / r.step :=
    Nat.div_le_div_right (Nat.sub_le_sub_right high _)
  rw [CaseRun.offsets, List.mem_map]
  exact ⟨_, List.mem_range.2 (by omega), whole⟩

theorem CaseRun.mem_letters {r : CaseRun} {c : Nat} (covered : r.covers c = true) :
    c ∈ r.letters := by
  have offset := r.mem_offsets covered
  simp only [CaseRun.covers, Bool.and_eq_true, decide_eq_true_eq] at covered
  rw [CaseRun.letters, List.mem_map]
  exact ⟨_, offset, by omega⟩

theorem CaseRun.mem_images {r : CaseRun} {c i : Nat} (covered : r.covers c = true)
    (image : i ∈ r.apply c) : i ∈ r.images := by
  rw [CaseRun.images, List.mem_append]
  rcases List.mem_cons.1 image with rfl | later
  · exact .inl (List.mem_map.2 ⟨_, r.mem_offsets covered, rfl⟩)
  · exact .inr later

/-- Whatever has another upper case than itself is a letter, and becomes images. -/
theorem upperCode_cases (c : Nat) :
    upperCode c = [c] ∨ c ∈ letters ∧ upperCode c ≠ [] ∧ ∀ i ∈ upperCode c, i ∈ images := by
  unfold upperCode
  split
  case h_1 run found =>
    have member : run ∈ caseRuns :=
      (List.takeWhile_sublist _).subset (List.mem_of_find?_eq_some found)
    have covered : run.covers c = true := by simpa using List.find?_some found
    refine .inr ⟨List.mem_flatMap.2 ⟨run, member, run.mem_letters covered⟩, by
      simp [CaseRun.apply], fun i image => ?_⟩
    exact List.mem_flatMap.2 ⟨run, member, run.mem_images covered image⟩
  case h_2 => exact .inl rfl

/-! ### The check of the runs -/

/-- A set of code points as the bits of a number. -/
def bits (codes : List Nat) : Nat := codes.foldr (fun c set => 2 ^ c ||| set) 0

theorem testBit_bits (codes : List Nat) (c : Nat) :
    (bits codes).testBit c = decide (c ∈ codes) := by
  induction codes with
  | nil => simp [bits]
  | cons first rest ih =>
    rw [bits, List.foldr_cons, ← bits, Nat.testBit_or, ih, Nat.testBit_two_pow]
    by_cases same : first = c
    · simp [same]
    · simp [same, Ne.symm same]

theorem letters_and_images : bits letters &&& bits images = 0 := by
  decide +kernel

theorem not_mem_letters_of_mem_images {c : Nat} (image : c ∈ images) : c ∉ letters := by
  intro letter
  have common : (bits letters &&& bits images).testBit c = true := by
    simp [Nat.testBit_and, testBit_bits, letter, image]
  rw [letters_and_images, Nat.zero_testBit] at common
  contradiction

theorem le_of_mem_letters : ∀ c ∈ letters, 0x61 ≤ c := by
  decide +kernel

theorem images_valid : ∀ c ∈ images, 0x41 ≤ c ∧ c.isValidChar := by
  decide +kernel

/-! ### Characters and texts -/

theorem upperCode_of_lt {c : Nat} (low : c < 0x61) : upperCode c = [c] := by
  rcases upperCode_cases c with same | ⟨letter, -⟩
  · exact same
  · have := le_of_mem_letters c letter
    omega

theorem upperCode_of_mem_images {c : Nat} (image : c ∈ images) : upperCode c = [c] := by
  rcases upperCode_cases c with same | ⟨letter, -⟩
  · exact same
  · exact absurd letter (not_mem_letters_of_mem_images image)

theorem upperChar_of_upperCode {c : Char} (same : upperCode c.toNat = [c.toNat]) :
    upperChar c = [c] := by
  rw [upperChar, same, List.map_singleton, Char.ofNat_toNat]

theorem upperChar_cases (c : Char) :
    upperChar c = [c] ∨
      0x61 ≤ c.toNat ∧ upperChar c ≠ [] ∧ ∀ i ∈ upperChar c, i.toNat ∈ images := by
  rcases upperCode_cases c.toNat with same | ⟨letter, nonempty, allImages⟩
  · exact .inl (upperChar_of_upperCode same)
  · refine .inr ⟨le_of_mem_letters _ letter, by simpa [upperChar] using nonempty, fun i image => ?_⟩
    obtain ⟨code, member, rfl⟩ := List.mem_map.1 image
    have valid := (images_valid code (allImages code member)).2
    rw [Char.ofNat, dif_pos valid]
    exact allImages code member

theorem flatMap_upperChar_of_forall {cs : List Char} (each : ∀ c ∈ cs, upperChar c = [c]) :
    cs.flatMap upperChar = cs := by
  rw [List.flatMap_congr each]
  exact List.flatMap_singleton' cs

@[simp] theorem flatMap_upperChar (c : Char) : (upperChar c).flatMap upperChar = upperChar c := by
  rcases upperChar_cases c with same | ⟨-, -, allImages⟩
  · simp [same]
  · exact flatMap_upperChar_of_forall fun i image =>
      upperChar_of_upperCode (upperCode_of_mem_images (allImages i image))

@[simp] theorem toList_upper (text : String) :
    (upper text).toList = text.toList.flatMap upperChar :=
  String.toList_ofList

theorem upperChar_ne_nil (c : Char) : upperChar c ≠ [] := by
  rcases upperChar_cases c with same | ⟨-, nonempty, -⟩
  · simp [same]
  · exact nonempty

@[simp] theorem isEmpty_upper (text : String) : (upper text).isEmpty = text.isEmpty := by
  rw [Bool.eq_iff_iff, String.isEmpty_iff, String.isEmpty_iff, ← String.toList_eq_nil_iff,
    ← String.toList_eq_nil_iff, toList_upper, List.flatMap_eq_nil_iff]
  constructor
  · intro each
    rw [List.eq_nil_iff_forall_not_mem]
    exact fun c member => upperChar_ne_nil c (each c member)
  · intro none c member
    simp [none] at member

@[simp] theorem upper_upper (text : String) : upper (upper text) = upper text := by
  apply String.toList_injective
  simp [List.flatMap_assoc]

theorem upper_of_lt {text : String} (low : ∀ c ∈ text.toList, c.toNat < 0x61) :
    upper text = text := by
  apply String.toList_injective
  rw [toList_upper]
  exact flatMap_upperChar_of_forall fun c member =>
    upperChar_of_upperCode (upperCode_of_lt (low c member))

/-- Only a text of low characters itself has such an upper case. -/
theorem upper_eq_iff_of_lt {text target : String} (low : ∀ c ∈ target.toList, c.toNat < 0x41) :
    upper text = target ↔ text = target := by
  constructor
  · intro same
    have each : ∀ c ∈ text.toList, upperChar c = [c] := by
      intro c member
      rcases upperChar_cases c with kept | ⟨-, nonempty, allImages⟩
      · exact kept
      · obtain ⟨i, image⟩ := List.exists_mem_of_ne_nil _ nonempty
        have inTarget : i ∈ target.toList := by
          rw [← same, toList_upper]
          exact List.mem_flatMap.2 ⟨c, member, image⟩
        have := low i inTarget
        have := (images_valid _ (allImages i image)).1
        omega
    rw [← same, ← String.toList_inj, toList_upper, flatMap_upperChar_of_forall each]
  · rintro rfl
    refine upper_of_lt fun c member => ?_
    have := low c member
    omega

/-- A property of low characters only holds of what a character becomes just if it holds of the
character. -/
theorem apply_of_mem_upperChar {p : Char → Bool} (low : ∀ c, p c = true → c.toNat < 0x41)
    {c i : Char} (image : i ∈ upperChar c) : p i = p c := by
  rcases upperChar_cases c with same | ⟨high, -, allImages⟩
  · rw [same, List.mem_singleton] at image
    rw [image]
  · have notHere : p c = false := by
      by_contra holds
      have := low c (by simpa using holds)
      omega
    have notThere : p i = false := by
      by_contra holds
      have := low i (by simpa using holds)
      have := (images_valid _ (allImages i image)).1
      omega
    rw [notHere, notThere]

theorem all_upperChar {p : Char → Bool} (low : ∀ c, p c = true → c.toNat < 0x41) (c : Char) :
    (upperChar c).all p = p c := by
  obtain ⟨first, rest, cut⟩ := List.exists_cons_of_ne_nil (upperChar_ne_nil c)
  have each : ∀ i ∈ upperChar c, p i = p c := fun i image => apply_of_mem_upperChar low image
  cases holds : p c with
  | true => exact List.all_eq_true.2 fun i image => (each i image).trans holds
  | false =>
    have first : p first = false := (each first (by simp [cut])).trans holds
    simp [cut, first]

end Forth.Text
