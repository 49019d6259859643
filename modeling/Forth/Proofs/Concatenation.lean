import Forth.Proofs.Compiling
import Forth.Proofs.Description

/-! Bodies one behind the other. On a sound dictionary two bodies compile together just if each
compiles, to the code of the first and then that of the second. Likewise the description of the word
is made of the descriptions of its parts, where those without a text leave no gap. -/

namespace Forth

/-! ### Joined texts -/

namespace Text

theorem intercalate_eq_empty_iff {texts : List String} (nonempty : ∀ text ∈ texts, text ≠ "") :
    " ".intercalate texts = "" ↔ texts = [] := by
  constructor
  · intro empty
    cases texts with
    | nil => rfl
    | cons text texts =>
      have first := nonempty text List.mem_cons_self
      cases texts with
      | nil => exact absurd (String.intercalate_singleton.symm.trans empty) first
      | cons next texts =>
        rw [String.intercalate_cons_cons] at empty
        simp [first] at empty
  · rintro rfl
    exact String.intercalate_nil

theorem intercalate_flatten {lists : List (List String)} (nonempty : ∀ texts ∈ lists, texts ≠ []) :
    " ".intercalate lists.flatten = " ".intercalate (lists.map (" ".intercalate ·)) := by
  induction lists with
  | nil => rfl
  | cons texts lists ih =>
    obtain ⟨first, later⟩ := List.forall_mem_cons.1 nonempty
    cases lists with
    | nil => simp
    | cons next lists =>
      have behind : (next :: lists).flatten ≠ [] := by
        simp [(List.forall_mem_cons.1 later).1]
      rw [List.flatten_cons, String.intercalate_append_of_ne_nil first behind, ih later]
      exact (String.intercalate_cons_of_ne_nil (by simp)).symm

/-- Texts joined list by list, where an empty list leaves nothing behind. -/
theorem intercalate_flatten_eq_filter {lists : List (List String)}
    (nonempty : ∀ texts ∈ lists, ∀ text ∈ texts, text ≠ "") :
    " ".intercalate lists.flatten =
      " ".intercalate ((lists.map (" ".intercalate ·)).filter (· ≠ "")) := by
  have kept : (lists.map (" ".intercalate ·)).filter (· ≠ "") =
      (lists.filter (· ≠ [])).map (" ".intercalate ·) := by
    rw [List.filter_map]
    refine congrArg _ (List.filter_congr fun texts member => ?_)
    simp [intercalate_eq_empty_iff (nonempty texts member)]
  rw [kept, ← intercalate_flatten (by simp), List.flatten_filter_ne_nil]

end Text

/-! ### Descriptions of bodies -/

namespace Code

theorem texts_append {front back : List Code} {shown later : List String}
    (told : texts front = .ok shown) (toldLater : texts back = .ok later) :
    texts (front ++ back) = .ok (shown ++ later) := by
  induction front generalizing shown with
  | nil =>
    rw [texts] at told
    cases told
    exact toldLater
  | cons code codes ih =>
    obtain ⟨first, others, toldFirst, toldOthers, rfl⟩ := texts_cons_eq_ok told
    rw [List.cons_append, texts, toldFirst, ih toldOthers]
    rfl

end Code

namespace Dictionary

/-- The text of a part of a body as the dictionary stands: the number in colour, without leading
zeros, or the description of the word. -/
def describePart (d : Dictionary) (part : String) : Except Fault String :=
  if Numeral.isNumeral part then .ok (Text.shownNumber (Nat.repr (Numeral.value part)))
  else d.describe part

variable {d : Dictionary}

theorem Sound.flat_of_opens (sound : d.Sound) {part : String} {codes : List Code}
    (opens : d.Opens part codes) : ∀ code ∈ codes, code.Flat := by
  obtain ⟨term, meant⟩ := opens.isLegible.meantBy
  exact sound.resolve meant.readable (opens.resolve meant)

theorem Sound.flat_flatten (sound : d.Sound) {parts : List String} {bodies : List (List Code)}
    (opens : List.Forall₂ d.Opens parts bodies) : ∀ code ∈ bodies.flatten, code.Flat := by
  induction opens with
  | nil => simp
  | cons first _ ih => exact List.forall_mem_append.2 ⟨sound.flat_of_opens first, ih⟩

theorem Opens.describePart {part : String} {codes : List Code} (opens : d.Opens part codes)
    {shown : List String} (told : Code.texts codes = .ok shown) :
    d.describePart part = .ok (" ".intercalate shown) := by
  cases opens with
  | number numeral short =>
    have bound := Token.lt_of_ofLexeme (Token.meantBy_iff.1 (.number numeral short))
    obtain ⟨first, later, toldFirst, toldLater, rfl⟩ := Code.texts_cons_eq_ok told
    rw [Code.text_literal bound] at toldFirst
    rw [Code.texts] at toldLater
    cases toldFirst
    cases toldLater
    rw [Dictionary.describePart, if_pos numeral, String.intercalate_singleton]
  | word isWord found opened =>
    rw [Dictionary.describePart, if_neg (by simp [isWord.1]), describe, found]
    exact Code.describe_eq_ok opened told

/-- The texts of the bodies that parts open to, body by body: joined, each is the description of
its part. -/
theorem Sound.exists_texts (sound : d.Sound) {parts : List String} {bodies : List (List Code)}
    (opens : List.Forall₂ d.Opens parts bodies) :
    ∃ lists : List (List String), Code.texts bodies.flatten = .ok lists.flatten ∧
      (∀ texts ∈ lists, ∀ text ∈ texts, text ≠ "") ∧
      List.Forall₂ (fun part text => d.describePart part = .ok text) parts
        (lists.map (" ".intercalate ·)) := by
  induction opens with
  | nil => exact ⟨[], by rw [List.flatten_nil, Code.texts, List.flatten_nil], by simp, .nil⟩
  | cons first _ ih =>
    obtain ⟨lists, told, nonempty, described⟩ := ih
    have flat := sound.flat_of_opens first
    obtain ⟨shown, toldFirst⟩ := Code.texts_of_flat flat
    refine ⟨shown :: lists, Code.texts_append toldFirst told, ?_,
      .cons (first.describePart toldFirst) described⟩
    exact List.forall_mem_cons.2
      ⟨fun text member => (Code.isLexeme_of_texts flat toldFirst text member).1, nonempty⟩

end Dictionary

/-! ### Compiled bodies -/

theorem Code.Flat.exists_toldAs {code : Code} (flat : code.Flat) : ∃ text, code.ToldAs text := by
  rcases code.toldAs_or_untold with told | ⟨fault, untold⟩
  · exact told
  · obtain ⟨text, plain⟩ := flat.plainText
    cases untold.plainText.symm.trans plain

namespace Machine

variable {m : Machine} {name : String} {parts : List String}

theorem compile_of_opens (sound : m.dictionary.Sound) (isName : IsWord name)
    {bodies : List (List Code)} (opens : List.Forall₂ m.dictionary.Opens parts bodies) :
    ∃ texts, m.compile (name :: (parts ++ [";"])) =
      ⟨.wrote [.defined (Text.upper name) texts]
        { m with dictionary := m.dictionary.bind ⟨Text.upper name, bodies.flatten⟩ },
        some (.colon (Text.upper name) bodies.flatten), []⟩ := by
  obtain ⟨texts, told⟩ := exists_forall₂_iff.2 fun code member =>
    (sound.flat_flatten opens code member).exists_toldAs
  exact ⟨texts, (Compiles.told isName opens told []).compile⟩

/-- A body either has all of its parts opened, or stops the compiler and changes nothing. -/
theorem opens_or_stopped (isName : IsWord name) (isPart : ∀ part ∈ parts, IsPart part) :
    (∃ bodies, List.Forall₂ m.dictionary.Opens parts bodies) ∨
      ∃ fault rest, m.compile (name :: (parts ++ [";"])) = ⟨.stopped fault m, none, rest⟩ := by
  obtain ⟨body, tail, rfl, legible, ends⟩ := Source.exists_body parts
  cases ends with
  | nil =>
    rw [List.append_nil]
    rcases forall₂_or_first fun part member =>
        m.dictionary.opens_or_blocks (legible part member) with
      opens | ⟨front, part, back, rfl, opens, fault, blocks⟩
    · exact .inl opens
    · exact .inr ⟨_, _, (Compiles.blocked isName legible opens blocks []).compile⟩
  | overlong overlong more =>
    rw [List.append_assoc]
    exact .inr ⟨_, _, (Compiles.rejected (.overlongPart isName legible overlong _)).compile⟩
  | semicolon more => exact absurd rfl ((isPart_iff _).1 (isPart ";" (by simp))).2
  | colon more => exact absurd rfl ((isPart_iff _).1 (isPart ":" (by simp))).1

theorem fault?_compile_eq_none_iff (sound : m.dictionary.Sound) (isName : IsWord name)
    (isPart : ∀ part ∈ parts, IsPart part) :
    (m.compile (name :: (parts ++ [";"]))).run.fault? = none ↔
      ∀ part ∈ parts, ∃ codes, m.dictionary.Opens part codes := by
  rw [← exists_forall₂_iff]
  constructor
  · intro done
    rcases opens_or_stopped isName isPart with opens | ⟨fault, rest, stopped⟩
    · exact opens
    · rw [stopped] at done
      cases done
  · rintro ⟨bodies, opens⟩
    obtain ⟨texts, compiled⟩ := compile_of_opens sound isName opens
    rw [compiled]
    rfl

/-- Two bodies one behind the other compile just if each of them does by itself, and then to the
code of the first followed by that of the second. The word is described by the texts of its parts,
as they were described before the definition, with one space between those that are not empty. -/
theorem compile_append (reached : m.Reached) (isName : IsWord name) {front back : List String}
    (isPart : ∀ part ∈ front ++ back, IsPart part) :
    let whole := m.compile (name :: (front ++ back ++ [";"]))
    let first := m.compile (name :: (front ++ [";"]))
    let second := m.compile (name :: (back ++ [";"]))
    (whole.run.fault? = none ↔ first.run.fault? = none ∧ second.run.fault? = none) ∧
      (whole.run.fault? = none → ∃ frontBody backBody texts,
        first.code? = some (.colon (Text.upper name) frontBody) ∧
        second.code? = some (.colon (Text.upper name) backBody) ∧
        whole.code? = some (.colon (Text.upper name) (frontBody ++ backBody)) ∧
        List.Forall₂ (fun part text => m.dictionary.describePart part = .ok text)
          (front ++ back) texts ∧
        whole.run.machine.dictionary.describe name =
          .ok (" ".intercalate (texts.filter (· ≠ "")))) := by
  intro whole first second
  have sound := reached.sound
  obtain ⟨isFront, isBack⟩ := List.forall_mem_append.1 isPart
  have wholeDone : whole.run.fault? = none ↔ _ := fault?_compile_eq_none_iff sound isName isPart
  have firstDone : first.run.fault? = none ↔ _ := fault?_compile_eq_none_iff sound isName isFront
  have secondDone : second.run.fault? = none ↔ _ := fault?_compile_eq_none_iff sound isName isBack
  rw [wholeDone, firstDone, secondDone, List.forall_mem_append]
  refine ⟨Iff.rfl, fun ⟨opensFront, opensBack⟩ => ?_⟩
  obtain ⟨frontBodies, opensFront⟩ := exists_forall₂_iff.2 opensFront
  obtain ⟨backBodies, opensBack⟩ := exists_forall₂_iff.2 opensBack
  have opens := List.rel_append opensFront opensBack
  obtain ⟨_, compiledFirst⟩ := compile_of_opens sound isName opensFront
  obtain ⟨_, compiledSecond⟩ := compile_of_opens sound isName opensBack
  obtain ⟨_, compiled⟩ := compile_of_opens sound isName opens
  obtain ⟨lists, told, nonempty, described⟩ := sound.exists_texts opens
  refine ⟨frontBodies.flatten, backBodies.flatten, _, ?_, ?_, ?_, described, ?_⟩
  · exact congrArg Compilation.code? compiledFirst
  · exact congrArg Compilation.code? compiledSecond
  · rw [← List.flatten_append]
    exact congrArg Compilation.code? compiled
  · rw [← Text.intercalate_flatten_eq_filter nonempty]
    simp only [whole, compiled, Run.wrote, Dictionary.bind, Dictionary.describe,
      Dictionary.lookup_define, Text.upper_upper, if_pos]
    exact Code.describe_eq_ok rfl told

/-- A word defined anew from its own old body, a numeral with leading zeros, and words whose bodies
are empty. -/
theorem compile_append_anew :
    let m := fresh.after [.eval ": nop ; : twice 2 * ; : go 7 nop ;"]
    let whole := m.compile ("Go" :: (["007", "nop", "Twice"] ++ ["nop", "go", "NOP"] ++ [";"]))
    let first := m.compile ("Go" :: (["007", "nop", "Twice"] ++ [";"]))
    let second := m.compile ("Go" :: (["nop", "go", "NOP"] ++ [";"]))
    (first.run.fault? = none ∧ second.run.fault? = none) ∧ ∃ frontBody backBody texts,
      first.code? = some (.colon "GO" frontBody) ∧ second.code? = some (.colon "GO" backBody) ∧
      whole.code? = some (.colon "GO" (frontBody ++ backBody)) ∧
      List.Forall₂ (fun part text => m.dictionary.describePart part = .ok text)
        (["007", "nop", "Twice"] ++ ["nop", "go", "NOP"]) texts ∧
      whole.run.machine.dictionary.describe "Go" =
        .ok (" ".intercalate (texts.filter (· ≠ ""))) := by
  intro m whole first second
  have isName : IsWord "Go" := ⟨by decide, by decide, by decide⟩
  have isPart : ∀ part ∈ ["007", "nop", "Twice"] ++ ["nop", "go", "NOP"], IsPart part := by
    simp [isPart_iff]
  have done : first.run.fault? = none ∧ second.run.fault? = none := by decide +kernel
  have upper : Text.upper "Go" = "GO" := by decide +kernel
  have appended := compile_append (m := m) ⟨_, rfl⟩ isName isPart
  rw [upper] at appended
  exact ⟨done, appended.2 (appended.1.2 done)⟩

end Machine

end Forth
