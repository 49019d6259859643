import Forth.Proofs.History

/-! What a dictionary can hold. Compiling opens every word that a definition is made of, so bodies
are flat: they hold numbers that can be written and primitives, and refer to no name. Every machine
that operations lead to has a sound dictionary, and can describe all of its words. -/

namespace Forth

/-- Code that refers to no name, holds no other code and can be written. -/
inductive Code.Flat : Code → Prop
  | literal {value : Nat} (bound : value < 10 ^ Numeral.digitLimit) : Flat (.literal value)
  | primitive (p : Primitive) : Flat (.primitive p)

/-- What `key` can be bound to: the primitive of that name, or a definition of that name with a flat
body. -/
inductive Code.BoundTo (key : String) : Code → Prop
  | primitive {p : Primitive} (name : key = p.name) : BoundTo key (.primitive p)
  | colon {body : List Code} (name : WordName key) (flat : ∀ code ∈ body, code.Flat) :
    BoundTo key (.colon key body)

/-- Every entry is a primitive or a flat definition under its own name, and no primitive's name is
without an entry. -/
structure Dictionary.Sound (d : Dictionary) : Prop where
  entries : ∀ entry ∈ d.entries, entry.2.BoundTo entry.1
  primitives : ∀ p : Primitive, d.contains p.name = true

/-! ### Texts of flat code -/

namespace Code

theorem write_of_lt {value : Nat} (bound : value < 10 ^ Numeral.digitLimit) :
    Numeral.write value = .ok (toString (value : Int)) := by
  have writable : Numeral.Writable value := by
    rwa [Numeral.writable_iff, Int.natAbs_natCast]
  rw [Numeral.write, if_pos writable]

theorem Flat.plainText {code : Code} (flat : code.Flat) : ∃ text, code.plainText = .ok text := by
  cases flat with
  | literal bound => exact ⟨_, write_of_lt bound⟩
  | primitive p => exact ⟨_, rfl⟩

theorem Flat.text {code : Code} (flat : code.Flat) : ∃ text, code.text = .ok text := by
  cases flat with
  | literal bound => exact ⟨_, by rw [Code.text, write_of_lt bound]; rfl⟩
  | primitive p => exact ⟨_, by rw [Code.text]⟩

theorem plainTexts_of_flat {body : List Code} (flat : ∀ code ∈ body, code.Flat) :
    ∃ texts, body.mapM Code.plainText = .ok texts := by
  induction body with
  | nil => exact ⟨[], rfl⟩
  | cons code codes ih =>
    obtain ⟨text, first⟩ := (flat code (by simp)).plainText
    obtain ⟨texts, later⟩ := ih fun other member => flat other (by simp [member])
    exact ⟨text :: texts, by rw [List.mapM_cons, first, later]; rfl⟩

theorem texts_of_flat {body : List Code} (flat : ∀ code ∈ body, code.Flat) :
    ∃ shown, texts body = .ok shown := by
  induction body with
  | nil => exact ⟨[], by rw [texts]⟩
  | cons code codes ih =>
    obtain ⟨text, first⟩ := (flat code (by simp)).text
    obtain ⟨shown, later⟩ := ih fun other member => flat other (by simp [member])
    exact ⟨text :: shown, by rw [texts, first, later]; rfl⟩

theorem describe_eq_ok {code : Code} {body : List Code} {shown : List String}
    (opened : code.unbox = .ok body) (told : texts body = .ok shown) :
    code.describe = .ok (" ".intercalate shown) := by
  rw [describe, opened]
  show (do return " ".intercalate (← texts body)) = _
  rw [told]
  rfl

namespace BoundTo

variable {key : String} {code : Code}

theorem upper_key (bound : code.BoundTo key) : Text.upper key = key := by
  cases bound with
  | @primitive p name =>
    subst name
    have low : p.name.toList.all (·.toNat < 0x61) = true := by cases p <;> decide +kernel
    exact Text.upper_of_lt fun c member => by simpa using List.all_eq_true.1 low c member
  | colon name _ => exact name.upper

theorem unbox (bound : code.BoundTo key) :
    ∃ body, code.unbox = .ok body ∧ ∀ part ∈ body, part.Flat := by
  cases bound with
  | @primitive p _ =>
    refine ⟨[.primitive p], rfl, fun part member => ?_⟩
    rw [List.mem_singleton.1 member]
    exact .primitive p
  | colon _ flat => exact ⟨_, rfl, flat⟩

theorem describe (bound : code.BoundTo key) : ∃ text, code.describe = .ok text := by
  obtain ⟨body, opened, flat⟩ := bound.unbox
  obtain ⟨shown, told⟩ := texts_of_flat flat
  exact ⟨" ".intercalate shown, describe_eq_ok opened told⟩

end BoundTo

end Code

/-! ### Sound dictionaries -/

theorem Entries.mem_of_lookup {name : String} {code : Code} {entries : List (String × Code)}
    (h : lookup name entries = some code) : (name, code) ∈ entries := by
  induction entries with
  | nil => simp [lookup] at h
  | cons first rest ih =>
    rw [lookup] at h
    split at h
    case isTrue same =>
      cases h
      rw [same]
      exact List.mem_cons_self
    case isFalse => exact List.mem_cons_of_mem _ (ih h)

namespace Dictionary

theorem mem_define {d : Dictionary} {name : String} {code : Code} {entry : String × Code}
    (h : entry ∈ (d.define name code).entries) :
    entry = (Text.upper name, code) ∨ entry ∈ d.entries :=
  Entries.mem_insert h

theorem contains_define {d : Dictionary} {name other : String} {code : Code}
    (h : d.contains other = true ∨ Text.upper other = Text.upper name) :
    (d.define name code).contains other = true := by
  rw [contains, lookup_define]
  split
  · rfl
  case isFalse different => exact h.resolve_right different

theorem resolveAll_cons_eq_ok {d : Dictionary} {term : Term} {terms : List Term}
    {body : List Code} (h : d.resolveAll (term :: terms) = .ok body) :
    ∃ first later, d.resolve term = .ok first ∧ d.resolveAll terms = .ok later ∧
      body = first ++ later := by
  rw [resolveAll] at h
  cases first : d.resolve term with
  | error fault => rw [first] at h; cases h
  | ok codes =>
    cases later : d.resolveAll terms with
    | error fault => rw [first, later] at h; cases h
    | ok others =>
      rw [first, later] at h
      exact ⟨codes, others, rfl, rfl, (Except.ok.inj h).symm⟩

namespace Sound

variable {d : Dictionary}

theorem lookup (sound : d.Sound) {name : String} {code : Code} (h : d.lookup name = some code) :
    code.BoundTo (Text.upper name) :=
  sound.entries _ (Entries.mem_of_lookup h)

theorem resolve (sound : d.Sound) {term : Term} (readable : term.Readable) {body : List Code}
    (h : d.resolve term = .ok body) : ∀ code ∈ body, code.Flat := by
  cases readable with
  | number bound =>
    cases h
    intro code member
    rw [List.mem_singleton.1 member]
    exact .literal bound
  | @word name _ =>
    rw [Dictionary.resolve] at h
    cases found : d.lookup name with
    | none => simp [found] at h
    | some code =>
      obtain ⟨opened, unboxed, flat⟩ := (sound.lookup found).unbox
      simp only [found, unboxed] at h
      cases h
      exact flat

theorem resolveAll (sound : d.Sound) {terms : List Term} {body : List Code}
    (readable : ∀ term ∈ terms, term.Readable) (h : d.resolveAll terms = .ok body) :
    ∀ code ∈ body, code.Flat := by
  induction terms generalizing body with
  | nil =>
    cases h
    simp
  | cons term terms ih =>
    obtain ⟨first, later, resolved, others, rfl⟩ := resolveAll_cons_eq_ok h
    intro code member
    rcases List.mem_append.1 member with here | there
    · exact sound.resolve (readable term (by simp)) resolved code here
    · exact ih (fun other member => readable other (by simp [member])) others code there

theorem define (sound : d.Sound) {name : String} (isName : WordName name) {body : List Code}
    (flat : ∀ code ∈ body, code.Flat) : (d.define name (.colon name body)).Sound where
  entries entry member := by
    -- The name of a word is in upper case already, so it is its own key.
    rcases mem_define member with rfl | old
    · rw [isName.upper]
      exact .colon isName flat
    · exact sound.entries entry old
  primitives p := contains_define (.inl (sound.primitives p))

theorem describe_eq_error_iff (sound : d.Sound) (name : String) (fault : Fault) :
    d.describe name = .error fault ↔
      d.contains name = false ∧ fault = .unknownWord (Text.upper name) := by
  rw [Dictionary.describe, contains]
  cases found : d.lookup name with
  | none => simp [eq_comm]
  | some code =>
    obtain ⟨text, told⟩ := (sound.lookup found).describe
    simp [told]

end Sound

theorem entries_foldl_define (ps : List Primitive) {d : Dictionary}
    (h : ∀ entry ∈ d.entries, entry.2.BoundTo entry.1) :
    ∀ entry ∈ (ps.foldl (fun d p => d.define p.name (.primitive p)) d).entries,
      entry.2.BoundTo entry.1 := by
  induction ps generalizing d with
  | nil => exact h
  | cons p ps ih =>
    refine ih fun entry member => ?_
    rcases mem_define member with rfl | old
    · have bound : Code.BoundTo p.name (.primitive p) := .primitive rfl
      rwa [bound.upper_key]
    · exact h entry old

theorem contains_foldl_define (ps : List Primitive) {d : Dictionary} {p : Primitive}
    (h : d.contains p.name = true ∨ p ∈ ps) :
    (ps.foldl (fun d p => d.define p.name (.primitive p)) d).contains p.name = true := by
  induction ps generalizing d with
  | nil => simpa using h
  | cons first rest ih =>
    apply ih
    rcases h with already | member
    · exact .inl (contains_define (.inl already))
    · rcases List.mem_cons.1 member with rfl | later
      · exact .inl (contains_define (.inr rfl))
      · exact .inr later

theorem sound_seeded : seeded.Sound where
  entries := entries_foldl_define Primitive.all (by simp [empty])
  primitives p := contains_foldl_define Primitive.all (.inr (by cases p <;> decide))

end Dictionary

/-! ### Definitions on a sound dictionary -/

namespace Machine

theorem install_of_flat (name : String) {body : List Code} (flat : ∀ code ∈ body, code.Flat)
    (m : Machine) : ∃ texts, m.install name body =
      .wrote [.defined name texts]
        { m with dictionary := m.dictionary.define name (.colon name body) } := by
  obtain ⟨texts, told⟩ := Code.plainTexts_of_flat flat
  exact ⟨texts, by simp only [install, told]⟩

/-- A definition fails and changes nothing, or installs a flat body and records it. -/
theorem define_cases {m : Machine} (sound : m.dictionary.Sound) {source : Source}
    (readable : source.Readable) :
    (∃ fault, m.define source = .stopped fault m) ∨
    ∃ body texts, m.dictionary.resolveAll source.body = .ok body ∧
      (∀ code ∈ body, code.Flat) ∧
      m.define source = .wrote [.defined source.name texts]
        { m with dictionary := m.dictionary.define source.name (.colon source.name body) } := by
  cases resolved : m.dictionary.resolveAll source.body with
  | error fault => exact .inl ⟨fault, by rw [define, resolved]⟩
  | ok body =>
    have flat := sound.resolveAll readable.body resolved
    obtain ⟨texts, installed⟩ := install_of_flat source.name flat m
    exact .inr ⟨body, texts, rfl, flat, by rw [define, resolved]; exact installed⟩

end Machine

theorem History.sound {m now : Machine} {written : List Notice} (h : History m written now)
    (sound : m.dictionary.Sound) : now.dictionary.Sound := by
  induction h with
  | refl => exact sound
  | restack s _ ih => exact ih
  | report r _ ih => exact ih
  | @define _ now source readable _ ih =>
    rcases Machine.define_cases ih readable with ⟨fault, stopped⟩ | ⟨body, texts, -, flat, defined⟩
    · rwa [stopped]
    · rw [defined]
      exact ih.define readable.name flat

namespace Machine

theorem Reached.sound {m : Machine} (reached : m.Reached) : m.dictionary.Sound := by
  obtain ⟨ops, rfl⟩ := reached
  exact (History.after ops fresh).sound Dictionary.sound_seeded

/-- Whatever is asked of a machine, and whether or not it fails, the dictionary stays sound, its
names stay in upper case, and describing fails just for the names that it does not contain. -/
theorem sound_after (ops : List Operation) :
    (fresh.after ops).dictionary.Sound ∧
    (∀ key ∈ (fresh.after ops).dictionary.names, Text.upper key = key) ∧
    ∀ name fault, (fresh.after ops).dictionary.describe name = .error fault ↔
      (fresh.after ops).dictionary.contains name = false ∧
        fault = .unknownWord (Text.upper name) := by
  have sound : (fresh.after ops).dictionary.Sound := Reached.sound ⟨ops, rfl⟩
  refine ⟨sound, fun key member => ?_, sound.describe_eq_error_iff⟩
  obtain ⟨entry, found, rfl⟩ := List.mem_map.1 member
  exact (sound.entries entry found).upper_key

end Machine

end Forth
