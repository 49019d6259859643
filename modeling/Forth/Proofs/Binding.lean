import Forth.Proofs.Soundness
import Mathlib.Data.List.Forall2

/-! What runs bind. A run changes the dictionary by binding names to bodies, one after the other,
and by nothing else. On a sound dictionary it writes a notice of each, in the same order. -/

namespace Forth

/-- A name and the body that a definition binds it to. -/
structure Binding where
  name : String
  body : List Code

namespace Dictionary

/-- The dictionary with the name bound, anew if it was bound before. -/
def bind (d : Dictionary) (binding : Binding) : Dictionary :=
  d.define binding.name (.colon binding.name binding.body)

theorem lookup_foldl_bind {bindings : List Binding} {name : String}
    (others : ∀ binding ∈ bindings, Text.upper binding.name ≠ Text.upper name) (d : Dictionary) :
    (bindings.foldl bind d).lookup name = d.lookup name := by
  induction bindings generalizing d with
  | nil => rfl
  | cons binding bindings ih =>
    obtain ⟨first, later⟩ := List.forall_mem_cons.1 others
    rw [List.foldl_cons, ih later, bind, lookup_define, if_neg (Ne.symm first)]

end Dictionary

namespace Machine

/-- What performing a phrase binds: the name of a definition, if its body can be resolved. -/
def binding? : Phrase → Machine → Option Binding
  | .term _, _ => none
  | .definition source, m => (m.dictionary.resolveAll source.body).toOption.map (.mk source.name)

/-- What performing phrases binds, in order, up to the first that fails. -/
def bindings : List Phrase → Machine → List Binding
  | [], _ => []
  | phrase :: phrases, m =>
    let run := m.perform phrase
    (m.binding? phrase).toList ++ if run.fault? = none then bindings phrases run.machine else []

theorem binding?_eq_some {m : Machine} {phrase : Phrase} {binding : Binding}
    (h : m.binding? phrase = some binding) :
    ∃ source, phrase = .definition source ∧ binding.name = source.name ∧
      m.dictionary.resolveAll source.body = .ok binding.body := by
  cases phrase with
  | term term => cases h
  | definition source =>
    cases resolved : m.dictionary.resolveAll source.body with
    | error fault => simp [binding?, resolved, Except.toOption] at h
    | ok body =>
      simp only [binding?, resolved, Except.toOption, Option.map_some, Option.some.injEq] at h
      subst h
      exact ⟨source, rfl, rfl, resolved⟩

theorem bindings_cons_of_done {phrase : Phrase} {m : Machine}
    (done : (m.perform phrase).fault? = none) (phrases : List Phrase) :
    m.bindings (phrase :: phrases) =
      (m.binding? phrase).toList ++ (m.perform phrase).machine.bindings phrases := by
  rw [bindings, if_pos done]

theorem bindings_cons_of_stopped {phrase : Phrase} {m : Machine} {fault : Fault}
    (stopped : (m.perform phrase).fault? = some fault) (phrases : List Phrase) :
    m.bindings (phrase :: phrases) = (m.binding? phrase).toList := by
  rw [bindings, if_neg (by simp [stopped]), List.append_nil]

theorem dictionary_perform (phrase : Phrase) (m : Machine) :
    (m.perform phrase).machine.dictionary =
      (m.binding? phrase).toList.foldl Dictionary.bind m.dictionary := by
  cases phrase with
  | term term => cases term <;> rfl
  | definition source =>
    simp only [perform, define, binding?]
    cases m.dictionary.resolveAll source.body with
    | error fault => rfl
    | ok body =>
      simp only [install]
      -- The name is bound even where the body cannot be told.
      cases body.mapM Code.plainText <;> rfl

theorem dictionary_performAll (phrases : List Phrase) (m : Machine) :
    (m.performAll phrases).machine.dictionary =
      (m.bindings phrases).foldl Dictionary.bind m.dictionary := by
  induction phrases generalizing m with
  | nil => rfl
  | cons phrase phrases ih =>
    rw [performAll]
    cases performed : (m.perform phrase).fault? with
    | none =>
      rw [Run.andThen_of_done performed, bindings_cons_of_done performed, List.foldl_append,
        ← dictionary_perform, ← ih]
    | some fault =>
      rw [Run.andThen_of_stopped performed, bindings_cons_of_stopped performed,
        dictionary_perform]

/-- A run leaves what its phrases leave, whether or not it is read to the end. -/
theorem machine_run (lexemes : List String) (m : Machine) :
    (m.run lexemes).machine = (m.performAll (Program.read lexemes).phrases).machine := by
  rw [run]
  cases performed : (m.performAll (Program.read lexemes).phrases).fault? with
  | none => rw [Run.andThen_of_done performed]
  | some fault => rw [Run.andThen_of_stopped performed]

theorem dictionary_run (lexemes : List String) (m : Machine) :
    (m.run lexemes).machine.dictionary =
      (m.bindings (Program.read lexemes).phrases).foldl Dictionary.bind m.dictionary := by
  rw [machine_run, dictionary_performAll]

/-! ### On a sound dictionary -/

/-- What is bound was defined by one of the phrases, and to a flat body. -/
theorem of_mem_bindings {m : Machine} (sound : m.dictionary.Sound) {phrases : List Phrase}
    (readable : ∀ phrase ∈ phrases, phrase.Readable) :
    ∀ binding ∈ m.bindings phrases,
      (∃ source, Phrase.definition source ∈ phrases ∧ binding.name = source.name) ∧
        ∀ code ∈ binding.body, code.Flat := by
  induction phrases generalizing m with
  | nil => simp [bindings]
  | cons phrase phrases ih =>
    intro binding member
    obtain ⟨readableFirst, readableLater⟩ := List.forall_mem_cons.1 readable
    rw [bindings] at member
    rcases List.mem_append.1 member with here | behind
    · obtain ⟨source, rfl, name, resolved⟩ := binding?_eq_some (Option.mem_toList.1 here)
      cases readableFirst with
      | definition readable =>
        exact ⟨⟨source, List.mem_cons_self, name⟩, sound.resolveAll readable.body resolved⟩
    · split at behind
      · obtain ⟨⟨source, within, name⟩, flat⟩ :=
          ih ((History.perform readableFirst m).sound sound) readableLater binding behind
        exact ⟨⟨source, List.mem_cons_of_mem _ within, name⟩, flat⟩
      · cases behind

end Machine

/-- The notice tells of the binding, with the texts of the body. -/
def Binding.ToldBy (binding : Binding) (notice : Notice) : Prop :=
  ∃ texts, binding.body.mapM Code.plainText = .ok texts ∧ notice = .defined binding.name texts

namespace Machine

theorem written_perform {m : Machine} (sound : m.dictionary.Sound) {phrase : Phrase}
    (readable : phrase.Readable) :
    List.Forall₂ Binding.ToldBy (m.binding? phrase).toList (m.perform phrase).written := by
  cases readable with
  | @term term _ => cases term <;> exact .nil
  | @definition source readable =>
    simp only [perform, define, binding?]
    cases resolved : m.dictionary.resolveAll source.body with
    | error fault => exact .nil
    | ok body =>
      obtain ⟨texts, told⟩ := Code.plainTexts_of_flat (sound.resolveAll readable.body resolved)
      simp only [install, told]
      exact .cons ⟨texts, told, rfl⟩ .nil

theorem written_performAll {m : Machine} (sound : m.dictionary.Sound) {phrases : List Phrase}
    (readable : ∀ phrase ∈ phrases, phrase.Readable) :
    List.Forall₂ Binding.ToldBy (m.bindings phrases) (m.performAll phrases).written := by
  induction phrases generalizing m with
  | nil => exact .nil
  | cons phrase phrases ih =>
    obtain ⟨readableFirst, readableLater⟩ := List.forall_mem_cons.1 readable
    have first := written_perform sound readableFirst
    rw [performAll]
    cases performed : (m.perform phrase).fault? with
    | none =>
      have later := ih ((History.perform readableFirst m).sound sound) readableLater
      rw [Run.andThen_of_done performed, bindings_cons_of_done performed]
      exact List.rel_append first later
    | some fault =>
      rw [Run.andThen_of_stopped performed, bindings_cons_of_stopped performed]
      exact first

theorem written_run {m : Machine} (sound : m.dictionary.Sound) (lexemes : List String) :
    List.Forall₂ Binding.ToldBy (m.bindings (Program.read lexemes).phrases)
      (m.run lexemes).written := by
  have all := written_performAll sound (Program.readable_read lexemes)
  rw [run]
  cases performed : (m.performAll (Program.read lexemes).phrases).fault? with
  | none =>
    rw [Run.andThen_of_done performed]
    exact (List.append_nil _).symm ▸ all
  | some fault => rwa [Run.andThen_of_stopped performed]

end Machine

end Forth
