import Forth.Code

/-! The dictionary: what each name is bound to. Names that agree in upper case are one name, and the
entries stand in the order of their names. -/

namespace Forth

namespace Entries

def lookup (name : String) : List (String × Code) → Option Code
  | [] => none
  | (key, code) :: rest => if name = key then some code else lookup name rest

/-- The entries with `name` bound to `code`, in place of what it was bound to before. -/
def insert (name : String) (code : Code) : List (String × Code) → List (String × Code)
  | [] => [(name, code)]
  | (key, old) :: rest =>
    if name < key then (name, code) :: (key, old) :: rest
    else if name = key then (name, code) :: rest
    else (key, old) :: insert name code rest

theorem mem_insert {name : String} {code : Code} {entries : List (String × Code)}
    {entry : String × Code} (h : entry ∈ insert name code entries) :
    entry = (name, code) ∨ entry ∈ entries := by
  induction entries with
  | nil => simpa [insert] using h
  | cons first rest ih =>
    obtain ⟨key, old⟩ := first
    rw [insert] at h
    split at h
    · exact List.mem_cons.1 h
    · split at h
      · exact (List.mem_cons.1 h).imp id (List.mem_cons_of_mem _)
      · rcases List.mem_cons.1 h with same | later
        · exact .inr (same ▸ List.mem_cons_self)
        · exact (ih later).imp id (List.mem_cons_of_mem _)

theorem pairwise_insert {name : String} {code : Code} {entries : List (String × Code)}
    (h : entries.Pairwise (·.1 < ·.1)) : (insert name code entries).Pairwise (·.1 < ·.1) := by
  induction entries with
  | nil => simp [insert]
  | cons first rest ih =>
    obtain ⟨key, old⟩ := first
    obtain ⟨below, sorted⟩ := List.pairwise_cons.1 h
    rw [insert]
    split
    case isTrue before =>
      refine List.pairwise_cons.2 ⟨fun entry member => ?_, h⟩
      rcases List.mem_cons.1 member with rfl | later
      · exact before
      · exact String.lt_trans before (below entry later)
    case isFalse notBefore =>
      split
      case isTrue same =>
        subst same
        exact List.pairwise_cons.2 ⟨below, sorted⟩
      case isFalse different =>
        refine List.pairwise_cons.2 ⟨fun entry member => ?_, ih sorted⟩
        rcases mem_insert member with rfl | later
        · exact Std.lt_of_le_of_ne (String.not_lt.1 notBefore) (Ne.symm different)
        · exact below entry later

theorem lookup_insert (name other : String) (code : Code) (entries : List (String × Code)) :
    lookup other (insert name code entries) =
      if other = name then some code else lookup other entries := by
  induction entries with
  | nil => simp [insert, lookup]
  | cons first rest ih =>
    obtain ⟨key, old⟩ := first
    rw [insert]
    by_cases h : other = name
    · subst h
      split
      · simp [lookup]
      · split
        · simp [lookup]
        case isFalse different => simp [lookup, different, ih]
    · split
      · simp [lookup, h]
      · split
        case isTrue same => simp [lookup, h, ← same]
        · simp [lookup, h, ih]

end Entries

/-- A dictionary: its entries, in the order of their names, which are in upper case. -/
structure Dictionary where
  entries : List (String × Code)
  sorted : entries.Pairwise (·.1 < ·.1)

namespace Dictionary

def empty : Dictionary := ⟨[], .nil⟩

/-- The dictionary with a name bound, anew if it was bound before. -/
def define (d : Dictionary) (name : String) (code : Code) : Dictionary :=
  ⟨Entries.insert (Text.upper name) code d.entries, Entries.pairwise_insert d.sorted⟩

def lookup (d : Dictionary) (name : String) : Option Code :=
  Entries.lookup (Text.upper name) d.entries

theorem lookup_define (d : Dictionary) (name other : String) (code : Code) :
    (d.define name code).lookup other =
      if Text.upper other = Text.upper name then some code else d.lookup other :=
  Entries.lookup_insert _ _ code d.entries

def contains (d : Dictionary) (name : String) : Bool :=
  (d.lookup name).isSome

instance : Membership String Dictionary where
  mem d name := d.contains name = true

instance (name : String) (d : Dictionary) : Decidable (name ∈ d) :=
  inferInstanceAs (Decidable (d.contains name = true))

def names (d : Dictionary) : List String :=
  d.entries.map (·.1)

def describe (d : Dictionary) (name : String) : Except Fault String :=
  match d.lookup name with
  | some code => code.describe
  | none => .error (.unknownWord (Text.upper name))

/-- The dictionary of a new machine: every primitive under its own name. -/
def seeded : Dictionary :=
  Primitive.all.foldl (fun d p => d.define p.name (.primitive p)) empty

end Dictionary

end Forth
