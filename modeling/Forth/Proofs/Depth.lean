import Forth.Proofs.Stops

/-! How deep a stack a body needs, and how much deeper or less deep it leaves it. Both can be told
from the body alone, part by part. On a stack that is deep enough a word never finds too few values,
on any other it never goes through, and where it goes through it changes the depth as told. -/

namespace Forth

/-- What a piece of code does to the depth of a stack: it needs `need` values, and leaves `gain`
more than it finds, or fewer if that is negative. -/
@[ext] structure Usage where
  need : Nat
  gain : Int
  deriving DecidableEq, Repr

namespace Usage

def none : Usage := ⟨0, 0⟩

/-- The usage of one piece of code and another behind it, which can draw on what the first one
leaves. -/
def andThen (first later : Usage) : Usage :=
  ⟨max first.need (later.need - first.gain).toNat, first.gain + later.gain⟩

theorem need_andThen (first later : Usage) :
    ((first.andThen later).need : Int) = max (first.need : Int) (later.need - first.gain) := by
  simp only [andThen]
  omega

theorem none_andThen (usage : Usage) : none.andThen usage = usage := by
  ext
  · simp [andThen, none]
  · simp [andThen, none]

theorem andThen_assoc (first next last : Usage) :
    (first.andThen next).andThen last = first.andThen (next.andThen last) := by
  ext
  · simp only [andThen]
    omega
  · exact Int.add_assoc _ _ _

end Usage

def Primitive.gain : Primitive → Int
  | add | subtract | multiply | divide => -1
  | duplicate => 1
  | drop => -1
  | swap => 0
  | copySecond => 1

namespace Code

/-- The usage of a part of a flat body, which is a number or a primitive. -/
def usage : Code → Usage
  | literal _ => ⟨0, 1⟩
  | primitive p => ⟨p.arity, p.gain⟩
  | call _ | inert .. | colon .. => .none

def usageAll (body : List Code) : Usage :=
  body.foldr (fun code later => code.usage.andThen later) .none

theorem usageAll_append (front back : List Code) :
    usageAll (front ++ back) = (usageAll front).andThen (usageAll back) := by
  induction front with
  | nil => exact (Usage.none_andThen _).symm
  | cons code front ih =>
    show code.usage.andThen (usageAll (front ++ back)) = _
    rw [ih, ← Usage.andThen_assoc]
    rfl

end Code

/-! ### What execution does to the depth -/

theorem Primitive.depth_of_apply {p : Primitive} {s after : Stack}
    (applied : p.apply s = .ok after) :
    p.arity ≤ s.depth ∧ (after.depth : Int) = s.depth + p.gain := by
  have enough : p.arity ≤ s.depth := arity_le_of_apply applied
  refine ⟨enough, ?_⟩
  obtain ⟨_ | ⟨b, _ | ⟨a, below⟩⟩⟩ := s
  case nil => cases p <;> cases enough
  case cons.nil =>
    cases p with
    | duplicate | drop => cases applied; rfl
    | _ => exact absurd enough (by decide : ¬2 ≤ 1)
  case cons.cons =>
    cases p with
    | divide =>
      by_cases zero : b = 0
      · simp [apply, zero] at applied
      · simp only [apply, if_neg zero, Except.ok.injEq] at applied
        subst applied
        simp only [Stack.depth, List.length_cons, gain]
        omega
    | _ =>
      cases applied
      simp only [Stack.depth, List.length_cons, gain]
      omega

/-- The act goes through on stacks that are deep enough only, whose depth it changes as told, and
finds too few values on others only. -/
structure Usage.Governs (usage : Usage) (act : Stack → Effect) : Prop where
  done : ∀ s, (act s).fault? = Option.none →
    usage.need ≤ s.depth ∧ ((act s).stack.depth : Int) = s.depth + usage.gain
  short : ∀ s fault, (act s).fault? = some fault → fault.IsUnderflow → s.depth < usage.need

theorem Usage.Governs.andThen {first later : Usage} {act next : Stack → Effect}
    (governsFirst : first.Governs act) (governsLater : later.Governs next) :
    (first.andThen later).Governs fun s => (act s).andThen next where
  done s done := by
    cases ended : (act s).fault? with
    | none =>
      simp only [Effect.andThen, ended] at done ⊢
      have before := governsFirst.done s ended
      have behind := governsLater.done _ done
      simp only [Usage.andThen]
      omega
    | some fault => simp [Effect.andThen, ended] at done
  short s fault stopped underflow := by
    cases ended : (act s).fault? with
    | none =>
      simp only [Effect.andThen, ended] at stopped
      have before := governsFirst.done s ended
      have behind := governsLater.short _ fault stopped underflow
      simp only [Usage.andThen]
      omega
    | some other =>
      simp only [Effect.andThen, ended, Option.some.injEq] at stopped
      have before := governsFirst.short s other ended (stopped ▸ underflow)
      simp only [Usage.andThen]
      omega

namespace Code

variable {call : String → Stack → Effect}

theorem Flat.governs_usage {code : Code} (flat : code.Flat) :
    code.usage.Governs (exec call code) := by
  cases flat with
  | literal bound =>
    constructor
    · intro s _
      rw [exec]
      exact ⟨Nat.zero_le _, rfl⟩
    · intro s fault stopped
      rw [exec] at stopped
      cases stopped
  | primitive p =>
    constructor
    · intro s done
      rw [exec] at done ⊢
      cases applied : p.apply s with
      | ok after => exact Primitive.depth_of_apply applied
      | error fault => rw [applied] at done; cases done
    · intro s fault stopped underflow
      rw [exec] at stopped
      cases applied : p.apply s with
      | ok after => rw [applied] at stopped; cases stopped
      | error other =>
        rw [applied] at stopped
        cases stopped
        rcases Primitive.apply_eq_error applied with ⟨short, -⟩ | ⟨dividend, -, -, -, told⟩
        · exact short
        · rw [told] at underflow
          exact absurd underflow (Primitive.not_isUnderflow_divisionFault dividend)

theorem governs_usageAll {body : List Code} (flat : ∀ code ∈ body, code.Flat) :
    (usageAll body).Governs (execAll call body) := by
  induction body with
  | nil =>
    constructor
    · intro s _
      rw [execAll]
      exact ⟨Nat.zero_le _, (Int.add_zero _).symm⟩
    · intro s fault stopped
      rw [execAll] at stopped
      cases stopped
  | cons code codes ih =>
    obtain ⟨flatFirst, flatLater⟩ := List.forall_mem_cons.1 flat
    rw [execAll_cons]
    exact flatFirst.governs_usage.andThen (ih flatLater)

end Code

theorem Dictionary.Sound.governs_invoke {d : Dictionary} (sound : d.Sound) {name key : String}
    {body : List Code} (found : d.lookup name = some (.colon key body)) :
    (Code.usageAll body).Governs (d.invoke name) := by
  obtain ⟨_, opened, flat⟩ := (sound.lookup found).unbox
  cases opened
  rw [funext (sound.invoke found rfl d.invoke)]
  exact Code.governs_usageAll flat

namespace Machine

/-- The usage of a body puts together those of its parts, and governs the word: on a stack as deep
as needed the word finds enough values, on any other it fails, for want of values unless for a
division by zero before that, and where it goes through it changes the depth by the gain. -/
theorem execute_usage {m : Machine} (reached : m.Reached) {name key : String} {body : List Code}
    (found : m.dictionary.lookup name = some (.colon key body)) :
    (∀ front back : List Code,
      ((Code.usageAll (front ++ back)).need : Int) =
          max ((Code.usageAll front).need : Int)
            ((Code.usageAll back).need - (Code.usageAll front).gain) ∧
        (Code.usageAll (front ++ back)).gain =
          (Code.usageAll front).gain + (Code.usageAll back).gain) ∧
    ∀ s : Stack,
      let before : Machine := { m with stack := s }
      let run := before.execute name
      ((Code.usageAll body).need ≤ s.depth →
        ∀ fault, run.fault? = some fault → fault.family? ≠ some .stackUnderflow) ∧
      (s.depth < (Code.usageAll body).need →
        ∃ fault, run.fault? = some fault ∧
          (fault.family? = some .stackUnderflow ∨
            ∃ dividend below, before.Invokes name .divide ⟨0 :: dividend :: below⟩ ∧
              fault = Primitive.divisionFault dividend)) ∧
      (run.fault? = none →
        (run.machine.stack.depth : Int) = s.depth + (Code.usageAll body).gain) := by
  refine ⟨fun front back => ?_, fun s => ?_⟩
  · rw [Code.usageAll_append]
    exact ⟨Usage.need_andThen _ _, rfl⟩
  · intro before run
    have sound : before.dictionary.Sound := reached.sound
    have governs := sound.governs_invoke found
    refine ⟨fun enough fault stopped underflow => ?_, fun short => ?_, fun done => ?_⟩
    · exact Nat.not_lt.2 enough (governs.short s fault stopped underflow)
    · have fails : run.fault? ≠ none := fun done =>
        Nat.not_le.2 short (governs.done s done).1
      obtain ⟨fault, stopped⟩ := Option.ne_none_iff_exists'.1 fails
      refine ⟨fault, stopped, ?_⟩
      rcases execute_stopped sound stopped with ⟨unbound, -⟩ | ⟨p, t, invokes, failed⟩
      · cases found.symm.trans unbound
      · rcases Primitive.apply_eq_error failed with ⟨-, rfl⟩ | ⟨dividend, below, rfl, rfl, told⟩
        · exact .inl rfl
        · exact .inr ⟨dividend, below, invokes, told⟩
    · exact (governs.done s done).2

/-- A word that needs four values: on such a stack, and on one where it divides by zero before it
wants for more. -/
theorem execute_usage_ratio :
    let m := fresh.after [.eval ": ratio / + + ;"]
    let body : List Code := [.primitive .divide, .primitive .add, .primitive .add]
    let before : Machine := { m with stack := .ofList [7, 0] }
    let deeper : Machine := { m with stack := .ofList [1, 2, 7, 3] }
    m.dictionary.lookup "Ratio" = some (.colon "RATIO" body) ∧
      Code.usageAll body = ⟨4, -3⟩ ∧
      (∃ fault, (before.execute "Ratio").fault? = some fault ∧
        (fault.family? = some .stackUnderflow ∨
          ∃ dividend below, before.Invokes "Ratio" .divide ⟨0 :: dividend :: below⟩ ∧
            fault = Primitive.divisionFault dividend)) ∧
      (deeper.execute "Ratio").fault? = none ∧
      ((deeper.execute "Ratio").machine.stack.depth : Int) = 4 + -3 := by
  intro m body before deeper
  have found : m.dictionary.lookup "Ratio" = some (.colon "RATIO" body) := by
    with_unfolding_all rfl
  have done : (deeper.execute "Ratio").fault? = none := by decide +kernel
  have governs := (execute_usage ⟨_, rfl⟩ found).2
  exact ⟨found, rfl, (governs (.ofList [7, 0])).2.1 (by decide), done,
    (governs (.ofList [1, 2, 7, 3])).2.2 done⟩

end Machine

end Forth
