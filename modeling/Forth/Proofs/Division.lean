import Forth.Proofs.Atomicity
import Mathlib.Algebra.Order.Ring.Int

/-! Division rounds toward zero, whatever the signs: it cuts the fraction off the quotient of the
magnitudes, and the sign of the quotient is that of the product. -/

namespace Forth

/-- The quotient `q` of `a` and `b` leaves a rest that is smaller than `b` and has the sign of `a`,
or no rest. -/
def LeavesRest (a b q : Int) : Prop :=
  ∃ r, a = q * b + r ∧ r.natAbs < b.natAbs ∧ (r = 0 ∨ r.sign = a.sign)

/-- The magnitude of `q` is that of `a` over that of `b`, rounded down, and `q` is not positive if
the signs of `a` and `b` differ, and not negative if they agree. -/
structure RoundsDown (a b q : Int) : Prop where
  magnitude : q.natAbs = a.natAbs / b.natAbs
  differ : a.sign ≠ b.sign → q ≤ 0
  agree : a.sign = b.sign → 0 ≤ q

section

variable {a b q : Int}

theorem leavesRest_tdiv (a : Int) (nonzero : b ≠ 0) : LeavesRest a b (a.tdiv b) := by
  refine ⟨a.tmod b, ?_, ?_, ?_⟩
  · rw [Int.mul_comm, Int.add_comm, Int.tmod_add_mul_tdiv]
  · rw [Int.natAbs_tmod]
    exact Nat.mod_lt _ (Int.natAbs_pos.2 nonzero)
  · by_cases divides : b ∣ a
    · exact .inl (Int.tmod_eq_zero_of_dvd divides)
    · right
      rw [Int.sign_tmod, if_neg divides]

theorem LeavesRest.eq_tdiv (nonzero : b ≠ 0) (leaves : LeavesRest a b q) : q = a.tdiv b := by
  obtain ⟨r, whole, small, sign⟩ := leaves
  have sum : r + b * q = a := by rw [whole, Int.mul_comm, Int.add_comm]
  rcases Int.le_total 0 a with nonneg | nonpos
  · have above : 0 ≤ r := by
      rcases sign with rfl | same
      · exact Int.le_refl 0
      · rw [← Int.sign_nonneg_iff, same]
        exact Int.sign_nonneg_iff.2 nonneg
    exact ((Int.tdiv_tmod_unique nonneg nonzero).2 ⟨sum, above, by omega⟩).1.symm
  · have beneath : r ≤ 0 := by
      rcases sign with rfl | same
      · exact Int.le_refl 0
      · rw [← Int.sign_nonpos_iff, same]
        exact Int.sign_nonpos_iff.2 nonpos
    exact ((Int.tdiv_tmod_unique' nonpos nonzero).2 ⟨sum, by omega, beneath⟩).1.symm

theorem leavesRest_iff (nonzero : b ≠ 0) : LeavesRest a b q ↔ q = a.tdiv b :=
  ⟨LeavesRest.eq_tdiv nonzero, fun same => same ▸ leavesRest_tdiv a nonzero⟩

theorem sign_mul_sign_nonpos (differ : a.sign ≠ b.sign) : a.sign * b.sign ≤ 0 := by
  rcases Int.sign_trichotomy a with signA | signA | signA <;>
    rcases Int.sign_trichotomy b with signB | signB | signB <;>
    simp [signA, signB] at differ ⊢

theorem roundsDown_tdiv (a b : Int) : RoundsDown a b (a.tdiv b) where
  magnitude := Int.natAbs_tdiv a b
  differ other := by
    rw [← Int.sign_nonpos_iff, Int.sign_tdiv]
    split
    · exact Int.le_refl 0
    · exact sign_mul_sign_nonpos other
  agree same := by
    rw [← Int.sign_nonneg_iff, Int.sign_tdiv, same]
    split
    · exact Int.le_refl 0
    · exact mul_self_nonneg b.sign

/-- Magnitude and sign determine a number. -/
theorem roundsDown_iff : RoundsDown a b q ↔ q = a.tdiv b := by
  constructor
  · intro rounds
    have exactly := roundsDown_tdiv a b
    have magnitude := rounds.magnitude.trans exactly.magnitude.symm
    by_cases same : a.sign = b.sign
    · have := rounds.agree same
      have := exactly.agree same
      omega
    · have := rounds.differ same
      have := exactly.differ same
      omega
  · rintro rfl
    exact roundsDown_tdiv a b

theorem exec_divide (call : String → Stack → Effect) (a : Int) (nonzero : b ≠ 0)
    (below : List Int) :
    Code.exec call (.primitive .divide) ⟨b :: a :: below⟩ = .done ⟨a.tdiv b :: below⟩ := by
  rw [Code.exec, Primitive.apply_divide nonzero]
  rfl

end

/-- A division by another number than zero leaves the quotient that is rounded toward zero, which is
the only one whose rest has the sign of the dividend, and the only one that rounds the magnitude
down under the right sign. Changing the sign of either number changes that of the quotient, and
dividing a product by one of its factors gives back the other one. -/
theorem exec_divide_towardZero (call : String → Stack → Effect) (a : Int) {b : Int}
    (nonzero : b ≠ 0) (below : List Int) :
    let divided (a b : Int) := Code.exec call (.primitive .divide) ⟨b :: a :: below⟩
    ∃ q, divided a b = .done ⟨q :: below⟩ ∧
      (∀ other, LeavesRest a b other ↔ other = q) ∧ (∀ other, RoundsDown a b other ↔ other = q) ∧
      Primitive.quotient a b = q ∧
      divided (-a) b = .done ⟨-q :: below⟩ ∧ divided a (-b) = .done ⟨-q :: below⟩ ∧
      divided (a * b) b = .done ⟨a :: below⟩ := by
  intro divided
  refine ⟨a.tdiv b, exec_divide call a nonzero below, fun _ => leavesRest_iff nonzero,
    fun _ => roundsDown_iff, Primitive.quotient_eq_tdiv a b, ?_, ?_, ?_⟩
  · rw [← Int.neg_tdiv]
    exact exec_divide call (-a) nonzero below
  · rw [← Int.tdiv_neg]
    exact exec_divide call a (Int.neg_ne_zero.2 nonzero) below
  · have product := exec_divide call (a * b) nonzero below
    rwa [Int.mul_tdiv_cancel a nonzero] at product

/-- Of the two numbers next to the fraction, the division takes the one nearer to zero. -/
theorem exec_divide_towardZero_seven :
    let divided (a b : Int) := Code.exec Dictionary.seeded.invoke (.primitive .divide) ⟨[b, a, 5]⟩
    (-2 : Int) ≠ 0 ∧ divided 7 (-2) = .done ⟨[-3, 5]⟩ ∧ LeavesRest 7 (-2) (-3) ∧
      ¬LeavesRest 7 (-2) (-4) ∧ RoundsDown 7 (-2) (-3) ∧ divided (-7) (-2) = .done ⟨[3, 5]⟩ ∧
      divided (7 * -2) (-2) = .done ⟨[7, 5]⟩ := by
  intro divided
  have nonzero : (-2 : Int) ≠ 0 := by decide
  obtain ⟨q, quotient, leaves, rounds, same, opposite, -, product⟩ :=
    exec_divide_towardZero Dictionary.seeded.invoke 7 nonzero [5]
  have three : q = -3 := same.symm.trans (by decide)
  subst three
  exact ⟨nonzero, quotient, (leaves (-3)).2 rfl, fun other => by simpa using (leaves (-4)).1 other,
    (rounds (-3)).2 rfl, opposite, product⟩

end Forth
