import ListRuntime.Proofs.Binary64
import ListRuntime.Value

/-!
# Equality of values

The language's `==` takes numbers of all kinds together.  This file says what it compares: truth
values, words and doubles all denote extended real numbers, and two numbers are equal if they denote
the same one.  Nothing is rounded, so a word is never equal to a double that is only near it.

* `Value.denoted?` is the number that a value denotes.  References denote none, and neither does
  NaN.
* `Value.equal_eq_true_iff` is all there is to know of equality, and `equal_exact` spells it out
  with the laws that follow.
-/

set_option autoImplicit false

namespace ListRuntime
namespace Value

variable {a b c : Value}

/-- The extended real number that a value denotes.  Truth values are zero and one. -/
noncomputable def denoted? : Value → Option EReal
  | bool b => some ((ofTruth b : ℝ) : EReal)
  | int i => some ((i.toInt : ℝ) : EReal)
  | float x => x.denoted?
  | ref _ => none

/-- Whether a value is a double that denotes no number. -/
def isNaN : Value → Bool
  | float x => x.isNaN
  | _ => false

theorem denoted?_eq_none_iff : a.denoted? = none ↔ a.kind = .ref ∨ a.isNaN = true := by
  cases a with
  | float x => simpa [denoted?, kind, isNaN] using Binary64.denoted?_eq_none_iff
  | bool b | int i | ref r => simp [denoted?, kind, isNaN]

/-- What denotes a number is no NaN. -/
theorem isNaN_of_denoted {r : EReal} (h : a.denoted? = some r) : a.isNaN = false := by
  rw [← Bool.not_eq_true]
  intro hnan
  rw [denoted?_eq_none_iff.2 (Or.inr hnan)] at h
  cases h

/-- All other numbers denote one. -/
theorem exists_denoted (hkind : a.kind ≠ .ref) (h : a.isNaN = false) :
    ∃ r, a.denoted? = some r := by
  rw [← Option.ne_none_iff_exists', Ne, denoted?_eq_none_iff, h]
  exact not_or.2 ⟨hkind, Bool.false_ne_true⟩

theorem fitsWord_ofTruth (b : Bool) : FitsWord (ofTruth b) := by
  cases b <;> exact ⟨by decide, by decide⟩

theorem ofTruth_inj {b c : Bool} : ofTruth b = ofTruth c ↔ b = c := by
  cases b <;> cases c <;> decide

/-- Whole numbers denote the same number if they are the same. -/
theorem exists_whole_iff {i j : Int} :
    (∃ r, some ((i : ℝ) : EReal) = some r ∧ some ((j : ℝ) : EReal) = some r) ↔ i = j := by
  constructor
  · rintro ⟨r, hi, hj⟩
    have heq : ((i : ℝ) : EReal) = ((j : ℝ) : EReal) := Option.some.inj (hi.trans hj.symm)
    exact_mod_cast heq
  · rintro rfl
    exact ⟨_, rfl, rfl⟩

/-- A double and a whole number denote the same number if the double denotes the whole number. -/
theorem exists_double_iff {x : Binary64} {i : Int} (hi : FitsWord i) :
    (∃ r, x.denoted? = some r ∧ some ((i : ℝ) : EReal) = some r) ↔ x.equalInt i = true := by
  rw [Binary64.equalInt_iff hi]
  constructor
  · rintro ⟨r, hx, hr⟩
    rw [hx, hr]
  · exact fun hx ↦ ⟨_, hx, rfl⟩

theorem exists_double_iff' {x : Binary64} {i : Int} (hi : FitsWord i) :
    (∃ r, some ((i : ℝ) : EReal) = some r ∧ x.denoted? = some r) ↔ x.equalInt i = true := by
  rw [← exists_double_iff hi]
  exact exists_congr fun _ ↦ and_comm

/-- **Values are equal if they denote the same number, or are the same reference.** -/
theorem equal_eq_true_iff : a.equal b = true ↔
    (∃ r, a.denoted? = some r ∧ b.denoted? = some r) ∨ ∃ r, a = .ref r ∧ b = .ref r := by
  cases a with
  | ref r => cases b <;> simp [equal, denoted?, eq_comm]
  | float x =>
    cases b <;> simp only [equal, denoted?, reduceCtorEq, false_and, and_false, exists_false,
      or_false, Bool.false_eq_true]
    case float y => exact Binary64.equal_iff
    case int i => exact (exists_double_iff (fitsWord_toInt i)).symm
    case bool p => exact (exists_double_iff (fitsWord_ofTruth p)).symm
  | int i =>
    cases b <;> simp only [equal, denoted?, reduceCtorEq, false_and, and_false, exists_false,
      or_false, Bool.false_eq_true, exists_whole_iff, decide_eq_true_eq, Int64.toInt_inj]
    case float y => exact (exists_double_iff' (fitsWord_toInt i)).symm
  | bool p =>
    cases b <;> simp only [equal, denoted?, reduceCtorEq, false_and, and_false, exists_false,
      or_false, Bool.false_eq_true, exists_whole_iff, decide_eq_true_eq, ofTruth_inj]
    case float y => exact (exists_double_iff' (fitsWord_ofTruth p)).symm
    case int i => exact eq_comm

/-! ## Laws -/

theorem equal_comm (a b : Value) : a.equal b = b.equal a := by
  rw [Bool.eq_iff_iff, equal_eq_true_iff, equal_eq_true_iff]
  exact or_congr (exists_congr fun _ ↦ and_comm) (exists_congr fun _ ↦ and_comm)

theorem equal_trans (h : a.equal b = true) (h' : b.equal c = true) : a.equal c = true := by
  rw [equal_eq_true_iff] at h h' ⊢
  rcases h with ⟨r, ha, hb⟩ | ⟨r, rfl, rfl⟩ <;> rcases h' with ⟨r', hb', hc⟩ | ⟨r', hb', rfl⟩
  · rw [hb] at hb'
    exact Or.inl ⟨r, ha, hc.trans hb'.symm⟩
  · rw [hb'] at hb
    cases hb
  · cases hb'
  · exact Or.inr ⟨r, rfl, hb'.symm ▸ rfl⟩

/-- Equal values are equal to the same values. -/
theorem equal_congr {a b : Value} (h : a.equal b = true) (value : Value) :
    a.equal value = b.equal value := by
  rw [Bool.eq_iff_iff]
  exact ⟨equal_trans (equal_comm a b ▸ h), equal_trans h⟩

/-- NaN is all that does not equal itself. -/
theorem equal_self_iff : a.equal a = true ↔ a.isNaN = false := by
  rw [equal_eq_true_iff]
  constructor
  · rintro (⟨r, hr, -⟩ | ⟨r, rfl, -⟩)
    · exact isNaN_of_denoted hr
    · rfl
  · intro hnan
    cases a with
    | ref r => exact Or.inr ⟨r, rfl, rfl⟩
    | bool p | int i | float x =>
      obtain ⟨r, hr⟩ := exists_denoted (by simp [kind]) hnan
      exact Or.inl ⟨r, hr, hr⟩

/-- **Equality is exact.**  Two numbers are equal if neither of them is NaN and they denote the same
extended real number; a number and a reference are never equal; and two references are equal if they
are of one object and one hook table.  So equality is symmetric and transitive over all kinds, and
NaN is the only value that does not equal itself. -/
theorem equal_exact :
    (∀ a b : Value, a.kind ≠ .ref → b.kind ≠ .ref →
      (a.equal b = true ↔ a.isNaN = false ∧ b.isNaN = false ∧ a.denoted? = b.denoted?)) ∧
    (∀ a : Value, a.denoted? = none ↔ a.kind = .ref ∨ a.isNaN = true) ∧
    (∀ (r : Reference) (a : Value), a.kind ≠ .ref →
      (ref r).equal a = false ∧ a.equal (ref r) = false) ∧
    (∀ r s : Reference,
      (ref r).equal (ref s) = true ↔ r.address = s.address ∧ r.table = s.table) ∧
    (∀ a b : Value, a.equal b = b.equal a) ∧
    (∀ a b c : Value, a.equal b = true → b.equal c = true → a.equal c = true) ∧
    ∀ a : Value, a.equal a = true ↔ a.isNaN = false := by
  refine ⟨fun a b ha hb ↦ ?_, fun _ ↦ denoted?_eq_none_iff, fun r a ha ↦ ?_, fun r s ↦ ?_,
    equal_comm, fun _ _ _ ↦ equal_trans, fun _ ↦ equal_self_iff⟩
  · rw [equal_eq_true_iff]
    constructor
    · rintro (⟨r, hr, hr'⟩ | ⟨r, rfl, -⟩)
      · exact ⟨isNaN_of_denoted hr, isNaN_of_denoted hr', hr.trans hr'.symm⟩
      · exact absurd rfl ha
    · rintro ⟨hnan, -, heq⟩
      obtain ⟨r, hr⟩ := exists_denoted ha hnan
      exact Or.inl ⟨r, hr, heq ▸ hr⟩
  · have hne : (ref r).equal a = false := by
      cases a with
      | ref s => exact absurd rfl ha
      | bool p | int i | float x => rfl
    exact ⟨hne, equal_comm a (ref r) ▸ hne⟩
  · obtain ⟨address, table⟩ := r
    obtain ⟨address', table'⟩ := s
    simp [equal]

/-- The word `2 ^ 53 + 1` is no double.  It is not equal to the double `2 ^ 53`, to which it would
be rounded, and does not denote the same; but one is one in all three kinds. -/
theorem equal_exact_between_doubles :
    let odd : Value := .int 9007199254740993
    let even : Value := .float ⟨0x4340000000000000⟩
    let one : Value := .float ⟨0x3ff0000000000000⟩
    odd.kind ≠ .ref ∧ even.kind ≠ .ref ∧ odd.denoted? ≠ even.denoted? ∧
      odd.equal (.ref ⟨0, 0⟩) = false ∧ (bool true).equal one = true := by
  obtain ⟨hnumbers, -, href, -, -, htrans, -⟩ := equal_exact
  have hodd : (int 9007199254740993).kind ≠ .ref := by decide
  have heven : (float ⟨0x4340000000000000⟩).kind ≠ .ref := by decide
  have hunequal : ¬ (int 9007199254740993).equal (float ⟨0x4340000000000000⟩) = true := by
    decide +kernel
  refine ⟨hodd, heven, fun heq ↦ ?_, (href ⟨0, 0⟩ _ hodd).2, ?_⟩
  · exact hunequal ((hnumbers _ _ hodd heven).2 ⟨rfl, by decide +kernel, heq⟩)
  · exact htrans _ (int 1) _ (by decide +kernel) (by decide +kernel)

end Value
end ListRuntime
