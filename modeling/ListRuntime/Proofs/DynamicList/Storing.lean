import ListRuntime.Proofs.Binary64.Rounding
import ListRuntime.Proofs.DynamicList.Search
import ListRuntime.Proofs.DynamicList.Values
import ListRuntime.Proofs.Value

/-!
# What a list holds of a value stored

A value is promoted when it is stored, and the language's `==` does not see the promotion: the element
compares equal to the value it came from, and the list contains that value.  There is one exception.
Doubles have fewer significant bits than words, so a word can lie between two doubles that are next to
each other.  It is rounded then, `==` tells it from what is stored, and no list of doubles contains it.

* `Value.IsBetweenDoubles` is the exception.
* `equal_of_promote` and `nearest_of_promote` are promotion in the one case and in the other.
* `StoredAt` says of a list what it holds of a value at a position.
* `storing_keeps_equal` is all ways to store one value.
-/

set_option autoImplicit false

namespace ListRuntime

/-! ## Promotion -/

/-- The value is a word, and no double denotes the same number. -/
def Value.IsBetweenDoubles (value : Value) : Prop :=
  value.kind = .int ∧ ∀ x : Binary64, x.denoted? ≠ value.denoted?

/-- No double equals a value between two of them. -/
theorem Value.IsBetweenDoubles.equal_eq_false {value : Value} (h : value.IsBetweenDoubles)
    (x : Binary64) : (Value.float x).equal value = false := by
  rw [← Bool.not_eq_true, Value.equal_eq_true_iff]
  rintro (⟨r, hx, hr⟩ | ⟨r, hx, -⟩)
  · exact h.2 x (hx.trans hr.symm)
  · cases hx

theorem natAbs_lt_of_fitsWord {i : Int} (h : FitsWord i) : i.natAbs < 2 ^ 64 := by
  have hlo := h.1
  have hhi := h.2
  omega

/-- A word is promoted to the double nearest to it. -/
theorem promote_int_float (i : Int64) :
    (promote (.int i) : Except ListError Kind.float.Carrier) = .ok (Binary64.ofInt i.toInt) ∧
      Binary64.IsNearest i.toInt (Binary64.ofInt i.toInt) :=
  ⟨rfl, Binary64.isNearest_ofInt (natAbs_lt_of_fitsWord (fitsWord_toInt i))⟩

/-- A word is between two doubles exactly if rounding changes it. -/
theorem isBetweenDoubles_int_iff (i : Int64) : (Value.int i).IsBetweenDoubles ↔
    (Value.float (Binary64.ofInt i.toInt)).equal (.int i) = false := by
  refine ⟨fun h ↦ h.equal_eq_false _, fun h ↦ ⟨rfl, fun x hx ↦ ?_⟩⟩
  have hrounded : (Value.float (Binary64.ofInt i.toInt)).denoted? = (Value.int i).denoted? :=
    (promote_int_float i).2.denoted?_eq hx
  rw [Value.equal_eq_true_iff.2 (Or.inl ⟨_, hrounded, rfl⟩)] at h
  cases h

/-- **Promotion keeps the number**, unless it is to a double and there is none. -/
theorem equal_of_promote {kind : Kind} {value : Value} {a : kind.Carrier}
    (ha : promote value = .ok a) (hnan : value.isNaN = false)
    (hexact : ¬ (kind = .float ∧ value.IsBetweenDoubles)) :
    (toValue a).equal value = true := by
  by_cases hkind : value.kind = kind
  · subst hkind
    rw [toValue_of_promote ha]
    exact Value.equal_self_iff.2 hnan
  · cases kind with
    | bool | ref => cases value <;> first | exact absurd rfl hkind | cases ha
    | int =>
      cases value with
      | bool b =>
        obtain rfl := Except.ok.inj ha
        cases b <;> rfl
      | int i => exact absurd rfl hkind
      | float x | ref r => cases ha
    | float =>
      cases value with
      | bool b =>
        obtain rfl := Except.ok.inj ha
        cases b <;> decide +kernel
      | int i =>
        obtain rfl := Except.ok.inj ((promote_int_float i).1.symm.trans ha)
        rw [← Bool.not_eq_false]
        exact fun hunequal ↦ hexact ⟨rfl, (isBetweenDoubles_int_iff i).2 hunequal⟩
      | float x => exact absurd rfl hkind
      | ref r => cases ha

/-! ## Storing elements -/

namespace UniformList

open ListRuntime.Course

variable {α : Type} {list : UniformList α} {a : α} {mem : Allocator} {mishap : Mishap}

theorem getElem?_of_assign_returned {index : Int64}
    (h : ((assign index a).run mem mishap list).ending = .returned ()) :
    ∃ position, resolveIndex index list.length = some position ∧
      ((assign index a).run mem mishap list).state.toList[position]? = some a := by
  rw [assign_follows list index a mishap] at h ⊢
  obtain ⟨hresult, hrun⟩ := of_run_returned h
  rw [hrun]
  rw [atIndex] at hresult ⊢
  cases hposition : resolveIndex index list.length with
  | none =>
    rw [hposition] at hresult
    cases hresult
  | some position =>
    have hlt := lt_of_resolveIndex hposition
    rw [← length_toList] at hlt
    exact ⟨position, rfl, List.getElem?_set_self hlt⟩

variable [Element α]

theorem getElem?_of_append_returned
    (h : ((append a).run mem mishap list).ending = .returned ()) :
    ((append a).run mem mishap list).state.toList[list.length]? = some a := by
  rw [append_follows list a mishap, extendCourse] at h ⊢
  obtain ⟨roomy, hsame, hrun⟩ := of_store_returned h
  rw [hrun]
  rw [toList_holding, hsame, ← length_toList]
  exact List.getElem?_concat_length

theorem getElem?_of_insert_returned {position : Int64}
    (h : ((insert position a).run mem mishap list).ending = .returned ()) :
    ((insert position a).run mem mishap list).state.toList[clampPosition position list.length]? =
      some a := by
  rw [insert_follows list position a mishap] at h ⊢
  obtain ⟨roomy, hsame, hrun⟩ := of_store_returned h
  rw [hrun]
  rw [toList_holding, hsame, length_eq_of_toList_eq hsame]
  have hle := clampPosition_le position list.length
  rw [← length_toList] at hle ⊢
  rw [List.getElem?_insertIdx_self, if_pos hle]

end UniformList

namespace DynamicList

open ListRuntime.Action UniformList

variable {value : Value} {dynamic : DynamicList} {mem : Allocator} {mishap : Mishap}

/-- What a list holds of a value that was stored at a position: an element that equals it, unless the
list is one of doubles and the value lies between two of them.  Then it holds the nearest double,
which is not equal to the value, and neither is any other element. -/
def StoredAt (value : Value) (position : Nat) (dynamic : DynamicList) : Prop :=
  ∃ stored, dynamic.values[position]? = some stored ∧
    (¬ (dynamic.kind = .float ∧ value.IsBetweenDoubles) →
      stored.equal value = true ∧ dynamic.contains value = true) ∧
    (dynamic.kind = .float → value.IsBetweenDoubles →
      (∃ x i, stored = .float x ∧ value = .int i ∧ Binary64.IsNearest i.toInt x) ∧
        stored.equal value = false ∧ dynamic.contains value = false)

/-- A list of doubles contains no value between two of them. -/
theorem contains_eq_false (hkind : dynamic.kind = .float) (h : value.IsBetweenDoubles) :
    dynamic.contains value = false := by
  rw [contains, List.any_eq_false]
  intro other hmem
  have hother := (kind_of_mem_values hmem).trans hkind
  cases other with
  | float x => rw [h.equal_eq_false x]; exact Bool.false_ne_true
  | bool b | int i | ref r => cases hother

/-- **What promotes is stored at a position** where its promotion is. -/
theorem storedAt_of_promote {kind : Kind} {list : UniformList kind.Carrier} {a : kind.Carrier}
    (ha : promote value = .ok a) (hnan : value.isNaN = false) {position : Nat}
    (hposition : list.toList[position]? = some a) : StoredAt value position ⟨kind, list⟩ := by
  have hvalues : (DynamicList.mk kind list).values[position]? = some (toValue a) := by
    rw [values, List.getElem?_map, hposition]
    rfl
  refine ⟨toValue a, hvalues, fun hexact ↦ ?_, fun hkind hbetween ↦ ?_⟩
  · have hequal := equal_of_promote ha hnan hexact
    exact ⟨hequal, List.any_eq_true.2 ⟨_, List.mem_of_getElem? hvalues, hequal⟩⟩
  · obtain rfl : kind = .float := hkind
    refine ⟨?_, hbetween.equal_eq_false a, contains_eq_false rfl hbetween⟩
    cases value with
    | int i =>
      obtain ⟨hpromote, hnearest⟩ := promote_int_float i
      obtain rfl := Except.ok.inj (hpromote.symm.trans ha)
      exact ⟨_, i, rfl, rfl, hnearest⟩
    | bool b | float x | ref r => cases hbetween.1

/-! ## Ways to store a value -/

/-- What is there already need not be waited for. -/
theorem liftM_ok_bind {α σ ι β : Type} (i : ι) (next : ι → Action α σ β) :
    ((liftM (Except.ok i : Except ListError ι) : Action α σ ι) >>= next) = next i := by
  refine ext_run fun mem mishap s ↦ ?_
  have hpure : ((liftM (Except.ok i : Except ListError ι) : Action α σ ι).run mem mishap s) =
      ⟨[], s, .returned i⟩ := rfl
  rw [run_bind_returned hpure]
  simp

/-- Work on the list inside that begins with a promotion returns if both do. -/
theorem of_promoting_returned
    {action : (kind : Kind) → kind.Carrier → Action kind.Carrier (UniformList kind.Carrier) Unit}
    (h : ((inside fun kind ↦ do action kind (← promote value)).run mem mishap dynamic).ending =
      .returned ()) :
    ∃ a : dynamic.kind.Carrier, promote value = .ok a ∧
      ((action dynamic.kind a).run mem mishap dynamic.list).ending = .returned () ∧
      ((inside fun kind ↦ do action kind (← promote value)).run mem mishap dynamic).state =
        ⟨dynamic.kind, ((action dynamic.kind a).run mem mishap dynamic.list).state⟩ := by
  rw [run_inside] at h ⊢
  rw [outside_returned_iff] at h
  cases hpromote : (promote value : Except ListError dynamic.kind.Carrier) with
  | error e =>
    rw [hpromote] at h
    cases h
  | ok a =>
    rw [hpromote, liftM_ok_bind] at h
    rw [liftM_ok_bind]
    exact ⟨a, rfl, h, rfl⟩

/-- If the run stored the value, the list is of the kind it was, and holds the value at the
position. -/
def Stores (value : Value) (position? : Option Nat) (dynamic : DynamicList)
    (run : Run Value DynamicList Unit) : Prop :=
  run.ending = .returned () → run.state.kind = dynamic.kind ∧
    ∃ position, position? = some position ∧ StoredAt value position run.state

/-- A way to store an element is one to store what promotes to it. -/
theorem stores_of_puts (hnan : value.isNaN = false) {position? : Option Nat}
    {action : (kind : Kind) → kind.Carrier → Action kind.Carrier (UniformList kind.Carrier) Unit}
    (hputs : ∀ a : dynamic.kind.Carrier,
      ((action dynamic.kind a).run mem mishap dynamic.list).ending = .returned () →
        ∃ position, position? = some position ∧
          ((action dynamic.kind a).run mem mishap dynamic.list).state.toList[position]? = some a) :
    Stores value position? dynamic
      ((inside fun kind ↦ do action kind (← promote value)).run mem mishap dynamic) := by
  intro hreturned
  obtain ⟨a, ha, hinside, hstate⟩ := of_promoting_returned hreturned
  obtain ⟨position, hposition, hput⟩ := hputs a hinside
  rw [hstate]
  exact ⟨rfl, position, hposition, storedAt_of_promote ha hnan hput⟩

/-- **Storing keeps a value equal**, unless no double does.  Whenever a value that is no NaN is
appended, inserted or assigned, to a list of any kind, the element now at that position equals the
value and the list contains the value.  The exception is a word between two doubles in a list of
doubles: the element is the double nearest to it, a tie going to the even one, it does not equal the
value, and the list does not contain the value. -/
theorem storing_keeps_equal (dynamic : DynamicList) {value : Value} (hnan : value.isNaN = false)
    (mem : Allocator) (mishap : Mishap) :
    Stores value (some dynamic.length) dynamic ((append value).run mem mishap dynamic) ∧
    (∀ position : Int64, Stores value (some (clampPosition position dynamic.length)) dynamic
      ((insert position value).run mem mishap dynamic)) ∧
    ∀ index : Int64, Stores value (resolveIndex index dynamic.length) dynamic
      ((assign index value).run mem mishap dynamic) := by
  refine ⟨stores_of_puts hnan fun a hreturned ↦ ?_,
    fun position ↦ stores_of_puts hnan fun a hreturned ↦ ?_,
    fun index ↦ stores_of_puts hnan fun a hreturned ↦ ?_⟩
  · exact ⟨_, rfl, getElem?_of_append_returned hreturned⟩
  · exact ⟨_, rfl, getElem?_of_insert_returned hreturned⟩
  · exact getElem?_of_assign_returned hreturned

/-- The word `2 ^ 53 + 1` appended to a list of doubles, and a truth value inserted far before the
first of two words. -/
theorem storing_keeps_equal_rounded :
    let doubles : DynamicList := ⟨.float, ⟨⟨#[(⟨0x3FF0000000000000⟩ : Binary64)], 4⟩, .standard⟩⟩
    let odd : Value := .int 9007199254740993
    let appended := (append odd).run .boundless none doubles
    let inserted := (insert (-9) (.bool true)).run .boundless none
      ⟨.int, ⟨⟨#[(7 : Int64), (8 : Int64)], 2⟩, .standard⟩⟩
    (odd.isNaN = false ∧ appended.ending = .returned () ∧ odd.IsBetweenDoubles ∧
      appended.state.values[1]? = some (.float ⟨0x4340000000000000⟩) ∧
      appended.state.contains odd = false) ∧
    (Value.bool true).isNaN = false ∧ inserted.ending = .returned () ∧
      inserted.state.values[0]? = some (.int 1) ∧ inserted.state.contains (.bool true) = true := by
  intro doubles odd appended inserted
  have hodd : odd.isNaN = false := rfl
  have htrue : (Value.bool true).isNaN = false := rfl
  have hbetween : odd.IsBetweenDoubles := (isBetweenDoubles_int_iff _).2 (by decide +kernel)
  obtain ⟨happend, -, -⟩ := storing_keeps_equal doubles hodd .boundless none
  obtain ⟨-, hinsert, -⟩ := storing_keeps_equal
    ⟨.int, ⟨⟨#[(7 : Int64), (8 : Int64)], 2⟩, .standard⟩⟩ htrue .boundless none
  obtain ⟨-, _, -, stored, -, -, hrounded⟩ := happend rfl
  obtain ⟨-, _, -, stored', -, hkept, -⟩ := hinsert (-9) rfl
  have hwords : ¬ (inserted.state.kind = .float ∧ (Value.bool true).IsBetweenDoubles) := by
    rintro ⟨hkind, -⟩
    cases hkind
  exact ⟨⟨hodd, rfl, hbetween, by decide +kernel, (hrounded rfl hbetween).2.2⟩,
    htrue, rfl, by decide +kernel, (hkept hwords).2⟩

end DynamicList
end ListRuntime
