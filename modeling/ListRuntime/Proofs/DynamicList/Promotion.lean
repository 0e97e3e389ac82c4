import ListRuntime.Proofs.DynamicList.Values
import ListRuntime.Proofs.UniformList.Alike
import ListRuntime.Proofs.UniformList.Intake

/-!
# Taking in another list

The elements of another list are taken in at once if it is of the same kind, and promoted one after
the other if it is not.  Nobody can tell the difference: where all of them promote, what happens
depends only on what they promote to.

* `promoted_or_refused`: since they are all of one kind, either all elements of a list promote to
  another kind, or the first one is refused.
* `taken_in_as_promoted` says when taking in another list fails for its kind, and what it does
  otherwise.

What can be told apart is a hook call that unwinds: appending one by one has then appended some
elements already.
-/

set_option autoImplicit false

namespace ListRuntime

open ListRuntime.Action Course

/-! ## What cannot go wrong -/

namespace UniformList

variable {α : Type} [Element α] {mem : Allocator} {list : UniformList α} {items : List α}

/-- Appending elements fails for want of room, if at all. -/
theorem isAllocation_of_extend {e : ListError}
    (h : (extendCourse mem items list).result = .error e) : e.category.isAllocation :=
  isAllocation_of_roomForMore (of_afterRoom_error (fun _ ↦ ⟨(), rfl⟩) h)

theorem isAllocation_of_splice {first removed : Nat} {e : ListError}
    (h : (spliceCourse mem first removed items list).result = .error e) :
    e.category.isAllocation := by
  dsimp only [spliceCourse] at h
  split at h
  · cases h
    rfl
  · exact isAllocation_of_roomFor (of_afterRoom_error (fun _ ↦ ⟨(), rfl⟩) h)

theorem category_ne_type_of_isAllocation {category : Category} (h : category.isAllocation) :
    category ≠ .type := by
  rintro rfl
  cases h

/-- Assigning elements to a slice never fails for their kind. -/
theorem category_ne_type_of_setSlice {slice : Slice} {e : ListError}
    (h : (setSliceCourse mem slice items list).result = .error e) : e.category ≠ .type := by
  rw [setSliceCourse] at h
  split at h
  · next e' hresolve =>
    cases h
    obtain ⟨-, rfl⟩ := Slice.resolve_eq_error_iff.1 hresolve
    decide
  · split at h
    · exact category_ne_type_of_isAllocation (isAllocation_of_splice h)
    · split at h
      · rw [forEach_ok (P := fun _ _ ↦ True) (fun _ _ _ _ ↦ ⟨rfl, trivial⟩) trivial] at h
        cases h
      · cases h
        rintro ⟨⟩

end UniformList

/-! ## Another list -/

namespace DynamicList

variable {mem : Allocator} {dynamic other : DynamicList} {values : List Value} {slice : Slice}

/-- Promote values, all of them, and assign the elements that come of it to a slice. -/
def setSliceValues (slice : Slice) (values : List Value) : Action Value DynamicList Unit :=
  inside fun _ ↦ do UniformList.setSlice slice (← promoteAll values)

/-- Some element of the list cannot be stored in a list of a kind. -/
def Unstorable (kind : Kind) (other : DynamicList) : Prop :=
  ∃ value ∈ other.values, ∀ a : kind.Carrier, promote value ≠ .ok a

/-- A run that failed for the kind of some value, and left a list the elements it had. -/
def FailedForKind (dynamic : DynamicList) (run : Run Value DynamicList Unit) : Prop :=
  ∃ e, run.ending = .failed e ∧ e.category = .type ∧ run.state.values = dynamic.values

/-- The elements of a list are all of one kind: all of them promote, or the first one is refused. -/
theorem promoted_or_refused (other : DynamicList) (kind : Kind) :
    (∃ items : List kind.Carrier, other.values.map promote = items.map .ok) ∨
    ∃ value rest, other.values = value :: rest ∧
      (promote value : Except ListError kind.Carrier) =
        .error (.notRepresentable other.kind kind) := by
  by_cases hkind : other.kind.promotesTo kind
  · exact Or.inl (promoted_values hkind)
  · cases hvalues : other.values with
    | nil => exact Or.inl ⟨[], rfl⟩
    | cons value rest =>
      have hvalue : value.kind = other.kind :=
        kind_of_mem_values (hvalues ▸ List.mem_cons_self)
      refine Or.inr ⟨value, rest, rfl, ?_⟩
      rw [← hvalue] at hkind ⊢
      exact promote_of_not_promotesTo hkind

theorem not_unstorable_of_promoted {kind : Kind} {items : List kind.Carrier}
    (h : other.values.map promote = items.map .ok) : ¬ other.Unstorable kind := by
  rintro ⟨value, hmem, hrefused⟩
  have hpromoted : promote value ∈ items.map Except.ok := h ▸ List.mem_map_of_mem hmem
  obtain ⟨a, -, ha⟩ := List.mem_map.1 hpromoted
  exact hrefused a ha.symm

theorem unstorable_of_refused {kind : Kind} {value : Value} {rest : List Value} {e : ListError}
    (hvalues : other.values = value :: rest)
    (h : (promote value : Except ListError kind.Carrier) = .error e) : other.Unstorable kind := by
  refine ⟨value, hvalues ▸ List.mem_cons_self, fun a ha ↦ ?_⟩
  rw [h] at ha
  cases ha

/-- What a list holds can be used as it is where elements of its kind are wanted. -/
theorem itemsAs?_of_eq {kind : Kind} (h : other.kind = kind) :
    ∃ items : List kind.Carrier, other.itemsAs? kind = some items ∧
      other.values.map promote = items.map .ok := by
  subst h
  exact ⟨other.list.toList, dif_pos rfl, map_promote_values other⟩

/-! ## Extending -/

theorem run_extendValues (values : List Value) (mem : Allocator) (mishap : Mishap)
    (dynamic : DynamicList) :
    (extendValues values).run mem mishap dynamic =
      (insideCourse (fun _ ↦ UniformList.tryExtendCourse mem values.length (values.map promote))
        dynamic).run mishap :=
  inside_follows (fun _ list ↦ UniformList.tryExtend_follows list _ _) dynamic mishap

/-- Values that all promote are appended as what they promote to. -/
theorem run_extendValues_of_promoted {items : List dynamic.kind.Carrier}
    (h : values.map promote = items.map .ok) (mem : Allocator) :
    (extendValues values).run mem none dynamic =
      ((UniformList.extendCourse mem items dynamic.list).within toValue
        (⟨dynamic.kind, ·⟩)).run none := by
  rw [run_extendValues, insideCourse, h, ← length_of_promoted h, run_none_within, run_none_within,
    UniformList.run_none_tryExtend]

/-- If the first one is refused, there is only the room that was made for all of them. -/
theorem run_extendValues_of_refused {value : Value} {e : ListError}
    (h : (promote value : Except ListError dynamic.kind.Carrier) = .error e)
    (values : List Value) (mem : Allocator) (mishap : Mishap) :
    (extendValues (value :: values)).run mem mishap dynamic =
      match dynamic.list.roomForMore mem (values.length + 1) with
      | .ok roomy => ⟨[], ⟨dynamic.kind, roomy⟩, .failed e⟩
      | .error e' => ⟨[], dynamic, .failed e'⟩ := by
  rw [run_extendValues, insideCourse, List.map_cons, h,
    UniformList.tryExtendCourse_of_first_error, List.length_cons]
  cases dynamic.list.roomForMore mem (values.length + 1) <;> cases mishap <;> rfl

/-- **Appending another list is appending its values**, of whatever kind it is. -/
theorem run_extendFrom (other dynamic : DynamicList) (mem : Allocator) :
    (extendFrom other).run mem none dynamic =
      (extendValues other.values).run mem none dynamic := by
  rw [extendFrom_follows other dynamic none, extendFromCourse]
  by_cases hkind : other.kind = dynamic.kind
  · obtain ⟨items, hsome, hitems⟩ := itemsAs?_of_eq hkind
    rw [run_extendValues_of_promoted hitems, insideCourse, hsome]
  · have hnone : other.itemsAs? dynamic.kind = none := dif_neg hkind
    rw [run_extendValues, insideCourse, hnone, length_values]
    rfl

/-! ## Assigning to a slice -/

theorem setSliceValues_follows (slice : Slice) (values : List Value) (dynamic : DynamicList) :
    (setSliceValues slice values).Follows mem dynamic
      (insideCourse (fun _ ↦ promotedCourse (promoteAll values)
        (UniformList.setSliceCourse mem slice)) dynamic) :=
  inside_follows (fun _ list ↦ promoted_follows _ fun items ↦
    UniformList.setSlice_follows list slice items) dynamic

/-- Values that all promote are assigned as what they promote to. -/
theorem run_setSliceValues_of_promoted {items : List dynamic.kind.Carrier}
    (h : values.map promote = items.map .ok) (slice : Slice) (mem : Allocator) (mishap : Mishap) :
    (setSliceValues slice values).run mem mishap dynamic =
      ((UniformList.setSliceCourse mem slice items dynamic.list).within toValue
        (⟨dynamic.kind, ·⟩)).run mishap := by
  rw [setSliceValues_follows slice values dynamic mishap, insideCourse, promoteAll_of_promoted h]
  rfl

/-- If the first one is refused, the slice is not even looked at. -/
theorem run_setSliceValues_of_refused {value : Value} {e : ListError}
    (h : (promote value : Except ListError dynamic.kind.Carrier) = .error e)
    (values : List Value) (slice : Slice) (mem : Allocator) (mishap : Mishap) :
    (setSliceValues slice (value :: values)).run mem mishap dynamic = ⟨[], dynamic, .failed e⟩ := by
  rw [setSliceValues_follows slice _ dynamic mishap, insideCourse, promoteAll_cons_of_error h]
  cases mishap <;> rfl

/-- **Assigning another list is assigning its values**, whatever mishap there is. -/
theorem run_setSlice (slice : Slice) (other dynamic : DynamicList) (mem : Allocator)
    (mishap : Mishap) :
    (setSlice slice other).run mem mishap dynamic =
      (setSliceValues slice other.values).run mem mishap dynamic := by
  rw [setSlice_follows slice other dynamic mishap, setSliceCourse]
  by_cases hkind : other.kind = dynamic.kind
  · obtain ⟨items, hsome, hitems⟩ := itemsAs?_of_eq hkind
    rw [run_setSliceValues_of_promoted hitems, insideCourse, hsome]
  · have hnone : other.itemsAs? dynamic.kind = none := dif_neg hkind
    rw [setSliceValues_follows slice _ dynamic mishap, insideCourse, hnone]
    rfl

/-! ## Failures -/

section
variable {items : List dynamic.kind.Carrier} {e : ListError}

/-- Where all elements promote, appending them does not fail for their kind. -/
theorem category_of_extendFrom (hitems : other.values.map promote = items.map .ok)
    (h : ((extendFrom other).run mem none dynamic).ending = .failed e) : e.category ≠ .type := by
  rw [run_extendFrom, run_extendValues_of_promoted hitems] at h
  have hresult : (UniformList.extendCourse mem items dynamic.list).result = .error e :=
    (of_run_failed h).1
  exact UniformList.category_ne_type_of_isAllocation (UniformList.isAllocation_of_extend hresult)

/-- Unless room is refused, it appends what they promote to. -/
theorem values_of_extendFrom (hitems : other.values.map promote = items.map .ok)
    (hroom : ((extendFrom other).run mem none dynamic).ending.isRefusal = false) :
    ((extendFrom other).run mem none dynamic).ending = .returned () ∧
      ((extendFrom other).run mem none dynamic).state.values =
        dynamic.values ++ items.map toValue := by
  rw [run_extendFrom, run_extendValues_of_promoted hitems, run_none_within,
    UniformList.extendCourse, UniformList.storeCourse] at hroom ⊢
  have hroomOf := UniformList.roomOf_roomForMore mem dynamic.list items.length
  cases hmore : dynamic.list.roomForMore mem items.length with
  | error e =>
    rw [hmore] at hroom hroomOf
    exact absurd (hroom.symm.trans hroomOf) (by decide)
  | ok roomy =>
    have hroomier := UniformList.roomier_of_roomForMore hmore
    refine ⟨rfl, ?_⟩
    change (roomy.toList ++ items).map toValue = _
    rw [hroomier.toList_eq, List.map_append, values]

/-- Nor does assigning them. -/
theorem category_of_setSlice {mishap : Mishap} (hitems : other.values.map promote = items.map .ok)
    (h : ((setSlice slice other).run mem mishap dynamic).ending = .failed e) :
    e.category ≠ .type := by
  rw [run_setSlice, run_setSliceValues_of_promoted hitems] at h
  have hresult : (UniformList.setSliceCourse mem slice items dynamic.list).result = .error e :=
    (of_run_failed h).1
  exact UniformList.category_ne_type_of_setSlice hresult

end

/-- **Appending fails for the kind of an element** exactly if there is one that cannot be stored,
unless there is no room for the elements in the first place. -/
theorem extendFrom_failedForKind_iff
    (hroom : ((extendFrom other).run mem none dynamic).ending.isRefusal = false) :
    FailedForKind dynamic ((extendFrom other).run mem none dynamic) ↔
      other.Unstorable dynamic.kind := by
  rcases promoted_or_refused other dynamic.kind with
    ⟨items, hitems⟩ | ⟨value, rest, hvalues, hrefused⟩
  · refine iff_of_false ?_ (not_unstorable_of_promoted hitems)
    rintro ⟨e, hfailed, htype, -⟩
    exact category_of_extendFrom hitems hfailed htype
  · refine iff_of_true ?_ (unstorable_of_refused hvalues hrefused)
    rw [run_extendFrom, hvalues, run_extendValues_of_refused hrefused] at hroom ⊢
    cases hmore : dynamic.list.roomForMore mem (rest.length + 1) with
    | ok roomy =>
      refine ⟨_, rfl, rfl, ?_⟩
      exact congrArg (List.map toValue) (UniformList.roomier_of_roomForMore hmore).toList_eq
    | error e =>
      have hrefusal := UniformList.roomOf_roomForMore mem dynamic.list (rest.length + 1)
      rw [hmore] at hroom hrefusal
      exact absurd (hroom.symm.trans hrefusal) (by decide)

/-- An element that cannot be stored is found out before the slice is resolved. -/
theorem run_setSlice_of_unstorable (h : other.Unstorable dynamic.kind) (slice : Slice)
    (mem : Allocator) (mishap : Mishap) :
    (setSlice slice other).run mem mishap dynamic =
      ⟨[], dynamic, .failed (.notRepresentable other.kind dynamic.kind)⟩ := by
  rcases promoted_or_refused other dynamic.kind with
    ⟨items, hitems⟩ | ⟨value, rest, hvalues, hrefused⟩
  · exact absurd h (not_unstorable_of_promoted hitems)
  · rw [run_setSlice, hvalues, run_setSliceValues_of_refused hrefused]

/-- **Assigning fails for the kind of an element** exactly if there is one that cannot be stored. -/
theorem setSlice_failedForKind_iff {mishap : Mishap} :
    FailedForKind dynamic ((setSlice slice other).run mem mishap dynamic) ↔
      other.Unstorable dynamic.kind := by
  refine ⟨fun ⟨e, hfailed, htype, _⟩ ↦ ?_, fun h ↦ ?_⟩
  · rcases promoted_or_refused other dynamic.kind with ⟨items, hitems⟩ | ⟨_, _, hvalues, hrefused⟩
    · exact absurd htype (category_of_setSlice hitems hfailed)
    · exact unstorable_of_refused hvalues hrefused
  · rw [run_setSlice_of_unstorable h]
    exact ⟨_, rfl, rfl, rfl⟩

/-- With memory for all elements, room is not refused. -/
theorem isRefusal_extendFrom (h : dynamic.list.Fits)
    (hmem : mem.Affords dynamic.kind.Carrier (dynamic.length + other.length)) :
    ((extendFrom other).run mem none dynamic).ending.isRefusal = false := by
  obtain ⟨roomy, hmore⟩ : ∃ roomy, dynamic.list.roomForMore mem other.values.length = .ok roomy :=
    h.roomForMore_of_affords (by rwa [length_values])
  rw [run_extendFrom]
  rcases promoted_or_refused other dynamic.kind with
    ⟨items, hitems⟩ | ⟨value, rest, hvalues, hrefused⟩
  · rw [← length_of_promoted hitems] at hmore
    rw [run_extendValues_of_promoted hitems, run_none_within, UniformList.extendCourse,
      UniformList.storeCourse, hmore]
    rfl
  · rw [hvalues, List.length_cons] at hmore
    rw [hvalues, run_extendValues_of_refused hrefused, hmore]
    rfl

/-! ## What taking in another list comes to -/

/-- **Taking in another list is taking in what its elements promote to.**  Appending it makes the same
run as appending its values, and assigning it the same as promoting all of its values and assigning
what comes of it, whatever kinds the two lists are of: the elements of a list of the same kind need no
promotion, but nobody can tell.  It fails for the kind of an element, and leaves the elements of the
list as they were, exactly if there is one that cannot be stored; assigning finds that out before
it so much as resolves the slice.  Otherwise what the elements promote to is appended, and all is as
if another list had held that, so that an empty list is welcome whatever its kind. -/
theorem taken_in_as_promoted (dynamic other : DynamicList) (slice : Slice) (mem : Allocator) :
    (extendFrom other).run mem none dynamic =
      (extendValues other.values).run mem none dynamic ∧
    (∀ mishap, (setSlice slice other).run mem mishap dynamic =
      (setSliceValues slice other.values).run mem mishap dynamic) ∧
    (((extendFrom other).run mem none dynamic).ending.isRefusal = false →
      (FailedForKind dynamic ((extendFrom other).run mem none dynamic) ↔
        other.Unstorable dynamic.kind)) ∧
    (∀ mishap, FailedForKind dynamic ((setSlice slice other).run mem mishap dynamic) ↔
      other.Unstorable dynamic.kind) ∧
    (other.Unstorable dynamic.kind → ∀ mishap,
      (setSlice slice other).run mem mishap dynamic =
        ⟨[], dynamic, .failed (.notRepresentable other.kind dynamic.kind)⟩) ∧
    (¬ other.Unstorable dynamic.kind → ∃ items : List dynamic.kind.Carrier,
      other.values.map promote = items.map .ok ∧
      (((extendFrom other).run mem none dynamic).ending.isRefusal = false →
        ((extendFrom other).run mem none dynamic).ending = .returned () ∧
        ((extendFrom other).run mem none dynamic).state.values =
          dynamic.values ++ items.map toValue) ∧
      ∀ promoted : UniformList dynamic.kind.Carrier, promoted.toList = items →
        (extendFrom other).run mem none dynamic =
          (extendFrom ⟨dynamic.kind, promoted⟩).run mem none dynamic ∧
        ∀ mishap, (setSlice slice other).run mem mishap dynamic =
          (setSlice slice ⟨dynamic.kind, promoted⟩).run mem mishap dynamic) ∧
    (other.values = [] → ∀ e, e.category = .type →
      ((extendFrom other).run mem none dynamic).ending ≠ .failed e ∧
      ((setSlice slice other).run mem none dynamic).ending ≠ .failed e) ∧
    (dynamic.list.Fits → mem.Affords dynamic.kind.Carrier (dynamic.length + other.length) →
      ((extendFrom other).run mem none dynamic).ending.isRefusal = false) := by
  refine ⟨run_extendFrom other dynamic mem, run_setSlice slice other dynamic mem,
    extendFrom_failedForKind_iff, fun _ ↦ setSlice_failedForKind_iff,
    fun hunstorable ↦ run_setSlice_of_unstorable hunstorable slice mem, fun hstorable ↦ ?_,
    fun hnil e htype ↦ ?_, isRefusal_extendFrom⟩
  · rcases promoted_or_refused other dynamic.kind with ⟨items, hitems⟩ | ⟨_, _, hvalues, hrefused⟩
    · refine ⟨items, hitems, values_of_extendFrom hitems, ?_⟩
      rintro promoted rfl
      have hpromoted : (⟨dynamic.kind, promoted⟩ : DynamicList).values.map promote =
          promoted.toList.map .ok := map_promote_values ⟨dynamic.kind, promoted⟩
      refine ⟨?_, fun mishap ↦ ?_⟩
      · rw [run_extendFrom, run_extendFrom, run_extendValues_of_promoted hitems,
          run_extendValues_of_promoted hpromoted]
      · rw [run_setSlice, run_setSlice, run_setSliceValues_of_promoted hitems,
          run_setSliceValues_of_promoted hpromoted]
    · exact absurd (unstorable_of_refused hvalues hrefused) hstorable
  · have hitems : other.values.map promote = ([] : List dynamic.kind.Carrier).map .ok := by
      rw [hnil]
      rfl
    exact ⟨fun hfailed ↦ category_of_extendFrom hitems hfailed htype,
      fun hfailed ↦ category_of_setSlice hitems hfailed htype⟩

/-- References do not go into a list of numbers, be there a slice to assign them to or not; where
there are none of them, nothing is wrong. -/
theorem taken_in_as_promoted_references :
    let numbers : DynamicList := ⟨.int, ⟨⟨#[(1 : Int64)], 1⟩, .standard⟩⟩
    let references : DynamicList := ⟨.ref, ⟨⟨#[(⟨1, 0⟩ : Reference)], 1⟩, .standard⟩⟩
    let stepless : Slice := ⟨none, none, some 0⟩
    FailedForKind numbers ((extendFrom references).run .boundless none numbers) ∧
    (setSlice stepless references).run .boundless none numbers =
      ⟨[], numbers, .failed (.notRepresentable .ref .int)⟩ ∧
    ∀ e, e.category = .type →
      ((extendFrom (empty .ref .standard)).run .boundless none numbers).ending ≠ .failed e := by
  intro numbers references stepless
  obtain ⟨-, -, hextend, -, hassign, -, -, hroom⟩ :=
    taken_in_as_promoted numbers references stepless .boundless
  obtain ⟨-, -, -, -, -, -, hempty, -⟩ :=
    taken_in_as_promoted numbers (empty .ref .standard) stepless .boundless
  have hunstorable : references.Unstorable .int :=
    ⟨.ref ⟨1, 0⟩, List.mem_singleton.2 rfl, fun a ha ↦ by cases ha⟩
  have hfits : numbers.list.Fits := ⟨by decide, by decide⟩
  have haffords : Allocator.boundless.Affords Int64 2 := ⟨fun _ ↦ rfl, by decide⟩
  exact ⟨(hextend (hroom hfits haffords)).2 hunstorable, hassign hunstorable none,
    fun e htype ↦ (hempty rfl e htype).1⟩

end DynamicList
end ListRuntime
