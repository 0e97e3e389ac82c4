import ListRuntime.Element

/-!
# Promotion and inference

Promotion orders the kinds: truth values below whole numbers below doubles, and references apart.
Whether a value can be stored in a list is a matter of its kind alone, and the kind of a list of
values is the narrowest one that all of them promote to.

* `exists_promote_iff` and `promote_of_not_promotesTo` are the two outcomes of promoting a value;
  `promote_promote` says that it may be done in two steps.
* `Kind.IsNarrowest` is what a common kind of kinds should be, and
  `Kind.exists_promotesTo_iff` says when kinds have a common one at all.
* `unifyKinds_eq_ok_iff`: inference, which goes through the values one after the other, finds the
  narrowest kind of all that is known (`knownKinds`).
-/

set_option autoImplicit false

namespace ListRuntime

/-! ## The order of kinds -/

namespace Kind

variable {one two three left right wider : Kind}

theorem promotesTo_refl (kind : Kind) : kind.promotesTo kind = true := by
  cases kind <;> rfl

theorem promotesTo_antisymm (h : one.promotesTo two) (h' : two.promotesTo one) : one = two := by
  revert h h'
  cases one <;> cases two <;> decide

theorem ref_promotesTo_iff {kind : Kind} : Kind.ref.promotesTo kind ↔ kind = .ref := by
  cases kind <;> decide

theorem promotesTo_ref_iff {kind : Kind} : kind.promotesTo .ref ↔ kind = .ref := by
  cases kind <;> decide

/-- All numbers promote to doubles. -/
theorem promotesTo_float_iff {kind : Kind} : kind.promotesTo .float ↔ kind ≠ .ref := by
  cases kind <;> decide

/-- There is only one way up the ladder in two proper steps. -/
theorem eq_of_two_steps (h : one.promotesTo two) (h' : two.promotesTo three) (hne : one ≠ two)
    (hne' : two ≠ three) : one = .bool ∧ two = .int ∧ three = .float := by
  revert h h' hne hne'
  cases one <;> cases two <;> cases three <;> decide

/-- The common kind of two kinds promotes to what both of them promote to, and to nothing else. -/
theorem promotesTo_iff_of_unify? (h : left.unify? right = some wider) (target : Kind) :
    wider.promotesTo target ↔ left.promotesTo target ∧ right.promotesTo target := by
  revert h
  cases left <;> cases right <;> cases wider <;> cases target <;> decide

/-- Kinds without a common kind promote to nothing together. -/
theorem not_promotesTo_of_unify? (h : left.unify? right = none) (target : Kind) :
    ¬ (left.promotesTo target ∧ right.promotesTo target) := by
  revert h
  cases left <;> cases right <;> cases target <;> decide

theorem promotesTo_of_unify? (h : left.unify? right = some wider) :
    left.promotesTo wider ∧ right.promotesTo wider :=
  (promotesTo_iff_of_unify? h wider).1 (promotesTo_refl wider)

/-- The common kind of two kinds is a kind of numbers. -/
theorem ne_ref_of_unify? (h : left.unify? right = some wider) (hne : left ≠ right) :
    wider ≠ .ref := by
  revert h hne
  cases left <;> cases right <;> cases wider <;> decide

/-- A kind that all of the kinds promote to, and that promotes to every other such kind. -/
structure IsNarrowest (kinds : List Kind) (kind : Kind) : Prop where
  /-- All of them promote to it. -/
  promotesTo : ∀ known ∈ kinds, known.promotesTo kind
  /-- There is no narrower one. -/
  narrowest : ∀ other : Kind, (∀ known ∈ kinds, known.promotesTo other) → kind.promotesTo other

variable {kinds : List Kind} {kind kind' : Kind}

/-- Without kinds there is no narrowest one: it would have to be a number and a reference. -/
theorem IsNarrowest.ne_nil (h : IsNarrowest kinds kind) : kinds ≠ [] := by
  rintro rfl
  have hnothing (other : Kind) : ∀ known ∈ ([] : List Kind), known.promotesTo other :=
    fun _ hmem ↦ (List.not_mem_nil hmem).elim
  obtain rfl := promotesTo_ref_iff.1 (h.narrowest .ref (hnothing .ref))
  cases ref_promotesTo_iff.1 (h.narrowest .bool (hnothing .bool))

theorem IsNarrowest.unique (h : IsNarrowest kinds kind) (h' : IsNarrowest kinds kind') :
    kind = kind' :=
  promotesTo_antisymm (h.narrowest kind' h'.promotesTo) (h'.narrowest kind h.promotesTo)

/-- Kinds have a kind in common unless there are both numbers and references among them. -/
theorem exists_promotesTo_iff :
    (∃ kind : Kind, ∀ known ∈ kinds, known.promotesTo kind) ↔
      ¬ (.ref ∈ kinds ∧ ∃ known ∈ kinds, known ≠ .ref) := by
  constructor
  · rintro ⟨kind, hall⟩ ⟨href, known, hmem, hne⟩
    obtain rfl := ref_promotesTo_iff.1 (hall .ref href)
    exact hne (promotesTo_ref_iff.1 (hall known hmem))
  · intro hpure
    by_cases href : .ref ∈ kinds
    · refine ⟨.ref, fun known hmem ↦ promotesTo_ref_iff.2 ?_⟩
      exact Decidable.not_not.1 fun hne ↦ hpure ⟨href, known, hmem, hne⟩
    · refine ⟨.float, fun known hmem ↦ promotesTo_float_iff.2 ?_⟩
      rintro rfl
      exact href hmem

end Kind

/-! ## Values of a kind -/

/-- An element is determined by its value. -/
theorem toValue_injective (kind : Kind) :
    Function.Injective (toValue : kind.Carrier → Value) := by
  intro a b h
  cases kind with
  | bool => exact Value.bool.inj h
  | int => exact Value.int.inj h
  | float => exact Value.float.inj h
  | ref => exact Value.ref.inj h

/-- Elements of other kinds are no references. -/
theorem toValue_ne_ref {kind : Kind} (h : kind ≠ .ref) (a : kind.Carrier) (r : Reference) :
    toValue a ≠ .ref r := by
  intro heq
  cases kind with
  | ref => exact h rfl
  | bool | int | float => cases heq

theorem kind_toValue {kind : Kind} (a : kind.Carrier) : (toValue a).kind = kind := by
  cases kind <;> rfl

/-- Storing an element in a list of its own kind changes no bit of it. -/
theorem promote_toValue {kind : Kind} (a : kind.Carrier) : promote (toValue a) = .ok a := by
  cases kind <;> rfl

/-- A value whose kind promotes to another one promotes itself. -/
theorem promotes_of_promotesTo {value : Value} {kind : Kind} (h : value.kind.promotesTo kind) :
    ∃ a : kind.Carrier, promote value = .ok a := by
  cases kind <;> cases value <;> first | exact ⟨_, rfl⟩ | cases h

/-- A value whose kind does not is refused for that reason. -/
theorem promote_of_not_promotesTo {value : Value} {kind : Kind}
    (h : ¬ value.kind.promotesTo kind) :
    (promote value : Except ListError kind.Carrier) =
      .error (.notRepresentable value.kind kind) := by
  cases kind <;> cases value <;> first | rfl | exact absurd rfl h

theorem exists_promote_iff {value : Value} {kind : Kind} :
    (∃ a : kind.Carrier, promote value = .ok a) ↔ value.kind.promotesTo kind := by
  refine ⟨?_, promotes_of_promotesTo⟩
  rintro ⟨a, ha⟩
  refine Decidable.not_not.1 fun hnot ↦ ?_
  rw [promote_of_not_promotesTo hnot] at ha
  cases ha

/-- Promotion to its own kind leaves a value as it is. -/
theorem toValue_of_promote {value : Value} {a : value.kind.Carrier} (ha : promote value = .ok a) :
    toValue a = value := by
  cases value with
  | bool b => exact congrArg Value.bool (Except.ok.inj ha).symm
  | int i => exact congrArg Value.int (Except.ok.inj ha).symm
  | float x => exact congrArg Value.float (Except.ok.inj ha).symm
  | ref r => exact congrArg Value.ref (Except.ok.inj ha).symm

/-- **Promotion may be done in two steps**, by way of any kind in between. -/
theorem promote_promote {one two : Kind} (h : one.promotesTo two) {value : Value}
    {a : one.Carrier} (ha : promote value = .ok a) :
    (promote (toValue a) : Except ListError two.Carrier) = promote value := by
  have hkind : value.kind.promotesTo one := exists_promote_iff.1 ⟨a, ha⟩
  by_cases hfirst : value.kind = one
  · subst hfirst
    rw [toValue_of_promote ha]
  by_cases hsecond : one = two
  · subst hsecond
    rw [promote_toValue, ha]
  -- two proper steps: a truth value becomes a double by way of a whole number
  obtain ⟨hbool, rfl, rfl⟩ := Kind.eq_of_two_steps hkind h hfirst hsecond
  cases value with
  | bool b => cases b <;> cases ha <;> rfl
  | int i | float x | ref r => cases hbool

/-! ## Lists of values -/

section
variable {α : Type} [Element α]

/-- Values that all promote are promoted one after the other. -/
theorem promoteAll_of_promoted {values : List Value} {items : List α}
    (h : values.map promote = items.map .ok) : promoteAll values = .ok items := by
  induction values generalizing items with
  | nil =>
    rw [List.map_eq_nil_iff.1 h.symm]
    rfl
  | cons value values ih =>
    obtain ⟨a, rest, rfl, ha, hrest⟩ := List.map_eq_cons_iff.1 h.symm
    have hvalues : (values.mapM promote : Except ListError (List α)) = .ok rest := ih hrest.symm
    rw [promoteAll, List.mapM_cons, ← ha, hvalues]
    rfl

/-- Values promote to one list of elements, if at all. -/
theorem promoted_unique {values : List Value} {items items' : List α}
    (h : values.map promote = items.map .ok) (h' : values.map promote = items'.map .ok) :
    items = items' :=
  (List.map_inj_right fun _ _ ↦ Except.ok.inj).1 (h.symm.trans h')

/-- Each value promotes to one element. -/
theorem length_of_promoted {values : List Value} {items : List α}
    (h : values.map promote = items.map .ok) : items.length = values.length := by
  simpa using (congrArg List.length h).symm

/-- The first value that is refused decides. -/
theorem promoteAll_cons_of_error {value : Value} {e : ListError}
    (h : (promote value : Except ListError α) = .error e) (values : List Value) :
    (promoteAll (value :: values) : Except ListError (List α)) = .error e := by
  rw [promoteAll, List.mapM_cons, h]
  rfl

end

/-- Values whose kinds promote to a kind promote to it all together. -/
theorem promoted_of_promotesTo {values : List Value} {kind : Kind}
    (h : ∀ value ∈ values, value.kind.promotesTo kind) :
    ∃ items : List kind.Carrier, values.map promote = items.map .ok := by
  induction values with
  | nil => exact ⟨[], rfl⟩
  | cons value values ih =>
    rw [List.forall_mem_cons] at h
    obtain ⟨items, hitems⟩ := ih h.2
    obtain ⟨a, ha⟩ := promotes_of_promotesTo h.1
    exact ⟨a :: items, by rw [List.map_cons, List.map_cons, ha, hitems]⟩

/-- Promoted elements promote on to what the values themselves promote to. -/
theorem map_promote_map_toValue {one two : Kind} (h : one.promotesTo two) {values : List Value}
    {items : List one.Carrier} (hitems : values.map promote = items.map .ok) :
    ((items.map toValue).map promote : List (Except ListError two.Carrier)) =
      values.map promote := by
  induction values generalizing items with
  | nil =>
    rw [List.map_eq_nil_iff.1 hitems.symm]
    rfl
  | cons value values ih =>
    obtain ⟨a, rest, rfl, ha, hrest⟩ := List.map_eq_cons_iff.1 hitems.symm
    rw [List.map_cons, List.map_cons, List.map_cons, promote_promote h ha.symm, ih hrest.symm]

/-! ## Inference -/

/-- What is known of the kind of a list before it is made: a declared kind, and those of its
values. -/
def knownKinds (declared : Option Kind) (values : List Value) : List Kind :=
  declared.toList ++ values.map Value.kind

section
variable {declared : Option Kind} {values : List Value} {kind : Kind}

theorem unifyKinds_none_cons (value : Value) (values : List Value) :
    unifyKinds none (value :: values) = unifyKinds (some value.kind) values := rfl

theorem unifyKinds_some_cons (kind : Kind) (value : Value) (values : List Value) :
    unifyKinds (some kind) (value :: values) =
      match kind.unify? value.kind with
      | some wider => unifyKinds (some wider) values
      | none => .error (.noCommonKind kind value.kind) := by
  simp only [unifyKinds, List.foldlM_cons]
  cases kind.unify? value.kind <;> rfl

/-- The kind that is inferred promotes to what all known kinds promote to, and to nothing else. -/
theorem promotesTo_iff_of_unifyKinds (h : unifyKinds declared values = .ok kind) (target : Kind) :
    kind.promotesTo target ↔ ∀ known ∈ knownKinds declared values, known.promotesTo target := by
  induction values generalizing declared with
  | nil =>
    cases declared with
    | none => cases h
    | some known =>
      cases h
      simp [knownKinds]
  | cons value values ih =>
    cases declared with
    | none => exact ih (unifyKinds_none_cons value values ▸ h)
    | some known =>
      rw [unifyKinds_some_cons] at h
      split at h
      · next wider hwider =>
        have hboth := Kind.promotesTo_iff_of_unify? hwider target
        simp only [ih h, knownKinds, Option.toList_some, List.singleton_append, List.map_cons,
          List.forall_mem_cons, hboth, and_assoc]
      · cases h

/-- Where all known kinds promote to one, a kind is inferred. -/
theorem exists_unifyKinds {target : Kind} (hne : knownKinds declared values ≠ [])
    (h : ∀ known ∈ knownKinds declared values, known.promotesTo target) :
    ∃ kind, unifyKinds declared values = .ok kind := by
  induction values generalizing declared with
  | nil =>
    cases declared with
    | none => exact absurd rfl hne
    | some known => exact ⟨known, rfl⟩
  | cons value values ih =>
    cases declared with
    | none => exact unifyKinds_none_cons value values ▸ ih (List.cons_ne_nil _ _) h
    | some known =>
      have hknown := h known List.mem_cons_self
      have hvalue := h value.kind (List.mem_cons_of_mem _ List.mem_cons_self)
      rw [unifyKinds_some_cons]
      split
      · next wider hwider =>
        refine ih (List.cons_ne_nil _ _) fun other hmem ↦ ?_
        rcases List.mem_cons.1 hmem with rfl | hmem
        · exact (Kind.promotesTo_iff_of_unify? hwider target).2 ⟨hknown, hvalue⟩
        · exact h other (List.mem_cons_of_mem _ (List.mem_cons_of_mem _ hmem))
      · next hnone => exact absurd ⟨hknown, hvalue⟩ (Kind.not_promotesTo_of_unify? hnone target)

theorem isNarrowest_of_unifyKinds (h : unifyKinds declared values = .ok kind) :
    Kind.IsNarrowest (knownKinds declared values) kind where
  promotesTo := (promotesTo_iff_of_unifyKinds h kind).1 (Kind.promotesTo_refl kind)
  narrowest other hall := (promotesTo_iff_of_unifyKinds h other).2 hall

/-- **Inference finds the narrowest kind** that all known kinds promote to. -/
theorem unifyKinds_eq_ok_iff :
    unifyKinds declared values = .ok kind ↔
      Kind.IsNarrowest (knownKinds declared values) kind := by
  refine ⟨isNarrowest_of_unifyKinds, fun hnarrowest ↦ ?_⟩
  obtain ⟨found, hfound⟩ := exists_unifyKinds hnarrowest.ne_nil hnarrowest.promotesTo
  rw [hfound, (isNarrowest_of_unifyKinds hfound).unique hnarrowest]

/-- It finds one if anything is known, and not both of a number and of a reference. -/
theorem exists_unifyKinds_iff :
    (∃ kind, unifyKinds declared values = .ok kind) ↔
      knownKinds declared values ≠ [] ∧ ¬ (.ref ∈ knownKinds declared values ∧
        ∃ known ∈ knownKinds declared values, known ≠ .ref) := by
  rw [← Kind.exists_promotesTo_iff]
  constructor
  · rintro ⟨kind, hkind⟩
    have hnarrowest := isNarrowest_of_unifyKinds hkind
    exact ⟨hnarrowest.ne_nil, kind, hnarrowest.promotesTo⟩
  · rintro ⟨hne, target, hall⟩
    exact exists_unifyKinds hne hall

/-- What is found depends only on which kinds are known. -/
theorem toOption_unifyKinds_eq {declared' : Option Kind} {values' : List Value}
    (h : ∀ known, known ∈ knownKinds declared values ↔ known ∈ knownKinds declared' values') :
    (unifyKinds declared values).toOption = (unifyKinds declared' values').toOption := by
  have hsome (declared : Option Kind) (values : List Value) (kind : Kind) :
      (unifyKinds declared values).toOption = some kind ↔
        Kind.IsNarrowest (knownKinds declared values) kind := by
    rw [← unifyKinds_eq_ok_iff]
    cases unifyKinds declared values <;> simp [Except.toOption]
  refine Option.ext fun kind ↦ ?_
  rw [hsome, hsome]
  constructor
  · rintro ⟨hall, hleast⟩
    exact ⟨fun known hmem ↦ hall known ((h known).2 hmem),
      fun other hother ↦ hleast other fun known hmem ↦ hother known ((h known).1 hmem)⟩
  · rintro ⟨hall, hleast⟩
    exact ⟨fun known hmem ↦ hall known ((h known).1 hmem),
      fun other hother ↦ hleast other fun known hmem ↦ hother known ((h known).2 hmem)⟩

/-- Inference fails because nothing is known, or because two kinds have none in common. -/
theorem of_unifyKinds_error {e : ListError} (h : unifyKinds declared values = .error e) :
    e = .cannotInferKind ∨ ∃ left right, e = .noCommonKind left right := by
  induction values generalizing declared with
  | nil =>
    cases declared with
    | none =>
      cases h
      exact Or.inl rfl
    | some known => cases h
  | cons value values ih =>
    cases declared with
    | none => exact ih (unifyKinds_none_cons value values ▸ h)
    | some known =>
      rw [unifyKinds_some_cons] at h
      split at h
      · exact ih h
      · cases h
        exact Or.inr ⟨known, value.kind, rfl⟩

/-- All values promote to the kind that is inferred for them. -/
theorem promoted_of_unifyKinds (h : unifyKinds declared values = .ok kind) :
    ∃ items : List kind.Carrier, values.map promote = items.map .ok := by
  refine promoted_of_promotesTo fun value hmem ↦ ?_
  exact (isNarrowest_of_unifyKinds h).promotesTo value.kind
    (List.mem_append_right _ (List.mem_map_of_mem hmem))

end
end ListRuntime
