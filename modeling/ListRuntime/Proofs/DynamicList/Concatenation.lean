import ListRuntime.Proofs.DynamicList.Promotion

/-!
# Concatenation

Two lists are concatenated to one of their common kind, which holds what the elements of both
promote to.  Lists of one kind are copied and others are promoted, but what comes of it is the same.
It does not matter how three lists are grouped: the common kind of all three is found either way,
and elements that are promoted twice are what they would have been at once.

* `Course.outcome` is what a course leaves, or why it fails.
* `UniformList.Filled` and `Joined` say what can come of filling a list and of joining lists.
* `joined_concat` is about two lists, `Joined.bind` about one that is joined with what was joined
  before, and `Joined.sameList` compares two ways to do it.
* `concat_joins` says all of that of runs.
-/

set_option autoImplicit false

namespace ListRuntime

open ListRuntime.Action Course

/-! ## Outcomes -/

namespace Course

variable {α γ σ τ : Type}

/-- The state at the end of a course, or its failure. -/
def outcome (course : Course α σ Unit) : Except ListError σ :=
  course.result.map fun _ ↦ course.state

theorem outcome_bind (course : Course α σ Unit) (next : Unit → σ → Course α σ Unit) :
    (course.bind next).outcome = course.outcome.bind fun s ↦ (next () s).outcome := by
  obtain ⟨stages, s, e | b⟩ := course <;> rfl

theorem outcome_within (f : α → γ) (write : σ → τ) (course : Course α σ Unit) :
    (course.within f write).outcome = course.outcome.map write := by
  obtain ⟨stages, s, e | b⟩ := course <;> rfl

/-- What is filled comes to light as the filling left it. -/
theorem result_construct_eq (contents : τ → List α) (s : σ) (fill : Course α τ Unit) :
    (fill.construct contents s).result = fill.outcome := by
  obtain ⟨stages, t, e | b⟩ := fill <;> rfl

/-- A run without a mishap shows the outcome. -/
theorem outcome_eq_of_run_none {course course' : Course α σ Unit}
    (h : course.run none = course'.run none) : course.outcome = course'.outcome := by
  obtain ⟨stages, s, e | b⟩ := course <;> obtain ⟨stages', s', e' | b'⟩ := course' <;>
    simp_all [run, outcome, ending, Except.map]

end Course

/-! ## Common kinds -/

namespace Kind

theorem unify?_self (kind : Kind) : kind.unify? kind = some kind := if_pos rfl

/-- References and numbers have no kind in common. -/
theorem unify?_eq_none_iff {left right : Kind} :
    left.unify? right = none ↔ ¬ (left = .ref ↔ right = .ref) := by
  cases left <;> cases right <;> decide

/-- It does not matter which two of three kinds are unified first, nor where that fails. -/
theorem unify?_assoc (one two three : Kind) :
    (one.unify? two).bind (·.unify? three) = (two.unify? three).bind (one.unify? ·) := by
  cases one <;> cases two <;> cases three <;> rfl

/-- A slot of a wider kind is no smaller. -/
theorem maxElements_le_of_promotesTo {kind wider : Kind} (h : kind.promotesTo wider) :
    (Element.layout wider.Carrier).maxElements ≤ (Element.layout kind.Carrier).maxElements := by
  revert h
  cases kind <;> cases wider <;> decide

end Kind

/-- Memory for elements of a wider kind is memory for as many of a narrower one. -/
theorem Allocator.Affords.narrow {mem : Allocator} {kind wider : Kind} {count : Nat}
    (h : mem.Affords wider.Carrier count) (hkind : kind.promotesTo wider) :
    mem.Affords kind.Carrier count :=
  ⟨h.grants, Nat.le_trans h.le_maxElements (Kind.maxElements_le_of_promotesTo hkind)⟩

/-! ## Filling a uniform list -/

namespace UniformList

variable {α σ : Type} [Element α] {mem : Allocator} {list : UniformList α} {growth : Growth}

/-- What comes of filling a list: it holds the elements, or there was no memory for all of them. -/
inductive Filled (mem : Allocator) (growth : Growth) (items : List α) :
    Except ListError (UniformList α) → Prop where
  | refused {e : ListError} (hrefusal : e.isRefusal = true) (hmem : ¬ mem.Affords α items.length) :
    Filled mem growth items (.error e)
  | filled {list : UniformList α} (hfits : list.Fits) (hgrowth : list.growth = growth)
    (hitems : list.toList = items) : Filled mem growth items (.ok list)

/-- Room that memory would have sufficed for is not refused. -/
theorem RoomOf.refused {room : Except ListError (UniformList α)} {e : ListError} {count : Nat}
    (h : RoomOf list room) (hroom : room = .error e)
    (hafford : mem.Affords α count → ∃ roomy, room = .ok roomy) :
    e.isRefusal = true ∧ ¬ mem.Affords α count := by
  subst hroom
  refine ⟨h, fun hmem ↦ ?_⟩
  obtain ⟨roomy, hroomy⟩ := hafford hmem
  cases hroomy

theorem filled_extend (h : list.Fits) (items : List α) :
    Filled mem list.growth (list.toList ++ items) (extendCourse mem items list).outcome := by
  have hlength : (list.toList ++ items).length = list.length + items.length := by
    rw [List.length_append, length_toList]
  rw [extendCourse, storeCourse]
  cases hroom : list.roomForMore mem items.length with
  | error e =>
    obtain ⟨hrefusal, hmem⟩ := (roomOf_roomForMore mem list items.length).refused hroom
      h.roomForMore_of_affords
    exact .refused hrefusal (hlength ▸ hmem)
  | ok roomy =>
    have hroomier := roomier_of_roomForMore hroom
    have hitems : roomy.toList ++ items = list.toList ++ items := by rw [hroomier.toList_eq]
    refine .filled (h.holding_roomier hroomier ?_) hroomier.growth_eq hitems
    rw [hitems, hlength]

/-- So it is with more elements behind the first ones. -/
theorem Filled.extend {items : List α} {result : Except ListError (UniformList α)}
    (h : Filled mem growth items result) (more : List α) :
    Filled mem growth (items ++ more)
      (result.bind fun list ↦ (extendCourse mem more list).outcome) := by
  cases h with
  | refused hrefusal hmem =>
    exact .refused hrefusal fun hall ↦ hmem (hall.mono (by rw [List.length_append]; omega))
  | filled hfits hgrowth hitems =>
    subst hgrowth hitems
    exact filled_extend hfits more

theorem filled_concat (list : UniformList α) (items : List α) (s : σ) :
    Filled mem list.growth (list.toList ++ items) (list.concatCourse mem items s).result := by
  have hlength : (list.toList ++ items).length = list.length + items.length := by
    rw [List.length_append, length_toList]
  by_cases hlimit : list.length + items.length < wordLimit
  · obtain ⟨stages, -, hcourse⟩ := makesAtOnce_concat (s := s) list hlimit
    have hmakes := hcourse mem
    dsimp only at hmakes
    rw [hmakes]
    cases hroom : (newRoom mem list.growth (list.length + items.length) :
        Except ListError (UniformList α)) with
    | error e =>
      obtain ⟨hrefusal, hmem⟩ := (roomOf_newRoom mem list.growth _).refused hroom
        (newRoom_of_affords list.growth)
      exact .refused hrefusal (hlength ▸ hmem)
    | ok start =>
      obtain ⟨hfits, -, hgrowth, hcapacity⟩ := fits_of_newRoom hroom
      exact .filled (hfits.holding_of_le (by rw [hlength, hcapacity])) hgrowth rfl
  · have hfail : list.concatCourse mem items s = .fail s .countOverflow :=
      if_pos (Nat.not_lt.1 hlimit)
    rw [hfail]
    exact .refused rfl fun hmem ↦ hlimit (hlength ▸ hmem.lt_wordLimit)

end UniformList

/-! ## Joining dynamic lists -/

namespace DynamicList

variable {σ : Type} {mem : Allocator} {s : σ} {kind? : Option Kind} {growth : Growth}
variable {values : List Value}

/-- What comes of joining values in a list of their common kind: the list holds what they promote to,
or there was no common kind, or no memory for all of them. -/
inductive Joined (mem : Allocator) (kind? : Option Kind) (growth : Growth) (values : List Value) :
    Except ListError DynamicList → Prop where
  | refused {e : ListError} (hrefusal : e.isRefusal = true)
    (hmem : ∀ kind, kind? = some kind → ¬ mem.Affords kind.Carrier values.length) :
    Joined mem kind? growth values (.error e)
  | apart (left right : Kind) (h : kind? = none) :
    Joined mem kind? growth values (.error (.noCommonKind left right))
  | joined {kind : Kind} {list : UniformList kind.Carrier} (hkind : kind? = some kind)
    (hfits : list.Fits) (hgrowth : list.growth = growth)
    (hitems : values.map promote = list.toList.map .ok) :
    Joined mem kind? growth values (.ok ⟨kind, list⟩)

theorem Joined.of_filled {kind : Kind} {items : List kind.Carrier}
    {result : Except ListError (UniformList kind.Carrier)}
    (h : UniformList.Filled mem growth items result) (hitems : values.map promote = items.map .ok) :
    Joined mem (some kind) growth values (result.map (⟨kind, ·⟩)) := by
  cases h with
  | refused hrefusal hmem =>
    refine .refused hrefusal fun kind' hkind' ↦ ?_
    obtain rfl := Option.some.inj hkind'
    rwa [← length_of_promoted hitems]
  | filled hfits hgrowth hlist =>
    subst hlist
    exact .joined rfl hfits hgrowth hitems

/-- A list is appended as what its elements promote to. -/
theorem outcome_extendFrom (dynamic : DynamicList) {other : DynamicList}
    {items : List dynamic.kind.Carrier} (h : other.values.map promote = items.map .ok)
    (mem : Allocator) :
    (extendFromCourse mem other dynamic).outcome =
      (UniformList.extendCourse mem items dynamic.list).outcome.map (⟨dynamic.kind, ·⟩) := by
  have hrun : (extendFromCourse mem other dynamic).run none =
      ((UniformList.extendCourse mem items dynamic.list).within toValue
        (⟨dynamic.kind, ·⟩)).run none := by
    rw [← extendFrom_follows other dynamic none, run_extendFrom, run_extendValues_of_promoted h]
  rw [outcome_eq_of_run_none hrun, outcome_within]

/-- Two lists that are appended to an empty one of a wider kind are joined in it. -/
theorem joined_blend {kind : Kind} {one two : DynamicList} (hone : one.kind.promotesTo kind)
    (htwo : two.kind.promotesTo kind) (mem : Allocator) (s : σ) :
    Joined mem (some kind) one.growth (one.values ++ two.values)
      (blendCourse mem kind one two s).result := by
  obtain ⟨items, hitems⟩ := promoted_values hone
  obtain ⟨more, hmore⟩ := promoted_values htwo
  let start : UniformList kind.Carrier := .empty one.growth
  -- appending to a dynamic list is appending to the one inside
  have hblend : (blendCourse mem kind one two s).result =
      ((UniformList.extendCourse mem items start).outcome.bind fun list ↦
        (UniformList.extendCourse mem more list).outcome).map (⟨kind, ·⟩) := by
    rw [blendCourse, result_construct_eq, outcome_bind,
      outcome_extendFrom (DynamicList.empty kind one.growth) hitems]
    change ((UniformList.extendCourse mem items start).outcome.map
      fun list ↦ (⟨kind, list⟩ : DynamicList)).bind _ = _
    cases (UniformList.extendCourse mem items start).outcome with
    | error e => rfl
    | ok list => exact outcome_extendFrom ⟨kind, list⟩ hmore mem
  have hfilled : UniformList.Filled mem one.growth (items ++ more)
      ((UniformList.extendCourse mem items start).outcome.bind fun list ↦
        (UniformList.extendCourse mem more list).outcome) :=
    (UniformList.filled_extend (UniformList.fits_empty one.growth) items).extend more
  rw [hblend]
  exact .of_filled hfilled (by rw [List.map_append, List.map_append, hitems, hmore])

/-- **Concatenation joins two lists** in one of their common kind. -/
theorem joined_concat (one two : DynamicList) (mem : Allocator) (s : σ) :
    Joined mem (one.kind.unify? two.kind) one.growth (one.values ++ two.values)
      (concatCourse mem one two s).result := by
  rw [concatCourse]
  by_cases hkind : two.kind = one.kind
  · obtain ⟨items, hsome, hitems⟩ := itemsAs?_of_eq hkind
    rw [hsome, hkind, Kind.unify?_self]
    refine .of_filled (UniformList.filled_concat one.list items s) ?_
    rw [List.map_append, List.map_append, map_promote_values, hitems]
  · have hnone : two.itemsAs? one.kind = none := dif_neg hkind
    rw [hnone]
    dsimp only
    cases hunify : one.kind.unify? two.kind with
    | none => exact .apart _ _ rfl
    | some kind =>
      obtain ⟨hone, htwo⟩ := Kind.promotesTo_of_unify? hunify
      exact joined_blend hone htwo mem s

/-- **Joining in two steps.**  What was joined once, and is joined with other values in a list of a
wider kind, might have been joined with them in the first place. -/
theorem Joined.bind {course : Course Value σ DynamicList}
    {next : DynamicList → σ → Course Value σ DynamicList} {widen : Kind → Option Kind}
    {growth' : Growth} (before after : List Value)
    (h : Joined mem kind? growth values course.result)
    (hwiden : ∀ kind wider, widen kind = some wider → kind.promotesTo wider)
    (hnext : ∀ made s, made.growth = growth → Joined mem (widen made.kind) growth'
      (before ++ made.values ++ after) (next made s).result) :
    Joined mem (kind?.bind widen) growth' (before ++ values ++ after)
      (course.bind next).result := by
  obtain ⟨stages, s, result⟩ := course
  change Joined mem kind? growth values result at h
  cases h with
  | @refused e hrefusal hmem =>
    refine .refused hrefusal fun wider hwider hall ↦ ?_
    obtain ⟨kind, hkind, hwider⟩ := Option.bind_eq_some_iff.1 hwider
    have hvalues : values.length ≤ (before ++ values ++ after).length := by
      rw [List.length_append, List.length_append]
      omega
    exact hmem kind hkind ((hall.mono hvalues).narrow (hwiden kind wider hwider))
  | apart left right h => exact .apart left right (by rw [h]; rfl)
  | @joined kind list hkind hfits hgrowth hitems =>
    subst hkind
    let made : DynamicList := ⟨kind, list⟩
    have hlength : made.values.length = values.length :=
      (length_of_promoted (map_promote_values made)).symm.trans (length_of_promoted hitems)
    have hmade := hnext made s hgrowth
    change Joined mem (widen kind) growth' _ (next made s).result
    generalize (next made s).result = result at hmade
    cases hmade with
    | refused hrefusal hmem =>
      refine .refused hrefusal ?_
      simpa only [List.length_append, hlength] using hmem
    | apart left right h => exact .apart left right h
    | @joined wider list' hwider hfits' hgrowth' hitems' =>
      refine .joined hwider hfits' hgrowth' ?_
      -- what the first step promoted promotes on to what the values themselves promote to
      have hon : (made.values.map promote : List (Except ListError wider.Carrier)) =
          values.map promote := map_promote_map_toValue (hwiden kind wider hwider) hitems
      rw [← hitems']
      simp only [List.map_append, hon]

/-- Two ends of a run with the same list, or with a failure each. -/
inductive SameList : Ending Value DynamicList → Ending Value DynamicList → Prop where
  | returned {kind : Kind} {list list' : UniformList kind.Carrier}
    (hitems : list.toList = list'.toList) (hgrowth : list.growth = list'.growth) :
    SameList (.returned ⟨kind, list⟩) (.returned ⟨kind, list'⟩)
  | failed (e e' : ListError) : SameList (.failed e) (.failed e')

/-- Where values were joined, it fails in no other way, unless for want of memory. -/
theorem Joined.no_error {made : DynamicList} {e : ListError}
    (h : Joined mem kind? growth values (.ok made)) (h' : Joined mem kind? growth values (.error e))
    (hroom : e.isRefusal = false ∨ ∀ bytes, mem.grants bytes = true) : False := by
  cases h with
  | @joined kind list hkind hfits hgrowth hitems =>
    cases h' with
    | apart left right hnone => cases hkind.symm.trans hnone
    | refused hrefusal hmem =>
      rcases hroom with hroom | hgrants
      · cases hroom.symm.trans hrefusal
      · have hle := Nat.le_trans hfits.length_le hfits.capacity_le
        exact hmem kind hkind ⟨hgrants, length_of_promoted hitems ▸ hle⟩

/-- **Two ways to join the same values lead to the same list**, unless memory makes the difference;
an allocator that refuses nothing makes none. -/
theorem Joined.sameList {course course' : Course Value σ DynamicList}
    (h : Joined mem kind? growth values course.result)
    (h' : Joined mem kind? growth values course'.result)
    (hroom : course.ending.isRefusal = false ∧ course'.ending.isRefusal = false ∨
      ∀ bytes, mem.grants bytes = true) : SameList course.ending course'.ending := by
  obtain ⟨stages, s, e | made⟩ := course <;> obtain ⟨stages', s', e' | made'⟩ := course'
  · exact .failed e e'
  · exact (h'.no_error h (hroom.imp_left And.left)).elim
  · exact (h.no_error h' (hroom.imp_left And.right)).elim
  · obtain ⟨kind, list⟩ := made
    obtain ⟨kind', list'⟩ := made'
    change Joined mem kind? growth values (.ok ⟨kind, list⟩) at h
    change Joined mem kind? growth values (.ok ⟨kind', list'⟩) at h'
    cases h with
    | joined hkind hfits hgrowth hitems =>
      cases h' with
      | joined hkind' hfits' hgrowth' hitems' =>
        obtain rfl := Option.some.inj (hkind.symm.trans hkind')
        exact .returned (promoted_unique hitems hitems') (hgrowth.trans hgrowth'.symm)

/-! ## Groupings -/

/-- Three lists, joined from the left. -/
theorem joined_left (one two three : DynamicList) (mem : Allocator) (s : σ) :
    Joined mem ((one.kind.unify? two.kind).bind (·.unify? three.kind)) one.growth
      (one.values ++ two.values ++ three.values)
      ((concatCourse mem one two s).bind fun made ↦ concatCourse mem made three).result :=
  (joined_concat one two mem s).bind [] three.values (fun _ _ h ↦ (Kind.promotesTo_of_unify? h).1)
    fun made s hgrowth ↦ hgrowth ▸ joined_concat made three mem s

/-- Three lists, joined from the right. -/
theorem joined_right (one two three : DynamicList) (mem : Allocator) (s : σ) :
    Joined mem ((one.kind.unify? two.kind).bind (·.unify? three.kind)) one.growth
      (one.values ++ two.values ++ three.values)
      ((concatCourse mem two three s).bind fun made ↦ concatCourse mem one made).result := by
  have hjoined : Joined mem ((two.kind.unify? three.kind).bind (one.kind.unify? ·)) one.growth
      (one.values ++ (two.values ++ three.values) ++ [])
      ((concatCourse mem two three s).bind fun made ↦ concatCourse mem one made).result :=
    (joined_concat two three mem s).bind one.values []
      (fun _ _ h ↦ (Kind.promotesTo_of_unify? h).2) fun made s _ ↦ by
        rw [List.append_nil]
        exact joined_concat one made mem s
  rwa [List.append_nil, ← List.append_assoc, ← Kind.unify?_assoc] at hjoined

/-! ## Runs -/

section
variable {course : Course Value σ DynamicList} {left right : Kind}

/-- How joining ends, if room is not refused: with a list of the common kind, or with a failure if
there is none. -/
theorem Joined.of_not_refused (h : Joined mem (left.unify? right) growth values course.result)
    (hroom : course.ending.isRefusal = false) :
    ((∃ e, course.ending = .failed e ∧ e.category = .type) ↔ ¬ (left = .ref ↔ right = .ref)) ∧
    ((left = .ref ↔ right = .ref) → ∃ made, course.ending = .returned made ∧
      left.unify? right = some made.kind ∧ made.growth = growth ∧
      values.map promote = made.list.toList.map .ok) := by
  obtain ⟨stages, s, result⟩ := course
  change Joined mem (left.unify? right) growth values result at h
  have hnone := @Kind.unify?_eq_none_iff left right
  cases h with
  | refused hrefusal hmem => exact absurd (hroom.symm.trans hrefusal) (by decide)
  | apart one two hapart =>
    have hkinds := hnone.1 hapart
    exact ⟨iff_of_true ⟨_, rfl, rfl⟩ hkinds, fun h ↦ absurd h hkinds⟩
  | joined hkind hfits hgrowth hitems =>
    refine ⟨iff_of_false ?_ fun hkinds ↦ ?_, fun _ ↦ ⟨_, rfl, hkind, hgrowth, hitems⟩⟩
    · rintro ⟨e, ⟨⟩, -⟩
    · cases hkind.symm.trans (hnone.2 hkinds)

/-- With memory for all values, room is not refused. -/
theorem Joined.isRefusal_eq_false (h : Joined mem kind? growth values course.result) {kind : Kind}
    (hkind : kind? = some kind) (hmem : mem.Affords kind.Carrier values.length) :
    course.ending.isRefusal = false := by
  obtain ⟨stages, s, result⟩ := course
  change Joined mem kind? growth values result at h
  cases h with
  | refused hrefusal hlacking => exact absurd hmem (hlacking kind hkind)
  | apart one two hapart => rfl
  | joined => rfl

end

/-- **Concatenation.**  Unless room is refused, two lists fail to be concatenated exactly if one of
them holds references and the other numbers, and fail for that reason.  Otherwise the new list is of
their common kind, has the policy of the first one, and holds what the elements of the first promote
to and then those of the second.  Room is not refused if there is memory for all elements.

Three lists may be grouped either way: both ways lead to the same elements of the same kind, or both
fail, as long as room is refused in neither of them.  An allocator that refuses nothing makes no
difference at all: then a list that would be too large is so either way. -/
theorem concat_joins :
    (∀ (one two : DynamicList) (mem : Allocator) (s : σ),
      let run := (one.concat two : Action Value σ DynamicList).run mem none s
      (run.ending.isRefusal = false →
        ((∃ e, run.ending = .failed e ∧ e.category = .type) ↔
          ¬ (one.kind = .ref ↔ two.kind = .ref)) ∧
        ((one.kind = .ref ↔ two.kind = .ref) → ∃ made, run.ending = .returned made ∧
          one.kind.unify? two.kind = some made.kind ∧ made.growth = one.growth ∧
          (one.values ++ two.values).map promote = made.list.toList.map .ok)) ∧
      ∀ kind, one.kind.unify? two.kind = some kind →
        mem.Affords kind.Carrier (one.length + two.length) → run.ending.isRefusal = false) ∧
    ∀ (one two three : DynamicList) (mem : Allocator) (s : σ),
      let left := (do (← one.concat two).concat three : Action Value σ DynamicList).run mem none s
      let right := (do one.concat (← two.concat three) : Action Value σ DynamicList).run mem none s
      left.ending.isRefusal = false ∧ right.ending.isRefusal = false ∨
        (∀ bytes, mem.grants bytes = true) → SameList left.ending right.ending := by
  refine ⟨fun one two mem s ↦ ?_, fun one two three mem s ↦ ?_⟩
  · intro run
    have hrun : run.ending = (concatCourse mem one two s).ending :=
      congrArg Run.ending (concat_follows one two s none)
    have hjoined := joined_concat one two mem s
    rw [hrun]
    refine ⟨hjoined.of_not_refused, fun kind hkind hmem ↦ hjoined.isRefusal_eq_false hkind ?_⟩
    rwa [List.length_append, length_values, length_values]
  · intro left right
    have hleft : left.ending =
        ((concatCourse mem one two s).bind fun made ↦ concatCourse mem made three).ending :=
      congrArg Run.ending ((concat_follows one two s).bind (fun made _ ↦
        concat_follows made three _) none)
    have hright : right.ending =
        ((concatCourse mem two three s).bind fun made ↦ concatCourse mem one made).ending :=
      congrArg Run.ending ((concat_follows two three s).bind (fun made _ ↦
        concat_follows one made _) none)
    rw [hleft, hright]
    exact (joined_left one two three mem s).sameList (joined_right one two three mem s)

/-- Truth values and numbers make a list of numbers, numbers and references make none, and a truth
value, a number and a reference fail to be joined whichever two of them are tried first. -/
theorem concat_joins_ladder :
    let truths : DynamicList := ⟨.bool, ⟨⟨#[true], 1⟩, .standard⟩⟩
    let numbers : DynamicList := ⟨.int, ⟨⟨#[(2 : Int64)], 1⟩, .standard⟩⟩
    let references : DynamicList := ⟨.ref, ⟨⟨#[(⟨1, 0⟩ : Reference)], 1⟩, .standard⟩⟩
    (∃ made, ((truths.concat numbers : Action Value Unit DynamicList).run
        .boundless none ()).ending = .returned made ∧ some .int = some made.kind ∧
      [.bool true, .int 2].map promote = made.list.toList.map .ok) ∧
    (∃ e, ((numbers.concat references : Action Value Unit DynamicList).run
        .boundless none ()).ending = .failed e ∧ e.category = .type) ∧
    SameList
      ((do (← truths.concat numbers).concat references : Action Value Unit DynamicList).run
        .boundless none ()).ending
      ((do truths.concat (← numbers.concat references) : Action Value Unit DynamicList).run
        .boundless none ()).ending := by
  intro truths numbers references
  obtain ⟨hpair, hgroup⟩ := concat_joins (σ := Unit)
  obtain ⟨hjoined, hroom⟩ := hpair truths numbers .boundless ()
  obtain ⟨hapart, -⟩ := hpair numbers references .boundless ()
  have hmem : Allocator.boundless.Affords Int64 2 := ⟨fun _ ↦ rfl, by decide⟩
  obtain ⟨made, hmade, hkind, -, hitems⟩ := (hjoined (hroom .int rfl hmem)).2 (by decide)
  exact ⟨⟨made, hmade, hkind, hitems⟩, (hapart rfl).1.2 (by decide),
    hgroup truths numbers references .boundless () (Or.inr fun _ ↦ rfl)⟩

end DynamicList
end ListRuntime
