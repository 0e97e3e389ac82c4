import ListRuntime.Error
import ListRuntime.Value

/-!
# Elements

A list holds elements of one type.  An `Element` type knows its kind and the size of its slots, how
to take a dynamic value in, promoting it where the kinds allow, and how to give an element out.

* `Element` is the interface; there are instances for `Bool`, `Int64`, `Binary64` and `Reference`.
* `Fragile` is an integer whose hooks the host watches and may let fail.
* `Kind.Carrier` is the element type of a kind.
* `unifyKinds` infers the kind of a list from its values.
-/

set_option autoImplicit false

namespace ListRuntime

/-- A type of list elements. -/
class Element (α : Type) where
  /-- The kind of lists of `α`. -/
  kind : Kind
  /-- Size and alignment of a slot. -/
  layout : Layout
  /-- Slots can be repeated. -/
  isSlot : layout.IsSlot
  /-- A value as an element, if its kind promotes to this one. -/
  promote : Value → Except ListError α
  /-- An element as a value. -/
  toValue : α → Value
  /-- Equality of elements in searches. -/
  equal : α → α → Bool
  /-- The text of an element in a list. -/
  text : α → String

export Element (promote toValue)

instance : Element Bool where
  kind := .bool
  layout := ⟨1, 1⟩
  isSlot := ⟨by decide, by decide, by decide⟩
  promote
    | .bool b => .ok b
    | v => .error (.notRepresentable v.kind .bool)
  toValue := .bool
  equal := (· = ·)
  text b := if b then "true" else "false"

/-- A value as a whole number: whole numbers and truth values are. -/
def Value.toInt64 : Value → Except ListError Int64
  | .int i => .ok i
  | .bool b => .ok (if b then 1 else 0)
  | v => .error (.notRepresentable v.kind .int)

instance : Element Int64 where
  kind := .int
  layout := ⟨8, 8⟩
  isSlot := ⟨by decide, by decide, by decide⟩
  promote := Value.toInt64
  toValue := .int
  equal := (· = ·)
  text i := toString i.toInt

instance : Element Binary64 where
  kind := .float
  layout := ⟨8, 8⟩
  isSlot := ⟨by decide, by decide, by decide⟩
  promote
    | .float x => .ok x
    | .int i => .ok (.ofInt i.toInt)
    | .bool b => .ok (.ofInt (Value.ofTruth b))
    | v => .error (.notRepresentable v.kind .float)
  toValue := .float
  equal := Binary64.equal
  text := Binary64.text

instance : Element Reference where
  kind := .ref
  layout := ⟨16, 8⟩
  isSlot := ⟨by decide, by decide, by decide⟩
  promote
    | .ref r => .ok r
    | v => .error (.notRepresentable v.kind .ref)
  toValue := .ref
  equal := (· = ·)
  text := Reference.text

/-- An integer element whose hooks are observed, and may fail. -/
structure Fragile where
  /-- Which element it is. -/
  id : Int64
deriving DecidableEq, Repr

instance : Element Fragile where
  kind := .int
  layout := ⟨8, 8⟩
  isSlot := ⟨by decide, by decide, by decide⟩
  promote v := return ⟨← v.toInt64⟩
  toValue a := .int a.id
  equal := (· = ·)
  text a := "Fragile(" ++ toString a.id.toInt ++ ")"

/-- Promote values in order, up to the first that does not promote. -/
def promoteAll {α : Type} [Element α] (values : List Value) : Except ListError (List α) :=
  values.mapM promote

/-! ## The element type of a kind -/

/-- The type of the elements of a kind. -/
def Kind.Carrier : Kind → Type
  | .bool => Bool
  | .int => Int64
  | .float => Binary64
  | .ref => Reference

instance : (kind : Kind) → Element kind.Carrier
  | .bool => inferInstanceAs (Element Bool)
  | .int => inferInstanceAs (Element Int64)
  | .float => inferInstanceAs (Element Binary64)
  | .ref => inferInstanceAs (Element Reference)

instance : (kind : Kind) → DecidableEq kind.Carrier
  | .bool => inferInstanceAs (DecidableEq Bool)
  | .int => inferInstanceAs (DecidableEq Int64)
  | .float => inferInstanceAs (DecidableEq Binary64)
  | .ref => inferInstanceAs (DecidableEq Reference)

/-! ## Inference -/

/-- The kind of a list of `values`, starting from a declared kind, if there is one.  The kind widens
value by value; it fails at the first value that has no common kind with those before it. -/
def unifyKinds (hint : Option Kind) (values : List Value) : Except ListError Kind := do
  let widen (current : Option Kind) (value : Value) : Except ListError (Option Kind) :=
    match current with
    | none => .ok (some value.kind)
    | some kind =>
      match kind.unify? value.kind with
      | some wider => .ok (some wider)
      | none => .error (.noCommonKind kind value.kind)
  match ← values.foldlM widen hint with
  | some kind => return kind
  | none => throw .cannotInferKind

end ListRuntime
