/-!
# Element kinds

All elements of a list share one kind.  The numeric kinds form a ladder, `bool` below `int` below
`float`, and a value may be promoted up the ladder when it is stored.  References stand apart.

* `Kind.unify?` is the narrowest kind that two kinds promote to.
* `Kind.promotesTo` says whether values of one kind may be stored in lists of another.
-/

set_option autoImplicit false

namespace ListRuntime

/-- The kind of a list's elements. -/
inductive Kind where
  | bool
  | int
  | float
  | ref
deriving DecidableEq, Repr

namespace Kind

/-- The name of a kind in messages. -/
def name : Kind → String
  | bool => "bool"
  | int => "int"
  | float => "float"
  | ref => "ref"

/-- The rung of a numeric kind on the promotion ladder. -/
def rank? : Kind → Option Nat
  | bool => some 0
  | int => some 1
  | float => some 2
  | ref => none

/-- The narrowest kind that both kinds promote to, if there is one: of two numeric kinds the higher,
and of a reference and a number none. -/
def unify? (left right : Kind) : Option Kind :=
  if left = right then some left
  else match left.rank?, right.rank? with
    | some a, some b => some (if b ≤ a then left else right)
    | _, _ => none

/-- Whether a value of this kind may be stored in a list of kind `target`. -/
def promotesTo (kind target : Kind) : Bool := kind.unify? target = some target

end Kind
end ListRuntime
