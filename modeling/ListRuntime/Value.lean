import ListRuntime.Binary64.Shortest
import ListRuntime.Kind

/-!
# Dynamic values

A `Value` is one element whose kind is known only at run time.  Values of different numeric kinds
compare by the numbers they denote, without rounding; references compare by identity.

* `Reference` is an opaque reference to an object of the host.
* `Value.equal` is the language's `==`.
-/

set_option autoImplicit false

namespace ListRuntime

/-- A reference to an object of the host: the object's address, and which of the host's hook tables
retains and gives up the object.  Equality is identity: same object, same table. -/
structure Reference where
  /-- Where the object is.  It is never looked at; `0` is the null address. -/
  address : UInt64
  /-- Which hook table manages it. -/
  table : Nat
deriving DecidableEq, Repr

/-- The text of a reference in a list. -/
def Reference.text (r : Reference) : String :=
  "RefHandle(0x" ++ String.ofList (Nat.toDigits 16 r.address.toNat) ++ ")"

/-- One element in dynamic form. -/
inductive Value where
  | bool (b : Bool)
  | int (i : Int64)
  | float (x : Binary64)
  | ref (r : Reference)
deriving DecidableEq, Repr

namespace Value

/-- The kind of a value. -/
def kind : Value → Kind
  | bool _ => .bool
  | int _ => .int
  | float _ => .float
  | ref _ => .ref

/-- A truth value as a number. -/
def ofTruth (b : Bool) : Int := if b then 1 else 0

/-- The language's `==`.  Truth values count as `0` and `1`, a whole number and a double are equal
when the double denotes exactly that number, and a reference equals no number. -/
def equal : Value → Value → Bool
  | ref r, ref s => r = s
  | float x, float y => x.equal y
  | float x, int i | int i, float x => x.equalInt i.toInt
  | float x, bool b | bool b, float x => x.equalInt (ofTruth b)
  | int i, int j => i = j
  | int i, bool b | bool b, int i => i.toInt = ofTruth b
  | bool b, bool c => b = c
  | ref _, _ | _, ref _ => false

end Value
end ListRuntime
