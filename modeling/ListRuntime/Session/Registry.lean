import ListRuntime.Action

/-!
# Named lists

A `Registry` keeps lists under names.  Putting a list under a name that is taken, or giving a name
up, lets the list go that was there; a list that is let go releases its elements, in order.

* `find?`, `insert` and `erase` look at the registry alone, `elementsUnder` looks into its lists.
* `store` and `discard` are the actions that let lists go.
* `visit` works on one list of a registry.
-/

set_option autoImplicit false

namespace ListRuntime

/-- Lists under names. -/
structure Registry (S : Type) where
  /-- The names in use and their lists, by ascending name. -/
  entries : List (String × S)

namespace Registry

variable {γ S β : Type}

/-- A registry without names. -/
def empty : Registry S := ⟨[]⟩

/-- The list under a name. -/
def find? (registry : Registry S) (name : String) : Option S := registry.entries.lookup name

/-- The registry with `list` under a name. -/
def insert (registry : Registry S) (name : String) (list : S) : Registry S :=
  let before := registry.entries.filter fun entry ↦ entry.1 < name
  let after := registry.entries.filter fun entry ↦ name < entry.1
  ⟨before ++ (name, list) :: after⟩

/-- The registry without a name. -/
def erase (registry : Registry S) (name : String) : Registry S :=
  ⟨registry.entries.filter fun entry ↦ entry.1 ≠ name⟩

/-- The elements that go when a name is given up: those of the list under it, if there is one. -/
def elementsUnder (registry : Registry S) (contents : S → List γ) (name : String) : List γ :=
  ((registry.find? name).map contents).getD []

/-! ## Actions -/

/-- Put a list under a name.  The list that was there is let go after that. -/
def store (contents : S → List γ) (name : String) (list : S) : Action γ (Registry S) Unit := do
  let registry ← get
  set (registry.insert name list)
  Action.releaseAll (registry.elementsUnder contents name)

/-- Give a name up and let the list under it go, if there is one. -/
def discard (contents : S → List γ) (name : String) : Action γ (Registry S) Unit := do
  let registry ← get
  set (registry.erase name)
  Action.releaseAll (registry.elementsUnder contents name)

/-- Work on `list`, which is the list under `name`. -/
def visit (name : String) (list : S) (action : Action γ S β) : Action γ (Registry S) β :=
  Action.within id (fun _ ↦ list) (fun registry changed ↦ registry.insert name changed) action

end Registry
end ListRuntime
