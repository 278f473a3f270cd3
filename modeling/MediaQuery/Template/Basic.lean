import MediaQuery.Action

/-!
# Templates

A template is the shape of a response: values stand for themselves, actions compute a value, and objects and lists
nest further templates. Three directives of an object are no fields of its own: `setup` runs first, `include`
answers a map to merge in, and `arrayMap` repeats an object that is an element of a list.
-/

namespace MediaQuery

/-- The directives of an object. -/
structure Directives : Type 1 where
  setup : Option Action
  include? : Option Action
  arrayMap : Option Action

/-- No directives. -/
def Directives.none : Directives := ⟨.none, .none, .none⟩

/-- The shape of a response. -/
inductive Template : Type 1 where
  | scalar (value : Value)
  | action (action : Action)
  | object (directives : Directives) (fields : List (String × Template))
  | list (items : List Template)

instance : Inhabited Template := ⟨.scalar .null⟩

/-- The key that a field is answered under: of two leading underscores one is left. -/
def outputKey (key : String) : String :=
  match key.toList with
  | '_' :: '_' :: rest => String.ofList ('_' :: rest)
  | _ => key

/-! ## Misplaced directives -/

mutual

/-- The path of the first object with `arrayMap` that is no element of a list, in the order of the document. -/
def Template.misplaced? (path : Path) : Template → Option Path
  | .scalar _ => none
  | .action _ => none
  | .object directives fields =>
    if directives.arrayMap.isSome then some path else misplacedField? path fields
  | .list items => misplacedItem? path 0 items

/-- The same among the fields of an object. -/
def misplacedField? (path : Path) : List (String × Template) → Option Path
  | [] => none
  | (key, t) :: rest => (t.misplaced? (path.child (.key (outputKey key)))).or (misplacedField? path rest)

/-- The same among the elements of a list, the first of which has the given position. An object is in its place
there, and its fields are looked at. -/
def misplacedItem? (path : Path) (i : Nat) : List Template → Option Path
  | [] => none
  | .object _ fields :: rest =>
    (misplacedField? (path.child (.index i)) fields).or (misplacedItem? path (i + 1) rest)
  | t :: rest => (t.misplaced? (path.child (.index i))).or (misplacedItem? path (i + 1) rest)

end

end MediaQuery
