import MediaQuery.Template.Basic

/-!
# Evaluation

`Template.evaluate` is the program that computes a template on a branch. The fields of an object and the elements
of a list run side by side, each on a fork of its own, while the directives of an object run one after another
before its fields. The first failure ends the evaluation.
-/

namespace MediaQuery

/-- The value of a leaf: a selection is shown as text unless the action asked for it raw, and nothing is null. -/
def leafValue (completed : Completed) : Value :=
  match completed.value with
  | some (.selection s) => if completed.raw then .selection s else .string s.text
  | some v => v
  | none => .null

/-- Evaluates an action in the place of a value. -/
def evalLeaf (action : Action) (branch : Route) (path : Path) : Prog (Except ExecutionError Value) := do
  return (← executeAction action branch path).map leafValue

/-- The kind of what a directive answered. -/
def foundKind : Option Value → String
  | some v => v.kind
  | none => "undefined"

/-- Runs `setup`: the branch it leaves, and whether it has answered a value. -/
def runSetup (setup : Option Action) (branch : Route) (path : Path) : Prog (Except ExecutionError (Route × Bool)) :=
  match setup with
  | none => return .ok (branch, false)
  | some action => do
    return (← executeAction action branch (path.directive "setup")).map fun c => (c.branch, c.value.isSome)

/-- Runs `include` and writes the map it answers to a fork, where the fields will see it. If `setup` has answered,
the current value stays its own. The result is the fork and the entries that go into the object. -/
def runInclude (action? : Option Action) (setupWrote : Bool) (branch : Route) (path : Path) :
    Prog (Except ExecutionError (Route × List (String × Value))) :=
  match action? with
  | none => return .ok (branch, [])
  | some action => ExceptT.run do
    let place := path.directive "include"
    let completed ← ExceptT.mk (executeAction action branch place)
    match completed.value with
    | some (.map entries) =>
      let merged ← ExceptT.lift (Prog.fork branch (.place path))
      ExceptT.lift (Prog.setAll merged (entries.filter fun e => !(e.1 == currentKey && setupWrote)))
      return (merged, entries.filter fun e => e.1 ≠ currentKey)
    | other =>
      let log ← ExceptT.lift (Prog.log completed.branch)
      throw ((EvalError.invalidInclude (foundKind other)).wrap place log completed.branch)

/-- The entries of an object: those included, with every field in its place or at the end, and without the fields
that are excluded. -/
def assemble (included : List (String × Value)) (fields : List (String × Value)) : List (String × Value) :=
  fields.foldl (fun out e => if e.2.isExclude then Fields.erase e.1 out else Fields.insert e.1 e.2 out) included

/-- Evaluates an object, where the programs of its fields are given for every branch. -/
def evalObject (directives : Directives) (keys : List String)
    (fields : Route → List (Prog (Except ExecutionError Value))) (branch : Route) (path : Path) :
    Prog (Except ExecutionError Value) := ExceptT.run do
  let (branch, setupWrote) ← ExceptT.mk (runSetup directives.setup branch path)
  let (branch, included) ← ExceptT.mk (runInclude directives.include? setupWrote branch path)
  let values ← ExceptT.mk (Prog.parallel (fields branch))
  return .map (assemble included (keys.zip values))

/-- What `arrayMap` may answer: a list, or a selection, whose nodes are then taken one by one. -/
def sourceItems? : Option Value → Option (List Value)
  | some (.list items) => some items
  | some (.selection s) => some (s.nodes.map .selection)
  | _ => none

/-- Evaluates an object once for every item of the collection that `arrayMap` answers, where the evaluation of the
object is given. Every item has a fork of its own and is the current value there. -/
def evalArrayMap (action : Action) (element : Route → Path → Prog (Except ExecutionError Value)) (branch : Route)
    (path : Path) : Prog (Except ExecutionError (List Value)) := ExceptT.run do
  let place := path.directive "array_map"
  let completed ← ExceptT.mk (executeAction action branch place)
  match sourceItems? completed.value with
  | some items =>
    ExceptT.mk <| Prog.parallel <| items.mapIdx fun i item => ExceptT.run do
      let own ← ExceptT.lift (Prog.fork completed.branch (.place (path.child (.index i))))
      ExceptT.lift (Prog.set own currentKey item)
      ExceptT.mk (element own (path.child (.index i)))
  | none =>
    let log ← ExceptT.lift (Prog.log completed.branch)
    throw ((EvalError.invalidArrayMapSource (foundKind completed.value)).wrap place log completed.branch)

/-- Runs a nested object or list on a fork. Values need none, and actions make their own. -/
def onFork (t : Template) (branch : Route) (path : Path)
    (eval : Route → Path → Prog (Except ExecutionError Value)) : Prog (Except ExecutionError Value) :=
  match t with
  | .object _ _ | .list _ => do eval (← Prog.fork branch (.place path)) path
  | .scalar _ | .action _ => eval branch path

/-- The values of a list: those of its elements in order, without the excluded ones. -/
def flattenItems (items : List (List Value)) : List Value := items.flatten.filter (!·.isExclude)

mutual

/-- Evaluates a template on the branch itself. -/
def evalTemplate : Template → Route → Path → Prog (Except ExecutionError Value)
  | .scalar v, _, _ => return .ok v
  | .action action, branch, path => evalLeaf action branch path
  | .object directives fields, branch, path =>
    evalObject directives (fields.map fun e => outputKey e.1) (fun b => evalFields fields b path) branch path
  | .list items, branch, path => do
    return (← Prog.parallel (evalItems items branch path 0)).map fun values => .list (flattenItems values)

/-- The programs of the fields of an object. -/
def evalFields : List (String × Template) → Route → Path → List (Prog (Except ExecutionError Value))
  | [], _, _ => []
  | (key, t) :: rest, branch, path =>
    onFork t branch (path.child (.key (outputKey key))) (evalTemplate t) :: evalFields rest branch path

/-- The programs of the elements of a list, the first of which has the given position. An element gives one value,
and an element with `arrayMap` any number of them. -/
def evalItems : List Template → Route → Path → Nat → List (Prog (Except ExecutionError (List Value)))
  | [], _, _, _ => []
  | t :: rest, branch, path, i =>
    (match t with
      | .object ⟨setup, include?, some arrayMap⟩ fields =>
        evalArrayMap arrayMap
          (fun b p => evalObject ⟨setup, include?, none⟩ (fields.map fun e => outputKey e.1)
            (fun b => evalFields fields b p) b p)
          branch (path.child (.index i))
      | t => do
        return (← onFork t branch (path.child (.index i)) (evalTemplate t)).map ([·])) ::
      evalItems rest branch path (i + 1)

end

/-- Evaluates a template on a branch, unless a directive is out of place. -/
def Template.evaluate (t : Template) (branch : Route) : Prog (Except ExecutionError Value) := do
  let path ← Prog.path branch
  match t.misplaced? path with
  | some place => return .error (EvalError.arrayMapOutsideList.wrap place (← Prog.log branch) branch)
  | none => evalTemplate t branch path

end MediaQuery
