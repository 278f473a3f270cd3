import MediaQuery.Program.Basic

/-!
# The state of a machine

A machine runs programs on a tree of branches under one clock. It holds the tree, the futures started so far in
the order of their start, the futures that can go on, in the order in which that became so, and the time.

A program that has been started is a `Run`: it is done or says what it waits for. Since a program names branches
by routes from its own branch, a run goes with the route of that branch, its base.
-/

namespace MediaQuery

/-- An entry that refers to a future: key, generation and future. -/
abbrev PendingSlot := String × Nat × FutureId

/-- How far a wait for all values of a branch has come: first the futures started there are awaited, in order,
with the first failure kept; then the references left in the store, most of them inherited. A wait names what it
is held up by and what comes after that. -/
inductive Wait where
  | futures (front : FutureId) (rest : List FutureId) (failure : Option EvalError)
  | slots (front : PendingSlot) (rest : List PendingSlot) (failure : Option EvalError)

/-- A started program: done, or waiting for something. -/
inductive Run : Type → Type 1
  | done {α : Type} (a : α) : Run α
  /-- Sleeps until the given time. -/
  | asleep {α : Type} (wake : Nat) (next : Prog α) : Run α
  /-- Waits for a future whose outcome goes into the given entry. -/
  | resolving {α : Type} (branch : Route) (key : String) (generation : Nat) (future : FutureId)
      (next : Except ContextError Value → Prog α) : Run α
  /-- Waits for all values of a branch. -/
  | waiting {α : Type} (branch : Route) (wait : Wait) (next : Except EvalError Unit → Prog α) : Run α
  /-- Waits for programs side by side. -/
  | joined {α β : Type} {n : Nat} (parts : Fin n → Run (Except ExecutionError β))
      (next : Except ExecutionError (List β) → Prog α) : Run α

namespace Run

instance [Inhabited α] : Inhabited (Run α) := ⟨.done default⟩

/-- What a run that is done has computed. -/
def result? : Run α → Option α
  | .done a => some a
  | _ => none

end Run

/-- A future runs, is being taken on right now, or has ended: with a result, and with a report to those who wait
for the branch, which is a failure also if the result came too late for its key. -/
inductive FutureState : Type 1
  | running (run : Run (Except EvalError Value))
  | busy
  | ended (result : Except EvalError Value) (report : Except EvalError Unit)

/-- A value being computed for a key of a branch. Errors are as seen from that branch. -/
structure Future : Type 1 where
  id : FutureId
  key : String
  /-- Whether someone has begun to wait for it with its branch. -/
  awaited : Bool
  state : FutureState

/-- The state of a machine. -/
structure Machine : Type 1 where
  tree : Branch
  futures : List Future
  ready : List FutureId
  clock : Nat

namespace Future

/-- What has become of the future. -/
def outcome (f : Future) : Outcome :=
  match f.state with
  | .running _ => .running
  | .busy => .running
  | .ended (.ok value) _ => .resolved value
  | .ended (.error _) _ => .failed

/-- The report of a future that has ended. -/
def report? (f : Future) : Option (Except EvalError Unit) :=
  match f.state with
  | .ended _ report => some report
  | _ => none

/-- Changes the state of the future of a name. -/
def setState (id : FutureId) (state : FutureState) : List Future → List Future
  | [] => []
  | f :: rest => if f.id = id then { f with state } :: rest else f :: setState id state rest

end Future

namespace Machine

/-- A machine at time zero with one branch. -/
def start (inputs : Inputs) : Machine := ⟨.root inputs, [], [], 0⟩

/-- The branch at the end of a route. -/
def branch? (m : Machine) (a : Route) : Option Branch := m.tree.at? a

/-- Changes one branch. -/
def modify (m : Machine) (a : Route) (f : Branch → Branch) : Machine := { m with tree := m.tree.modify f a }

/-- The values of a branch. -/
def store (m : Machine) (a : Route) : Store := ((m.branch? a).map Branch.store).getD .empty

/-- Changes the values of a branch. -/
def modifyStore (m : Machine) (a : Route) (f : Store → Store) : Machine :=
  m.modify a fun b => { b with store := f b.store }

/-- The session of the query that a branch belongs to. -/
def session (m : Machine) (a : Route) : Session :=
  ((m.branch? (m.tree.sessionRoute a)).bind Branch.session).getD ⟨.blank, []⟩

/-- Adds an entry to the log of the query that a branch belongs to. -/
def enter (m : Machine) (a : Route) (path : Path) : Machine :=
  m.modify (m.tree.sessionRoute a) fun b =>
    { b with session := b.session.map fun s => { s with log := s.log ++ [path] } }

/-- The future of a name. -/
def future? (m : Machine) (id : FutureId) : Option Future := m.futures.find? (·.id = id)

/-- What has become of a future. -/
def outcome (m : Machine) (id : FutureId) : Outcome := ((m.future? id).map Future.outcome).getD .failed

/-- The value of a key of a branch. -/
def get (m : Machine) (a : Route) (key : String) : Except ContextError Value := (m.store a).get m.outcome key

/-- The path of a branch. -/
def path (m : Machine) (a : Route) : Path := ((m.branch? a).map Branch.path).getD .root

/-- The results of a branch, oldest first. -/
def history (m : Machine) (a : Route) : List (Option Value) := ((m.branch? a).map Branch.results).getD []

/-- The branches forked from a branch, directly or not. -/
def descendants (m : Machine) (a : Route) : List Route :=
  ((m.branch? a).map Branch.descendants).getD [] |>.map (a ++ ·)

/-- A branch for diagnostics: its path and all its keys. -/
def describeBranch (m : Machine) (a : Route) : String :=
  "ExecutionContext \x7b path: " ++ Text.quote (m.path a).render ++ ", keys: " ++
    Text.bracketed ((m.store a).keys.map Text.quote) ++ " \x7d"

/-- Adds a child to a branch and answers its position. -/
def addChild (m : Machine) (a : Route) (child : Branch → Branch) : Nat × Machine :=
  (((m.branch? a).map fun b => b.children.length).getD 0, m.modify a fun b => b.addChild (child b))

/-- The name of the next future of a branch. -/
def nextFuture (m : Machine) (a : Route) : FutureId := ⟨a, (m.store a).generation + 1⟩

/-- Starts a future for a key of a branch that is there. It is ready to run. -/
def spawn (m : Machine) (a : Route) (key : String) (future : Prog (Except EvalError Value)) : Machine :=
  if (m.branch? a).isSome then
    { m.modifyStore a fun s => s.write key (.pending (m.nextFuture a)) with
      futures := m.futures ++ [⟨m.nextFuture a, key, false, .running (.asleep m.clock future)⟩]
      ready := m.ready ++ [m.nextFuture a] }
  else m

/-- Changes the state of a future. -/
def setFuture (m : Machine) (id : FutureId) (state : FutureState) : Machine :=
  { m with futures := Future.setState id state m.futures }

/-- Ends a future. A value goes into its entry, or the future is stale. -/
def complete (m : Machine) (f : Future) (result : Except EvalError Value) : Machine :=
  match result with
  | .error e => m.setFuture f.id (.ended result (.error e))
  | .ok value =>
    match (m.store f.id.home).resolve f.key f.id.generation value with
    | .ok store => (m.modifyStore f.id.home fun _ => store).setFuture f.id (.ended result (.ok ()))
    | .error e => m.setFuture f.id (.ended result (.error (.context e)))

/-- The futures of a branch that nobody has begun to wait for, in the order of their start. -/
def unawaited (m : Machine) (a : Route) : List FutureId :=
  (m.futures.filter fun f => f.id.home = a && !f.awaited).map Future.id

/-- Marks all futures of a branch as awaited. -/
def markAwaited (m : Machine) (a : Route) : Machine :=
  { m with futures := m.futures.map fun f => if f.id.home = a then { f with awaited := true } else f }

/-! ## Operations -/

/-- Carries out an operation of a program with the given base. -/
def perform (m : Machine) (base : Route) : {α : Type} → Op α → α × Machine
  | _, .get branch key => (m.get (base ++ branch) key, m)
  | _, .has branch key => ((m.store (base ++ branch)).has key, m)
  | _, .getAll branch => ((m.store (base ++ branch)).getAll, m)
  | _, .set branch key value => ((), m.modifyStore (base ++ branch) fun s => s.write key (.ready value))
  | _, .record branch result =>
    ((), m.modify (base ++ branch) fun b => { b with results := b.results ++ [result] })
  | _, .history branch => (m.history (base ++ branch), m)
  | _, .fork branch options => m.addChild (base ++ branch) fun b => b.forkOf options
  | _, .path branch => (m.path (base ++ branch), m)
  | _, .enter branch path => ((), m.enter (base ++ branch) path)
  | _, .log branch => ((m.session (base ++ branch)).log, m)
  | _, .inputs branch => ((m.session (base ++ branch)).inputs, m)
  | _, .openSession branch inputs => m.addChild (base ++ branch) fun _ => .root inputs

/-! ## Waiting -/

/-- Passes over the futures at the front that have ended and keeps the first failure. -/
def collect (m : Machine) : List FutureId → Option EvalError → List FutureId × Option EvalError
  | [], failure => ([], failure)
  | id :: rest, failure =>
    match (m.future? id).bind Future.report? with
    | none => (id :: rest, failure)
    | some (.ok ()) => m.collect rest failure
    | some (.error e) => m.collect rest (failure.or (some e))

/-- Replaces the references at the front whose futures have ended by their outcomes. -/
def settleSlots (a : Route) : List PendingSlot → Machine → List PendingSlot × Machine
  | [], m => ([], m)
  | (key, generation, id) :: rest, m =>
    if (m.outcome id).isRunning then ((key, generation, id) :: rest, m)
    else settleSlots a rest (m.modifyStore a fun s => s.settle key generation (m.outcome id).value?)

/-- The result of a wait that is over. -/
def waitResult : Option EvalError → Except EvalError Unit
  | none => .ok ()
  | some e => .error e

/-- The second half of a wait. -/
def waitSlots (a : Route) (todo : List PendingSlot) (failure : Option EvalError) (m : Machine) :
    (Wait ⊕ Except EvalError Unit) × Machine :=
  match settleSlots a todo m with
  | ([], m) => (.inr (waitResult failure), m)
  | (slot :: rest, m) => (.inl (.slots slot rest failure), m)

/-- A wait from its start or from the futures still to be awaited. When these have ended, those started meanwhile
are awaited too. -/
def waitFutures (a : Route) (todo : List FutureId) (failure : Option EvalError) (m : Machine) :
    (Wait ⊕ Except EvalError Unit) × Machine :=
  match m.collect todo failure with
  | (id :: rest, failure) => (.inl (.futures id rest failure), m)
  | ([], failure) =>
    match (m.markAwaited a).collect (m.unawaited a) failure with
    | (id :: rest, failure) => (.inl (.futures id rest failure), m.markAwaited a)
    | ([], failure) => waitSlots a (m.store a).pending failure (m.markAwaited a)

/-- Takes a wait as far as it goes. -/
def wait (a : Route) : Wait → Machine → (Wait ⊕ Except EvalError Unit) × Machine
  | .futures id rest failure, m => waitFutures a (id :: rest) failure m
  | .slots slot rest failure, m => waitSlots a (slot :: rest) failure m

/-- Whether a wait can go on. -/
def waitIsReady (m : Machine) : Wait → Bool
  | .futures id _ _ => ((m.future? id).bind Future.report?).isSome
  | .slots slot _ _ => !(m.outcome slot.2.2).isRunning

end Machine

end MediaQuery
