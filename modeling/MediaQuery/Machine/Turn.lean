import MediaQuery.Machine.Run

/-!
# Turns

One program runs at a time. A turn takes one run on: the first future that is ready, in the order in which they
became so; else the main program, if it can go on; else the clock jumps to the next time at which a sleep ends,
and whatever that wakes goes on. If no sleep is left there is no turn.
-/

namespace MediaQuery

namespace Future

/-- Whether a future can go on now. -/
def isReady (m : Machine) (f : Future) : Bool :=
  match f.state with
  | .running run => run.isReady m
  | _ => false

/-- The least time at which one of a future's sleeps ends. -/
def wake? (f : Future) : Option Nat :=
  match f.state with
  | .running run => run.wake?
  | _ => none

end Future

namespace Machine

/-- Puts the futures that have become ready at the end of the queue. -/
def enqueue (m : Machine) : Machine :=
  { m with ready := m.ready ++ (m.futures.filter fun f => f.isReady m && f.id ∉ m.ready).map Future.id }

/-- Keeps what has become of a future's run. -/
def keep (m : Machine) (f : Future) : Run (Except EvalError Value) → Machine
  | .done result => m.complete f result
  | run => m.setFuture f.id (.running run)

/-- Takes a future on, if it is ready, and then sees what else has become ready. -/
def runFuture (m : Machine) (f : Future) : Option Machine :=
  match f.state with
  | .running run =>
    let m := m.setFuture f.id .busy
    if run.isReady m then
      let (run, m) := run.resume f.id.home m
      some (m.keep f run).enqueue
    else none
  | _ => none

/-- Takes on the first future of the queue that is ready; it and those before it leave the queue. -/
def runQueue : List FutureId → Machine → Option Machine
  | [], _ => none
  | id :: rest, m =>
    match (m.future? id).bind { m with ready := rest }.runFuture with
    | some m => some m
    | none => runQueue rest m

/-- Takes on the first future of the queue or, if there is none, the main program. -/
def dispatch {α : Type} (main : Run α) (m : Machine) : Option (Run α × Machine) :=
  match runQueue m.ready m with
  | some m => some (main, m)
  | none => if main.isReady m then some (main.resume [] m) else none

/-- The next time, if any, at which the main program or a future wakes. -/
def nextWake? {α : Type} (main : Run α) (m : Machine) : Option Nat :=
  (main.wake?.toList ++ m.futures.filterMap Future.wake?).min?

/-- The machine at a later time, with the futures that wake then. -/
def advanceTo (m : Machine) (t : Nat) : Machine := enqueue { m with clock := t }

/-- One turn. -/
def turn {α : Type} (main : Run α) (m : Machine) : Option (Run α × Machine) :=
  match dispatch main m with
  | some next => some next
  | none => (nextWake? main m).bind fun t => dispatch main (m.advanceTo t)

end Machine

end MediaQuery
