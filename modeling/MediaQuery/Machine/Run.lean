import MediaQuery.Machine.State

/-!
# Starting and resuming programs

`Prog.start` carries out a program until it is done or has to wait, and `Run.resume` takes a waiting program on.
Programs side by side are taken in order, each as far as it goes, and the first failure met on the way ends
them: those behind it are left where they are.
-/

namespace MediaQuery

/-- Takes parts in order, each as far as it goes, up to the first failure. -/
def sweep {β : Type} {n : Nat} (advance : Fin n → Machine → Run (Except ExecutionError β) × Machine) :
    List (Fin n) → Machine → Except ExecutionError (List (Run (Except ExecutionError β))) × Machine
  | [], m => (.ok [], m)
  | i :: rest, m =>
    match advance i m with
    | (.done (.error e), m) => (.error e, m)
    | (run, m) =>
      match sweep advance rest m with
      | (.ok runs, m) => (.ok (run :: runs), m)
      | (.error e, m) => (.error e, m)

/-- The values of runs that have all succeeded. -/
def gather? {β : Type} : List (Run (Except ExecutionError β)) → Option (List β)
  | [] => some []
  | .done (.ok value) :: rest => (gather? rest).map (value :: ·)
  | _ => none

/-- Carries out a program until it is done or has to wait. -/
def Prog.start : {α : Type} → Prog α → Route → Machine → Run α × Machine
  | _, .done a, _, m => (.done a, m)
  | _, .act op next, base, m =>
    let (reply, m) := m.perform base op
    (next reply).start base m
  | _, .sleep ms next, base, m => if ms = 0 then next.start base m else (.asleep (m.clock + ms) next, m)
  | _, .spawn branch key future next, base, m => next.start base (m.spawn (base ++ branch) key future)
  | _, .resolve branch key next, base, m =>
    match (m.store (base ++ branch)).find? key with
    | none => (next (.error (.missingValue key))).start base m
    | some ⟨_, .ready value⟩ => (next (.ok value)).start base m
    | some ⟨generation, .pending future⟩ =>
      match m.outcome future with
      | .running => (.resolving branch key generation future next, m)
      | .resolved value =>
        (next (.ok value)).start base (m.modifyStore (base ++ branch) (·.settle key generation (some value)))
      | .failed =>
        (next (.error (.missingValue key))).start base
          (m.modifyStore (base ++ branch) (·.settle key generation none))
  | _, .settle branch next, base, m =>
    match Machine.waitFutures (base ++ branch) [] none m with
    | (.inl wait, m) => (.waiting branch wait next, m)
    | (.inr result, m) => (next result).start base m
  | _, .all parts next, base, m =>
    match sweep (fun i m => (parts i).start base m) (List.finRange _) m with
    | (.error e, m) => (next (.error e)).start base m
    | (.ok runs, m) =>
      match gather? runs with
      | some values => (next (.ok values)).start base m
      | none => (.joined runs.get next, m)

/-- Takes a waiting program on, as far as it goes. -/
def Run.resume : {α : Type} → Run α → Route → Machine → Run α × Machine
  | _, .done a, _, m => (.done a, m)
  | _, .asleep wake next, base, m => if wake ≤ m.clock then next.start base m else (.asleep wake next, m)
  | _, .resolving branch key generation future next, base, m =>
    match m.outcome future with
    | .running => (.resolving branch key generation future next, m)
    | .resolved value =>
      (next (.ok value)).start base (m.modifyStore (base ++ branch) (·.settle key generation (some value)))
    | .failed =>
      (next (.error (.missingValue key))).start base
        (m.modifyStore (base ++ branch) (·.settle key generation none))
  | _, .waiting branch wait next, base, m =>
    match Machine.wait (base ++ branch) wait m with
    | (.inl wait, m) => (.waiting branch wait next, m)
    | (.inr result, m) => (next result).start base m
  | _, .joined parts next, base, m =>
    match sweep (fun i m => (parts i).resume base m) (List.finRange _) m with
    | (.error e, m) => (next (.error e)).start base m
    | (.ok runs, m) =>
      match gather? runs with
      | some values => (next (.ok values)).start base m
      | none => (.joined runs.get next, m)

/-- Whether a run can go on now. -/
def Run.isReady (m : Machine) : {α : Type} → Run α → Bool
  | _, .done _ => false
  | _, .asleep wake _ => wake ≤ m.clock
  | _, .resolving _ _ _ future _ => !(m.outcome future).isRunning
  | _, .waiting _ wait _ => m.waitIsReady wait
  | _, .joined parts _ => (List.finRange _).any fun i => (parts i).isReady m

/-- The least time, if any, at which one of the sleeps in a run ends. -/
def Run.wake? : {α : Type} → Run α → Option Nat
  | _, .asleep wake _ => some wake
  | _, .joined parts _ => ((List.finRange _).filterMap fun i => (parts i).wake?).min?
  | _, _ => none

end MediaQuery
