import MediaQuery.Machine.Turn

/-!
# The futures of a machine

A machine's futures are known by name (`Machine.future?`). One law for each operation says what has become of the
future of each name after it. What a future is for never changes, and once it has ended it stays as it is.
-/

namespace MediaQuery

namespace Future

/-- The result of a future that has ended. -/
def result? (f : Future) : Option (Except EvalError Value) :=
  match f.state with
  | .ended result _ => some result
  | _ => none

/-- What becomes of a value that is being computed, as far as is known. -/
def outcomeOf : Option (Except EvalError Value) → Outcome
  | none => .running
  | some (.ok value) => .resolved value
  | some (.error _) => .failed

theorem outcome_eq (f : Future) : f.outcome = outcomeOf f.result? := by
  unfold outcome result?
  split <;> simp_all [outcomeOf]

theorem find?_setState (id id' : FutureId) (state : FutureState) (futures : List Future) :
    (setState id state futures).find? (·.id = id') =
      if id' = id then (futures.find? (·.id = id)).map fun f => { f with state }
      else futures.find? (·.id = id') := by
  induction futures with
  | nil => simp [setState]
  | cons f rest ih =>
    unfold setState
    by_cases hf : f.id = id
    · by_cases hid : id' = id
      · simp [hf, hid]
      · simp [hf, hid, Ne.symm hid]
    · by_cases hid : id' = id
      · simpa [hf, hid] using ih
      · by_cases hf' : f.id = id'
        · simp [hid, hf']
        · simpa [hf, hid, hf'] using ih

end Future

namespace Machine

variable {m : Machine}

theorem id_of_future? {id : FutureId} {f : Future} (h : m.future? id = some f) : f.id = id := by
  simpa using List.find?_some h

theorem future?_setFuture (m : Machine) (id id' : FutureId) (state : FutureState) :
    (m.setFuture id state).future? id' =
      if id' = id then (m.future? id).map fun f => { f with state } else m.future? id' :=
  Future.find?_setState id id' state m.futures

@[simp] theorem future?_modify (m : Machine) (a : Route) (f : Branch → Branch) (id : FutureId) :
    (m.modify a f).future? id = m.future? id := rfl

@[simp] theorem future?_modifyStore (m : Machine) (a : Route) (f : Store → Store) (id : FutureId) :
    (m.modifyStore a f).future? id = m.future? id := rfl

/-- What is started on a branch that is there comes last, among the futures and in the queue. -/
theorem spawn_of_there {a : Route} (h : (m.branch? a).isSome = true) (key : String)
    (p : Prog (Except EvalError Value)) :
    m.spawn a key p =
      { m.modifyStore a fun s => s.write key (.pending (m.nextFuture a)) with
        futures := m.futures ++ [⟨m.nextFuture a, key, false, .running (.asleep m.clock p)⟩]
        ready := m.ready ++ [m.nextFuture a] } :=
  if_pos h

/-- On a branch that is not there nothing is started. -/
theorem spawn_of_absent {a : Route} (h : ¬ (m.branch? a).isSome = true) (key : String)
    (p : Prog (Except EvalError Value)) : m.spawn a key p = m :=
  if_neg h

theorem clock_spawn (m : Machine) (a : Route) (key : String) (p : Prog (Except EvalError Value)) :
    (m.spawn a key p).clock = m.clock := by
  unfold spawn
  split <;> rfl

theorem future?_spawn {a : Route} (h : (m.branch? a).isSome = true) (key : String)
    (p : Prog (Except EvalError Value)) (id : FutureId) :
    (m.spawn a key p).future? id =
      (m.future? id).or
        (if id = m.nextFuture a then some ⟨id, key, false, .running (.asleep m.clock p)⟩ else none) := by
  rw [spawn_of_there h]
  unfold future?
  rw [List.find?_append, List.find?_singleton]
  by_cases hid : id = m.nextFuture a
  · simp [hid]
  · simp [hid, Ne.symm hid]

theorem future?_markAwaited (m : Machine) (a : Route) (id : FutureId) :
    (m.markAwaited a).future? id =
      (m.future? id).map fun f => if f.id.home = a then { f with awaited := true } else f := by
  unfold markAwaited future?
  rw [List.find?_map]
  congr 1
  refine congrArg (List.find? · m.futures) (funext fun f => ?_)
  by_cases hf : f.id.home = a <;> simp [hf]

/-- What has become of a future is a matter of its result. -/
theorem outcome_of_future? {id : FutureId} {f : Future} (h : m.future? id = some f) :
    m.outcome id = Future.outcomeOf f.result? := by
  unfold outcome
  rw [h]
  exact f.outcome_eq

/-- To end a future takes its name and its key. -/
theorem complete_congr {f g : Future} (hid : f.id = g.id) (hkey : f.key = g.key) (result : Except EvalError Value) :
    m.complete f result = m.complete g result := by
  unfold complete
  rw [hid, hkey]

end Machine

end MediaQuery
