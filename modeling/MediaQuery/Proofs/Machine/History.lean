import MediaQuery.Proofs.Machine.Future
import MediaQuery.Proofs.Machine.Place

/-!
# Histories of a machine

Whoever acts on a machine, and in whatever order, changes it by one of a few steps (`Machine.Step`), and each of
them leaves an event. A `History` is what has happened so far. From the events alone `reading` tells what every key
of every branch reads as: the last write to the key is one made in the branch or, if there is none since it was
forked, the last one its parent had seen at that moment; and a future reads as its result.
-/

namespace MediaQuery.Machine

/-- What happens to the values of branches. -/
inductive Event where
  /-- A key of a branch has been set. -/
  | set (branch : Route) (key : String) (value : Value)
  /-- A future has been started for a key of a branch. -/
  | spawned (branch : Route) (key : String) (future : FutureId)
  /-- A branch has been forked, with the values given or with a copy of its parent's. -/
  | forked (branch child : Route) (data : Option (List (String × Value)))
  /-- The first branch of a nested query has been made. -/
  | opened (child : Route)
  /-- A future has ended. -/
  | ended (future : FutureId) (result : Except EvalError Value)
  /-- Someone has met a reference to a future and waits for it. -/
  | met (branch : Route) (slot : PendingSlot)
  /-- A reference that someone has waited for is replaced by the outcome. -/
  | settled (branch : Route) (slot : PendingSlot)
  | other

/-- Whether an event is a write to a key of a branch. -/
def Event.Writes (a : Route) (key : String) : Event → Prop
  | .set b k _ => b = a ∧ k = key
  | .spawned b k _ => b = a ∧ k = key
  | _ => False

instance (a : Route) (key : String) : DecidablePred (Event.Writes a key)
  | .set b k _ => inferInstanceAs (Decidable (b = a ∧ k = key))
  | .spawned b k _ => inferInstanceAs (Decidable (b = a ∧ k = key))
  | .forked _ _ _ => isFalse id
  | .opened _ => isFalse id
  | .ended _ _ => isFalse id
  | .met _ _ => isFalse id
  | .settled _ _ => isFalse id
  | .other => isFalse id

/-- Whether an event says that a future has ended or that a branch has taken over its outcome. -/
def Event.Settles (id : FutureId) : Event → Prop
  | .ended future _ => future = id
  | .settled _ slot => slot.2.2 = id
  | _ => False

/-- What a machine can do next, and the event that this is. The events of the past, newest first, say which
references have been met. -/
inductive Step (past : List Event) : Machine → Event → Machine → Prop
  | set {m : Machine} {a : Route} (key : String) (value : Value) (ha : (m.node? a).isSome = true) :
      Step past m (.set a key value) (m.modifyStore a fun s => s.write key (.ready value))
  | spawn {m : Machine} {a : Route} (key : String) (p : Prog (Except EvalError Value))
      (ha : (m.node? a).isSome = true) : Step past m (.spawned a key (m.nextFuture a)) (m.spawn a key p)
  | fork {m : Machine} {a : Route} {n : Node} (options : ForkOptions) (ha : m.node? a = some n) :
      Step past m (.forked a (a ++ [n.degree]) options.data) (m.addChild a fun b => b.forkOf options).2
  | openSession {m : Machine} {a : Route} {n : Node} (inputs : Inputs) (ha : m.node? a = some n) :
      Step past m (.opened (a ++ [n.degree])) (m.addChild a fun _ => .root inputs).2
  /-- A future ends once. -/
  | finish {m : Machine} {f : Future} (result : Except EvalError Value) (hf : m.future? f.id = some f)
      (hr : f.result? = none) : Step past m (.ended f.id result) (m.complete f result)
  | meet {m : Machine} {a : Route} {key : String} {generation : Nat} {id : FutureId}
      (h : (m.store a).find? key = some ⟨generation, .pending id⟩) : Step past m (.met a (key, generation, id)) m
  | settle {m : Machine} {a : Route} {key : String} {generation : Nat} {id : FutureId}
      (h : .met a (key, generation, id) ∈ past) (hr : (m.outcome id).isRunning = false) :
      Step past m (.settled a (key, generation, id))
        (m.modifyStore a fun s => s.settle key generation (m.outcome id).value?)
  | record {m : Machine} (a : Route) (result : Option Value) :
      Step past m .other (m.modify a fun b => { b with results := b.results ++ [result] })
  | enter {m : Machine} (a : Route) (path : Path) : Step past m .other (m.enter a path)
  | await {m : Machine} (a : Route) : Step past m .other (m.markAwaited a)
  /-- A future that has not ended is taken on or goes back to waiting. -/
  | work {m : Machine} {f : Future} (state : FutureState) (hf : m.future? f.id = some f) (hr : f.result? = none)
      (hs : { f with state }.result? = none) : Step past m .other (m.setFuture f.id state)
  | queue {m : Machine} (ready : List FutureId) : Step past m .other { m with ready }
  | tick {m : Machine} (clock : Nat) : Step past m .other { m with clock }

/-- What can have happened to a machine since its start, newest first. -/
inductive History (inputs : Inputs) : List Event → Machine → Prop
  | start : History inputs [] (.start inputs)
  | step {past : List Event} {m m' : Machine} {e : Event} (h : History inputs past m) (hs : m.Step past e m') :
      History inputs (e :: past) m'

/-! ## What a history says about a key -/

/-- What has been written to a key. -/
inductive Write where
  | value (v : Value)
  | future (id : FutureId)

/-- The last write to a key of a branch: of those made there since it was forked or, if there is none, of those
its parent had seen at that moment. -/
def lastWrite : List Event → Route → String → Option Write
  | [], _, _ => none
  | .set b k v :: past, a, key => if b = a ∧ k = key then some (.value v) else lastWrite past a key
  | .spawned b k id :: past, a, key => if b = a ∧ k = key then some (.future id) else lastWrite past a key
  | .forked b c data :: past, a, key =>
    if c = a then
      match data with
      | none => lastWrite past b key
      | some values => (values.reverse.lookup key).map .value
    else lastWrite past a key
  | .opened c :: past, a, key => if c = a then none else lastWrite past a key
  | _ :: past, a, key => lastWrite past a key

/-- The result of a future. -/
def endOf : List Event → FutureId → Option (Except EvalError Value)
  | [], _ => none
  | .ended future result :: past, id => if future = id then some result else endOf past id
  | _ :: past, id => endOf past id

/-- What a key reads as after its last write, where the results of futures are known. -/
def Write.read (ends : FutureId → Option (Except EvalError Value)) (key : String) :
    Option Write → Except ContextError Value
  | none => .error (.missingValue key)
  | some (.value v) => .ok v
  | some (.future id) =>
    match ends id with
    | none => .error (.pendingValue key)
    | some (.ok v) => .ok v
    | some (.error _) => .error (.missingValue key)

/-- What a key of a branch reads as, by its history. -/
def reading (past : List Event) (a : Route) (key : String) : Except ContextError Value :=
  Write.read (endOf past) key (lastWrite past a key)

/-! ## Laws of histories -/

/-- A future that a key refers to has been started for that key somewhere. -/
theorem spawned_of_lastWrite {past : List Event} {a : Route} {key : String} {id : FutureId}
    (h : lastWrite past a key = some (.future id)) : ∃ b, .spawned b key id ∈ past := by
  have weaken {past : List Event} (e : Event) (h : ∃ b, .spawned b key id ∈ past) :
      ∃ b, .spawned b key id ∈ e :: past := by
    obtain ⟨b, hb⟩ := h
    exact ⟨b, List.mem_cons_of_mem e hb⟩
  induction past generalizing a with
  | nil => simp [lastWrite] at h
  | cons e past ih =>
    cases e with
    | set b k v =>
      rw [lastWrite] at h
      split at h
      · cases h
      · exact weaken _ (ih h)
    | spawned b k future =>
      rw [lastWrite] at h
      split at h
      · next hb =>
        cases h
        obtain ⟨-, rfl⟩ := hb
        exact ⟨b, List.mem_cons_self⟩
      · exact weaken _ (ih h)
    | forked b c data =>
      cases data with
      | none =>
        rw [lastWrite] at h
        split at h <;> exact weaken _ (ih h)
      | some values =>
        rw [lastWrite] at h
        split at h
        · obtain ⟨v, -, hv⟩ := Option.map_eq_some_iff.1 h
          cases hv
        · exact weaken _ (ih h)
    | opened c =>
      rw [lastWrite] at h
      split at h
      · cases h
      · exact weaken _ (ih h)
    | ended future result => exact weaken _ (ih h)
    | met b slot => exact weaken _ (ih h)
    | settled b slot => exact weaken _ (ih h)
    | other => exact weaken _ (ih h)

/-- Only a write to a key, or the making of its branch, changes the last write. -/
theorem lastWrite_cons {past : List Event} {e : Event} {a : Route} {key : String} (hw : ¬ e.Writes a key)
    (hf : ∀ b data, e ≠ .forked b a data) (ho : e ≠ .opened a) :
    lastWrite (e :: past) a key = lastWrite past a key := by
  cases e with
  | set b k v => exact if_neg hw
  | spawned b k id => exact if_neg hw
  | forked b c data => exact if_neg fun hc => hf b data (by rw [hc])
  | opened c => exact if_neg fun hc => ho (by rw [hc])
  | _ => rfl

/-- A result that is known stays known. -/
theorem endOf_cons {past : List Event} {e : Event} {id : FutureId} (h : ∀ result, e ≠ .ended id result) :
    endOf (e :: past) id = endOf past id := by
  cases e with
  | ended future result => exact if_neg fun hf => h result (by rw [hf])
  | _ => rfl

end MediaQuery.Machine
