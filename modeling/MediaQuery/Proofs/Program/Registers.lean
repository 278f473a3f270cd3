import MediaQuery.Proofs.Program.Uses
import Mathlib.Data.Set.Insert

/-!
# Programs that fork for what they enter

A program knows some branches, to begin with its own, and comes to know those that it makes. It registers what it enters
(`Prog.Registers`) if it names no branch but those that it knows, and makes a fork at every path that it enters in the
log, on the same branch and before it does anything else; only some paths are free, and may be entered without a fork.
That is so of every run of an action, and of all that is put together from such runs and from operations that enter
nothing (`Registers.bind`). The more is known, the more may be done (`Registers.mono`).
-/

namespace MediaQuery

/-- The operation makes an entry in the log. -/
def Op.Enters : {α : Type} → Op α → Prop
  | _, .enter _ _ => True
  | _, _ => False

/-- What is known after an operation: what has been known, and what it has made. -/
def Op.known (K : Set Route) : {α : Type} → Op α → α → Set Route
  | _, .fork branch _, i => insert (branch ++ [i]) K
  | _, .openSession branch _, i => insert (branch ++ [i]) K
  | _, _, _ => K

/-- What is known, as it is named on a branch further down. -/
def lowered (route : Route) (K : Set Route) : Set Route := Set.preimage (route ++ ·) K

variable {free : Path → Prop} {K K' : Set Route} {route branch : Route} {α β : Type}

theorem Op.subset_known (op : Op α) (answer : α) : K ⊆ op.known K answer := by
  cases op with
  | fork branch options => exact Set.subset_insert _ _
  | openSession branch inputs => exact Set.subset_insert _ _
  | _ => exact subset_rfl

theorem Op.known_mono (h : K ⊆ K') (op : Op α) (answer : α) : op.known K answer ⊆ op.known K' answer := by
  cases op with
  | fork branch options => exact Set.insert_subset_insert h
  | openSession branch inputs => exact Set.insert_subset_insert h
  | _ => exact h

theorem lowered_mono (h : K ⊆ K') (route : Route) : lowered route K ⊆ lowered route K' := fun _ hb => h hb

theorem lowered_insert (route branch : Route) (K : Set Route) :
    lowered route (insert (route ++ branch) K) = insert branch (lowered route K) := by
  ext b
  simp only [lowered, Set.mem_preimage, Set.mem_insert_iff, List.append_cancel_left_eq]

theorem Op.lowered_known (route : Route) (K : Set Route) (op : Op α) (answer : α) :
    lowered route ((op.under route).known K answer) = op.known (lowered route K) answer := by
  cases op with
  | fork branch options =>
    rw [Op.under, Op.known, List.append_assoc, lowered_insert]
    rfl
  | openSession branch inputs =>
    rw [Op.under, Op.known, List.append_assoc, lowered_insert]
    rfl
  | _ => rfl

theorem Op.enters_under (route : Route) (op : Op α) : (op.under route).Enters ↔ op.Enters := by
  cases op <;> rfl

/-- A program that knows some branches registers what it enters, but for free paths, and its results are as told by what is
known then. -/
inductive Prog.Registers (free : Path → Prop) : {α : Type} → Set Route → (Set Route → α → Prop) → Prog α → Prop
  | done {α : Type} {K : Set Route} {Q : Set Route → α → Prop} {answer : α} (h : ∀ K', K ⊆ K' → Q K' answer) :
      Registers free K Q (.done answer)
  | enter {α : Type} {K : Set Route} {Q : Set Route → α → Prop} {branch : Route} {path : Path} {k : Nat → Prog α}
      (hb : branch ∈ K) (h : ∀ i, Registers free (insert (branch ++ [i]) K) Q (k i)) :
      Registers free K Q (.act (.enter branch path) fun _ => .act (.fork branch (.place path)) k)
  | note {α : Type} {K : Set Route} {Q : Set Route → α → Prop} {branch : Route} {path : Path} {next : Unit → Prog α}
      (hb : branch ∈ K) (hfree : free path) (h : Registers free K Q (next ())) :
      Registers free K Q (.act (.enter branch path) next)
  | act {α β : Type} {K : Set Route} {Q : Set Route → α → Prop} {op : Op β} {next : β → Prog α} (hop : ¬ op.Enters)
      (hb : op.branch ∈ K) (h : ∀ b, Registers free (op.known K b) Q (next b)) : Registers free K Q (.act op next)
  | sleep {α : Type} {K : Set Route} {Q : Set Route → α → Prop} {ms : Nat} {next : Prog α} (h : Registers free K Q next) :
      Registers free K Q (.sleep ms next)
  | spawn {branch : Route} {α : Type} {K : Set Route} {Q : Set Route → α → Prop} {key : String}
      {future : Prog (Except EvalError Value)} {next : Prog α} (hb : branch ∈ K)
      (hfuture : Registers free (lowered branch K) (fun _ _ => True) future) (h : Registers free K Q next) :
      Registers free K Q (.spawn branch key future next)
  | resolve {branch : Route} {α : Type} {K : Set Route} {Q : Set Route → α → Prop} {key : String}
      {next : Except ContextError Value → Prog α} (hb : branch ∈ K) (h : ∀ r, Registers free K Q (next r)) :
      Registers free K Q (.resolve branch key next)
  | settle {branch : Route} {α : Type} {K : Set Route} {Q : Set Route → α → Prop}
      {next : Except EvalError Unit → Prog α} (hb : branch ∈ K) (h : ∀ r, Registers free K Q (next r)) :
      Registers free K Q (.settle branch next)
  | all {α β : Type} {n : Nat} {K : Set Route} {Q : Set Route → α → Prop}
      (S : Set Route → Except ExecutionError β → Prop) {parts : Fin n → Prog (Except ExecutionError β)}
      {next : Except ExecutionError (List β) → Prog α} (hparts : ∀ i, Registers free K S (parts i))
      (he : ∀ K', K ⊆ K' → ∀ e, S K' (.error e) → Registers free K' Q (next (.error e)))
      (hok : ∀ K', K ⊆ K' → ∀ values, (∀ v ∈ values, S K' (.ok v)) → Registers free K' Q (next (.ok values))) :
      Registers free K Q (.all parts next)

/-- The same for a run. -/
inductive Run.Registers (free : Path → Prop) (K : Set Route) : {α : Type} → (Set Route → α → Prop) → Run α → Prop
  | done {α : Type} {Q : Set Route → α → Prop} {answer : α} (h : ∀ K', K ⊆ K' → Q K' answer) :
      Registers free K Q (.done answer)
  | asleep {α : Type} {Q : Set Route → α → Prop} {wake : Nat} {next : Prog α} (h : next.Registers free K Q) :
      Registers free K Q (.asleep wake next)
  | resolving {branch : Route} {α : Type} {Q : Set Route → α → Prop} {key : String} {generation : Nat}
      {future : FutureId} {next : Except ContextError Value → Prog α} (hb : branch ∈ K)
      (h : ∀ r, (next r).Registers free K Q) : Registers free K Q (.resolving branch key generation future next)
  | waiting {branch : Route} {α : Type} {Q : Set Route → α → Prop} {wait : Wait}
      {next : Except EvalError Unit → Prog α} (hb : branch ∈ K) (h : ∀ r, (next r).Registers free K Q) :
      Registers free K Q (.waiting branch wait next)
  | joined {α β : Type} {n : Nat} {Q : Set Route → α → Prop} (S : Set Route → Except ExecutionError β → Prop)
      {parts : Fin n → Run (Except ExecutionError β)} {next : Except ExecutionError (List β) → Prog α}
      (hparts : ∀ i, Registers free K S (parts i))
      (he : ∀ K', K ⊆ K' → ∀ e, S K' (.error e) → (next (.error e)).Registers free K' Q)
      (hok : ∀ K', K ⊆ K' → ∀ values, (∀ v ∈ values, S K' (.ok v)) → (next (.ok values)).Registers free K' Q) :
      Registers free K Q (.joined parts next)

/-! ## Knowing more -/

variable {Q : Set Route → α → Prop} {Q' : Set Route → β → Prop}

/-- **Who knows more may do the same.** -/
theorem Prog.Registers.mono {p : Prog α} (h : p.Registers free K Q) (hK : K ⊆ K') : p.Registers free K' Q := by
  induction h generalizing K' with
  | done h => exact .done fun K'' hK' => h K'' (hK.trans hK')
  | enter hb _ ih => exact .enter (hK hb) fun i => ih i (Set.insert_subset_insert hK)
  | note hb hfree _ ih => exact .note (hK hb) hfree (ih hK)
  | act hop hb _ ih => exact .act hop (hK hb) fun b => ih b (Op.known_mono hK _ b)
  | sleep _ ih => exact .sleep (ih hK)
  | spawn hb _ _ ihfuture ih => exact .spawn (hK hb) (ihfuture (lowered_mono hK _)) (ih hK)
  | resolve hb _ ih => exact .resolve (hK hb) fun r => ih r hK
  | settle hb _ ih => exact .settle (hK hb) fun r => ih r hK
  | all S _ he hok ihparts _ _ =>
    exact .all S (fun i => ihparts i hK) (fun K'' hK' => he K'' (hK.trans hK')) fun K'' hK' => hok K'' (hK.trans hK')

theorem Run.Registers.mono {run : Run α} (h : run.Registers free K Q) (hK : K ⊆ K') : run.Registers free K' Q := by
  induction h with
  | done h => exact .done fun K'' hK' => h K'' (hK.trans hK')
  | asleep h => exact .asleep (h.mono hK)
  | resolving hb h => exact .resolving (hK hb) fun r => (h r).mono hK
  | waiting hb h => exact .waiting (hK hb) fun r => (h r).mono hK
  | joined S _ he hok ih =>
    exact .joined S ih (fun K'' hK' => he K'' (hK.trans hK')) fun K'' hK' => hok K'' (hK.trans hK')

/-! ## Sequencing -/

namespace Prog.Registers

/-- An operation that enters nothing, and what comes after it. -/
theorem operate (op : Op α) {next : α → Prog β} (hop : ¬ op.Enters) (hb : op.branch ∈ K)
    (h : ∀ answer, (next answer).Registers free (op.known K answer) Q') : (Prog.act op next).Registers free K Q' :=
  .act hop hb h

/-- **One after the other.** -/
theorem bind {p : Prog α} {k : α → Prog β} (h : p.Registers free K Q)
    (hk : ∀ K', K ⊆ K' → ∀ answer, Q K' answer → (k answer).Registers free K' Q') : (p.bind k).Registers free K Q' := by
  induction h with
  | done h => exact hk _ subset_rfl _ (h _ subset_rfl)
  | enter hb _ ih => exact .enter hb fun i => ih i fun K' hK => hk K' ((Set.subset_insert _ _).trans hK)
  | note hb hfree _ ih => exact .note hb hfree (ih hk)
  | @act _ _ _ _ op _ hop hb _ ih => exact .act hop hb fun b => ih b fun K' hK => hk K' ((op.subset_known b).trans hK)
  | sleep _ ih => exact .sleep (ih hk)
  | spawn hb hfuture _ _ ih => exact .spawn hb hfuture (ih hk)
  | resolve hb _ ih => exact .resolve hb fun r => ih r hk
  | settle hb _ ih => exact .settle hb fun r => ih r hk
  | all S hparts _ _ _ ihe ihok =>
    exact .all S hparts (fun K' hK e hS => ihe K' hK e hS fun K'' hK' => hk K'' (hK.trans hK'))
      fun K' hK values hS => ihok K' hK values hS fun K'' hK' => hk K'' (hK.trans hK')

variable {ε : Type}

theorem andThen {p : Prog (Except ε α)} {f : α → Prog (Except ε β)} (h : p.Registers free K fun K r => IfOk (Q K) r)
    (hk : ∀ K', K ⊆ K' → ∀ answer, Q K' answer → (f answer).Registers free K' fun K r => IfOk (Q' K) r) :
    (ExceptT.run (ExceptT.mk p >>= fun answer => ExceptT.mk (f answer))).Registers free K fun K r => IfOk (Q' K) r := by
  refine h.bind fun K' hK r hr => ?_
  cases r with
  | ok answer => exact hk K' hK answer (hr answer rfl)
  | error e => exact .done fun _ _ => nofun

theorem andThenLift {p : Prog α} {f : α → Prog (Except ε β)} (h : p.Registers free K Q)
    (hk : ∀ K', K ⊆ K' → ∀ answer, Q K' answer → (f answer).Registers free K' fun K r => IfOk (Q' K) r) :
    (ExceptT.run (ExceptT.lift p >>= fun answer => ExceptT.mk (f answer))).Registers free K fun K r => IfOk (Q' K) r := by
  have heq : ExceptT.run (ExceptT.lift p >>= fun answer => ExceptT.mk (f answer)) = p.bind f := bind_assoc p _ _
  rw [heq]
  exact h.bind hk

theorem mapOk {p : Prog (Except ε α)} (h : p.Registers free K fun K r => IfOk (Q K) r) (f : α → β) :
    (p.bind fun r => .done (r.map f)).Registers free K fun _ r => IfOk (fun _ => True) r :=
  h.bind fun _ _ _ _ => .done fun _ _ _ _ => trivial

/-- Side by side. -/
theorem parallel {parts : List (Prog (Except ExecutionError β))}
    (h : ∀ p ∈ parts, p.Registers free K fun _ r => IfOk (fun _ => True) r) :
    (Prog.parallel parts).Registers free K fun _ r => IfOk (fun _ => True) r :=
  .all (fun _ r => IfOk (fun _ => True) r) (fun i => h _ (List.get_mem parts i))
    (fun _ _ _ _ => .done fun _ _ => nofun) fun _ _ _ _ => .done fun _ _ _ _ => trivial

/-- A program does further down what it does on its own branch. -/
theorem under {p : Prog α} (h : p.Registers free (lowered route K) Q) :
    (p.under route).Registers free K fun K' => Q (lowered route K') := by
  generalize hlower : lowered route K = L at h
  induction h generalizing K with
  | done h =>
    subst hlower
    exact .done fun K' hK => h _ (lowered_mono hK route)
  | @enter _ _ _ branch path k hb _ ih =>
    subst hlower
    refine .enter hb fun i => ih i ?_
    rw [List.append_assoc, lowered_insert]
  | note hb hfree _ ih =>
    subst hlower
    exact .note hb hfree (ih rfl)
  | @act _ _ _ _ op _ hop hb _ ih =>
    subst hlower
    refine .act (by rwa [Op.enters_under]) (by rwa [Op.branch_under]) fun b => ih b ?_
    exact op.lowered_known route K b
  | sleep _ ih => exact .sleep (ih hlower)
  | @spawn branch _ _ _ _ _ _ hb hfuture _ _ ih =>
    subst hlower
    refine .spawn hb ?_ (ih rfl)
    have heq : lowered (route ++ branch) K = lowered branch (lowered route K) := by
      ext b
      simp only [lowered, Set.mem_preimage, List.append_assoc]
    rwa [heq]
  | resolve hb _ ih =>
    subst hlower
    exact .resolve hb fun r => ih r rfl
  | settle hb _ ih =>
    subst hlower
    exact .settle hb fun r => ih r rfl
  | all S _ _ _ ihparts ihe ihok =>
    subst hlower
    exact .all (fun K' => S (lowered route K')) (fun i => ihparts i rfl)
      (fun K' hK e hS => ihe _ (lowered_mono hK route) e hS rfl)
      fun K' hK values hS => ihok _ (lowered_mono hK route) values hS rfl

end Prog.Registers

end MediaQuery
