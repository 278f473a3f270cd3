import MediaQuery.Proofs.Machine.AfterWait
import MediaQuery.Proofs.Template.CurrentValue

/-!
# What an action is said to have answered

What an action has answered is kept before the waits that end it: a value becomes the current one of its fork, and of a
branch that it hands back the current value is read (`Performance`). After the waits no current value refers to a future
any more, and one that has been there is still the same. But what was still being computed when it was read is missing,
though it may be there when the action is over (`Overlooked`), and that is the only way for what is said to differ from
what is there (`told_of_executeAction`, `overlooked_by_computing`).
-/

namespace MediaQuery

open Machine Prog

variable {inputs : Inputs} {base branch : Route} {path : Path} {x y : Moment} {action : Action} {completed : Completed}

/-! ## Values across waits -/

namespace Machine

variable {a : Route} {key : String}

/-- As long as a key is not written, what it reads as stays unless it is still being computed. -/
theorem get_of_before (h : x.Before y) (hx : History inputs x.past x.machine) (ha : (x.machine.node? a).isSome = true)
    (hw : x.Without y (Event.Writes a key)) (hready : x.machine.get a key ≠ .error (.pendingValue key)) :
    y.machine.get a key = x.machine.get a key := by
  rw [(lineage_of_history hx).get_eq] at hready ⊢
  rw [(lineage_of_history (h.history hx)).get_eq]
  unfold reading at hready ⊢
  rw [Moment.lastWrite_of_without h ha hw]
  cases hlast : lastWrite x.past a key with
  | none => rfl
  | some w =>
    cases w with
    | value v => rfl
    | future id =>
      cases hend : endOf x.past id with
      | none =>
        rw [hlast, Write.read, hend] at hready
        exact absurd rfl hready
      | some result => rw [Write.read, Write.read, Moment.endOf_of_before h hx hend, hend]

end Machine

/-! ## What is kept -/

section Keeping

variable {m m' : Machine} {own : Route} {output : Output}

theorem value_of_keepOutput (h : (keepOutput own output).ComesTo base m completed m') {v : Value}
    (hv : output = .value v ∨ output = .raw v) : completed.value = some v := by
  obtain rfl | rfl := hv <;>
    · obtain ⟨rfl, -⟩ := h
      rfl

/-- Of a branch that is handed back the current value is read. -/
theorem current_of_keepOutput {route : Route} (h : (keepOutput own (.context route)).ComesTo base m completed m') :
    completed.value = (m'.get (base ++ completed.branch) currentKey).toOption := by
  obtain ⟨rfl, rfl⟩ := h
  rfl

/-- Without an answer all values stay as they are. -/
theorem store_of_keepOutput (h : (keepOutput own .undefined).ComesTo base m completed m') :
    completed.value = none ∧ completed.branch = own ∧ ∀ a, m'.store a = m.store a := by
  obtain ⟨rfl, rfl⟩ := h
  exact ⟨rfl, rfl, fun a => store_record m _ a none⟩

end Keeping

/-! ## Actions -/

/-- How an action that has succeeded has gone: it has answered on its fork, the answer has been kept, and then there
have been waits. -/
structure Performance (action : Action) (base branch : Route) (path : Path) (x : Moment) (completed : Completed)
    (y : Moment) where
  begun : Moment
  output : Output
  answered : Moment
  kept : Moment
  begins : x.Before begun ∧ begun.machine = (actionFork base branch path x.machine).2
  answers : (action.on (actionFork base branch path x.machine).1).Leads base begun (.ok output) answered
  keeps : (keepOutput (actionFork base branch path x.machine).1 output).Leads base answered completed kept
  waits : ∃ waited, kept.Before waited ∧ waited.Waits (base ++ completed.branch) (.ok ()) y

namespace Performance

/-- The fork on which the action runs. -/
def own (_ : Performance action base branch path x completed y) : Route := (actionFork base branch path x.machine).1

/-- What its branch reads as under the key of the current value was still being computed when it was read, and is a
value in the end. -/
def Overlooked (p : Performance action base branch path x completed y) : Prop :=
  p.kept.machine.get (base ++ completed.branch) currentKey = .error (.pendingValue currentKey) ∧
    ∃ v, y.machine.get (base ++ completed.branch) currentKey = .ok v

theorem before (p : Performance action base branch path x completed y) : p.kept.Before y := by
  obtain ⟨waited, hsteps, hwaits⟩ := p.waits
  exact hsteps.trans hwaits.before

/-- How what is said of an action goes with the current value of the branch that it leaves. -/
structure Tells (p : Performance action base branch path x completed y) : Prop where
  /-- The current value refers to no future any more. -/
  settled : ∀ id, y.machine.slot? (base ++ completed.branch) currentKey ≠ some (.pending id)
  /-- What has been answered is the current value. -/
  value : ∀ v, p.output = .value v ∨ p.output = .raw v →
    completed.value = some v ∧ y.machine.get (base ++ completed.branch) currentKey = .ok v
  /-- Of a branch that has been handed back it is the current value, unless that was still being computed. -/
  context : ∀ route, p.output = .context route →
    (p.Overlooked → completed.value = none) ∧
      (completed.value = (y.machine.get (base ++ completed.branch) currentKey).toOption ↔ ¬ p.Overlooked)
  /-- Where there is no answer the current value is what the action has left, as far as it has been computed. -/
  undefined : p.output = .undefined → completed.value = none ∧
    y.machine.get (base ++ completed.branch) currentKey =
      Write.read (endOf y.past) currentKey (lastWrite p.answered.past (base ++ completed.branch) currentKey)

end Performance

/-- A wait that has succeeded. -/
theorem waits_of_waitForPending (h : (waitForPending branch).Leads base x (.ok ()) y) :
    x.Waits (base ++ branch) (.ok ()) y := by
  obtain ⟨r, x₁, hwaits, hr, rfl⟩ := h
  cases r with
  | ok _ => exact hwaits
  | error e => cases hr

/-- An action that has succeeded has gone like that. -/
theorem exists_performance (h : (executeAction action branch path).Leads base x (.ok completed) y) :
    Nonempty (Performance action base branch path x completed y) := by
  rw [executeAction_eq] at h
  obtain ⟨x₁, hentered, hm₁, x₂, hforked, hm₂, h⟩ := h
  rw [hm₁] at hm₂ h
  obtain ⟨output, answered, haction, h⟩ := leads_andThen.1 h
  obtain ⟨completed', kept, hkeep, h⟩ := leads_andThenLift.1 h
  obtain ⟨_, waited, hown, h⟩ := leads_andThen.1 h
  obtain ⟨_, _, hbranch, heq, rfl⟩ := leads_andThen.1 h
  cases heq
  exact ⟨⟨x₂, output, answered, kept, ⟨hentered.trans hforked, hm₂⟩, leads_wrapping.1 haction, hkeep, waited,
    hown.before, waits_of_waitForPending (leads_wrapping.1 hbranch)⟩⟩

namespace Performance

/-- The fork is there when the action has answered. -/
theorem own_there (p : Performance action base branch path x completed y)
    (hb : (x.machine.node? (base ++ branch)).isSome = true) :
    (p.answered.machine.node? (base ++ p.own)).isSome = true := by
  have hown := (get_actionFork hb path).1
  rw [← p.begins.2] at hown
  exact p.answers.before.there hown

/-- **What is said of an action** is what is there, unless that has been overlooked. -/
theorem tells (p : Performance action base branch path x completed y) (hx : History inputs x.past x.machine)
    (hb : (x.machine.node? (base ++ branch)).isSome = true)
    (hthere : p.output.There p.answered.machine (base ++ p.own))
    (hw : p.kept.Without y (Event.Writes (base ++ completed.branch) currentKey)) : p.Tells := by
  obtain ⟨hbranch, hread⟩ := get_of_keepOutput (comesTo_of_leads p.keeps) (p.own_there hb) hthere
  have hkept := p.keeps.before.history (p.answers.before.history (p.begins.1.history hx))
  have hy := p.before.history hkept
  obtain ⟨waited, hsteps, hwaits⟩ := p.waits
  have hready := Moment.ready_of_waits hwaits (hsteps.there hbranch) (hw.right hsteps hwaits.before)
  have hstays := get_of_before p.before hkept hbranch hw
  have hcomes := comesTo_of_leads p.keeps
  refine ⟨fun id hslot => ?_, fun v hv => ?_, fun route hroute => ?_, fun hnone => ?_⟩
  · obtain ⟨⟨generation, slot⟩, hentry, rfl⟩ := Option.map_eq_some_iff.1 hslot
    exact hready generation id hentry
  · have hvalue := value_of_keepOutput hcomes hv
    have hcurrent := hread v hvalue
    refine ⟨hvalue, ?_⟩
    rw [hstays (by rw [hcurrent]; nofun), hcurrent]
  · rw [hroute] at hcomes
    have hvalue := current_of_keepOutput hcomes
    by_cases hpending : p.kept.machine.get (base ++ completed.branch) currentKey = .error (.pendingValue currentKey)
    · rw [hpending] at hvalue
      refine ⟨fun _ => hvalue, ?_⟩
      rw [hvalue]
      unfold Overlooked
      cases y.machine.get (base ++ completed.branch) currentKey with
      | ok v => simp [hpending, Except.toOption]
      | error e => simp [Except.toOption]
    · exact ⟨fun hover => absurd hover.1 hpending, fun _ hover => hpending hover.1, fun _ => by
        rw [hvalue, hstays hpending]⟩
  · rw [hnone] at hcomes
    obtain ⟨hvalue, hown, hstore⟩ := store_of_keepOutput hcomes
    have hanswered : (p.answered.machine.node? (base ++ completed.branch)).isSome = true := by
      rw [hown]
      exact p.own_there hb
    have hsame := congrArg Store.generation (hstore (base ++ completed.branch))
    have hunwritten := p.keeps.before.without_of_generation hsame
    refine ⟨hvalue, ?_⟩
    rw [(lineage_of_history hy).get_eq]
    unfold reading
    rw [Moment.lastWrite_of_without p.before hbranch hw,
      Moment.lastWrite_of_without p.keeps.before hanswered (hunwritten.imp fun e he => ⟨_, he⟩)]

end Performance

/-! ## What is evaluated -/

/-- What `include` answers it has from its action. -/
theorem leads_runInclude {setupWrote : Bool} {r : Route × List (String × Value)}
    (h : (runInclude (some action) setupWrote branch path).Leads base x (.ok r) y) :
    ∃ completed z entries, (executeAction action branch (path.directive "include")).Leads base x (.ok completed) z ∧
      z.Before y ∧ completed.value = some (.map entries) ∧ r.2 = entries.filter fun e => e.1 ≠ currentKey := by
  rw [runInclude_some] at h
  obtain ⟨completed, z, haction, hmerge⟩ := leads_andThen.1 h
  obtain ⟨entries, _, _, hvalue, -, -, rfl⟩ := comesTo_mergeIncluded (comesTo_of_leads hmerge)
  exact ⟨completed, z, entries, haction, hmerge.before, hvalue, rfl⟩

/-- An element with `arrayMap` has one value for each item that its action has answered. -/
theorem leads_evalArrayMap {element : Route → Path → Prog (Except ExecutionError Value)} {values : List Value}
    (h : (evalArrayMap action element branch path).Leads base x (.ok values) y) :
    ∃ completed z items, (executeAction action branch (path.directive "array_map")).Leads base x (.ok completed) z ∧
      z.Before y ∧ sourceItems? completed.value = some items ∧ values.length = items.length := by
  rw [evalArrayMap_eq] at h
  obtain ⟨completed, z, haction, hspread⟩ := leads_andThen.1 h
  refine ⟨completed, z, ?_⟩
  have hbefore := hspread.before
  have hcomes := comesTo_of_leads hspread
  unfold spreadItems at hcomes
  split at hcomes
  · next items hitems =>
    have hlength := (values_of_parallel hcomes).length_eq
    rw [List.length_mapIdx] at hlength
    exact ⟨items, haction, hbefore, hitems, hlength.symm⟩
  · obtain ⟨_, _, _, hr, -⟩ := comesTo_andThenLift.1 hcomes
    cases hr

/-- **What an action is said to have answered.** Whatever surrounds it, an action that has succeeded has gone from its
fork to an answer, which has been kept before the waits; and if nothing is written to the current value while these
last, what is said of it is what is there when they are over, unless that has been overlooked. A leaf, `include` and
`arrayMap` go by what is said. -/
theorem told_of_executeAction (hx : History inputs x.past x.machine)
    (hb : (x.machine.node? (base ++ branch)).isSome = true) :
    (∀ completed y, (executeAction action branch path).Leads base x (.ok completed) y →
      ∃ p : Performance action base branch path x completed y,
        p.output.There p.answered.machine (base ++ p.own) →
          p.kept.Without y (Event.Writes (base ++ completed.branch) currentKey) → p.Tells) ∧
    (∀ v y, (evalLeaf action branch path).Leads base x (.ok v) y → ∃ completed,
      (executeAction action branch path).Leads base x (.ok completed) y ∧ v = leafValue completed) ∧
    (∀ setupWrote r y, (runInclude (some action) setupWrote branch path).Leads base x (.ok r) y →
      ∃ completed z entries, (executeAction action branch (path.directive "include")).Leads base x (.ok completed) z ∧
        z.Before y ∧ completed.value = some (.map entries) ∧ r.2 = entries.filter fun e => e.1 ≠ currentKey) ∧
    ∀ element values y, (evalArrayMap action element branch path).Leads base x (.ok values) y →
      ∃ completed z items, (executeAction action branch (path.directive "array_map")).Leads base x (.ok completed) z ∧
        z.Before y ∧ sourceItems? completed.value = some items ∧ values.length = items.length := by
  refine ⟨fun completed y h => ?_, fun v y h => leads_map.1 h, fun setupWrote r y => leads_runInclude,
    fun element values y => leads_evalArrayMap⟩
  obtain ⟨p⟩ := exists_performance h
  exact ⟨p, p.tells hx hb⟩

/-! ## A branch that is handed back -/

/-- A machine whose first branch has a current value. -/
def valued : Machine := ((Machine.start .blank).perform [] (.set [] currentKey (.string "there"))).2

/-- What is said of an action that hands back its branch is the value that it has there. -/
theorem told_of_returning : (valued.node? ([] ++ [])).isSome = true ∧ ∃ past past' completed m',
    History .blank past valued ∧
      (executeAction returningAction [] .root).Leads [] ⟨past, valued⟩ (.ok completed) ⟨past', m'⟩ ∧
      completed.value = some (.string "there") ∧
      ∃ p : Performance returningAction [] [] .root ⟨past, valued⟩ completed ⟨past', m'⟩, p.Tells := by
  obtain ⟨past, hacts⟩ := acts_perform .start [] (.set [] currentKey (.string "there"))
  obtain ⟨m', hrun, hgeneration⟩ : ∃ m', valued.run (executeAction returningAction [] .root) =
      (some (.ok ⟨[0], some (.string "there"), false⟩), m') ∧ (m'.store [0]).generation = 1 :=
    ⟨_, drive_of_result rfl _, rfl⟩
  obtain ⟨past', -, hleads⟩ := leads_of_run ((steady_start .blank).acts hacts) hrun
  refine ⟨rfl, past, past', _, m', hacts.history, hleads, rfl, ?_⟩
  obtain ⟨p, htells⟩ := (told_of_executeAction hacts.history rfl).1 _ _ hleads
  obtain ⟨houtput, hanswered⟩ : p.output = .context [] ∧ p.answered = p.begun :=
    ⟨Except.ok.inj p.answers.1, p.answers.2⟩
  have hkeeps := comesTo_of_leads p.keeps
  rw [houtput, hanswered, p.begins.2] at hkeeps
  refine ⟨p, htells ?_ ?_⟩
  · rw [houtput, Output.There, List.append_nil]
    exact p.own_there rfl
  · refine (p.before.without_of_generation (hgeneration.trans ?_)).imp fun e he => ⟨_, he⟩
    rw [hkeeps.2]
    rfl

/-- Starts to compute the current value, and hands back its branch. -/
def computingAction (v : Value) : Action := do
  Prog.setFuture [] currentKey (.done (.ok v))
  return .ok (.context [])

/-- The value is there when the action is over, but nothing is said of it, and a leaf shows nothing. -/
theorem overlooked_by_computing :
    (∃ completed m', (Machine.start .blank).run (executeAction (computingAction (.string "there")) [] .root) =
        (some (.ok completed), m') ∧
      completed.value = none ∧ m'.get completed.branch currentKey = .ok (.string "there")) ∧
    ((Machine.start .blank).run ((Template.action (computingAction (.string "there"))).evaluate [])).1 =
      some (.ok .null) := by
  refine ⟨⟨_, _, (drive_of_turn rfl rfl).trans ((drive_of_turn rfl rfl).trans (drive_of_result rfl _)), rfl, rfl⟩, ?_⟩
  exact congrArg Prod.fst ((drive_of_turn rfl rfl).trans ((drive_of_turn rfl rfl).trans (drive_of_result rfl _)))

end MediaQuery
