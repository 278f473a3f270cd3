import MediaQuery.Proofs.Template.Below
import MediaQuery.Proofs.Template.Outcome

/-!
# What the fields of an object find

`setup` leaves a branch, and `include` answers entries that are merged with what this branch holds, for the fields to
find. Under the empty key stands the current value: it is that of the branch if `setup` has answered a value, and else
it is merged like everything else. So whatever surrounds the evaluation of an object, each of its fields begins on a
fork that holds the one or the other (`found_of_directives`), and what `setup` has answered lasts there unless it is
written again (`lasts_of_get`). Whether `setup` has written the current value does not count, but what it has answered
(`included_over_written`).
-/

namespace MediaQuery

open Prog

variable {base branch : Route} {path : Path} {m m' : Machine} {α β : Type}

namespace Machine

variable {a b : Route} {key : String}

/-! ## What a key holds -/

/-- What a key of a branch holds: a value, or a reference to one that is still being computed. -/
def slot? (m : Machine) (a : Route) (key : String) : Option Slot := ((m.store a).find? key).map Entry.slot

theorem slot?_of_store (h : m'.store b = m.store a) (key : String) : m'.slot? b key = m.slot? a key := by
  unfold slot?
  rw [h]

/-- What holds the same reads the same. -/
theorem get_of_slot? (h : m'.slot? b key = m.slot? a key) (ho : m'.outcome = m.outcome) :
    m'.get b key = m.get a key := by
  unfold slot? at h
  unfold get Store.get
  rw [ho]
  cases he : (m.store a).find? key with
  | none =>
    rw [he, Option.map_none, Option.map_eq_none_iff] at h
    rw [h]
  | some e =>
    rw [he, Option.map_some, Option.map_eq_some_iff] at h
    obtain ⟨e', he', hslot⟩ := h
    rw [he']
    obtain ⟨generation, slot⟩ := e
    obtain ⟨generation', slot'⟩ := e'
    cases hslot
    cases slot <;> rfl

theorem get_of_ready {v : Value} (h : m.slot? a key = some (.ready v)) : m.get a key = .ok v := by
  obtain ⟨⟨generation, slot⟩, he, hslot⟩ := Option.map_eq_some_iff.1 h
  cases hslot
  unfold get Store.get
  rw [he]

theorem slot?_write (ha : (m.node? a).isSome = true) (k key : String) (v : Value) :
    (m.modifyStore a fun s => s.write k (.ready v)).slot? a key = if key = k then some (.ready v) else m.slot? a key := by
  unfold slot?
  rw [store_modifyStore ha, if_pos rfl, Store.find?_write]
  split <;> rfl

/-- A fork holds what the branch holds that it is made from. -/
theorem slot?_fork {n : Node} (hn : m.node? a = some n) (path : Path) (key : String) :
    (m.addChild a fun c => c.forkOf (.place path)).2.slot?
      (a ++ [(m.addChild a fun c => c.forkOf (.place path)).1]) key = m.slot? a key := by
  refine slot?_of_store ?_ key
  rw [addChild_position hn, store_fork hn, if_pos rfl, store_of_node? hn]
  rfl

theorem there_fork (ha : (m.node? a).isSome = true) (options : ForkOptions) :
    ((m.addChild a fun c => c.forkOf options).2.node?
      (a ++ [(m.addChild a fun c => c.forkOf options).1])).isSome = true := by
  obtain ⟨n, hn⟩ := Option.isSome_iff_exists.1 ha
  rw [addChild_position hn, node?_fork hn, if_neg (by simp), if_pos rfl]
  rfl

/-! ## Values that are not written again -/

/-- A machine has come of another one without anything being written to a key of a branch. -/
inductive Unwritten (a : Route) (key : String) (past : List Event) (m : Machine) : List Event → Machine → Prop
  | refl : Unwritten a key past m past m
  | step {past' : List Event} {m' m'' : Machine} {e : Event} (h : Unwritten a key past m past' m')
      (hs : m'.Step past' e m'') (he : ¬ e.Writes a key) : Unwritten a key past m (e :: past') m''

/-- A key reads as a value, and goes on to do so on another machine if nothing is written to it until then. -/
def Lasts (m m' : Machine) (a : Route) (key : String) (v : Value) : Prop :=
  m.get a key = .ok v ∧
    ∀ inputs past past', History inputs past m → Unwritten a key past m past' m' → m'.get a key = .ok v

/-- A value stays until something is written in its place. -/
theorem get_of_unwritten {inputs : Inputs} {past past' : List Event} {v : Value} (h : History inputs past m)
    (ha : (m.node? a).isSome = true) (hv : m.get a key = .ok v) (hm : Unwritten a key past m past' m') :
    History inputs past' m' ∧ (m'.node? a).isSome = true ∧ m'.get a key = .ok v := by
  induction hm with
  | refl => exact ⟨h, ha, hv⟩
  | @step past' m' m'' e _ hs he ih =>
    obtain ⟨h', ha', hv'⟩ := ih
    have hlineage := lineage_of_history h'
    obtain ⟨hf, ho⟩ := not_made_of_there hs ha'
    refine ⟨.step h' hs, there_step hs ha', ?_⟩
    rw [(lineage_step hlineage hs).get_eq, reading_cons he (fun id result hlast heq => ?_) hf ho, ← hlineage.get_eq,
      hv']
    -- the value is that of a future, which ends once
    rw [hlineage.get_eq, reading, hlast, Write.read, ← hlineage.roster.endings] at hv'
    cases hs with
    | finish result' hfuture hr =>
      cases heq
      rw [hfuture, Option.bind_some, hr] at hv'
      cases hv'
    | _ => cases heq

theorem lasts_of_get {v : Value} (ha : (m.node? a).isSome = true) (hv : m.get a key = .ok v) (m' : Machine) :
    m.Lasts m' a key v :=
  ⟨hv, fun _ _ _ h hm => (get_of_unwritten h ha hv hm).2.2⟩

end Machine

/-! ## Actions -/

theorem comesTo_wrapping {own : Route} {p : Prog (Except EvalError α)} {answer : α} :
    (Prog.wrapping own path p).ComesTo base m (.ok answer) m' ↔ p.ComesTo base m (.ok answer) m' := by
  refine comesTo_bind.trans ⟨?_, fun h => ⟨_, _, h, rfl, rfl⟩⟩
  rintro ⟨r, m₁, hp, hr⟩
  cases r with
  | ok answer' =>
    obtain ⟨heq, rfl⟩ := hr
    cases heq
    exact hp
  | error e =>
    obtain ⟨_, _, _, heq, -⟩ := comesTo_bind.1 hr
    cases heq

/-- The fork of a branch on which an action begins, and the machine on which it does so. -/
def actionFork (base branch : Route) (path : Path) (m : Machine) : Route × Machine :=
  let forked := (m.enter (base ++ branch) path).addChild (base ++ branch) fun c => c.forkOf (.place path)
  (branch ++ [forked.1], forked.2)

/-- It holds what the branch holds. -/
theorem get_actionFork (hb : (m.node? (base ++ branch)).isSome = true) (path : Path) :
    ((actionFork base branch path m).2.node? (base ++ (actionFork base branch path m).1)).isSome = true ∧
      ∀ key, (actionFork base branch path m).2.get (base ++ (actionFork base branch path m).1) key =
        m.get (base ++ branch) key := by
  have hentered := (Machine.evolves_enter m (base ++ branch) path).isSome hb
  obtain ⟨n, hn⟩ := Option.isSome_iff_exists.1 hentered
  have hstore := Machine.store_enter m (base ++ branch) (base ++ branch) path
  rw [actionFork, ← List.append_assoc]
  refine ⟨Machine.there_fork hentered _, fun key => ?_⟩
  exact Machine.get_of_slot? ((Machine.slot?_fork hn path key).trans (Machine.slot?_of_store hstore key)) rfl

/-- An action that has succeeded has answered on its fork, and its answer has been kept. -/
theorem comesTo_executeAction {action : Action} {completed : Completed}
    (h : (executeAction action branch path).ComesTo base m (.ok completed) m') :
    ∃ output answered kept, (action.on (actionFork base branch path m).1).ComesTo base
        (actionFork base branch path m).2 (.ok output) answered ∧
      (keepOutput (actionFork base branch path m).1 output).ComesTo base answered completed kept ∧
        kept.Evolves m' := by
  rw [executeAction_eq] at h
  obtain ⟨output, answered, haction, h⟩ := comesTo_andThen.1 h
  obtain ⟨completed', kept, hkeep, h⟩ := comesTo_andThenLift.1 h
  have hevolves := h.evolves
  obtain ⟨_, _, -, h⟩ := comesTo_andThen.1 h
  obtain ⟨_, _, -, heq, -⟩ := comesTo_andThen.1 h
  cases heq
  exact ⟨output, answered, kept, comesTo_wrapping.1 haction, hkeep, hevolves⟩

/-- The branch that an output goes on with is there. -/
def Output.There (m : Machine) (own : Route) : Output → Prop
  | .context route => (m.node? (own ++ route)).isSome = true
  | _ => True

/-- An output that counts as a value is the current value of the branch to go on with, once it has been kept. -/
theorem get_of_keepOutput {own : Route} {output : Output} {completed : Completed}
    (h : (keepOutput own output).ComesTo base m completed m') (hown : (m.node? (base ++ own)).isSome = true)
    (hthere : output.There m (base ++ own)) : (m'.node? (base ++ completed.branch)).isSome = true ∧
      ∀ v, completed.value = some v → m'.get (base ++ completed.branch) currentKey = .ok v := by
  have hgrows := h.evolves
  have hset (v : Value) : ((m.perform base (.record own (some v))).2.perform base (.set own currentKey v)).2.get
      (base ++ own) currentKey = .ok v := by
    refine Machine.get_of_ready ?_
    rw [Machine.perform, Machine.slot?_write ((Machine.evolves_perform m base _).isSome hown), if_pos rfl]
  cases output with
  | value v =>
    obtain ⟨rfl, rfl⟩ := h
    exact ⟨hgrows.isSome hown, fun w hw => Option.some.inj hw ▸ hset v⟩
  | raw v =>
    obtain ⟨rfl, rfl⟩ := h
    exact ⟨hgrows.isSome hown, fun w hw => Option.some.inj hw ▸ hset v⟩
  | context route =>
    obtain ⟨rfl, rfl⟩ := h
    have hroute : (m.node? (base ++ (own ++ route))).isSome = true := by
      rw [← List.append_assoc]
      exact hthere
    have hread {r : Except ContextError Value} {v : Value} (hr : r.toOption = some v) : r = .ok v := by
      cases r with
      | ok w => exact congrArg Except.ok (Option.some.inj hr)
      | error e => cases hr
    exact ⟨hgrows.isSome hroute, fun v hv => hread hv⟩
  | undefined =>
    obtain ⟨rfl, rfl⟩ := h
    exact ⟨hgrows.isSome hown, fun v hv => by cases hv⟩

/-! ## The directives of an object -/

/-- What setting several keys leaves in each. -/
theorem comesTo_setAll {values : List (String × Value)} (h : (setAll branch values).ComesTo base m () m')
    (ha : (m.node? (base ++ branch)).isSome = true) (key : String) :
    m'.slot? (base ++ branch) key =
      ((values.reverse.lookup key).map Slot.ready).or (m.slot? (base ++ branch) key) := by
  induction values generalizing m with
  | nil =>
    obtain ⟨-, rfl⟩ := h
    rfl
  | cons e rest ih =>
    have hnext : (setAll branch rest).ComesTo base (m.perform base (.set branch e.1 e.2)).2 () m' := h
    rw [ih hnext ((Machine.evolves_perform m base _).isSome ha), Machine.perform, Machine.slot?_write ha,
      List.reverse_cons, List.lookup_append]
    obtain ⟨k, v⟩ := e
    rw [Fields.lookup_cons]
    cases rest.reverse.lookup key with
    | some w => rfl
    | none =>
      simp only [Option.none_or, Option.map_none]
      split <;> rfl

theorem lookup_filter_name (p : String → Bool) (fields : List (String × α)) (key : String) :
    (fields.filter fun e => p e.1).lookup key = if p key then fields.lookup key else none := by
  induction fields with
  | nil => simp
  | cons e rest ih =>
    obtain ⟨k, v⟩ := e
    rw [List.filter_cons, Fields.lookup_cons]
    by_cases hk : key = k
    · subst hk
      cases hp : p key with
      | true => simp
      | false => simp [ih, hp]
    · cases hp : p k with
      | true => simp [Fields.lookup_cons, hk, ih]
      | false => simp [hk, ih]

/-- What the fields of an object find under a key, where the given has become of `setup`, and `include` has answered
the entries: the current value of a branch that has answered is its own, everything else that has been included is
found, and what is left is that of the branch. -/
def found (m : Machine) (base : Route) (setUp : Completed) (entries : List (String × Value)) (key : String) :
    Option Slot :=
  if key = currentKey ∧ setUp.value.isSome then m.slot? (base ++ setUp.branch) key
  else ((entries.reverse.lookup key).map Slot.ready).or (m.slot? (base ++ setUp.branch) key)

/-- What include has answered is found on the branch of the fields. -/
theorem found_of_mergeIncluded {setUp included : Completed} {r : Route × List (String × Value)}
    (h : (mergeIncluded setUp.value.isSome setUp.branch path included).ComesTo base m (.ok r) m')
    (ha : (m.node? (base ++ setUp.branch)).isSome = true) :
    ∃ entries, included.value = some (.map entries) ∧ (m'.node? (base ++ r.1)).isSome = true ∧
      ∀ key, m'.slot? (base ++ r.1) key = found m base setUp entries key := by
  obtain ⟨entries, merged, m₁, hvalue, hfork, hset, rfl⟩ := comesTo_mergeIncluded h
  obtain ⟨rfl, rfl⟩ := hfork
  obtain ⟨n, hn⟩ := Option.isSome_iff_exists.1 ha
  have hmerged := Machine.there_fork ha (.place path)
  have hsame := Machine.slot?_fork hn path
  rw [List.append_assoc] at hmerged
  refine ⟨entries, hvalue, hset.evolves.isSome hmerged, fun key => ?_⟩
  have hfilter := lookup_filter_name (fun k => !(k == currentKey && setUp.value.isSome)) entries.reverse key
  rw [List.filter_reverse] at hfilter
  rw [comesTo_setAll hset hmerged, hfilter, ← List.append_assoc]
  unfold found
  by_cases hkey : key = currentKey ∧ setUp.value.isSome
  · have hdropped : (!(key == currentKey && setUp.value.isSome)) = false := by simp [hkey]
    rw [if_pos hkey, hdropped, if_neg Bool.false_ne_true]
    exact hsame key
  · have hkept : (!(key == currentKey && setUp.value.isSome)) = true := by
      rcases not_and_or.1 hkey with hkey | hnone
      · simp [hkey]
      · simp [hnone]
    rw [if_neg hkey, hkept, if_pos rfl]
    exact congrArg (Option.or _) (hsame key)

/-! ## Fields -/

/-- A program ends at once, or it goes on, maybe after some entries of the log, on a fork of the branch that holds the
given under each key. -/
inductive Finds (base branch : Route) (holds : String → Option Slot) : Prog α → Machine → Prop
  | done (a : α) (m : Machine) : Finds base branch holds (.done a) m
  | fork {path : Path} {k : Nat → Prog α} {m : Machine} (h : ∀ key,
      (m.perform base (.fork branch (.place path))).2.slot?
        (base ++ branch ++ [(m.perform base (.fork branch (.place path))).1]) key = holds key) :
      Finds base branch holds (.act (.fork branch (.place path)) k) m
  | enter {path : Path} {p : Prog α} {m : Machine}
      (h : Finds base branch holds p (m.perform base (.enter branch path)).2) :
      Finds base branch holds (.act (.enter branch path) fun _ => p) m

theorem finds_of_nests {holds : String → Option Slot} {p : Prog α} (h : Nests base branch p)
    (ha : (m.node? (base ++ branch)).isSome = true) (hm : ∀ key, m.slot? (base ++ branch) key = holds key) :
    Finds base branch holds p m := by
  induction h generalizing m with
  | done a => exact .done a m
  | fork path _ =>
    obtain ⟨n, hn⟩ := Option.isSome_iff_exists.1 ha
    exact .fork fun key => (Machine.slot?_fork hn path key).trans (hm key)
  | enter path _ ih =>
    refine .enter (ih ((Machine.evolves_perform m base (.enter branch path)).isSome ha) fun key => ?_)
    exact (Machine.slot?_of_store (Machine.store_enter m _ _ path) key).trans (hm key)

/-- The machine on which one of several programs starts side by side, after those before it. -/
def startingAt (base : Route) (parts : List (Prog (Except ExecutionError β))) (i : Nat) (m : Machine) : Machine :=
  (sweep (fun j m => (parts.get j).start base m) ((List.finRange parts.length).take i) m).2

/-- How an object has got to its fields: its `setup` has answered on a fork of its own, the answer has been kept, and
then `include` has answered entries to be merged with what the branch of `setup` holds. -/
structure Preparation (setup include? : Action) (base branch : Route) (path : Path) (m : Machine) where
  output : Output
  answered : Machine
  setUp : Completed
  kept : Machine
  entries : List (String × Value)
  merging : Machine
  answers : (setup.on (actionFork base branch (path.directive "setup") m).1).ComesTo base
    (actionFork base branch (path.directive "setup") m).2 (.ok output) answered
  keeps : (keepOutput (actionFork base branch (path.directive "setup") m).1 output).ComesTo base answered setUp kept
  includes : ∃ later included, kept.Evolves later ∧
    (executeAction include? setUp.branch (path.directive "include")).ComesTo base later (.ok included) merging ∧
    included.value = some (.map entries)

namespace Preparation

variable {setup include? : Action}

/-- The fork on which `setup` runs. -/
def own (_ : Preparation setup include? base branch path m) : Route :=
  (actionFork base branch (path.directive "setup") m).1

/-- The machine on which it begins there. -/
def begun (_ : Preparation setup include? base branch path m) : Machine :=
  (actionFork base branch (path.directive "setup") m).2

end Preparation

/-- **What the fields of an object find.** Whatever surrounds the evaluation of an object with `setup` and `include`:

* the fork of `setup` holds what the branch of the object holds, and each value lasts there unless its key is written;
* if `setup` has answered a value, or a branch that has a current value, this is the current value of the branch that
  it leaves, and lasts there unless it is written again;
* every field begins on a fork that holds, as its current value, that of the branch of `setup` if `setup` has answered,
  and else, as under every other key, what `include` has answered or, failing this, what the branch of `setup` holds. -/
theorem found_of_directives {setup include? : Action} {arrayMap : Option Action} {r : Route × List (String × Value)}
    (hb : (m.node? (base ++ branch)).isSome = true)
    (h : (Directives.run ⟨some setup, some include?, arrayMap⟩ branch path).ComesTo base m (.ok r) m') :
    ∃ p : Preparation setup include? base branch path m,
      (∀ key v, m.get (base ++ branch) key = .ok v → p.begun.Lasts p.merging (base ++ p.own) key v) ∧
      (p.output.There p.answered (base ++ p.own) →
        (∀ v, p.setUp.value = some v → p.kept.Lasts p.merging (base ++ p.setUp.branch) currentKey v) ∧
        ∀ (fields : List (String × Template)) (i : Nat) (hi : i < (evalFields fields r.1 path).length),
          Finds base r.1 (found p.merging base p.setUp p.entries) (evalFields fields r.1 path)[i]
            (startingAt base (evalFields fields r.1 path) i m')) := by
  obtain ⟨s, later, hsetup, hinclude⟩ := comesTo_andThen.1 h
  obtain ⟨setUp, hexecute, rfl⟩ := comesTo_runSetup hsetup
  obtain ⟨output, answered, kept, hanswers, hkeeps, hlater⟩ := comesTo_executeAction hexecute
  obtain ⟨included, merging, hincluded, hmerge⟩ := comesTo_runInclude hinclude
  obtain ⟨entries, -, -, hvalue, -⟩ := comesTo_mergeIncluded hmerge
  obtain ⟨hown, hinherited⟩ := get_actionFork hb (path.directive "setup")
  refine ⟨⟨output, answered, setUp, kept, entries, merging, hanswers, hkeeps, later, included, hlater, hincluded, hvalue⟩,
    fun key v hv => Machine.lasts_of_get hown ((hinherited key).trans hv) merging, fun hthere => ?_⟩
  obtain ⟨hkept, hcurrent⟩ := get_of_keepOutput hkeeps (hanswers.evolves.isSome hown) hthere
  refine ⟨fun v hv => Machine.lasts_of_get hkept (hcurrent v hv) merging, fun fields i hi => ?_⟩
  have hmerging := hincluded.evolves.isSome (hlater.isSome hkept)
  obtain ⟨entries', hvalue', hbranch, hfound⟩ := found_of_mergeIncluded hmerge hmerging
  cases hvalue.symm.trans hvalue'
  have hnests : ∀ p ∈ evalFields fields r.1 path, Nests base r.1 p := nests_evalFields fields
  have hstarts (j : Fin (evalFields fields r.1 path).length) := hnests _ (List.get_mem _ j)
  refine finds_of_nests (hnests _ (List.getElem_mem hi)) ?_ fun key => ?_
  · exact (Machine.evolves_sweep (fun j m => Machine.evolves_start _ base m) _ m').isSome hbranch
  · exact (Machine.slot?_of_store (Machine.store_sweep_of_nests hstarts _ m') key).trans (hfound key)

/-! ## Answers and writes -/

/-- Answers a value. -/
def answeringAction (v : Value) : Action := return .ok (.value v)

/-- Makes a value the current one and answers nothing. -/
def writingAction (v : Value) : Action := do
  Prog.set [] currentKey v
  return .ok .undefined

/-- Hands back its own branch. -/
def returningAction : Action := return .ok (.context [])

/-- Answers the current value. -/
def readingAction : Action := do
  return ((← Prog.current []).map Output.value).mapError EvalError.context

/-- Directives of which `include` answers a current value of its own. -/
def includingCurrent (setup : Action) : Directives :=
  ⟨some setup, some (answeringAction (.map [(currentKey, .string "included")])), none⟩

/-- Where `setup` answers a value, the fields find that. -/
theorem found_beside_answer :
    ((Machine.start .blank).node? ([] ++ [])).isSome = true ∧
      ∃ r m', ((includingCurrent (answeringAction (.string "own"))).run [] .root).ComesTo [] (.start .blank) (.ok r) m' ∧
        ∃ (p : Preparation (answeringAction (.string "own"))
            (answeringAction (.map [(currentKey, .string "included")])) [] [] .root (.start .blank)),
          p.kept.Lasts p.merging ([] ++ p.setUp.branch) currentKey (.string "own") ∧
          ∀ (fields : List (String × Template)) (i : Nat) (hi : i < (evalFields fields r.1 .root).length),
            Finds [] r.1 (found p.merging [] p.setUp p.entries) (evalFields fields r.1 .root)[i]
              (startingAt [] (evalFields fields r.1 .root) i m') := by
  have hrun : (Machine.start .blank).run ((includingCurrent (answeringAction (.string "own"))).run [] .root) =
      (some (.ok _), _) := Machine.drive_of_result rfl _
  have hcomes := Machine.comesTo_of_run hrun
  obtain ⟨p, -, hfields⟩ := found_of_directives (show ((Machine.start .blank).node? ([] ++ [])).isSome = true from rfl)
    hcomes
  have houtput : p.output = .value (.string "own") := Except.ok.inj p.answers.1
  have hvalue : p.setUp.value = some (.string "own") := by
    have hkeeps := p.keeps
    rw [houtput] at hkeeps
    rw [hkeeps.1]
  obtain ⟨hlasts, hfinds⟩ := hfields (by rw [houtput]; trivial)
  exact ⟨rfl, _, _, hcomes, p, hlasts _ hvalue, hfinds⟩

/-- Where `setup` only writes the current value, the fields find what has been included over it; and where it hands back
its branch, they find a current value that it has not written over what has been included. -/
theorem included_over_written :
    ((Machine.start .blank).run ((Template.object (includingCurrent (writingAction (.string "own")))
        [("x", .action readingAction)]).evaluate [])).1 = some (.ok (.map [("x", .string "included")])) ∧
      (((Machine.start .blank).perform [] (.set [] currentKey (.string "inherited"))).2.run
        ((Template.object (includingCurrent returningAction) [("x", .action readingAction)]).evaluate [])).1 =
          some (.ok (.map [("x", .string "inherited")])) :=
  ⟨congrArg Prod.fst (Machine.drive_of_result rfl _), congrArg Prod.fst (Machine.drive_of_result rfl _)⟩

end MediaQuery
