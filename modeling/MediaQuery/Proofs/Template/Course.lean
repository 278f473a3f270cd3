import MediaQuery.Proofs.Machine.Course
import MediaQuery.Proofs.Template.Calm
import MediaQuery.Proofs.Template.Local

/-!
# Courses of templates

The course of a template says how its evaluation goes, given what a branch offers and the time (`courseTemplate`). Each
action goes on a fork of its own, as on a machine of its own (`courseAction`); the directives of an object and its
fields go one after another, fields, elements and items side by side. The evaluation goes as the course says
(`follows_evalTemplate`).
-/

namespace MediaQuery

open Machine

/-! ## Actions -/

/-- What an action has left on a machine of its own. -/
def Machine.left (m : Machine) (completed : Completed) : After Completed :=
  ⟨completed, m.setting completed.branch, m.clock, m.tree.sessionRoute completed.branch = []⟩

/-- How an action goes on a fork of its own. -/
def courseAlone (action : Action) (path : Path) (g : Setting) (t : Nat) : Course (After Completed) :=
  { story := story [] (actOn action [] path) (g.alone path t)
    value? :=
      match (g.alone path t).run (actOn action [] path) with
      | (some (.ok completed), m) => some (m.left completed)
      | _ => none }

/-- How an action goes that is entered in the log first. -/
def courseAction (action : Action) (path : Path) (g : Setting) (t : Nat) : Course (After Completed) :=
  (courseAlone action path g t).entering t [path]

/-- How an action goes in the place of a value. -/
def courseLeaf (action : Action) (path : Path) (g : Setting) (t : Nat) : Course Value :=
  (courseAction action path g t).map fun a => leafValue a.value

/-! ## Objects -/

/-- How `setup` goes: whether it has answered a value. -/
def courseSetup (setup : Option Action) (path : Path) (g : Setting) (t : Nat) : Course (After Bool) :=
  match setup with
  | none => .value ⟨false, g, t, true⟩
  | some action => (courseAction action (path.directive "setup") g t).map (After.map fun c => c.value.isSome)

/-- How `include` goes once its action has answered: the entries that go into the object. All of them are set on a fork
of the branch before, but for the current value that `setup` has answered. -/
def courseMerge (setupWrote : Bool) (path : Path) (completed : Completed) (g : Setting) (t : Nat) :
    Course (After (List (String × Value))) :=
  match completed.value with
  | some (.map entries) =>
    .value ⟨entries.filter fun e => e.1 ≠ currentKey,
      g.writeAll (entries.filter fun e => !(e.1 == currentKey && setupWrote)), t, true⟩
  | other => .failure t ((EvalError.invalidInclude (foundKind other)).wrap (path.directive "include") [] [])

/-- How `include` goes. -/
def courseInclude (action? : Option Action) (setupWrote : Bool) (path : Path) (g : Setting) (t : Nat) :
    Course (After (List (String × Value))) :=
  match action? with
  | none => .value ⟨[], g, t, true⟩
  | some action => (courseAction action (path.directive "include") g t).andThen fun a =>
    courseMerge setupWrote path a.value g a.instant

/-- How an object goes: `setup`, then `include`, then the fields side by side. -/
def courseObject (directives : Directives) (keys : List String) (fields : Setting → Nat → List (Course Value))
    (path : Path) (g : Setting) (t : Nat) : Course Value :=
  (courseSetup directives.setup path g t).goOn fun setupWrote g t =>
    (courseInclude directives.include? setupWrote path g t).goOn fun included g t =>
      (Course.all (fields g t)).map fun values => .map (assemble included (keys.zip values))

/-- How the items of the collection go that `arrayMap` has answered: side by side, each as the current value. -/
def courseSpread (element : Path → Setting → Nat → Course Value) (path : Path) (completed : Completed) (g : Setting)
    (t : Nat) : Course (List Value) :=
  match sourceItems? completed.value with
  | some items =>
    .all (items.mapIdx fun i item => element (path.child (.index i)) (g.write currentKey item) t)
  | none =>
    .failure t ((EvalError.invalidArrayMapSource (foundKind completed.value)).wrap (path.directive "array_map") [] [])

/-- How an element with `arrayMap` goes: its action, and then the items. -/
def courseArrayMap (action : Action) (element : Path → Setting → Nat → Course Value) (path : Path) (g : Setting)
    (t : Nat) : Course (List Value) :=
  (courseAction action (path.directive "array_map") g t).goOn (courseSpread element path)

/-! ## Templates -/

mutual

/-- How a template goes. -/
def courseTemplate : Template → Path → Setting → Nat → Course Value
  | .scalar v, _, _, _ => .value v
  | .action action, path, g, t => courseLeaf action path g t
  | .object directives fields, path, g, t =>
    courseObject directives (fields.map fun e => outputKey e.1) (courseFields fields path) path g t
  | .list items, path, g, t =>
    (Course.all (courseItems items path 0 g t)).map fun values => .list (flattenItems values)

/-- How the fields of an object go. -/
def courseFields : List (String × Template) → Path → Setting → Nat → List (Course Value)
  | [], _, _, _ => []
  | (key, template) :: rest, path, g, t =>
    courseTemplate template (path.child (.key (outputKey key))) g t :: courseFields rest path g t

/-- How the elements of a list go, the first of which has the given position. -/
def courseItems : List Template → Path → Nat → Setting → Nat → List (Course (List Value))
  | [], _, _, _, _ => []
  | template :: rest, path, i, g, t =>
    (match template with
      | .object ⟨setup, include?, some arrayMap⟩ fields =>
        courseArrayMap arrayMap
          (fun path => courseObject ⟨setup, include?, none⟩ (fields.map fun e => outputKey e.1)
            (courseFields fields path) path)
          (path.child (.index i)) g t
      | template => (courseTemplate template (path.child (.index i)) g t).map ([·])) ::
      courseItems rest path (i + 1) g t

end

/-! ## What actions leave -/

variable {m m₀ : Machine} {s b : Route} {g : Setting} {t : Nat} {action : Action}

theorem Setting.plain_alone (hpending : g.store.pending = []) (path : Path) (t : Nat) : (g.alone path t).Plain := by
  intro a
  cases a with
  | nil => exact hpending
  | cons i a => rfl

section Actions

variable (hblind : action.Blind) (hcalm : action.Calm) (hlocal : action.Local) (path : Path)
include hcalm hlocal

/-- A branch that an action has handed back is there, and how things stand there is known. -/
theorem stands_left (hpending : g.store.pending = []) {completed : Completed} {l : Machine}
    (hrun : (g.alone path t).run (actOn action [] path) = (some (.ok completed), l)) :
    l.Stands (l.tree.sessionRoute completed.branch) completed.branch (l.setting completed.branch) l.clock := by
  have hstands := stands_alone hpending path t
  have hp : (actOn action [] path).Calm := calm_actOn hcalm [] path
  have hrested := rested_of_run hp hstands.vacant.rest hrun
  have hthere := local_run_of_calm (Q := fun T => IfOk fun c => T c.branch) hp hstands.vacant.rest
    (fun T hT => (hlocal.within T).actOn (hT [] rfl) path) (.ok completed) (congrArg Prod.fst hrun)
    (fun a => (l.node? a).isSome = true) (by rw [hrun]; exact fun _ ha => ha) completed rfl
  exact ⟨hstands.vacant.rested hrested, hthere, rfl, hrested.plain (g.plain_alone hpending path t) _, rfl, rfl⟩

/-- What an action has left on a machine of its own. -/
theorem leaves_left (hpending : g.store.pending = []) {completed : Completed} {l : Machine}
    (hrun : (g.alone path t).run (actOn action [] path) = (some (.ok completed), l)) :
    Leaves [] (g.alone path t) completed.branch l (l.left completed) := by
  have hstands := stands_left hcalm hlocal path hpending hrun
  have hrested := rested_of_run (calm_actOn hcalm [] path) (stands_alone hpending path t).vacant.rest hrun
  refine ⟨fun a ha => (hrested.heads a ha).1, _, hstands, ?_⟩
  unfold left
  cases hroute : l.tree.sessionRoute completed.branch with
  | nil => simp
  | cons i r => simpa [Setting.alone] using node?_lone_cons i r

/-- **An action on a machine of its own goes as its course says.** -/
theorem goes_alone (hpending : g.store.pending = []) :
    Goes [] (g.alone path t) (actOn action [] path) (g.alone path t)
      (fun c m a => a.value = c ∧ Leaves [] (g.alone path t) c.branch m a) (courseAlone action path g t) := by
  have hp : (actOn action [] path).Calm := calm_actOn hcalm [] path
  have hstands := stands_alone hpending path t
  obtain ⟨r, l, hrun, -⟩ := run_of_calm hp hstands.vacant.rest
  refine ⟨(story_chronological [] hp hstands.vacant.rest).symm, story_early [] hp hstands.vacant.rest, r, l, hrun, ?_,
    fun a ha hthere => ?_⟩
  · unfold courseAlone
    rw [hrun]
    cases r with
    | ok completed => exact .ok ⟨rfl, leaves_left hcalm hlocal path hpending hrun⟩
    | error e => exact .error
  · cases a with
    | nil => exact absurd rfl ha
    | cons i a => cases hthere

include hblind

/-- **An action on a fork goes as its course says.** The branch it has been run on stays as it was. -/
theorem goes_executeAction (h : m.Stands s b g t) (hgrows : m₀.Grows m) :
    Goes s m₀ (executeAction action b path) m
      (fun c m' a => ((c.value = a.value.value ∧ c.raw = a.value.raw) ∧ m'.Stands s b g a.instant) ∧
        Leaves s m₀ c.branch m' a) (courseAction action path g t) := by
  obtain ⟨n, hn, hstore, hinputs⟩ := h.node
  have hq : (actOn action [] path).Calm := calm_actOn hcalm [] path
  have hp : (executeAction action b path).Calm := calm_executeAction hcalm b path
  obtain ⟨r, m', r', l', hrun, hlone, hresult, hhoused, hspared, hstory⟩ :=
    run_of_lodges (lodges_execute hblind b path) h.vacant hn (hstore ▸ h.pending) hp hq
  have hrested := rested_of_run hp h.vacant.rest hrun
  rw [h.route] at hhoused hspared hstory
  rw [hinputs, h.clock, Setting.lone_forkNode hstore] at hlone hstory
  have halone := goes_alone (t := t) hcalm hlocal path h.pending
  refine ⟨?_, fun x hx => ?_, _, m', hrun, ?_, fun a has ha => hspared.logs a has (hgrows a ha)⟩
  · rw [hstory]
    exact (congrArg (entries t [path] ++ ·) halone.story).trans (upToFailure_entries (t := t) [path] halone.early).symm
  · rcases List.mem_append.1 hx with hx | hx
    · rw [h.clock, (of_mem_entries hx).1]
    · exact h.clock ▸ halone.early x hx
  · unfold courseAction Course.entering courseAlone
    rw [hlone]
    cases hresult with
    | @ok c c' hc =>
      have hl := stands_left hcalm hlocal path h.pending hlone
      have hclock : m'.clock = l'.clock := hhoused.clock_eq
      have hbranch := hl.housed hhoused.hosts hhoused.linked (h.vacant.rested hrested)
      rw [← hc.branch] at hbranch
      refine .ok ⟨⟨⟨hc.value, hc.raw⟩, ?_⟩, fun a ha => (hrested.heads a (hgrows a ha)).1, _, hbranch, ?_⟩
      · have hsame := h.spared hspared hrested
        rwa [hclock] at hsame
      · unfold left
        cases hroute : l'.tree.sessionRoute c'.branch with
        | nil => simp
        | cons i r =>
          rw [if_neg (by simp), if_neg (by simp)]
          rw [← Option.not_isSome_iff_eq_none]
          intro hold
          have hthere := hgrows _ hold
          rw [node?_append_of_none (node?_next hn)] at hthere
          cases hthere
    | error he => exact .error

end Actions

end MediaQuery
