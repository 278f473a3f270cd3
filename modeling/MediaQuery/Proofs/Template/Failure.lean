import MediaQuery.Proofs.Template.Faithful

/-!
# Which failure ends an evaluation

An evaluation whose actions suspend only by sleeping comes to what its course says (`first_failure_wins`). It fails
exactly if there is a failure in the course, which has those of the actions that are reached and of the results of
`include` and `arrayMap` that are rejected. The failure reported is the one of the least instant, and of those of one
instant the first one in the order of the template. What has been started by then is what precedes it.
-/

namespace MediaQuery

namespace Machine

variable {inputs : Inputs} {past : List Event} {m : Machine} {b : Route}

/-- **The first failure of an evaluation ends it.** -/
theorem first_failure_wins (hs : Steady inputs past m) (hm : m.Resting) (hb : (m.node? b).isSome = true)
    (hpending : (m.store b).pending = []) {template : Template} (hplaced : template.misplaced? (m.path b) = none)
    (hblind : template.Blind) (hcalm : template.Calm) (hlocal : template.Every Action.Local) :
    ∃ r m' paths, m.run (template.evaluate b) = (some r, m') ∧
      ((∃ e, r = .error e) ↔
        ∃ x ∈ (courseTemplate template (m.path b) (m.setting b) m.clock).story, x.2.isFailure = true) ∧
      (courseTemplate template (m.path b) (m.setting b) m.clock).Ends r m'.clock paths ∧
      (m'.session b).log = (m.session b).log ++ paths := by
  have hstands : m.Stands (m.tree.sessionRoute b) b (m.setting b) m.clock :=
    ⟨vacant_of_steady hs hm, hb, rfl, hpending, rfl, rfl⟩
  have hp : (evalTemplate template b (m.path b)).Calm := calm_evalTemplate template hcalm b (m.path b)
  have hgoes := follows_evalTemplate template hblind hcalm hlocal (m.path b) hstands (fun _ ha => ha)
    hstands.session_there
  obtain ⟨r, m', paths, hrun, hends, hlog⟩ := hgoes.comes_to hp hm
  have hrested := rested_of_run hp hm hrun
  refine ⟨r, m', paths, (run_evaluate hplaced).trans hrun, hends.fails_iff, hends, ?_⟩
  rw [log_session, log_session, hrested.heads.sessionRoute hb, hlog]

end Machine

/-! ## Two siblings that fail -/

/-- Fails after some time. -/
def failingAfter (ms : Nat) (text : String) : Action := do
  Prog.pause ms
  return .error (.action text [])

theorem blind_failingAfter (ms : Nat) (text : String) : (failingAfter ms text).Blind :=
  .sleep ms (.done (.error (EvalError.like_refl _)))

theorem local_failingAfter (ms : Nat) (text : String) : (failingAfter ms text).Local :=
  fun _ _ _ => .sleep (.done nofun)

/-- How such an action goes. -/
theorem courseLeaf_failingAfter {g : Setting} (hpending : g.store.pending = []) (ms : Nat) (text : String) (path : Path)
    (t : Nat) : courseLeaf (failingAfter ms text) path g t =
      ⟨[(t, .entered path), (t + ms, .failed ((EvalError.action text []).wrap path [] []))], none⟩ := by
  have hrest := (Machine.stands_alone hpending path t).vacant.rest
  have haction : (failingAfter ms text).Calm := trivial
  have hcalm : (actOn (failingAfter ms text) [] path).Calm := calm_actOn haction [] path
  have hsleep : (g.alone path t).run (actOn (failingAfter ms text) [] path) =
      { g.alone path t with clock := t + ms }.run (actOn (.done (.error (.action text []))) [] path) :=
    Machine.run_sleep hrest ms hcalm
  have hrun : (g.alone path t).run (actOn (failingAfter ms text) [] path) =
      (some (.error ((EvalError.action text []).wrap path [] [])), { g.alone path t with clock := t + ms }) :=
    hsleep.trans (Machine.drive_of_result rfl _)
  unfold courseLeaf courseAction courseAlone
  rw [Machine.story_silent hcalm hrest hrun rfl, hrun]
  rfl

/-- A slow failure, and beside it a fast one. -/
def failingSiblings : Template :=
  .object .none [("slow", .action (failingAfter 2 "late")), ("fast", .action (failingAfter 1 "soon"))]

/-- How the two go. -/
theorem courseTemplate_failingSiblings {g : Setting} (hpending : g.store.pending = []) :
    courseTemplate failingSiblings .root g 0 =
      ⟨[(0, .entered (Path.root.child (.key "slow"))),
        (2, .failed ((EvalError.action "late" []).wrap (Path.root.child (.key "slow")) [] [])),
        (0, .entered (Path.root.child (.key "fast"))),
        (1, .failed ((EvalError.action "soon" []).wrap (Path.root.child (.key "fast")) [] []))], none⟩ := by
  have hfields : courseTemplate failingSiblings .root g 0 =
      ⟨[courseLeaf (failingAfter 2 "late") (Path.root.child (.key "slow")) g 0,
        courseLeaf (failingAfter 1 "soon") (Path.root.child (.key "fast")) g 0].flatMap Course.story,
        ([courseLeaf (failingAfter 2 "late") (Path.root.child (.key "slow")) g 0,
        courseLeaf (failingAfter 1 "soon") (Path.root.child (.key "fast")) g 0].mapM Course.value?).map fun values =>
          .map (assemble [] (["slow", "fast"].zip values))⟩ := rfl
  rw [hfields, courseLeaf_failingAfter hpending, courseLeaf_failingAfter hpending]
  rfl

/-- The fast one is reported, after both have been started. -/
theorem first_failure_of_siblings :
    ∃ e m', (Machine.start .blank).run (failingSiblings.evaluate []) = (some (.error e), m') ∧
      e.bare = (EvalError.action "soon" []).wrap (Path.root.child (.key "fast")) [] [] ∧ m'.clock = 1 ∧
      (m'.session []).log = [Path.root.child (.key "slow"), Path.root.child (.key "fast")] := by
  have hplaced : failingSiblings.misplaced? ((Machine.start .blank).path []) = none := rfl
  obtain ⟨r, m', paths, hrun, -, hends, hlog⟩ := Machine.first_failure_wins (Machine.steady_start .blank)
    (Machine.resting_start .blank) (show ((Machine.start .blank).node? []).isSome = true from rfl) rfl hplaced
    ⟨⟨nofun, nofun, nofun⟩, blind_failingAfter _ _, blind_failingAfter _ _, trivial⟩
    ⟨⟨nofun, nofun, nofun⟩, trivial, trivial, trivial⟩
    ⟨⟨nofun, nofun, nofun⟩, local_failingAfter _ _, local_failingAfter _ _, trivial⟩
  have hcourse := courseTemplate_failingSiblings (g := (Machine.start .blank).setting []) rfl
  change (courseTemplate failingSiblings .root ((Machine.start .blank).setting []) 0).Ends _ _ _ at hends
  rw [hcourse] at hends
  generalize hclock : m'.clock = t at hends
  cases hends with
  | value hvalue => cases hvalue
  | @failure e _ before after _ hfirst =>
    generalize hbare : e.bare = e' at hfirst
    obtain ⟨hsplit, -, hafter⟩ := hfirst
    rcases before with _ | ⟨x, _ | ⟨y, _ | ⟨z, _ | ⟨w, rest⟩⟩⟩⟩
    · cases hsplit
    · -- the slow failure is not the first one
      cases hsplit
      have hle := hafter _ (List.mem_cons_of_mem _ List.mem_cons_self) rfl
      omega
    · cases hsplit
    · cases hsplit
      have hstarted : Story.paths (Story.preceding [(0, .entered (Path.root.child (.key "slow"))),
          (2, .failed ((EvalError.action "late" []).wrap (Path.root.child (.key "slow")) [] [])),
          (0, .entered (Path.root.child (.key "fast")))] 1 []) =
          [Path.root.child (.key "slow"), Path.root.child (.key "fast")] :=
        congrArg Story.paths (Story.chronology_eq_self
          (.cons (fun _ hx => by rw [List.mem_singleton.1 hx]) (List.pairwise_singleton ..)))
      exact ⟨e, m', hrun, hbare, hclock, hlog.trans hstarted⟩
    · simp at hsplit

end MediaQuery
