import MediaQuery.Proofs.Query.Secrets
import MediaQuery.Proofs.Query.Threading

/-!
# Steps that fail

A step that fails leaves the request and the options of its query as they were, wherever it fails, so that going back
to the beginning makes the same of the walk as if the step had not been tried (`rewind_of_error`). The query then asks
for the same page again (`task_rewind`). What a series of calls makes of the request is told by what the calls have
come to (`Turn`): of the steps, only those that answer a page move it on (`walk_of_series`).
-/

namespace MediaQuery

/-- What a call on a query comes to: a page of a handler, no page, a failure, or a change. -/
inductive Turn : Type 1 where
  | page (handler : Handler) (response : Response)
  | ended
  | failed (e : Error)
  | setRequest (r : Request)
  | setOptions (options : QueryOptions)
  | rewind

namespace Turn

/-- The request after a call. -/
def request (r : Request) : Turn → Request
  | .page handler response => Walk.following r handler.pagination response.page
  | .setRequest r' => r'
  | _ => r

/-- The options after a call. -/
def options (options : QueryOptions) : Turn → QueryOptions
  | .setOptions options' => options'
  | _ => options

end Turn

namespace Query

variable {q q' : Query} {t : PageTask}

/-! ## A step that fails, and the step after it -/

/-- A step that fails leaves the request and the options, and is the last one. -/
theorem walk_of_error {b : Route} {m m' : Machine} {step : Step} {e : Error}
    (h : m.run (q.next b) = (some step, m')) (he : step.result = .error e) :
    step.walk.request = q.walk.request ∧ step.walk.options = q.walk.options ∧ step.walk.phase = .exhausted := by
  cases run_next_iff.1 h with
  | ended => cases he
  | spent => cases he
  | page => cases he
  | refused => exact ⟨rfl, rfl, rfl⟩
  | failed => exact ⟨rfl, rfl, rfl⟩

/-- The walk after it goes back to the same beginning as the one before it. -/
theorem rewind_of_error {b : Route} {m m' : Machine} {step : Step} {e : Error}
    (h : m.run (q.next b) = (some step, m')) (he : step.result = .error e) : step.walk.rewind = q.walk.rewind := by
  obtain ⟨hrequest, hoptions, -⟩ := walk_of_error h he
  unfold Walk.rewind
  rw [hrequest, hoptions]

/-- A step that fails has been refused, or its page could be asked for. -/
theorem task_of_error {b : Route} {m m' : Machine} {step : Step} {e : Error}
    (h : m.run (q.next b) = (some step, m')) (he : step.result = .error e) :
    q.walk.phase.isTerminal = false ∧
      ((∃ e', q.task = .error e' ∧ e = .pagination e') ∨ ∃ t, q.task = .ok t ∧ q.walk.isSpent = false) := by
  cases run_next_iff.1 h with
  | ended => cases he
  | spent => cases he
  | page => cases he
  | refused ho ht =>
    cases he
    exact ⟨ho, .inl ⟨_, ht, rfl⟩⟩
  | failed ho ht hs => exact ⟨ho, .inr ⟨_, ht, hs⟩⟩

/-- At the beginning of a walk the secrets are looked at again, and a walk that goes on has them. -/
theorem checkSecrets_rewind (hw : q.walk.Within) (ha : q.Admitted) (ho : q.walk.phase.isTerminal = false) {h : Handler}
    (hh : q.handler = .ok h) : (q.withWalk q.walk.rewind).checkSecrets h = q.checkSecrets h := by
  cases hphase : q.walk.phase with
  | idle =>
    unfold checkSecrets
    rw [if_pos hphase]
    rfl
  | yielded =>
    have hsecrets : h.validateSecrets q.walk.options.secrets = .ok () :=
      Handler.validateSecrets_iff_hasSecrets.2 (ha hphase h hh)
    have hskipped : q.checkSecrets h = .ok () := if_neg (by rw [hphase]; decide)
    rw [hskipped]
    exact congrArg (Except.mapError PaginationError.invalidSecrets) hsecrets
  | fetching => exact absurd hphase hw.not_fetching
  | exhausted => rw [hphase] at ho; cases ho
  | limitReached => rw [hphase] at ho; cases ho

/-- **Back at the beginning, a query asks for the page that it would have asked for**, and tells it anew whether the
budget ends with it. -/
theorem task_rewind (hw : q.walk.Within) (ha : q.Admitted) (ho : q.walk.phase.isTerminal = false) :
    (q.withWalk q.walk.rewind).task =
      q.task.map fun t => { t with fetchLimitReached := (q.withWalk q.walk.rewind).limitFlag t.handler } := by
  have hsecrets := fun h => checkSecrets_rewind hw ha ho (h := h)
  unfold handler at hsecrets
  have hrequest : (q.withWalk q.walk.rewind).checkRequest = q.checkRequest := rfl
  have hsource : (q.withWalk q.walk.rewind).source = q.source := rfl
  have htype : (q.withWalk q.walk.rewind).request.queryType = q.request.queryType := rfl
  unfold task
  rw [hrequest, hsource, htype]
  cases q.checkRequest with
  | error e => rfl
  | ok u =>
    cases hs : q.source with
    | error e => rfl
    | ok source =>
      simp only [hs, bind, Except.bind] at hsecrets ⊢
      cases hh : source.handler q.request.queryType with
      | error e => rfl
      | ok h =>
        simp only [hsecrets h hh]
        cases q.checkSecrets h with
        | error e => rfl
        | ok u => rfl

/-! ## Series of calls -/

/-- A call on a query, what it comes to, and the query after it. A step runs on any machine, below any of its
branches. -/
inductive Turns : Query → Turn → Query → Prop
  | page {q : Query} {b : Route} {m m' : Machine} {step : Step} {h : Handler} {response : Response}
      (hrun : m.run (q.next b) = (some step, m')) (hr : step.result = .ok (some response)) (hh : q.handler = .ok h) :
      Turns q (.page h response) (q.withWalk step.walk)
  | ended {q : Query} {b : Route} {m m' : Machine} {step : Step} (hrun : m.run (q.next b) = (some step, m'))
      (hr : step.result = .ok none) : Turns q .ended (q.withWalk step.walk)
  | failed {q : Query} {b : Route} {m m' : Machine} {step : Step} {e : Error}
      (hrun : m.run (q.next b) = (some step, m')) (hr : step.result = .error e) :
      Turns q (.failed e) (q.withWalk step.walk)
  | setRequest (q : Query) (r : Request) : Turns q (.setRequest r) (q.withWalk (q.walk.setRequest r))
  | setOptions (q : Query) (options : QueryOptions) :
      Turns q (.setOptions options) (q.withWalk (q.walk.setOptions options))
  | rewind (q : Query) : Turns q .rewind (q.withWalk q.walk.rewind)

/-- A series of calls on a query, what they come to, and the query after them. -/
inductive Series : Query → List Turn → Query → Prop
  | nil (q : Query) : Series q [] q
  | snoc {q q' q'' : Query} {turns : List Turn} {turn : Turn} (hs : Series q turns q') (ht : q'.Turns turn q'') :
      Series q (turns ++ [turn]) q''

/-- Every call comes to something. -/
theorem exists_turns_of_call (hc : q.Call q') : ∃ turn, q.Turns turn q' := by
  cases hc with
  | setRequest r => exact ⟨_, .setRequest q r⟩
  | setOptions options => exact ⟨_, .setOptions q options⟩
  | rewind => exact ⟨_, .rewind q⟩
  | @next _ _ _ step hrun =>
    cases hr : step.result with
    | error e => exact ⟨_, .failed hrun hr⟩
    | ok response? =>
      cases response? with
      | none => exact ⟨_, .ended hrun hr⟩
      | some response =>
        obtain ⟨t, ht, -, -⟩ := page_of_next hrun hr
        exact ⟨_, .page hrun hr (handler_of_task ht)⟩

/-- A query that calls lead to is at the end of a series of calls. -/
theorem exists_series_of_reached {registry : Registry} {r : Request} {options : QueryOptions}
    (hq : Reached registry r options q) : ∃ turns, Series ⟨registry, .start r options⟩ turns q := by
  induction hq with
  | refl => exact ⟨_, .nil _⟩
  | tail _ hc ih =>
    obtain ⟨turns, hs⟩ := ih
    obtain ⟨turn, ht⟩ := exists_turns_of_call hc
    exact ⟨_, .snoc hs ht⟩

/-- **What a call makes of the request and the options is told by what it comes to.** -/
theorem walk_of_turns {turn : Turn} (ht : q.Turns turn q') :
    q'.walk.request = turn.request q.walk.request ∧ q'.walk.options = turn.options q.walk.options := by
  cases ht with
  | page hrun hr hh =>
    obtain ⟨t, ht, -, hwalk⟩ := page_of_next hrun hr
    obtain rfl : t.handler = _ := Except.ok.inj ((handler_of_task ht).symm.trans hh)
    simp only [withWalk, hwalk]
    exact ⟨rfl, rfl⟩
  | ended hrun hr =>
    cases run_next_iff.1 hrun with
    | ended => exact ⟨rfl, rfl⟩
    | spent => exact ⟨rfl, rfl⟩
    | refused => cases hr
    | page => cases hr
    | failed => cases hr
  | failed hrun hr =>
    obtain ⟨hrequest, hoptions, -⟩ := walk_of_error hrun hr
    exact ⟨hrequest, hoptions⟩
  | setRequest r => exact ⟨rfl, rfl⟩
  | setOptions options => exact ⟨rfl, rfl⟩
  | rewind => exact ⟨rfl, rfl⟩

/-- So is what a series of calls does. -/
theorem walk_of_series {turns : List Turn} (hs : q.Series turns q') :
    q'.walk.request = turns.foldl Turn.request q.walk.request ∧
      q'.walk.options = turns.foldl Turn.options q.walk.options := by
  induction hs with
  | nil => exact ⟨rfl, rfl⟩
  | snoc _ ht ih =>
    obtain ⟨hrequest, hoptions⟩ := walk_of_turns ht
    rw [List.foldl_concat, List.foldl_concat, hrequest, hoptions, ih.1, ih.2]
    exact ⟨rfl, rfl⟩

/-- **A step that fails can be tried again.** Whatever series of calls a query has been through, a step of it that
fails leaves the request and the options as they were and ends the walk. Back at the beginning, the query has the same
request with defaults; if the step had been refused, the next one is refused for the same reason, and otherwise the
next one makes the page of the same request again. And of the steps in the series, only those that have answered a page
have moved the request on, each by what its page says. -/
theorem retry_of_reached {registry : Registry} {r : Request} {options : QueryOptions} {q : Query}
    (hq : Reached registry r options q) :
    (∀ (b : Route) (m m' : Machine) (step : Step) (e : Error),
      m.run (q.next b) = (some step, m') → step.result = .error e →
        step.walk.request = q.walk.request ∧ step.walk.options = q.walk.options ∧ step.walk.phase = .exhausted ∧
          (q.withWalk step.walk.rewind).requestWithDefaults = q.requestWithDefaults ∧
          (∀ e', q.task = .error e' → e = .pagination e' ∧
            ∀ b', (q.withWalk step.walk.rewind).next b' =
              pure ⟨.error (.pagination e'), (q.withWalk step.walk.rewind).walk.fail⟩) ∧
          ∀ t, q.task = .ok t → ∃ t', (q.withWalk step.walk.rewind).task = .ok t' ∧
            t'.inputs.request = t.inputs.request ∧
            t' = { t with fetchLimitReached := (q.withWalk step.walk.rewind).limitFlag t.handler } ∧
            ∀ b', (q.withWalk step.walk.rewind).next b' =
              (t'.run b').bind ((q.withWalk step.walk.rewind).after t')) ∧
    (∃ turns, Series ⟨registry, .start r options⟩ turns q) ∧
    ∀ turns, Series ⟨registry, .start r options⟩ turns q →
      q.walk.request = turns.foldl Turn.request r ∧ q.walk.options = turns.foldl Turn.options options := by
  refine ⟨fun b m m' step e hrun he => ?_, exists_series_of_reached hq, fun turns hs => walk_of_series hs⟩
  obtain ⟨hw, -⟩ := within_of_reached hq
  obtain ⟨ho, htask⟩ := task_of_error hrun he
  obtain ⟨hrequest, hoptions, hphase⟩ := walk_of_error hrun he
  have htask' := task_rewind hw (admitted_of_reached hq) ho
  rw [rewind_of_error hrun he]
  refine ⟨hrequest, hoptions, hphase, rfl, fun e' ht => ?_, fun t ht => ?_⟩
  · rw [ht] at htask'
    refine ⟨?_, next_of_refused rfl htask'⟩
    rcases htask with ⟨e'', ht', rfl⟩ | ⟨t, ht', -⟩
    · cases ht'.symm.trans ht
      rfl
    · cases ht'.symm.trans ht
  · rw [ht] at htask'
    refine ⟨_, htask', rfl, rfl, fun b' => next_eq_bind b' rfl htask' ?_⟩
    rcases htask with ⟨e', ht', -⟩ | ⟨-, -, hs⟩
    · cases ht'.symm.trans ht
    · -- a budget that allowed this page allows a first one
      have hlt : q.walk.fetched < q.walk.limit := Nat.lt_of_not_le (of_decide_eq_false hs)
      exact decide_eq_false (Nat.not_le.2 (Nat.zero_lt_of_lt hlt))

/-- A listing whose second page fails asks for the second page again. -/
theorem retry_of_second_page :
    ∃ q, Reached sampleQuery.registry (.plain "s" "list") ⟨[], 2, false⟩ q ∧
      ∃ step e m', (Machine.start .blank).run (q.next []) = (some step, m') ∧ step.result = .error e ∧
        step.walk.request = { Request.plain "s" "list" with pageNumber := some 2 } ∧
        ∃ t', (q.withWalk step.walk.rewind).task = .ok t' ∧
          t'.inputs.request = { Request.plain "s" "list" with pageNumber := some 2 } := by
  have htask : sampleQuery.task = .ok (sampleQuery.taskFor sampleSource sampleHandler) := rfl
  have hfirst : (Machine.start .blank).run ((sampleQuery.taskFor sampleSource sampleHandler).run []) =
      (some (.ok sampleResponse), _) := Machine.drive_of_result rfl _
  have hreached := Relation.ReflTransGen.single (Call.next (run_next_iff.2 (.page rfl htask rfl hfirst)))
  have hsecond : (Machine.start .blank).run
      (((sampleQuery.taskFor sampleSource sampleHandler).nth 2 sampleOutcome 1).run []) =
        (some (sampleOutcome 1), _) := Machine.drive_of_result rfl _
  have hrun := run_next_iff.2 (Answers.failed
    (q := sampleQuery.withWalk (sampleQuery.walk.begin.advance .offset sampleResponse)) rfl rfl rfl hsecond)
  obtain ⟨hrequest, -, -, -, -, htried⟩ := (retry_of_reached hreached).1 _ _ _ _ _ hrun rfl
  obtain ⟨t', ht', hsame, -, -⟩ := htried _ rfl
  exact ⟨_, hreached, _, _, _, hrun, rfl, hrequest, t', ht', hsame⟩

end Query

end MediaQuery
