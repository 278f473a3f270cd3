import MediaQuery.Proofs.Query.Extent

/-!
# Secrets of a query

The secrets that a handler requires are looked at where a walk begins, and on no later page. That they are there on
every page is an invariant (`Query.Admitted`): a walk that goes on has been admitted, and neither its handler nor its
options change before it is begun anew (`admitted_of_call`). So a step either carries out nothing at all, or evaluates a
template of a handler that has got every secret that it requires (`secrets_of_reached`).
-/

namespace MediaQuery

namespace Handler

/-- Every secret that the handler requires is there and is not empty. -/
def HasSecrets (h : Handler) (secrets : Secrets) : Prop :=
  ∀ s ∈ h.secrets, s.required = true → ∃ text, secrets.lookup s.name = some text ∧ text ≠ ""

theorem hasSecret_iff {secrets : Secrets} {name : String} :
    hasSecret secrets name = true ↔ ∃ text, secrets.lookup name = some text ∧ text ≠ "" := by
  unfold hasSecret
  cases secrets.lookup name <;> simp

variable {h : Handler} {secrets : Secrets}

theorem validateSecrets_iff_hasSecrets : h.validateSecrets secrets = .ok () ↔ h.HasSecrets secrets := by
  simp only [validateSecrets_eq_ok_iff, hasSecret_iff]
  exact Iff.rfl

/-- Secrets that do not pass are refused with an issue for each one that is missing or empty. -/
theorem validateSecrets_of_not_hasSecrets (hn : ¬ h.HasSecrets secrets) :
    ∃ e, h.validateSecrets secrets = .error e ∧ e.issues = h.secretIssues secrets := by
  rw [← validateSecrets_iff_hasSecrets] at hn
  unfold validateSecrets at hn ⊢
  cases hi : h.secretIssues secrets with
  | nil => exact absurd (by rw [hi]; rfl) hn
  | cons issue rest => exact ⟨_, rfl, rfl⟩

end Handler

namespace Query

variable {q q' : Query} {t : PageTask}

/-! ## Admission -/

/-- A walk that goes on: the handler of its request has the secrets that it requires. -/
def Admitted (q : Query) : Prop :=
  q.walk.phase = .yielded → ∀ h, q.handler = .ok h → h.HasSecrets q.walk.options.secrets

/-- A page is only made for a handler that has its secrets: they are looked at on the first page, and the walk has
been admitted on a later one. -/
theorem hasSecrets_of_task (hw : q.walk.Within) (ha : q.Admitted) (ho : q.walk.phase.isTerminal = false)
    (ht : q.task = .ok t) : t.handler.HasSecrets q.walk.options.secrets := by
  cases hphase : q.walk.phase with
  | idle =>
    obtain ⟨-, source, -, h, -, hsecrets, rfl⟩ := task_eq_ok_iff.1 ht
    unfold checkSecrets at hsecrets
    rw [if_pos hphase] at hsecrets
    refine Handler.validateSecrets_iff_hasSecrets.1 ?_
    change h.validateSecrets q.walk.options.secrets = .ok ()
    cases hv : h.validateSecrets q.walk.options.secrets with
    | ok u => rfl
    | error e => rw [hv] at hsecrets; cases hsecrets
  | yielded => exact ha hphase _ (handler_of_task ht)
  | fetching => exact absurd hphase hw.not_fetching
  | exhausted => rw [hphase] at ho; cases ho
  | limitReached => rw [hphase] at ho; cases ho

/-- **Every call keeps a walk that goes on admitted.** -/
theorem admitted_of_call (hc : q.Call q') (hw : q.walk.Within) (ha : q.Admitted) : q'.Admitted := by
  cases hc with
  | setRequest r => exact nofun
  | setOptions options => exact nofun
  | rewind => exact nofun
  | next hrun =>
    cases run_next_iff.1 hrun with
    | ended => exact ha
    | refused => exact nofun
    | spent => exact nofun
    | failed => exact nofun
    | page ho ht _ _ =>
      have hsecrets := hasSecrets_of_task hw ha ho ht
      intro _ h hh
      rw [handler_withWalk_advance, handler_of_task ht] at hh
      cases hh
      exact hsecrets

/-- So every series of calls does. -/
theorem admitted_of_reached {registry : Registry} {r : Request} {options : QueryOptions}
    (h : Reached registry r options q) : q.Admitted := by
  induction h with
  | refl => exact nofun
  | tail hq hc ih => exact admitted_of_call hc (within_of_reached hq).1 ih

/-! ## Steps -/

/-- The step carries out nothing, and answers at once. -/
def Idles (q : Query) : Prop := ∃ step, ∀ branch, q.next branch = pure step

/-- The step evaluates a template of the handler, in a session with the given inputs. -/
def Evaluates (q : Query) (h : Handler) (inputs : Inputs) : Prop :=
  ∃ plan k, h.planFor inputs.request = .ok plan ∧
    ∀ branch, q.next branch = Prog.openSession branch inputs >>= fun first => plan.template.evaluate first >>= k

/-- A step that makes a page evaluates a template of the handler that its request resolves to, if there is one for
the request. -/
theorem idles_or_evaluates_of_task (ho : q.walk.phase.isTerminal = false) (ht : q.task = .ok t)
    (hs : q.walk.isSpent = false) : q.Idles ∨ q.Evaluates t.handler t.inputs := by
  cases hplan : t.handler.planFor t.filledRequest with
  | error e =>
    refine .inl ⟨⟨.error (.pagination e), q.walk.begin.fail⟩, fun branch => ?_⟩
    rw [next_eq_bind branch ho ht hs, PageTask.run, hplan]
    rfl
  | ok plan =>
    refine .inr ⟨plan, fun r => (t.conclude plan r).bind (q.after t), hplan, fun branch => ?_⟩
    rw [next_eq_bind branch ho ht hs, PageTask.run_of_plan branch hplan]
    refine congrArg (Prog.act (.openSession branch t.inputs)) (funext fun i => ?_)
    exact Prog.bind_assoc _ _ _

/-- A step without a task carries out nothing. -/
theorem next_of_refused {e : PaginationError} (ho : q.walk.phase.isTerminal = false) (ht : q.task = .error e)
    (branch : Route) : q.next branch = pure ⟨.error (.pagination e), q.walk.fail⟩ := by
  unfold next
  simp only [ho, ht, Bool.false_eq_true, if_false]

/-- Whatever a step does, it carries out nothing or it evaluates a template for its task. -/
theorem idles_or_evaluates (q : Query) :
    q.Idles ∨ q.walk.phase.isTerminal = false ∧ ∃ t, q.task = .ok t ∧ q.Evaluates t.handler t.inputs := by
  cases ho : q.walk.phase.isTerminal with
  | true =>
    refine .inl ⟨⟨.ok none, q.walk⟩, fun branch => ?_⟩
    unfold next
    rw [if_pos ho]
  | false =>
    cases ht : q.task with
    | error e => exact .inl ⟨_, next_of_refused ho ht⟩
    | ok t =>
      cases hs : q.walk.isSpent with
      | true =>
        refine .inl ⟨⟨.ok none, q.walk.stop⟩, fun branch => ?_⟩
        unfold next
        simp only [ho, ht, hs, Bool.false_eq_true, if_false, if_true]
      | false => exact (idles_or_evaluates_of_task ho ht hs).imp_right fun he => ⟨rfl, t, rfl, he⟩

/-- A request that is complete and resolves to a handler is refused for its secrets only. -/
theorem task_of_missing {h : Handler} (hidle : q.walk.phase = .idle) (hc : q.checkRequest = .ok ())
    (hh : q.handler = .ok h) (hn : ¬ h.HasSecrets q.walk.options.secrets) :
    ∃ e : ValidationError, e.issues = h.secretIssues q.walk.options.secrets ∧ q.task = .error (.invalidSecrets e) := by
  obtain ⟨e, he, hissues⟩ := Handler.validateSecrets_of_not_hasSecrets hn
  refine ⟨e, hissues, ?_⟩
  have hsecrets : q.checkSecrets h = .error (.invalidSecrets e) := by
    unfold checkSecrets
    rw [if_pos hidle, he]
    rfl
  unfold handler at hh
  unfold task
  rw [hc]
  cases hs : q.source with
  | error e => rw [hs] at hh; cases hh
  | ok source =>
    rw [hs] at hh
    change source.handler q.request.queryType = .ok h at hh
    simp only [bind, Except.bind, hh, hsecrets]

/-- **The secrets gate of a query.** Whatever series of steps and changes a query has been through, a step carries out
nothing at all or evaluates a template of the handler that its request resolves to, on the first page or on a later
one, and then this handler has every secret that it requires, from the options of the moment. Where one is missing or
empty, a step of a walk that is not over fails, does nothing on the machine and leaves the count: for the secrets if the
request names a source and a type of query, and for the request otherwise. -/
theorem secrets_of_reached {registry : Registry} {r : Request} {options : QueryOptions} {q : Query}
    (hq : Reached registry r options q) :
    (q.Idles ∨ ∃ h inputs, q.handler = .ok h ∧ q.Evaluates h inputs ∧
      h.HasSecrets q.walk.options.secrets ∧ inputs.secrets = q.walk.options.secrets) ∧
    ∀ h, q.handler = .ok h → q.walk.phase.isTerminal = false → ¬ h.HasSecrets q.walk.options.secrets →
      ∃ e : PaginationError,
        (q.request.source ≠ "" ∧ q.request.queryType ≠ "" →
          ∃ issues : ValidationError, issues.issues = h.secretIssues q.walk.options.secrets ∧ e = .invalidSecrets issues) ∧
        (q.request.source = "" ∨ q.request.queryType = "" →
          e = .invalidRequest "source and queryType are required") ∧
        (∀ branch, q.next branch = pure ⟨.error (.pagination e), q.walk.fail⟩) ∧ q.walk.fail.fetched = q.walk.fetched := by
  obtain ⟨hw, -⟩ := within_of_reached hq
  have ha := admitted_of_reached hq
  refine ⟨(idles_or_evaluates q).imp_right ?_, fun h hh ho hn => ?_⟩
  · rintro ⟨ho, t, ht, he⟩
    have hsame : t.secrets = q.walk.options.secrets := by
      obtain ⟨-, _, -, _, -, -, rfl⟩ := task_eq_ok_iff.1 ht
      rfl
    exact ⟨t.handler, t.inputs, handler_of_task ht, he, hasSecrets_of_task hw ha ho ht, hsame⟩
  · have hidle : q.walk.phase = .idle := by
      cases hphase : q.walk.phase with
      | idle => rfl
      | yielded => exact absurd (ha hphase h hh) hn
      | fetching => exact absurd hphase hw.not_fetching
      | exhausted => rw [hphase] at ho; cases ho
      | limitReached => rw [hphase] at ho; cases ho
    by_cases hempty : q.request.source = "" ∨ q.request.queryType = ""
    · have ht : q.task = .error (.invalidRequest "source and queryType are required") := by
        unfold task checkRequest
        rw [if_pos hempty]
      exact ⟨_, fun hne => absurd hempty (by simpa using hne), fun _ => rfl, next_of_refused ho ht, rfl⟩
    · have hc : q.checkRequest = .ok () := if_neg hempty
      obtain ⟨e, hissues, ht⟩ := task_of_missing hidle hc hh hn
      exact ⟨_, fun _ => ⟨e, hissues, rfl⟩, fun he => absurd he hempty, next_of_refused ho ht, rfl⟩

/-! ## A listing behind a key -/

/-- The handler of a listing that requires a key. -/
def guardedHandler : Handler := { sampleHandler with secrets := [⟨"key", true⟩] }

/-- A query of a listing that requires a key, at a source of the given name. -/
def guardedQuery (source : String) (secrets : Secrets) : Query :=
  ⟨⟨[(source, ⟨source, "S", "", [guardedHandler]⟩)], .empty⟩, .start (.plain source "list") ⟨secrets, 2, false⟩⟩

/-- Without the key, the first step of the query is refused. -/
theorem secrets_of_guarded :
    Reached (guardedQuery "s" []).registry (.plain "s" "list") ⟨[], 2, false⟩ (guardedQuery "s" []) ∧
      ∃ issues : ValidationError, issues.issues = [⟨"$.key", "Required"⟩] ∧
        ∀ branch, (guardedQuery "s" []).next branch =
          pure ⟨.error (.pagination (.invalidSecrets issues)), (guardedQuery "s" []).walk.fail⟩ := by
  have hr : Reached (guardedQuery "s" []).registry (.plain "s" "list") ⟨[], 2, false⟩ (guardedQuery "s" []) := .refl
  have hmissing : ¬ guardedHandler.HasSecrets [] := by
    rw [← Handler.validateSecrets_iff_hasSecrets]
    exact nofun
  obtain ⟨e, hsecrets, -, hnext, -⟩ := (secrets_of_reached hr).2 guardedHandler rfl rfl hmissing
  obtain ⟨issues, hissues, rfl⟩ := hsecrets (by decide)
  exact ⟨hr, issues, hissues, hnext⟩

/-- A source may have no name, and its handlers are found under it; a step looks at the name first. -/
theorem next_of_unnamed_source :
    Reached (guardedQuery "" []).registry (.plain "" "list") ⟨[], 2, false⟩ (guardedQuery "" []) ∧
      (guardedQuery "" []).walk.phase.isTerminal = false ∧ (guardedQuery "" []).handler = .ok guardedHandler ∧
      ¬ guardedHandler.HasSecrets (guardedQuery "" []).walk.options.secrets ∧
      ∀ branch, ¬ ∃ issues walk,
        (guardedQuery "" []).next branch = pure ⟨.error (.pagination (.invalidSecrets issues)), walk⟩ := by
  refine ⟨.refl, rfl, rfl, ?_, fun branch => ?_⟩
  · rw [← Handler.validateSecrets_iff_hasSecrets]
    exact nofun
  · have hnext := next_of_refused (q := guardedQuery "" []) rfl
      (e := .invalidRequest "source and queryType are required") rfl branch
    rw [hnext]
    rintro ⟨issues, walk, h⟩
    cases h

end Query

end MediaQuery
