import MediaQuery.Proofs.Machine.Sealed
import MediaQuery.Proofs.Query.Answered
import MediaQuery.Proofs.Query.Secrets
import MediaQuery.Proofs.Template.Below

/-!
# Nested requests and queries

An action may ask for a page of another handler. A query that asks for the same page comes to the same task in its own
way, through its source and the checks of a step (`Query.Asks.task_eq`), so it answers the same, except that a nested
request is not refused for secrets that are missing. Whatever the nested page does, it does in a session of its own, and
the branch that has asked for it is left as it was (`PageTask.undisturbed_start`, `PageTask.undisturbed_run`). The two
together are `loadRequest_as_next`.
-/

namespace MediaQuery

open Machine

/-! ## The page of a task -/

namespace PageTask

variable {t : PageTask} {plan : ResponsePlan} {branch base : Route} {m : Machine}

/-- A page does everything below the first branch of its own query. -/
theorem uses_conclude (t : PageTask) (plan : ResponsePlan) (own base : Route) :
    ((plan.template.evaluate own).bind (t.conclude plan)).Uses (base ++ own <+: ·) base fun _ => True := by
  have hevaluate := uses_evaluate (fun action => action.within_below own) plan.template (List.prefix_refl own)
  have hbelow : ((plan.template.evaluate own).bind (t.conclude plan)).Uses (own <+: ·) [] fun _ => True :=
    hevaluate.bind fun r _ => by cases r <;> exact .done trivial
  exact hbelow.placed

/-- A page that is started has failed at once and has done nothing, or it has opened a query of its own and goes on
below the first branch of that. -/
theorem start_cases (t : PageTask) (hthere : (m.node? (base ++ branch)).isSome = true) :
    (∃ e, (t.run branch).start base m = (.done (.error (.pagination e)), m)) ∨
      ∃ (opened : Machine) (p : Prog (Except Error Response)), (t.run branch).start base m = p.start base opened ∧
        p.Uses (base ++ branch ++ [m.nextChild (base ++ branch)] <+: ·) base (fun _ => True) ∧
        (opened.session? (base ++ branch ++ [m.nextChild (base ++ branch)])).isSome = true ∧
        Undisturbed (base ++ branch) m opened ∧ opened.futures = m.futures := by
  cases hplan : t.handler.planFor t.filledRequest with
  | error e =>
    refine .inl ⟨e, ?_⟩
    unfold run
    rw [hplan]
    rfl
  | ok plan =>
    obtain ⟨n, hn⟩ := Option.isSome_iff_exists.1 hthere
    have hdegree : m.nextChild (base ++ branch) = n.degree := nextChild_of_node? hn
    have huses := t.uses_conclude plan (branch ++ [m.nextChild (base ++ branch)]) base
    rw [← List.append_assoc] at huses
    rw [run_of_plan branch hplan]
    refine .inr ⟨(m.addChild (base ++ branch) fun _ => .root t.inputs).2,
      (plan.template.evaluate (branch ++ [m.nextChild (base ++ branch)])).bind (t.conclude plan), rfl, huses, ?_,
      undisturbed_open hn t.inputs, rfl⟩
    rw [session?_open hn, hdegree, if_pos rfl]
    rfl

/-- **A page that is asked for below a branch does not disturb it** when it is started, and if it has not failed, then
it goes on within a query of its own. -/
theorem undisturbed_start (t : PageTask) (hthere : (m.node? (base ++ branch)).isSome = true) :
    Undisturbed (base ++ branch) m ((t.run branch).start base m).2 ∧
      ((∃ e, (t.run branch).start base m = (.done (.error (.pagination e)), m)) ∨
        Within (base ++ branch ++ [m.nextChild (base ++ branch)]) base ((t.run branch).start base m)) := by
  rcases t.start_cases hthere with ⟨e, he⟩ | ⟨opened, p, hstart, huses, hhead, hopened, -⟩
  · rw [he]
    exact ⟨.refl _ m, .inl ⟨e, rfl⟩⟩
  · obtain ⟨hsealed, hrun⟩ := (upheld_sealed _).start huses (settled_below _ opened)
    rw [hstart]
    exact ⟨hopened.trans (hsealed.undisturbed hhead (away_nextChild m _)), .inr ⟨hrun, hsealed.head hhead⟩⟩

/-- **If nothing else is running, a whole run of the page does not disturb it.** -/
theorem undisturbed_run (t : PageTask) (hthere : (m.node? branch).isSome = true)
    (hended : ∀ f ∈ m.futures, f.report?.isSome = true) : Undisturbed branch m (m.run (t.run branch)).2 := by
  have hroot : (m.node? ([] ++ branch)).isSome = true := hthere
  rcases t.start_cases hroot with ⟨e, he⟩ | ⟨opened, p, hstart, huses, hhead, hopened, hfutures⟩
  · have hrun : m.run (t.run branch) = (some (.error (.pagination e)), m) := by
      unfold Machine.run
      rw [he]
      exact drive_of_result rfl m
    rw [hrun]
    exact .refl branch m
  · have hrun : m.run (t.run branch) = opened.run p := by
      unfold Machine.run
      rw [hstart]
    rw [hrun]
    have hstill : opened.Still (branch ++ [m.nextChild branch]) := fun f hf _ => hended f (hfutures ▸ hf)
    exact hopened.trans (undisturbed_of_run (away_nextChild m branch) huses hhead hstill)

end PageTask

/-! ## Queries that ask for the same page -/

namespace Query

/-- A query that has not begun and may make a page, and that asks for the page of a task: for the request, at the source
of its name, which offers the handler of the task under its identifier, and with the same secrets, cache flag and
hooks. -/
structure Asks (q : Query) (t : PageTask) : Prop where
  idle : q.walk.phase = .idle
  fetched : q.walk.fetched = 0
  budget : 1 ≤ q.walk.limit
  request : q.request = t.request
  offered : ∃ source, q.source = .ok source ∧ source.id = t.source ∧ source.handler t.handler.id = .ok t.handler
  secrets : q.walk.options.secrets = t.secrets
  cacheRequests : q.walk.options.cacheRequests = t.cacheRequests
  hooks : q.registry.hooks = t.hooks

variable {q : Query} {t : PageTask}

theorem Asks.unfinished (hq : q.Asks t) : q.walk.phase.isTerminal = false ∧ q.walk.isSpent = false := by
  refine ⟨by rw [hq.idle]; rfl, ?_⟩
  unfold Walk.isSpent
  have hbudget := hq.budget
  rw [hq.fetched, decide_eq_false]
  omega

/-- The request of a task names its source and, as its type, the handler, which does not paginate. -/
structure Named (t : PageTask) : Prop where
  source : t.request.source ≠ ""
  queryType : t.request.queryType = t.handler.id
  handler : t.handler.id ≠ ""
  unpaged : t.handler.pagination = .none
  unflagged : t.fetchLimitReached = none

section Named

variable (hq : q.Asks t) (ht : Named t)
include hq ht

theorem Asks.checkRequest : q.checkRequest = .ok () := by
  unfold Query.checkRequest
  rw [if_neg]
  rw [hq.request, ht.queryType]
  exact fun hempty => hempty.elim ht.source ht.handler

theorem Asks.handler : q.handler = .ok t.handler := by
  obtain ⟨source, hsource, -, hoffered⟩ := hq.offered
  unfold Query.handler
  rw [hsource, hq.request, ht.queryType]
  exact hoffered

/-- **A query with its secrets comes to the task.** -/
theorem Asks.task_eq (hs : t.handler.HasSecrets t.secrets) : q.task = .ok t := by
  obtain ⟨source, hsource, hid, hoffered⟩ := hq.offered
  refine task_eq_ok_iff.2 ⟨hq.checkRequest ht, source, hsource, t.handler, ?_, ?_, ?_⟩
  · rw [hq.request, ht.queryType]
    exact hoffered
  · unfold checkSecrets
    rw [if_pos hq.idle, hq.secrets, Handler.validateSecrets_iff_hasSecrets.2 hs]
    rfl
  · have hflag : q.limitFlag t.handler = t.fetchLimitReached := by
      unfold limitFlag
      rw [ht.unpaged, ht.unflagged]
      rfl
    unfold taskFor
    rw [hid, hq.request, hq.secrets, hflag, hq.cacheRequests, hq.hooks]

end Named

end Query

theorem named_nestedTask {inputs : Inputs} {h : Handler} {r : Request} (hsource : inputs.sourceId ≠ "")
    (hid : h.id ≠ "") (hpagination : h.pagination = .none) (htype : r.queryType = "" ∨ r.queryType = h.id)
    (secrets : Secrets) : Query.Named (inputs.nestedTask h r secrets) := by
  refine ⟨?_, ?_, hid, hpagination, rfl⟩
  · change (if r.source = "" then inputs.sourceId else r.source) ≠ ""
    split
    · exact hsource
    · next hne => exact hne
  · change (if r.queryType = "" then h.id else r.queryType) = h.id
    split
    · rfl
    · next hne => exact htype.resolve_left hne

/-! ## Nested requests -/

variable {branch base : Route} {m : Machine} {h : Handler} {r : Request} {secrets : Secrets} {β : Type}

/-- A nested request is the page of its task, with the inputs of the query that asks for it. -/
theorem start_loadRequest (k : Except Error Response → Prog β) :
    ((Prog.loadRequest branch h r secrets).bind k).start base m =
      ((((m.session (base ++ branch)).inputs.nestedTask h r secrets).run branch).bind k).start base m := rfl

theorem start_loadRequest_self :
    (Prog.loadRequest branch h r secrets).start base m =
      (((m.session (base ++ branch)).inputs.nestedTask h r secrets).run branch).start base m := rfl

/-- It does not look at the secrets that the handler requires. -/
theorem loadRequest_unguarded (branch : Route) (h : Handler) (r : Request) (secrets : Secrets) :
    Prog.loadRequest branch { h with secrets := [] } r secrets = Prog.loadRequest branch h r secrets := rfl

/-- **A nested request agrees with a query that asks for the same page**, whatever is made of the answer, if the handler
has the secrets that it requires. If one is missing, then the query is refused, and the nested request goes on as for a
handler that requires none. In any case the branch that has asked is not disturbed: not when the page is started, nor by
anything that the page does from then on in the midst of others, and if nothing else is running, not by a whole run. -/
theorem loadRequest_as_next {inputs : Inputs} {h : Handler} {r : Request} {secrets : Secrets} {q : Query}
    (hsource : inputs.sourceId ≠ "") (hid : h.id ≠ "") (hpagination : h.pagination = .none)
    (htype : r.queryType = "" ∨ r.queryType = h.id) (hq : q.Asks (inputs.nestedTask h r secrets)) :
    (h.HasSecrets secrets → ∀ {β : Type} (k : Except Error (Option Response) → Prog β) (branch base : Route)
      (m : Machine), (m.session (base ++ branch)).inputs = inputs →
        ((q.next branch).bind fun step => k step.result).start base m =
          ((Prog.loadRequest branch h r secrets).bind fun answer => k (answer.map some)).start base m) ∧
    (¬ h.HasSecrets secrets →
      (∃ e : ValidationError, e.issues = h.secretIssues secrets ∧
        ∀ branch, q.next branch = pure ⟨.error (.pagination (.invalidSecrets e)), q.walk.fail⟩) ∧
      ∀ branch, Prog.loadRequest branch h r secrets = Prog.loadRequest branch { h with secrets := [] } r secrets) ∧
    (∀ (branch base : Route) (m : Machine), (m.node? (base ++ branch)).isSome = true →
      Undisturbed (base ++ branch) m ((Prog.loadRequest branch h r secrets).start base m).2 ∧
        ((∃ e, (Prog.loadRequest branch h r secrets).start base m = (.done (.error (.pagination e)), m)) ∨
          ∀ x y, Relation.ReflTransGen (Amid (base ++ branch ++ [m.nextChild (base ++ branch)]) base)
              ((Prog.loadRequest branch h r secrets).start base m) x →
            Advances (base ++ branch ++ [m.nextChild (base ++ branch)]) base x y →
              Undisturbed (base ++ branch) x.2 y.2)) ∧
    ∀ (branch : Route) (m : Machine), (m.node? branch).isSome = true → (∀ f ∈ m.futures, f.report?.isSome = true) →
      Undisturbed branch m (m.run (Prog.loadRequest branch h r secrets)).2 := by
  have hnamed := named_nestedTask hsource hid hpagination htype secrets
  refine ⟨fun hsecrets β k branch base m hinputs => ?_, fun hmissing => ⟨?_, fun branch => ?_⟩,
    fun branch base m hthere => ?_, fun branch m hthere hended => ?_⟩
  · have hnext := Query.next_eq_bind branch hq.unfinished.1 (hq.task_eq hnamed hsecrets) hq.unfinished.2
    rw [start_loadRequest, hinputs, hnext, Prog.bind_assoc]
    congr 2
    funext answer
    cases answer <;> rfl
  · have hsame : q.walk.options.secrets = secrets := hq.secrets
    rw [← hsame] at hmissing ⊢
    obtain ⟨e, hissues, hrefused⟩ :=
      Query.task_of_missing hq.idle (hq.checkRequest hnamed) (hq.handler hnamed) hmissing
    exact ⟨e, hissues, Query.next_of_refused hq.unfinished.1 hrefused⟩
  · exact (loadRequest_unguarded branch h r secrets).symm
  · rw [start_loadRequest_self]
    obtain ⟨hundisturbed, hlater⟩ :=
      ((m.session (base ++ branch)).inputs.nestedTask h r secrets).undisturbed_start hthere
    refine ⟨hundisturbed, hlater.imp_right fun hwithin x y hx hy => ?_⟩
    exact undisturbed_of_advances hwithin (away_nextChild m _) hx hy
  · have hrun : m.run (Prog.loadRequest branch h r secrets) =
        m.run (((m.session branch).inputs.nestedTask h r secrets).run branch) := by
      unfold Machine.run
      rw [start_loadRequest_self]
      rfl
    rw [hrun]
    exact PageTask.undisturbed_run _ hthere hended

/-! ## A page behind a key -/

/-- The handler of a listing without pages that requires a key. -/
def keyedHandler : Handler := { Query.echoHandler with secrets := [⟨"key", true⟩] }

/-- What the query is run with that asks for the listing. -/
def askingInputs : Inputs := { Inputs.blank with sourceId := "s" }

/-- A query that asks for the listing itself. -/
def keyedQuery (secrets : Secrets) : Query :=
  ⟨⟨[("s", ⟨"s", "S", "", [keyedHandler]⟩)], .empty⟩, .start (.plain "s" "list") ⟨secrets, 1, false⟩⟩

/-- The response that the listing gives. -/
def keyedResponse : Response :=
  Query.echoResponse ⟨"s", "list", none, none, [("limit", .int 25)]⟩ ⟨"s", "list", none, none, [("limit", .int 25)]⟩

theorem asks_keyed (secrets : Secrets) :
    (keyedQuery secrets).Asks (askingInputs.nestedTask keyedHandler (.plain "" "") secrets) :=
  ⟨rfl, rfl, Nat.le_refl 1, rfl, ⟨_, rfl, rfl, rfl⟩, rfl, rfl, rfl⟩

/-- With the key, the nested request and the query answer the same response, and nothing is disturbed. -/
theorem loadRequest_with_key :
    (keyedQuery [("key", "k")]).Asks (askingInputs.nestedTask keyedHandler (.plain "" "") [("key", "k")]) ∧
      keyedHandler.HasSecrets [("key", "k")] ∧
      ((Machine.start askingInputs).run
        (((keyedQuery [("key", "k")]).next []).bind fun step => .done step.result)).1 =
          some (.ok (some keyedResponse)) ∧
      ((Machine.start askingInputs).run (Prog.loadRequest [] keyedHandler (.plain "" "") [("key", "k")])).1 =
        some (.ok keyedResponse) ∧
      Undisturbed [] (Machine.start askingInputs)
        ((Machine.start askingInputs).run (Prog.loadRequest [] keyedHandler (.plain "" "") [("key", "k")])).2 := by
  have hsecrets : keyedHandler.HasSecrets [("key", "k")] := Handler.validateSecrets_iff_hasSecrets.1 rfl
  obtain ⟨hagree, -, -, halone⟩ :=
    loadRequest_as_next (by decide) (by decide) rfl (.inl rfl) (asks_keyed [("key", "k")])
  refine ⟨asks_keyed _, hsecrets, ?_, congrArg Prod.fst (drive_of_result rfl _), halone [] _ rfl nofun⟩
  have hstart := hagree hsecrets .done [] [] (Machine.start askingInputs) rfl
  unfold Machine.run
  rw [hstart]
  exact congrArg Prod.fst (drive_of_result rfl _)

/-- Without it, the query is refused, and the nested request answers all the same. -/
theorem loadRequest_without_key :
    (keyedQuery []).Asks (askingInputs.nestedTask keyedHandler (.plain "" "") []) ∧
      (∃ e : ValidationError, e.issues = [⟨"$.key", "Required"⟩] ∧ ∀ branch,
        (keyedQuery []).next branch = pure ⟨.error (.pagination (.invalidSecrets e)), (keyedQuery []).walk.fail⟩) ∧
      ((Machine.start askingInputs).run (Prog.loadRequest [] keyedHandler (.plain "" "") [])).1 =
        some (.ok keyedResponse) := by
  have hmissing : ¬ keyedHandler.HasSecrets [] := by
    rw [← Handler.validateSecrets_iff_hasSecrets]
    exact nofun
  obtain ⟨e, hissues, hrefused⟩ :=
    Query.task_of_missing (q := keyedQuery []) (h := keyedHandler) rfl rfl rfl hmissing
  exact ⟨asks_keyed [], ⟨e, hissues, Query.next_of_refused rfl hrefused⟩,
    congrArg Prod.fst (drive_of_result rfl _)⟩

end MediaQuery
