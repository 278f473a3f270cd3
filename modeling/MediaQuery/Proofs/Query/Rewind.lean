import MediaQuery.Proofs.Query.Retry

/-!
# Going back to the beginning

Going back to the beginning starts the count of the pages anew and leaves the request where the walk has come to
(`Request.carried`): one page further than the last one, or at the cursor that it has handed on. A query that has gone
back is therefore the fresh query of that request (`request_of_series`). Two fresh queries whose requests are the same
with defaults ask for the same pages and answer the same (`AsksLike.called`), and this is the only way in which going
back comes to the first page again (`restart_of_series`).
-/

namespace MediaQuery

/-! ## The request that a walk has come to -/

namespace Turn

/-- The number of the page that a call answers. -/
def pageNumber? : Turn → Option Int64
  | .page _ response => response.page.bind Page.pageNumber
  | _ => none

/-- The cursor that the page of a call hands on, which may be none. -/
def nextCursor? : Turn → Option (Option Cursor)
  | .page _ response => response.page.map Page.nextCursor
  | _ => none

/-- The last page number that a series of calls has answered. -/
def lastNumber? (turns : List Turn) : Option Int64 := turns.reverse.findSome? pageNumber?

/-- The cursor that the last page of a series of calls has handed on. -/
def lastCursor? (turns : List Turn) : Option (Option Cursor) := turns.reverse.findSome? nextCursor?

end Turn

namespace Request

/-- The request that a series of calls comes to from the given one. -/
def carried (r : Request) (turns : List Turn) : Pagination → Request
  | .offset => { r with pageNumber := ((Turn.lastNumber? turns).map (· + 1)).or r.pageNumber }
  | .cursor => { r with cursor := (Turn.lastCursor? turns).getD r.cursor }
  | .none => r

/-- Whether the page after a series of calls is the first one, as the handler sees its request. -/
def Returns (h : Handler) (r : Request) (turns : List Turn) : Prop :=
  match h.pagination with
  | .offset => ∀ n, Turn.lastNumber? turns = some n → (h.requestWithDefaults r).pageNumber = some (n + 1)
  | .cursor => ∀ c, Turn.lastCursor? turns = some c →
      (h.requestWithDefaults r).cursor = c.or (defaultCursor? h.defaults)
  | .none => True

theorem carried_nil (r : Request) (pagination : Pagination) : r.carried [] pagination = r := by
  cases pagination <;> rfl

/-- A page moves the request on from where it has come to. -/
theorem carried_page (r : Request) (turns : List Turn) (h : Handler) (response : Response) :
    r.carried (turns ++ [.page h response]) h.pagination =
      Walk.following (r.carried turns h.pagination) h.pagination response.page := by
  cases h.pagination with
  | none => rfl
  | offset =>
    cases hpage : response.page with
    | none => simp [carried, Turn.lastNumber?, Turn.pageNumber?, Walk.following, hpage]
    | some page =>
      cases hnumber : page.pageNumber <;>
        simp [carried, Turn.lastNumber?, Turn.pageNumber?, Walk.following, hpage, hnumber]
  | cursor =>
    cases hpage : response.page <;> simp [carried, Turn.lastCursor?, Turn.nextCursor?, Walk.following, hpage]

/-- A call that answers no page and does not replace the request leaves it where it is. -/
theorem carried_of_none (r : Request) (turns : List Turn) {turn : Turn} (hnumber : turn.pageNumber? = none)
    (hcursor : turn.nextCursor? = none) (pagination : Pagination) :
    r.carried (turns ++ [turn]) pagination = r.carried turns pagination := by
  cases pagination <;> simp [carried, Turn.lastNumber?, Turn.lastCursor?, hnumber, hcursor]

theorem carried_names (r : Request) (turns : List Turn) (pagination : Pagination) :
    (r.carried turns pagination).source = r.source ∧ (r.carried turns pagination).queryType = r.queryType := by
  cases pagination <;> exact ⟨rfl, rfl⟩

/-- With defaults, the request that a walk has come to is the first one exactly if the walk returns to its first
page. -/
theorem requestWithDefaults_carried_iff {h : Handler} {r : Request} {turns : List Turn} :
    h.requestWithDefaults (r.carried turns h.pagination) = h.requestWithDefaults r ↔ r.Returns h turns := by
  unfold Returns Handler.requestWithDefaults
  cases h.pagination with
  | none => exact iff_of_true rfl trivial
  | offset =>
    simp only [carried]
    cases Turn.lastNumber? turns with
    | none => simp
    | some n =>
      simp only [Option.map_some, Option.some_or, Option.some.injEq, forall_eq', withDefaults_pageNumber]
      exact ⟨fun he => (congrArg pageNumber he).symm, fun he => by rw [← he]⟩
  | cursor =>
    simp only [carried]
    cases Turn.lastCursor? turns with
    | none => simp
    | some c =>
      simp only [Option.getD_some, Option.some.injEq, forall_eq', withDefaults_cursor]
      exact ⟨fun he => (congrArg cursor he).symm, fun he => by rw [← he]⟩

/-- What follows on a page depends on the request with defaults only. -/
theorem withDefaults_following {r r' : Request} {defaults : List (String × Json)}
    (h : r'.withDefaults defaults = r.withDefaults defaults) (pagination : Pagination) (page? : Option Page) :
    (Walk.following r' pagination page?).withDefaults defaults =
      (Walk.following r pagination page?).withDefaults defaults := by
  unfold Walk.following
  split
  · split
    · rw [withDefaults_pageNumber, withDefaults_pageNumber, h]
    · exact h
  · next page =>
    rw [withDefaults_cursor r', withDefaults_cursor r, h]
  · exact h

/-- The request of the next page names the same source and the same type of query. -/
theorem following_names (r : Request) (pagination : Pagination) (page? : Option Page) :
    (Walk.following r pagination page?).source = r.source ∧
      (Walk.following r pagination page?).queryType = r.queryType := by
  unfold Walk.following
  repeat' split
  all_goals exact ⟨rfl, rfl⟩

end Request

namespace PageTask

/-- A page depends on the request with defaults only. -/
theorem run_of_filledRequest {t : PageTask} {r : Request} (h : t.handler.requestWithDefaults r = t.filledRequest)
    (b : Route) : ({ t with request := r }).run b = t.run b := by
  have hfilled : ({ t with request := r }).filledRequest = t.filledRequest := h
  unfold run inputs accept
  rw [hfilled]
  rfl

end PageTask

namespace Query

variable {q q' : Query}

/-! ## Queries that ask for the same pages -/

/-- Two queries that stand at the same place of their walks, with requests that are the same with defaults. -/
structure AsksLike (q q' : Query) : Prop where
  registry : q'.registry = q.registry
  options : q'.walk.options = q.walk.options
  phase : q'.walk.phase = q.walk.phase
  fetched : q'.walk.fetched = q.walk.fetched
  source : q'.request.source = q.request.source
  queryType : q'.request.queryType = q.request.queryType
  filled : ∀ h, q.handler = .ok h → h.requestWithDefaults q'.request = h.requestWithDefaults q.request

namespace AsksLike

theorem source_eq (h : q.AsksLike q') : q'.source = q.source := by
  unfold Query.source
  rw [h.registry, h.source]

theorem handler_eq (h : q.AsksLike q') : q'.handler = q.handler := by
  unfold handler
  rw [h.source_eq, h.queryType]

theorem symm (h : q.AsksLike q') : q'.AsksLike q where
  registry := h.registry.symm
  options := h.options.symm
  phase := h.phase.symm
  fetched := h.fetched.symm
  source := h.source.symm
  queryType := h.queryType.symm
  filled handler hh := (h.filled handler (h.handler_eq ▸ hh)).symm

/-- With defaults, their requests are the same. -/
theorem requestWithDefaults_eq (h : q.AsksLike q') : q'.requestWithDefaults = q.requestWithDefaults := by
  have hfilled := h.filled
  unfold requestWithDefaults
  rw [h.handler_eq]
  cases hh : q.handler with
  | error e => rfl
  | ok handler => exact congrArg Except.ok (hfilled handler hh)

/-- Their tasks are the same but for the request. -/
theorem task_eq (h : q.AsksLike q') : q'.task = q.task.map fun t => { t with request := q'.request } := by
  have hrequest : q'.checkRequest = q.checkRequest := by
    unfold checkRequest
    rw [h.source, h.queryType]
  have hsecrets : ∀ handler, q'.checkSecrets handler = q.checkSecrets handler := by
    intro handler
    unfold checkSecrets
    rw [h.phase, h.options]
  have htask : ∀ source handler,
      q'.taskFor source handler = { q.taskFor source handler with request := q'.request } := by
    intro source handler
    unfold taskFor limitFlag Walk.limit
    rw [h.options, h.fetched, h.registry]
  unfold task
  rw [hrequest, h.source_eq, h.queryType]
  cases q.checkRequest with
  | error e => rfl
  | ok u =>
    cases q.source with
    | error e => rfl
    | ok source =>
      simp only [bind, Except.bind, hsecrets, htask]
      cases source.handler q.request.queryType with
      | error e => rfl
      | ok handler => cases hc : q.checkSecrets handler <;> simp only [hc, Except.map]

/-- Their tasks make the same page. -/
theorem run_task_eq (h : q.AsksLike q') {t : PageTask} (ht : q.task = .ok t) (b : Route) :
    ({ t with request := q'.request }).run b = t.run b := by
  refine PageTask.run_of_filledRequest ?_ b
  rw [PageTask.filledRequest, request_of_task ht]
  exact h.filled _ (handler_of_task ht)

/-- After the same page they ask for the same pages. -/
theorem advance (h : q.AsksLike q') (pagination : Pagination) (response : Response) :
    (q.withWalk (q.walk.begin.advance pagination response)).AsksLike
      (q'.withWalk (q'.walk.begin.advance pagination response)) where
  registry := h.registry
  options := h.options
  phase := by
    show Walk.phaseAfter _ _ _ = Walk.phaseAfter _ _ _
    unfold Walk.phaseAfter Walk.isSpent Walk.limit Walk.begin
    rw [h.options, h.fetched]
  fetched := congrArg (· + 1) h.fetched
  source := (Request.following_names _ _ _).1.trans (h.source.trans (Request.following_names _ _ _).1.symm)
  queryType := (Request.following_names _ _ _).2.trans (h.queryType.trans (Request.following_names _ _ _).2.symm)
  filled handler hh := by
    rw [handler_withWalk_advance] at hh
    exact Request.withDefaults_following (h.filled handler hh) _ _

/-- **Their steps answer the same, and they ask for the same pages afterwards.** -/
theorem next (h : q.AsksLike q') {b : Route} {m m' : Machine} {step : Step}
    (hrun : m.run (q.next b) = (some step, m')) :
    ∃ step', m.run (q'.next b) = (some step', m') ∧ step'.result = step.result ∧
      (q.withWalk step.walk).AsksLike (q'.withWalk step'.walk) := by
  have hspent : q'.walk.isSpent = q.walk.isSpent := by
    unfold Walk.isSpent Walk.limit
    rw [h.options, h.fetched]
  have hterminal : q'.walk.phase.isTerminal = q.walk.phase.isTerminal := by rw [h.phase]
  have htask := h.task_eq
  cases run_next_iff.1 hrun with
  | ended ho => exact ⟨_, run_next_iff.2 (.ended (hterminal.trans ho)), rfl, h⟩
  | refused ho ht =>
    rw [ht] at htask
    exact ⟨_, run_next_iff.2 (.refused (hterminal.trans ho) htask), rfl,
      h.registry, h.options, rfl, h.fetched, h.source, h.queryType, h.filled⟩
  | spent ho ht hs =>
    rw [ht] at htask
    exact ⟨_, run_next_iff.2 (.spent (hterminal.trans ho) htask (hspent.trans hs)), rfl,
      h.registry, h.options, rfl, h.fetched, h.source, h.queryType, h.filled⟩
  | failed ho ht hs hr =>
    rw [ht] at htask
    rw [← h.run_task_eq ht b] at hr
    exact ⟨_, run_next_iff.2 (.failed (hterminal.trans ho) htask (hspent.trans hs) hr), rfl,
      h.registry, h.options, rfl, congrArg (· + 1) h.fetched, h.source, h.queryType, h.filled⟩
  | page ho ht hs hr =>
    rw [ht] at htask
    rw [← h.run_task_eq ht b] at hr
    exact ⟨_, run_next_iff.2 (.page (hterminal.trans ho) htask (hspent.trans hs) hr), rfl, h.advance _ _⟩

/-- Any number of calls leads to queries that ask for the same pages. -/
theorem called (h : q.AsksLike q') {site : Nat → Machine × Route} {i : Nat} {p : Query}
    (hp : q.called site i = some p) : ∃ p', q'.called site i = some p' ∧ p.AsksLike p' := by
  induction i generalizing p with
  | zero =>
    cases hp
    exact ⟨q', rfl, h⟩
  | succ i ih =>
    obtain ⟨p₀, hbefore, hcall⟩ := Option.bind_eq_some_iff.1 hp
    obtain ⟨step, hstep, rfl⟩ := Option.map_eq_some_iff.1 hcall
    obtain ⟨p₀', hbefore', hlike⟩ := ih hbefore
    obtain ⟨step', hrun, -, hnext⟩ := hlike.next (Prod.ext hstep rfl)
    refine ⟨_, ?_, hnext⟩
    rw [Query.called, hbefore', Option.bind_some, hrun]
    rfl

/-- What a call answers on the one it answers on the other. -/
theorem answer?_of_eq (h : q.AsksLike q') {site : Nat → Machine × Route} {i : Nat}
    {result : Except Error (Option Response)} (ha : q.answer? site i = some result) :
    q'.answer? site i = some result := by
  obtain ⟨p, hp, hcall⟩ := Option.bind_eq_some_iff.1 ha
  obtain ⟨step, hstep, rfl⟩ := Option.map_eq_some_iff.1 hcall
  obtain ⟨p', hp', hlike⟩ := h.called hp
  obtain ⟨step', hrun, hresult, -⟩ := hlike.next (Prod.ext hstep rfl)
  rw [answer?, hp', Option.bind_some, hrun, ← hresult]
  rfl

end AsksLike

/-- The request, with defaults, that the call after the given number of calls is made with. -/
def asked? (q : Query) (site : Nat → Machine × Route) (i : Nat) : Option (Except PaginationError Request) :=
  (q.called site i).map requestWithDefaults

theorem AsksLike.asked?_of_eq (h : q.AsksLike q') {site : Nat → Machine × Route} {i : Nat}
    {request : Except PaginationError Request} (ha : q.asked? site i = some request) :
    q'.asked? site i = some request := by
  obtain ⟨p, hp, rfl⟩ := Option.map_eq_some_iff.1 ha
  obtain ⟨p', hp', hlike⟩ := h.called hp
  rw [asked?, hp', Option.map_some, hlike.requestWithDefaults_eq]

/-- **Queries that ask for the same pages are asked the same and answer the same**, on whatever machines they are
called. -/
theorem AsksLike.calls_eq (h : q.AsksLike q') (site : Nat → Machine × Route) (i : Nat) :
    q'.asked? site i = q.asked? site i ∧ q'.answer? site i = q.answer? site i :=
  ⟨Option.ext fun _ => ⟨h.symm.asked?_of_eq, h.asked?_of_eq⟩,
    Option.ext fun _ => ⟨h.symm.answer?_of_eq, h.answer?_of_eq⟩⟩

/-! ## Going back -/

/-- A call that does not replace the request leaves the registry and the handler. -/
theorem handler_of_turns {turn : Turn} (ht : q.Turns turn q') (hset : ∀ r, turn ≠ .setRequest r) :
    q'.registry = q.registry ∧ q'.handler = q.handler := by
  have hregistry : q'.registry = q.registry := by cases ht <;> rfl
  have hnames : q'.request.source = q.request.source ∧ q'.request.queryType = q.request.queryType := by
    unfold request
    rw [(walk_of_turns ht).1]
    cases turn with
    | setRequest r => exact absurd rfl (hset r)
    | page => exact Request.following_names _ _ _
    | ended => exact ⟨rfl, rfl⟩
    | failed => exact ⟨rfl, rfl⟩
    | setOptions => exact ⟨rfl, rfl⟩
    | rewind => exact ⟨rfl, rfl⟩
  refine ⟨hregistry, ?_⟩
  unfold handler source
  rw [hregistry, hnames.1, hnames.2]

/-- **The request that a series of calls leads to, if none of them replaces it.** -/
theorem request_of_series {turns : List Turn} {h : Handler} (hs : q.Series turns q')
    (hset : ∀ r, Turn.setRequest r ∉ turns) (hh : q.handler = .ok h) :
    q'.registry = q.registry ∧ q'.handler = .ok h ∧
      q'.walk.request = q.walk.request.carried turns h.pagination := by
  induction hs with
  | nil => exact ⟨rfl, hh, (Request.carried_nil _ _).symm⟩
  | @snoc p _ turns turn _ ht ih =>
    obtain ⟨hregistry, hhandler, hrequest⟩ := ih fun r hr => hset r (List.mem_append_left _ hr)
    have hlast : ∀ r, turn ≠ .setRequest r := fun r hr =>
      hset r (List.mem_append_right _ (hr ▸ List.mem_singleton_self turn))
    obtain ⟨hregistry', hhandler'⟩ := handler_of_turns ht hlast
    refine ⟨hregistry'.trans hregistry, hhandler'.trans hhandler, ?_⟩
    rw [(walk_of_turns ht).1, hrequest]
    cases ht with
    | setRequest r => exact absurd rfl (hlast r)
    | page _ _ hp =>
      obtain rfl : h = _ := Except.ok.inj (hhandler.symm.trans hp)
      exact (Request.carried_page _ _ _ _).symm
    | ended => exact (Request.carried_of_none _ _ rfl rfl _).symm
    | failed => exact (Request.carried_of_none _ _ rfl rfl _).symm
    | setOptions => exact (Request.carried_of_none _ _ rfl rfl _).symm
    | rewind => exact (Request.carried_of_none _ _ rfl rfl _).symm

/-- The request of a fresh query with defaults, if it names a handler under the names of the given one. -/
theorem requestWithDefaults_start {registry : Registry} {r r' : Request} {options options' : QueryOptions} {h : Handler}
    (hh : (⟨registry, .start r options⟩ : Query).handler = .ok h) (hsource : r'.source = r.source)
    (htype : r'.queryType = r.queryType) :
    (⟨registry, .start r' options'⟩ : Query).requestWithDefaults = .ok (h.requestWithDefaults r') := by
  have hh' : (⟨registry, .start r' options'⟩ : Query).handler = .ok h := by
    unfold handler source request Walk.start at hh ⊢
    rwa [hsource, htype]
  unfold requestWithDefaults
  rw [hh']
  rfl

/-- Fresh queries ask for the same pages if their requests name the same handler and are the same to it. -/
theorem asksLike_start {registry : Registry} {r r' : Request} {options : QueryOptions} {h : Handler}
    (hh : (⟨registry, .start r options⟩ : Query).handler = .ok h) (hsource : r'.source = r.source)
    (htype : r'.queryType = r.queryType) (hfilled : h.requestWithDefaults r' = h.requestWithDefaults r) :
    AsksLike ⟨registry, .start r options⟩ ⟨registry, .start r' options⟩ where
  registry := rfl
  options := rfl
  phase := rfl
  fetched := rfl
  source := hsource
  queryType := htype
  filled handler hhandler := by
    cases hh.symm.trans hhandler
    exact hfilled

/-- **What going back to the beginning comes to.** After any series of calls that does not replace the request, going
back to the beginning or replacing the options leaves a fresh query, with the options in force and with the request
that the pages have moved on to: the page number after the last one, or the cursor that the last page has handed on,
stays. The calls on it are made with the same requests as those on the fresh query of the first request, on whatever
machines they run, exactly if the next page is the first one again; and then they also answer the same. -/
theorem restart_of_series {registry : Registry} {r : Request} {options : QueryOptions} {turns : List Turn} {q : Query}
    {h : Handler} (hs : Series ⟨registry, .start r options⟩ turns q) (hset : ∀ r', Turn.setRequest r' ∉ turns)
    (hh : (⟨registry, .start r options⟩ : Query).handler = .ok h) :
    q.withWalk q.walk.rewind = ⟨registry, .start (r.carried turns h.pagination) q.walk.options⟩ ∧
      (∀ options', q.withWalk (q.walk.setOptions options') =
        ⟨registry, .start (r.carried turns h.pagination) options'⟩) ∧
      ∀ options',
        ((∀ site i, (⟨registry, .start (r.carried turns h.pagination) options'⟩ : Query).asked? site i =
            (⟨registry, .start r options'⟩ : Query).asked? site i) ↔ r.Returns h turns) ∧
        (r.Returns h turns → ∀ site i,
          (⟨registry, .start (r.carried turns h.pagination) options'⟩ : Query).answer? site i =
            (⟨registry, .start r options'⟩ : Query).answer? site i) := by
  obtain ⟨hregistry, -, hrequest⟩ := request_of_series hs hset hh
  have hfresh : ∀ options', (⟨q.registry, .start q.walk.request options'⟩ : Query) =
      ⟨registry, .start (r.carried turns h.pagination) options'⟩ := fun options' => by rw [hregistry, hrequest]; rfl
  refine ⟨hfresh q.walk.options, hfresh, fun options' => ?_⟩
  obtain ⟨hsource, htype⟩ := Request.carried_names r turns h.pagination
  have hlike : r.Returns h turns →
      AsksLike ⟨registry, .start r options'⟩ ⟨registry, .start (r.carried turns h.pagination) options'⟩ :=
    fun hreturns => asksLike_start hh hsource htype (Request.requestWithDefaults_carried_iff.2 hreturns)
  refine ⟨⟨fun hasked => ?_, fun hreturns site i => ((hlike hreturns).calls_eq site i).1⟩,
    fun hreturns site i => ((hlike hreturns).calls_eq site i).2⟩
  -- the first call is made with the request as it stands
  have hfirst : requestWithDefaults ⟨registry, .start (r.carried turns h.pagination) options'⟩ =
      requestWithDefaults ⟨registry, .start r options'⟩ :=
    Option.some.inj (hasked (fun _ => (.start .blank, [])) 0)
  rw [requestWithDefaults_start hh hsource htype, requestWithDefaults_start hh rfl rfl] at hfirst
  exact Request.requestWithDefaults_carried_iff.1 (Except.ok.inj hfirst)

/-- After its second page, which hands on no mark, the circle begins again where it began. -/
theorem restart_of_circle :
    ∃ q, Series circleQuery [.page circleHandler (circleResponse 0), .page circleHandler (circleResponse 1)] q ∧
      (∀ r', Turn.setRequest r' ∉
        [Turn.page circleHandler (circleResponse 0), Turn.page circleHandler (circleResponse 1)]) ∧
      circleQuery.handler = .ok circleHandler ∧
      ∀ site i, (q.withWalk q.walk.rewind).asked? site i = circleQuery.asked? site i ∧
        (q.withWalk q.walk.rewind).answer? site i = circleQuery.answer? site i := by
  have hmade : ∀ k < 2, ((Machine.start .blank).run
      (((circleQuery.taskFor circleSource circleHandler).nth 3 (.ok ∘ circleResponse) k).run [])).1 =
        some (.ok (circleResponse k)) := by
    intro k hk
    match k, hk with
    | 0, _ => exact congrArg Prod.fst (Machine.drive_of_result rfl _)
    | 1, _ => exact congrArg Prod.fst (Machine.drive_of_result rfl _)
  have hfirst := run_next_iff.2 (.page (q := circleQuery) rfl rfl rfl (Prod.ext (hmade 0 (by decide)) rfl))
  have hsecond := run_next_iff.2 (.page
    (q := circleQuery.withWalk (circleQuery.walk.begin.advance .cursor (circleResponse 0))) rfl rfl rfl
    (Prod.ext (hmade 1 (by decide)) rfl))
  have hs : Series circleQuery [.page circleHandler (circleResponse 0), .page circleHandler (circleResponse 1)] _ :=
    .snoc (.snoc (.nil _) (.page hfirst rfl rfl)) (.page hsecond rfl rfl)
  have hset : ∀ r', Turn.setRequest r' ∉
      [Turn.page circleHandler (circleResponse 0), Turn.page circleHandler (circleResponse 1)] := by simp
  obtain ⟨hrewind, -, hcalls⟩ := restart_of_series hs hset rfl
  obtain ⟨hasked, hanswer⟩ := hcalls ⟨[], 3, false⟩
  have hreturns : Request.Returns circleHandler (.plain "s" "circle")
      [.page circleHandler (circleResponse 0), .page circleHandler (circleResponse 1)] := by
    rintro c ⟨⟩
    rfl
  refine ⟨_, hs, hset, rfl, fun site i => ?_⟩
  rw [hrewind]
  exact ⟨hasked.2 hreturns site i, hanswer hreturns site i⟩

/-- After its first page, a listing of numbered pages begins again with its second one. -/
theorem asked_after_first_page :
    ∃ q, Series sampleQuery [.page sampleHandler sampleResponse] q ∧ sampleHandler.pagination = .offset ∧
      (∀ site, sampleQuery.asked? site 0 = some (.ok (.plain "s" "list")) ∧
        (q.withWalk q.walk.rewind).asked? site 0 =
          some (.ok { Request.plain "s" "list" with pageNumber := some 2 })) ∧
      (¬ ∀ site i, (q.withWalk q.walk.rewind).asked? site i = sampleQuery.asked? site i) ∧
      ∀ options, ¬ ∀ site i, (q.withWalk (q.walk.setOptions options)).asked? site i =
        (⟨sampleQuery.registry, .start (.plain "s" "list") options⟩ : Query).asked? site i := by
  have hrun : (Machine.start .blank).run ((sampleQuery.taskFor sampleSource sampleHandler).run []) =
      (some (.ok sampleResponse), _) := Machine.drive_of_result rfl _
  have hnext := run_next_iff.2 (.page (q := sampleQuery) rfl rfl rfl hrun)
  refine ⟨_, .snoc (.nil _) (.page hnext rfl rfl), rfl, fun site => ⟨rfl, rfl⟩, fun h => ?_, fun options h => ?_⟩
  · exact absurd (h (fun _ => (.start .blank, [])) 0) (by rintro ⟨⟩)
  · exact absurd (h (fun _ => (.start .blank, [])) 0) (by rintro ⟨⟩)

end Query

end MediaQuery
