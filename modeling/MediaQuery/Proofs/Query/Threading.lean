import MediaQuery.Proofs.Query.Extent
import MediaQuery.Proofs.Query.Reading

/-!
# From page to page

The request that the templates of a page see comes from the request before it in one place only: the page number or
the cursor (`Request.Threaded`). Defaults are filled in anew on every page, which changes nothing, since filling one
part never looks at another (`Request.withDefaults_pageNumber`, `Request.withDefaults_cursor`); one call threads the
request into the next (`threaded_of_call`), so the whole walk does (`requests_threaded`).
-/

namespace MediaQuery

namespace Request

/-! ## Defaults -/

/-- The cursor that defaults give: the first readable one under the name. -/
def defaultCursor? (defaults : List (String × Json)) : Option Cursor :=
  defaults.findSome? fun e => if e.1 = "cursor" then Cursor.ofJson? e.2 else none

/-- What one default does: the one for the page number or the cursor is put where there is none, and one without a
reserved name becomes a parameter where there is none of that name. -/
theorem fill_eq (r : Request) (name : String) (default : Json) :
    r.fill name default =
      { r with
        pageNumber := r.pageNumber.or (if name = "pageNumber" then word? default else none)
        cursor := r.cursor.or (if name = "cursor" then Cursor.ofJson? default else none)
        params := if name ∈ reserved ∨ (r.params.lookup name).isSome then r.params
          else Fields.put name default r.params } := by
  obtain ⟨source, queryType, pageNumber, cursor, params⟩ := r
  unfold fill
  split
  · simp [reserved]
  · simp [reserved]
  · cases pageNumber <;> simp [reserved]
  · cases cursor <;> simp [reserved]
  · next hsource hquery hnumber hcursor =>
    have hname : name ∉ reserved := by simpa [reserved] using ⟨hsource, hquery, hnumber, hcursor⟩
    simp only [if_neg hnumber, if_neg hcursor, Option.or_none, hname, false_or]
    split <;> rfl

/-- A page number that is there stays, and nothing else that is filled depends on it. -/
theorem fill_pageNumber (r : Request) (n : Int64) (name : String) (default : Json) :
    { r with pageNumber := some n }.fill name default = { r.fill name default with pageNumber := some n } := by
  rw [fill_eq, fill_eq, Option.some_or]

/-- A cursor is filled in where there is none, and nothing else that is filled depends on it. -/
theorem fill_cursor (r : Request) (c : Option Cursor) (name : String) (default : Json) :
    { r with cursor := c }.fill name default =
      { r.fill name default with
        cursor := c.or (if name = "cursor" then Cursor.ofJson? default else none) } := by
  rw [fill_eq, fill_eq]

theorem withDefaults_cons (r : Request) (e : String × Json) (rest : List (String × Json)) :
    r.withDefaults (e :: rest) = (r.fill e.1 e.2).withDefaults rest := rfl

theorem withDefaults_pageNumber (r : Request) (n : Int64) (defaults : List (String × Json)) :
    { r with pageNumber := some n }.withDefaults defaults =
      { r.withDefaults defaults with pageNumber := some n } := by
  induction defaults generalizing r with
  | nil => rfl
  | cons e rest ih => rw [withDefaults_cons, fill_pageNumber, ih, withDefaults_cons]

theorem withDefaults_cursor (r : Request) (c : Option Cursor) (defaults : List (String × Json)) :
    { r with cursor := c }.withDefaults defaults =
      { r.withDefaults defaults with cursor := c.or (defaultCursor? defaults) } := by
  induction defaults generalizing r c with
  | nil => exact congrArg (fun c => { r with cursor := c }) Option.or_none.symm
  | cons e rest ih =>
    rw [withDefaults_cons, fill_cursor, ih, withDefaults_cons, Option.or_assoc]
    have hfirst : defaultCursor? (e :: rest) =
        (if e.1 = "cursor" then Cursor.ofJson? e.2 else none).or (defaultCursor? rest) := by
      unfold defaultCursor?
      rw [List.findSome?_cons]
      cases (if e.1 = "cursor" then Cursor.ofJson? e.2 else none) <;> rfl
    rw [hfirst]

/-! ## The request of the next page -/

/-- What the request that templates see becomes from one page to the next, given the body of the first: the next page
number, or the cursor that the page hands on, or the default one. -/
inductive Threaded (h : Handler) (body : Value) (r : Request) : Request → Prop
  | offset {n : Int64} (hp : h.pagination = .offset) (hn : body.pageField? "pageNumber" = some (.integer n)) :
      Threaded h body r { r with pageNumber := some (n + 1) }
  | text {s : String} (hp : h.pagination = .cursor) (hs : body.pageField? "nextCursor" = some (.string s)) :
      Threaded h body r { r with cursor := some (.text s) }
  | number {n : Int64} (hp : h.pagination = .cursor) (hn : body.pageField? "nextCursor" = some (.integer n)) :
      Threaded h body r { r with cursor := some (.number n) }
  | null (hp : h.pagination = .cursor) (hnull : body.pageField? "nextCursor" = some .null) :
      Threaded h body r { r with cursor := defaultCursor? h.defaults }

/-- The same request but for the part that paginates. -/
def SameBut (pagination : Pagination) (r r' : Request) : Prop :=
  match pagination with
  | .offset => r' = { r with pageNumber := r'.pageNumber }
  | .cursor => r' = { r with cursor := r'.cursor }
  | .none => r' = r

theorem SameBut.refl (pagination : Pagination) (r : Request) : SameBut pagination r r := by
  cases pagination <;> rfl

theorem SameBut.trans {pagination : Pagination} {r r' r'' : Request} (h : SameBut pagination r r')
    (h' : SameBut pagination r' r'') : SameBut pagination r r'' := by
  cases pagination with
  | offset =>
    unfold SameBut at *
    rw [h', h]
  | cursor =>
    unfold SameBut at *
    rw [h', h]
  | none => exact Eq.trans h' h

theorem Threaded.sameBut {h : Handler} {body : Value} {r r' : Request} (ht : Threaded h body r r') :
    SameBut h.pagination r r' := by
  cases ht with
  | offset hp => rw [hp]; rfl
  | text hp => rw [hp]; rfl
  | number hp => rw [hp]; rfl
  | null hp => rw [hp]; rfl

end Request

namespace PageTask

/-- **A page of a handler that paginates threads the request on**, defaults included. -/
theorem threaded_of_run {t : PageTask} {b : Route} {m m' : Machine} {response : Response}
    (h : m.run (t.run b) = (some (.ok response), m')) (hp : t.handler.pagination ≠ .none)
    (hd : response.body.HasDistinctPageNames) :
    t.filledRequest.Threaded t.handler response.body
      (t.handler.requestWithDefaults (Walk.following t.request t.handler.pagination response.page)) := by
  unfold filledRequest Handler.requestWithDefaults
  cases hkind : t.handler.pagination with
  | none => exact absurd hkind hp
  | offset =>
    obtain ⟨page, n, hpage, hnumber, hfield⟩ := pageNumber_of_run h hkind hd
    have hfollowing : Walk.following t.request .offset response.page = { t.request with pageNumber := some (n + 1) } := by
      rw [hpage, Walk.following, hnumber]
    rw [hfollowing, Request.withDefaults_pageNumber t.request (n + 1)]
    exact .offset hkind hfield
  | cursor =>
    obtain ⟨page, hpage, hnext⟩ := nextCursor_of_run h hkind hd
    have hfollowing : Walk.following t.request .cursor response.page = { t.request with cursor := page.nextCursor } := by
      rw [hpage, Walk.following]
    rw [hfollowing, Request.withDefaults_cursor t.request page.nextCursor]
    rcases hnext with ⟨s, hfield, hcursor⟩ | ⟨n, hfield, hcursor⟩ | ⟨hfield, hcursor⟩
    · rw [hcursor]
      exact .text hkind hfield
    · rw [hcursor]
      exact .number hkind hfield
    · rw [hcursor]
      exact .null hkind hfield

end PageTask

namespace Query

/-- A call that answers a page has run the task of the query. -/
theorem page_of_next {q : Query} {b : Route} {m m' : Machine} {step : Step} {response : Response}
    (h : m.run (q.next b) = (some step, m')) (hr : step.result = .ok (some response)) :
    ∃ t, q.task = .ok t ∧ m.run (t.run b) = (some (.ok response), m') ∧
      step.walk = q.walk.begin.advance t.handler.pagination response := by
  cases run_next_iff.1 h with
  | ended => cases hr
  | refused => cases hr
  | spent => cases hr
  | failed => cases hr
  | page _ ht _ hrun =>
    cases hr
    exact ⟨_, ht, hrun, rfl⟩

/-- The task of a page is for the request of the query. -/
theorem request_of_task {q : Query} {t : PageTask} (h : q.task = .ok t) : t.request = q.walk.request := by
  obtain ⟨-, source, -, handler, -, -, rfl⟩ := task_eq_ok_iff.1 h
  rfl

/-- A call in a row that answers a page has run the task of its query, and the next call is made where it leads. -/
theorem page_of_answer? {q : Query} {site : Nat → Machine × Route} {i : Nat} {response : Response}
    (h : q.answer? site i = some (.ok (some response))) :
    ∃ q' t, q.called site i = some q' ∧ q'.task = .ok t ∧
      (∃ m', (site i).1.run (t.run (site i).2) = (some (.ok response), m')) ∧
      q.called site (i + 1) = some (q'.withWalk (q'.walk.begin.advance t.handler.pagination response)) := by
  obtain ⟨q', hcalled, hcall⟩ := Option.bind_eq_some_iff.1 h
  obtain ⟨step, hstep, hresult⟩ := Option.map_eq_some_iff.1 hcall
  obtain ⟨t, ht, hrun, hwalk⟩ := page_of_next (Prod.ext hstep rfl) hresult
  refine ⟨q', t, hcalled, ht, ⟨_, hrun⟩, ?_⟩
  rw [called, hcalled, Option.bind_some, hstep, Option.map_some, hwalk]

/-- **The requests of a walk.** In a run of calls that all answer pages, on whatever machines they run, the request
that the templates of each page see comes from the one before by threading the page in between, and so is the first
one but for the part that paginates. -/
theorem requests_threaded {q : Query} {site : Nat → Machine × Route} {pages : Nat} {response : Nat → Response}
    (hpages : ∀ i < pages, q.answer? site i = some (.ok (some (response i))))
    (hd : ∀ i < pages, (response i).body.HasDistinctPageNames) {h : Handler} (hh : q.handler = .ok h)
    (hp : h.pagination ≠ .none) :
    ∃ task : Nat → PageTask,
      (∀ i < pages, (task i).handler = h ∧ ∃ q', q.called site i = some q' ∧ q'.task = .ok (task i)) ∧
      (∀ i, i + 1 < pages →
        (task i).inputs.request.Threaded h (response i).body (task (i + 1)).inputs.request) ∧
      ∀ i < pages, Request.SameBut h.pagination (task 0).inputs.request (task i).inputs.request := by
  have hhandler : ∀ i, i < pages → ∀ q', q.called site i = some q' → q'.handler = .ok h := by
    intro i
    induction i with
    | zero =>
      rintro - q' hcalled
      cases hcalled
      exact hh
    | succ i ih =>
      intro hi q' hcalled
      obtain ⟨q'', t, hbefore, -, -, hnext⟩ := page_of_answer? (hpages i (Nat.lt_of_succ_lt hi))
      cases hnext.symm.trans hcalled
      rw [handler_withWalk_advance]
      exact ih (Nat.lt_of_succ_lt hi) q'' hbefore
  have hcalls : ∀ i < pages, ∃ t q', q.called site i = some q' ∧ q'.task = .ok t ∧ t.handler = h ∧
      (∃ m', (site i).1.run (t.run (site i).2) = (some (.ok (response i)), m')) ∧
      q.called site (i + 1) = some (q'.withWalk (q'.walk.begin.advance t.handler.pagination (response i))) := by
    intro i hi
    obtain ⟨q', t, hcalled, ht, hrun, hnext⟩ := page_of_answer? (hpages i hi)
    have hsame := (handler_of_task ht).symm.trans (hhandler i hi q' hcalled)
    exact ⟨t, q', hcalled, ht, Except.ok.inj hsame, hrun, hnext⟩
  choose! task htask using hcalls
  have hthreaded : ∀ i, i + 1 < pages →
      (task i).inputs.request.Threaded h (response i).body (task (i + 1)).inputs.request := by
    intro i hi
    obtain ⟨q', -, ht, hth, ⟨m', hrun⟩, hnext⟩ := htask i (Nat.lt_of_succ_lt hi)
    obtain ⟨q'', hcalled, ht', hth', -, -⟩ := htask (i + 1) hi
    cases hnext.symm.trans hcalled
    have hthread := PageTask.threaded_of_run hrun (by rwa [hth]) (hd i (Nat.lt_of_succ_lt hi))
    have hrequest : (task (i + 1)).request =
        Walk.following (task i).request (task i).handler.pagination (response i).page := by
      rw [request_of_task ht', request_of_task ht]
      rfl
    have hseen : (task (i + 1)).inputs.request =
        (task i).handler.requestWithDefaults
          (Walk.following (task i).request (task i).handler.pagination (response i).page) := by
      show (task (i + 1)).handler.requestWithDefaults (task (i + 1)).request = _
      rw [hth', hth, hrequest, hth]
    rw [hseen]
    rwa [hth] at hthread ⊢
  refine ⟨task, fun i hi => ?_, hthreaded, fun i => ?_⟩
  · obtain ⟨q', hcalled, ht, hth, -, -⟩ := htask i hi
    exact ⟨hth, q', hcalled, ht⟩
  · induction i with
    | zero => exact fun _ => .refl _ _
    | succ i ih => exact fun hi => (ih (Nat.lt_of_succ_lt hi)).trans (hthreaded i hi).sameBut

/-! ## A listing of two marks in a circle -/

/-- The body of a page: after the first mark comes the second, and after that none is handed on. -/
def circleBody (r : Request) (fetchLimitReached : Bool) : Value :=
  .map [("page", .map [("paginationType", .string "cursor"), ("cursor", .null),
      ("nextCursor", if r.cursor = some (.text "first") then .string "second" else .null),
      ("pageFetchLimitReached", .bool fetchLimitReached)]),
    ("media", .list []),
    ("request", r.toValue)]

/-- The handler of the listing, which begins at the first mark unless the request says otherwise. -/
def circleHandler : Handler :=
  { id := "circle"
    displayName := "Circle"
    description := ""
    pagination := .cursor
    defaults := [("cursor", .str "first")]
    secrets := []
    responses := [
      { accepts := none
        validator := Validation.acceptAll
        template := .action (.act (.inputs []) fun inputs =>
          .done (.ok (.value (circleBody inputs.request (inputs.fetchLimitReached = some true))))) }] }

/-- The source of the listing. -/
def circleSource : Source := ⟨"s", "S", "", [circleHandler]⟩

/-- A query of at most three pages of the listing. -/
def circleQuery : Query := ⟨⟨[("s", circleSource)], .empty⟩, .start (.plain "s" "circle") ⟨[], 3, false⟩⟩

/-- The responses of the listing: the cursor of one page is handed on to the next, and the one after that has the
default again. -/
def circleResponse (i : Nat) : Response :=
  let r : Request := { Request.plain "s" "circle" with cursor := some (.text (if i = 1 then "second" else "first")) }
  { page := some ⟨.cursor, none, none, if i = 1 then none else some (.text "second"), none, none, none, i = 2⟩
    media := []
    request := r
    body := circleBody r (i = 2) }

theorem distinctNames_circleBody (r : Request) (fetchLimitReached : Bool) :
    (circleBody r fetchLimitReached).HasDistinctPageNames where
  own := by
    rintro _ ⟨⟩
    simp [Fields.names]
  page := by
    rintro _ ⟨⟩ _ ⟨⟩
    simp [Fields.names]

/-- Three pages of the listing: after a page that hands on no cursor comes the default one again. -/
theorem requests_threaded_in_circle :
    ∃ task : Nat → PageTask,
      (task 1).inputs.request.Threaded circleHandler (circleResponse 1).body (task 2).inputs.request ∧
        Request.SameBut .cursor (task 0).inputs.request (task 2).inputs.request := by
  have hmade : ∀ k < 3, ((Machine.start .blank).run
      (((circleQuery.taskFor circleSource circleHandler).nth 3 (.ok ∘ circleResponse) k).run [])).1 =
        some (.ok (circleResponse k)) := by
    intro k hk
    match k, hk with
    | 0, _ => exact congrArg Prod.fst (Machine.drive_of_result rfl _)
    | 1, _ => exact congrArg Prod.fst (Machine.drive_of_result rfl _)
    | 2, _ => exact congrArg Prod.fst (Machine.drive_of_result rfl _)
  have hpages : ∀ i < 3, circleQuery.answer? (fun _ => (.start .blank, [])) i =
      some (.ok (some (circleResponse i))) := by
    intro i hi
    have hanswer := @answer?_eq circleQuery (circleQuery.taskFor circleSource circleHandler) (.ok ∘ circleResponse)
      rfl rfl rfl (fun _ => (.start .blank, [])) hmade i
    exact hanswer.trans (congrArg some (if_pos hi))
  obtain ⟨task, -, hthreaded, hsame⟩ :=
    requests_threaded hpages (fun i _ => distinctNames_circleBody _ _) (h := circleHandler) rfl (by decide)
  exact ⟨task, hthreaded 1 (by decide), hsame 2 (by decide)⟩

end Query

end MediaQuery
