import MediaQuery.Proofs.Query.Reading

/-!
# What a made page is like

Three checks stand between an evaluated template and a response: the shape that all responses share
(`Validation.issues_eq_nil_iff`), the contract of the handler's pagination, and the handler's own validator. The reader
then goes through JSON, where the same entries are found again. Together they give the postcondition of a page
(`PageTask.checked_of_run`).
-/

namespace MediaQuery

namespace Value

/-- A medium of a source: a map that names no other source. -/
def BelongsTo (source : String) (v : Value) : Prop :=
  (∃ entries, v = .map entries) ∧ ∀ found, v.get? "mediaFinderSource" = some found → found = .string source

theorem asMap?_isNone_eq_false_iff {v : Value} : v.asMap?.isNone = false ↔ ∃ entries, v = .map entries := by
  cases v <;> simp [asMap?]

theorem asString?_eq_some_iff {v : Value} {s : String} : v.asString? = some s ↔ v = .string s := by
  cases v <;> simp [asString?]

/-- Only a truth value is read as one. -/
theorem asBool?_toJson (v : Value) : v.toJson.asBool? = v.asBool? := by
  cases v with
  | number x =>
    simp only [toJson, jsonOfFloat]
    split <;> rfl
  | _ =>
    simp only [toJson]
    rfl

end Value

/-! ## The shape of a response -/

namespace Validation

variable {source : String}

theorem mediumIssue?_eq_none_iff {i : Nat} {medium : Value} :
    mediumIssue? source i medium = none ↔ medium.BelongsTo source := by
  unfold mediumIssue? Value.BelongsTo
  cases hmap : medium.asMap?.isNone with
  | true =>
    have hno : ¬ ∃ entries, medium = .map entries := fun h => by
      rw [Value.asMap?_isNone_eq_false_iff.2 h] at hmap
      cases hmap
    exact iff_of_false (fun h => by cases h) fun h => hno h.1
  | false =>
    refine Iff.trans ?_ (and_iff_right (Value.asMap?_isNone_eq_false_iff.1 hmap)).symm
    cases medium.get? "mediaFinderSource" with
    | none => exact iff_of_true rfl fun found hfound => by cases hfound
    | some found =>
      show (if found.asString? = some source then none else some _) = none ↔ _
      by_cases hsource : found.asString? = some source
      · rw [if_pos hsource]
        exact iff_of_true rfl fun other hother =>
          Option.some.inj hother ▸ Value.asString?_eq_some_iff.1 hsource
      · rw [if_neg hsource]
        exact iff_of_false (fun h => by cases h) fun h => hsource (Value.asString?_eq_some_iff.2 (h found rfl))

/-- Media have no problem if every one that is not excluded is of the source. -/
theorem mediaIssuesFrom_eq_nil_iff {i : Nat} {items : List Value} :
    mediaIssuesFrom source i items = [] ↔ ∀ medium ∈ items, medium.isExclude = false → medium.BelongsTo source := by
  induction items generalizing i with
  | nil => exact iff_of_true rfl fun _ h => absurd h List.not_mem_nil
  | cons medium rest ih =>
    unfold mediaIssuesFrom
    rw [List.append_eq_nil_iff, ih, List.forall_mem_cons]
    refine and_congr_left fun _ => ?_
    cases hexclude : medium.isExclude with
    | true => exact iff_of_true rfl fun h => by cases h
    | false =>
      rw [if_neg (by simp), Option.toList_eq_nil_iff, mediumIssue?_eq_none_iff]
      exact ⟨fun h _ => h, fun h => h rfl⟩

theorem mediaIssues_eq_nil_iff {media : Option Value} : mediaIssues source media = [] ↔
    ∃ items, media = some (.list items) ∧ ∀ medium ∈ items, medium.isExclude = false → medium.BelongsTo source := by
  unfold mediaIssues
  cases media with
  | none => simp
  | some v => cases v <;> simp [Value.asList?, mediaIssuesFrom_eq_nil_iff]

/-- The request has no problem if it is a map with the JSON form of the request that is answered. -/
theorem requestIssues_eq_nil_iff {request : Value} {found : Option Value} : requestIssues request found = [] ↔
    ∃ entries, found = some (.map entries) ∧ ((Value.map entries).toJson == request.toJson) = true := by
  unfold requestIssues
  cases found with
  | none => simp
  | some v => cases v <;> simp [Value.asMap?]

/-- **A body without issues is a map with media of the source and with the request that it answers.** -/
theorem issues_eq_nil_iff {request body : Value} : issues request source body = [] ↔
    (∃ entries, body = .map entries) ∧ mediaIssues source (body.get? "media") = [] ∧
      requestIssues request (body.get? "request") = [] := by
  unfold issues
  cases hmap : body.asMap?.isNone with
  | true =>
    have hno : ¬ ∃ entries, body = .map entries := fun h => by
      rw [Value.asMap?_isNone_eq_false_iff.2 h] at hmap
      cases hmap
    exact iff_of_false (fun h => by cases h) fun h => hno h.1
  | false =>
    rw [if_neg (by simp), List.append_eq_nil_iff]
    exact (and_iff_right (Value.asMap?_isNone_eq_false_iff.1 hmap)).symm

end Validation

/-! ## The page -/

namespace Page

/-- The budget mark of a page that is read, given what the contract finds under it: false if it finds none. -/
theorem ReadsFrom.fetchLimitReached_eq {v : Value} {page : Page} (h : page.ReadsFrom v.field?) :
    page.fetchLimitReached = (v.get? "pageFetchLimitReached" >>= Value.asBool?).getD false := by
  have hflag := h.fetchLimitReached
  unfold Value.field? at hflag
  cases hmark : v.get? "pageFetchLimitReached" with
  | none =>
    rw [hmark] at hflag
    exact (Option.some.inj hflag).symm
  | some mark =>
    rw [hmark, Option.filter_some] at hflag
    cases hexclude : mark.isExclude with
    | true =>
      rw [hexclude] at hflag
      obtain rfl : mark = .exclude := by cases mark <;> first | rfl | cases hexclude
      exact (Option.some.inj hflag).symm
    | false =>
      rw [hexclude] at hflag
      have hbool : mark.asBool? = some page.fetchLimitReached := (Value.asBool?_toJson mark).symm.trans hflag
      rw [Option.bind_eq_bind, Option.bind_some, hbool, Option.getD_some]

/-- The kind of a page that is read is the one that its value names. -/
theorem ReadsFrom.pagination_eq {v : Value} {page : Page} (h : page.ReadsFrom v.field?) {kind : Pagination}
    (hkind : v.get? "paginationType" = some (.string kind.name)) : page.pagination = kind := by
  have hname := h.pagination
  rw [Value.field?_of_some hkind rfl] at hname
  simp only [Value.toJson] at hname
  exact (Option.some.inj ((Pagination.ofName?_name kind).symm.trans hname)).symm

end Page

namespace Response

/-- A body whose page is absent or null gives no page. -/
theorem page_eq_none {body : Value} {response : Response} (h : ofValue? body = some response)
    (hp : body.get? "page" = none ∨ body.get? "page" = some .null) (hd : body.HasDistinctNames) :
    response.page = none := by
  obtain ⟨hpage, -⟩ := ofValue?_eq_some_iff.1 h
  rw [Value.get?_toJson hd] at hpage
  rcases hp with hp | hp
  · rw [hp] at hpage
    exact (Option.some.inj hpage).symm
  · rw [hp, Option.filter_some, if_pos (by rfl), Option.map_some] at hpage
    simp only [Value.toJson] at hpage
    exact (Option.some.inj hpage).symm

end Response

namespace PageTask

/-- What the page of a task is like. -/
structure Postcondition (t : PageTask) (response : Response) : Prop where
  /-- There is a page exactly if the handler paginates. -/
  paged : response.page.isSome ↔ t.handler.pagination ≠ .none
  kind : ∀ page, response.page = some page → page.pagination = t.handler.pagination
  numbered : ∀ page, response.page = some page → t.handler.pagination = .offset → page.pageNumber.isSome
  mark : ∀ page, response.page = some page → page.fetchLimitReached = t.fetchLimitReached.getD false
  sourced : ∀ medium ∈ response.media, medium.BelongsTo t.source
  /-- The media are those of the body, in their order, without the excluded ones. -/
  listed : ∃ items, response.body.get? "media" = some (.list items) ∧ response.media = items.filter (!·.isExclude)

variable {t : PageTask} {b : Route} {m m' : Machine} {response : Response}

/-- A body that is accepted and read gives a response as its task has to have it. -/
theorem postcondition_of_accept {validator : Validator} (ha : t.accept validator response.body = .ok ())
    (hr : Response.ofValue? response.body = some response) (hd : response.body.HasDistinctPageNames) :
    t.Postcondition response := by
  obtain ⟨hshape, hfault, -⟩ := accept_eq_ok_iff.1 ha
  obtain ⟨-, hmedia, -⟩ := Validation.issues_eq_nil_iff.1 (Validation.check_eq_ok_iff.1 hshape)
  obtain ⟨items, hitems, hsourced⟩ := Validation.mediaIssues_eq_nil_iff.1 hmedia
  have hlisted : response.media = items.filter (!·.isExclude) := by
    rw [(Response.ofValue?_eq_some_iff.1 hr).2.2.1, Response.mediaOf, hitems]
    rfl
  have hmedia' : ∀ medium ∈ response.media, medium.BelongsTo t.source := by
    intro medium hmem
    rw [hlisted, List.mem_filter] at hmem
    exact hsourced medium hmem.1 (by simpa using hmem.2)
  cases hpaged : t.handler.pagination.isPaged with
  | false =>
    have hnone : t.handler.pagination = .none := by
      revert hpaged
      cases t.handler.pagination <;> decide
    have hpage := Response.page_eq_none hr (Contract.no_page_of_fault?_eq_none hfault hpaged) hd.own
    refine ⟨?_, ?_, ?_, ?_, hmedia', items, hitems, hlisted⟩
    · rw [hpage, hnone]
      simp
    all_goals
      rw [hpage]
      intro _ h
      cases h
  | true =>
    obtain ⟨entries, hget, hkind, hfields, hmark⟩ := Contract.page_of_fault?_eq_none hfault hpaged
    obtain ⟨page, hpage, hreads⟩ := Response.page_of_ofValue? hr hget hd
    have hsome : ∀ {other}, response.page = some other → other = page := fun h => Option.some.inj (h.symm.trans hpage)
    refine ⟨?_, ?_, ?_, ?_, hmedia', items, hitems, hlisted⟩
    · rw [hpage]
      refine iff_of_true rfl fun hnone => ?_
      rw [hnone] at hpaged
      cases hpaged
    · rintro _ h
      rw [hsome h]
      exact hreads.pagination_eq hkind
    · rintro _ h hoffset
      rw [hsome h]
      have hnumber : Contract.offsetFault? (.map entries) = none := by
        rw [show t.contract.pagination = .offset from hoffset] at hfields
        exact hfields
      obtain ⟨v, n, hv, hint⟩ := Contract.number_of_offsetFault?_eq_none hnumber
      have hexclude : v.isExclude = false := by cases v <;> first | rfl | cases hint
      have hread := hreads.pageNumber
      rw [Value.field?_of_some hv hexclude] at hread
      rw [(Value.integer_of_asInt? hint hread).2]
      rfl
    · rintro _ h
      rw [hsome h, hreads.fetchLimitReached_eq, hmark]
      rfl

/-- **A page that is made.** Whatever the handler, the request, the secrets and the mark of the budget: the response
meets the postcondition of its task, and its body is the template of the plan for the request, evaluated in a session
of its own, which the validator of that plan has passed. -/
theorem checked_of_run (h : m.run (t.run b) = (some (.ok response), m'))
    (hd : response.body.HasDistinctPageNames) :
    t.Postcondition response ∧
      ∃ plan first opened, t.handler.planFor t.filledRequest = .ok plan ∧
        m.run (Prog.openSession b t.inputs) = (some first, opened) ∧
        opened.run (plan.template.evaluate first) = (some (.ok response.body), m') ∧
        plan.validator response.body = .ok () := by
  obtain ⟨plan, first, opened, hplan, hopen, heval, haccept, hread⟩ := made_of_run h
  exact ⟨postcondition_of_accept haccept hread hd, plan, first, opened, hplan, hopen, heval,
    (accept_eq_ok_iff.1 haccept).2.2⟩

/-! ## A page with an excluded medium -/

/-- The body of a page with two media, of which one names its source, and with a place left empty between them. -/
def mixedBody : Value :=
  .map [("page", .map [("paginationType", .string "offset"), ("pageNumber", .integer 1),
      ("pageFetchLimitReached", .bool true)]),
    ("media", .list [.map [("mediaFinderSource", .string "s")], .exclude, .map [("title", .string "t")]]),
    ("request", .map [("source", .string "s"), ("queryType", .string "list")])]

/-- The task of the only page of a listing. -/
def mixedTask : PageTask :=
  { source := "s"
    handler :=
      { id := "list"
        displayName := "List"
        description := ""
        pagination := .offset
        defaults := []
        secrets := []
        responses := [{ accepts := none, validator := Validation.acceptAll, template := .scalar mixedBody }] }
    request := .plain "s" "list"
    secrets := []
    fetchLimitReached := some true
    cacheRequests := false
    hooks := .empty }

/-- The response on that page. -/
def mixedResponse : Response :=
  { page := some ⟨.offset, some 1, none, none, none, none, none, true⟩
    media := [.map [("mediaFinderSource", .string "s")], .map [("title", .string "t")]]
    request := .plain "s" "list"
    body := mixedBody }

theorem distinctNames_mixedBody : mixedBody.HasDistinctPageNames where
  own := by
    rintro _ ⟨⟩
    simp [Fields.names]
  page := by
    rintro _ ⟨⟩ _ ⟨⟩
    simp [Fields.names]

/-- The page of that task meets its postcondition. -/
theorem checked_mixed :
    ∃ m', (Machine.start .blank).run (mixedTask.run []) = (some (.ok mixedResponse), m') ∧
      mixedTask.Postcondition mixedResponse := by
  have hrun : (Machine.start .blank).run (mixedTask.run []) = (some (.ok mixedResponse), _) :=
    Machine.drive_of_result rfl _
  exact ⟨_, hrun, (checked_of_run hrun distinctNames_mixedBody).1⟩

end PageTask

end MediaQuery
