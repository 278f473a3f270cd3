import MediaQuery.Proofs.Query.Answered

/-!
# Which accepted pages are read

The checks of a body and the reader of a response are two descriptions of the same page, and they do not agree. A body
that is accepted is read exactly if it is legible: the fields of its page are of the kinds that the reader knows, and
the request that it echoes can be read (`PageTask.read_iff_legible`). An accepted body that is not legible makes the
whole task fail with an internal error (`PageTask.answered_iff_legible`).
-/

namespace MediaQuery

namespace Value

/-! ## Kinds of fields -/

variable {v page : Value} {name : String}

/-- A whole number; a double is none, even if it has no fraction. -/
def IsWord (v : Value) : Prop := ∃ n, v = .integer n

/-- What is a text in JSON: a text, a date or a selection. -/
def IsText (v : Value) : Prop := ∃ s, v.toJson = .str s

/-- A truth value. -/
def IsTruth (v : Value) : Prop := ∃ b, v = .bool b

theorem isSome_word?_iff : (Request.word? v.toJson).isSome ↔ v.IsWord := by
  cases v with
  | integer n =>
    have hjson : (Value.integer n).toJson = .int n.toInt := by simp only [toJson]
    rw [hjson, Request.word?_int]
    exact iff_of_true rfl ⟨n, rfl⟩
  | number x =>
    refine iff_of_false (fun h => ?_) (by rintro ⟨_, h⟩; cases h)
    simp only [toJson, jsonOfFloat] at h
    split at h <;> cases h
  | _ =>
    refine iff_of_false (fun h => ?_) (by rintro ⟨_, h⟩; cases h)
    simp only [toJson] at h
    cases h

theorem isSome_asStr?_iff : v.toJson.asStr?.isSome ↔ v.IsText := by
  unfold IsText
  cases v.toJson <;> simp [Json.asStr?]

theorem isSome_asBool?_iff : v.toJson.asBool?.isSome ↔ v.IsTruth := by
  rw [asBool?_toJson]
  unfold IsTruth
  cases v <;> simp [asBool?]

theorem isSome_cursor_iff : (Cursor.ofJson? v.toJson).isSome ↔ v.IsWord ∨ v.IsText := by
  rw [← isSome_word?_iff, ← isSome_asStr?_iff]
  cases v.toJson <;> simp [Cursor.ofJson?, Request.word?, Json.asWord?, Json.asStr?]

/-- A field that is missing or null, excluded fields and the doubles without JSON form included, or of a kind. -/
def Optionally (page : Value) (name : String) (kind : Value → Prop) : Prop :=
  ∀ v, page.get? name = some v → v.toJson = .null ∨ kind v

/-- A reader that knows a kind reads the fields that are optionally of this kind. -/
theorem isSome_optional?_iff {α : Type} {read : Json → Option α} {kind : Value → Prop}
    (hread : ∀ {v : Value}, (read v.toJson).isSome ↔ kind v) :
    (Request.optional? read (page.field? name)).isSome ↔ page.Optionally name kind := by
  unfold field? Optionally
  cases page.get? name with
  | none => exact iff_of_true rfl fun v h => by cases h
  | some v =>
    have hforall : (∀ w, some v = some w → w.toJson = .null ∨ kind w) ↔ v.toJson = .null ∨ kind v :=
      ⟨fun h => h v rfl, fun h w hw => Option.some.inj hw ▸ h⟩
    rw [hforall, Option.filter_some, ← hread]
    cases hexclude : v.isExclude with
    | true =>
      obtain rfl : v = .exclude := by cases v <;> first | rfl | cases hexclude
      exact iff_of_true rfl (.inl (by simp only [toJson]))
    | false =>
      rw [Bool.not_false, if_pos rfl, Option.map_some]
      cases v.toJson <;> simp [Request.optional?]

/-- The fields of a page that the reader knows are of the kinds that it knows. Only the mark of the budget must not be
null. -/
structure Legible (page : Value) : Prop where
  pageNumber : page.Optionally "pageNumber" IsWord
  cursor : page.Optionally "cursor" fun v => v.IsWord ∨ v.IsText
  nextCursor : page.Optionally "nextCursor" fun v => v.IsWord ∨ v.IsText
  isLastPage : page.Optionally "isLastPage" IsTruth
  totalMedia : page.Optionally "totalMedia" IsWord
  url : page.Optionally "url" IsText
  mark : ∀ v, page.get? "pageFetchLimitReached" = some v → v = .exclude ∨ v.IsTruth

/-- No page at all has nothing that could not be read. -/
theorem legible_null : Value.null.Legible := by
  constructor <;> exact fun v hv => by cases hv

theorem isSome_flag?_iff : (Page.flag? (page.field? name)).isSome ↔
    ∀ v, page.get? name = some v → v = .exclude ∨ v.IsTruth := by
  unfold field?
  cases page.get? name with
  | none => exact iff_of_true rfl fun v h => by cases h
  | some v =>
    have hforall : (∀ w, some v = some w → w = .exclude ∨ w.IsTruth) ↔ v = .exclude ∨ v.IsTruth :=
      ⟨fun h => h v rfl, fun h w hw => Option.some.inj hw ▸ h⟩
    rw [hforall, Option.filter_some, ← isSome_asBool?_iff]
    cases hexclude : v.isExclude with
    | true =>
      obtain rfl : v = .exclude := by cases v <;> first | rfl | cases hexclude
      exact iff_of_true rfl (.inl rfl)
    | false =>
      have hne : v ≠ .exclude := fun h => by
        rw [h] at hexclude
        cases hexclude
      rw [Bool.not_false, if_pos rfl, Option.map_some, or_iff_right hne]
      rfl

end Value

namespace Page

/-- **A page that names its kind is read exactly if it is legible.** -/
theorem exists_readsFrom_iff {v : Value} {kind : Pagination}
    (hkind : v.get? "paginationType" = some (.string kind.name)) :
    (∃ page : Page, page.ReadsFrom v.field?) ↔ v.Legible := by
  constructor
  · rintro ⟨page, h⟩
    exact
      { pageNumber := (Value.isSome_optional?_iff Value.isSome_word?_iff).1 (by rw [h.pageNumber]; rfl)
        cursor := (Value.isSome_optional?_iff Value.isSome_cursor_iff).1 (by rw [h.cursor]; rfl)
        nextCursor := (Value.isSome_optional?_iff Value.isSome_cursor_iff).1 (by rw [h.nextCursor]; rfl)
        isLastPage := (Value.isSome_optional?_iff Value.isSome_asBool?_iff).1 (by rw [h.isLastPage]; rfl)
        totalMedia := (Value.isSome_optional?_iff Value.isSome_word?_iff).1 (by rw [h.totalMedia]; rfl)
        url := (Value.isSome_optional?_iff Value.isSome_asStr?_iff).1 (by rw [h.url]; rfl)
        mark := Value.isSome_flag?_iff.1 (by rw [h.fetchLimitReached]; rfl) }
  · intro h
    have hname : v.field? "paginationType" >>= Pagination.ofJson? = some kind := by
      rw [Value.field?_of_some hkind rfl]
      simp only [Value.toJson]
      exact Pagination.ofName?_name kind
    have hnumber := (Value.isSome_optional?_iff Value.isSome_word?_iff).2 h.pageNumber
    have hcursor := (Value.isSome_optional?_iff Value.isSome_cursor_iff).2 h.cursor
    have hnext := (Value.isSome_optional?_iff Value.isSome_cursor_iff).2 h.nextCursor
    have hlast := (Value.isSome_optional?_iff Value.isSome_asBool?_iff).2 h.isLastPage
    have htotal := (Value.isSome_optional?_iff Value.isSome_word?_iff).2 h.totalMedia
    have hurl := (Value.isSome_optional?_iff Value.isSome_asStr?_iff).2 h.url
    have hmark := Value.isSome_flag?_iff.2 h.mark
    exact ⟨⟨kind, _, _, _, _, _, _, _⟩, hname, (Option.some_get hnumber).symm, (Option.some_get hcursor).symm,
      (Option.some_get hnext).symm, (Option.some_get hlast).symm, (Option.some_get htotal).symm,
      (Option.some_get hurl).symm, (Option.some_get hmark).symm⟩

end Page

namespace Request

/-- Of two equal maps a request is read from both or from none. -/
theorem isSome_ofJson?_of_same {entries entries' : List (String × Value)}
    (h : (Value.map entries).toJson.Same (Value.map entries').toJson) :
    (ofJson? (Value.map entries).toJson).isSome ↔ (ofJson? (Value.map entries').toJson).isSome := by
  have hobj (own : List (String × Value)) :
      (Value.map own).toJson.normalize = .obj (Fields.sort (Value.toJsonMembers own)) := by
    rw [Value.normalize_toJson]
    simp only [Value.toJson, Json.object]
  have hsame : SameParts (Fields.sort (Value.toJsonMembers entries)) (Fields.sort (Value.toJsonMembers entries')) := by
    refine sameParts_of_beqMembers ?_
    simpa only [Json.Same, Value.toJson, Json.object, Json.beq] using h
  constructor
  · intro hr
    obtain ⟨r, hr⟩ := Option.isSome_iff_exists.1 hr
    rw [(ofJson?_eq_some_iff (hobj _)).2 (((ofJson?_eq_some_iff (hobj _)).1 hr).congr hsame)]
    rfl
  · intro hr
    obtain ⟨r, hr⟩ := Option.isSome_iff_exists.1 hr
    rw [(ofJson?_eq_some_iff (hobj _)).2 (((ofJson?_eq_some_iff (hobj _)).1 hr).congr hsame.symm)]
    rfl

end Request

namespace Response

theorem isSome_ofValue?_iff {body : Value} : (ofValue? body).isSome ↔
    (Request.optional? Page.ofJson? (body.toJson.get? "page")).isSome ∧
      (Request.ofJson? ((body.toJson.get? "request").getD .null)).isSome := by
  simp only [Option.isSome_iff_exists]
  constructor
  · rintro ⟨response, h⟩
    obtain ⟨hpage, hrequest, -⟩ := ofValue?_eq_some_iff.1 h
    exact ⟨⟨_, hpage⟩, ⟨_, hrequest⟩⟩
  · rintro ⟨⟨page, hpage⟩, request, hrequest⟩
    exact ⟨⟨page, mediaOf body, request, body⟩, ofValue?_eq_some_iff.2 ⟨hpage, hrequest, rfl, rfl⟩⟩

end Response

namespace PageTask

variable {t : PageTask} {validator : Validator} {body : Value} {b first : Route} {m opened m' : Machine}
  {plan : ResponsePlan}

/-- A body that can be read: its page is legible, if it has one, and so is the request that it has to echo. -/
structure Legible (t : PageTask) (body : Value) : Prop where
  page : ∀ page, body.get? "page" = some page → page.Legible
  request : (Request.ofJson? t.filledRequest.toValue.toJson).isSome

/-- The request of a task is legible if it is regular. -/
theorem legible_iff_of_regular (h : t.request.Regular) :
    t.Legible body ↔ ∀ page, body.get? "page" = some page → page.Legible := by
  refine ⟨Legible.page, fun hpage => ⟨hpage, ?_⟩⟩
  have hfilled : t.filledRequest.Regular := h.withDefaults t.handler.defaults
  rw [hfilled.ofJson?_toValue]
  rfl

theorem isSome_page_iff (h : t.contract.fault? body = none) (hd : body.HasDistinctPageNames) :
    (Request.optional? Page.ofJson? (body.toJson.get? "page")).isSome ↔
      ∀ page, body.get? "page" = some page → page.Legible := by
  cases hpaged : t.handler.pagination.isPaged with
  | true =>
    obtain ⟨entries, hget, hkind, -⟩ := Contract.page_of_fault?_eq_none h hpaged
    have hread : (Request.optional? Page.ofJson? (some (Value.map entries).toJson)).isSome ↔
        (Page.ofJson? (Value.map entries).toJson).isSome := by
      simp only [Value.toJson, Json.object, Request.optional?, Option.isSome_map]
    have hpage : (Page.ofJson? (Value.map entries).toJson).isSome ↔ (Value.map entries).Legible := by
      rw [← Page.exists_readsFrom_iff hkind, Option.isSome_iff_exists]
      exact exists_congr fun page => Page.ofJson?_toJson_iff (hd.page _ hget entries rfl)
    rw [Value.get?_toJson_of_some hget rfl hd.own, hread, hpage]
    exact ⟨fun hl page hp => Option.some.inj (hget.symm.trans hp) ▸ hl, fun hl => hl _ hget⟩
  | false =>
    rw [Value.get?_toJson hd.own]
    rcases Contract.no_page_of_fault?_eq_none h hpaged with hget | hget
    · rw [hget]
      exact iff_of_true rfl fun _ hp => by cases hp
    · have hread : (Request.optional? Page.ofJson? (some Value.null.toJson)).isSome := by
        simp only [Value.toJson]
        rfl
      rw [hget]
      refine iff_of_true hread fun page hp => ?_
      obtain rfl : Value.null = page := Option.some.inj hp
      exact Value.legible_null

/-- **An accepted body is read exactly if it is legible.** -/
theorem read_iff_legible (ha : t.accept validator body = .ok ()) (hd : body.HasDistinctPageNames) :
    (Response.ofValue? body).isSome ↔ t.Legible body := by
  obtain ⟨hshape, hfault, -⟩ := accept_eq_ok_iff.1 ha
  obtain ⟨-, -, hrequest⟩ := Validation.issues_eq_nil_iff.1 (Validation.check_eq_ok_iff.1 hshape)
  obtain ⟨entries, hfound, hsame⟩ := Validation.requestIssues_eq_nil_iff.1 hrequest
  have hecho : (Request.ofJson? ((body.toJson.get? "request").getD .null)).isSome ↔
      (Request.ofJson? t.filledRequest.toValue.toJson).isSome := by
    rw [Value.get?_toJson_of_some hfound rfl hd.own, Option.getD_some]
    exact Request.isSome_ofJson?_of_same hsame
  rw [Response.isSome_ofValue?_iff, isSome_page_iff hfault hd, hecho]
  exact ⟨fun h => ⟨h.1, h.2⟩, fun h => ⟨h.page, h.request⟩⟩

/-- **What becomes of an accepted body.** A page whose body has passed all checks is answered if the body is legible,
and fails with an internal error if it is not, whoever asks for it: a query or an action of another page. For a regular
request the page of the body alone decides. -/
theorem answered_iff_legible (hplan : t.handler.planFor t.filledRequest = .ok plan)
    (hopen : m.run (Prog.openSession b t.inputs) = (some first, opened))
    (heval : opened.run (plan.template.evaluate first) = (some (.ok body), m'))
    (ha : t.accept plan.validator body = .ok ()) (hd : body.HasDistinctPageNames) :
    (t.Legible body → ∃ response, response.body = body ∧ m.run (t.run b) = (some (.ok response), m')) ∧
      (¬ t.Legible body →
        m.run (t.run b) = (some (.error (.internal "Failed to read validated response")), m')) ∧
      (t.request.Regular → (t.Legible body ↔ ∀ page, body.get? "page" = some page → page.Legible)) := by
  have hrun : m.run (t.run b) = (some (read body), m') := by
    unfold run
    simp only [hplan]
    refine (Machine.run_bind _ _ m).trans ?_
    simp only [hopen]
    refine (Machine.run_bind _ _ opened).trans ?_
    simp only [heval]
    refine (Machine.run_done _ m').trans ?_
    rw [ha]
    rfl
  refine ⟨fun hl => ?_, fun hl => ?_, legible_iff_of_regular⟩
  · obtain ⟨response, hr⟩ := Option.isSome_iff_exists.1 ((read_iff_legible ha hd).2 hl)
    exact ⟨response, Response.body_of_ofValue? hr, by rw [hrun, read_eq_ok_iff.2 hr]⟩
  · have hnone : Response.ofValue? body = none :=
      Option.not_isSome_iff_eq_none.1 fun hr => hl ((read_iff_legible ha hd).1 hr)
    rw [hrun, read, hnone]

/-! ## A page without a mark -/

/-- The body of the page of `mixedTask` is legible, so that the page is answered. -/
theorem answered_mixed : mixedTask.Legible mixedBody ∧
    ∃ response m', response.body = mixedBody ∧
      (Machine.start .blank).run (mixedTask.run []) = (some (.ok response), m') := by
  have hopen : (Machine.start .blank).run (Prog.openSession [] mixedTask.inputs) = (some [0], _) :=
    Machine.drive_of_result rfl _
  have hanswer := answered_iff_legible (t := mixedTask) (b := []) rfl hopen (Machine.drive_of_result rfl _) rfl
    distinctNames_mixedBody
  have hl : mixedTask.Legible mixedBody := by
    refine (hanswer.2.2 (Request.regular_plain "s" "list")).2 ?_
    rintro _ ⟨⟩
    constructor <;> rintro v ⟨⟩
    · exact .inr ⟨1, rfl⟩
    · exact .inr ⟨true, rfl⟩
  obtain ⟨response, hbody, hrun⟩ := hanswer.1 hl
  exact ⟨hl, response, _, hbody, hrun⟩

/-- The body of a nested page that has null for the mark of the budget, which it does not have. -/
def unmarkedBody : Value :=
  .map [("page", .map [("paginationType", .string "offset"), ("pageNumber", .integer 1),
      ("pageFetchLimitReached", .null)]),
    ("media", .list []),
    ("request", .map [("source", .string "s"), ("queryType", .string "list")])]

/-- The task of the nested page. -/
def unmarkedTask : PageTask :=
  { mixedTask with
    handler := { mixedTask.handler with
      responses := [{ accepts := none, validator := Validation.acceptAll, template := .scalar unmarkedBody }] }
    fetchLimitReached := none }

/-- The body is accepted, but not read. -/
theorem unread_unmarked : unmarkedTask.accept Validation.acceptAll unmarkedBody = .ok () ∧
    ∃ m', (Machine.start .blank).run (unmarkedTask.run []) =
      (some (.error (.internal "Failed to read validated response")), m') :=
  ⟨rfl, _, Machine.drive_of_result rfl _⟩

end PageTask

end MediaQuery
