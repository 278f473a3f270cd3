import MediaQuery.PageTask
import MediaQuery.Proofs.Machine.Sequence
import MediaQuery.Proofs.Value.Json

/-!
# Reading a page

From the evaluated template to the typed page there are three ways to look at a body: as a value, which the contract
checks; as JSON with sorted members; and as the fields of a record. Where the names of a map are distinct, all three
find the same entries (`get?_toJson`, `Page.ofJson?_toJson_iff`), so that a page is read field by field from the
entries of its value. A page that is accepted and read therefore says what its body says (`pageNumber_of_run`,
`nextCursor_of_run`).
-/

namespace MediaQuery

namespace Value

/-- A value whose own names are distinct, if it is a map. -/
def HasDistinctNames (v : Value) : Prop := ∀ entries, v.asMap? = some entries → (Fields.names entries).Nodup

theorem names_toJsonMembers_sublist (entries : List (String × Value)) :
    (Fields.names (toJsonMembers entries)).Sublist (Fields.names entries) := by
  rw [toJsonMembers_eq, Fields.names_map]
  exact List.filter_sublist.map Prod.fst

/-- What is found in the JSON form: the entries that are not excluded. -/
theorem lookup_toJsonMembers {entries : List (String × Value)} (hd : (Fields.names entries).Nodup) (k : String) :
    (toJsonMembers entries).lookup k = ((entries.lookup k).filter (!·.isExclude)).map toJson := by
  rw [toJsonMembers_eq, Fields.lookup_map, Fields.lookup_filter_values hd fun v => !v.isExclude]

/-- The JSON form of a map has the JSON form of every entry that is not excluded. -/
theorem get?_toJson {v : Value} (hd : v.HasDistinctNames) (k : String) :
    v.toJson.get? k = ((v.get? k).filter (!·.isExclude)).map toJson := by
  cases v with
  | map entries =>
    have hnodup : (Fields.names entries).Nodup := hd entries rfl
    have hjson : (Value.map entries).toJson.get? k = (Fields.sort (toJsonMembers entries)).lookup k := by
      simp only [toJson, Json.object, Json.get?]
    rw [hjson, Fields.lookup_sort ((names_toJsonMembers_sublist entries).nodup hnodup), lookup_toJsonMembers hnodup]
    rfl
  | number x =>
    simp only [toJson, jsonOfFloat]
    split <;> rfl
  | _ =>
    simp only [toJson]
    rfl

/-- An entry that is not excluded is found in the JSON form. -/
theorem get?_toJson_of_some {v entry : Value} {k : String} (h : v.get? k = some entry) (he : entry.isExclude = false)
    (hd : v.HasDistinctNames) : v.toJson.get? k = some entry.toJson := by
  rw [get?_toJson hd, h, Option.filter_some, he]
  rfl

end Value

namespace Request

/-- The JSON form of an integer is read back. -/
theorem word?_int (n : Int64) : word? (.int n.toInt) = some n := by
  have hmin : Json.minWord ≤ n.toInt := n.le_toInt
  have hmax : n.toInt ≤ Json.maxWord := Int.le_of_lt_add_one n.toInt_lt
  have hword : (Json.int n.toInt).asWord? = some n.toInt := if_pos ⟨hmin, hmax⟩
  rw [word?, hword, Option.map_some, Int64.ofInt_toInt]

end Request

/-- So it is as a cursor. -/
theorem Cursor.ofJson?_int (n : Int64) : ofJson? (.int n.toInt) = some (.number n) := by
  have hword := congrArg (Option.map Cursor.number) (Request.word?_int n)
  rw [Request.word?, Option.map_map] at hword
  exact hword

namespace Page

/-- A flag that need not be there. -/
def flag? : Option Json → Option Bool
  | some j => j.asBool?
  | none => some false

/-- A page that is read field by field from what is found under their names. -/
structure ReadsFrom (find : String → Option Json) (page : Page) : Prop where
  pagination : find "paginationType" >>= Pagination.ofJson? = some page.pagination
  pageNumber : Request.optional? Request.word? (find "pageNumber") = some page.pageNumber
  cursor : Request.optional? Cursor.ofJson? (find "cursor") = some page.cursor
  nextCursor : Request.optional? Cursor.ofJson? (find "nextCursor") = some page.nextCursor
  isLastPage : Request.optional? Json.asBool? (find "isLastPage") = some page.isLastPage
  totalMedia : Request.optional? Request.word? (find "totalMedia") = some page.totalMedia
  url : Request.optional? Json.asStr? (find "url") = some page.url
  fetchLimitReached : flag? (find "pageFetchLimitReached") = some page.fetchLimitReached

theorem ReadsFrom.congr {find find' : String → Option Json} {page : Page} (h : page.ReadsFrom find)
    (hfind : ∀ name ∈ fieldNames, find' name = find name) : page.ReadsFrom find' where
  pagination := hfind "paginationType" (by decide) ▸ h.pagination
  pageNumber := hfind "pageNumber" (by decide) ▸ h.pageNumber
  cursor := hfind "cursor" (by decide) ▸ h.cursor
  nextCursor := hfind "nextCursor" (by decide) ▸ h.nextCursor
  isLastPage := hfind "isLastPage" (by decide) ▸ h.isLastPage
  totalMedia := hfind "totalMedia" (by decide) ▸ h.totalMedia
  url := hfind "url" (by decide) ▸ h.url
  fetchLimitReached := hfind "pageFetchLimitReached" (by decide) ▸ h.fetchLimitReached

/-- A page is read from its fields one by one. -/
theorem ofMembers?_eq_some_iff {members : List (String × Json)} {page : Page} :
    ofMembers? members = some page ↔ page.ReadsFrom (List.lookup · members) := by
  unfold ofMembers?
  constructor
  · intro h
    obtain ⟨pagination, hpagination, h⟩ := Option.bind_eq_some_iff.1 h
    obtain ⟨pageNumber, hpageNumber, h⟩ := Option.bind_eq_some_iff.1 h
    obtain ⟨cursor, hcursor, h⟩ := Option.bind_eq_some_iff.1 h
    obtain ⟨nextCursor, hnextCursor, h⟩ := Option.bind_eq_some_iff.1 h
    obtain ⟨isLastPage, hisLastPage, h⟩ := Option.bind_eq_some_iff.1 h
    obtain ⟨totalMedia, htotalMedia, h⟩ := Option.bind_eq_some_iff.1 h
    obtain ⟨url, hurl, h⟩ := Option.bind_eq_some_iff.1 h
    cases hmark : members.lookup "pageFetchLimitReached" with
    | none =>
      rw [hmark] at h
      cases h
      exact ⟨hpagination, hpageNumber, hcursor, hnextCursor, hisLastPage, htotalMedia, hurl, congrArg flag? hmark⟩
    | some mark =>
      rw [hmark] at h
      obtain ⟨reached, hreached, h⟩ := Option.bind_eq_some_iff.1 h
      cases h
      exact ⟨hpagination, hpageNumber, hcursor, hnextCursor, hisLastPage, htotalMedia, hurl,
        (congrArg flag? hmark).trans hreached⟩
  · intro h
    refine Option.bind_eq_some_iff.2 ⟨_, h.pagination, Option.bind_eq_some_iff.2 ⟨_, h.pageNumber, ?_⟩⟩
    refine Option.bind_eq_some_iff.2 ⟨_, h.cursor, Option.bind_eq_some_iff.2 ⟨_, h.nextCursor, ?_⟩⟩
    refine Option.bind_eq_some_iff.2 ⟨_, h.isLastPage, Option.bind_eq_some_iff.2 ⟨_, h.totalMedia, ?_⟩⟩
    refine Option.bind_eq_some_iff.2 ⟨_, h.url, ?_⟩
    have hflag := h.fetchLimitReached
    cases hmark : members.lookup "pageFetchLimitReached" with
    | none =>
      rw [hmark] at hflag
      exact congrArg _ (congrArg (Page.mk _ _ _ _ _ _ _) (Option.some.inj hflag))
    | some mark =>
      rw [hmark] at hflag
      exact Option.bind_eq_some_iff.2 ⟨_, hflag, rfl⟩

/-- A record whose names are distinct is read field by field. -/
theorem ofJson?_obj_iff {members : List (String × Json)} (hd : (Fields.names members).Nodup) {page : Page} :
    ofJson? (.obj members) = some page ↔ page.ReadsFrom (List.lookup · members) := by
  have hknown : (Fields.names (members.filter (·.1 ∈ fieldNames))).Nodup := (List.filter_sublist.map Prod.fst).nodup hd
  have hfields : (Json.obj members).fields? fieldNames = some (members.filter (·.1 ∈ fieldNames)) := if_pos hknown
  have hfound (name : String) (hname : name ∈ fieldNames) :=
    Fields.lookup_filter_known hname members
  unfold ofJson?
  rw [hfields, Option.bind_eq_bind, Option.bind_some, ofMembers?_eq_some_iff]
  exact ⟨fun h => h.congr fun name hname => (hfound name hname).symm, fun h => h.congr hfound⟩

/-- **The page of a value is read from its entries that are not excluded.** -/
theorem ofJson?_toJson_iff {entries : List (String × Value)} (hd : (Fields.names entries).Nodup) {page : Page} :
    ofJson? (Value.map entries).toJson = some page ↔
      page.ReadsFrom fun name => ((entries.lookup name).filter (!·.isExclude)).map Value.toJson := by
  have hobj : (Value.map entries).toJson = .obj (Fields.sort (Value.toJsonMembers entries)) := by
    simp only [Value.toJson, Json.object]
  have hnames := (Value.names_toJsonMembers_sublist entries).nodup hd
  rw [hobj, ofJson?_obj_iff (Fields.nodup_sort _)]
  have hfound (name : String) := (Fields.lookup_sort hnames name).trans (Value.lookup_toJsonMembers hd name)
  exact ⟨fun h => h.congr fun name _ => (hfound name).symm, fun h => h.congr fun name _ => hfound name⟩

end Page

namespace Value

/-- A field of the page of a body. -/
def pageField? (body : Value) (name : String) : Option Value := body.get? "page" >>= fun page => page.get? name

/-- A body whose own names and those of its page are distinct. -/
structure HasDistinctPageNames (body : Value) : Prop where
  own : body.HasDistinctNames
  page : ∀ page, body.get? "page" = some page → page.HasDistinctNames

/-- What a reader finds in a value: the entries that are not excluded, as JSON. -/
def field? (v : Value) (name : String) : Option Json := ((v.get? name).filter (!·.isExclude)).map toJson

/-- An entry that is not excluded is found by readers. -/
theorem field?_of_some {v entry : Value} {name : String} (h : v.get? name = some entry) (he : entry.isExclude = false) :
    v.field? name = some entry.toJson := by
  rw [field?, h, Option.filter_some, he]
  rfl

end Value

namespace Response

theorem ofValue?_eq_some_iff {body : Value} {response : Response} : ofValue? body = some response ↔
    Request.optional? Page.ofJson? (body.toJson.get? "page") = some response.page ∧
      Request.ofJson? ((body.toJson.get? "request").getD .null) = some response.request ∧
        response.media = mediaOf body ∧ response.body = body := by
  unfold ofValue?
  simp only [Option.bind_eq_bind, Option.bind_eq_some_iff]
  constructor
  · rintro ⟨page, hpage, request, hrequest, h⟩
    cases h
    exact ⟨hpage, hrequest, rfl, rfl⟩
  · obtain ⟨page, media, request, own⟩ := response
    rintro ⟨hpage, hrequest, hmedia, hbody⟩
    refine ⟨page, hpage, request, hrequest, ?_⟩
    rw [show media = mediaOf body from hmedia, show own = body from hbody]

theorem body_of_ofValue? {body : Value} {response : Response} (h : ofValue? body = some response) :
    response.body = body := (ofValue?_eq_some_iff.1 h).2.2.2

/-- **The page of a response is read from the page of its body.** -/
theorem page_of_ofValue? {body : Value} {response : Response} (h : ofValue? body = some response)
    {entries : List (String × Value)} (hp : body.get? "page" = some (.map entries)) (hd : body.HasDistinctPageNames) :
    ∃ page, response.page = some page ∧ page.ReadsFrom (Value.map entries).field? := by
  obtain ⟨hpage, -⟩ := ofValue?_eq_some_iff.1 h
  have hobj : ∃ members, (Value.map entries).toJson = .obj members := ⟨_, by simp only [Value.toJson]; rfl⟩
  obtain ⟨members, hmembers⟩ := hobj
  rw [Value.get?_toJson_of_some hp rfl hd.own] at hpage
  have hread : (Page.ofJson? (Value.map entries).toJson).map some = some response.page := by
    rw [hmembers] at hpage ⊢
    exact hpage
  obtain ⟨page, hpage', hsome⟩ := Option.map_eq_some_iff.1 hread
  exact ⟨page, hsome.symm, (Page.ofJson?_toJson_iff (hd.page _ hp entries rfl)).1 hpage'⟩

end Response

namespace PageTask

/-- What is read out of a body that has passed its checks. -/
theorem read_eq_ok_iff {body : Value} {response : Response} :
    read body = .ok response ↔ Response.ofValue? body = some response := by
  unfold read
  cases Response.ofValue? body <;> simp

theorem validate_eq_ok_iff {t : PageTask} {validator : Validator} {body : Value} :
    t.validate validator body = .ok () ↔ validator body = .ok () := by
  unfold validate
  cases validator body with
  | error e => exact iff_of_false (fun h => by cases h) (fun h => by cases h)
  | ok u => exact iff_of_true rfl rfl

/-- **A body is accepted exactly if it is of the right shape, keeps the contract and passes its own validator.** -/
theorem accept_eq_ok_iff {t : PageTask} {validator : Validator} {body : Value} :
    t.accept validator body = .ok () ↔
      Validation.check t.filledRequest.toValue t.source body = .ok () ∧
        t.contract.fault? body = none ∧ validator body = .ok () := by
  rw [← Contract.check_eq_ok_iff, ← validate_eq_ok_iff (t := t), ← validate_eq_ok_iff (t := t)]
  unfold accept
  cases hshape : t.validate (Validation.check t.filledRequest.toValue t.source) body with
  | error e => exact iff_of_false (fun h => by cases h) (fun h => by cases h.1)
  | ok u =>
    cases hcontract : t.contract.check body with
    | error e => exact iff_of_false (fun h => by cases h) (fun h => by cases h.2.1)
    | ok u => exact ⟨fun h => ⟨rfl, rfl, h⟩, fun h => h.2.2⟩

/-- **A page that is made is the template of its plan, evaluated in a session of its own, which has passed its checks
and is read as a response.** -/
theorem made_of_run {t : PageTask} {b : Route} {m m' : Machine} {response : Response}
    (h : m.run (t.run b) = (some (.ok response), m')) :
    ∃ plan first opened, t.handler.planFor t.filledRequest = .ok plan ∧
      m.run (Prog.openSession b t.inputs) = (some first, opened) ∧
      opened.run (plan.template.evaluate first) = (some (.ok response.body), m') ∧
      t.accept plan.validator response.body = .ok () ∧ Response.ofValue? response.body = some response := by
  unfold run at h
  cases hplan : t.handler.planFor t.filledRequest with
  | error e =>
    simp only [hplan] at h
    cases (Machine.run_done _ m).symm.trans h
  | ok plan =>
    simp only [hplan] at h
    obtain ⟨first, opened, hopen, h⟩ := Machine.exists_of_run_bind h
    obtain ⟨answer, m2, heval, h⟩ := Machine.exists_of_run_bind h
    cases answer with
    | error e => cases (Machine.run_done _ m2).symm.trans h
    | ok body =>
      have hend := (Machine.run_done _ m2).symm.trans h
      obtain rfl : m2 = m' := congrArg Prod.snd hend
      have hread : (t.accept plan.validator body).bind (fun _ => read body) = .ok response :=
        Option.some.inj (congrArg Prod.fst hend)
      cases haccept : t.accept plan.validator body with
      | error e =>
        rw [haccept] at hread
        cases hread
      | ok u =>
        rw [haccept] at hread
        have hof : Response.ofValue? body = some response := read_eq_ok_iff.1 hread
        obtain rfl : response.body = body := Response.body_of_ofValue? hof
        exact ⟨plan, first, opened, rfl, hopen, heval, haccept, hof⟩

/-- An accepted page breaks no contract. -/
theorem fault?_of_accept {t : PageTask} {validator : Validator} {body : Value} (h : t.accept validator body = .ok ()) :
    t.contract.fault? body = none := (accept_eq_ok_iff.1 h).2.1

end PageTask

namespace Contract

/-- A body without faults, whose handler paginates, has a page of the handler's kind with the fields of the kind, and
the mark of the budget as it should be. -/
theorem page_of_fault?_eq_none {c : Contract} {body : Value} (h : c.fault? body = none)
    (hp : c.pagination.isPaged = true) :
    ∃ entries, body.get? "page" = some (.map entries) ∧
      (Value.map entries).get? "paginationType" = some (.string c.pagination.name) ∧
        fieldFault? (.map entries) c.pagination = none ∧
          ((Value.map entries).get? "pageFetchLimitReached" >>= Value.asBool?) = c.fetchLimitReached := by
  unfold fault? at h
  split at h
  · next p hpage =>
    rw [if_pos hp] at h
    have hget : body.get? "page" = some p := (Option.filter_eq_some_iff.1 hpage).1
    by_cases hkind : (p.get? "paginationType" >>= Value.asString?) = some c.pagination.name
    · rw [pageFault?, if_pos hkind] at h
      obtain ⟨hfields, hlimit⟩ := Option.or_eq_none_iff.1 h
      cases p with
      | map entries =>
        obtain ⟨v, hv, hname⟩ := Option.bind_eq_some_iff.1 hkind
        obtain rfl : v = .string c.pagination.name := by
          cases v <;> cases hname
          rfl
        refine ⟨entries, hget, hv, hfields, ?_⟩
        unfold limitFault? at hlimit
        exact Decidable.byContradiction fun hreported => by cases (if_neg hreported).symm.trans hlimit
      | _ => cases hkind
    · rw [pageFault?, if_neg hkind] at h
      cases h
  · rw [if_pos hp] at h
    cases h

/-- A body without faults, whose handler does not paginate, has no page. -/
theorem no_page_of_fault?_eq_none {c : Contract} {body : Value} (h : c.fault? body = none)
    (hp : c.pagination.isPaged = false) : body.get? "page" = none ∨ body.get? "page" = some .null := by
  unfold fault? page? at h
  rw [hp] at h
  cases hget : body.get? "page" with
  | none => exact .inl rfl
  | some p =>
    cases p with
    | null => exact .inr rfl
    | _ => simp [hget, Option.filter_some, Value.isNull] at h

/-- What an offset page has to have is a whole number. -/
theorem number_of_offsetFault?_eq_none {p : Value} (h : offsetFault? p = none) :
    ∃ v n, p.get? "pageNumber" = some v ∧ v.asInt? = some n := by
  unfold offsetFault? at h
  split at h
  · next hsome =>
    obtain ⟨n, hn⟩ := Option.isSome_iff_exists.1 hsome
    obtain ⟨v, hv, hint⟩ := Option.bind_eq_some_iff.1 hn
    exact ⟨v, n, hv, hint⟩
  · cases h

/-- What a cursor page has to have is a text, an integer or null. -/
theorem cursor_of_cursorFault?_eq_none {p : Value} {name : String} (h : cursorFault? p name = none) :
    (∃ s, p.get? name = some (.string s)) ∨ (∃ n, p.get? name = some (.integer n)) ∨ p.get? name = some .null := by
  unfold cursorFault? at h
  split at h
  · next s hs => exact .inl ⟨s, hs⟩
  · next n hn => exact .inr (.inl ⟨n, hn⟩)
  · next hnull => exact .inr (.inr hnull)
  · cases h
  · cases h

end Contract

/-- A whole number that is read back from its JSON form was an integer. -/
theorem Value.integer_of_asInt? {v : Value} {n : Int64} {read : Option Int64} (h : v.asInt? = some n)
    (hread : Request.optional? Request.word? (some v.toJson) = some read) : v = .integer n ∧ read = some n := by
  cases v with
  | integer k =>
    obtain rfl : k = n := Option.some.inj h
    have hjson : (Value.integer k).toJson = .int k.toInt := by simp only [Value.toJson]
    rw [hjson] at hread
    simp only [Request.optional?, Request.word?_int, Option.map_some] at hread
    exact ⟨rfl, (Option.some.inj hread).symm⟩
  | number x =>
    have hwhole : (if Value.isWhole x then some x.toInt64 else none) = some n := h
    have hfinite : Decimal.isFinite x = true := by
      split at hwhole
      · next hw => exact (Bool.and_eq_true_iff.1 hw).1
      · cases hwhole
    have hjson : (Value.number x).toJson = .float x := by
      simp only [Value.toJson, Value.jsonOfFloat, hfinite, if_true]
    rw [hjson] at hread
    simp [Request.optional?, Request.word?, Json.asWord?] at hread
  | _ => cases h

namespace PageTask

variable {t : PageTask} {b : Route} {m m' : Machine} {response : Response}

/-- **An offset page says the number that its body has.** -/
theorem pageNumber_of_run (h : m.run (t.run b) = (some (.ok response), m')) (hp : t.handler.pagination = .offset)
    (hd : response.body.HasDistinctPageNames) :
    ∃ page n, response.page = some page ∧ page.pageNumber = some n ∧
      response.body.pageField? "pageNumber" = some (.integer n) := by
  obtain ⟨_, _, _, -, -, -, haccept, hof⟩ := made_of_run h
  have hkind : t.contract.pagination = .offset := hp
  obtain ⟨entries, hget, -, hfields, -⟩ :=
    Contract.page_of_fault?_eq_none (fault?_of_accept haccept) (by rw [hkind]; rfl)
  rw [hkind] at hfields
  obtain ⟨v, n, hv, hint⟩ := Contract.number_of_offsetFault?_eq_none hfields
  obtain ⟨page, hpage, hreads⟩ := Response.page_of_ofValue? hof hget hd
  have hexclude : v.isExclude = false := by cases v <;> first | rfl | cases hint
  have hnumber := hreads.pageNumber
  rw [Value.field?_of_some hv hexclude] at hnumber
  obtain ⟨rfl, hread⟩ := Value.integer_of_asInt? hint hnumber
  refine ⟨page, n, hpage, hread, ?_⟩
  rw [Value.pageField?, hget]
  exact hv

/-- **A cursor page says the cursor that its body has**: the same text, the same integer, or none for null. -/
theorem nextCursor_of_run (h : m.run (t.run b) = (some (.ok response), m')) (hp : t.handler.pagination = .cursor)
    (hd : response.body.HasDistinctPageNames) :
    ∃ page, response.page = some page ∧
      ((∃ s, response.body.pageField? "nextCursor" = some (.string s) ∧ page.nextCursor = some (.text s)) ∨
        (∃ n, response.body.pageField? "nextCursor" = some (.integer n) ∧ page.nextCursor = some (.number n)) ∨
        response.body.pageField? "nextCursor" = some .null ∧ page.nextCursor = none) := by
  obtain ⟨_, _, _, -, -, -, haccept, hof⟩ := made_of_run h
  have hkind : t.contract.pagination = .cursor := hp
  obtain ⟨entries, hget, -, hfields, -⟩ :=
    Contract.page_of_fault?_eq_none (fault?_of_accept haccept) (by rw [hkind]; rfl)
  rw [hkind] at hfields
  have hnext : Contract.cursorFault? (.map entries) "nextCursor" = none := (Option.or_eq_none_iff.1 hfields).2
  obtain ⟨page, hpage, hreads⟩ := Response.page_of_ofValue? hof hget hd
  have hcursor := hreads.nextCursor
  have hfield : response.body.pageField? "nextCursor" = (Value.map entries).get? "nextCursor" := by
    rw [Value.pageField?, hget]
    rfl
  rw [hfield]
  refine ⟨page, hpage, ?_⟩
  rcases Contract.cursor_of_cursorFault?_eq_none hnext with ⟨s, hs⟩ | ⟨n, hn⟩ | hnull
  · rw [Value.field?_of_some hs rfl] at hcursor
    simp only [Value.toJson] at hcursor
    exact .inl ⟨s, hs, (Option.some.inj hcursor).symm⟩
  · rw [Value.field?_of_some hn rfl] at hcursor
    simp only [Value.toJson, Request.optional?, Cursor.ofJson?_int, Option.map_some] at hcursor
    exact .inr (.inl ⟨n, hn, (Option.some.inj hcursor).symm⟩)
  · rw [Value.field?_of_some hnull rfl] at hcursor
    simp only [Value.toJson] at hcursor
    exact .inr (.inr ⟨hnull, (Option.some.inj hcursor).symm⟩)

end PageTask

end MediaQuery
