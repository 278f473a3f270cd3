import MediaQuery.Proofs.Machine.Evolves
import MediaQuery.Proofs.Query.Checked
import MediaQuery.Proofs.Query.Threading
import MediaQuery.Proofs.Value.Json

/-!
# The request that a page answers

A request goes a long way until it comes back with its page: it is shown to the template as a map, echoed by it,
compared with itself as JSON, and read out of the body. A regular request, no parameter of which has a reserved name,
comes back but for the rounding of its parameters (`Request.ofJson?_toValue`). So the response of a page names the
request that it has been made for, and every branch of the page has seen that request (`Query.request_answered`).
-/

namespace MediaQuery

namespace Request

variable {r : Request} {members members' : List (String × Json)}

/-! ## Regular requests -/

/-- A request whose parameters are sorted by name, none of which is reserved. -/
structure Regular (r : Request) : Prop where
  sorted : (Fields.names r.params).Pairwise (· < ·)
  free : ∀ name ∈ Fields.names r.params, name ∉ reserved

theorem regular_plain (source queryType : String) : (plain source queryType).Regular := ⟨.nil, nofun⟩

theorem Regular.withParam (h : r.Regular) {name : String} (hname : name ∉ reserved) (value : Json) :
    (r.withParam name value).Regular :=
  ⟨Fields.sorted_put h.sorted, fun n hn => (Fields.mem_names_put hn).elim (fun e => e ▸ hname) (h.free n)⟩

/-- What fills a request changes no parameter with a reserved name. -/
theorem Regular.fill (h : r.Regular) (name : String) (default : Json) : (r.fill name default).Regular := by
  rw [fill_eq]
  by_cases hthere : name ∈ reserved ∨ (r.params.lookup name).isSome
  · simp only [if_pos hthere]
    exact ⟨h.sorted, h.free⟩
  · have hput : (r.withParam name default).Regular := h.withParam (fun hname => hthere (.inl hname)) default
    simp only [if_neg hthere]
    exact ⟨hput.sorted, hput.free⟩

theorem Regular.withDefaults (h : r.Regular) (defaults : List (String × Json)) : (r.withDefaults defaults).Regular := by
  unfold Request.withDefaults
  induction defaults generalizing r with
  | nil => exact h
  | cons e rest ih => exact ih (h.fill e.1 e.2)

/-- The request of the next page has the same parameters. -/
theorem Regular.following (h : r.Regular) (pagination : Pagination) (page? : Option Page) :
    (Walk.following r pagination page?).Regular := by
  unfold Walk.following
  split
  · split <;> exact ⟨h.sorted, h.free⟩
  · exact ⟨h.sorted, h.free⟩
  · exact h

/-! ## Reading requests -/

/-- A request that is read from the members of an object. -/
structure ReadsFrom (members : List (String × Json)) (r : Request) : Prop where
  source : members.lookup "source" >>= Json.asStr? = some r.source
  queryType : members.lookup "queryType" >>= Json.asStr? = some r.queryType
  pageNumber : optional? word? (members.lookup "pageNumber") = some r.pageNumber
  cursor : optional? Cursor.ofJson? (members.lookup "cursor") = some r.cursor
  params : members.filter (·.1 ∉ reserved) = r.params

/-- From an object a request is read part by part, once the object is in normal form. -/
theorem ofJson?_eq_some_iff {j : Json} (h : j.normalize = .obj members) :
    ofJson? j = some r ↔ r.ReadsFrom members := by
  unfold ofJson?
  rw [h]
  constructor
  · intro hr
    obtain ⟨source, hsource, hr⟩ := Option.bind_eq_some_iff.1 hr
    obtain ⟨queryType, hquery, hr⟩ := Option.bind_eq_some_iff.1 hr
    obtain ⟨pageNumber, hnumber, hr⟩ := Option.bind_eq_some_iff.1 hr
    obtain ⟨cursor, hcursor, hr⟩ := Option.bind_eq_some_iff.1 hr
    cases hr
    exact ⟨hsource, hquery, hnumber, hcursor, rfl⟩
  · obtain ⟨source, queryType, pageNumber, cursor, params⟩ := r
    rintro ⟨hsource, hquery, hnumber, hcursor, hparams⟩
    obtain rfl : members.filter (·.1 ∉ reserved) = params := hparams
    exact Option.bind_eq_some_iff.2 ⟨_, hsource, Option.bind_eq_some_iff.2 ⟨_, hquery,
      Option.bind_eq_some_iff.2 ⟨_, hnumber, Option.bind_eq_some_iff.2 ⟨_, hcursor, rfl⟩⟩⟩⟩

theorem sorted_of_normalize {j : Json} (h : j.normalize = .obj members) :
    (Fields.names members).Pairwise (· < ·) := by
  cases j with
  | obj own =>
    simp only [Json.normalize, Json.object] at h
    exact Json.obj.inj h ▸ Fields.sorted_sort _
  | _ =>
    simp only [Json.normalize] at h
    cases h

/-- **What is read as JSON is regular.** -/
theorem regular_ofJson? {j : Json} (h : ofJson? j = some r) : r.Regular := by
  cases hj : j.normalize with
  | obj members =>
    have hparams := ((ofJson?_eq_some_iff hj).1 h).params
    refine ⟨hparams ▸ (sorted_of_normalize hj).sublist (List.filter_sublist.map Prod.fst), fun name hname => ?_⟩
    obtain ⟨e, he, rfl⟩ := List.mem_map.1 hname
    rw [← hparams] at he
    simpa using (List.mem_filter.1 he).2
  | _ =>
    unfold ofJson? at h
    rw [hj] at h
    cases h

/-- Requests that are equal as data: their parts are the same and their parameters equal as JSON. -/
structure Same (r r' : Request) : Prop where
  source : r.source = r'.source
  queryType : r.queryType = r'.queryType
  pageNumber : r.pageNumber = r'.pageNumber
  cursor : r.cursor = r'.cursor
  params : Json.beqMembers r.params r'.params = true

theorem same_asStr? {j j' : Json} (h : j.Same j') : j.asStr? = j'.asStr? := by
  cases j <;> cases j' <;> simp_all [Json.Same, Json.beq, Json.asStr?]

theorem same_word? {j j' : Json} (h : j.Same j') : word? j = word? j' := by
  cases j <;> cases j' <;> simp_all [Json.Same, Json.beq, word?, Json.asWord?]

theorem same_cursor {j j' : Json} (h : j.Same j') : Cursor.ofJson? j = Cursor.ofJson? j' := by
  cases j <;> cases j' <;> simp_all [Json.Same, Json.beq, Cursor.ofJson?, Json.asWord?]

theorem bind_of_same {α : Type} {read : Json → Option α} (hread : ∀ {j j'}, Json.Same j j' → read j = read j')
    {j j' : Option Json} (h : Option.Rel Json.Same j j') : j >>= read = j' >>= read := by
  cases h with
  | none => rfl
  | some h => exact hread h

theorem optional?_of_same {α : Type} {read : Json → Option α} (hread : ∀ {j j'}, Json.Same j j' → read j = read j')
    {j j' : Option Json} (h : Option.Rel Json.Same j j') : optional? read j = optional? read j' := by
  cases h with
  | none => rfl
  | @some j j' h =>
    have hsame := hread h
    cases j <;> cases j' <;> first | rfl | cases h | skip
    all_goals
      simp only [optional?]
      rw [hsame]

/-- Objects in which the same parts of a request are read. -/
structure SameParts (members members' : List (String × Json)) : Prop where
  source : members.lookup "source" >>= Json.asStr? = members'.lookup "source" >>= Json.asStr?
  queryType : members.lookup "queryType" >>= Json.asStr? = members'.lookup "queryType" >>= Json.asStr?
  pageNumber : optional? word? (members.lookup "pageNumber") = optional? word? (members'.lookup "pageNumber")
  cursor : optional? Cursor.ofJson? (members.lookup "cursor") = optional? Cursor.ofJson? (members'.lookup "cursor")

theorem sameParts_of_beqMembers (h : Json.beqMembers members members' = true) : SameParts members members' where
  source := bind_of_same same_asStr? (Json.lookup_of_beqMembers h _)
  queryType := bind_of_same same_asStr? (Json.lookup_of_beqMembers h _)
  pageNumber := optional?_of_same same_word? (Json.lookup_of_beqMembers h _)
  cursor := optional?_of_same same_cursor (Json.lookup_of_beqMembers h _)

theorem SameParts.symm (h : SameParts members members') : SameParts members' members :=
  ⟨h.source.symm, h.queryType.symm, h.pageNumber.symm, h.cursor.symm⟩

/-- Where the same parts are read, a request is read from both or from none. -/
theorem ReadsFrom.congr (h : r.ReadsFrom members) (hsame : SameParts members members') :
    { r with params := members'.filter (·.1 ∉ reserved) }.ReadsFrom members' :=
  ⟨hsame.source ▸ h.source, hsame.queryType ▸ h.queryType, hsame.pageNumber ▸ h.pageNumber, hsame.cursor ▸ h.cursor,
    rfl⟩

/-- From equal objects equal requests are read. -/
theorem ReadsFrom.same {r' : Request} (h : r.ReadsFrom members) (h' : r'.ReadsFrom members')
    (hbeq : Json.beqMembers members members' = true) : r.Same r' := by
  have hsame := sameParts_of_beqMembers hbeq
  exact
    { source := Option.some.inj (h.source.symm.trans (hsame.source.trans h'.source))
      queryType := Option.some.inj (h.queryType.symm.trans (hsame.queryType.trans h'.queryType))
      pageNumber := Option.some.inj (h.pageNumber.symm.trans (hsame.pageNumber.trans h'.pageNumber))
      cursor := Option.some.inj (h.cursor.symm.trans (hsame.cursor.trans h'.cursor))
      params := h.params ▸ h'.params ▸ Json.beqMembers_filter hbeq (· ∉ reserved) }

/-! ## Showing and reading back -/

/-- The request as it comes back from templates: its parameters have been values. -/
def rounded (r : Request) : Request := { r with params := r.params.map fun e => (e.1, (Value.ofJson e.2).toJson) }

theorem names_rounded (r : Request) : Fields.names r.rounded.params = Fields.names r.params :=
  Fields.names_map (fun j => (Value.ofJson j).toJson) r.params

theorem Regular.rounded (h : r.Regular) : r.rounded.Regular :=
  ⟨r.names_rounded ▸ h.sorted, r.names_rounded ▸ h.free⟩

/-- A request comes back from templates as it was exactly if each of its parameters does. -/
theorem rounded_eq_self_iff : r.rounded = r ↔ ∀ e ∈ r.params, (Value.ofJson e.2).toJson = e.2 := by
  have hparams : r.rounded = r ↔ r.params.map (fun e => (e.1, (Value.ofJson e.2).toJson)) = r.params.map id := by
    rw [List.map_id]
    exact ⟨congrArg params, fun h => congrArg (fun params => { r with params }) h⟩
  rw [hparams, List.map_inj_left]
  exact forall₂_congr fun e _ => ⟨congrArg Prod.snd, fun h => Prod.ext rfl h⟩

/-- Nothing changes in a request whose parameters are exact. -/
theorem rounded_eq_self (h : ∀ e ∈ r.params, e.2.Exact) : r.rounded = r :=
  rounded_eq_self_iff.2 fun e he => Json.toJson_ofJson e.2 (h e he)

theorem names_parts (r : Request) : ∀ name ∈ Fields.names r.parts, name ∈ reserved := by
  unfold parts Fields.names reserved
  cases r.pageNumber <;> cases r.cursor <;> simp

/-- The names of a regular request are distinct. -/
theorem Regular.nodup (h : r.Regular) : (Fields.names (r.parts ++ r.params)).Nodup := by
  have hparts : (Fields.names r.parts).Nodup := by
    unfold parts Fields.names
    cases r.pageNumber <;> cases r.cursor <;> simp
  unfold Fields.names
  rw [List.map_append, List.nodup_append]
  exact ⟨hparts, Fields.nodup_of_sorted h.sorted, fun a ha b hb heq => h.free b hb (heq ▸ r.names_parts a ha)⟩

/-- The parts of a request as values. -/
def shownParts (r : Request) : List (String × Value) :=
  [("source", .string r.source), ("queryType", .string r.queryType)] ++
    (r.pageNumber.map fun n => ("pageNumber", Value.integer n)).toList ++
    (r.cursor.map fun c => ("cursor", c.toValue)).toList

theorem toJsonMembers_append (entries more : List (String × Value)) :
    Value.toJsonMembers (entries ++ more) = Value.toJsonMembers entries ++ Value.toJsonMembers more := by
  simp only [Value.toJsonMembers_eq, List.filter_append, List.map_append]

theorem toJsonMembers_shownParts (r : Request) : Value.toJsonMembers r.shownParts = r.parts := by
  unfold shownParts parts
  cases r.pageNumber <;> rcases r.cursor with _ | ⟨_ | _⟩ <;>
    simp [Value.toJsonMembers, Value.toJson, Value.isExclude, Cursor.toValue, Cursor.toJson]

/-- The names of what is shown are those of the request. -/
theorem names_shownParts (r : Request) : Fields.names r.shownParts = Fields.names r.parts := by
  unfold shownParts parts Fields.names
  cases r.pageNumber <;> cases r.cursor <;> rfl

/-- The JSON form of what templates see. -/
theorem Regular.toJson_toValue (h : r.Regular) :
    r.toValue.toJson = .obj (Fields.sort (r.parts ++ r.rounded.params)) := by
  have hnames : (Fields.names (r.shownParts ++ r.params.map fun e => (e.1, Value.ofJson e.2))).Nodup := by
    have hnodup := h.nodup
    unfold Fields.names at hnodup ⊢
    rw [List.map_append] at hnodup ⊢
    rw [show r.shownParts.map Prod.fst = r.parts.map Prod.fst from r.names_shownParts, List.map_map]
    exact hnodup
  have hvalue : r.toValue = .map (r.shownParts ++ r.params.map fun e => (e.1, Value.ofJson e.2)) :=
    congrArg Value.map (Fields.insertAll_eq_append hnames)
  rw [hvalue]
  simp only [Value.toJson, Json.object]
  rw [toJsonMembers_append, toJsonMembers_shownParts, Value.toJsonMembers_ofJson]
  rfl

theorem lookup_parts (r : Request) :
    r.parts.lookup "source" = some (.str r.source) ∧ r.parts.lookup "queryType" = some (.str r.queryType) ∧
      r.parts.lookup "pageNumber" = r.pageNumber.map (fun n => Json.int n.toInt) ∧
        r.parts.lookup "cursor" = r.cursor.map Cursor.toJson := by
  unfold parts
  cases r.pageNumber <;> cases r.cursor <;> simp [Fields.lookup_cons]

theorem optional?_map {α : Type} {read : Json → Option α} {write : α → Json} (hnull : ∀ a, write a ≠ .null)
    (hread : ∀ a, read (write a) = some a) (a? : Option α) : optional? read (a?.map write) = some a? := by
  cases a? with
  | none => rfl
  | some a =>
    have hsome : optional? read (some (write a)) = (read (write a)).map some := by
      unfold optional?
      split
      · next h => cases h
      · next h => exact absurd (Option.some.inj h) (hnull a)
      · next h => rw [Option.some.inj h]
    exact hsome.trans (congrArg (Option.map some) (hread a))

theorem Cursor.ofJson?_toJson (c : Cursor) : Cursor.ofJson? c.toJson = some c := by
  cases c with
  | number n => exact Cursor.ofJson?_int n
  | text s => rfl

/-- **A regular request is read from its own parts and parameters.** -/
theorem Regular.readsFrom (h : r.Regular) : r.ReadsFrom (Fields.sort (r.parts ++ r.params)) := by
  have hfound (k : String) :
      (Fields.sort (r.parts ++ r.params)).lookup k = (r.parts.lookup k).or (r.params.lookup k) := by
    rw [Fields.lookup_sort h.nodup, List.lookup_append]
  have hpart {k : String} (hk : k ∈ reserved) : (Fields.sort (r.parts ++ r.params)).lookup k = r.parts.lookup k := by
    rw [hfound, Fields.lookup_of_not_mem fun hm => h.free k hm hk, Option.or_none]
  obtain ⟨hsource, hquery, hnumber, hcursor⟩ := r.lookup_parts
  refine ⟨?_, ?_, ?_, ?_, ?_⟩
  · rw [hpart (by simp [reserved]), hsource]
    rfl
  · rw [hpart (by simp [reserved]), hquery]
    rfl
  · rw [hpart (by simp [reserved]), hnumber]
    exact optional?_map (fun _ h => by cases h) word?_int r.pageNumber
  · rw [hpart (by simp [reserved]), hcursor]
    exact optional?_map (fun c h => by cases c <;> cases h) Cursor.ofJson?_toJson r.cursor
  · refine Fields.eq_of_lookup ?_ h.sorted fun k => ?_
    · exact (Fields.sorted_sort _).sublist (List.filter_sublist.map Prod.fst)
    · rw [Fields.lookup_filter_unknown, hfound]
      by_cases hk : k ∈ reserved
      · rw [if_pos hk, Fields.lookup_of_not_mem fun hm => h.free k hm hk]
      · rw [if_neg hk, Fields.lookup_of_not_mem fun hm => hk (r.names_parts k hm), Option.none_or]

/-- **A regular request that is shown to a template and read back is the same but for rounding.** -/
theorem Regular.ofJson?_toValue (h : r.Regular) : ofJson? r.toValue.toJson = some r.rounded := by
  have hnormal := r.toValue.normalize_toJson
  rw [h.toJson_toValue] at hnormal ⊢
  exact (ofJson?_eq_some_iff hnormal).2 h.rounded.readsFrom

end Request

/-! ## The request of a response -/

namespace PageTask

variable {t : PageTask} {response : Response}

/-- **The response of an accepted body names the request that it has been made for**, but for rounding. -/
theorem same_of_accept {validator : Validator} (ha : t.accept validator response.body = .ok ())
    (hr : Response.ofValue? response.body = some response) (hd : response.body.HasDistinctNames)
    (hregular : t.filledRequest.Regular) : response.request.Same t.filledRequest.rounded := by
  obtain ⟨hshape, -⟩ := accept_eq_ok_iff.1 ha
  obtain ⟨-, -, hrequest⟩ := Validation.issues_eq_nil_iff.1 (Validation.check_eq_ok_iff.1 hshape)
  obtain ⟨entries, hfound, hsame⟩ := Validation.requestIssues_eq_nil_iff.1 hrequest
  obtain ⟨-, hread, -⟩ := Response.ofValue?_eq_some_iff.1 hr
  rw [Value.get?_toJson_of_some hfound rfl hd, Option.getD_some] at hread
  have hback := hregular.ofJson?_toValue
  have hnormal := t.filledRequest.toValue.normalize_toJson
  rw [hregular.toJson_toValue] at hsame hback hnormal
  obtain ⟨members, hobj, hmembers⟩ := Json.obj_of_same hsame
  have hnormal' := (Value.map entries).normalize_toJson
  rw [hobj] at hread hnormal'
  exact ((Request.ofJson?_eq_some_iff hnormal').1 hread).same ((Request.ofJson?_eq_some_iff hnormal).1 hback) hmembers

end PageTask

/-! ## The request that a page sees -/

namespace Machine

variable {m m' m'' : Machine} {a b first : Route} {inputs : Inputs}

/-- The first branch of a session that is opened is run with what the session is opened with. -/
theorem inputsAt_of_open (h : m.run (Prog.openSession b inputs) = (some first, m')) (hb : (m.node? b).isSome = true) :
    m'.Hosted first ∧ m'.inputsAt first = inputs := by
  obtain ⟨n, hn⟩ := Option.isSome_iff_exists.1 hb
  have hrun : m.run (Prog.openSession b inputs) =
      (some (b ++ [(m.addChild b fun _ => .root inputs).1]), (m.addChild b fun _ => .root inputs).2) :=
    drive_of_result rfl _
  rw [addChild_position hn] at hrun
  cases h.symm.trans hrun
  have hsession : (m.addChild b fun _ => .root inputs).2.session? (b ++ [n.degree]) = some ⟨inputs, []⟩ := by
    rw [session?_open hn, if_pos rfl]
  have hroute : (m.addChild b fun _ => .root inputs).2.tree.sessionRoute (b ++ [n.degree]) = b ++ [n.degree] := by
    rw [Branch.sessionRoute_snoc]
    exact if_pos (congrArg Option.isSome hsession)
  refine ⟨⟨isSome_node?_of_session? (by rw [hsession]; rfl), by rw [hroute, hsession]; rfl⟩, ?_⟩
  rw [inputsAt_open hn, if_pos List.prefix_rfl]

/-- The query that starts at a branch is about a request: whatever happens from then on, wherever an action of it runs
and whichever branch of it the action asks, the answer is this request. -/
structure About (m : Machine) (first : Route) (r : Request) : Prop where
  hosted : m.Hosted first
  asked : ∀ m' own branch, m.Evolves m' → m'.Kin first (own ++ branch) →
    (m'.perform own (.inputs branch)).1.request = r

/-- A session is about the request that it is opened with. -/
theorem about_of_open (h : m.run (Prog.openSession b inputs) = (some first, m')) (hb : (m.node? b).isSome = true) :
    m'.About first inputs.request := by
  obtain ⟨hhosted, hinputs⟩ := inputsAt_of_open h hb
  refine ⟨hhosted, fun m'' own branch hlater hkin => ?_⟩
  have hsame : (m''.session (own ++ branch)).inputs = inputs := by
    rw [hkin.session_eq]
    exact (hlater.inputsAt hhosted.there).trans hinputs
  exact congrArg Inputs.request hsame

end Machine

namespace Query

variable {q : Query} {b : Route} {m m' : Machine} {step : Step} {response : Response}

/-- The request of a walk stays regular from step to step. -/
theorem regular_next (h : m.run (q.next b) = (some step, m')) (hregular : q.request.Regular) :
    step.walk.request.Regular := by
  cases run_next_iff.1 h with
  | page => exact hregular.following _ _
  | _ => exact hregular

/-- **The response names the request that it answers.** A step that answers a page has made it for the request with
defaults as it was before the step: the page is made by a query of its own, which is about this request. If the request
is regular, the response names it but for rounding, and as it is if its parameters are exact. -/
theorem request_answered (h : m.run (q.next b) = (some step, m')) (hr : step.result = .ok (some response))
    (hd : response.body.HasDistinctNames) (hb : (m.node? b).isSome = true) :
    ∃ r, q.requestWithDefaults = .ok r ∧
      (q.request.Regular →
        response.request.Same r.rounded ∧ ((∀ e ∈ r.params, e.2.Exact) → response.request.Same r)) ∧
      ∃ (handler : Handler) (plan : ResponsePlan) (first : Route) (opened : Machine),
        q.handler = .ok handler ∧ handler.planFor r = .ok plan ∧ opened.About first r ∧
          opened.run (plan.template.evaluate first) = (some (.ok response.body), m') := by
  obtain ⟨t, ht, hrun, -⟩ := page_of_next h hr
  obtain ⟨plan, first, opened, hplan, hopen, heval, haccept, hread⟩ := PageTask.made_of_run hrun
  have hhandler := handler_of_task ht
  have hfilled : t.filledRequest = t.handler.requestWithDefaults q.request := by
    rw [PageTask.filledRequest, request_of_task ht]
    rfl
  refine ⟨t.filledRequest, ?_, fun hregular => ?_, t.handler, plan, first, opened, hhandler, hplan,
    Machine.about_of_open hopen hb, heval⟩
  · rw [requestWithDefaults, hhandler, hfilled]
  · have hregular' : t.filledRequest.Regular := hfilled ▸ hregular.withDefaults _
    have hsame := PageTask.same_of_accept haccept hread hd hregular'
    refine ⟨hsame, fun hexact => ?_⟩
    rwa [Request.rounded_eq_self hexact] at hsame

/-! ## A listing that echoes its request -/

/-- The handler of the listing. -/
def echoHandler : Handler :=
  { id := "list"
    displayName := "List"
    description := ""
    pagination := .none
    defaults := [("limit", .int 25)]
    secrets := []
    responses := [
      { accepts := none
        validator := Validation.acceptAll
        template := .action (.act (.inputs []) fun inputs =>
          .done (.ok (.value (.map [("media", .list []), ("request", inputs.request.toValue)])))) }] }

/-- A query of the listing. -/
def echoQuery (r : Request) : Query :=
  ⟨⟨[("s", ⟨"s", "S", "", [echoHandler]⟩)], .empty⟩, .start r ⟨[], 1, false⟩⟩

/-- The response to a request, given the request that comes back. -/
def echoResponse (shown back : Request) : Response :=
  ⟨none, [], back, .map [("media", .list []), ("request", shown.toValue)]⟩

theorem distinctNames_echo (shown back : Request) : (echoResponse shown back).body.HasDistinctNames := by
  rintro _ ⟨⟩
  simp [Fields.names]

/-- A request for the listing with a parameter, and what becomes of it with the default. -/
def searchRequest : Request := (Request.plain "s" "list").withParam "query" (.str "cats")

def filledSearch : Request := ⟨"s", "list", none, none, [("limit", .int 25), ("query", .str "cats")]⟩

/-- It comes back as it is. -/
theorem request_answered_with_param :
    ∃ m' step, (Machine.start .blank).run ((echoQuery searchRequest).next []) = (some step, m') ∧
      step.result = .ok (some (echoResponse filledSearch filledSearch)) ∧
      (echoQuery searchRequest).requestWithDefaults = .ok filledSearch ∧ filledSearch.Same filledSearch := by
  have hrun : (Machine.start .blank).run ((echoQuery searchRequest).next []) =
      (some ⟨.ok (some (echoResponse filledSearch filledSearch)), _⟩, _) := Machine.drive_of_result rfl _
  have hregular : searchRequest.Regular := (Request.regular_plain "s" "list").withParam (by simp [Request.reserved]) _
  have hexact : ∀ e ∈ filledSearch.params, e.2.Exact := by
    simp [filledSearch, Json.Exact, Json.minWord, Json.maxWord]
  obtain ⟨r, hr, hsame, -⟩ := request_answered hrun rfl (distinctNames_echo _ _) rfl
  cases hr
  exact ⟨_, _, hrun, rfl, rfl, (hsame hregular).2 hexact⟩

/-- A request with a parameter that has the name of a part, and the request that has it for this part. -/
def collidingRequest : Request := (Request.plain "s" "list").withParam "source" (.str "other")

def filledCollision : Request := ⟨"s", "list", none, none, [("limit", .int 25), ("source", .str "other")]⟩

def collidedRequest : Request := ⟨"other", "list", none, none, [("limit", .int 25)]⟩

/-- The request that comes back is not the one that the page has been made for. -/
theorem request_of_colliding_param :
    ∃ m' step, (Machine.start .blank).run ((echoQuery collidingRequest).next []) = (some step, m') ∧
      step.result = .ok (some (echoResponse filledCollision collidedRequest)) ∧
      (echoQuery collidingRequest).requestWithDefaults = .ok filledCollision ∧
      ¬ (echoResponse filledCollision collidedRequest).request.Same filledCollision := by
  have hrun : (Machine.start .blank).run ((echoQuery collidingRequest).next []) =
      (some ⟨.ok (some (echoResponse filledCollision collidedRequest)), _⟩, _) := Machine.drive_of_result rfl _
  refine ⟨_, _, hrun, rfl, rfl, fun hsame => ?_⟩
  have hsource : "other" = "s" := hsame.source
  simp at hsource

end Query

end MediaQuery
