import MediaQuery.Proofs.Query.Answered
import MediaQuery.Proofs.Query.Rewind

/-!
# Defaults

Defaults fill the gaps of a request and change nothing that it says itself (`Request.FilledBy`). Each default has its own
gap: a part takes the one under its name if that is of the right kind, and every other name is that of a parameter. So
filling in the same defaults again changes nothing (`Request.withDefaults_withDefaults`), and the request that a query
shows beforehand is the one that its templates see (`Query.previewed_of_defaults`).
-/

namespace MediaQuery

namespace Fields

variable {α β : Type}

/-- Where names are distinct, the first field that can be read under a name is the one that is found there. -/
theorem findSome?_eq_lookup {fields : List (String × α)} (h : (names fields).Nodup) (name : String)
    (read : α → Option β) :
    (fields.findSome? fun e => if e.1 = name then read e.2 else none) = fields.lookup name >>= read := by
  induction fields with
  | nil => rfl
  | cons e rest ih =>
    obtain ⟨n, v⟩ := e
    obtain ⟨hn, hrest⟩ := List.nodup_cons.1 h
    rw [List.findSome?_cons, lookup_cons, ih hrest]
    by_cases hname : name = n
    · have hnone : rest.lookup name = none := lookup_of_not_mem (hname ▸ hn)
      rw [if_pos hname, if_pos hname.symm, hnone]
      cases hread : read v <;> simp [hread]
    · rw [if_neg hname, if_neg (Ne.symm hname)]

end Fields

namespace Request

/-- A whole number of the word is read from its JSON form only. -/
theorem word?_eq_some_iff {j : Json} {n : Int64} : word? j = some n ↔ j = .int n.toInt := by
  constructor
  · intro h
    cases j with
    | int k =>
      obtain ⟨i, hi, rfl⟩ := Option.map_eq_some_iff.1 h
      obtain ⟨hword, heq⟩ := Option.ite_none_right_eq_some.1 hi
      obtain rfl := Option.some.inj heq
      rw [Int64.toInt_ofInt_of_le hword.1 (Int.lt_of_le_sub_one hword.2)]
    | _ => cases h
  · rintro rfl
    exact word?_int n

/-- A cursor is read from its JSON form only. -/
theorem cursor_eq_some_iff {j : Json} {c : Cursor} : Cursor.ofJson? j = some c ↔ j = c.toJson := by
  constructor
  · intro h
    cases j with
    | str s => exact congrArg Cursor.toJson (Option.some.inj h)
    | int k =>
      obtain ⟨n, hn, rfl⟩ := Option.map_eq_some_iff.1 h
      exact word?_eq_some_iff.1 (congrArg (Option.map Int64.ofInt) hn)
    | _ => cases h
  · rintro rfl
    exact Cursor.ofJson?_toJson c

variable {r : Request} {defaults : List (String × Json)}

/-! ## Filling -/

/-- The page number that defaults give: the first readable one under the name. -/
def defaultNumber? (defaults : List (String × Json)) : Option Int64 :=
  defaults.findSome? fun e => if e.1 = "pageNumber" then word? e.2 else none

/-- Defaults leave the source and the type of query alone. -/
theorem names_withDefaults (r : Request) (defaults : List (String × Json)) :
    (r.withDefaults defaults).source = r.source ∧ (r.withDefaults defaults).queryType = r.queryType := by
  induction defaults generalizing r with
  | nil => exact ⟨rfl, rfl⟩
  | cons e rest ih =>
    rw [withDefaults_cons, (ih _).1, (ih _).2, fill_eq]
    exact ⟨rfl, rfl⟩

/-- Parameters stay sorted. -/
theorem sorted_withDefaults (h : (Fields.names r.params).Pairwise (· < ·)) (defaults : List (String × Json)) :
    (Fields.names (r.withDefaults defaults).params).Pairwise (· < ·) := by
  induction defaults generalizing r with
  | nil => exact h
  | cons e rest ih =>
    rw [withDefaults_cons, fill_eq]
    refine ih ?_
    simp only
    split
    · exact h
    · exact Fields.sorted_put h

theorem pageNumber_withDefaults (r : Request) (defaults : List (String × Json)) :
    (r.withDefaults defaults).pageNumber = r.pageNumber.or (defaultNumber? defaults) := by
  induction defaults generalizing r with
  | nil => exact Option.or_none.symm
  | cons e rest ih =>
    have hfirst : defaultNumber? (e :: rest) =
        (if e.1 = "pageNumber" then word? e.2 else none).or (defaultNumber? rest) := by
      unfold defaultNumber?
      rw [List.findSome?_cons]
      cases (if e.1 = "pageNumber" then word? e.2 else none) <;> rfl
    rw [withDefaults_cons, ih, fill_eq, hfirst, Option.or_assoc]

theorem cursor_withDefaults (r : Request) (defaults : List (String × Json)) :
    (r.withDefaults defaults).cursor = r.cursor.or (defaultCursor? defaults) :=
  congrArg cursor (withDefaults_cursor r r.cursor defaults)

/-- A parameter of the request comes before a default of its name. -/
theorem lookup_withDefaults (r : Request) (defaults : List (String × Json)) (name : String) :
    (r.withDefaults defaults).params.lookup name =
      (r.params.lookup name).or (if name ∈ reserved then none else defaults.lookup name) := by
  induction defaults generalizing r with
  | nil => simp [withDefaults]
  | cons e rest ih =>
    obtain ⟨n, default⟩ := e
    rw [withDefaults_cons, ih, fill_eq, Fields.lookup_cons]
    by_cases hname : name = n
    · subst hname
      by_cases hreserved : name ∈ reserved
      · simp [hreserved]
      · cases hlookup : r.params.lookup name <;> simp [hreserved, hlookup, Fields.lookup_put]
    · rw [if_neg hname]
      by_cases hthere : n ∈ reserved ∨ (r.params.lookup n).isSome
      · simp only [if_pos hthere]
      · simp only [if_neg hthere, Fields.lookup_put, if_neg hname]

/-- Defaults that are all there already add no parameter. -/
theorem params_withDefaults_of_there (h : ∀ e ∈ defaults, e.1 ∈ reserved ∨ (r.params.lookup e.1).isSome) :
    (r.withDefaults defaults).params = r.params := by
  induction defaults generalizing r with
  | nil => rfl
  | cons e rest ih =>
    obtain ⟨he, hrest⟩ := List.forall_mem_cons.1 h
    have hparams : (r.fill e.1 e.2).params = r.params := by rw [fill_eq, if_pos he]
    rw [withDefaults_cons, ih (hparams ▸ hrest), hparams]

theorem eq_of_parts {r' : Request} (hsource : r.source = r'.source) (hquery : r.queryType = r'.queryType)
    (hnumber : r.pageNumber = r'.pageNumber) (hcursor : r.cursor = r'.cursor) (hparams : r.params = r'.params) :
    r = r' := by
  obtain ⟨_, _, _, _, _⟩ := r
  obtain ⟨_, _, _, _, _⟩ := r'
  simp only [Request.mk.injEq]
  exact ⟨hsource, hquery, hnumber, hcursor, hparams⟩

/-- **Filling in the same defaults again changes nothing.** -/
theorem withDefaults_withDefaults (r : Request) (defaults : List (String × Json)) :
    (r.withDefaults defaults).withDefaults defaults = r.withDefaults defaults := by
  obtain ⟨hsource, hquery⟩ := (r.withDefaults defaults).names_withDefaults defaults
  refine eq_of_parts hsource hquery ?_ ?_ (params_withDefaults_of_there fun e he => ?_)
  · rw [pageNumber_withDefaults (r.withDefaults defaults), pageNumber_withDefaults r, Option.or_assoc, Option.or_self]
  · rw [cursor_withDefaults (r.withDefaults defaults), cursor_withDefaults r, Option.or_assoc, Option.or_self]
  · refine or_iff_not_imp_left.2 fun hreserved => ?_
    have hthere : (defaults.lookup e.1).isSome :=
      Option.isSome_iff_ne_none.2 fun hnone => by simpa using List.lookup_eq_none_iff.1 hnone e he
    rw [lookup_withDefaults, if_neg hreserved, Option.isSome_or, hthere, Bool.or_true]

/-! ## What a filled request is -/

/-- A request with its gaps filled by defaults: what it says itself is as it was, a gap has the default for it, if there
is one of the right kind, and there is nothing else in it. -/
structure FilledBy (r : Request) (defaults : List (String × Json)) (filled : Request) : Prop where
  source : filled.source = r.source
  queryType : filled.queryType = r.queryType
  pageNumber : ∀ n, filled.pageNumber = some n ↔
    r.pageNumber = some n ∨ r.pageNumber = none ∧ defaults.lookup "pageNumber" = some (.int n.toInt)
  cursor : ∀ c, filled.cursor = some c ↔
    r.cursor = some c ∨ r.cursor = none ∧ defaults.lookup "cursor" = some c.toJson
  param : ∀ name value, filled.params.lookup name = some value ↔
    r.params.lookup name = some value ∨
      r.params.lookup name = none ∧ name ∉ reserved ∧ defaults.lookup name = some value

/-- **Defaults fill the gaps of a request**, where their names are distinct. -/
theorem filledBy_withDefaults (r : Request) (h : (Fields.names defaults).Nodup) :
    r.FilledBy defaults (r.withDefaults defaults) where
  source := (r.names_withDefaults defaults).1
  queryType := (r.names_withDefaults defaults).2
  pageNumber n := by
    rw [pageNumber_withDefaults, defaultNumber?, Fields.findSome?_eq_lookup h, Option.or_eq_some_iff]
    simp only [Option.bind_eq_bind, Option.bind_eq_some_iff, word?_eq_some_iff, exists_eq_right]
  cursor c := by
    rw [cursor_withDefaults, defaultCursor?, Fields.findSome?_eq_lookup h, Option.or_eq_some_iff]
    simp only [Option.bind_eq_bind, Option.bind_eq_some_iff, cursor_eq_some_iff, exists_eq_right]
  param name value := by
    rw [lookup_withDefaults, Option.or_eq_some_iff, Option.ite_none_left_eq_some]

end Request

/-! ## The request that is shown beforehand -/

namespace Query

variable {q : Query} {previewed : Request}

theorem requestWithDefaults_eq_ok_iff :
    q.requestWithDefaults = .ok previewed ↔ ∃ h, q.handler = .ok h ∧ h.requestWithDefaults q.request = previewed := by
  unfold requestWithDefaults
  cases q.handler <;> simp

/-- A query for the request that it shows asks for the same pages. -/
theorem asksLike_previewed (hq : q.requestWithDefaults = .ok previewed) :
    q.AsksLike (q.withWalk { q.walk with request := previewed }) := by
  obtain ⟨h, hh, rfl⟩ := requestWithDefaults_eq_ok_iff.1 hq
  exact
    { registry := rfl
      options := rfl
      phase := rfl
      fetched := rfl
      source := (q.request.names_withDefaults h.defaults).1
      queryType := (q.request.names_withDefaults h.defaults).2
      filled := fun other hother => by
        obtain rfl : h = other := Except.ok.inj (hh.symm.trans hother)
        exact q.request.withDefaults_withDefaults h.defaults }

/-- The templates of the next page see the request that is shown. -/
theorem filledRequest_of_previewed (hq : q.requestWithDefaults = .ok previewed) {t : PageTask} (ht : q.task = .ok t) :
    t.filledRequest = previewed := by
  obtain ⟨h, hh, rfl⟩ := requestWithDefaults_eq_ok_iff.1 hq
  obtain rfl : h = t.handler := Except.ok.inj (hh.symm.trans (handler_of_task ht))
  rw [PageTask.filledRequest, request_of_task ht]
  rfl

/-- **Defaults only fill gaps, and once.** For any request and any defaults with distinct names: what the request says
stays, each gap takes its default if that is of the right kind, and nothing else is added; the parameters stay sorted,
and the same defaults change nothing any more. So the request that a query shows beforehand is the one that the templates
of its next page see, also if the page is made for the shown request, whose gaps are filled twice then; it is the very
same page. And a query for the shown request shows it again. -/
theorem previewed_of_defaults {defaults : List (String × Json)} (h : (Fields.names defaults).Nodup) (r : Request) :
    r.FilledBy defaults (r.withDefaults defaults) ∧
      ((Fields.names r.params).Pairwise (· < ·) → (Fields.names (r.withDefaults defaults).params).Pairwise (· < ·)) ∧
      (r.withDefaults defaults).withDefaults defaults = r.withDefaults defaults ∧
      ∀ (q : Query) (previewed : Request), q.requestWithDefaults = .ok previewed →
        (q.withWalk { q.walk with request := previewed }).requestWithDefaults = .ok previewed ∧
          ∀ t, q.task = .ok t → t.inputs.request = previewed ∧
            ({ t with request := previewed } : PageTask).inputs.request = previewed ∧
            ∀ b, ({ t with request := previewed } : PageTask).run b = t.run b := by
  refine ⟨r.filledBy_withDefaults h, fun hs => Request.sorted_withDefaults hs defaults,
    r.withDefaults_withDefaults defaults, fun q previewed hq => ?_⟩
  have hlike := asksLike_previewed hq
  refine ⟨hlike.requestWithDefaults_eq.trans hq, fun t ht => ?_⟩
  have hfilled := filledRequest_of_previewed hq ht
  have htwice : ({ t with request := previewed } : PageTask).filledRequest = previewed := by
    rw [← hfilled]
    exact t.request.withDefaults_withDefaults t.handler.defaults
  exact ⟨hfilled, htwice, hlike.run_task_eq ht⟩

/-! ## Defaults of all kinds -/

/-- A request with a cursor and a parameter that is null. -/
def gappyRequest : Request := ⟨"s", "list", none, some (.number 7), [("query", .null)]⟩

/-- Defaults for all of its parts and parameters and for one more; the page number is of the wrong kind. -/
def mixedDefaults : List (String × Json) :=
  [("cursor", .str "first"), ("limit", .int 25), ("pageNumber", .str "one"), ("query", .str "cats"),
    ("source", .str "other")]

/-- The request with these defaults. -/
def filledGaps : Request := ⟨"s", "list", none, some (.number 7), [("limit", .int 25), ("query", .null)]⟩

/-- Only the one gap is filled, and only once. -/
theorem previewed_of_mixed : (Fields.names mixedDefaults).Nodup ∧ gappyRequest.FilledBy mixedDefaults filledGaps ∧
    filledGaps.withDefaults mixedDefaults = filledGaps ∧
    (echoQuery searchRequest).requestWithDefaults = .ok filledSearch ∧
    (echoQuery filledSearch).requestWithDefaults = .ok filledSearch := by
  have hnames : (Fields.names mixedDefaults).Nodup := by decide
  obtain ⟨hfilled, -, htwice, hshown⟩ := previewed_of_defaults hnames gappyRequest
  exact ⟨hnames, hfilled, htwice, rfl, (hshown (echoQuery searchRequest) filledSearch rfl).1⟩

end Query

end MediaQuery
