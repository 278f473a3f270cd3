import MediaQuery.Proofs.Query.Pruned

/-!
# Excluded entries in the checks

A body is checked as a value, and it is sent as JSON, without what is excluded. The two agree where every look-up takes
an excluded entry for an absent one. All do but two: the source that a medium names, and the page where none is due.
So a body passes exactly if its cleared form does and it has no excluded entry in one of these two places
(`Validation.check_of_clears`, `Contract.check_of_clears`); in particular its pruned form, and for a plain body also what
is read back from the JSON that is sent (`Value.verdict_of_prune`).
-/

namespace MediaQuery

namespace Value

/-- A body one of whose media has an excluded entry for its source. -/
def HidesSource (body : Value) : Prop :=
  ∃ items, body.get? "media" = some (.list items) ∧ ∃ medium ∈ items, medium.get? "mediaFinderSource" = some .exclude

/-- A body with an excluded entry for its page. -/
def HidesPage (body : Value) : Prop := body.get? "page" = some .exclude

theorem eq_exclude {v : Value} (h : v.isExclude = true) : v = .exclude := by
  cases v <;> first | rfl | cases h

namespace Clears

variable {P : Value → Prop} {f : Value → Value} {v entry : Value} {key : String}

/-- What is found in a cleared value is an entry of the value. -/
theorem get?_eq_some_iff (hf : Clears P f) (hv : P v) {found : Value} : (f v).get? key = some found ↔
    ∃ entry, v.get? key = some entry ∧ entry.isExclude = false ∧ f entry = found := by
  rw [hf.get? hv, Option.map_eq_some_iff]
  simp only [Option.filter_eq_some_iff, Bool.not_eq_true', and_assoc]

theorem exists_map_iff (hf : Clears P f) (hv : P v) :
    (∃ entries, f v = .map entries) ↔ ∃ entries, v = .map entries := by
  rw [← asMap?_isNone_eq_false_iff, ← asMap?_isNone_eq_false_iff, hf.asMap?_isNone hv]

theorem eq_string_iff (hf : Clears P f) (hv : P v) (he : v.isExclude = false) {s : String} :
    f v = .string s ↔ v = .string s := by
  rw [← asString?_eq_some_iff, ← asString?_eq_some_iff]
  exact Eq.congr_left (hf.read hv he asString? (fun _ _ => rfl) fun _ _ => rfl)

theorem eq_list_iff (hf : Clears P f) (hv : P v) (he : v.isExclude = false) {cleared : List Value} :
    f v = .list cleared ↔ ∃ items, v = .list items ∧ cleared = (items.filter (!·.isExclude)).map f := by
  cases v with
  | list items =>
    rw [hf.list hv]
    simp [eq_comm]
  | map entries =>
    obtain ⟨other, hother, -⟩ := hf.map hv
    rw [hother]
    simp
  | _ =>
    rw [hf.scalar hv he rfl rfl]
    simp

/-- The list under a name in a cleared value. -/
theorem exists_list_iff (hf : Clears P f) (hv : P v) {Q : List Value → Prop} :
    (∃ cleared, (f v).get? key = some (.list cleared) ∧ Q cleared) ↔
      ∃ items, v.get? key = some (.list items) ∧ Q ((items.filter (!·.isExclude)).map f) := by
  simp only [hf.get?_eq_some_iff hv]
  constructor
  · rintro ⟨cleared, ⟨entry, hentry, he, hcleared⟩, hQ⟩
    obtain ⟨items, rfl, rfl⟩ := (hf.eq_list_iff (hf.get?_prop hv hentry) he).1 hcleared
    exact ⟨items, hentry, hQ⟩
  · rintro ⟨items, hitems, hQ⟩
    exact ⟨_, ⟨_, hitems, rfl, hf.list (hf.get?_prop hv hitems)⟩, hQ⟩

/-- **A medium is of a source exactly if its cleared form is and its entry for the source is not excluded.** -/
theorem belongsTo_iff (hf : Clears P f) (hv : P v) {source : String} :
    v.BelongsTo source ↔ (f v).BelongsTo source ∧ v.get? "mediaFinderSource" ≠ some .exclude := by
  unfold BelongsTo
  rw [hf.exists_map_iff hv, and_assoc]
  refine and_congr_right fun _ => ⟨fun h => ⟨fun found hfound => ?_, fun hexclude => ?_⟩, fun h found hfound => ?_⟩
  · obtain ⟨entry, hentry, he, rfl⟩ := (hf.get?_eq_some_iff hv).1 hfound
    exact (hf.eq_string_iff (hf.get?_prop hv hentry) he).2 (h entry hentry)
  · cases h _ hexclude
  · cases he : found.isExclude with
    | true => exact absurd (eq_exclude he ▸ hfound) h.2
    | false =>
      have hcleared := (hf.get?_eq_some_iff hv).2 ⟨found, hfound, he, rfl⟩
      exact (hf.eq_string_iff (hf.get?_prop hv hfound) he).1 (h.1 _ hcleared)

end Clears

end Value

open Value (Clears)

variable {P : Value → Prop} {f : Value → Value} {body page : Value}

/-! ## The shape of a response -/

namespace Validation

variable {request : Value} {source : String}

theorem mediaIssues_of_clears (hf : Clears P f) (hbody : P body) :
    mediaIssues source (body.get? "media") = [] ↔
      mediaIssues source ((f body).get? "media") = [] ∧ ¬ body.HidesSource := by
  rw [mediaIssues_eq_nil_iff, mediaIssues_eq_nil_iff, hf.exists_list_iff hbody]
  unfold Value.HidesSource
  constructor
  · rintro ⟨items, hitems, hall⟩
    have hP {medium : Value} (hm : medium ∈ items) : P medium := hf.item (hf.get?_prop hbody hitems) hm
    refine ⟨⟨items, hitems, fun cleared hcleared _ => ?_⟩, fun ⟨items', hitems', medium, hm, hhides⟩ => ?_⟩
    · obtain ⟨medium, hm, rfl⟩ := List.mem_map.1 hcleared
      obtain ⟨hm, he⟩ := List.mem_filter.1 hm
      exact ((hf.belongsTo_iff (hP hm)).1 (hall medium hm (by simpa using he))).1
    · cases hitems.symm.trans hitems'
      -- a medium with entries is itself not excluded
      have he : medium.isExclude = false := by
        cases medium with
        | exclude => cases hhides
        | _ => rfl
      exact ((hf.belongsTo_iff (hP hm)).1 (hall medium hm he)).2 hhides
  · rintro ⟨⟨items, hitems, hall⟩, hhides⟩
    have hP {medium : Value} (hm : medium ∈ items) : P medium := hf.item (hf.get?_prop hbody hitems) hm
    refine ⟨items, hitems, fun medium hm he => (hf.belongsTo_iff (hP hm)).2 ⟨?_, fun hno => ?_⟩⟩
    · exact hall _ (List.mem_map_of_mem (List.mem_filter.2 ⟨hm, by simpa using he⟩)) (hf.isExclude (hP hm) he)
    · exact hhides ⟨items, hitems, medium, hm, hno⟩

theorem requestIssues_of_clears (hf : Clears P f) (hbody : P body) :
    requestIssues request (body.get? "request") = [] ↔ requestIssues request ((f body).get? "request") = [] := by
  rw [requestIssues_eq_nil_iff, requestIssues_eq_nil_iff]
  constructor
  · rintro ⟨entries, hfound, hsame⟩
    have hP : P (.map entries) := hf.get?_prop hbody hfound
    obtain ⟨cleared, hcleared, -⟩ := hf.map hP
    refine ⟨cleared, (hf.get?_eq_some_iff hbody).2 ⟨_, hfound, rfl, hcleared⟩, ?_⟩
    rw [← hcleared, hf.toJson hP]
    exact hsame
  · rintro ⟨cleared, hcleared, hsame⟩
    obtain ⟨found, hfound, -, heq⟩ := (hf.get?_eq_some_iff hbody).1 hcleared
    have hP : P found := hf.get?_prop hbody hfound
    obtain ⟨entries, rfl⟩ := (hf.exists_map_iff hP).1 ⟨cleared, heq⟩
    rw [← heq, hf.toJson hP] at hsame
    exact ⟨entries, hfound, hsame⟩

/-- **A body has the right shape exactly if its cleared form has and none of its media hides its source.** -/
theorem check_of_clears (hf : Clears P f) (hbody : P body) :
    check request source body = .ok () ↔ check request source (f body) = .ok () ∧ ¬ body.HidesSource := by
  rw [check_eq_ok_iff, check_eq_ok_iff, issues_eq_nil_iff, issues_eq_nil_iff, hf.exists_map_iff hbody,
    mediaIssues_of_clears hf hbody, requestIssues_of_clears hf hbody]
  tauto

end Validation

/-! ## The contract -/

namespace Contract

variable {c : Contract}

/-- The fields that a cursor page may have. -/
def cursorLike? : Value → Option Unit
  | .string _ => some ()
  | .integer _ => some ()
  | .null => some ()
  | _ => none

theorem cursorFault?_eq_none_iff {name : String} :
    cursorFault? page name = none ↔ (page.get? name).bind cursorLike? = some () := by
  unfold cursorFault?
  cases page.get? name with
  | none => simp
  | some found => cases found <;> simp [cursorLike?]

theorem fieldFault?_of_clears (hf : Clears P f) (hpage : P page) (kind : Pagination) :
    fieldFault? page kind = none ↔ fieldFault? (f page) kind = none := by
  have hcursor (name : String) : cursorFault? page name = none ↔ cursorFault? (f page) name = none := by
    rw [cursorFault?_eq_none_iff, cursorFault?_eq_none_iff,
      hf.get?_bind hpage name cursorLike? (fun _ => rfl) (fun _ => rfl) rfl]
  cases kind with
  | offset =>
    have hnumber := hf.get?_bind hpage "pageNumber" Value.asInt? (fun _ => rfl) (fun _ => rfl) rfl
    unfold fieldFault? offsetFault?
    simp only [Option.bind_eq_bind, hnumber]
  | cursor =>
    unfold fieldFault?
    rw [Option.or_eq_none_iff, Option.or_eq_none_iff, hcursor, hcursor]
  | none => exact Iff.rfl

theorem pageFault?_of_clears (hf : Clears P f) (hpage : P page) :
    c.pageFault? page = none ↔ c.pageFault? (f page) = none := by
  have hkind := hf.get?_bind hpage "paginationType" Value.asString? (fun _ => rfl) (fun _ => rfl) rfl
  have hmark := hf.get?_bind hpage "pageFetchLimitReached" Value.asBool? (fun _ => rfl) (fun _ => rfl) rfl
  unfold pageFault? limitFault?
  simp only [Option.bind_eq_bind, hkind, hmark]
  split
  · rw [Option.or_eq_none_iff, Option.or_eq_none_iff, fieldFault?_of_clears hf hpage]
  · exact Iff.rfl

theorem page?_eq_some_iff : page? body = some page ↔ body.get? "page" = some page ∧ page.isNull = false := by
  simp [page?]

/-- The contract is kept by a page without fault where one is due, by no page where none is. -/
theorem fault?_eq_none_iff : c.fault? body = none ↔
    if c.pagination = .none then page? body = none else ∃ page, page? body = some page ∧ c.pageFault? page = none := by
  unfold fault?
  cases page? body <;> cases c.pagination <;> simp [Pagination.isPaged]

theorem pageFault?_exclude : c.pageFault? .exclude ≠ none := by
  unfold pageFault?
  simp [Value.get?]

/-- **A body keeps its contract exactly if its cleared form does and it hides no page where none is due.** -/
theorem check_of_clears (hf : Clears P f) (hbody : P body) :
    c.check body = .ok () ↔ c.check (f body) = .ok () ∧ ¬ (c.pagination = .none ∧ body.HidesPage) := by
  rw [check_eq_ok_iff, check_eq_ok_iff, fault?_eq_none_iff, fault?_eq_none_iff]
  have hnull {page : Value} (hpage : P page) (he : page.isExclude = false) : (f page).isNull = page.isNull :=
    hf.read hpage he Value.isNull (fun _ _ => rfl) fun _ _ => rfl
  by_cases hkind : c.pagination = .none
  · rw [if_pos hkind, if_pos hkind]
    unfold page? Value.HidesPage
    rw [hf.get? hbody]
    cases hpage : body.get? "page" with
    | none => simp
    | some page =>
      cases he : page.isExclude with
      | true =>
        obtain rfl := Value.eq_exclude he
        simp [hkind, Value.isNull]
      | false =>
        have hne : page ≠ .exclude := fun h => by rw [h] at he; cases he
        simp [he, hnull (hf.get?_prop hbody hpage) he, hne]
  · rw [if_neg hkind, if_neg hkind]
    simp only [hkind, false_and, not_false_iff, and_true, page?_eq_some_iff]
    constructor
    · rintro ⟨page, ⟨hpage, hnot⟩, hfault⟩
      have hP : P page := hf.get?_prop hbody hpage
      have he : page.isExclude = false := by
        cases h : page.isExclude with
        | true => exact absurd (Value.eq_exclude h ▸ hfault) pageFault?_exclude
        | false => rfl
      exact ⟨f page, ⟨(hf.get?_eq_some_iff hbody).2 ⟨page, hpage, he, rfl⟩, (hnull hP he).trans hnot⟩,
        (pageFault?_of_clears hf hP).1 hfault⟩
    · rintro ⟨_, ⟨hcleared, hnot⟩, hfault⟩
      obtain ⟨page, hpage, he, rfl⟩ := (hf.get?_eq_some_iff hbody).1 hcleared
      have hP : P page := hf.get?_prop hbody hpage
      exact ⟨page, ⟨hpage, (hnull hP he).symm.trans hnot⟩, (pageFault?_of_clears hf hP).2 hfault⟩

end Contract

/-! ## Pruned bodies -/

namespace Value

/-- Nothing that is found in a pruned value is excluded. -/
theorem not_hidden_of_prune (hbody : body.Throughout HasDistinctNames) {key : String} :
    body.prune.get? key ≠ some .exclude := fun h => by
  obtain ⟨entry, -, he, hentry⟩ := (clears_prune.get?_eq_some_iff hbody).1 h
  rw [← isExclude_prune, hentry] at he
  cases he

theorem not_hidesSource_prune (hbody : body.Throughout HasDistinctNames) : ¬ body.prune.HidesSource := by
  rintro ⟨items, hitems, medium, hm, hhides⟩
  obtain ⟨_, hentry, he, hpruned⟩ := (clears_prune.get?_eq_some_iff hbody).1 hitems
  have hP := clears_prune.get?_prop hbody hentry
  obtain ⟨all, rfl, rfl⟩ := (clears_prune.eq_list_iff hP he).1 hpruned
  obtain ⟨original, horiginal, rfl⟩ := List.mem_map.1 hm
  exact not_hidden_of_prune (hP.item (List.mem_of_mem_filter horiginal)) hhides

/-- **Where the checks take what is excluded for absent.** The pruned body has the JSON form of the body, and it passes
the check of the shape and that of the contract if the body does. If a body does not pass and its pruned form does, then
one of its media has an excluded source, or it has an excluded page and none is due. For a plain body the pruned form
passes exactly if that does which is read back from the JSON that is sent. -/
theorem verdict_of_prune (body request : Value) (source : String) (c : Contract)
    (hd : body.Throughout HasDistinctNames) :
    body.prune.toJson = body.toJson ∧ body.prune.wire = body.wire ∧
    (Validation.check request source body = .ok () ↔
      Validation.check request source body.prune = .ok () ∧ ¬ body.HidesSource) ∧
    (c.check body = .ok () ↔ c.check body.prune = .ok () ∧ ¬ (c.pagination = .none ∧ body.HidesPage)) ∧
    (body.Throughout IsPlain →
      (Validation.check request source body.prune = .ok () ↔ Validation.check request source body.reread = .ok ()) ∧
      (c.check body.prune = .ok () ↔ c.check body.reread = .ok ())) := by
  refine ⟨toJson_prune body, wire_prune body, Validation.check_of_clears clears_prune hd,
    Contract.check_of_clears clears_prune hd, fun hplain => ?_⟩
  have hpruned := And.intro (hasDistinctNames_prune hd) (isPlain_prune hplain)
  rw [← reread_prune body, Validation.check_of_clears clears_reread hpruned,
    Contract.check_of_clears clears_reread hpruned]
  exact ⟨and_iff_left (not_hidesSource_prune hd), and_iff_left fun h => not_hidden_of_prune hd h.2⟩

/-- A body whose only medium has an excluded source, and whose page is excluded. -/
def veiled : Value :=
  .map [("media", .list [.map [("mediaFinderSource", .exclude)]]), ("request", .map []), ("page", .exclude)]

theorem distinctNames_veiled : veiled.Throughout HasDistinctNames := by
  simp [veiled, Throughout, throughoutItems, throughoutEntries, HasDistinctNames, asMap?, Fields.names]

/-- It passes neither check, and its pruned form passes both. -/
theorem refused_when_veiled :
    (Validation.check (.map []) "s" veiled ≠ .ok () ∧ Validation.check (.map []) "s" veiled.prune = .ok ()) ∧
      ((⟨"h", "s", .none, none⟩ : Contract).check veiled ≠ .ok () ∧
        (⟨"h", "s", .none, none⟩ : Contract).check veiled.prune = .ok ()) :=
  ⟨⟨(by cases ·), rfl⟩, (by cases ·), rfl⟩

/-- What makes it fail is what it hides; what is read back from its JSON form passes. -/
theorem verdict_of_veiled :
    veiled.HidesSource ∧ veiled.HidesPage ∧ Validation.check (.map []) "s" veiled.reread = .ok () ∧
      (⟨"h", "s", .none, none⟩ : Contract).check veiled.reread = .ok () := by
  obtain ⟨-, -, hshape, hcontract, hread⟩ :=
    verdict_of_prune veiled (.map []) "s" ⟨"h", "s", .none, none⟩ distinctNames_veiled
  have hplain : veiled.Throughout IsPlain := by
    simp [veiled, Throughout, throughoutItems, throughoutEntries, IsPlain]
  have hsource : veiled.HidesSource := by
    by_contra hno
    cases hshape.2 ⟨rfl, hno⟩
  have hpage : veiled.HidesPage := by
    by_contra hno
    cases hcontract.2 ⟨rfl, fun h => hno h.2⟩
  exact ⟨hsource, hpage, (hread hplain).1.1 rfl, (hread hplain).2.1 rfl⟩

end Value

end MediaQuery
