import MediaQuery.Proofs.Query.Step
import Mathlib.Logic.Relation

/-!
# The budget of a walk

Whatever is done with a query, its walk stays within the budget, and its phase says how far it has come
(`Walk.Within`). Every call keeps this (`within_of_call`), so every series of calls does.
-/

namespace MediaQuery

/-- A walk that fits its budget and its phase. -/
structure Walk.Within (w : Walk) : Prop where
  fetched_le : w.fetched ≤ w.limit
  not_fetching : w.phase ≠ .fetching
  fetched_of_idle : w.phase = .idle → w.fetched = 0
  fetched_of_yielded : w.phase = .yielded → 0 < w.fetched ∧ w.fetched < w.limit
  fetched_of_limitReached : w.phase = .limitReached → w.fetched = w.limit

namespace Walk

theorem within_start (r : Request) (options : QueryOptions) : (start r options).Within :=
  ⟨Nat.zero_le _, nofun, fun _ => rfl, nofun, nofun⟩

theorem within_rewind (w : Walk) : w.rewind.Within := ⟨Nat.zero_le _, nofun, fun _ => rfl, nofun, nofun⟩

theorem Within.fail {w : Walk} (h : w.Within) : w.fail.Within := ⟨h.fetched_le, nofun, nofun, nofun, nofun⟩

/-- A budget that has turned out to be used up is used up exactly. -/
theorem Within.stop {w : Walk} (h : w.Within) (hs : w.isSpent = true) : w.stop.Within := by
  have hle : w.limit ≤ w.fetched := of_decide_eq_true hs
  exact ⟨h.fetched_le, nofun, nofun, nofun, fun _ => Nat.le_antisymm h.fetched_le hle⟩

/-- A page is begun only where the budget allows one more. -/
theorem fetched_begin_le {w : Walk} (hs : w.isSpent = false) : w.begin.fetched ≤ w.limit :=
  Nat.lt_of_not_le (of_decide_eq_false hs)

theorem within_begin_fail {w : Walk} (hs : w.isSpent = false) : w.begin.fail.Within :=
  ⟨fetched_begin_le hs, nofun, nofun, nofun, nofun⟩

/-- The phases that a page can lead to. -/
theorem phaseAfter_cases (w : Walk) (p : Pagination) (r : Response) :
    w.phaseAfter p r = .exhausted ∨ w.phaseAfter p r = .limitReached ∧ w.isSpent = true ∨
      w.phaseAfter p r = .yielded ∧ w.isSpent = false ∧ p.isPaged = true := by
  unfold phaseAfter
  split
  · exact .inl rfl
  · next hlast =>
    simp only [Bool.or_eq_true, Bool.not_eq_true', not_or, Bool.not_eq_false] at hlast
    split
    · next hs => exact .inr (.inl ⟨rfl, hs⟩)
    · next hs => exact .inr (.inr ⟨rfl, by simpa using hs, hlast.1⟩)

theorem within_begin_advance {w : Walk} (hs : w.isSpent = false) (p : Pagination) (r : Response) :
    (w.begin.advance p r).Within := by
  have hle : w.begin.fetched ≤ w.limit := fetched_begin_le hs
  have hpos : 0 < w.begin.fetched := Nat.succ_pos _
  have hphase : (w.begin.advance p r).phase = w.begin.phaseAfter p r := rfl
  rcases phaseAfter_cases w.begin p r with he | ⟨he, hspent⟩ | ⟨he, hleft, -⟩
  · rw [he] at hphase
    exact ⟨hle, by simp [hphase], by simp [hphase], by simp [hphase], by simp [hphase]⟩
  · rw [he] at hphase
    have hge : w.limit ≤ w.begin.fetched := of_decide_eq_true hspent
    exact ⟨hle, by simp [hphase], by simp [hphase], by simp [hphase], fun _ => Nat.le_antisymm hle hge⟩
  · rw [he] at hphase
    have hlt : w.begin.fetched < w.limit := Nat.lt_of_not_le (of_decide_eq_false hleft)
    exact ⟨hle, by simp [hphase], by simp [hphase], fun _ => ⟨hpos, hlt⟩, by simp [hphase]⟩

end Walk

namespace Query

/-- What can be done with a query between two pages, and the query after it. A step runs on any machine, below any
of its branches, and comes to its end. -/
inductive Call : Query → Query → Prop
  | next {q : Query} {branch : Route} {m m' : Machine} {step : Step}
      (h : m.run (q.next branch) = (some step, m')) : Call q (q.withWalk step.walk)
  | setRequest (q : Query) (r : Request) : Call q (q.withWalk (q.walk.setRequest r))
  | setOptions (q : Query) (options : QueryOptions) : Call q (q.withWalk (q.walk.setOptions options))
  | rewind (q : Query) : Call q (q.withWalk q.walk.rewind)

/-- A query as it is after any series of calls. -/
def Reached (registry : Registry) (r : Request) (options : QueryOptions) (q : Query) : Prop :=
  Relation.ReflTransGen Call ⟨registry, .start r options⟩ q

/-- A query that has yielded a page and may yield another has a handler that paginates. -/
def YieldsPaged (q : Query) : Prop :=
  q.walk.phase = .yielded → ∃ h, q.handler = .ok h ∧ h.pagination.isPaged = true

/-- The request after a page resolves to the same handler. -/
theorem handler_withWalk_advance (q : Query) (p : Pagination) (r : Response) :
    (q.withWalk (q.walk.begin.advance p r)).handler = q.handler := by
  have hsource : (Walk.following q.walk.request p r.page).source = q.walk.request.source := by
    unfold Walk.following
    repeat' split
    all_goals rfl
  have htype : (Walk.following q.walk.request p r.page).queryType = q.walk.request.queryType := by
    unfold Walk.following
    repeat' split
    all_goals rfl
  unfold handler source request withWalk Walk.advance Walk.begin
  simp only [hsource, htype]

/-- **Every call keeps a walk within its budget.** -/
theorem within_of_call {q q' : Query} (hc : q.Call q') (h : q.walk.Within) (hy : q.YieldsPaged) :
    q'.walk.Within ∧ q'.YieldsPaged := by
  cases hc with
  | setRequest r => exact ⟨Walk.within_rewind _, nofun⟩
  | setOptions options => exact ⟨Walk.within_rewind _, nofun⟩
  | rewind => exact ⟨Walk.within_rewind _, nofun⟩
  | next hrun =>
    cases run_next_iff.1 hrun with
    | ended => exact ⟨h, hy⟩
    | refused => exact ⟨h.fail, nofun⟩
    | spent _ _ hs => exact ⟨h.stop hs, nofun⟩
    | failed _ _ hs => exact ⟨Walk.within_begin_fail hs, nofun⟩
    | page _ ht hs =>
      refine ⟨Walk.within_begin_advance hs _ _, fun hphase => ?_⟩
      rw [handler_withWalk_advance]
      refine ⟨_, handler_of_task ht, ?_⟩
      rcases Walk.phaseAfter_cases q.walk.begin _ _ with he | ⟨he, -⟩ | ⟨-, -, hp⟩
      · exact absurd (hphase.symm.trans he) (by decide)
      · exact absurd (hphase.symm.trans he) (by decide)
      · exact hp

/-- Every series of calls does. -/
theorem within_of_reached {registry : Registry} {r : Request} {options : QueryOptions} {q : Query}
    (h : Reached registry r options q) : q.walk.Within ∧ q.YieldsPaged := by
  induction h with
  | refl => exact ⟨Walk.within_start r options, nofun⟩
  | tail _ hc ih => exact within_of_call hc ih.1 ih.2

/-- **The driver's invariant.** Whatever series of steps and changes a query has been through, its count is within
the budget, its phase fits the count, and once the walk is over every further step answers nothing and leaves the
walk and the machine as they are. -/
theorem walk_of_reached {registry : Registry} {r : Request} {options : QueryOptions} {q : Query}
    (h : Reached registry r options q) :
    q.walk.fetched ≤ q.walk.options.fetchCountLimit ∧
      q.walk.phase ≠ .fetching ∧
      (q.walk.phase = .yielded →
        0 < q.walk.fetched ∧ q.walk.fetched < q.walk.options.fetchCountLimit ∧
          ∃ handler, q.handler = .ok handler ∧ handler.pagination ≠ .none) ∧
      (q.walk.phase = .limitReached → q.walk.fetched = q.walk.options.fetchCountLimit) ∧
      (q.walk.phase = .idle → q.walk.fetched = 0) ∧
      (q.walk.phase = .exhausted ∨ q.walk.phase = .limitReached →
        ∀ (branch : Route) (m : Machine), m.run (q.next branch) = (some ⟨.ok none, q.walk⟩, m)) := by
  obtain ⟨hw, hy⟩ := within_of_reached h
  refine ⟨hw.fetched_le, hw.not_fetching, fun hphase => ?_, hw.fetched_of_limitReached, hw.fetched_of_idle,
    fun hphase branch m => ?_⟩
  · obtain ⟨handler, hh, hp⟩ := hy hphase
    obtain ⟨hpos, hlt⟩ := hw.fetched_of_yielded hphase
    exact ⟨hpos, hlt, handler, hh, fun e => by simp [e, Pagination.isPaged] at hp⟩
  · refine run_next_iff.2 (.ended ?_)
    rcases hphase with e | e <;> rw [e] <;> rfl

/-! ## A listing of numbered pages -/

/-- The body of the first page of a listing. -/
def sampleBody : Value :=
  .map [("page", .map [("paginationType", .string "offset"), ("pageNumber", .integer 1),
      ("pageFetchLimitReached", .bool false)]),
    ("media", .list []),
    ("request", .map [("source", .string "s"), ("queryType", .string "list")])]

/-- The handler of a listing. -/
def sampleHandler : Handler :=
  { id := "list"
    displayName := "List"
    description := ""
    pagination := .offset
    defaults := []
    secrets := []
    responses := [{ accepts := none, validator := Validation.acceptAll, template := .scalar sampleBody }] }

/-- The source of a listing. -/
def sampleSource : Source := ⟨"s", "S", "", [sampleHandler]⟩

/-- A query of at most two pages of a listing. -/
def sampleQuery : Query := ⟨⟨[("s", sampleSource)], .empty⟩, .start (.plain "s" "list") ⟨[], 2, false⟩⟩

/-- The response on the first page of a listing. -/
def sampleResponse : Response :=
  { page := some ⟨.offset, some 1, none, none, none, none, none, false⟩
    media := []
    request := .plain "s" "list"
    body := sampleBody }

/-- A query of two pages has yielded the first one. -/
theorem walk_after_first_page :
    ∃ q, Reached sampleQuery.registry (.plain "s" "list") ⟨[], 2, false⟩ q ∧ q.walk.phase = .yielded ∧
      0 < q.walk.fetched ∧ q.walk.fetched < 2 ∧ ∃ handler, q.handler = .ok handler ∧ handler.pagination ≠ .none := by
  have htask : sampleQuery.task = .ok (sampleQuery.taskFor sampleSource sampleHandler) := rfl
  have hrun : (Machine.start .blank).run ((sampleQuery.taskFor sampleSource sampleHandler).run []) =
      (some (.ok sampleResponse), _) := Machine.drive_of_result rfl _
  have hnext := run_next_iff.2 (.page rfl htask rfl hrun)
  have hreached := Relation.ReflTransGen.single (Call.next hnext)
  exact ⟨_, hreached, rfl, (walk_of_reached hreached).2.2.1 rfl⟩

end Query

end MediaQuery
