import MediaQuery.Proofs.Query.Budget
import Mathlib.Data.ENat.Lattice
import Mathlib.Tactic.Common

/-!
# How far a walk goes

A walk that is left alone makes pages until one of them closes it (`PageTask.closes`) or its budget is used up:
`PageTask.extent` is how many. The task of every page is known from the first task and the outcomes before it
(`PageTask.nth`). A query stands either before a page of its walk or after the last one (`Query.Stands`); every call
of `next` takes it one page on (`Stands.page`) or finds nothing (`Stands.rest`). From this follow both what any number
of calls answers and what the stream of the query consists of (`extent_of_walk`).
-/

namespace MediaQuery

namespace PageTask

variable (t : PageTask) (limit : Nat) (outcome : Nat → Except Error Response)

/-- The request of the page after the given number of pages, whose outcomes are known. -/
def requestAt : Nat → Request
  | 0 => t.request
  | k + 1 =>
    match outcome k with
    | .ok response => Walk.following (requestAt k) t.handler.pagination response.page
    | .error _ => requestAt k

/-- The task of the page after the given number of pages. -/
def nth (k : Nat) : PageTask :=
  { t with
    request := t.requestAt outcome k
    fetchLimitReached := if t.handler.pagination.isPaged then some (k + 1 = limit) else none }

/-- Whether no page follows: after a failure, without pagination, and after a page that says it is the last. -/
def closes : Except Error Response → Bool
  | .ok response => !t.handler.pagination.isPaged || response.isLastPage
  | .error _ => true

/-- How many pages a walk with the given budget makes, a failing one included. -/
def extent : Nat := ((List.range limit).find? fun k => t.closes (outcome k)).elim limit (· + 1)

variable {t limit outcome}

/-- A page is made exactly if the budget allows it and no page before it closes the walk. -/
theorem lt_extent_iff {k : Nat} :
    k < t.extent limit outcome ↔ k < limit ∧ ∀ i < k, t.closes (outcome i) = false := by
  unfold extent
  cases h : (List.range limit).find? fun k => t.closes (outcome k) with
  | none =>
    have hnone : ∀ i < limit, t.closes (outcome i) = false := by simpa using h
    exact ⟨fun hk => ⟨hk, fun i hi => hnone i (Nat.lt_trans hi hk)⟩, fun hk => hk.1⟩
  | some c =>
    obtain ⟨hc, hlimit, hfirst⟩ := List.find?_range_eq_some.1 h
    rw [List.mem_range] at hlimit
    constructor
    · intro hk
      have hkc : k ≤ c := Nat.le_of_lt_succ hk
      exact ⟨Nat.lt_of_le_of_lt hkc hlimit, fun i hi => by simpa using hfirst i (Nat.lt_of_lt_of_le hi hkc)⟩
    · intro hk
      refine Nat.lt_succ_of_le (Nat.le_of_not_lt fun hck => ?_)
      rw [hk.2 c hck] at hc
      exact Bool.false_ne_true hc

/-- The walk goes on after a page exactly if the page does not close it and the budget allows one more. -/
theorem succ_lt_extent_iff {k : Nat} (hk : k < t.extent limit outcome) :
    k + 1 < t.extent limit outcome ↔ t.closes (outcome k) = false ∧ k + 1 < limit := by
  obtain ⟨-, hbefore⟩ := lt_extent_iff.1 hk
  rw [lt_extent_iff]
  constructor
  · exact fun h => ⟨h.2 k (Nat.lt_succ_self k), h.1⟩
  · rintro ⟨hopen, hlimit⟩
    refine ⟨hlimit, fun i hi => ?_⟩
    rcases Nat.lt_succ_iff_lt_or_eq.1 hi with hi | rfl
    · exact hbefore i hi
    · exact hopen

/-- **The extent is the budget or the first outcome that closes the walk, whichever comes first.** -/
theorem extent_eq_min :
    (t.extent limit outcome : ℕ∞) = min (limit : ℕ∞) (⨅ k, ⨅ _ : t.closes (outcome k) = true, ((k + 1 : Nat) : ℕ∞)) := by
  have hself : ¬(t.extent limit outcome < limit ∧ ∀ i < t.extent limit outcome, t.closes (outcome i) = false) :=
    mt lt_extent_iff.2 (Nat.lt_irrefl _)
  refine le_antisymm (le_min (Nat.cast_le.2 ?_) (le_iInf₂ fun c hc => Nat.cast_le.2 ?_)) ?_
  · exact Nat.le_of_not_lt fun h => Nat.lt_irrefl _ (lt_extent_iff.1 h).1
  · refine Nat.le_of_not_lt fun h => ?_
    rw [(lt_extent_iff.1 h).2 c (Nat.lt_succ_self c)] at hc
    exact Bool.false_ne_true hc
  · rcases Nat.lt_or_ge (t.extent limit outcome) limit with hlt | hge
    · obtain ⟨c, hc, hcloses⟩ : ∃ c < t.extent limit outcome, t.closes (outcome c) = true := by
        by_contra hnone
        refine hself ⟨hlt, fun i hi => ?_⟩
        by_contra hclosed
        exact hnone ⟨i, hi, by simpa using hclosed⟩
      exact (min_le_right _ _).trans ((iInf₂_le c hcloses).trans (Nat.cast_le.2 hc))
    · exact (min_le_left _ _).trans (Nat.cast_le.2 hge)

end PageTask

namespace Query

/-! ## Calls in a row -/

/-- The query after the given number of calls in a row, each on a machine and below a branch of its own; none if one
of them does not come to its end. -/
def called (q : Query) (site : Nat → Machine × Route) : Nat → Option Query
  | 0 => some q
  | i + 1 => (q.called site i).bind fun q' =>
      ((site i).1.run (q'.next (site i).2)).1.map fun step => q'.withWalk step.walk

/-- What the call after the given number of calls answers. -/
def answer? (q : Query) (site : Nat → Machine × Route) (i : Nat) : Option (Except Error (Option Response)) :=
  (q.called site i).bind fun q' => ((site i).1.run (q'.next (site i).2)).1.map Step.result

/-! ## Tasks -/

/-- A query has a task exactly if its request is complete, its handler is there and the secrets are. -/
theorem task_eq_ok_iff {q : Query} {t : PageTask} :
    q.task = .ok t ↔ q.checkRequest = .ok () ∧ ∃ source, q.source = .ok source ∧
      ∃ h, source.handler q.request.queryType = .ok h ∧ q.checkSecrets h = .ok () ∧ t = q.taskFor source h := by
  unfold task
  cases q.checkRequest with
  | error e => simp
  | ok u =>
    cases q.source with
    | error e => simp [bind, Except.bind]
    | ok source =>
      cases hh : source.handler q.request.queryType with
      | error e => simp [bind, Except.bind, hh]
      | ok h =>
        cases hs : q.checkSecrets h with
        | error e => simp [bind, Except.bind, hh, hs]
        | ok u => simp [bind, Except.bind, hh, hs, eq_comm]

variable {q : Query} {t : PageTask} {outcome : Nat → Except Error Response}

/-- The request moves on, its source and its type of query stay. -/
theorem requestAt_names (t : PageTask) (outcome : Nat → Except Error Response) (k : Nat) :
    (t.requestAt outcome k).source = t.request.source ∧ (t.requestAt outcome k).queryType = t.request.queryType := by
  induction k with
  | zero => exact ⟨rfl, rfl⟩
  | succ k ih =>
    unfold PageTask.requestAt Walk.following
    repeat' split
    all_goals exact ih

/-- The query before the page after the given number of pages. -/
def before (q : Query) (t : PageTask) (outcome : Nat → Except Error Response) (k : Nat) : Query :=
  q.withWalk { q.walk with
    request := t.requestAt outcome k
    phase := if k = 0 then .idle else .yielded
    fetched := k }

theorem isTerminal_before (k : Nat) : (q.before t outcome k).walk.phase.isTerminal = false := by
  unfold before withWalk
  by_cases hk : k = 0 <;> simp [hk, Phase.isTerminal]

/-- Its task is the one that the first task and the outcomes tell. -/
theorem task_before (hidle : q.walk.phase = .idle) (ht : q.task = .ok t) (k : Nat) :
    (q.before t outcome k).task = .ok (t.nth q.walk.limit outcome k) := by
  obtain ⟨hrequest, source, hsource, h, hh, hsecrets, rfl⟩ := task_eq_ok_iff.1 ht
  obtain ⟨hs, hq⟩ := requestAt_names (q.taskFor source h) outcome k
  have hnames : (q.before (q.taskFor source h) outcome k).request.source = q.request.source ∧
      (q.before (q.taskFor source h) outcome k).request.queryType = q.request.queryType := ⟨hs, hq⟩
  refine task_eq_ok_iff.2 ⟨?_, source, ?_, h, ?_, ?_, rfl⟩
  · unfold checkRequest at hrequest ⊢
    rwa [hnames.1, hnames.2]
  · unfold Query.source at hsource ⊢
    rwa [hnames.1]
  · rwa [hnames.2]
  · unfold checkSecrets at hsecrets ⊢
    rw [if_pos hidle] at hsecrets
    by_cases hk : k = 0
    · exact (if_pos (if_pos hk)).trans hsecrets
    · refine if_neg fun e => ?_
      exact absurd ((if_neg hk).symm.trans e) (by decide)

/-! ## Before a page, or after the last one -/

/-- No page is left: the walk is over, or its budget is used up. -/
def Finished (q : Query) : Prop :=
  q.walk.phase.isTerminal = true ∨
    q.walk.phase.isTerminal = false ∧ q.walk.isSpent = true ∧ ∃ t, q.task = .ok t

/-- Where a query stands after the given number of pages: before the next one, or after the last one. -/
def Stands (q : Query) (t : PageTask) (outcome : Nat → Except Error Response) (k : Nat) (q' : Query) : Prop :=
  if k < t.extent q.walk.limit outcome then q' = q.before t outcome k else q'.Finished

/-- A query without pages left answers nothing, and again has none left. -/
theorem Finished.next {q : Query} (h : q.Finished) (m : Machine) (b : Route) :
    ∃ w, m.run (q.next b) = (some ⟨.ok none, w⟩, m) ∧ (q.withWalk w).Finished := by
  rcases h with hover | ⟨hopen, hspent, t, ht⟩
  · exact ⟨_, run_next_iff.2 (.ended hover), .inl hover⟩
  · exact ⟨_, run_next_iff.2 (.spent hopen ht hspent), .inl rfl⟩

/-- At its beginning a query stands before its first outcome, if its budget has one. -/
theorem stands_zero (hidle : q.walk.phase = .idle) (hfetched : q.walk.fetched = 0) (ht : q.task = .ok t) :
    q.Stands t outcome 0 q := by
  unfold Stands
  have hbefore : q = q.before t outcome 0 := by
    obtain ⟨-, source, -, h, -, -, rfl⟩ := task_eq_ok_iff.1 ht
    obtain ⟨registry, walk⟩ := q
    obtain ⟨request, options, phase, fetched⟩ := walk
    cases hidle
    cases hfetched
    rfl
  split
  · exact hbefore
  · next h =>
    have hlimit : q.walk.limit = 0 := by
      by_contra hpos
      exact h (PageTask.lt_extent_iff.2 ⟨Nat.pos_of_ne_zero hpos, nofun⟩)
    refine .inr ⟨by rw [hidle]; rfl, ?_, t, ht⟩
    unfold Walk.isSpent
    rw [hlimit, hfetched]
    rfl

/-- A walk goes on after a page exactly if the page does not close it and the budget is not used up. -/
theorem phaseAfter_eq_yielded_iff {w : Walk} {response : Response} :
    w.phaseAfter t.handler.pagination response = .yielded ↔ t.closes (.ok response) = false ∧ w.isSpent = false := by
  have hcloses : t.closes (.ok response) = (!t.handler.pagination.isPaged || response.isLastPage) := rfl
  unfold Walk.phaseAfter
  rw [hcloses]
  cases !t.handler.pagination.isPaged || response.isLastPage <;> cases w.isSpent <;> simp

/-- The phase after a page is to go on or terminal. -/
theorem isTerminal_phaseAfter {w : Walk} {p : Pagination} {response : Response}
    (h : w.phaseAfter p response ≠ .yielded) : (w.phaseAfter p response).isTerminal = true := by
  rcases Walk.phaseAfter_cases w p response with he | ⟨he, -⟩ | ⟨he, -⟩
  · rw [he]; rfl
  · rw [he]; rfl
  · exact absurd he h

/-- A page leads to the page after it, or past the last one. -/
theorem stands_succ {k : Nat} (hk : k < t.extent q.walk.limit outcome) {response : Response}
    (hpage : outcome k = .ok response) :
    q.Stands t outcome (k + 1)
      (q.withWalk ((q.before t outcome k).walk.begin.advance t.handler.pagination response)) := by
  have hspent : (q.before t outcome k).walk.begin.isSpent = false ↔ k + 1 < q.walk.limit :=
    decide_eq_false_iff_not.trans Nat.not_le
  have hgoes := PageTask.succ_lt_extent_iff hk
  rw [hpage, ← hspent, ← phaseAfter_eq_yielded_iff] at hgoes
  unfold Stands
  split
  · next hlt =>
    unfold before Walk.advance
    congr 2
    · rw [PageTask.requestAt, hpage]
      rfl
    · exact hgoes.1 hlt
  · next hge => exact .inl (isTerminal_phaseAfter (mt hgoes.2 hge))

/-- **A call before a page makes the page and stands one page further on.** -/
theorem Stands.page {q' : Query} {k : Nat} (hidle : q.walk.phase = .idle) (ht : q.task = .ok t)
    (hs : q.Stands t outcome k q') (hk : k < t.extent q.walk.limit outcome) {m m' : Machine} {b : Route}
    (hr : m.run ((t.nth q.walk.limit outcome k).run b) = (some (outcome k), m')) :
    ∃ w, m.run (q'.next b) = (some ⟨(outcome k).map some, w⟩, m') ∧ q.Stands t outcome (k + 1) (q'.withWalk w) := by
  obtain rfl : q' = q.before t outcome k := (if_pos hk).mp hs
  have hspent : (q.before t outcome k).walk.isSpent = false :=
    decide_eq_false (Nat.not_le.2 (PageTask.lt_extent_iff.1 hk).1)
  cases hpage : outcome k with
  | ok response =>
    rw [hpage] at hr
    exact ⟨_, run_next_iff.2 (.page (isTerminal_before k) (task_before hidle ht k) hspent hr), stands_succ hk hpage⟩
  | error e =>
    rw [hpage] at hr
    refine ⟨_, run_next_iff.2 (.failed (isTerminal_before k) (task_before hidle ht k) hspent hr), ?_⟩
    unfold Stands
    rw [if_neg]
    · exact .inl rfl
    · rw [PageTask.succ_lt_extent_iff hk, hpage]
      exact fun h => Bool.false_ne_true h.1.symm

/-- A call after the last outcome finds nothing and stays there. -/
theorem Stands.rest {q' : Query} {k : Nat} (hs : q.Stands t outcome k q') (hk : t.extent q.walk.limit outcome ≤ k)
    (m : Machine) (b : Route) :
    ∃ w, m.run (q'.next b) = (some ⟨.ok none, w⟩, m) ∧ q.Stands t outcome (k + 1) (q'.withWalk w) := by
  obtain ⟨w, hrun, hfinished⟩ := Finished.next ((if_neg (Nat.not_lt.2 hk)).mp hs) m b
  exact ⟨w, hrun, (if_neg (by omega)).mpr hfinished⟩

/-! ## All calls, and the stream -/

/-- Any number of calls leads to where the query stands after as many pages. -/
theorem exists_called (hidle : q.walk.phase = .idle) (hfetched : q.walk.fetched = 0) (ht : q.task = .ok t)
    {site : Nat → Machine × Route}
    (hmade : ∀ k < t.extent q.walk.limit outcome,
      ((site k).1.run ((t.nth q.walk.limit outcome k).run (site k).2)).1 = some (outcome k)) (i : Nat) :
    ∃ q', q.called site i = some q' ∧ q.Stands t outcome i q' := by
  induction i with
  | zero => exact ⟨q, rfl, stands_zero hidle hfetched ht⟩
  | succ i ih =>
    obtain ⟨q', hcalled, hs⟩ := ih
    rw [called, hcalled, Option.bind_some]
    rcases Nat.lt_or_ge i (t.extent q.walk.limit outcome) with hi | hi
    · obtain ⟨w, hrun, hs'⟩ := hs.page hidle ht hi (Prod.ext (hmade i hi) rfl)
      exact ⟨_, by rw [hrun]; rfl, hs'⟩
    · obtain ⟨w, hrun, hs'⟩ := hs.rest hi (site i).1 (site i).2
      exact ⟨_, by rw [hrun]; rfl, hs'⟩

/-- A call answers a page or the failure of one as long as there are pages, and nothing afterwards. -/
theorem answer?_eq (hidle : q.walk.phase = .idle) (hfetched : q.walk.fetched = 0) (ht : q.task = .ok t)
    {site : Nat → Machine × Route}
    (hmade : ∀ k < t.extent q.walk.limit outcome,
      ((site k).1.run ((t.nth q.walk.limit outcome k).run (site k).2)).1 = some (outcome k)) (i : Nat) :
    q.answer? site i =
      some (if i < t.extent q.walk.limit outcome then (outcome i).map some else .ok none) := by
  obtain ⟨q', hcalled, hs⟩ := exists_called hidle hfetched ht hmade i
  rw [answer?, hcalled, Option.bind_some]
  split
  · next hi =>
    obtain ⟨w, hrun, -⟩ := hs.page hidle ht hi (Prod.ext (hmade i hi) rfl)
    rw [hrun]
    rfl
  · next hi =>
    obtain ⟨w, hrun, -⟩ := hs.rest (Nat.le_of_not_lt hi) (site i).1 (site i).2
    rw [hrun]
    rfl

/-- A query that is refused answers so once, and then nothing. -/
theorem answer?_of_refused {e : PaginationError} (hidle : q.walk.phase = .idle) (ht : q.task = .error e)
    (site : Nat → Machine × Route) (i : Nat) :
    q.answer? site i = some (if i = 0 then .error (.pagination e) else .ok none) := by
  have hopen : q.walk.phase.isTerminal = false := by rw [hidle]; rfl
  have hfirst := fun m b => (@run_next_iff q b m _ _).2 (.refused hopen ht)
  have hover : ∀ i, ∃ q', q.called site (i + 1) = some q' ∧ q'.Finished := by
    intro i
    induction i with
    | zero =>
      refine ⟨q.withWalk q.walk.fail, ?_, .inl rfl⟩
      simp only [called, Option.bind_some, hfirst]
      rfl
    | succ i ih =>
      obtain ⟨q', hcalled, hf⟩ := ih
      obtain ⟨w, hrun, hf'⟩ := hf.next (site (i + 1)).1 (site (i + 1)).2
      exact ⟨_, by rw [called, hcalled, Option.bind_some, hrun]; rfl, hf'⟩
  cases i with
  | zero =>
    simp only [answer?, called, Option.bind_some, hfirst]
    rfl
  | succ i =>
    obtain ⟨q', hcalled, hf⟩ := hover i
    obtain ⟨w, hrun, -⟩ := hf.next (site (i + 1)).1 (site (i + 1)).2
    rw [answer?, hcalled, Option.bind_some, hrun]
    rfl

/-- What the steps of a query do after the first one. -/
def stepsAfter (q : Query) (b : Route) (bound : Nat) (step : Step) : Prog (List (Except Error Response)) :=
  match step.result with
  | .ok (some response) => ((q.withWalk step.walk).steps b bound).bind fun rest => .done (.ok response :: rest)
  | .ok none => .done []
  | .error e => .done [.error e]

theorem run_steps_succ (q : Query) (b : Route) (bound : Nat) (m : Machine) :
    m.run (q.steps b (bound + 1)) =
      match m.run (q.next b) with
      | (some step, m') => m'.run (q.stepsAfter b bound step)
      | (none, m') => (none, m') := by
  have hsteps : q.steps b (bound + 1) = (q.next b).bind (q.stepsAfter b bound) := by
    refine congrArg (q.next b).bind (funext fun step => ?_)
    unfold stepsAfter
    rcases step.result with e | ⟨⟩ | response <;> rfl
  rw [hsteps, Machine.run_bind]
  rcases m.run (q.next b) with ⟨⟨⟩ | step, m'⟩ <;> rfl

/-- After a page come the steps of the query that it leaves. -/
theorem run_stepsAfter_page (q : Query) (b : Route) (bound : Nat) (response : Response) (w : Walk) (m : Machine) :
    m.run (q.stepsAfter b bound ⟨.ok (some response), w⟩) =
      match m.run ((q.withWalk w).steps b bound) with
      | (some rest, m') => (some (.ok response :: rest), m')
      | (none, m') => (none, m') := by
  show m.run (((q.withWalk w).steps b bound).bind _) = _
  rw [Machine.run_bind]
  cases m.run ((q.withWalk w).steps b bound) with
  | mk rest? m' =>
    cases rest? with
    | none => rfl
    | some rest => exact Machine.run_done _ m'

/-- From where it stands, a query makes the pages that are left, each on the machine that the one before it leaves,
and any bound that is not below their number is enough for that. -/
theorem run_steps {b : Route} (hidle : q.walk.phase = .idle) (ht : q.task = .ok t) {machine : Nat → Machine}
    (hmade : ∀ k < t.extent q.walk.limit outcome,
      (machine k).run ((t.nth q.walk.limit outcome k).run b) = (some (outcome k), machine (k + 1)))
    (left : Nat) : ∀ {q' : Query} {k bound : Nat}, k + left = t.extent q.walk.limit outcome →
      q.Stands t outcome k q' → left < bound →
      (machine k).run (q'.steps b bound) =
        (some ((List.range' k left).map outcome), machine (t.extent q.walk.limit outcome)) := by
  induction left with
  | zero =>
    intro q' k bound hk hs hbound
    obtain ⟨bound, rfl⟩ := Nat.exists_eq_add_one_of_ne_zero (Nat.ne_zero_of_lt hbound)
    obtain ⟨w, hrun, -⟩ := hs.rest (Nat.le_of_eq hk.symm) (machine k) b
    rw [run_steps_succ, hrun, ← hk]
    exact Machine.run_done _ _
  | succ left ih =>
    intro q' k bound hk hs hbound
    obtain ⟨bound, rfl⟩ := Nat.exists_eq_add_one_of_ne_zero (Nat.ne_zero_of_lt hbound)
    have hlt : k < t.extent q.walk.limit outcome := by omega
    obtain ⟨w, hrun, hs'⟩ := hs.page hidle ht hlt (hmade k hlt)
    rw [run_steps_succ, hrun, List.range'_succ, List.map_cons]
    cases houtcome : outcome k with
    | ok response =>
      have hrest : (machine (k + 1)).run ((q'.withWalk w).steps b bound) = _ := ih (by omega) hs' (by omega)
      exact (run_stepsAfter_page q' b bound response w _).trans (by rw [hrest])
    | error e =>
      have hlast : left = 0 := by
        by_contra hmore
        have hopen := ((PageTask.succ_lt_extent_iff hlt).1 (by omega)).1
        rw [houtcome] at hopen
        exact Bool.false_ne_true hopen.symm
      subst hlast
      rw [← hk]
      exact Machine.run_done _ _

/-- A query whose walk is over takes no steps. -/
theorem run_steps_of_isTerminal {q : Query} (h : q.walk.phase.isTerminal = true) (b : Route) (bound : Nat)
    (m : Machine) : m.run (q.steps b bound) = (some [], m) := by
  cases bound with
  | zero => exact Machine.run_done _ m
  | succ bound =>
    rw [run_steps_succ, run_next_iff.2 (.ended h)]
    exact Machine.run_done _ m

/-- **Whatever state a query is in, its steps answer no more than the budget has left**, and one failure where it has
nothing left. -/
theorem length_steps_le {b : Route} (bound : Nat) : ∀ {q : Query} {m m' : Machine}
    {items : List (Except Error Response)}, m.run (q.steps b bound) = (some items, m') →
      items.length ≤ max 1 (q.walk.limit - q.walk.fetched) := by
  have hdone : ∀ {m m' : Machine} {items found : List (Except Error Response)} (n : Nat),
      m.run (.done found) = (some items, m') → found.length ≤ 1 → items.length ≤ max 1 n := by
    intro m m' items found n h hle
    cases (Machine.run_done found m).symm.trans h
    exact hle.trans (Nat.le_max_left 1 n)
  induction bound with
  | zero => exact fun h => hdone _ h (Nat.zero_le 1)
  | succ bound ih =>
    intro q m m' items h
    rw [run_steps_succ] at h
    split at h
    · next step m1 hrun =>
      cases run_next_iff.1 hrun with
      | ended => exact hdone _ h (Nat.zero_le 1)
      | spent => exact hdone _ h (Nat.zero_le 1)
      | refused => exact hdone _ h (Nat.le_refl 1)
      | failed => exact hdone _ h (Nat.le_refl 1)
      | @page task response _ _ _ hspent =>
        have hleft : q.walk.fetched < q.walk.limit := Nat.lt_of_not_le (of_decide_eq_false hspent)
        rw [run_stepsAfter_page] at h
        split at h
        · next rest m2 hrest =>
          cases h
          rw [List.length_cons]
          rcases Walk.phaseAfter_cases q.walk.begin task.handler.pagination response with he | ⟨he, -⟩ | ⟨-, hgoes, -⟩
          · rw [run_steps_of_isTerminal (by show Phase.isTerminal (Walk.phaseAfter _ _ _) = true; rw [he]; rfl)] at hrest
            cases hrest
            exact Nat.le_max_left 1 _
          · rw [run_steps_of_isTerminal (by show Phase.isTerminal (Walk.phaseAfter _ _ _) = true; rw [he]; rfl)] at hrest
            cases hrest
            exact Nat.le_max_left 1 _
          · have hmore : q.walk.fetched + 1 < q.walk.limit := Nat.lt_of_not_le (of_decide_eq_false hgoes)
            have hlength : rest.length ≤ max 1 (q.walk.limit - (q.walk.fetched + 1)) := ih hrest
            omega
        · cases h
    · cases h

/-- **The extent of a walk.** A query that has not begun and is left alone makes as many pages as its budget allows,
up to the first one that closes the walk (which a failing page does): every call makes the page whose task the calls
before it tell, on whatever machine it runs, and is told whether the budget ends with it; every later call answers
nothing. The stream consists of the same outcomes. A query whose request or secrets are refused says so once. No
stream is longer than the budget, but for one refusal where the budget is nought. -/
theorem extent_of_walk {q : Query} (hidle : q.walk.phase = .idle) (hfetched : q.walk.fetched = 0) :
    (∀ (t : PageTask) (outcome : Nat → Except Error Response), q.task = .ok t →
      (t.extent q.walk.limit outcome : ℕ∞) =
          min (q.walk.limit : ℕ∞) (⨅ k, ⨅ _ : t.closes (outcome k) = true, ((k + 1 : Nat) : ℕ∞)) ∧
      (∀ k, (t.nth q.walk.limit outcome k).fetchLimitReached =
        if t.handler.pagination = .none then none else some (decide (k + 1 = q.walk.limit))) ∧
      (∀ site : Nat → Machine × Route,
        (∀ k < t.extent q.walk.limit outcome,
          ((site k).1.run ((t.nth q.walk.limit outcome k).run (site k).2)).1 = some (outcome k)) →
        (∀ k < t.extent q.walk.limit outcome,
          ∃ q', q.called site k = some q' ∧ q'.task = .ok (t.nth q.walk.limit outcome k)) ∧
        ∀ i, q.answer? site i =
          some (if i < t.extent q.walk.limit outcome then (outcome i).map some else .ok none)) ∧
      ∀ (b : Route) (machine : Nat → Machine),
        (∀ k < t.extent q.walk.limit outcome,
          (machine k).run ((t.nth q.walk.limit outcome k).run b) = (some (outcome k), machine (k + 1))) →
        (machine 0).run (q.stream b) =
          (some ((List.range (t.extent q.walk.limit outcome)).map outcome),
            machine (t.extent q.walk.limit outcome))) ∧
    (∀ e, q.task = .error e →
      (∀ (site : Nat → Machine × Route) (i : Nat),
        q.answer? site i = some (if i = 0 then .error (.pagination e) else .ok none)) ∧
      ∀ (b : Route) (m : Machine), m.run (q.stream b) = (some [.error (.pagination e)], m)) ∧
    ∀ (b : Route) (m m' : Machine) (items : List (Except Error Response)),
      m.run (q.stream b) = (some items, m') → items.length ≤ max 1 q.walk.limit := by
  refine ⟨fun t outcome ht => ⟨PageTask.extent_eq_min, fun k => ?_, fun site hmade => ⟨fun k hk => ?_, fun i => ?_⟩,
    fun b machine hmade => ?_⟩, fun e ht => ⟨fun site i => ?_, fun b m => ?_⟩, fun b m m' items h => ?_⟩
  · cases hp : t.handler.pagination <;> simp [PageTask.nth, hp, Pagination.isPaged]
  · obtain ⟨q', hcalled, hs⟩ := exists_called hidle hfetched ht hmade k
    refine ⟨q', hcalled, ?_⟩
    rw [(if_pos hk).mp hs]
    exact task_before hidle ht k
  · exact answer?_eq hidle hfetched ht hmade i
  · have hle : t.extent q.walk.limit outcome ≤ q.walk.limit :=
      Nat.le_of_not_lt fun h => Nat.lt_irrefl _ (PageTask.lt_extent_iff.1 h).1
    rw [List.range_eq_range']
    exact run_steps hidle ht hmade (t.extent q.walk.limit outcome) (Nat.zero_add _) (stands_zero hidle hfetched ht)
      (by omega)
  · exact answer?_of_refused hidle ht site i
  · have hopen : q.walk.phase.isTerminal = false := by rw [hidle]; rfl
    rw [stream, run_steps_succ, run_next_iff.2 (.refused hopen ht)]
    exact Machine.run_done _ m
  · have hle := length_steps_le _ h
    rwa [hfetched, Nat.sub_zero] at hle

/-! ## A listing whose second page fails -/

/-- The outcomes of the pages of a listing that always answers the request of the first one. -/
def sampleOutcome : Nat → Except Error Response
  | 0 => .ok sampleResponse
  | _ => .error (.validation
      { headline := (sampleQuery.taskFor sampleSource sampleHandler).headline
        issues := Validation.issues ({ Request.plain "s" "list" with pageNumber := some 2 }).toValue "s" sampleBody })

/-- A query of two pages yields the first one, fails on the second one, and then answers nothing. -/
theorem extent_of_failing_second_page :
    sampleQuery.answer? (fun _ => (.start .blank, [])) 0 = some (.ok (some sampleResponse)) ∧
      sampleQuery.answer? (fun _ => (.start .blank, [])) 1 = some ((sampleOutcome 1).map some) ∧
      ∀ i, sampleQuery.answer? (fun _ => (.start .blank, [])) (i + 2) = some (.ok none) := by
  have hmade : ∀ k < 2, ((Machine.start .blank).run
      (((sampleQuery.taskFor sampleSource sampleHandler).nth 2 sampleOutcome k).run [])).1 =
        some (sampleOutcome k) := by
    intro k hk
    match k, hk with
    | 0, _ => exact congrArg Prod.fst (Machine.drive_of_result rfl _)
    | 1, _ => exact congrArg Prod.fst (Machine.drive_of_result rfl _)
  have hanswer := (((extent_of_walk (q := sampleQuery) rfl rfl).1 (sampleQuery.taskFor sampleSource sampleHandler)
    sampleOutcome rfl).2.2.1 (fun _ => (.start .blank, [])) hmade).2
  exact ⟨hanswer 0, hanswer 1, fun i => hanswer (i + 2)⟩

end Query

end MediaQuery
