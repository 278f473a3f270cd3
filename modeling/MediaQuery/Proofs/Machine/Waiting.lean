import MediaQuery.Proofs.Machine.Report

/-!
# Waits

A wait for all values of a branch is begun, and taken on when others have acted, until it is over (`Moment.Waits`).
First it passes over the futures of the branch in the order of their start and keeps the first failure (`Progress`);
then it replaces the references that are left by the outcomes of their futures (`Clears`). What is not written while it
lasts it finds as it was: if nothing is written to the branch, its result is that of the futures there were at its
beginning (`Moment.collected_of_waits`), and a key to which nothing is written refers to no future at its end
(`Moment.ready_of_waits`).
-/

namespace MediaQuery.Machine

variable {m m' : Machine} {a : Route} {key : String} {own ids todo : List FutureId}
  {failure : Option EvalError}

/-! ## Reports -/

/-- The failure in a report. -/
def failure? : Except EvalError Unit → Option EvalError
  | .ok _ => none
  | .error e => some e

/-- The failure that a future has reported. -/
def failureOf (m : Machine) (id : FutureId) : Option EvalError := (m.report? id).bind failure?

/-- Futures have reported, and this is the first failure among them. -/
structure Collected (m : Machine) (ids : List FutureId) (failure : Option EvalError) : Prop where
  reported : ∀ id ∈ ids, ∃ report, m.report? id = some report
  first : failure = ids.findSome? m.failureOf

theorem collected_nil (m : Machine) : m.Collected [] none := ⟨nofun, rfl⟩

/-- Reports that stay are collected as they were. -/
theorem Collected.congr (h : m.Collected ids failure)
    (hreport : ∀ id ∈ ids, ∀ report, m.report? id = some report → m'.report? id = some report) :
    m'.Collected ids failure := by
  have hsame {id : FutureId} (hid : id ∈ ids) : m'.report? id = m.report? id := by
    obtain ⟨report, hr⟩ := h.reported id hid
    rw [hreport id hid report hr, hr]
  refine ⟨fun id hid => hsame hid ▸ h.reported id hid, h.first.trans ?_⟩
  -- along the futures
  clear h hreport
  induction ids with
  | nil => rfl
  | cons id rest ih =>
    rw [List.findSome?_cons, List.findSome?_cons, failureOf, failureOf, hsame List.mem_cons_self,
      ih fun hid => hsame (List.mem_cons_of_mem _ hid)]

/-- The futures at the front that have reported are passed over, and the first failure is kept. -/
theorem Collected.collect {rest : List FutureId} {failure' : Option EvalError} (h : m.Collected ids failure)
    (hc : m.collect todo failure = (rest, failure')) :
    ∃ passed, todo = passed ++ rest ∧ m.Collected (ids ++ passed) failure' := by
  induction todo generalizing ids failure with
  | nil =>
    cases hc
    exact ⟨[], rfl, by rwa [List.append_nil]⟩
  | cons id todo ih =>
    have hnext {report : Except EvalError Unit} (hr : m.report? id = some report)
        (hc : m.collect todo (failure.or (failure? report)) = (rest, failure')) :
        ∃ passed, id :: todo = passed ++ rest ∧ m.Collected (ids ++ passed) failure' := by
      have hcollected : m.Collected (ids ++ [id]) (failure.or (failure? report)) := by
        refine ⟨fun id' hid' => ?_, ?_⟩
        · rcases List.mem_append.1 hid' with hid' | hid'
          · exact h.reported id' hid'
          · exact ⟨report, List.mem_singleton.1 hid' ▸ hr⟩
        · rw [List.findSome?_append, ← h.first, List.findSome?_singleton, failureOf, hr]
          rfl
      obtain ⟨passed, rfl, hpassed⟩ := ih hcollected hc
      exact ⟨id :: passed, rfl, by simpa using hpassed⟩
    unfold Machine.collect at hc
    split at hc
    · cases hc
      exact ⟨[], rfl, by rwa [List.append_nil]⟩
    · next hr => exact hnext hr (by simpa [failure?] using hc)
    · next hr => exact hnext hr hc

/-! ## Progress -/

/-- How far a wait for the given futures has come. -/
def Progress (own : List FutureId) (m : Machine) : Wait ⊕ Except EvalError Unit → Prop
  | .inl (.futures front rest failure) => ∃ passed, own = passed ++ front :: rest ∧ m.Collected passed failure
  | .inl (.slots _ _ failure) => m.Collected own failure
  | .inr r => ∃ failure, r = waitResult failure ∧ m.Collected own failure

/-- A wait does not fall behind. -/
theorem Progress.later {state : Wait ⊕ Except EvalError Unit} (h : Progress own m state)
    (hreport : ∀ id report, m.report? id = some report → m'.report? id = some report) : Progress own m' state := by
  match state, h with
  | .inl (.futures front rest failure), ⟨passed, hown, h⟩ => exact ⟨passed, hown, h.congr fun id _ => hreport id⟩
  | .inl (.slots front rest failure), h => exact Collected.congr h fun id _ => hreport id
  | .inr r, ⟨failure, hr, h⟩ => exact ⟨failure, hr, h.congr fun id _ => hreport id⟩

/-- The second half of a wait leaves the futures alone. -/
theorem futures_settleSlots (a : Route) (todo : List PendingSlot) (m : Machine) :
    (settleSlots a todo m).2.futures = m.futures := by
  induction todo generalizing m with
  | nil => rfl
  | cons slot rest ih =>
    unfold settleSlots
    split
    · rfl
    · exact ih _

theorem snd_waitSlots (a : Route) (todo : List PendingSlot) (failure : Option EvalError) (m : Machine) :
    (waitSlots a todo failure m).2 = (settleSlots a todo m).2 := by
  unfold waitSlots
  split <;> next he => rw [he]

theorem report?_waitSlots (a : Route) (todo : List PendingSlot) (failure : Option EvalError) (m : Machine)
    (id : FutureId) : (waitSlots a todo failure m).2.report? id = m.report? id := by
  unfold report? future?
  rw [snd_waitSlots, futures_settleSlots]

theorem progress_waitSlots (h : m.Collected own failure) (a : Route) (todo : List PendingSlot) :
    Progress own (waitSlots a todo failure m).2 (waitSlots a todo failure m).1 := by
  have hcollected : (waitSlots a todo failure m).2.Collected own failure :=
    h.congr fun id _ report hr => (report?_waitSlots a todo failure m id).trans hr
  revert hcollected
  unfold waitSlots
  split
  · exact fun h => ⟨failure, rfl, h⟩
  · exact id

/-- A wait goes on with the futures still to be awaited, or it begins with those that nobody waits for. -/
theorem progress_waitFutures (h : m.Collected ids failure) (hown : own = ids ++ (todo ++ m.unawaited a))
    (hnew : todo = [] ∨ m.unawaited a = []) :
    Progress own (waitFutures a todo failure m).2 (waitFutures a todo failure m).1 := by
  have hmark (id : FutureId) : (m.markAwaited a).report? id = m.report? id :=
    report?_of_quiet (show m.Step [] .other (m.markAwaited a) from .await a) nofun
  unfold waitFutures
  split
  · next id rest failure' hc =>
    obtain ⟨passed, rfl, hpassed⟩ := h.collect hc
    obtain htodo | hnone := hnew
    · cases (List.append_eq_nil_iff.1 htodo).2
    · exact ⟨ids ++ passed, by simp [hown, hnone], hpassed⟩
  · next failure₁ hc =>
    obtain ⟨passed, rfl, hpassed⟩ := h.collect hc
    have hpassed : (m.markAwaited a).Collected (ids ++ passed) failure₁ :=
      hpassed.congr fun id _ report hr => (hmark id).trans hr
    split
    · next id rest failure₂ hc' =>
      obtain ⟨passed', hunawaited, hpassed'⟩ := hpassed.collect hc'
      exact ⟨ids ++ passed ++ passed', by simp [hown, hunawaited], hpassed'⟩
    · next failure₂ hc' =>
      obtain ⟨passed', hunawaited, hpassed'⟩ := hpassed.collect hc'
      rw [hown, hunawaited]
      exact progress_waitSlots (by simpa using hpassed') a _

/-- Once a wait has been taken on, someone waits for all futures of the branch. -/
theorem unawaited_waitFutures (failure : Option EvalError) (hnew : todo = [] ∨ m.unawaited a = []) :
    (waitFutures a todo failure m).2.unawaited a = [] := by
  have hmark : (m.markAwaited a).unawaited a = [] := (unawaited_markAwaited m a a).trans (if_pos rfl)
  unfold waitFutures
  split
  · next id rest failure' hc =>
    obtain htodo | hnone := hnew
    · rw [htodo] at hc
      cases hc
    · exact hnone
  · split
    · exact hmark
    · unfold unawaited
      rw [snd_waitSlots, futures_settleSlots]
      exact hmark

/-- The futures that a wait is held up by. -/
def awaits : Wait ⊕ Except EvalError Unit → List FutureId
  | .inl (.futures front rest _) => front :: rest
  | _ => []

/-- What is not passed over any more has reported. -/
theorem reported_or_left (m : Machine) (todo : List FutureId) (failure : Option EvalError) :
    ∀ id ∈ todo, (∃ report, m.report? id = some report) ∨ id ∈ (m.collect todo failure).1 := by
  induction todo generalizing failure with
  | nil => exact nofun
  | cons id rest ih =>
    unfold collect
    split
    · exact fun _ hid => .inr hid
    · next hr => exact List.forall_mem_cons.2 ⟨.inl ⟨_, hr⟩, ih _⟩
    · next hr => exact List.forall_mem_cons.2 ⟨.inl ⟨_, hr⟩, ih _⟩

/-- Whoever is to be awaited has reported, or is still awaited afterwards. -/
theorem reported_or_awaited (m : Machine) (a : Route) (todo : List FutureId) (failure : Option EvalError) (id : FutureId)
    (hid : id ∈ todo ∨ todo = [] ∧ id ∈ m.unawaited a) :
    (∃ report, m.report? id = some report) ∨ id ∈ awaits (waitFutures a todo failure m).1 := by
  have htodo := reported_or_left m todo failure id
  unfold waitFutures
  split
  · next he =>
    rcases hid with hid | ⟨rfl, -⟩
    · rw [he] at htodo
      exact htodo hid
    · cases he
  · next failure₁ he =>
    rcases hid with hid | ⟨-, hid⟩
    · rw [he] at htodo
      exact .inl ((htodo hid).resolve_right List.not_mem_nil)
    · have hrest := reported_or_left (m.markAwaited a) (m.unawaited a) failure₁ id hid
      rw [report?_of_quiet (show m.Step [] .other (m.markAwaited a) from .await a) nofun] at hrest
      split
      · next he' =>
        rw [he'] at hrest
        exact hrest
      · next he' =>
        rw [he'] at hrest
        exact .inl (hrest.resolve_right List.not_mem_nil)

/-! ## References -/

/-- If a key refers to a future, then that is still to be replaced. -/
def Lists (m : Machine) (a : Route) (key : String) (todo : List PendingSlot) : Prop :=
  ∀ generation id, (m.store a).find? key = some ⟨generation, .pending id⟩ → (key, generation, id) ∈ todo

theorem lists_pending (m : Machine) (a : Route) (key : String) : m.Lists a key (m.store a).pending :=
  fun _ _ h => List.mem_filterMap.2 ⟨_, Fields.mem_of_lookup h, rfl⟩

/-- What is no longer to be replaced has been replaced. -/
theorem Lists.settleSlots {todo : List PendingSlot} (h : m.Lists a key todo) :
    (settleSlots a todo m).2.Lists a key (settleSlots a todo m).1 := by
  induction todo generalizing m with
  | nil => exact h
  | cons slot rest ih =>
    obtain ⟨k, g, id⟩ := slot
    unfold Machine.settleSlots
    split
    · exact h
    · refine ih fun generation id' hentry => ?_
      have hthere : (m.node? a).isSome = true := by
        have hthere := isSome_node?_of_find? hentry
        rwa [isSome_node?_modifyStore] at hthere
      rw [store_modifyStore hthere, if_pos rfl, Store.find?_settle] at hentry
      split at hentry
      · obtain ⟨v, -, hv⟩ := Option.map_eq_some_iff.1 hentry
        cases hv
      · next hother =>
        refine (List.mem_cons.1 (h generation id' hentry)).resolve_left fun heq => hother ?_
        cases heq
        exact ⟨rfl, _, hentry, rfl⟩

/-- A wait sees to the references under a key. -/
def Clears (a : Route) (key : String) (m : Machine) : Wait ⊕ Except EvalError Unit → Prop
  | .inl (.futures _ _ _) => True
  | .inl (.slots slot rest _) => m.Lists a key (slot :: rest)
  | .inr _ => m.Lists a key []

theorem Clears.later {state : Wait ⊕ Except EvalError Unit} (h : Clears a key m state)
    (hpending : ∀ generation id, (m'.store a).find? key = some ⟨generation, .pending id⟩ →
      (m.store a).find? key = some ⟨generation, .pending id⟩) : Clears a key m' state := by
  match state, h with
  | .inl (.futures front rest failure), _ => trivial
  | .inl (.slots slot rest failure), h => exact fun generation id hentry => h generation id (hpending _ _ hentry)
  | .inr r, h => exact fun generation id hentry => h generation id (hpending _ _ hentry)

theorem clears_waitSlots {todo : List PendingSlot} (h : m.Lists a key todo) (failure : Option EvalError) :
    Clears a key (waitSlots a todo failure m).2 (waitSlots a todo failure m).1 := by
  have hlists := h.settleSlots
  revert hlists
  unfold waitSlots
  split <;> next he =>
    rw [he]
    exact id

theorem clears_waitFutures (m : Machine) (a : Route) (key : String) (todo : List FutureId)
    (failure : Option EvalError) : Clears a key (waitFutures a todo failure m).2 (waitFutures a todo failure m).1 := by
  unfold waitFutures
  split
  · trivial
  · split
    · trivial
    · exact clears_waitSlots (m := m.markAwaited a) (lists_pending m a key) _

/-! ## Waits -/

namespace Moment

variable {x y : Moment} {state : Wait ⊕ Except EvalError Unit} {r : Except EvalError Unit}

/-- As long as nothing is written to the branch, a wait goes on with the futures it has begun with. -/
theorem Held.progress (h : Held a state x r y) (hw : x.Without y fun e => ∃ key, e.Writes a key)
    (hnone : x.machine.unawaited a = []) (hp : Progress own x.machine state) : Progress own y.machine (.inr r) := by
  induction h with
  | finished => exact hp
  | @on wait x x₁ x₂ y r hothers hsteps hm hrest ih =>
    have hafter := hsteps.trans hrest.before
    have hnone₁ := hothers.none_unawaited (hw.left hothers hafter) hnone
    have hp₁ : Progress own x₁.machine (.inl wait) := hp.later fun _ _ => hothers.keeps_report
    refine ih (hw.right (hothers.trans hsteps) hrest.before) ?_ ?_
    · rw [hm]
      cases wait with
      | futures front rest failure => exact unawaited_waitFutures failure (.inr hnone₁)
      | slots slot rest failure =>
        unfold Machine.wait unawaited
        rw [snd_waitSlots, futures_settleSlots]
        exact hnone₁
    · rw [hm]
      cases wait with
      | futures front rest failure =>
        obtain ⟨passed, hown, hcollected⟩ := hp₁
        exact progress_waitFutures hcollected (by simp [hown, hnone₁]) (.inr hnone₁)
      | slots slot rest failure => exact progress_waitSlots hp₁ a (slot :: rest)

/-- Whoever a wait is held up by has reported in the end. -/
theorem Held.reported (h : Held a state x r y) : ∀ id ∈ awaits state, ∃ report, y.machine.report? id = some report := by
  induction h with
  | finished => exact nofun
  | @on wait x x₁ x₂ y r hothers hsteps hm hrest ih =>
    intro id hid
    cases wait with
    | futures front rest failure =>
      rcases reported_or_awaited x₁.machine a (front :: rest) failure id (.inl hid) with ⟨report, hreport⟩ | hawaited
      · exact ⟨report, (hsteps.trans hrest.before).keeps_report hreport⟩
      · exact ih id hawaited
    | slots slot rest failure => exact absurd hid List.not_mem_nil

/-- **When a wait is over, every future of the branch has reported** that nobody had begun to wait for. -/
theorem reported_of_waits (h : Waits a x r y) :
    ∀ id ∈ x.machine.unawaited a, ∃ report, y.machine.report? id = some report := by
  obtain ⟨x₁, hsteps, -, hheld⟩ := h
  intro id hid
  rcases reported_or_awaited x.machine a [] none id (.inr ⟨rfl, hid⟩) with ⟨report, hreport⟩ | hawaited
  · exact ⟨report, (hsteps.trans hheld.before).keeps_report hreport⟩
  · exact hheld.reported id hawaited

/-- As long as nothing is written to a key, a wait sees to the reference that may be there. -/
theorem Held.clears (h : Held a state x r y) (ha : (x.machine.node? a).isSome = true)
    (hw : x.Without y (Event.Writes a key))
    (hc : Clears a key x.machine state) : Clears a key y.machine (.inr r) := by
  induction h with
  | finished => exact hc
  | @on wait x x₁ x₂ y r hothers hsteps hm hrest ih =>
    have hbefore := hothers.trans hsteps
    have hc₁ : Clears a key x₁.machine (.inl wait) := hc.later fun _ _ =>
      hothers.was_pending ha (hw.left hothers (hsteps.trans hrest.before))
    refine ih (hbefore.there ha) (hw.right hbefore hrest.before) ?_
    rw [hm]
    cases wait with
    | futures front rest failure => exact clears_waitFutures x₁.machine a key (front :: rest) failure
    | slots slot rest failure => exact clears_waitSlots hc₁ failure

/-- **The result of a wait** is that of the futures that nobody has begun to wait for, if nothing is written to the
branch: they have all reported, and it is the first failure among them. -/
theorem collected_of_waits (h : Waits a x r y) (hw : x.Without y fun e => ∃ key, e.Writes a key) :
    ∃ failure, r = waitResult failure ∧ y.machine.Collected (x.machine.unawaited a) failure := by
  obtain ⟨x₁, hsteps, hm, hheld⟩ := h
  refine hheld.progress (hw.right hsteps hheld.before) ?_ ?_
  · rw [hm]
    exact unawaited_waitFutures none (.inl rfl)
  · rw [hm]
    exact progress_waitFutures (collected_nil _) rfl (.inl rfl)

/-- **A key refers to no future when a wait is over**, if nothing is written to it until then. -/
theorem ready_of_waits (h : Waits a x r y) (ha : (x.machine.node? a).isSome = true)
    (hw : x.Without y (Event.Writes a key)) (generation : Nat) (id : FutureId) :
    (y.machine.store a).find? key ≠ some ⟨generation, .pending id⟩ := by
  obtain ⟨x₁, hsteps, hm, hheld⟩ := h
  intro hentry
  have hclears : Clears a key y.machine (.inr r) := by
    refine hheld.clears (hsteps.there ha) (hw.right hsteps hheld.before) ?_
    rw [hm]
    exact clears_waitFutures x.machine a key [] none
  exact List.not_mem_nil (hclears generation id hentry)

end Moment

end MediaQuery.Machine
