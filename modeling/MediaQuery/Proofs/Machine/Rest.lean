import MediaQuery.Proofs.Fields.Sorted
import MediaQuery.Proofs.Machine.Echo
import MediaQuery.Proofs.Program.Calm

/-!
# Machines at rest

A machine is at rest if all futures that have been started on it have ended (`Resting`). A calm program leaves it at
rest, with longer logs at most, and goes on until it is done or all that holds it up are its own sleeps (`calm_start`,
`calm_resume`). So a turn takes the clock to the next of these (`turn_of_calm`), and the program always comes to its
end (`run_of_calm`).
-/

namespace MediaQuery

/-! ## Stores without references -/

namespace Store

variable {s : Store}

/-- No entry refers to a future. -/
theorem pending_eq_nil_iff : s.pending = [] ↔ ∀ e ∈ s.entries, ∃ v, e.2.slot = .ready v := by
  unfold pending
  rw [List.filterMap_eq_nil_iff]
  refine forall₂_congr fun e _ => ?_
  cases e.2.slot <;> simp

theorem pending_write (h : s.pending = []) (key : String) (v : Value) : (s.write key (.ready v)).pending = [] := by
  rw [pending_eq_nil_iff] at h ⊢
  intro e he
  rcases Fields.mem_put he with rfl | he
  · exact ⟨v, rfl⟩
  · exact h e he

theorem pending_settle (h : s.pending = []) (key : String) (generation : Nat) (value : Option Value) :
    (s.settle key generation value).pending = [] := by
  unfold settle
  split
  · split
    · cases value with
      | some v =>
        rw [pending_eq_nil_iff] at h ⊢
        intro e he
        rcases Fields.mem_put he with rfl | he
        · exact ⟨v, rfl⟩
        · exact h e he
      | none =>
        rw [pending_eq_nil_iff] at h ⊢
        exact fun e he => h e (List.mem_of_mem_filter he)
    · exact h
  · exact h

theorem pending_ofValues (values : List (String × Value)) : (ofValues values).pending = [] := by
  induction values using List.reverseRecOn with
  | nil => rfl
  | append_singleton values e ih =>
    rw [ofValues_snoc]
    exact pending_write ih e.1 e.2

end Store

namespace Machine

variable {m m' m'' : Machine} {a base : Route} {α β : Type}

/-! ## Machines at rest -/

/-- All futures have ended, so that none is in the queue. -/
structure Resting (m : Machine) : Prop where
  ended : ∀ f ∈ m.futures, f.report?.isSome = true
  idle : m.ready = []

/-- No branch refers to a future. -/
def Plain (m : Machine) : Prop := ∀ a, (m.store a).pending = []

theorem resting_start (inputs : Inputs) : (start inputs).Resting := ⟨nofun, rfl⟩

/-- What has become of a machine that was at rest. -/
structure Rested (m m' : Machine) : Prop where
  rest : m'.Resting
  clock : m.clock ≤ m'.clock
  ids : m'.futures.map Future.id = m.futures.map Future.id
  heads : KeepsHeads m m'
  plain : m.Plain → m'.Plain
  logs : ∀ a, m.logAt a <+: m'.logAt a

theorem Resting.rested (h : m.Resting) : Rested m m :=
  ⟨h, Nat.le_refl _, rfl, .refl m, id, fun _ => List.prefix_rfl⟩

theorem Rested.trans (h : Rested m m') (h' : Rested m' m'') : Rested m m'' :=
  ⟨h'.rest, Nat.le_trans h.clock h'.clock, h'.ids.trans h.ids, h.heads.trans h'.heads,
    fun hm => h'.plain (h.plain hm), fun a => (h.logs a).trans (h'.logs a)⟩

theorem Resting.congr (h : m.Resting) (hf : m'.futures = m.futures) (hr : m'.ready = m.ready) : m'.Resting :=
  ⟨fun f hmem => h.ended f (hf ▸ hmem), hr.trans h.idle⟩

/-- What leaves futures and queue alone. -/
theorem Resting.quiet (h : m.Resting) (hf : m'.futures = m.futures) (hr : m'.ready = m.ready)
    (hc : m'.clock = m.clock) (hk : KeepsHeads m m') (hp : m.Plain → m'.Plain) (hl : ∀ a, m.logAt a <+: m'.logAt a) :
    Rested m m' :=
  ⟨h.congr hf hr, Nat.le_of_eq hc.symm, by rw [hf], hk, hp, hl⟩

theorem Resting.advance (h : m.Resting) {t : Nat} (ht : m.clock ≤ t) : Rested m { m with clock := t } :=
  ⟨⟨h.ended, h.idle⟩, ht, rfl, .refl m, id, fun _ => List.prefix_rfl⟩

/-- Nothing is still being computed. -/
theorem Resting.isRunning_eq (h : m.Resting) (id : FutureId) : (m.outcome id).isRunning = false := by
  unfold outcome
  cases hf : m.future? id with
  | none => rfl
  | some f =>
    have hover := h.ended f (List.mem_of_find?_eq_some hf)
    unfold Future.report? at hover
    rw [Option.map_some, Option.getD_some]
    unfold Future.outcome
    split at hover
    · next result report hs =>
      rw [hs]
      cases result <;> rfl
    · cases hover

/-! ## Stores -/

theorem pending_forkNode_eq_nil {n : Node} (h : n.store.pending = []) (options : ForkOptions) :
    (forkNode n options).store.pending = [] := by
  unfold forkNode
  cases options.data with
  | some values => exact Store.pending_ofValues values
  | none => exact h

theorem Plain.modifyStore (h : m.Plain) (a : Route) {f : Store → Store}
    (hf : ∀ s : Store, s.pending = [] → (f s).pending = []) : (m.modifyStore a f).Plain := by
  intro b
  cases ha : (m.node? a).isSome with
  | true =>
    rw [store_modifyStore ha]
    split
    · next hab => exact hf _ (hab ▸ h a)
    · exact h b
  | false =>
    rw [modifyStore_of_none (Option.not_isSome_iff_eq_none.1 (by simp [ha]))]
    exact h b

theorem Plain.perform (h : m.Plain) (base : Route) (op : Op β) : (m.perform base op).2.Plain := by
  cases op with
  | set branch key value => exact h.modifyStore _ fun s hs => Store.pending_write hs key value
  | record branch result =>
    intro b
    exact (congrArg Store.pending (store_record m (base ++ branch) b result)).trans (h b)
  | enter branch path =>
    intro b
    exact (congrArg Store.pending (store_enter m (base ++ branch) b path)).trans (h b)
  | fork branch options =>
    intro b
    cases hn : m.node? (base ++ branch) with
    | none =>
      have hsame : (m.perform base (.fork branch options)).2 = m := addChild_of_none hn
      rw [hsame]
      exact h b
    | some n =>
      have hstore : n.store.pending = [] := store_of_node? hn ▸ h (base ++ branch)
      have hb := node?_fork hn options b
      rw [store_eq, show (m.perform base (.fork branch options)).2.node? b = _ from hb]
      split
      · exact hstore
      · split
        · exact pending_forkNode_eq_nil hstore options
        · exact store_eq m b ▸ h b
  | openSession branch inputs =>
    intro b
    cases hn : m.node? (base ++ branch) with
    | none =>
      have hsame : (m.perform base (.openSession branch inputs)).2 = m := addChild_of_none hn
      rw [hsame]
      exact h b
    | some n =>
      have hb := node?_open hn inputs b
      rw [store_eq, show (m.perform base (.openSession branch inputs)).2.node? b = _ from hb]
      split
      · exact store_of_node? hn ▸ h (base ++ branch)
      · split
        · rfl
        · exact store_eq m b ▸ h b
  | _ => exact h

/-! ## Logs -/

theorem SameSessions.logs (h : SameSessions m m') (a : Route) : m.logAt a <+: m'.logAt a :=
  logAt_congr (h.session? a) ▸ List.prefix_rfl

theorem logs_enter (m : Machine) (b : Route) (path : Path) (a : Route) : m.logAt a <+: (m.enter b path).logAt a := by
  unfold logAt
  rw [session?_enter]
  split
  · cases m.session? a with
    | none => exact List.prefix_rfl
    | some session => exact List.prefix_append _ _
  · exact List.prefix_rfl

/-- An operation adds to logs at most. -/
theorem logs_perform (m : Machine) (base : Route) (op : Op β) (a : Route) :
    m.logAt a <+: (m.perform base op).2.logAt a := by
  cases op with
  | set branch key value => exact (sameSessions_modifyStore m _ fun s => s.write key (.ready value)).logs a
  | record branch result => exact (sameSessions_record m _ result).logs a
  | enter branch path => exact logs_enter m _ path a
  | fork branch options =>
    cases hn : m.node? (base ++ branch) with
    | none =>
      have hsame : (m.perform base (.fork branch options)).2 = m := addChild_of_none hn
      exact (congrArg (logAt · a) hsame).symm ▸ List.prefix_rfl
    | some n =>
      have hlog := logAt_congr (session?_fork hn options a)
      exact hlog ▸ List.prefix_rfl
  | openSession branch inputs =>
    cases hn : m.node? (base ++ branch) with
    | none =>
      have hsame : (m.perform base (.openSession branch inputs)).2 = m := addChild_of_none hn
      exact (congrArg (logAt · a) hsame).symm ▸ List.prefix_rfl
    | some n =>
      have hsession := session?_open hn inputs a
      by_cases ha : a = base ++ branch ++ [n.degree]
      · have hnew : m.logAt a = [] := by
          unfold logAt session?
          rw [ha, node?_next hn]
          rfl
        rw [hnew]
        exact List.nil_prefix
      · rw [if_neg ha] at hsession
        exact logAt_congr hsession ▸ List.prefix_rfl
  | _ => exact List.prefix_rfl

/-- An operation leaves the branches that are there in their place. -/
theorem keepsHeads_perform (m : Machine) (base : Route) (op : Op β) : KeepsHeads m (m.perform base op).2 := by
  cases op with
  | set branch key value => exact (sameSessions_modifyStore m _ fun s => s.write key (.ready value)).keepsHeads
  | record branch result => exact (sameSessions_record m _ result).keepsHeads
  | enter branch path => exact keepsHeads_enter m _ path
  | fork branch options =>
    cases hn : m.node? (base ++ branch) with
    | none =>
      have hsame : (m.perform base (.fork branch options)).2 = m := addChild_of_none hn
      rw [hsame]
      exact .refl m
    | some n => exact keepsHeads_fork hn options
  | openSession branch inputs =>
    cases hn : m.node? (base ++ branch) with
    | none =>
      have hsame : (m.perform base (.openSession branch inputs)).2 = m := addChild_of_none hn
      rw [hsame]
      exact .refl m
    | some n => exact keepsHeads_open hn inputs
  | _ => exact .refl m

theorem Resting.perform (h : m.Resting) (base : Route) (op : Op β) :
    Rested m (m.perform base op).2 ∧ (m.perform base op).2.clock = m.clock := by
  have hheads := keepsHeads_perform m base op
  have hplain := fun hm : m.Plain => hm.perform base op
  have hlogs := logs_perform m base op
  cases op <;> exact ⟨h.quiet rfl rfl rfl hheads hplain hlogs, rfl⟩

theorem Resting.settle (h : m.Resting) (a : Route) (key : String) (generation : Nat) (value : Option Value) :
    Rested m (m.modifyStore a (·.settle key generation value)) :=
  h.quiet rfl rfl rfl (sameSessions_modifyStore m a _).keepsHeads
    (fun hm => hm.modifyStore a fun _ hs => Store.pending_settle hs key generation value)
    (sameSessions_modifyStore m a _).logs

/-! ## Waiting -/

theorem Resting.markAwaited (h : m.Resting) (a : Route) : Rested m (m.markAwaited a) := by
  refine ⟨⟨fun f hf => ?_, h.idle⟩, Nat.le_refl _, ?_, .refl m, id, fun _ => List.prefix_rfl⟩
  · obtain ⟨g, hg, rfl⟩ := List.mem_map.1 hf
    have hover := h.ended g hg
    split <;> exact hover
  · unfold Machine.markAwaited
    rw [List.map_map]
    refine List.map_congr_left fun f _ => ?_
    dsimp only [Function.comp_apply]
    split <;> rfl

/-- All futures that are there have their reports. -/
theorem Resting.collect_eq (h : m.Resting) {todo : List FutureId} (hids : ∀ id ∈ todo, id ∈ m.futures.map Future.id)
    (failure : Option EvalError) : (m.collect todo failure).1 = [] := by
  induction todo generalizing failure with
  | nil => rfl
  | cons id rest ih =>
    obtain ⟨f, hf, hid⟩ := List.mem_map.1 (hids id List.mem_cons_self)
    have hfound : (m.future? id).isSome = true := List.find?_isSome.2 ⟨f, hf, decide_eq_true hid⟩
    obtain ⟨g, hg⟩ := Option.isSome_iff_exists.1 hfound
    obtain ⟨report, hreport⟩ := Option.isSome_iff_exists.1 (h.ended g (List.mem_of_find?_eq_some hg))
    have hrest (failure : Option EvalError) := ih (fun id hid => hids id (List.mem_cons_of_mem _ hid)) failure
    unfold collect
    rw [hg, Option.bind_some, hreport]
    cases report with
    | ok _ => exact hrest failure
    | error e => exact hrest _

theorem Resting.settleSlots (h : m.Resting) (a : Route) (todo : List PendingSlot) :
    (Machine.settleSlots a todo m).1 = [] ∧ Rested m (Machine.settleSlots a todo m).2 ∧
      (Machine.settleSlots a todo m).2.clock = m.clock := by
  induction todo generalizing m with
  | nil => exact ⟨rfl, h.rested, rfl⟩
  | cons slot rest ih =>
    obtain ⟨key, generation, id⟩ := slot
    have hsettled := h.settle a key generation (m.outcome id).value?
    obtain ⟨hslots, hrest, hclock⟩ := ih hsettled.rest
    unfold Machine.settleSlots
    rw [if_neg (by simp [h.isRunning_eq id])]
    exact ⟨hslots, hsettled.trans hrest, hclock⟩

/-- To wait for a branch of a machine at rest takes no time. -/
theorem Resting.waitFutures (h : m.Resting) (a : Route) : ∃ r, (Machine.waitFutures a [] none m).1 = .inr r ∧
    Rested m (Machine.waitFutures a [] none m).2 ∧ (Machine.waitFutures a [] none m).2.clock = m.clock := by
  have hmarked := h.markAwaited a
  have hids : ∀ id ∈ m.unawaited a, id ∈ (m.markAwaited a).futures.map Future.id := by
    intro id hid
    rw [hmarked.ids]
    obtain ⟨f, hf, rfl⟩ := List.mem_map.1 hid
    exact List.mem_map_of_mem (List.mem_of_mem_filter hf)
  have hcollected := hmarked.rest.collect_eq hids none
  obtain ⟨hslots, hrest, hclock⟩ := hmarked.rest.settleSlots a (m.store a).pending
  have hempty : m.collect [] none = ([], none) := rfl
  unfold Machine.waitFutures
  rw [hempty]
  dsimp only
  generalize (m.markAwaited a).collect (m.unawaited a) none = x at hcollected
  obtain ⟨todo, failure⟩ := x
  cases hcollected
  dsimp only [waitSlots]
  generalize Machine.settleSlots a (m.store a).pending (m.markAwaited a) = y at hslots hrest hclock
  obtain ⟨slots, m'⟩ := y
  cases hslots
  exact ⟨_, rfl, hmarked.trans hrest, hclock⟩

/-! ## Starting and resuming -/

/-- What a calm program leaves of a machine at rest, and of itself. -/
structure CalmRun (m : Machine) (r : Run α × Machine) : Prop where
  rested : Rested m r.2
  clock : r.2.clock = m.clock
  calm : r.1.Calm m.clock

theorem Rested.andThen {r : Run α × Machine} (h : Rested m m') (hc : m'.clock = m.clock) (hr : CalmRun m' r) :
    CalmRun m r := ⟨h.trans hr.rested, hr.clock.trans hc, hc ▸ hr.calm⟩

section Sweep

variable {n : Nat} {advance : Fin n → Machine → Run (Except ExecutionError β) × Machine}

theorem calm_sweep (h : ∀ i m', m'.Resting → m'.clock = m.clock → CalmRun m' (advance i m')) (hm : m.Resting)
    (is : List (Fin n)) : (Rested m (sweep advance is m).2 ∧ (sweep advance is m).2.clock = m.clock) ∧
      SweepHolds (Run.Calm m.clock) (sweep advance is m).1 := by
  refine sweep_keeps (I := fun m' => m'.Resting ∧ m'.clock = m.clock)
    (R := fun m₁ m₂ => Rested m₁ m₂ ∧ m₂.clock = m₁.clock) (P := fun _ => Run.Calm m.clock) (fun hm => ⟨hm.1.rested, rfl⟩)
    (fun hfirst hsecond => ⟨hfirst.1.trans hsecond.1, hsecond.2.trans hfirst.2⟩)
    (fun hm hafter => ⟨hafter.1.rest, hafter.2.trans hm.2⟩) (fun _ hcalm => hcalm) is (fun i _ m' hm' => ?_) ⟨hm, rfl⟩
  obtain ⟨hrest, hclock⟩ := hm'
  have hi := h i m' hrest hclock
  exact ⟨⟨hi.rested, hi.clock⟩, hclock ▸ hi.calm⟩

theorem calm_afterSweep {next : Except ExecutionError (List β) → Prog α}
    (h : ∀ i m', m'.Resting → m'.clock = m.clock → CalmRun m' (advance i m')) (hnext : ∀ r, (next r).Calm)
    (hstart : ∀ r m', m'.Resting → CalmRun m' ((next r).start base m')) (hm : m.Resting) :
    CalmRun m (afterSweep base next (sweep advance (List.finRange n) m)) := by
  obtain ⟨⟨hrested, hclock⟩, hcalm⟩ := calm_sweep h hm (List.finRange n)
  refine afterSweep_cases hcalm (fun e _ => ?_) (fun values _ => ?_) fun runs hcalm hwait => ?_
  · exact hrested.andThen hclock (hstart _ _ hrested.rest)
  · exact hrested.andThen hclock (hstart _ _ hrested.rest)
  · exact ⟨hrested, hclock, fun i => hcalm _ (List.get_mem runs i), hwait, hnext⟩

end Sweep

/-- **A calm program goes on until it sleeps.** -/
theorem calm_start {p : Prog α} (hp : p.Calm) (hm : m.Resting) : CalmRun m (p.start base m) := by
  induction p generalizing m with
  | done a => exact ⟨hm.rested, rfl, trivial⟩
  | act op next ih =>
    obtain ⟨hrested, hclock⟩ := hm.perform base op
    exact hrested.andThen hclock (ih _ (hp _) hrested.rest)
  | sleep ms next ih =>
    unfold Prog.start
    split
    · exact ih hp hm
    · exact ⟨hm.rested, rfl, by omega, hp⟩
  | spawn branch key future next _ _ => exact hp.elim
  | resolve branch key next ih =>
    have hsettle (generation : Nat) (value : Option Value) := hm.settle (base ++ branch) key generation value
    unfold Prog.start
    split
    · exact ih _ (hp _) hm
    · exact ih _ (hp _) hm
    · next future _ =>
      have hover := hm.isRunning_eq future
      cases ho : m.outcome future with
      | running =>
        rw [ho] at hover
        cases hover
      | resolved v => exact (hsettle _ _).andThen rfl (ih _ (hp _) (hsettle _ _).rest)
      | failed => exact (hsettle _ _).andThen rfl (ih _ (hp _) (hsettle _ _).rest)
  | settle branch next ih =>
    obtain ⟨r, hr, hrested, hclock⟩ := hm.waitFutures (base ++ branch)
    unfold Prog.start
    generalize Machine.waitFutures (base ++ branch) [] none m = x at hr hrested hclock
    obtain ⟨w, m'⟩ := x
    cases hr
    exact hrested.andThen hclock (ih _ (hp _) hrested.rest)
  | all parts next ihparts ih =>
    rw [start_all]
    exact calm_afterSweep (fun i m' hm' _ => ihparts i (hp.1 i) hm') hp.2 (fun r m' hm' => ih r (hp.2 r) hm') hm

/-- **A calm run that is taken on goes on until it sleeps.** -/
theorem calm_resume {run : Run α} {t : Nat} (hr : run.Calm t) (hm : m.Resting) : CalmRun m (run.resume base m) := by
  induction run generalizing m with
  | done a => exact ⟨hm.rested, rfl, trivial⟩
  | asleep wake next =>
    unfold Run.resume
    split
    · exact calm_start hr.2 hm
    · next hlate => exact ⟨hm.rested, rfl, Nat.lt_of_not_le hlate, hr.2⟩
  | resolving branch key generation future next => exact hr.elim
  | waiting branch wait next => exact hr.elim
  | joined parts next ih =>
    rw [resume_joined]
    exact calm_afterSweep (fun i m' hm' _ => ih i (hr.1 i) hm') hr.2.2 (fun r m' hm' => calm_start (hr.2.2 r) hm') hm

/-! ## Turns -/

variable {main : Run α}

/-- **A turn takes the clock to the next sleep to end.** -/
theorem turn_of_calm (hm : m.Resting) (hr : main.Calm m.clock) (hres : main.result? = none) :
    ∃ w, main.wake? = some w ∧ m.clock < w ∧ turn main m = some (main.resume [] { m with clock := w }) := by
  obtain ⟨w, hw, hlt⟩ := hr.exists_wake hres
  refine ⟨w, hw, hlt, ?_⟩
  have hidle : main.isReady m = false := hr.isReady_eq fun w' hw' => by
    cases hw.symm.trans hw'
    exact hlt
  have hd : dispatch main m = none := by
    rw [dispatch_of_empty hm.idle, hidle]
    rfl
  have hfutures : m.futures.filterMap Future.wake? = [] := by
    refine List.filterMap_eq_nil_iff.2 fun f hf => ?_
    have hover := hm.ended f hf
    unfold Future.report? at hover
    unfold Future.wake?
    split at hover
    · next hs => rw [hs]
    · cases hover
  have hnext : nextWake? main m = some w := by
    unfold nextWake?
    rw [hfutures, hw]
    rfl
  have hadvance : m.advanceTo w = { m with clock := w } := by
    have hnone : (m.futures.filter fun f => f.isReady { m with clock := w } && f.id ∉ m.ready) = [] := by
      refine List.filter_eq_nil_iff.2 fun f hf hcond => ?_
      have hover := hm.ended f hf
      rw [Bool.and_eq_true] at hcond
      obtain ⟨run, hs, -⟩ := future_isReady_iff.1 hcond.1
      unfold Future.report? at hover
      rw [hs] at hover
      cases hover
    unfold advanceTo enqueue
    rw [hnone, List.map_nil, List.append_nil]
  rw [turn_of_idle hd, hnext, Option.bind_some, hadvance]
  have hready : main.isReady { m with clock := w } = true := isReady_of_wake hw (Nat.le_refl _)
  rw [dispatch_of_empty (show { m with clock := w }.ready = [] from hm.idle), if_pos hready]

/-- **A calm run comes to its end.** -/
theorem drive_of_calm (main : Run α) (m : Machine) (hm : m.Resting) (hr : main.Calm m.clock) :
    ∃ a m', drive main m = (some a, m') ∧ Rested m m' := by
  -- along the turns
  induction main, m using drive.induct with
  | case1 main m a h => exact ⟨a, m, drive_of_result h m, hm.rested⟩
  | case2 main m h main' m' ht ih =>
    obtain ⟨w, -, hlt, hturn⟩ := turn_of_calm hm hr h
    have hadvanced := hm.advance (Nat.le_of_lt hlt)
    have hresumed : CalmRun { m with clock := w } (main.resume [] { m with clock := w }) :=
      calm_resume hr hadvanced.rest
    rw [← Option.some.inj (ht.symm.trans hturn)] at hresumed
    obtain ⟨a, m'', hdrive, hrested⟩ := ih hresumed.rested.rest (by rw [hresumed.clock]; exact hresumed.calm)
    exact ⟨a, m'', (drive_of_turn h ht).trans hdrive, (hadvanced.trans hresumed.rested).trans hrested⟩
  | case3 main m h ht =>
    obtain ⟨w, -, -, hturn⟩ := turn_of_calm hm hr h
    cases ht.symm.trans hturn

/-- **A calm program comes to its end.** -/
theorem run_of_calm {p : Prog α} (hp : p.Calm) (hm : m.Resting) :
    ∃ a m', m.run p = (some a, m') ∧ Rested m m' := by
  have hstarted : CalmRun m (p.start [] m) := calm_start hp hm
  obtain ⟨a, m', hdrive, hrested⟩ := drive_of_calm _ _ hstarted.rested.rest (hstarted.clock ▸ hstarted.calm)
  exact ⟨a, m', hdrive, hstarted.rested.trans hrested⟩

/-- A calm program that has come to its end leaves the machine at rest. -/
theorem rested_of_run {p : Prog α} (hp : p.Calm) (hm : m.Resting) {a : α} (hrun : m.run p = (some a, m')) :
    Rested m m' := by
  obtain ⟨_, _, hrun', hrested⟩ := run_of_calm hp hm
  cases hrun'.symm.trans hrun
  exact hrested

/-! ## Sleeps -/

/-- To sleep is to go on at a later time. -/
theorem run_sleep (hm : m.Resting) (ms : Nat) {next : Prog α} (hp : next.Calm) :
    m.run (.sleep ms next) = { m with clock := m.clock + ms }.run next := by
  by_cases hms : ms = 0
  · have hstart : (Prog.sleep ms next).start [] m = next.start [] m := if_pos hms
    unfold run
    rw [hstart, hms]
    rfl
  · have hstart : (Prog.sleep ms next).start [] m = (.asleep (m.clock + ms) next, m) := if_neg hms
    have hcalm : (Run.asleep (m.clock + ms) next).Calm m.clock := ⟨by omega, hp⟩
    obtain ⟨w, hw, -, hturn⟩ := turn_of_calm hm hcalm rfl
    cases hw
    have hresume : (Run.asleep (m.clock + ms) next).resume [] { m with clock := m.clock + ms } =
        next.start [] { m with clock := m.clock + ms } := if_pos (Nat.le_refl _)
    rw [hresume] at hturn
    unfold run
    rw [hstart]
    exact drive_of_turn rfl hturn

end Machine

end MediaQuery
