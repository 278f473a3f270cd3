import MediaQuery.Proofs.Machine.Recorded

/-!
# What futures report

A future that has ended has a report for those who wait for it: its failure, that it is stale, or nothing if its value
has become that of its key (`Ended`, `ended_of_report`). The report stays (`Moment.Before.keeps_report`). The futures
of a branch that nobody has begun to wait for come in the order of their start (`sorted_unawaited`), and once there are
none it takes a write to the branch for there to be some (`Moment.Before.none_unawaited`). Each write to a branch takes
a new generation, so that there has been none where the generation is the same (`Moment.Before.without_of_generation`).
-/

namespace MediaQuery.Machine

variable {inputs : Inputs} {past past' : List Event} {m m' : Machine} {e : Event} {a b : Route} {key : String}
  {id : FutureId} {report : Except EvalError Unit}

/-- The report of a future, once it has ended. -/
abbrev report? (m : Machine) (id : FutureId) : Option (Except EvalError Unit) := (m.future? id).bind Future.report?

theorem report?_eq_none (f : Future) : f.report? = none ↔ f.result? = none := by
  unfold Future.report? Future.result?
  cases f.state <;> simp

theorem report?_of_future? {f : Future} (hf : m.future? id = some f) (hr : f.result? = none) : m.report? id = none := by
  rw [report?, hf]
  exact (report?_eq_none f).2 hr

/-- Only its end gives a future a report. -/
theorem report?_of_quiet (hs : m.Step past e m') (he : ∀ result, e ≠ .ended id result) :
    m'.report? id = m.report? id := by
  unfold report?
  cases hs with
  | spawn key p ha =>
    rw [future?_spawn (by rw [isSome_branch?, ha])]
    cases m.future? id with
    | some f => rfl
    | none =>
      rw [Option.none_or]
      split <;> rfl
  | @finish f result hf hr =>
    obtain ⟨report, hfuture⟩ := exists_report_complete m f result
    rw [hfuture, future?_setFuture, if_neg]
    rintro rfl
    exact he result rfl
  | await a =>
    rw [future?_markAwaited]
    cases m.future? id with
    | none => rfl
    | some f =>
      rw [Option.map_some, Option.bind_some, Option.bind_some]
      split <;> rfl
  | work state hf hr hs =>
    rw [future?_setFuture]
    split
    · next hid =>
      subst hid
      rw [hf, Option.map_some, Option.bind_some, Option.bind_some, (report?_eq_none _).2 hr, (report?_eq_none _).2 hs]
    · rfl
  | _ => rfl

/-- A report stays. -/
theorem report?_step (hs : m.Step past e m') (hr : m.report? id = some report) : m'.report? id = some report := by
  rw [report?_of_quiet hs, hr]
  rintro result rfl
  have hnone := result?_of_ended hs
  cases hf : m.future? id with
  | none =>
    rw [report?, hf] at hr
    cases hr
  | some f =>
    rw [hf] at hnone
    cases hr.symm.trans (report?_of_future? hf hnone)

/-- The key of a future stays. -/
theorem Roster.key_eq (h : Roster past m) (h' : Roster past' m') (hsub : past ⊆ past') {f g : Future}
    (hf : m.future? id = some f) (hg : m'.future? id = some g) : g.key = f.key := by
  obtain ⟨-, g', hg', hkey⟩ := h'.started (hsub (h.spawned hf))
  cases hg.symm.trans hg'
  exact hkey

/-! ## How futures end -/

/-- How a future has ended, and what it reports. -/
inductive Ended (past : List Event) (f : Future) : Except EvalError Unit → Prop
  | failed {older : List Event} {e : EvalError} (h : .ended f.id (.error e) :: older <:+ past) :
      Ended past f (.error e)
  | stale {older : List Event} {v : Value} (h : .ended f.id (.ok v) :: older <:+ past) (hw : Rewritten older f) :
      Ended past f (.error (.context (.staleWrite f.key)))
  | landed {older : List Event} {v : Value} (h : .ended f.id (.ok v) :: older <:+ past) (hw : ¬ Rewritten older f) :
      Ended past f (.ok ())

theorem Ended.mono {f : Future} (h : Ended past f report) (hpast : past <:+ past') : Ended past' f report := by
  cases h with
  | failed h => exact .failed (h.trans hpast)
  | stale h hw => exact .stale (h.trans hpast) hw
  | landed h hw => exact .landed (h.trans hpast) hw

/-- The end of a future goes with its name and its key. -/
theorem Ended.congr {f g : Future} (h : Ended past f report) (hid : g.id = f.id) (hkey : g.key = f.key) :
    Ended past g report := by
  have hsame (older : List Event) : Rewritten older g ↔ Rewritten older f := by
    unfold Rewritten
    rw [hid, hkey]
  cases h with
  | failed h => exact .failed (hid.symm ▸ h)
  | stale h hw => exact hkey ▸ .stale (hid.symm ▸ h) ((hsame _).2 hw)
  | landed h hw => exact .landed (hid.symm ▸ h) (mt (hsame _).1 hw)

/-- What a future reports that is ending. -/
theorem ended_of_finish (h : History inputs past m) {f : Future} (hf : m.future? f.id = some f) (hr : f.result? = none)
    {result : Except EvalError Value} (hreport : (m.complete f result).report? f.id = some report) :
    Ended (.ended f.id result :: past) f report := by
  cases result with
  | error e =>
    cases hreport.symm.trans (report?_setFuture hf _ _)
    exact .failed List.suffix_rfl
  | ok v =>
    have hl := lineage_of_history h
    have hlast := lastWrite_eq_iff h hf
    by_cases hw : Rewritten past f
    · cases hreport.symm.trans (stale_of_lastWrite hl hf (fun heq => hlast.1 heq hw) v).report
      exact .stale List.suffix_rfl hw
    · cases hreport.symm.trans (landed_of_lastWrite hl hf hr (hlast.2 hw) v).report
      exact .landed List.suffix_rfl hw

/-- **A future that has a report has ended like that.** -/
theorem ended_of_report (h : History inputs past m) (hreport : m.report? id = some report) :
    ∃ f, m.future? id = some f ∧ Ended past f report := by
  induction h with
  | start => cases hreport
  | @step past m m' e h hs ih =>
    have hroster := (lineage_of_history h).roster
    have hroster' := (lineage_of_history (h.step hs)).roster
    have hsub : past ⊆ e :: past := List.subset_cons_self _ _
    obtain ⟨g, hg, -⟩ := Option.bind_eq_some_iff.1 hreport
    by_cases he : ∃ result, e = .ended id result
    · obtain ⟨result, rfl⟩ := he
      cases hs with
      | finish result hf hr =>
        exact ⟨g, hg, (ended_of_finish h hf hr hreport).congr (id_of_future? hg) (hroster.key_eq hroster' hsub hf hg)⟩
    · rw [not_exists] at he
      rw [report?_of_quiet hs he] at hreport
      obtain ⟨f, hf, hended⟩ := ih hreport
      refine ⟨g, hg, (hended.mono (List.suffix_cons _ _)).congr ?_ (hroster.key_eq hroster' hsub hf hg)⟩
      rw [id_of_future? hf, id_of_future? hg]

/-! ## Futures that nobody waits for -/

theorem unawaited_setFuture (m : Machine) (id : FutureId) (state : FutureState) (a : Route) :
    (m.setFuture id state).unawaited a = m.unawaited a := by
  unfold unawaited setFuture
  dsimp only
  induction m.futures with
  | nil => rfl
  | cons f rest ih =>
    unfold Future.setState
    split
    · simp [List.filter_cons, apply_ite]
    · rw [List.filter_cons, List.filter_cons]
      split <;> simp [ih]

theorem unawaited_complete (m : Machine) (f : Future) (result : Except EvalError Value) (a : Route) :
    (m.complete f result).unawaited a = m.unawaited a := by
  cases result with
  | error e => exact unawaited_setFuture m _ _ a
  | ok v =>
    simp only [complete]
    split
    · exact unawaited_setFuture (m.modifyStore _ _) _ _ a
    · exact unawaited_setFuture m _ _ a

theorem unawaited_markAwaited (m : Machine) (a b : Route) :
    (m.markAwaited a).unawaited b = if b = a then [] else m.unawaited b := by
  unfold unawaited markAwaited
  dsimp only
  rw [List.filter_map, List.map_map]
  have hid : Future.id ∘ (fun f => if f.id.home = a then { f with awaited := true } else f) = Future.id :=
    funext fun f => by
      dsimp only [Function.comp_apply]
      split <;> rfl
  rw [hid]
  split
  · next hb =>
    subst hb
    rw [List.filter_eq_nil_iff.2, List.map_nil]
    intro f _
    by_cases hf : f.id.home = b <;> simp [hf]
  · next hb =>
    refine congrArg _ (List.filter_congr fun f _ => ?_)
    by_cases hf : f.id.home = a
    · simp [hf, Ne.symm hb]
    · simp [hf]

/-- What becomes of the futures of a branch that nobody waits for: a new one comes last, or someone waits for all. -/
theorem unawaited_step (hs : m.Step past e m') (a : Route) : m'.unawaited a = m.unawaited a ∨ m'.unawaited a = [] ∨
    ∃ key, e = .spawned a key (m.nextFuture a) ∧ m'.unawaited a = m.unawaited a ++ [m.nextFuture a] := by
  cases hs with
  | @spawn b key p hb =>
    rw [spawn_of_there (by rw [isSome_branch?, hb])]
    by_cases hab : b = a
    · subst hab
      exact .inr (.inr ⟨key, rfl, by simp [unawaited, nextFuture]⟩)
    · exact .inl (by simp [unawaited, nextFuture, hab])
  | @finish f result hf hr => exact .inl (unawaited_complete m f result a)
  | await b =>
    rw [unawaited_markAwaited]
    split
    · exact .inr (.inl rfl)
    · exact .inl rfl
  | work state hf hr hs => exact .inl (unawaited_setFuture m _ state a)
  | _ => exact .inl rfl

/-- **The futures of a branch that nobody waits for come in the order of their start.** -/
theorem sorted_unawaited (h : History inputs past m) (a : Route) :
    (m.unawaited a).Pairwise fun id id' => id.generation < id'.generation := by
  induction h with
  | start => exact .nil
  | @step past m m' e h hs ih =>
    rcases unawaited_step hs a with heq | heq | ⟨key, -, heq⟩
    · rw [heq]
      exact ih
    · rw [heq]
      exact .nil
    · rw [heq]
      refine List.pairwise_append.2 ⟨ih, List.pairwise_singleton _ _, fun id hid id' hid' => ?_⟩
      obtain rfl := List.mem_singleton.1 hid'
      obtain ⟨f, hf, rfl⟩ := List.mem_map.1 hid
      obtain ⟨hmem, hhome⟩ := List.mem_filter.1 hf
      obtain ⟨b, key, hspawned⟩ := spawned_of_mem h hmem
      have hlineage := lineage_of_history h
      obtain ⟨rfl, -⟩ := hlineage.roster.started hspawned
      have hle := (hlineage.values.started hspawned).generation_le
      simp only [Bool.and_eq_true, decide_eq_true_eq] at hhome
      rw [hhome.1] at hle
      exact Nat.lt_succ_of_le hle

/-! ## References -/

/-- Nothing but a write leaves a reference under a key of a branch that is there. -/
theorem find?_pending_step (hs : m.Step past e m') (ha : (m.node? a).isSome = true) (he : ¬ e.Writes a key)
    {generation : Nat} (hp : (m'.store a).find? key = some ⟨generation, .pending id⟩) :
    (m.store a).find? key = some ⟨generation, .pending id⟩ := by
  have hchanged := changed_step hs a
  generalize m'.store a = s at hchanged hp
  have hthere {α : Prop} (hnone : m.node? a = none) : α := by
    rw [hnone] at ha
    cases ha
  cases hchanged with
  | same => exact hp
  | write slot hw =>
    rw [Store.find?_write] at hp
    split at hp
    · next hk => exact absurd (hk ▸ hw) he
    · exact hp
  | replace k g v =>
    rw [Store.find?_replace] at hp
    split at hp
    · cases hp
    · exact hp
  | settle k g value =>
    rw [Store.find?_settle] at hp
    split at hp
    · obtain ⟨v, -, hv⟩ := Option.map_eq_some_iff.1 hp
      cases hv
    · exact hp
  | copy b hnone => exact hthere hnone
  | fresh values hnone => exact hthere hnone

/-! ## Generations -/

theorem generation_step (hs : m.Step past e m') (a : Route) : (m.store a).generation ≤ (m'.store a).generation := by
  have hchanged := changed_step hs a
  generalize m'.store a = s at hchanged ⊢
  have hnew {n : Nat} (hnone : m.node? a = none) : (m.store a).generation ≤ n := by
    rw [store_of_none hnone]
    exact Nat.zero_le n
  cases hchanged with
  | same => exact Nat.le_refl _
  | write slot he => exact Nat.le_succ _
  | replace k g v => exact Nat.le_refl _
  | settle k g value => exact Nat.le_of_eq (Store.generation_settle ..).symm
  | copy b hnone => exact hnew hnone
  | fresh values hnone => exact hnew hnone

/-- Every write to a branch takes a new generation. -/
theorem generation_of_write (hs : m.Step past e m') (he : e.Writes a key) :
    (m.store a).generation < (m'.store a).generation := by
  cases hs with
  | set k value hb =>
    obtain ⟨rfl, rfl⟩ := he
    rw [store_modifyStore hb, if_pos rfl]
    exact Nat.lt_succ_self _
  | spawn k p hb =>
    obtain ⟨rfl, rfl⟩ := he
    rw [store_spawn hb, if_pos rfl]
    exact Nat.lt_succ_self _
  | _ => exact he.elim

/-! ## Later on -/

namespace Moment

variable {x y : Moment}

theorem Before.keeps_report (h : x.Before y) (hr : x.machine.report? id = some report) :
    y.machine.report? id = some report := by
  induction h with
  | refl => exact hr
  | tail _ hn ih =>
    obtain ⟨e, hs, -⟩ := hn
    exact report?_step hs ih

/-- Once someone waits for all futures of a branch it is so until there is a new one. -/
theorem Before.none_unawaited (h : x.Before y) (hw : x.Without y fun e => ∃ key, e.Writes a key)
    (hnone : x.machine.unawaited a = []) : y.machine.unawaited a = [] := by
  refine h.keeps (P := fun z => z.machine.unawaited a = []) hw hnone ?_
  intro z w e _ hs _ he hz
  rcases unawaited_step hs a with heq | heq | ⟨key, rfl, -⟩
  · rw [heq, hz]
  · exact heq
  · exact absurd ⟨key, rfl, rfl⟩ he

/-- A reference that is there now has been there before if the key has not been written. -/
theorem Before.was_pending (h : x.Before y) (ha : (x.machine.node? a).isSome = true)
    (hw : x.Without y (Event.Writes a key)) {generation : Nat}
    (hp : (y.machine.store a).find? key = some ⟨generation, .pending id⟩) :
    (x.machine.store a).find? key = some ⟨generation, .pending id⟩ := by
  refine h.keeps (P := fun z => (z.machine.store a).find? key = some ⟨generation, .pending id⟩ →
    (x.machine.store a).find? key = some ⟨generation, .pending id⟩) hw (fun hp => hp) ?_ hp
  intro z w e hz hs _ he hold hpending
  exact hold (find?_pending_step hs (hz.there ha) he hpending)

/-- Where the generation is the same nothing has been written. -/
theorem Before.without_of_generation (h : x.Before y)
    (hg : (y.machine.store a).generation = (x.machine.store a).generation) :
    x.Without y fun e => ∃ key, e.Writes a key := by
  have hgrows : ∃ recent, y.past = recent ++ x.past ∧
      (x.machine.store a).generation ≤ (y.machine.store a).generation ∧
      ∀ e ∈ recent, ∀ key, e.Writes a key → (x.machine.store a).generation < (y.machine.store a).generation := by
    clear hg
    induction h with
    | refl => exact ⟨[], rfl, Nat.le_refl _, nofun⟩
    | @tail z w _ hn ih =>
      obtain ⟨recent, hpast, hle, hlt⟩ := ih
      obtain ⟨e, hs, hpast'⟩ := hn
      have hstep := generation_step hs a
      refine ⟨e :: recent, by rw [hpast', hpast, List.cons_append], Nat.le_trans hle hstep, fun e' he' key hw => ?_⟩
      rcases List.mem_cons.1 he' with rfl | he'
      · exact Nat.lt_of_le_of_lt hle (generation_of_write hs hw)
      · exact Nat.lt_of_lt_of_le (hlt e' he' key hw) hstep
  obtain ⟨recent, hpast, -, hlt⟩ := hgrows
  refine without_of_recent hpast fun e he ⟨key, hw⟩ => ?_
  exact Nat.lt_irrefl _ (hg ▸ hlt e he key hw)

end Moment

end MediaQuery.Machine
