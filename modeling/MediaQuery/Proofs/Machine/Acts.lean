import MediaQuery.Proofs.Branch.Sorted
import MediaQuery.Proofs.Machine.Passage
import MediaQuery.Proofs.Machine.Queue

/-!
# What is done in no time

Operations, futures that are started, and waits take a machine with a history to one with a longer history (`Acts`): its
futures go on as they were, and its queue stays in order. What a run waits for is in the history (`Run.Watched`): it has
met the references, and the futures have been started.
-/

namespace MediaQuery

open Machine

/-- What a wait is held up by is known: futures that have been started, or references that have been met. -/
def Wait.Known (past : List Event) (a : Route) : Wait → Prop
  | .futures front rest _ => ∀ id ∈ front :: rest, ∃ b key, .spawned b key id ∈ past
  | .slots slot rest _ => ∀ s ∈ slot :: rest, .met a s ∈ past

/-- What a run waits for is known. -/
def Run.Watched (past : List Event) (base : Route) : {α : Type} → Run α → Prop
  | _, .resolving branch key generation future _ => .met (base ++ branch) (key, generation, future) ∈ past
  | _, .waiting branch wait _ => wait.Known past (base ++ branch)
  | _, .joined parts _ => ∀ i, (parts i).Watched past base
  | _, _ => True

namespace Machine

variable {inputs : Inputs} {past past' : List Event} {m m' : Machine} {α : Type}

theorem known_mono {wait : Wait} {a : Route} (h : wait.Known past a) (hsub : past ⊆ past') : wait.Known past' a := by
  cases wait with
  | futures front rest failure =>
    intro id hid
    obtain ⟨b, key, hspawned⟩ := h id hid
    exact ⟨b, key, hsub hspawned⟩
  | slots slot rest failure => exact fun s hs => hsub (h s hs)

/-- What is known stays known. -/
theorem watched_mono {run : Run α} {base : Route} (h : run.Watched past base) (hsub : past ⊆ past') :
    run.Watched past' base := by
  induction run with
  | done a => trivial
  | asleep wake next => trivial
  | resolving branch key generation future next => exact hsub h
  | waiting branch wait next => exact known_mono h hsub
  | joined parts next ih => exact fun i => ih i (h i)

/-- Actions take a machine with one history to a machine with a longer one, in no time. Its futures go on as they
were, new ones are asleep, and its queue stays in order. -/
structure Acts (inputs : Inputs) (past : List Event) (m : Machine) (past' : List Event) (m' : Machine) : Prop where
  history : History inputs past' m'
  subset : past ⊆ past'
  known : ∀ id f, m.future? id = some f → ∃ g, m'.future? id = some g ∧ g.key = f.key ∧ g.state = f.state
  new : ∀ id g, m.future? id = none → m'.future? id = some g → ∃ wake next, g.state = .running (.asleep wake next)
  clock : m'.clock = m.clock
  orderly : Orderly m → Orderly m'
  steps : Moment.Before ⟨past, m⟩ ⟨past', m'⟩

theorem Acts.refl (h : History inputs past m) : Acts inputs past m past m :=
  ⟨h, List.Subset.refl _, fun _ f hf => ⟨f, hf, rfl, rfl⟩, fun _ _ hn hg => by simp [hn] at hg, rfl, id, .refl _⟩

theorem Acts.trans {past'' : List Event} {m'' : Machine} (h : Acts inputs past m past' m')
    (h' : Acts inputs past' m' past'' m'') : Acts inputs past m past'' m'' := by
  refine ⟨h'.history, List.Subset.trans h.subset h'.subset, fun id f hf => ?_, fun id g hn hg => ?_,
    h'.clock.trans h.clock, fun ho => h'.orderly (h.orderly ho), h.steps.trans h'.steps⟩
  · obtain ⟨f', hf', hkey, hstate⟩ := h.known id f hf
    obtain ⟨f'', hf'', hkey', hstate'⟩ := h'.known id f' hf'
    exact ⟨f'', hf'', hkey'.trans hkey, hstate'.trans hstate⟩
  · cases hm : m'.future? id with
    | none => exact h'.new id g hm hg
    | some f =>
      obtain ⟨wake, next, hstate⟩ := h.new id f hn hm
      obtain ⟨g', hg', -, hstate'⟩ := h'.known id f hm
      cases hg.symm.trans hg'
      exact ⟨wake, next, hstate'.trans hstate⟩

/-- A step that leaves all futures in their states. -/
theorem Acts.step {e : Event} (h : History inputs past m) (hs : m.Step past e m')
    (hf : ∀ id, (m'.future? id).map (fun f => (f.key, f.state)) = (m.future? id).map fun f => (f.key, f.state))
    (hids : m'.futures.map Future.id = m.futures.map Future.id) (hr : m'.ready = m.ready)
    (hc : m'.clock = m.clock) : Acts inputs past m (e :: past) m' := by
  refine ⟨.step h hs, List.subset_cons_self _ _, fun id f hid => ?_, fun id g hn hg => ?_, hc, fun ho => ?_,
    Moment.before_of_step hs⟩
  · have hsame := hf id
    rw [hid, Option.map_some, Option.map_eq_some_iff] at hsame
    obtain ⟨g, hg, hgf⟩ := hsame
    exact ⟨g, hg, congrArg Prod.fst hgf, congrArg Prod.snd hgf⟩
  · have hsame := hf id
    simp [hn, hg] at hsame
  · refine ho.congr hids (fun id => ?_) hr hc
    have hsame := congrArg (Option.map Prod.snd) (hf id)
    simpa [state?, Option.map_map, Function.comp_def] using hsame

/-- A step that has nothing to do with futures. -/
theorem Acts.quiet {e : Event} (h : History inputs past m) (hs : m.Step past e m') (hf : m'.futures = m.futures)
    (hr : m'.ready = m.ready) (hc : m'.clock = m.clock) : Acts inputs past m (e :: past) m' := by
  refine .step h hs (fun id => ?_) (by rw [hf]) hr hc
  unfold future?
  rw [hf]

/-- The stores of a machine with a history are sorted. -/
theorem sorted_of_history (h : History inputs past m) (a : Route) : (m.store a).Sorted := by
  induction h generalizing a with
  | start =>
    rw [store_start]
    exact Store.sorted_empty
  | step h hs ih =>
    have hchanged := changed_step hs a
    generalize Machine.store _ a = s at hchanged ⊢
    cases hchanged with
    | same => exact ih a
    | write slot he => exact (ih a).write _ _
    | replace key generation v => exact (ih a).replace _ _ _
    | settle key generation value => exact (ih a).settle _ _ _
    | copy b ha => exact ih b
    | fresh values ha => exact Store.sorted_ofValues _

/-! ## Operations -/

/-- What changes nothing leaves no event. -/
theorem acts_of_eq (h : History inputs past m) (he : m' = m) : ∃ past', Acts inputs past m past' m' :=
  ⟨past, by rw [he]; exact .refl h⟩

theorem acts_perform (h : History inputs past m) (base : Route) (op : Op α) :
    ∃ past', Acts inputs past m past' (m.perform base op).2 := by
  cases op with
  | set branch key value =>
    cases hb : m.node? (base ++ branch) with
    | none => exact acts_of_eq h (modifyStore_of_none (f := fun s => s.write key (.ready value)) hb)
    | some n => exact ⟨_, .quiet h (.set key value (by rw [hb]; rfl)) rfl rfl rfl⟩
  | record branch result => exact ⟨_, .quiet h (.record _ result) rfl rfl rfl⟩
  | fork branch options =>
    cases hb : m.node? (base ++ branch) with
    | none => exact acts_of_eq h (addChild_of_none (f := fun b => b.forkOf options) hb)
    | some n => exact ⟨_, .quiet h (.fork options hb) rfl rfl rfl⟩
  | enter branch path => exact ⟨_, .quiet h (.enter _ path) rfl rfl rfl⟩
  | openSession branch session =>
    cases hb : m.node? (base ++ branch) with
    | none => exact acts_of_eq h (addChild_of_none (f := fun _ => .root session) hb)
    | some n => exact ⟨_, .quiet h (.openSession session hb) rfl rfl rfl⟩
  | _ => exact acts_of_eq h rfl

theorem acts_spawn (h : History inputs past m) (a : Route) (key : String) (p : Prog (Except EvalError Value)) :
    ∃ past', Acts inputs past m past' (m.spawn a key p) := by
  by_cases ha : (m.node? a).isSome = true
  · have hbranch : (m.branch? a).isSome = true := by rw [isSome_branch?, ha]
    refine ⟨_, .step h (.spawn key p ha), List.subset_cons_self _ _, fun id f hf => ?_, fun id g hn hg => ?_,
      clock_spawn m a key p, fun ho => ho.spawn key p hbranch ((lineage_of_history h).future?_next a),
      Moment.before_of_step (.spawn key p ha)⟩
    · exact ⟨f, by rw [future?_spawn hbranch, hf]; rfl, rfl, rfl⟩
    · rw [future?_spawn hbranch, hn, Option.none_or] at hg
      split at hg
      · cases hg
        exact ⟨_, _, rfl⟩
      · cases hg
  · refine acts_of_eq h (spawn_of_absent ?_ key p)
    rwa [isSome_branch?]

/-! ## Waiting -/

/-- Whoever waits for references has met them. -/
theorem acts_meet (h : History inputs past m) (a : Route) (slots : List PendingSlot)
    (hslots : ∀ key generation id, (key, generation, id) ∈ slots →
      (m.store a).find? key = some ⟨generation, .pending id⟩) :
    ∃ past', Acts inputs past m past' m ∧ ∀ s ∈ slots, .met a s ∈ past' := by
  induction slots with
  | nil => exact ⟨past, .refl h, nofun⟩
  | cons slot rest ih =>
    obtain ⟨past', hacts, hmet⟩ := ih fun key generation id hm => hslots key generation id (List.mem_cons_of_mem _ hm)
    obtain ⟨key, generation, id⟩ := slot
    refine ⟨_, hacts.trans (.quiet hacts.history (.meet (hslots key generation id List.mem_cons_self)) rfl rfl rfl),
      fun s hs => ?_⟩
    rcases List.mem_cons.1 hs with rfl | hs
    · exact List.mem_cons_self
    · exact List.mem_cons_of_mem _ (hmet s hs)

theorem acts_settleSlots (a : Route) (todo : List PendingSlot) (h : History inputs past m)
    (hmet : ∀ s ∈ todo, .met a s ∈ past) :
    ∃ past', Acts inputs past m past' (settleSlots a todo m).2 ∧
      ∀ s ∈ (settleSlots a todo m).1, .met a s ∈ past' := by
  induction todo generalizing past m with
  | nil => exact ⟨past, .refl h, nofun⟩
  | cons slot rest ih =>
    obtain ⟨key, generation, id⟩ := slot
    unfold settleSlots
    split
    · exact ⟨past, .refl h, hmet⟩
    · next hr =>
      have hacts := Acts.quiet h (.settle (hmet _ List.mem_cons_self) (Bool.not_eq_true _ ▸ hr)) rfl rfl rfl
      obtain ⟨past', hacts', hmet'⟩ := ih hacts.history fun s hs =>
        hacts.subset (hmet s (List.mem_cons_of_mem _ hs))
      exact ⟨past', hacts.trans hacts', hmet'⟩

/-- What a wait that goes on is held up by is known. -/
def WaitKnown (past : List Event) (a : Route) : Wait ⊕ Except EvalError Unit → Prop
  | .inl wait => wait.Known past a
  | .inr _ => True

theorem acts_waitSlots (a : Route) (todo : List PendingSlot) (failure : Option EvalError)
    (h : History inputs past m) (hmet : ∀ s ∈ todo, .met a s ∈ past) :
    ∃ past', Acts inputs past m past' (waitSlots a todo failure m).2 ∧
      WaitKnown past' a (waitSlots a todo failure m).1 := by
  obtain ⟨past', hacts, hmet'⟩ := acts_settleSlots a todo h hmet
  refine ⟨past', ?_⟩
  unfold waitSlots
  split
  · next he =>
    rw [he] at hacts
    exact ⟨hacts, trivial⟩
  · next he =>
    rw [he] at hacts hmet'
    exact ⟨hacts, hmet'⟩

/-- Passing over futures leaves some of them. -/
theorem collect_subset (m : Machine) (todo : List FutureId) (failure : Option EvalError) :
    (m.collect todo failure).1 ⊆ todo := by
  induction todo generalizing failure with
  | nil => exact List.Subset.refl _
  | cons id rest ih =>
    unfold collect
    split
    · exact List.Subset.refl _
    · exact List.subset_cons_of_subset _ (ih _)
    · exact List.subset_cons_of_subset _ (ih _)

/-- Every future of a machine has been started. -/
theorem spawned_of_mem (h : History inputs past m) {f : Future} (hf : f ∈ m.futures) :
    ∃ b key, .spawned b key f.id ∈ past := by
  have hsome : (m.future? f.id).isSome = true := by
    unfold future?
    rw [List.find?_isSome]
    exact ⟨f, hf, by simp⟩
  obtain ⟨g, hg⟩ := Option.isSome_iff_exists.1 hsome
  exact ⟨_, _, (lineage_of_history h).roster.spawned hg⟩

theorem spawned_of_unawaited (h : History inputs past m) {a : Route} {id : FutureId} (hid : id ∈ m.unawaited a) :
    ∃ b key, .spawned b key id ∈ past := by
  obtain ⟨f, hf, rfl⟩ := List.mem_map.1 hid
  exact spawned_of_mem h (List.mem_of_mem_filter hf)

theorem acts_waitFutures (a : Route) (todo : List FutureId) (failure : Option EvalError)
    (h : History inputs past m) (htodo : ∀ id ∈ todo, ∃ b key, .spawned b key id ∈ past) :
    ∃ past', Acts inputs past m past' (waitFutures a todo failure m).2 ∧
      WaitKnown past' a (waitFutures a todo failure m).1 := by
  have hmark : Acts inputs past m (.other :: past) (m.markAwaited a) := by
    refine .step h (.await a) (fun id => ?_) ?_ rfl rfl
    · rw [future?_markAwaited, Option.map_map]
      refine congrArg (Option.map · _) (funext fun f => ?_)
      dsimp only [Function.comp_apply]
      split <;> rfl
    · unfold markAwaited
      rw [List.map_map]
      refine congrArg (List.map · _) (funext fun f => ?_)
      dsimp only [Function.comp_apply]
      split <;> rfl
  unfold waitFutures
  split
  · next id rest failure' he =>
    have hsub := collect_subset m todo failure
    rw [he] at hsub
    exact ⟨past, .refl h, fun id hid => htodo id (hsub hid)⟩
  · next failure₁ _ =>
    split
    · next id rest failure₂ he =>
      have hsub := collect_subset (m.markAwaited a) (m.unawaited a) failure₁
      rw [he] at hsub
      refine ⟨_, hmark, fun id hid => ?_⟩
      obtain ⟨b, key, hspawned⟩ := spawned_of_unawaited h (hsub hid)
      exact ⟨b, key, hmark.subset hspawned⟩
    · next failure' _ =>
      obtain ⟨past₁, hmeet, hmet⟩ := acts_meet hmark.history a (m.store a).pending fun key generation id hm =>
        (sorted_of_history h a).find?_of_pending hm
      obtain ⟨past₂, hslots, hwait⟩ := acts_waitSlots a _ failure' hmeet.history hmet
      exact ⟨past₂, (hmark.trans hmeet).trans hslots, hwait⟩

end Machine

end MediaQuery
