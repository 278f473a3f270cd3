import MediaQuery.Proofs.Machine.Clock
import MediaQuery.Proofs.Machine.Confined

/-!
# The machine inside

What is known about a machine is known about one that is found in it: its queue is in order (`Mirrors.orderly`), it
has nothing to dispatch where the other has not (`Mirrors.dispatch_eq_none`), and its next sleep ends no earlier
(`Mirrors.nextWake?_le`). What happens elsewhere leaves it as it is (`Mirrors.confined`).
-/

namespace MediaQuery

/-- All branches but those below a place. -/
abbrev Away (place : Route) (x : Route) : Prop := ¬ place <+: x

namespace Machine

variable {place route : Route} {m l m' : Machine} {α : Type} {R : α → α → Prop} {t : Nat}

/-! ## Futures -/

/-- Futures that are alike run alike. -/
theorem running_of_left {run : Run (Except EvalError Value)} {state' : FutureState}
    (h : (FutureState.running run).Alike place state') :
    ∃ run', state' = .running run' ∧ run.Alike place [] (SameResult (EvalError.Like []) Eq) run' := by
  cases h with
  | running hr => exact ⟨_, rfl, hr⟩

theorem running_of_right {state : FutureState} {run' : Run (Except EvalError Value)}
    (h : state.Alike place (.running run')) :
    ∃ run, state = .running run ∧ run.Alike place [] (SameResult (EvalError.Like []) Eq) run' := by
  cases h with
  | running hr => exact ⟨_, rfl, hr⟩

theorem Mirrors.state? (h : Mirrors place m l) (id : FutureId) :
    Option.Rel (FutureState.Alike place) (m.state? (id.shift place)) (l.state? id) := by
  unfold Machine.state?
  rcases rel_cases (h.future? id) with ⟨hm, hl⟩ | ⟨f, f', hm, hl, hf⟩
  · rw [hm, hl]
    exact .none
  · rw [hm, hl]
    exact .some hf.state

/-- A future that runs in the machine inside runs in the other. -/
theorem Mirrors.running (h : Mirrors place m l) {id : FutureId} {run' : Run (Except EvalError Value)}
    (hl : l.state? id = some (.running run')) :
    ∃ run, m.state? (id.shift place) = some (.running run) ∧
      run.Alike place [] (SameResult (EvalError.Like []) Eq) run' := by
  rcases rel_cases (h.state? id) with ⟨-, hn⟩ | ⟨state, state', hm, hs, halike⟩
  · cases hl.symm.trans hn
  · cases hl.symm.trans hs
    obtain ⟨run, rfl, hr⟩ := running_of_right halike
    exact ⟨run, hm, hr⟩

theorem Mirrors.isSome_state? (h : Mirrors place m l) (id : FutureId) :
    (m.state? (id.shift place)).isSome = (l.state? id).isSome := rel_isSome (h.state? id)

theorem heldBy_alike {wait wait' : Wait} (hw : wait.Alike place wait') :
    heldBy wait = (heldBy wait').shift place := by
  cases hw <;> rfl

/-- What a run waits for is on the machine inside, if it is on the other. -/
theorem knows_alike {run run' : Run α} (hr : run.Alike place route R run') (h : Mirrors place m l)
    (hk : run.Knows m) : run'.Knows l := by
  induction hr with
  | done ha => trivial
  | asleep wake hp => trivial
  | resolving branch key generation future hp => exact (h.isSome_state? future).symm.trans hk
  | waiting branch hw hp =>
    have hheld : (m.state? (heldBy _)).isSome = true := hk
    rw [heldBy_alike hw, h.isSome_state?] at hheld
    exact hheld
  | joined E S hn hparts hwait hp ih =>
    subst hn
    exact fun i => ih i i rfl (hk i)

/-! ## The queue -/

/-- **The queue of the machine inside is in order.** -/
theorem Mirrors.orderly (h : Mirrors place m l) (ho : Orderly m) : Orderly l := by
  have hids : (m.futures.filter fun f => place <+: f.id.home).map Future.id =
      (l.futures.map Future.id).map (FutureId.shift place) := by
    have hfutures := h.futures
    generalize (m.futures.filter fun f => place <+: f.id.home) = below, l.futures = futures at hfutures ⊢
    induction hfutures with
    | nil => rfl
    | cons hf _ ih => rw [List.map_cons, List.map_cons, List.map_cons, ih, hf.id]
  refine ⟨⟨?_, ?_, fun id hid => ?_, fun id run' hrun => ?_⟩, fun id run' hrun hready => ?_⟩
  · have hbelow := ho.distinct.sublist ((List.filter_sublist (p := fun f => place <+: f.id.home)).map Future.id)
    rw [hids] at hbelow
    exact List.Nodup.of_map _ hbelow
  · have hbelow := ho.nodup.sublist (List.filter_sublist (p := fun id => place <+: id.home))
    rw [h.ready] at hbelow
    exact List.Nodup.of_map _ hbelow
  · obtain ⟨run, hrun, hready⟩ := ho.live _ ((h.mem_ready id).2 hid)
    rcases rel_cases (h.state? id) with ⟨hn, -⟩ | ⟨state, state', hm, hl, halike⟩
    · cases hrun.symm.trans hn
    · cases hrun.symm.trans hm
      obtain ⟨run', rfl, hr⟩ := running_of_left halike
      exact ⟨run', hl, isReady_alike hr h ▸ hready⟩
  · obtain ⟨run, hm, hr⟩ := h.running hrun
    exact knows_alike hr h (ho.knows _ run hm)
  · obtain ⟨run, hm, hr⟩ := h.running hrun
    exact (h.mem_ready id).1 (ho.queued _ run hm (isReady_alike hr h ▸ hready))

/-- Where the queue of the whole machine is empty so is that of the machine inside. -/
theorem Mirrors.ready_eq_nil (h : Mirrors place m l) (hr : m.ready = []) : l.ready = [] := by
  have hready := h.ready
  rw [hr] at hready
  exact List.map_eq_nil_iff.1 hready.symm

/-! ## Time -/

theorem Mirrors.advanceTo (h : Mirrors place m l) (t : Nat) : Mirrors place (m.advanceTo t) (l.advanceTo t) :=
  mirrors_enqueue ⟨h.node, h.inputs, h.futures, h.ready, rfl⟩

/-- The next sleep of the machine inside ends no earlier than that of the whole machine. -/
theorem Mirrors.nextWake?_le {β : Type} (h : Mirrors place m l) {run : Run α} {main : Run β}
    (hmain : ∀ w, run.wake? = some w → ∃ w', main.wake? = some w' ∧ w' ≤ w) {w : Nat}
    (hw : nextWake? run l = some w) : ∃ least, nextWake? main m = some least ∧ least ≤ w := by
  rcases nextWake?_mem hw with hrun | ⟨f', hf', run', hs', hwake⟩
  · obtain ⟨w', hw', hle⟩ := hmain w hrun
    obtain ⟨least, hleast, hle'⟩ := nextWake?_le_main (m := m) hw'
    exact ⟨least, hleast, Nat.le_trans hle' hle⟩
  · obtain ⟨f, hf, halike⟩ : ∃ f ∈ m.futures.filter fun f => place <+: f.id.home, f.Alike place f' := by
      obtain ⟨i, hi, rfl⟩ := List.mem_iff_getElem.1 hf'
      have hi' : i < (m.futures.filter fun f => place <+: f.id.home).length := h.futures.length_eq ▸ hi
      exact ⟨_, List.getElem_mem hi', h.futures.get hi' hi⟩
    have hstate := halike.state
    rw [hs'] at hstate
    obtain ⟨run, hs, hr⟩ := running_of_right hstate
    exact nextWake?_le_future main (List.mem_of_mem_filter hf) hs ((wake?_alike hr).trans hwake)

/-! ## Elsewhere -/

/-- Branches that differ in no more than their sessions look the same. -/
theorem alike_of_bare {n n₁ n' : Node} (hb : n₁.bare = n.bare) (h : n.Alike place n') : n₁.Alike place n' := by
  obtain ⟨hstore, hpath, hresults, hdegree⟩ := Node.same_of_bare hb
  exact ⟨hstore.trans h.store, hpath.trans h.path, hresults.trans h.results, hdegree.trans h.degree⟩

/-- **What happens elsewhere leaves the machine inside as it is.** -/
theorem Mirrors.confined {T : Route → Prop} (h : Mirrors place m l) (hc : Confined T m m')
    (hT : ∀ x, T x → Away place x) (hp : (m.node? place).isSome = true) : Mirrors place m' l := by
  have hbelow (x : Route) (hx : T x) : decide (place <+: x) = false := decide_eq_false (hT x hx)
  refine ⟨fun r => ?_, fun r => ?_, ?_, ?_, hc.clock.trans h.clock⟩
  · have hnode := hc.node (place ++ r) fun hx => hT _ hx (List.prefix_append _ _)
    have hrel := h.node r
    cases hm : m.node? (place ++ r) with
    | none =>
      rw [hm, Option.map_none, Option.map_eq_none_iff] at hnode
      rw [hm] at hrel
      rwa [hnode]
    | some n =>
      rw [hm, Option.map_some, Option.map_eq_some_iff] at hnode
      obtain ⟨n₁, hn₁, hbare⟩ := hnode
      rw [hn₁]
      rcases rel_cases hrel with ⟨hn, -⟩ | ⟨n₂, n', hn₂, hl, halike⟩
      · cases hm.symm.trans hn
      · cases hm.symm.trans hn₂
        rw [hl]
        exact .some (alike_of_bare hbare halike)
  · refine (hc.inputs (place ++ r) fun x hx hthere => ?_).trans (h.inputs r)
    rcases List.prefix_or_prefix_of_prefix hx (List.prefix_append place r) with habove | hbelow
    · obtain ⟨more, rfl⟩ := habove
      exact Branch.isSome_node?_of_prefix hp
    · have hnode := congrArg Option.isSome (hc.node x fun hx => hT x hx hbelow)
      rw [Option.isSome_map, Option.isSome_map] at hnode
      exact hnode ▸ hthere
  · rw [hc.futures (fun x => decide (place <+: x)) hbelow]
    exact h.futures
  · rw [hc.ready (fun x => decide (place <+: x)) hbelow]
    exact h.ready

end Machine

end MediaQuery
