import MediaQuery.Proofs.Machine.Alike
import MediaQuery.Proofs.Machine.Session

/-!
# A machine inside another

A machine may be found again below a branch of another one (`Mirrors`): what is below that place is what the smaller
machine is made of, but for the sessions and the names of futures, and the queue of the larger machine passes
through the futures of the smaller one in the same order. Every operation keeps this if it is carried out on both
(`mirrors_perform`, `mirrors_spawn`, `mirrors_complete` and so on).
-/

namespace MediaQuery

/-- Nodes of which programs see the same, the first of which is further down. Sessions are left out, since a branch
may have its session from further up. -/
structure Node.Alike (place : Route) (n n' : Node) : Prop where
  store : n.store = n'.store.shift place
  path : n.path = n'.path
  results : n.results = n'.results
  degree : n.degree = n'.degree

namespace Machine

/-- Below the place the first machine is as the second is. -/
structure Mirrors (place : Route) (m l : Machine) : Prop where
  node : ∀ r, Option.Rel (Node.Alike place) (m.node? (place ++ r)) (l.node? r)
  inputs : ∀ r, m.inputsAt (place ++ r) = l.inputsAt r
  futures : List.Forall₂ (Future.Alike place) (m.futures.filter fun f => place <+: f.id.home) l.futures
  ready : (m.ready.filter fun id => place <+: id.home) = l.ready.map (FutureId.shift place)
  clock : m.clock = l.clock

variable {place a : Route} {m l m' l' : Machine}

/-! ## Looking -/

theorem Mirrors.isSome_node? (h : Mirrors place m l) (r : Route) :
    (m.node? (place ++ r)).isSome = (l.node? r).isSome := rel_isSome (h.node r)

theorem Mirrors.store (h : Mirrors place m l) (r : Route) : m.store (place ++ r) = (l.store r).shift place := by
  rw [store_eq, store_eq]
  rcases rel_cases (h.node r) with ⟨hm, hl⟩ | ⟨n, n', hm, hl, hn⟩
  · rw [hm, hl]
    rfl
  · rw [hm, hl]
    exact hn.store

theorem Mirrors.path (h : Mirrors place m l) (r : Route) : m.path (place ++ r) = l.path r := by
  have path_eq (m : Machine) (a : Route) : m.path a = ((m.node? a).map Node.path).getD .root := by
    unfold Machine.path branch? node? Branch.node?
    cases m.tree.at? a <;> rfl
  rw [path_eq, path_eq, rel_map_eq (h.node r) fun _ _ hn => hn.path]

theorem Mirrors.history (h : Mirrors place m l) (r : Route) : m.history (place ++ r) = l.history r := by
  have history_eq (m : Machine) (a : Route) : m.history a = ((m.node? a).map Node.results).getD [] := by
    unfold Machine.history branch? node? Branch.node?
    cases m.tree.at? a <;> rfl
  rw [history_eq, history_eq, rel_map_eq (h.node r) fun _ _ hn => hn.results]

theorem isPrefix_shift (id : FutureId) : place <+: (id.shift place).home := List.prefix_append _ _

/-- A future below the place is found where only those are left. -/
theorem find?_below {futures : List Future} {id : FutureId} (hid : place <+: id.home) :
    (futures.filter fun f => place <+: f.id.home).find? (·.id = id) = futures.find? (·.id = id) := by
  induction futures with
  | nil => rfl
  | cons f rest ih =>
    by_cases hf : f.id = id
    · rw [List.filter_cons_of_pos (by simpa [hf] using hid)]
      simp [hf]
    · rw [List.find?_cons_of_neg (by simpa using hf), ← ih]
      by_cases hp : place <+: f.id.home
      · rw [List.filter_cons_of_pos (by simpa using hp), List.find?_cons_of_neg (by simpa using hf)]
      · rw [List.filter_cons_of_neg (by simpa using hp)]

/-- A future of the smaller machine is found in the larger one. -/
theorem Mirrors.future? (h : Mirrors place m l) (id : FutureId) :
    Option.Rel (Future.Alike place) (m.future? (id.shift place)) (l.future? id) := by
  have hfutures := h.futures
  unfold Machine.future?
  rw [← find?_below (isPrefix_shift id)]
  generalize (m.futures.filter fun f => place <+: f.id.home) = below, l.futures = futures at hfutures ⊢
  induction hfutures with
  | nil => exact .none
  | @cons f f' rest rest' hf _ ih =>
    by_cases hid : f'.id = id
    · have hid' : f.id = id.shift place := by rw [hf.id, hid]
      simpa [hid, hid'] using Option.Rel.some hf
    · have hid' : f.id ≠ id.shift place := by rwa [hf.id, Ne, FutureId.shift_inj]
      simpa [hid, hid'] using ih

/-- Futures that are alike have had the same outcome. -/
theorem outcome_of_alike {f f' : Future} (h : f.Alike place f') : f.outcome = f'.outcome := by
  unfold Future.outcome
  generalize hs : f.state = state, hs' : f'.state = state'
  have hstate : state.Alike place state' := hs ▸ hs' ▸ h.state
  cases hstate with
  | running _ => rfl
  | busy => rfl
  | ended hresult _ =>
    cases hresult with
    | ok h => exact congrArg Outcome.resolved h
    | error _ => rfl

theorem Mirrors.outcome (h : Mirrors place m l) (id : FutureId) :
    m.outcome (id.shift place) = l.outcome id := by
  unfold Machine.outcome
  rw [rel_map_eq (h.future? id) fun _ _ hf => outcome_of_alike hf]

/-- And they have the same report. -/
theorem Mirrors.report (h : Mirrors place m l) (id : FutureId) :
    Option.Rel (SameResult (EvalError.Like []) Eq) ((m.future? (id.shift place)).bind Future.report?)
      ((l.future? id).bind Future.report?) := by
  rcases rel_cases (h.future? id) with ⟨hm, hl⟩ | ⟨f, f', hm, hl, hf⟩
  · rw [hm, hl]
    exact .none
  · rw [hm, hl, Option.bind_some, Option.bind_some]
    unfold Future.report?
    generalize hs : f.state = state, hs' : f'.state = state'
    have hstate : state.Alike place state' := hs ▸ hs' ▸ hf.state
    cases hstate with
    | running _ => exact .none
    | busy => exact .none
    | ended _ hreport => exact .some hreport

theorem Mirrors.nextFuture (h : Mirrors place m l) (r : Route) :
    m.nextFuture (place ++ r) = (l.nextFuture r).shift place := by
  unfold Machine.nextFuture
  rw [h.store, Store.generation_shift]
  rfl

theorem Mirrors.get (h : Mirrors place m l) (r : Route) (key : String) : m.get (place ++ r) key = l.get r key := by
  unfold Machine.get
  rw [h.store, Store.get_shift]
  exact congrArg (Store.get _ · key) (funext h.outcome)

/-! ## Changes -/

/-- What leaves futures, queue and clock alone. -/
theorem Mirrors.quiet (h : Mirrors place m l)
    (hnode : ∀ r, Option.Rel (Node.Alike place) (m'.node? (place ++ r)) (l'.node? r))
    (hinputs : ∀ r, m'.inputsAt (place ++ r) = l'.inputsAt r) (hf : m'.futures = m.futures) (hr : m'.ready = m.ready)
    (hc : m'.clock = m.clock) (hf' : l'.futures = l.futures) (hr' : l'.ready = l.ready) (hc' : l'.clock = l.clock) :
    Mirrors place m' l' :=
  ⟨hnode, hinputs, by rw [hf, hf']; exact h.futures, by rw [hr, hr']; exact h.ready, by rw [hc, hc']; exact h.clock⟩

/-- The same change in place of a branch and of its image. -/
theorem Mirrors.change (h : Mirrors place m l) {g g' : Node → Node} {r : Route}
    (hm : ∀ p, m'.node? p = if p = place ++ r then (m.node? p).map g else m.node? p)
    (hl : ∀ p, l'.node? p = if p = r then (l.node? p).map g' else l.node? p)
    (hg : ∀ n n', n.Alike place n' → (g n).Alike place (g' n')) (q : Route) :
    Option.Rel (Node.Alike place) (m'.node? (place ++ q)) (l'.node? q) := by
  rw [hm, hl]
  by_cases hq : q = r
  · rw [if_pos (by rw [hq]), if_pos hq]
    rcases rel_cases (h.node q) with ⟨hm, hl⟩ | ⟨n, n', hm, hl, hn⟩
    · rw [hm, hl]
      exact .none
    · rw [hm, hl]
      exact .some (hg _ _ hn)
  · rw [if_neg (by simpa using hq), if_neg hq]
    exact h.node q

/-- A change of the values of a branch and of its image. -/
theorem mirrors_modifyStore (h : Mirrors place m l) (r : Route) (f f' : Store → Store)
    (hf : ∀ s, f (s.shift place) = (f' s).shift place) :
    Mirrors place (m.modifyStore (place ++ r) f) (l.modifyStore r f') := by
  refine h.quiet (h.change (node?_modifyStore m _ · f) (node?_modifyStore l _ · f') fun n n' hn => ?_) (fun q => ?_)
    rfl rfl rfl rfl rfl rfl
  · exact ⟨by rw [hn.store, hf], hn.path, hn.results, hn.degree⟩
  · rw [inputsAt_modifyStore, inputsAt_modifyStore, h.inputs]

/-- What a branch or its image holds is not changed by an entry of the log. -/
theorem mirrors_enter (h : Mirrors place m l) (r : Route) (path : Path) :
    Mirrors place (m.enter (place ++ r) path) (l.enter r path) := by
  refine h.quiet (fun q => ?_) (fun q => ?_) rfl rfl rfl rfl rfl rfl
  · rw [node?_enter, node?_enter]
    rcases rel_cases (h.node q) with ⟨hm, hl⟩ | ⟨n, n', hm, hl, hn⟩
    · rw [hm, hl]
      split <;> split <;> exact .none
    · rw [hm, hl]
      split <;> split <;> exact .some ⟨hn.store, hn.path, hn.results, hn.degree⟩
  · rw [inputsAt_enter, inputsAt_enter, h.inputs]

theorem mirrors_record (h : Mirrors place m l) (r : Route) (result : Option Value) :
    Mirrors place (m.modify (place ++ r) fun b => { b with results := b.results ++ [result] })
      (l.modify r fun b => { b with results := b.results ++ [result] }) := by
  refine h.quiet (h.change (node?_record m _ · result) (node?_record l _ · result) fun n n' hn => ?_) (fun q => ?_)
    rfl rfl rfl rfl rfl rfl
  · exact ⟨hn.store, hn.path, congrArg (· ++ [result]) hn.results, hn.degree⟩
  · rw [inputsAt_record, inputsAt_record, h.inputs]

/-- A new child of a branch and of its image. -/
theorem Mirrors.newChild (h : Mirrors place m l) {r : Route} {n n' child child' : Node} (hn : n.Alike place n')
    (hm : ∀ p, m'.node? p = if p = place ++ r then some { n with degree := n.degree + 1 }
      else if p = place ++ r ++ [n.degree] then some child else m.node? p)
    (hl : ∀ p, l'.node? p = if p = r then some { n' with degree := n'.degree + 1 }
      else if p = r ++ [n'.degree] then some child' else l.node? p)
    (hchild : child.Alike place child') (q : Route) :
    Option.Rel (Node.Alike place) (m'.node? (place ++ q)) (l'.node? q) := by
  rw [hm, hl, hn.degree, List.append_assoc]
  simp only [List.append_cancel_left_eq]
  split
  · exact .some ⟨hn.store, hn.path, hn.results, rfl⟩
  · split
    · exact .some hchild
    · exact h.node q

/-- A new child of a branch and of its image, if these are there. -/
theorem mirrors_addChild (h : Mirrors place m l) (r : Route) (child : Branch → Branch)
    (hsome : ∀ n n', m.node? (place ++ r) = some n → l.node? r = some n' → n.Alike place n' →
      Mirrors place (m.addChild (place ++ r) child).2 (l.addChild r child).2) :
    (m.addChild (place ++ r) child).1 = (l.addChild r child).1 ∧
      Mirrors place (m.addChild (place ++ r) child).2 (l.addChild r child).2 := by
  rcases rel_cases (h.node r) with ⟨hm, hl⟩ | ⟨n, n', hm, hl, hn⟩
  · have position_of_none {m : Machine} {a : Route} (hm : m.node? a = none) : (m.addChild a child).1 = 0 := by
      have hbranch : m.branch? a = none := by
        rw [← Option.not_isSome_iff_eq_none, isSome_branch?, hm]
        simp
      unfold addChild
      rw [hbranch]
      rfl
    rw [addChild_of_none hm, addChild_of_none hl, position_of_none hm, position_of_none hl]
    exact ⟨rfl, h⟩
  · exact ⟨by rw [addChild_position hm, addChild_position hl, hn.degree], hsome n n' hm hl hn⟩

theorem mirrors_fork (h : Mirrors place m l) (r : Route) (options : ForkOptions) :
    (m.addChild (place ++ r) fun b => b.forkOf options).1 = (l.addChild r fun b => b.forkOf options).1 ∧
      Mirrors place (m.addChild (place ++ r) fun b => b.forkOf options).2
        (l.addChild r fun b => b.forkOf options).2 := by
  refine mirrors_addChild h r _ fun n n' hm hl hn => ?_
  refine h.quiet (h.newChild hn (node?_fork hm options) (node?_fork hl options) ?_) (fun q => ?_)
    rfl rfl rfl rfl rfl rfl
  · refine ⟨?_, by simp only [forkNode, hn.path], rfl, rfl⟩
    unfold forkNode
    cases options.data with
    | some values => exact (Store.ofValues_shift place values).symm
    | none => exact hn.store
  · rw [inputsAt_fork hm, inputsAt_fork hl, h.inputs]

theorem mirrors_open (h : Mirrors place m l) (r : Route) (inputs : Inputs) :
    (m.addChild (place ++ r) fun _ => .root inputs).1 = (l.addChild r fun _ => .root inputs).1 ∧
      Mirrors place (m.addChild (place ++ r) fun _ => .root inputs).2 (l.addChild r fun _ => .root inputs).2 := by
  refine mirrors_addChild h r _ fun n n' hm hl hn => ?_
  refine h.quiet (h.newChild hn (node?_open hm inputs) (node?_open hl inputs) ⟨rfl, rfl, rfl, rfl⟩) (fun q => ?_)
    rfl rfl rfl rfl rfl rfl
  rw [inputsAt_open hm, inputsAt_open hl, h.inputs, hn.degree, List.append_assoc]
  simp only [List.prefix_append_right_inj]

/-- **Operations keep the image**, and have the same replies there. -/
theorem mirrors_perform (h : Mirrors place m l) {α : Type} {op : Op α} (hop : op.readsLog = false) (base : Route) :
    (m.perform (place ++ base) op).1 = (l.perform base op).1 ∧
      Mirrors place (m.perform (place ++ base) op).2 (l.perform base op).2 := by
  cases op with
  | log branch => cases hop
  | get branch key =>
    simp only [perform, List.append_assoc]
    exact ⟨h.get _ key, h⟩
  | has branch key =>
    simp only [perform, List.append_assoc, h.store, Store.has_shift, true_and]
    exact h
  | getAll branch =>
    simp only [perform, List.append_assoc, h.store, Store.getAll_shift, true_and]
    exact h
  | set branch key value =>
    simp only [perform, List.append_assoc, true_and]
    exact mirrors_modifyStore h _ _ _ fun s => s.write_shift place key (.ready value)
  | record branch result =>
    simp only [perform, List.append_assoc, true_and]
    exact mirrors_record h _ result
  | history branch =>
    simp only [perform, List.append_assoc]
    exact ⟨h.history _, h⟩
  | fork branch options =>
    simp only [perform, List.append_assoc]
    exact mirrors_fork h _ options
  | path branch =>
    simp only [perform, List.append_assoc]
    exact ⟨h.path _, h⟩
  | enter branch path =>
    simp only [perform, List.append_assoc, true_and]
    exact mirrors_enter h _ path
  | inputs branch =>
    simp only [perform, List.append_assoc]
    exact ⟨h.inputs _, h⟩
  | openSession branch inputs =>
    simp only [perform, List.append_assoc]
    exact mirrors_open h _ inputs

end Machine

end MediaQuery
