import MediaQuery.Proofs.Machine.Standing
import MediaQuery.Proofs.Program.Retimed

/-!
# Machines that agree

Two machines on which nothing runs agree on some pairs of branches (`Agrees`) if the branches of a pair hold the same
and belong to queries that are run with the same but for the durations of hooks. Corresponding operations get the same
replies there, and the machines agree again afterwards (`Agrees.perform`, `Agrees.fork`, `Agrees.openSession`). So two
programs that are the same but for the durations of their sleeps come to related results (`run_retimed`).
-/

namespace MediaQuery

/-- Two nodes that hold the same. -/
structure Node.Same (n n' : Node) : Prop where
  store : n.store = n'.store
  path : n.path = n'.path
  results : n.results = n'.results

theorem Node.Same.symm {n n' : Node} (h : n.Same n') : n'.Same n := ⟨h.store.symm, h.path.symm, h.results.symm⟩

theorem Node.Same.trans {n n' n'' : Node} (h : n.Same n') (h' : n'.Same n'') : n.Same n'' :=
  ⟨h.store.trans h'.store, h.path.trans h'.path, h.results.trans h'.results⟩

/-- So do the nodes of their forks. -/
theorem Node.Same.fork {n n' : Node} (h : n.Same n') (options : ForkOptions) :
    (Machine.forkNode n options).Same (Machine.forkNode n' options) := by
  refine ⟨?_, ?_, rfl⟩
  · unfold Machine.forkNode
    rw [h.store]
  · unfold Machine.forkNode
    rw [h.path]

/-- What is read from a store without references to futures is the same whatever has become of futures. -/
theorem Store.get_of_settled {s : Store} (h : s.pending = []) (outcome outcome' : FutureId → Outcome) (key : String) :
    s.get outcome key = s.get outcome' key := by
  unfold Store.get
  cases hfind : s.find? key with
  | none => rfl
  | some e =>
    obtain ⟨generation, slot⟩ := e
    cases slot with
    | ready v => rfl
    | pending id =>
      obtain ⟨v, hv⟩ := Store.pending_eq_nil_iff.1 h _ (Fields.mem_of_lookup hfind)
      cases hv

namespace Machine

/-- Nothing runs on two machines. On the branches of each pair they hold the same, with no reference to a future, and
what is made there has no futures. -/
structure Agrees (K : Pairs) (m m' : Machine) : Prop where
  vacant : m.Vacant
  vacant' : m'.Vacant
  node : ∀ a a', K.met a a' → ∃ n n', m.node? a = some n ∧ m'.node? a' = some n' ∧ n.Same n' ∧ n.store.pending = []
  inputs : ∀ a a', K.met a a' → (m.inputsAt a).Retimed (m'.inputsAt a')
  apart : ∀ a a' c c', K.met a a' → K.met c c' → (a = c ↔ a' = c')
  unused : ∀ a a', K.made a a' → (∀ f ∈ m.futures, f.id.home ≠ a) ∧ ∀ f ∈ m'.futures, f.id.home ≠ a'

variable {K : Pairs} {m m' m₁ m₁' : Machine} {a a' b b' s s' : Route} {n n' : Node} {k k' : Nat} {α β : Type}

/-! ## What has changed -/

/-- What is found on a branch of which all is spared but the number of its children. -/
theorem Spared.same (h : Spared b s k m m₁) (hn : m.node? a = some n) : ∃ n₁, m₁.node? a = some n₁ ∧ n₁.Same n := by
  by_cases hab : a = b
  · subst hab
    obtain ⟨n₁, hn₁, hstore, hpath, hresults, -⟩ := h.trunk_eq hn
    exact ⟨n₁, hn₁, hstore, hpath, hresults⟩
  · have hnode := h.node a hab (hn ▸ rfl)
    rw [hn, Option.map_some, Option.map_eq_some_iff] at hnode
    obtain ⟨n₁, hn₁, hbare⟩ := hnode
    obtain ⟨hstore, hpath, hresults, -⟩ := Node.same_of_bare hbare
    exact ⟨n₁, hn₁, hstore, hpath, hresults⟩

/-- Machines go on agreeing when all is spared on both but the number of children. -/
theorem Agrees.spared (h : Agrees K m m') (hs : Spared b s k m m₁) (hs' : Spared b' s' k' m' m₁') (hv : m₁.Vacant)
    (hv' : m₁'.Vacant) : Agrees K m₁ m₁' where
  vacant := hv
  vacant' := hv'
  node a a' ha := by
    obtain ⟨n, n', hn, hn', hsame, hpending⟩ := h.node a a' ha
    obtain ⟨n₁, hn₁, h₁⟩ := hs.same hn
    obtain ⟨n₁', hn₁', h₁'⟩ := hs'.same hn'
    exact ⟨n₁, n₁', hn₁, hn₁', h₁.trans (hsame.trans h₁'.symm), h₁.store ▸ hpending⟩
  inputs a a' ha := by
    obtain ⟨n, n', hn, hn', -⟩ := h.node a a' ha
    rw [hs.inputs a (hn ▸ rfl), hs'.inputs a' (hn' ▸ rfl)]
    exact h.inputs a a' ha
  apart := h.apart
  unused a a' ha := by
    rw [hs.futures, hs'.futures]
    exact h.unused a a' ha

/-- One more pair, which has just been made. -/
theorem Agrees.insert (h : Agrees K m m') (hs : Spared b s k m m₁) (hs' : Spared b' s' k' m' m₁') (hv : m₁.Vacant)
    (hv' : m₁'.Vacant) (hnew : m.node? a = none) (hnew' : m'.node? a' = none) (hn : m₁.node? a = some n)
    (hn' : m₁'.node? a' = some n') (hsame : n.Same n') (hpending : n.store.pending = [])
    (hinputs : (m₁.inputsAt a).Retimed (m₁'.inputsAt a')) : Agrees (K.insert a a') m₁ m₁' := by
  have hagain := h.spared hs hs' hv hv'
  have hne (c c' : Route) (hc : K.met c c') : c ≠ a ∧ c' ≠ a' := by
    obtain ⟨d, d', hd, hd', -⟩ := h.node c c' hc
    refine ⟨?_, ?_⟩
    · rintro rfl
      cases hd.symm.trans hnew
    · rintro rfl
      cases hd'.symm.trans hnew'
  refine ⟨hv, hv', ?_, ?_, ?_, ?_⟩
  · rintro c c' (hc | ⟨rfl, rfl⟩)
    · exact hagain.node c c' hc
    · exact ⟨n, n', hn, hn', hsame, hpending⟩
  · rintro c c' (hc | ⟨rfl, rfl⟩)
    · exact hagain.inputs c c' hc
    · exact hinputs
  · rintro c c' d d' (hc | ⟨rfl, rfl⟩) (hd | ⟨rfl, rfl⟩)
    · exact h.apart c c' d d' hc hd
    · exact iff_of_false (hne c c' hc).1 (hne c c' hc).2
    · exact iff_of_false (hne d d' hd).1.symm (hne d d' hd).2.symm
    · exact iff_of_true rfl rfl
  · rintro c c' (hc | ⟨rfl, rfl⟩)
    · exact hagain.unused c c' hc
    · rw [hs.futures, hs'.futures]
      refine ⟨fun f hf hhome => ?_, fun f hf hhome => ?_⟩
      · have hthere := h.vacant.homes f hf
        rw [hhome, hnew] at hthere
        cases hthere
      · have hthere := h.vacant'.homes f hf
        rw [hhome, hnew'] at hthere
        cases hthere

/-- The same change on the branches of a pair. -/
theorem Agrees.change (h : Agrees K m m') (ha : K.met a a') {g : Node → Node}
    (hg : ∀ n n', n.Same n' → (g n).Same (g n')) (hp : ∀ n, n.store.pending = [] → (g n).store.pending = [])
    (hnode : ∀ c, m₁.node? c = if c = a then (m.node? c).map g else m.node? c)
    (hnode' : ∀ c, m₁'.node? c = if c = a' then (m'.node? c).map g else m'.node? c)
    (hinputs : ∀ c, m₁.inputsAt c = m.inputsAt c) (hinputs' : ∀ c, m₁'.inputsAt c = m'.inputsAt c)
    (hf : m₁.futures = m.futures) (hf' : m₁'.futures = m'.futures) (hv : m₁.Vacant) (hv' : m₁'.Vacant) :
    Agrees K m₁ m₁' where
  vacant := hv
  vacant' := hv'
  node c c' hc := by
    obtain ⟨n, n', hn, hn', hsame, hpending⟩ := h.node c c' hc
    rw [hnode, hnode', hn, hn']
    by_cases hca : c = a
    · rw [if_pos hca, if_pos ((h.apart c c' a a' hc ha).1 hca)]
      exact ⟨_, _, rfl, rfl, hg n n' hsame, hp n hpending⟩
    · rw [if_neg hca, if_neg (mt (h.apart c c' a a' hc ha).2 hca)]
      exact ⟨_, _, rfl, rfl, hsame, hpending⟩
  inputs c c' hc := by
    rw [hinputs, hinputs']
    exact h.inputs c c' hc
  apart := h.apart
  unused c c' hc := by
    rw [hf, hf']
    exact h.unused c c' hc

/-! ## Operations -/

/-- The branches of a pair have the same store, which holds no reference to a future. -/
theorem Agrees.store_eq (h : Agrees K m m') (hb : K.met b b') :
    m.store b = m'.store b' ∧ (m.store b).pending = [] ∧ (m'.store b').pending = [] := by
  obtain ⟨n, n', hn, hn', hsame, hpending⟩ := h.node b b' hb
  have hstore : m.store b = n.store := store_of_node? hn
  have hstore' : m'.store b' = n.store := (store_of_node? hn').trans hsame.store.symm
  exact ⟨hstore.trans hstore'.symm, hstore ▸ hpending, hstore' ▸ hpending⟩

/-- So the same is read there. -/
theorem Agrees.get_eq (h : Agrees K m m') (hb : K.met b b') (key : String) : m.get b key = m'.get b' key := by
  obtain ⟨hstore, hpending, -⟩ := h.store_eq hb
  unfold Machine.get
  rw [← hstore]
  exact Store.get_of_settled hpending _ _ key

/-- **Corresponding operations get the same reply**, and leave machines that agree. -/
theorem Agrees.perform (h : Agrees K m m') {op : Op β} (hop : op.isPlain = true) (hb : K.met op.branch b') :
    (m.perform [] op).1 = (m'.perform [] (op.moved b')).1 ∧
      Agrees K (m.perform [] op).2 (m'.perform [] (op.moved b')).2 := by
  obtain ⟨n, n', hn, hn', hsame, -⟩ := h.node _ _ hb
  have hstore : m.store op.branch = m'.store b' := (h.store_eq hb).1
  have hv : (m.perform [] op).2.Vacant := h.vacant.rested (h.vacant.rest.perform [] op).1
  have hv' : (m'.perform [] (op.moved b')).2.Vacant := h.vacant'.rested (h.vacant'.rest.perform [] (op.moved b')).1
  cases op with
  | get branch key => exact ⟨h.get_eq hb key, h⟩
  | has branch key => exact ⟨congrArg (Store.has · key) hstore, h⟩
  | getAll branch => exact ⟨congrArg Store.getAll hstore, h⟩
  | set branch key value =>
    refine ⟨rfl, ?_⟩
    have hwrite (n n' : Node) (hs : n.Same n') :
        Node.Same { n with store := n.store.write key (.ready value) }
          { n' with store := n'.store.write key (.ready value) } :=
      ⟨congrArg (Store.write · key (.ready value)) hs.store, hs.path, hs.results⟩
    exact h.change hb hwrite (fun n hp => Store.pending_write hp key value) (fun c => node?_modifyStore m _ c _)
      (fun c => node?_modifyStore m' _ c _) (fun c => inputsAt_modifyStore m _ c _)
      (fun c => inputsAt_modifyStore m' _ c _) rfl rfl hv hv'
  | record branch result =>
    refine ⟨rfl, ?_⟩
    have hrecord (n n' : Node) (hs : n.Same n') :
        Node.Same { n with results := n.results ++ [result] } { n' with results := n'.results ++ [result] } :=
      ⟨hs.store, hs.path, congrArg (· ++ [result]) hs.results⟩
    exact h.change hb hrecord (fun n hp => hp) (fun c => node?_record m _ c _) (fun c => node?_record m' _ c _)
      (fun c => inputsAt_record m _ c _) (fun c => inputsAt_record m' _ c _) rfl rfl hv hv'
  | history branch => exact ⟨(history_of_node? hn).trans (hsame.results.trans (history_of_node? hn').symm), h⟩
  | path branch => exact ⟨(path_of_node? hn).trans (hsame.path.trans (path_of_node? hn').symm), h⟩
  | enter branch path =>
    exact ⟨rfl, h.spared (spared_enter m branch path) (spared_enter m' b' path) hv hv'⟩
  | fork branch options => cases hop
  | log branch => cases hop
  | inputs branch => cases hop
  | openSession branch inputs => cases hop

/-- Corresponding forks make one more pair. -/
theorem Agrees.fork (h : Agrees K m m') (hb : K.met b b') (options : ForkOptions) :
    Agrees (K.insert (b ++ [(m.perform [] (.fork b options)).1]) (b' ++ [(m'.perform [] (.fork b' options)).1]))
      (m.perform [] (.fork b options)).2 (m'.perform [] (.fork b' options)).2 := by
  obtain ⟨n, n', hn, hn', hsame, hpending⟩ := h.node _ _ hb
  have hi : (m.perform [] (.fork b options)).1 = n.degree := addChild_position hn
  have hi' : (m'.perform [] (.fork b' options)).1 = n'.degree := addChild_position hn'
  have hv := h.vacant.rested (h.vacant.rest.perform [] (.fork b options)).1
  have hv' := h.vacant'.rested (h.vacant'.rest.perform [] (.fork b' options)).1
  rw [hi, hi']
  have hnew := node?_fork hn options (b ++ [n.degree])
  have hnew' := node?_fork hn' options (b' ++ [n'.degree])
  rw [if_neg (by simp), if_pos rfl] at hnew hnew'
  refine h.insert (spared_fork hn options []) (spared_fork hn' options []) hv hv' (node?_next hn) (node?_next hn')
    hnew hnew' (hsame.fork options) (pending_forkNode_eq_nil hpending options) ?_
  have hinputs := inputsAt_append_of_none (node?_next hn) []
  have hinputs' := inputsAt_append_of_none (node?_next hn') []
  rw [List.append_nil] at hinputs hinputs'
  have hfork : (m.perform [] (.fork b options)).2.inputsAt (b ++ [n.degree]) = m.inputsAt b :=
    (inputsAt_fork hn options _).trans hinputs
  have hfork' : (m'.perform [] (.fork b' options)).2.inputsAt (b' ++ [n'.degree]) = m'.inputsAt b' :=
    (inputsAt_fork hn' options _).trans hinputs'
  rw [hfork, hfork']
  exact h.inputs b b' hb

/-- So do corresponding queries that are started. -/
theorem Agrees.openSession (h : Agrees K m m') (hb : K.met b b') {inputs inputs' : Inputs}
    (hinputs : inputs.Retimed inputs') :
    Agrees (K.insert (b ++ [(m.perform [] (.openSession b inputs)).1])
        (b' ++ [(m'.perform [] (.openSession b' inputs')).1]))
      (m.perform [] (.openSession b inputs)).2 (m'.perform [] (.openSession b' inputs')).2 := by
  obtain ⟨n, n', hn, hn', -⟩ := h.node _ _ hb
  have hi : (m.perform [] (.openSession b inputs)).1 = n.degree := addChild_position hn
  have hi' : (m'.perform [] (.openSession b' inputs')).1 = n'.degree := addChild_position hn'
  have hv := h.vacant.rested (h.vacant.rest.perform [] (.openSession b inputs)).1
  have hv' := h.vacant'.rested (h.vacant'.rest.perform [] (.openSession b' inputs')).1
  rw [hi, hi']
  have hnew := node?_open hn inputs (b ++ [n.degree])
  have hnew' := node?_open hn' inputs' (b' ++ [n'.degree])
  rw [if_neg (by simp), if_pos rfl] at hnew hnew'
  refine h.insert (spared_open hn inputs []) (spared_open hn' inputs' []) hv hv' (node?_next hn) (node?_next hn')
    hnew hnew' ⟨rfl, rfl, rfl⟩ rfl ?_
  have hopen : (m.perform [] (.openSession b inputs)).2.inputsAt (b ++ [n.degree]) = inputs :=
    (inputsAt_open hn inputs _).trans (if_pos List.prefix_rfl)
  have hopen' : (m'.perform [] (.openSession b' inputs')).2.inputsAt (b' ++ [n'.degree]) = inputs' :=
    (inputsAt_open hn' inputs' _).trans (if_pos List.prefix_rfl)
  rw [hopen, hopen']
  exact hinputs

/-- Time passes on each as it likes. -/
theorem Agrees.tick (h : Agrees K m m') (t t' : Nat) : Agrees K { m with clock := t } { m' with clock := t' } :=
  ⟨⟨⟨h.vacant.rest.ended, h.vacant.rest.idle⟩, h.vacant.homes, h.vacant.root⟩,
    ⟨⟨h.vacant'.rest.ended, h.vacant'.rest.idle⟩, h.vacant'.homes, h.vacant'.root⟩, h.node, h.inputs, h.apart, h.unused⟩

/-- Two machines of their own agree on their first branches. -/
theorem agrees_lone {inputs inputs' : Inputs} (hinputs : inputs.Retimed inputs') (hsame : n.Same n')
    (hpending : n.store.pending = []) (t t' : Nat) : Agrees .own (lone inputs n t) (lone inputs' n' t') where
  vacant := vacant_lone _ _ _
  vacant' := vacant_lone _ _ _
  node := by
    rintro _ _ ⟨rfl, rfl⟩
    exact ⟨_, _, rfl, rfl, ⟨hsame.store, hsame.path, rfl⟩, hpending⟩
  inputs a a' _ := by
    rw [inputsAt_lone, inputsAt_lone]
    exact hinputs
  apart := by
    rintro _ _ _ _ ⟨rfl, rfl⟩ ⟨rfl, rfl⟩
    exact iff_of_true rfl rfl
  unused _ _ _ := ⟨nofun, nofun⟩

/-- Machines agree on branches that hold the same. -/
theorem agrees_found (hv : m.Vacant) (hv' : m'.Vacant) (hn : m.node? b = some n) (hn' : m'.node? b' = some n')
    (hsame : n.Same n') (hpending : n.store.pending = []) (hinputs : (m.inputsAt b).Retimed (m'.inputsAt b')) :
    Agrees (.found b b') m m' where
  vacant := hv
  vacant' := hv'
  node := by
    rintro _ _ ⟨rfl, rfl⟩
    exact ⟨n, n', hn, hn', hsame, hpending⟩
  inputs := by
    rintro _ _ ⟨rfl, rfl⟩
    exact hinputs
  apart := by
    rintro _ _ _ _ ⟨rfl, rfl⟩ ⟨rfl, rfl⟩
    exact iff_of_true rfl rfl
  unused _ _ h := h.elim

/-! ## Runs -/

/-- To wait for a branch on which nothing has been started takes no time. -/
theorem waitFutures_of_unused (hf : ∀ f ∈ m.futures, f.id.home ≠ a) (hp : (m.store a).pending = []) :
    Machine.waitFutures a [] none m = (.inr (.ok ()), m) := by
  have hmarked : m.markAwaited a = m := by
    have hsame : m.futures.map (fun f => if f.id.home = a then { f with awaited := true } else f) = m.futures.map id :=
      List.map_congr_left fun f hmem => if_neg (hf f hmem)
    rw [List.map_id] at hsame
    exact congrArg (fun futures => { m with futures }) hsame
  have hnone : m.unawaited a = [] := by
    unfold unawaited
    rw [List.map_eq_nil_iff, List.filter_eq_nil_iff]
    exact fun f hmem => by simp [hf f hmem]
  unfold Machine.waitFutures
  rw [hmarked, hnone, hp]
  rfl

theorem run_settle (hf : ∀ f ∈ m.futures, f.id.home ≠ a) (hp : (m.store a).pending = [])
    (next : Except EvalError Unit → Prog α) : m.run (.settle a next) = m.run (next (.ok ())) := by
  have hstart : (Prog.settle a next).start [] m = (next (.ok ())).start [] m := by
    rw [Prog.start, List.nil_append, waitFutures_of_unused hf hp]
  unfold run
  rw [hstart]

/-- A value that is there is read at once. -/
theorem run_resolve (hp : (m.store a).pending = []) (key : String) (next : Except ContextError Value → Prog α) :
    m.run (.resolve a key next) = m.run (next (m.get a key)) := by
  have hstart : (Prog.resolve a key next).start [] m = (next (m.get a key)).start [] m := by
    unfold Machine.get Store.get
    rw [Prog.start, List.nil_append]
    cases hfind : (m.store a).find? key with
    | none => rfl
    | some e =>
      obtain ⟨generation, slot⟩ := e
      cases slot with
      | ready v => rfl
      | pending id =>
        obtain ⟨v, hv⟩ := Store.pending_eq_nil_iff.1 hp _ (Fields.mem_of_lookup hfind)
        cases hv
  unfold run
  rw [hstart]

/-- Programs side by side, and what comes after them. -/
theorem all_eq_parallel {size : Nat} (parts : Fin size → Prog (Except ExecutionError β))
    (next : Except ExecutionError (List β) → Prog α) :
    Prog.all parts next = (Prog.parallel (List.ofFn parts)).bind next := by
  have hcount {n : Nat} (hn : n = size) (f : Fin n → Prog (Except ExecutionError β))
      (hf : ∀ i, f i = parts (i.cast hn)) : Prog.all parts next = (Prog.all f .done).bind next := by
    subst hn
    exact congrArg (Prog.all · next) (funext fun i => (hf i).symm)
  exact hcount (List.length_ofFn) _ fun i => by rw [List.get_ofFn]

/-- Both failures are of a kind, whatever their logs and branches. -/
def OfKind (E : ExecutionError → Prop) (e e' : ExecutionError) : Prop := E e.bare ∧ E e'.bare

/-- Two answers, which are equal values or failures of a kind. -/
def SameAnswer (E : ExecutionError → Prop) (x x' : Option (Except ExecutionError β)) : Prop :=
  ∃ r r', x = some r ∧ x' = some r' ∧ SameResult (OfKind E) Eq r r'

section Answers

variable {E : ExecutionError → Prop} {answers answers' : List (Option (Except ExecutionError β))} {values : List β}
  {e : ExecutionError}

theorem SameAnswer.symm {x x' : Option (Except ExecutionError β)} (h : SameAnswer E x x') : SameAnswer E x' x := by
  obtain ⟨r, r', rfl, rfl, hr⟩ := h
  refine ⟨r', r, rfl, rfl, ?_⟩
  cases hr with
  | ok hv => exact .ok hv.symm
  | error he => exact .error he.symm

/-- If some are values only, the others are the same values. -/
theorem values_of_sameAnswers (h : List.Forall₂ (SameAnswer E) answers answers')
    (hvalues : answers = values.map fun v => some (.ok v)) : answers' = values.map fun v => some (.ok v) := by
  induction values generalizing answers answers' with
  | nil =>
    subst hvalues
    cases h with
    | nil => rfl
  | cons v values ih =>
    subst hvalues
    cases h with
    | cons hfirst hrest =>
      obtain ⟨r, r', hr, rfl, hsame⟩ := hfirst
      cases hr
      cases hsame with
      | ok hv => rw [ih hrest rfl, List.map_cons, hv]

/-- If there is a failure among some, it is of the kind, and there is one among the others. -/
theorem failure_of_sameAnswers (h : List.Forall₂ (SameAnswer E) answers answers') (he : some (.error e) ∈ answers) :
    E e.bare ∧ ∃ e', some (.error e') ∈ answers' := by
  induction h with
  | nil => cases he
  | cons hfirst _ ih =>
    rcases List.mem_cons.1 he with heq | he
    · obtain ⟨r, r', rfl, rfl, hsame⟩ := hfirst
      cases heq
      cases hsame with
      | error hkind => exact ⟨hkind.1, _, List.mem_cons_self⟩
    · obtain ⟨hkind, e', he'⟩ := ih he
      exact ⟨hkind, e', List.mem_cons_of_mem _ he'⟩

/-- There is none among values. -/
theorem error_notMem_values : some (.error e) ∉ values.map fun v => some (Except.ok (ε := ExecutionError) v) := by
  intro he
  obtain ⟨v, -, hv⟩ := List.mem_map.1 he
  cases hv

/-- What programs side by side come to is of the kind of what each of them comes to. -/
theorem sameResult_of_comes {r r' : Except ExecutionError (List β)} (h : List.Forall₂ (SameAnswer E) answers answers')
    (hr : Comes b s m k answers r m₁) (hr' : Comes b' s' m' k' answers' r' m₁') : SameResult (OfKind E) Eq r r' := by
  cases hr with
  | succeeded hvalues _ =>
    have hvalues' := values_of_sameAnswers h hvalues
    cases hr' with
    | @succeeded values' _ hown _ =>
      have heq := hown.symm.trans hvalues'
      refine .ok (List.map_injective_iff.2 (fun v v' hv => ?_) heq).symm
      cases hv
      rfl
    | failed he _ _ =>
      rw [hvalues'] at he
      exact absurd he error_notMem_values
  | failed he hbare _ =>
    obtain ⟨hkind, -⟩ := failure_of_sameAnswers h he
    have hother := h.flip.imp fun _ _ hx => SameAnswer.symm hx
    cases hr' with
    | succeeded hvalues _ =>
      rw [values_of_sameAnswers hother hvalues] at he
      exact absurd he error_notMem_values
    | failed he' hbare' _ =>
      obtain ⟨hkind', -⟩ := failure_of_sameAnswers hother he'
      exact .error ⟨(congrArg E hbare).mpr hkind, (congrArg E hbare').mpr hkind'⟩

end Answers

/-- Both runs end with related results, on machines that agree. -/
def Meet (K : Pairs) (R : Pairs → α → α → Prop) (x x' : Option α × Machine) : Prop :=
  ∃ L a a' m₁ m₁', K.Le L ∧ x = (some a, m₁) ∧ x' = (some a', m₁') ∧ R L a a' ∧ Agrees L m₁ m₁'

theorem Meet.of_le {L : Pairs} {R : Pairs → α → α → Prop} {x x' : Option α × Machine} (h : Meet L R x x')
    (hL : K.Le L) : Meet K R x x' := by
  obtain ⟨M, a, a', m₁, m₁', hM, hrest⟩ := h
  exact ⟨M, a, a', m₁, m₁', hL.trans hM, hrest⟩

/-- What tenants come to on machines of their own. -/
theorem sameAnswers_of_meet {tenants tenants' : List (Tenant β)} {E : ExecutionError → Prop}
    (hoptions : tenants.map Tenant.options? = tenants'.map Tenant.options?)
    (h : ∀ (i : Fin tenants.length) (j : Fin tenants'.length), i.val = j.val → ∀ m m', Agrees .own m m' →
      Meet .own (fun _ => SameResult (OfKind E) Eq) (m.run (tenants.get i).program) (m'.run (tenants'.get j).program))
    {inputs inputs' : Inputs} (hinputs : inputs.Retimed inputs') (hsame : n.Same n') (hpending : n.store.pending = [])
    (t t' : Nat) :
    List.Forall₂ (SameAnswer E) (tenants.map (Tenant.answer? inputs n t))
      (tenants'.map (Tenant.answer? inputs' n' t')) := by
  have hlength : tenants.length = tenants'.length := by simpa using congrArg List.length hoptions
  rw [List.forall₂_map_left_iff, List.forall₂_map_right_iff, List.forall₂_iff_get]
  refine ⟨hlength, fun i hi hi' => ?_⟩
  have hoption : (tenants.get ⟨i, hi⟩).options? = (tenants'.get ⟨i, hi'⟩).options? := by
    have hget := congrArg (fun l => l[i]?) hoptions
    simpa [hi, hi'] using hget
  have hhomes : Agrees .own ((tenants.get ⟨i, hi⟩).home inputs n t) ((tenants'.get ⟨i, hi'⟩).home inputs' n' t') := by
    unfold Tenant.home
    rw [← hoption]
    exact agrees_lone hinputs (hsame.fork _) (pending_forkNode_eq_nil hpending _) t t'
  obtain ⟨L, r, r', m₁, m₁', -, hrun, hrun', hr, -⟩ := h ⟨i, hi⟩ ⟨i, hi'⟩ rfl _ _ hhomes
  exact ⟨r, r', congrArg Prod.fst hrun, congrArg Prod.fst hrun', hr⟩

/-- **Programs side by side come to the same on machines that agree**: all of them to their values, or on each machine
one of them fails. -/
theorem Agrees.parallel {parts parts' : List (Prog (Except ExecutionError β))} {tenants tenants' : List (Tenant β)}
    {E : ExecutionError → Prop} (h : Agrees K m m') (hb : K.met b b')
    (hlodged : List.Forall₂ (Lodged b) tenants parts) (hlodged' : List.Forall₂ (Lodged b') tenants' parts')
    (hparts : ∀ p ∈ parts, p.Calm) (hparts' : ∀ p ∈ parts', p.Calm)
    (hcalm : ∀ tenant ∈ tenants, tenant.program.Calm) (hcalm' : ∀ tenant ∈ tenants', tenant.program.Calm)
    (hanswers : ∀ n n', n.Same n' → n.store.pending = [] → List.Forall₂ (SameAnswer E)
      (tenants.map (Tenant.answer? (m.inputsAt b) n m.clock))
      (tenants'.map (Tenant.answer? (m'.inputsAt b') n' m'.clock))) :
    ∃ r r' m₁ m₁', m.run (Prog.parallel parts) = (some r, m₁) ∧ m'.run (Prog.parallel parts') = (some r', m₁') ∧
      SameResult (OfKind E) Eq r r' ∧ Agrees K m₁ m₁' := by
  obtain ⟨n, n', hn, hn', hsame, hpending⟩ := h.node b b' hb
  obtain ⟨r, m₁, hrun, -, hcomes⟩ := run_parallel h.vacant hn hpending hlodged hparts hcalm
  obtain ⟨r', m₁', hrun', -, hcomes'⟩ := run_parallel h.vacant' hn' (hsame.store ▸ hpending) hlodged' hparts' hcalm'
  have hvacant : m₁.Vacant := h.vacant.rested (rested_of_run (Prog.calm_parallel hparts) h.vacant.rest hrun)
  have hvacant' : m₁'.Vacant := h.vacant'.rested (rested_of_run (Prog.calm_parallel hparts') h.vacant'.rest hrun')
  obtain ⟨_, hs⟩ := hcomes.spared
  obtain ⟨_, hs'⟩ := hcomes'.spared
  exact ⟨r, r', m₁, m₁', hrun, hrun', sameResult_of_comes (hanswers n n' hsame hpending) hcomes hcomes',
    h.spared hs hs' hvacant hvacant'⟩

/-- **Two programs that are the same but for the durations of their sleeps come to related results** on machines that
agree, and these agree afterwards. -/
theorem run_retimed {base base' : Route} {R : Pairs → α → α → Prop} {p p' : Prog α}
    (h : Prog.Retimed K base base' R p p') (hbase : base = []) (hbase' : base' = []) (hp : p.Calm) (hp' : p'.Calm)
    (hm : Agrees K m m') : Meet K R (m.run p) (m'.run p') := by
  induction h generalizing m m' with
  | @done K base base' α R a a' hr => exact ⟨K, a, a', m, m', .refl K, run_done a m, run_done a' m', hr, hm⟩
  | @act K base base' b' α β R op f f' hop hb h ih =>
    subst hbase hbase'
    rw [List.nil_append, List.nil_append] at hb
    obtain ⟨hreply, hagree⟩ := hm.perform hop hb
    have hnext := ih (m.perform [] op).1 rfl rfl (hp _) (hp' _) hagree
    rw [show m'.run (.act (op.moved b') f') =
      (m'.perform [] (op.moved b')).2.run (f' (m'.perform [] (op.moved b')).1) from rfl, ← hreply]
    exact hnext
  | @fork K base base' b b' α R options f f' hb h ih =>
    subst hbase hbase'
    exact (ih _ _ rfl rfl (hp _) (hp' _) (hm.fork hb options)).of_le (Pairs.le_insert ..)
  | @log K base base' b b' α R f f' h ih => exact ih _ _ hbase hbase' (hp _) (hp' _) hm
  | @inputs K base base' b b' α R f f' hb h ih =>
    subst hbase hbase'
    exact ih (m.inputsAt b) (m'.inputsAt b') (hm.inputs b b' hb) rfl rfl (hp _) (hp' _) hm
  | @openSession K base base' b b' α R inputs inputs' f f' hb hinputs h ih =>
    subst hbase hbase'
    exact (ih _ _ rfl rfl (hp _) (hp' _) (hm.openSession hb hinputs)).of_le (Pairs.le_insert ..)
  | @sleep K base base' α R ms ms' p p' h ih =>
    have hcalm : p.Calm := hp
    have hcalm' : p'.Calm := hp'
    rw [run_sleep hm.vacant.rest ms hcalm, run_sleep hm.vacant'.rest ms' hcalm']
    exact ih hbase hbase' hcalm hcalm' (hm.tick _ _)
  | @resolve K base base' b b' α R key f f' hb h ih =>
    subst hbase hbase'
    rw [List.nil_append, List.nil_append] at hb
    obtain ⟨-, hpending, hpending'⟩ := hm.store_eq hb
    rw [run_resolve hpending, run_resolve hpending', ← hm.get_eq hb key]
    exact ih _ rfl rfl (hp _) (hp' _) hm
  | @settle K base base' b b' α R f f' hb h ih =>
    subst hbase hbase'
    rw [List.nil_append, List.nil_append] at hb
    obtain ⟨-, hpending, hpending'⟩ := hm.store_eq (K.met_of_made _ _ hb)
    obtain ⟨hunused, hunused'⟩ := hm.unused b b' hb
    rw [run_settle hunused hpending, run_settle hunused' hpending']
    exact ih _ rfl rfl (hp _) (hp' _) hm
  | @all K base base' b b' α β size size' R E parts parts' f f' tenants tenants' hb hlodged hlodged' hcalm hcalm'
      hoptions htenants herror hok ihtenants iherror ihok =>
    subst hbase hbase'
    have hparts : ∀ p ∈ List.ofFn parts, p.Calm := List.forall_mem_ofFn_iff.2 hp.1
    have hparts' : ∀ p ∈ List.ofFn parts', p.Calm := List.forall_mem_ofFn_iff.2 hp'.1
    obtain ⟨r, r', m₁, m₁', hrun, hrun', hr, hagree⟩ := hm.parallel hb hlodged hlodged' hparts hparts' hcalm hcalm'
      fun n n' hsame hpending => sameAnswers_of_meet hoptions (fun i j hij m m' hown =>
        ihtenants i j hij rfl rfl (hcalm _ (List.get_mem ..)) (hcalm' _ (List.get_mem ..)) hown)
        (hm.inputs b b' hb) hsame hpending _ _
    rw [all_eq_parallel, all_eq_parallel, run_bind, run_bind, hrun, hrun']
    cases hr with
    | ok hvalues => exact hvalues ▸ ihok _ rfl rfl (hp.2 _) (hp'.2 _) hagree
    | error he => exact iherror _ _ he.1 he.2 rfl rfl (hp.2 _) (hp'.2 _) hagree

end Machine

end MediaQuery
