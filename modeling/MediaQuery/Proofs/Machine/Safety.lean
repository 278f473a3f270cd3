import MediaQuery.Proofs.Machine.Future
import MediaQuery.Proofs.Machine.Turns
import MediaQuery.Proofs.Program.Safe

/-!
# Safe programs on a machine

Where every future that runs is safe (`Secure`), a safe program does not only come to an end as asked for: whatever it
does and whatever the futures do meanwhile, the machine evolves and its futures stay safe. This is shown for starting a
program (`keeps_start`), for taking one on (`keeps_resume`) and for turns, so that it holds of whole runs
(`safe_run`).
-/

namespace MediaQuery

variable {permits : Machine → Route → EvalError → Prop}

/-- What futures may report is permitted from then on, and a value may always come too late. -/
structure Permissive (permits : Machine → Route → EvalError → Prop) : Prop where
  lasts : ∀ {m m' : Machine} {a : Route} {e : EvalError}, m.Evolves m' → permits m a e → permits m' a e
  stale : ∀ {m : Machine} {a : Route}, (m.node? a).isSome = true → ∀ key, permits m a (.context (.staleWrite key))

/-- A wait for the values of a branch: for futures of the branch, and a failure that it has met is permitted. -/
def Wait.Safe (permits : Machine → Route → EvalError → Prop) (a : Route) (m : Machine) : Wait → Prop
  | .futures front rest failure =>
    (∀ id ∈ front :: rest, id.home = a) ∧ ∀ e, failure = some e → reports permits a m e
  | .slots _ _ failure => ∀ e, failure = some e → reports permits a m e

/-- A run that comes to an end as asked for. -/
def Run.Safe (permits : Machine → Route → EvalError → Prop) :
    {α : Type} → Run α → Route → Machine → (Machine → α → Prop) → Prop
  | _, .done a, _, m, post => ∀ m', m.Evolves m' → post m' a
  | _, .asleep _ next, base, m, post => next.Safe permits base m post
  | _, .resolving _ _ _ _ next, base, m, post => ∀ m' r, m.Evolves m' → (next r).Safe permits base m' post
  | _, .waiting branch wait next, base, m, post => wait.Safe permits (base ++ branch) m ∧
    ∀ m' r, m.Evolves m' → FailsWith (reports permits (base ++ branch)) m' r → (next r).Safe permits base m' post
  | _, .joined parts next, base, m, post => ∃ kind : Machine → ExecutionError → Prop,
    (∀ i, (parts i).Safe permits base m (FailsWith kind)) ∧
      ∀ m' r, m.Evolves m' → FailsWith kind m' r → (next r).Safe permits base m' post

/-- A future of a branch that reports only what is permitted. -/
def FutureState.Safe (permits : Machine → Route → EvalError → Prop) (home : Route) (m : Machine) : FutureState → Prop
  | .running run => run.Safe permits home m (FailsWith (reports permits home))
  | .busy => True
  | .ended _ report => FailsWith (reports permits home) m report

namespace Machine

variable {α β : Type} {base a : Route} {m m' m'' : Machine} {post : Machine → α → Prop}

/-- A machine whose futures are of branches that are there and are safe. -/
structure Secure (permits : Machine → Route → EvalError → Prop) (m : Machine) : Prop where
  homes : ∀ f ∈ m.futures, (m.node? f.id.home).isSome = true
  safe : ∀ f ∈ m.futures, f.state.Safe permits f.id.home m

theorem secure_start (inputs : Inputs) : (start inputs).Secure permits := ⟨nofun, nofun⟩

section Lasting

variable (hp : Permissive permits)
include hp

theorem reports_mono {e : EvalError} (h : reports permits a m e) (hg : m.Evolves m') : reports permits a m' e :=
  hp.lasts hg h

theorem failsWith_mono {r : Except EvalError α} (h : FailsWith (reports permits a) m r) (hg : m.Evolves m') :
    FailsWith (reports permits a) m' r := by
  cases r with
  | ok a => trivial
  | error e => exact reports_mono hp h hg

theorem safe_wait_mono {wait : Wait} (h : wait.Safe permits a m) (hg : m.Evolves m') : wait.Safe permits a m' := by
  cases wait with
  | futures front rest failure => exact ⟨h.1, fun e he => reports_mono hp (h.2 e he) hg⟩
  | slots slot rest failure => exact fun e he => reports_mono hp (h e he) hg

theorem safe_run_mono {run : Run α} (h : run.Safe permits base m post) (hg : m.Evolves m') :
    run.Safe permits base m' post := by
  induction run with
  | done a => exact fun m'' hg' => h m'' (hg.trans hg')
  | asleep wake next => exact Prog.Safe.mono h hg
  | resolving branch key generation future next => exact fun m'' r hg' => h m'' r (hg.trans hg')
  | waiting branch wait next => exact ⟨safe_wait_mono hp h.1 hg, fun m'' r hg' => h.2 m'' r (hg.trans hg')⟩
  | joined parts next ih =>
    obtain ⟨kind, hparts, hnext⟩ := h
    exact ⟨kind, fun i => ih i (hparts i), fun m'' r hg' => hnext m'' r (hg.trans hg')⟩

theorem safe_state_mono {state : FutureState} (h : state.Safe permits a m) (hg : m.Evolves m') :
    state.Safe permits a m' := by
  cases state with
  | running run => exact safe_run_mono hp h hg
  | busy => trivial
  | ended result report => exact failsWith_mono hp h hg

/-- What a machine does that leaves its futures as they are. -/
theorem Secure.quiet (h : m.Secure permits) (hg : m.Evolves m')
    (hf : ∀ f ∈ m'.futures, ∃ g ∈ m.futures, g.id = f.id ∧ g.state = f.state) : m'.Secure permits := by
  refine ⟨fun f hmem => ?_, fun f hmem => ?_⟩
  · obtain ⟨g, hmem', hid, -⟩ := hf f hmem
    exact hg.isSome (hid ▸ h.homes g hmem')
  · obtain ⟨g, hmem', hid, hstate⟩ := hf f hmem
    exact safe_state_mono hp (hid ▸ hstate ▸ h.safe g hmem') hg

theorem Secure.same (h : m.Secure permits) (hg : m.Evolves m') (hf : m'.futures = m.futures) : m'.Secure permits :=
  h.quiet hp hg fun f hmem => ⟨f, hf ▸ hmem, rfl, rfl⟩

theorem Secure.perform (h : m.Secure permits) (base : Route) (op : Op α) : (m.perform base op).2.Secure permits :=
  h.same hp (evolves_perform m base op) (by cases op <;> rfl)

theorem Secure.modifyStore (h : m.Secure permits) (a : Route) (f : Store → Store) :
    (m.modifyStore a f).Secure permits :=
  h.same hp (evolves_modifyStore m a f) rfl

theorem Secure.spawn (h : m.Secure permits) {key : String} {p : Prog (Except EvalError Value)}
    (hsafe : p.Safe permits a m (FailsWith (reports permits a))) : (m.spawn a key p).Secure permits := by
  have hg := evolves_spawn m a key p
  by_cases ha : (m.branch? a).isSome = true
  · have hf : (m.spawn a key p).futures =
        m.futures ++ [⟨m.nextFuture a, key, false, .running (.asleep m.clock p)⟩] :=
      congrArg Machine.futures (spawn_of_there ha key p)
    refine ⟨fun f hmem => ?_, fun f hmem => ?_⟩
    · rw [hf, List.mem_append, List.mem_singleton] at hmem
      rcases hmem with hmem | rfl
      · exact hg.isSome (h.homes f hmem)
      · exact hg.isSome (isSome_branch? m a ▸ ha)
    · rw [hf, List.mem_append, List.mem_singleton] at hmem
      rcases hmem with hmem | rfl
      · exact safe_state_mono hp (h.safe f hmem) hg
      · exact Prog.Safe.mono hsafe hg
  · rwa [spawn_of_absent ha]

theorem Secure.markAwaited (h : m.Secure permits) (a : Route) : (m.markAwaited a).Secure permits := by
  refine h.quiet hp (.refl m) fun f hmem => ?_
  obtain ⟨g, hmem', rfl⟩ := List.mem_map.1 hmem
  refine ⟨g, hmem', ?_⟩
  split <;> exact ⟨rfl, rfl⟩

theorem Secure.setFuture (h : m.Secure permits) {id : FutureId} {state : FutureState}
    (hs : state.Safe permits id.home m) : (m.setFuture id state).Secure permits := by
  have hmem : ∀ f ∈ (m.setFuture id state).futures,
      f ∈ m.futures ∨ ∃ g ∈ m.futures, g.id = id ∧ f = { g with state } := by
    have hlist : ∀ (futures : List Future), ∀ f ∈ Future.setState id state futures,
        f ∈ futures ∨ ∃ g ∈ futures, g.id = id ∧ f = { g with state } := by
      intro futures
      induction futures with
      | nil => exact nofun
      | cons g rest ih =>
        intro f hf
        unfold Future.setState at hf
        split at hf
        · next hid =>
          rcases List.mem_cons.1 hf with rfl | hf
          · exact .inr ⟨g, List.mem_cons_self, hid, rfl⟩
          · exact .inl (List.mem_cons_of_mem _ hf)
        · rcases List.mem_cons.1 hf with rfl | hf
          · exact .inl List.mem_cons_self
          · rcases ih f hf with hf | ⟨g', hg', hid, rfl⟩
            · exact .inl (List.mem_cons_of_mem _ hf)
            · exact .inr ⟨g', List.mem_cons_of_mem _ hg', hid, rfl⟩
    exact hlist m.futures
  have hg : m.Evolves (m.setFuture id state) := .refl m
  refine ⟨fun f hf => ?_, fun f hf => ?_⟩
  · rcases hmem f hf with hf | ⟨g, hmem', -, rfl⟩
    · exact h.homes f hf
    · exact h.homes g hmem'
  · rcases hmem f hf with hf | ⟨g, hmem', rfl, rfl⟩
    · exact safe_state_mono hp (h.safe f hf) hg
    · exact safe_state_mono hp hs hg

theorem Secure.complete (h : m.Secure permits) {f : Future} (hhome : (m.node? f.id.home).isSome = true)
    {result : Except EvalError Value} (hr : FailsWith (reports permits f.id.home) m result) :
    (m.complete f result).Secure permits := by
  unfold Machine.complete
  cases result with
  | error e => exact h.setFuture hp hr
  | ok v =>
    dsimp only
    cases he : (m.store f.id.home).resolve f.key f.id.generation v with
    | ok store =>
      exact (h.modifyStore hp f.id.home fun _ => store).setFuture hp
        (show (FutureState.ended (.ok v) (.ok ())).Safe permits _ _ from trivial)
    | error e =>
      refine h.setFuture hp (show (FutureState.ended (.ok v) (.error (.context e))).Safe permits _ _ from ?_)
      have hstale : e = .staleWrite f.key := by
        rw [Store.resolve_eq] at he
        split at he
        · cases he
        · exact (Except.error.inj he).symm
      rw [hstale]
      exact hp.stale hhome f.key

/-! ## Waiting -/

omit hp in
/-- A failure met among futures of a branch is one that they may report. -/
theorem reports_collect (h : m.Secure permits) {todo : List FutureId} (hhome : ∀ id ∈ todo, id.home = a)
    {failure : Option EvalError} (hf : ∀ e, failure = some e → reports permits a m e) :
    (∀ id ∈ (m.collect todo failure).1, id.home = a) ∧
      ∀ e, (m.collect todo failure).2 = some e → reports permits a m e := by
  induction todo generalizing failure with
  | nil => exact ⟨nofun, hf⟩
  | cons id rest ih =>
    have hrest : ∀ id ∈ rest, id.home = a := fun id' h' => hhome id' (List.mem_cons_of_mem _ h')
    unfold collect
    split
    · exact ⟨hhome, hf⟩
    · exact ih hrest hf
    · next e he =>
      refine ih hrest fun e' he' => ?_
      cases failure with
      | some e₀ => exact hf e' he'
      | none =>
        cases he'
        obtain ⟨f, hfound, hreport⟩ := Option.bind_eq_some_iff.1 he
        have hsafe := h.safe f (List.mem_of_find?_eq_some hfound)
        obtain rfl := hhome id List.mem_cons_self
        rw [id_of_future? hfound] at hsafe
        unfold Future.report? at hreport
        split at hreport
        · next result report hstate =>
          cases hreport
          rw [hstate] at hsafe
          exact hsafe
        · cases hreport

/-- A wait as far as it goes. -/
def WaitSafe (permits : Machine → Route → EvalError → Prop) (a : Route) (m : Machine)
    (r : (Wait ⊕ Except EvalError Unit) × Machine) : Prop :=
  m.Evolves r.2 ∧ r.2.Secure permits ∧
    match r.1 with
    | .inl wait => wait.Safe permits a r.2
    | .inr result => FailsWith (reports permits a) r.2 result

theorem Secure.waitSlots (h : m.Secure permits) (todo : List PendingSlot) {failure : Option EvalError}
    (hf : ∀ e, failure = some e → reports permits a m e) : WaitSafe permits a m (waitSlots a todo failure m) := by
  have hg := (endured_evolves a).settleSlots m todo
  have hsame : (settleSlots a todo m).2.futures = m.futures := by
    clear hg hf h
    induction todo generalizing m with
    | nil => rfl
    | cons slot rest ih =>
      obtain ⟨key, generation, id⟩ := slot
      unfold settleSlots
      split
      · rfl
      · exact ih
  have hs := h.same hp hg hsame
  unfold Machine.waitSlots
  generalize settleSlots a todo m = x at hg hs
  obtain ⟨_ | ⟨slot, rest⟩, m'⟩ := x
  · refine ⟨hg, hs, ?_⟩
    cases failure with
    | none => trivial
    | some e => exact reports_mono hp (hf e rfl) hg
  · exact ⟨hg, hs, fun e he => reports_mono hp (hf e he) hg⟩

theorem Secure.waitFutures (h : m.Secure permits) {todo : List FutureId} (hhome : ∀ id ∈ todo, id.home = a)
    {failure : Option EvalError} (hf : ∀ e, failure = some e → reports permits a m e) :
    WaitSafe permits a m (waitFutures a todo failure m) := by
  obtain ⟨hhome', hf'⟩ := reports_collect h hhome hf
  unfold Machine.waitFutures
  split
  · next id rest failure' he =>
    rw [he] at hhome' hf'
    exact ⟨.refl m, h, hhome', hf'⟩
  · next failure' he =>
    rw [he] at hf'
    have hm := h.markAwaited hp a
    have hunawaited : ∀ id ∈ m.unawaited a, id.home = a := by
      intro id hid
      obtain ⟨f, hf, rfl⟩ := List.mem_map.1 hid
      have hboth := (List.mem_filter.1 hf).2
      simp only [Bool.and_eq_true, decide_eq_true_eq] at hboth
      exact hboth.1
    obtain ⟨hhome'', hf''⟩ := reports_collect hm hunawaited fun e he => by
      have hsame : m.Evolves (m.markAwaited a) := .refl m
      exact reports_mono hp (hf' e he) hsame
    split
    · next id rest failure'' he' =>
      rw [he'] at hhome'' hf''
      exact ⟨.refl m, hm, hhome'', hf''⟩
    · next failure'' he' =>
      rw [he'] at hf''
      exact hm.waitSlots hp _ hf''

theorem Secure.wait (h : m.Secure permits) {w : Wait} (hw : w.Safe permits a m) :
    WaitSafe permits a m (Machine.wait a w m) := by
  cases w with
  | futures front rest failure => exact h.waitFutures hp hw.1 hw.2
  | slots front rest failure => exact h.waitSlots hp _ hw

end Lasting

/-! ## Programs -/

/-- A run and the machine that it leaves: the machine has evolved and is secure, and the run is safe. -/
structure Keeps (permits : Machine → Route → EvalError → Prop) (base : Route) (m : Machine) (post : Machine → α → Prop)
    (r : Run α × Machine) : Prop where
  evolves : m.Evolves r.2
  secure : r.2.Secure permits
  safe : r.1.Safe permits base r.2 post

theorem Keeps.after {r : Run α × Machine} (h : Keeps permits base m' post r) (hg : m.Evolves m') :
    Keeps permits base m post r := ⟨hg.trans h.evolves, h.secure, h.safe⟩

variable (hp : Permissive permits)
include hp

/-- Safe parts side by side, and then on. -/
theorem keeps_afterSweep {n : Nat} {advance : Fin n → Machine → Run (Except ExecutionError β) × Machine}
    {next : Except ExecutionError (List β) → Prog α} {kind : Machine → ExecutionError → Prop}
    {P : Fin n → Machine → Prop}
    (hmono : ∀ {i m m'}, P i m → m.Evolves m' → P i m')
    (hadvance : ∀ {i m}, m.Secure permits → P i m → Keeps permits base m (FailsWith kind) (advance i m))
    (hnext : ∀ m' r, m.Evolves m' → FailsWith kind m' r → (next r).Safe permits base m' post)
    (hstart : ∀ r {m'}, m'.Secure permits → (next r).Safe permits base m' post →
      Keeps permits base m' post ((next r).start base m'))
    (h : m.Secure permits) (hP : ∀ i, P i m) :
    Keeps permits base m post (afterSweep base next (sweep advance (List.finRange n) m)) := by
  obtain ⟨⟨hg, hs⟩, hsafe⟩ := sweep_keeps (I := fun m => m.Secure permits ∧ ∀ i, P i m)
    (R := fun m m' => m.Evolves m' ∧ m'.Secure permits) (P := fun m run => run.Safe permits base m (FailsWith kind))
    (fun hm => ⟨.refl _, hm.1⟩) (fun hfirst hsecond => ⟨hfirst.1.trans hsecond.1, hsecond.2⟩)
    (fun hm hafter => ⟨hafter.2, fun i => hmono (hm.2 i) hafter.1⟩)
    (fun hafter hsafe => safe_run_mono hp hsafe hafter.1) (List.finRange n)
    (fun i _ m hm => have hi := hadvance hm.1 (hm.2 i); ⟨⟨hi.evolves, hi.secure⟩, hi.safe⟩) ⟨h, hP⟩
  refine afterSweep_cases hsafe (fun e hfailed => ?_) (fun values _ => ?_) fun runs hruns _ => ?_
  · exact (hstart _ hs (hnext _ (.error e) hg (hfailed _ (.refl _)))).after hg
  · exact (hstart _ hs (hnext _ (.ok values) hg trivial)).after hg
  · exact ⟨hg, hs, kind, fun i => hruns _ (List.get_mem runs i), fun m' r hg' => hnext m' r (hg.trans hg')⟩

/-- **Starting a safe program.** -/
theorem keeps_start {p : Prog α} (h : m.Secure permits) (hsafe : p.Safe permits base m post) :
    Keeps permits base m post (p.start base m) := by
  induction p generalizing m with
  | done a => exact ⟨.refl m, h, hsafe⟩
  | act op next ih => exact (ih _ (h.perform hp base op) (hsafe m (.refl m))).after (evolves_perform m base op)
  | sleep ms next ih =>
    unfold Prog.start
    split
    · exact ih h hsafe
    · exact ⟨.refl m, h, hsafe⟩
  | spawn branch key future next _ ih =>
    have hg := evolves_spawn m (base ++ branch) key future
    exact (ih (h.spawn hp hsafe.1) (Prog.Safe.mono hsafe.2 hg)).after hg
  | resolve branch key next ih =>
    unfold Prog.start
    split
    · exact ih _ h (hsafe m _ (.refl m))
    · exact ih _ h (hsafe m _ (.refl m))
    · next generation future _ =>
      have hg (value : Option Value) := evolves_modifyStore m (base ++ branch) (·.settle key generation value)
      split
      · exact ⟨.refl m, h, hsafe⟩
      · exact (ih _ (h.modifyStore hp _ _) (hsafe _ _ (hg _))).after (hg _)
      · exact (ih _ (h.modifyStore hp _ _) (hsafe _ _ (hg _))).after (hg _)
  | settle branch next ih =>
    have hwait : WaitSafe permits (base ++ branch) m (waitFutures (base ++ branch) [] none m) :=
      h.waitFutures hp (fun _ hid => absurd hid List.not_mem_nil) fun e he => by cases he
    unfold Prog.start
    split
    · next wait m₁ he =>
      rw [he] at hwait
      obtain ⟨hg, hs, hw⟩ := hwait
      exact ⟨hg, hs, hw, fun m' r hg' => hsafe m' r (hg.trans hg')⟩
    · next result m₁ he =>
      rw [he] at hwait
      obtain ⟨hg, hs, hr⟩ := hwait
      exact (ih _ hs (hsafe m₁ result hg hr)).after hg
  | all parts next ihparts ih =>
    obtain ⟨kind, hparts, hnext⟩ := hsafe
    rw [start_all]
    exact keeps_afterSweep hp (P := fun i m => (parts i).Safe permits base m (FailsWith kind))
      (fun hsafe hg => Prog.Safe.mono hsafe hg) (fun {i _} hm hi => ihparts i hm hi) hnext
      (fun r _ hm hsafe => ih r hm hsafe) h hparts

/-- **Taking a safe run on.** -/
theorem keeps_resume {run : Run α} (h : m.Secure permits) (hsafe : run.Safe permits base m post) :
    Keeps permits base m post (run.resume base m) := by
  induction run generalizing m with
  | done a => exact ⟨.refl m, h, hsafe⟩
  | asleep wake next =>
    unfold Run.resume
    split
    · exact keeps_start hp h hsafe
    · exact ⟨.refl m, h, hsafe⟩
  | resolving branch key generation future next =>
    have hg (value : Option Value) := evolves_modifyStore m (base ++ branch) (·.settle key generation value)
    unfold Run.resume
    split
    · exact ⟨.refl m, h, hsafe⟩
    · exact (keeps_start hp (h.modifyStore hp _ _) (hsafe _ _ (hg _))).after (hg _)
    · exact (keeps_start hp (h.modifyStore hp _ _) (hsafe _ _ (hg _))).after (hg _)
  | waiting branch wait next =>
    have hwait := h.wait hp hsafe.1
    unfold Run.resume
    split
    · next wait' m₁ he =>
      rw [he] at hwait
      obtain ⟨hg, hs, hw⟩ := hwait
      exact ⟨hg, hs, hw, fun m' r hg' => hsafe.2 m' r (hg.trans hg')⟩
    · next result m₁ he =>
      rw [he] at hwait
      obtain ⟨hg, hs, hr⟩ := hwait
      exact (keeps_start hp hs (hsafe.2 m₁ result hg hr)).after hg
  | joined parts next ihparts =>
    obtain ⟨kind, hparts, hnext⟩ := hsafe
    rw [resume_joined]
    exact keeps_afterSweep hp (P := fun i m => (parts i).Safe permits base m (FailsWith kind))
      (fun hsafe hg => safe_run_mono hp hsafe hg) (fun {i _} hm hi => ihparts i hm hi) hnext
      (fun _ _ hm hsafe => keeps_start hp hm hsafe) h hparts

/-! ## Turns -/

theorem Secure.keep (h : m.Secure permits) {f : Future} (hhome : (m.node? f.id.home).isSome = true)
    {run : Run (Except EvalError Value)}
    (hsafe : run.Safe permits f.id.home m (FailsWith (reports permits f.id.home))) :
    m.Evolves (m.keep f run) ∧ (m.keep f run).Secure permits := by
  cases run with
  | done result => exact ⟨evolves_complete m f result, h.complete hp hhome (hsafe m (.refl m))⟩
  | asleep wake next => exact ⟨.refl m, h.setFuture hp hsafe⟩
  | resolving branch key generation future next => exact ⟨.refl m, h.setFuture hp hsafe⟩
  | waiting branch wait next => exact ⟨.refl m, h.setFuture hp hsafe⟩
  | joined parts next => exact ⟨.refl m, h.setFuture hp hsafe⟩

theorem Secure.runFuture (h : m.Secure permits) {id : FutureId} {f : Future} (hf : m.future? id = some f)
    (hm : m.runFuture f = some m') : m.Evolves m' ∧ m'.Secure permits := by
  have hmem : f ∈ m.futures := List.mem_of_find?_eq_some hf
  have hstate := h.safe f hmem
  unfold Machine.runFuture at hm
  split at hm
  · next run hrun =>
    rw [hrun] at hstate
    dsimp only at hm
    split at hm
    · obtain rfl := Option.some.inj hm
      have hbusy : (m.setFuture f.id .busy).Secure permits :=
        h.setFuture hp (show FutureState.busy.Safe permits _ _ from trivial)
      have hk := keeps_resume hp hbusy (safe_run_mono hp hstate (.refl m))
      obtain ⟨hg, hs⟩ := hk.secure.keep hp (hk.evolves.isSome (h.homes f hmem)) hk.safe
      exact ⟨hk.evolves.trans hg, hs.same hp (.refl _) rfl⟩
    · cases hm
  · cases hm

/-- A safe main program on a secure machine. -/
structure Safely (permits : Machine → Route → EvalError → Prop) (post : Machine → α → Prop) (run : Run α)
    (m : Machine) : Prop where
  secure : m.Secure permits
  safe : run.Safe permits [] m post

/-- **Every step of a turn keeps it safe.** -/
theorem maintained_safely (post : Machine → α → Prop) : Maintained (Safely permits post) Evolves where
  refl _ := .refl _
  trans := .trans
  idle h _ _ := ⟨.refl _, h.secure.same hp (.refl _) rfl, safe_run_mono hp h.safe (.refl _)⟩
  resume h := by
    have hkeeps := keeps_resume hp h.secure h.safe
    exact ⟨hkeeps.evolves, hkeeps.secure, hkeeps.safe⟩
  future h hf hm := by
    obtain ⟨hevolves, hsecure⟩ := h.secure.runFuture hp hf hm
    exact ⟨hevolves, hsecure, safe_run_mono hp h.safe hevolves⟩

/-- What is left of a run that has been driven on: a secure machine that has evolved and, if there is a result, one as
asked for. -/
structure Ends (permits : Machine → Route → EvalError → Prop) (m : Machine) (post : Machine → α → Prop)
    (r : Option α × Machine) : Prop where
  evolves : m.Evolves r.2
  secure : r.2.Secure permits
  result : ∀ a, r.1 = some a → post r.2 a

theorem ends_drive {run : Run α} (h : m.Secure permits) (hsafe : run.Safe permits [] m post) :
    Ends permits m post (drive run m) := by
  obtain ⟨last, hresult, hevolves, hlast⟩ := (maintained_safely hp post).drive ⟨h, hsafe⟩
  refine ⟨hevolves, hlast.secure, fun a ha => ?_⟩
  rw [hresult] at ha
  cases last with
  | done a' =>
    cases ha
    exact hlast.safe _ (.refl _)
  | _ => cases ha

/-- **Running a safe program.** Whatever the futures on the machine do meanwhile, the machine evolves, its futures stay
safe, and if the program comes to an end, then as asked for. -/
theorem safe_run {p : Prog α} (h : m.Secure permits) (hsafe : p.Safe permits [] m post) :
    Ends permits m post (m.run p) := by
  have hk := keeps_start hp h hsafe
  have he := ends_drive hp hk.secure hk.safe
  exact ⟨hk.evolves.trans he.evolves, he.secure, he.result⟩

end Machine

end MediaQuery
