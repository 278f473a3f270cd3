import MediaQuery.Proofs.Machine.Parallel

/-!
# The same programs with other durations

Two programs are the same but for the durations of their sleeps (`Prog.Retimed`) if they carry out the same operations
on branches that correspond to each other, and go on in the same way after equal replies. Which position a new branch
has, and what is in the log, they cannot tell. Of programs side by side each keeps to a fork of its own, and where
several of them fail, which one is first is a matter of durations: so both go on in the same way after any of these
failures.

Hooks are retimed on their own (`Hook.Retimed`), and what a query is run with has hooks (`Inputs.Retimed`). What is put
together from retimed parts is retimed (`Retimed.bind`, `retimed_parallel`, `retimed_runHook`).
-/

namespace MediaQuery

/-! ## Hooks -/

namespace Hook

/-- The same but for the durations of its sleeps. -/
inductive Rest.Retimed : Rest → Rest → Prop
  | answer (value : Value) : Retimed (.answer value) (.answer value)
  | fail (e : EvalError) : Retimed (.fail e) (.fail e)
  | sleep (ms ms' : Nat) {next next' : Rest} (h : Retimed next next') : Retimed (.sleep ms next) (.sleep ms' next')

/-- The same but for the durations of its sleeps. -/
inductive Plan.Retimed : Plan → Plan → Prop
  | answer (value : Value) : Retimed (.answer value) (.answer value)
  | fail (e : EvalError) : Retimed (.fail e) (.fail e)
  | sleep (ms ms' : Nat) {next next' : Plan} (h : Retimed next next') : Retimed (.sleep ms next) (.sleep ms' next')
  | ask (input : Value) {next next' : Except EvalError Value → Rest} (h : ∀ r, (next r).Retimed (next' r)) :
      Retimed (.ask input next) (.ask input next')

/-- Two hooks do the same on every input but for the durations of their sleeps. -/
def Retimed (hook hook' : Hook) : Prop := ∀ input, Plan.Retimed (hook input) (hook' input)

theorem Rest.retimed_refl (rest : Rest) : rest.Retimed rest := by
  induction rest with
  | answer value => exact .answer value
  | fail e => exact .fail e
  | sleep ms next ih => exact .sleep ms ms ih

theorem Plan.retimed_refl (plan : Plan) : plan.Retimed plan := by
  induction plan with
  | answer value => exact .answer value
  | fail e => exact .fail e
  | sleep ms next ih => exact .sleep ms ms ih
  | ask input next => exact .ask input fun r => (next r).retimed_refl

end Hook

/-- Two chains of a name with hooks that are the same but for the durations. -/
structure Hooks.SameChain (chain chain' : String × List Hook) : Prop where
  name : chain.1 = chain'.1
  hooks : List.Forall₂ Hook.Retimed chain.2 chain'.2

/-- Chains of the same names. -/
def Hooks.Retimed (hooks hooks' : Hooks) : Prop := List.Forall₂ Hooks.SameChain hooks.chains hooks'.chains

theorem Hooks.retimed_refl (hooks : Hooks) : hooks.Retimed hooks :=
  List.forall₂_same.2 fun _ _ => ⟨rfl, List.forall₂_same.2 fun hook _ input => (hook input).retimed_refl⟩

/-- The chains of a name. -/
theorem Hooks.Retimed.chain {hooks hooks' : Hooks} (h : hooks.Retimed hooks') (name : String) :
    List.Forall₂ Hook.Retimed (hooks.chain name) (hooks'.chain name) := by
  obtain ⟨chains⟩ := hooks
  obtain ⟨chains'⟩ := hooks'
  change List.Forall₂ Hooks.SameChain chains chains' at h
  unfold Hooks.chain
  induction h with
  | nil => exact .nil
  | @cons e e' rest rest' hsame _ ih =>
    obtain ⟨n, hooks⟩ := e
    obtain ⟨n', hooks'⟩ := e'
    obtain ⟨rfl, hhooks⟩ := hsame
    dsimp only at ih ⊢
    rw [Fields.lookup_cons, Fields.lookup_cons]
    split
    · exact hhooks
    · exact ih

/-- What two queries are run with is the same but for the durations of their hooks. -/
structure Inputs.Retimed (inputs inputs' : Inputs) : Prop where
  hooks : inputs.hooks.Retimed inputs'.hooks
  others : inputs' = { inputs with hooks := inputs'.hooks }

theorem Inputs.retimed_refl (inputs : Inputs) : inputs.Retimed inputs := ⟨inputs.hooks.retimed_refl, rfl⟩

/-! ## Branches that correspond to each other -/

/-- Which branches of two machines correspond to each other, and which of these pairs the programs have made. On a
branch that a program has made nothing has been started. -/
structure Pairs where
  met : Route → Route → Prop
  made : Route → Route → Prop
  met_of_made : ∀ a a', made a a' → met a a'

namespace Pairs

variable {K L M : Pairs} {a a' : Route}

/-- More pairs. -/
structure Le (K L : Pairs) : Prop where
  met : ∀ a a', K.met a a' → L.met a a'
  made : ∀ a a', K.made a a' → L.made a a'

theorem Le.refl (K : Pairs) : K.Le K := ⟨fun _ _ h => h, fun _ _ h => h⟩

theorem Le.trans (h : K.Le L) (h' : L.Le M) : K.Le M :=
  ⟨fun a a' ha => h'.met a a' (h.met a a' ha), fun a a' ha => h'.made a a' (h.made a a' ha)⟩

/-- A pair of branches that have just been made. -/
def insert (K : Pairs) (a a' : Route) : Pairs where
  met x x' := K.met x x' ∨ x = a ∧ x' = a'
  made x x' := K.made x x' ∨ x = a ∧ x' = a'
  met_of_made x x' h := h.imp_left (K.met_of_made x x')

theorem le_insert (K : Pairs) (a a' : Route) : K.Le (K.insert a a') := ⟨fun _ _ => .inl, fun _ _ => .inl⟩

theorem made_insert (K : Pairs) (a a' : Route) : (K.insert a a').made a a' := .inr ⟨rfl, rfl⟩

/-- A pair of branches that have been there before. -/
def found (a a' : Route) : Pairs := ⟨fun x x' => x = a ∧ x' = a', fun _ _ => False, fun _ _ h => h.elim⟩

/-- The pair of the first branches of two machines of their own. -/
def own : Pairs := ⟨fun x x' => x = [] ∧ x' = [], fun x x' => x = [] ∧ x' = [], fun _ _ h => h⟩

theorem made_own : own.made [] [] := ⟨rfl, rfl⟩

theorem met_own : own.met [] [] := ⟨rfl, rfl⟩

end Pairs

/-- The operation on another branch. -/
def Op.moved (branch : Route) : {α : Type} → Op α → Op α
  | _, .get _ key => .get branch key
  | _, .has _ key => .has branch key
  | _, .getAll _ => .getAll branch
  | _, .set _ key value => .set branch key value
  | _, .record _ result => .record branch result
  | _, .history _ => .history branch
  | _, .fork _ options => .fork branch options
  | _, .path _ => .path branch
  | _, .enter _ p => .enter branch p
  | _, .log _ => .log branch
  | _, .inputs _ => .inputs branch
  | _, .openSession _ session => .openSession branch session

/-- Whether an operation makes no branch, and reads neither the log nor what a query is run with. -/
def Op.isPlain : {α : Type} → Op α → Bool
  | _, .fork _ _ => false
  | _, .log _ => false
  | _, .inputs _ => false
  | _, .openSession _ _ => false
  | _, _ => true

theorem Op.isPlain_under (route : Route) {α : Type} (op : Op α) : (op.under route).isPlain = op.isPlain := by
  cases op <;> rfl

theorem Op.under_moved (route route' branch : Route) {α : Type} (op : Op α) :
    (op.moved branch).under route' = (op.under route).moved (route' ++ branch) := by
  cases op <;> rfl

/-! ## Further down -/

namespace Prog

variable {α : Type}

theorem under_nil (p : Prog α) : p.under [] = p := by
  induction p with
  | done a => rfl
  | act op next ih =>
    have hop : op.under [] = op := by cases op <;> rfl
    simp only [Prog.under, hop]
    exact congrArg (Prog.act op) (funext ih)
  | sleep ms next ih => exact congrArg (Prog.sleep ms) ih
  | spawn branch key future next _ ih => exact congrArg (Prog.spawn branch key future) ih
  | resolve branch key next ih => exact congrArg (Prog.resolve branch key) (funext ih)
  | settle branch next ih => exact congrArg (Prog.settle branch) (funext ih)
  | all parts next ihparts ih =>
    simp only [Prog.under]
    rw [funext ihparts, funext ih]

end Prog

section Lodged

variable {β : Type} {b : Route} {p : Prog (Except ExecutionError β)}

theorem Lodges.under {options : ForkOptions} {paths : List Path} {q : Prog (Except ExecutionError β)}
    (h : Lodges (fun _ => Eq) b options q paths p) (route : Route) :
    Lodges (fun _ => Eq) (route ++ b) options q paths (p.under route) := by
  induction h with
  | @fork k h =>
    refine .fork fun i => ?_
    have halike : Prog.Alike (route ++ b ++ [i]) (SameResult ExecutionError.SameBare Eq) ((k i).under route)
        (q.under []) := (h i).under (by simp)
    rwa [Prog.under_nil] at halike
  | enter path _ ih => exact .enter path ih

theorem Lodged.under {tenant : Tenant β} (h : Lodged b tenant p) (route : Route) :
    Lodged (route ++ b) tenant (p.under route) := by
  cases h with
  | value v => exact .value v
  | fork h => exact .fork (h.under route)

/-- Programs that are lodged on a branch are so further down. -/
theorem lodged_under {n : Nat} {tenants : List (Tenant β)} {parts : Fin n → Prog (Except ExecutionError β)}
    (h : List.Forall₂ (Lodged b) tenants (List.ofFn parts)) (route : Route) :
    List.Forall₂ (Lodged (route ++ b)) tenants (List.ofFn fun i => (parts i).under route) := by
  have hparts : (List.ofFn fun i => (parts i).under route) = (List.ofFn parts).map (Prog.under route) :=
    (List.map_ofFn ..).symm
  rw [hparts]
  exact List.forall₂_map_right_iff.2 (h.imp fun _ _ hp => hp.under route)

end Lodged

/-! ## Programs -/

/-- Two programs with the given bases are the same but for the durations of their sleeps. How their results are related
may depend on the branches that they have made. -/
inductive Prog.Retimed : Pairs → Route → Route → {α : Type} → (Pairs → α → α → Prop) → Prog α → Prog α → Prop
  | done {K : Pairs} {base base' : Route} {α : Type} {R : Pairs → α → α → Prop} {a a' : α} (h : R K a a') :
      Retimed K base base' R (.done a) (.done a')
  | act {K : Pairs} {base base' b' : Route} {α β : Type} {R : Pairs → α → α → Prop} {op : Op β} {f f' : β → Prog α}
      (hop : op.isPlain = true) (hb : K.met (base ++ op.branch) (base' ++ b'))
      (h : ∀ r, Retimed K base base' R (f r) (f' r)) : Retimed K base base' R (.act op f) (.act (op.moved b') f')
  | fork {K : Pairs} {base base' b b' : Route} {α : Type} {R : Pairs → α → α → Prop} {options : ForkOptions}
      {f f' : Nat → Prog α} (hb : K.met (base ++ b) (base' ++ b'))
      (h : ∀ i i', Retimed (K.insert (base ++ (b ++ [i])) (base' ++ (b' ++ [i']))) base base' R (f i) (f' i')) :
      Retimed K base base' R (.act (.fork b options) f) (.act (.fork b' options) f')
  | log {K : Pairs} {base base' b b' : Route} {α : Type} {R : Pairs → α → α → Prop} {f f' : List Path → Prog α}
      (h : ∀ log log', Retimed K base base' R (f log) (f' log')) :
      Retimed K base base' R (.act (.log b) f) (.act (.log b') f')
  | inputs {K : Pairs} {base base' b b' : Route} {α : Type} {R : Pairs → α → α → Prop} {f f' : Inputs → Prog α}
      (hb : K.met (base ++ b) (base' ++ b'))
      (h : ∀ inputs inputs', inputs.Retimed inputs' → Retimed K base base' R (f inputs) (f' inputs')) :
      Retimed K base base' R (.act (.inputs b) f) (.act (.inputs b') f')
  | openSession {K : Pairs} {base base' b b' : Route} {α : Type} {R : Pairs → α → α → Prop} {inputs inputs' : Inputs}
      {f f' : Nat → Prog α} (hb : K.met (base ++ b) (base' ++ b')) (hinputs : inputs.Retimed inputs')
      (h : ∀ i i', Retimed (K.insert (base ++ (b ++ [i])) (base' ++ (b' ++ [i']))) base base' R (f i) (f' i')) :
      Retimed K base base' R (.act (.openSession b inputs) f) (.act (.openSession b' inputs') f')
  | sleep {K : Pairs} {base base' : Route} {α : Type} {R : Pairs → α → α → Prop} (ms ms' : Nat) {p p' : Prog α}
      (h : Retimed K base base' R p p') : Retimed K base base' R (.sleep ms p) (.sleep ms' p')
  | resolve {K : Pairs} {base base' b b' : Route} {α : Type} {R : Pairs → α → α → Prop} {key : String}
      {f f' : Except ContextError Value → Prog α} (hb : K.met (base ++ b) (base' ++ b'))
      (h : ∀ r, Retimed K base base' R (f r) (f' r)) :
      Retimed K base base' R (.resolve b key f) (.resolve b' key f')
  | settle {K : Pairs} {base base' b b' : Route} {α : Type} {R : Pairs → α → α → Prop}
      {f f' : Except EvalError Unit → Prog α} (hb : K.made (base ++ b) (base' ++ b'))
      (h : ∀ r, Retimed K base base' R (f r) (f' r)) : Retimed K base base' R (.settle b f) (.settle b' f')
  | all {K : Pairs} {base base' b b' : Route} {α β : Type} {n n' : Nat} {R : Pairs → α → α → Prop}
      (E : ExecutionError → Prop) {parts : Fin n → Prog (Except ExecutionError β)}
      {parts' : Fin n' → Prog (Except ExecutionError β)} {f f' : Except ExecutionError (List β) → Prog α}
      {tenants tenants' : List (Tenant β)} (hb : K.met (base ++ b) (base' ++ b'))
      (hlodged : List.Forall₂ (Lodged b) tenants (List.ofFn parts))
      (hlodged' : List.Forall₂ (Lodged b') tenants' (List.ofFn parts'))
      (hcalm : ∀ tenant ∈ tenants, tenant.program.Calm) (hcalm' : ∀ tenant ∈ tenants', tenant.program.Calm)
      (hoptions : tenants.map Tenant.options? = tenants'.map Tenant.options?)
      (htenants : ∀ (i : Fin tenants.length) (j : Fin tenants'.length), i.val = j.val →
        Retimed Pairs.own [] [] (fun _ => SameResult (fun e e' => E e.bare ∧ E e'.bare) Eq)
          (tenants.get i).program (tenants'.get j).program)
      (herror : ∀ e e', E e.bare → E e'.bare → Retimed K base base' R (f (.error e)) (f' (.error e')))
      (hok : ∀ values, Retimed K base base' R (f (.ok values)) (f' (.ok values))) :
      Retimed K base base' R (.all parts f) (.all parts' f')

/-- Two tenants that are the same but for the durations. -/
structure Tenant.Retimed {β : Type} (tenant tenant' : Tenant β) : Prop where
  options : tenant.options? = tenant'.options?
  program : Prog.Retimed Pairs.own [] [] (fun _ => SameValue) tenant.program tenant'.program

/-- Both have failed, or both have succeeded with what is related. -/
abbrev SameSuccess {ε α : Type} (R : α → α → Prop) : Except ε α → Except ε α → Prop := SameResult (fun _ _ => True) R

namespace Prog

variable {K : Pairs} {base base' b b' : Route} {α β : Type} {R : Pairs → α → α → Prop} {S : Pairs → β → β → Prop}
  {p p' : Prog α} {f f' : α → Prog β}

/-! ## Programs put together -/

/-- One program after another. -/
theorem Retimed.bind (h : Retimed K base base' R p p')
    (hf : ∀ L a a', K.Le L → R L a a' → Retimed L base base' S (f a) (f' a')) :
    Retimed K base base' S (p.bind f) (p'.bind f') := by
  induction h with
  | done h => exact hf _ _ _ (.refl _) h
  | act hop hb _ ih => exact .act hop hb fun r => ih r hf
  | fork hb _ ih => exact .fork hb fun i i' => ih i i' fun L a a' hL => hf L a a' ((Pairs.le_insert ..).trans hL)
  | log _ ih => exact .log fun log log' => ih log log' hf
  | inputs hb _ ih => exact .inputs hb fun inputs inputs' hinputs => ih inputs inputs' hinputs hf
  | openSession hb hinputs _ ih =>
    exact .openSession hb hinputs fun i i' => ih i i' fun L a a' hL => hf L a a' ((Pairs.le_insert ..).trans hL)
  | sleep ms ms' _ ih => exact .sleep ms ms' (ih hf)
  | resolve hb _ ih => exact .resolve hb fun r => ih r hf
  | settle hb _ ih => exact .settle hb fun r => ih r hf
  | all E hb hlodged hlodged' hcalm hcalm' hoptions htenants _ _ _ iherror ihok =>
    exact .all E hb hlodged hlodged' hcalm hcalm' hoptions htenants (fun e e' he he' => iherror e e' he he' hf)
      fun values => ihok values hf

theorem Retimed.mono {R' : Pairs → α → α → Prop} (h : Retimed K base base' R p p')
    (hR : ∀ L a a', K.Le L → R L a a' → R' L a a') : Retimed K base base' R' p p' := by
  have hbind : Retimed K base base' R' (p.bind .done) (p'.bind .done) :=
    h.bind fun L a a' hL ha => .done (hR L a a' hL ha)
  rwa [bind_done, bind_done] at hbind

/-- Programs stay the same but for the durations further down. -/
theorem Retimed.under {route route' : Route} (h : Retimed K (base ++ route) (base' ++ route') R p p') :
    Retimed K base base' R (p.under route) (p'.under route') := by
  generalize hlower : base ++ route = lower at h
  generalize hlower' : base' ++ route' = lower' at h
  induction h with
  | done h => exact .done h
  | @act K lower lower' b' α β R op f f' hop hb _ ih =>
    have hmoved : (op.moved b').under route' = (op.under route).moved (route' ++ b') := op.under_moved ..
    simp only [Prog.under]
    rw [hmoved]
    refine .act (by rw [Op.isPlain_under, hop]) ?_ fun r => ih r hlower hlower'
    rwa [Op.branch_under, ← List.append_assoc, ← List.append_assoc, hlower, hlower']
  | fork hb _ ih =>
    subst hlower hlower'
    refine .fork (by simpa using hb) fun i i' => ?_
    simpa using ih i i' rfl rfl
  | log _ ih => exact .log fun log log' => ih log log' hlower hlower'
  | inputs hb _ ih =>
    subst hlower hlower'
    exact .inputs (by simpa using hb) fun inputs inputs' hinputs => ih inputs inputs' hinputs rfl rfl
  | openSession hb hinputs _ ih =>
    subst hlower hlower'
    refine .openSession (by simpa using hb) hinputs fun i i' => ?_
    simpa using ih i i' rfl rfl
  | sleep ms ms' _ ih => exact .sleep ms ms' (ih hlower hlower')
  | resolve hb _ ih =>
    subst hlower hlower'
    exact .resolve (by simpa using hb) fun r => ih r rfl rfl
  | settle hb _ ih =>
    subst hlower hlower'
    exact .settle (by simpa using hb) fun r => ih r rfl rfl
  | @all K lower lower' b b' α β n n' R E parts parts' f f' tenants tenants' hb hlodged hlodged' hcalm hcalm' hoptions
      htenants _ _ _ iherror ihok =>
    subst hlower hlower'
    exact .all E (by simpa using hb) (lodged_under hlodged route) (lodged_under hlodged' route') hcalm hcalm' hoptions
      htenants (fun e e' he he' => iherror e e' he he' rfl rfl) fun values => ihok values rfl rfl

/-! ## Programs that may fail -/

section Failing

variable {ε : Type} {P P' : Prog (Except ε α)} {k k' : α → Prog (Except ε β)}

/-- What comes after a program that may fail. -/
theorem Retimed.andThen (h : Retimed K base base' (fun L => SameSuccess (R L)) P P')
    (hk : ∀ L a a', K.Le L → R L a a' → Retimed L base base' (fun M => SameSuccess (S M)) (k a) (k' a')) :
    Retimed K base base' (fun M => SameSuccess (S M)) (ExceptT.run (ExceptT.mk P >>= fun a => ExceptT.mk (k a)))
      (ExceptT.run (ExceptT.mk P' >>= fun a => ExceptT.mk (k' a))) := by
  refine h.bind fun L r r' hL hr => ?_
  cases hr with
  | ok ha => exact hk L _ _ hL ha
  | error _ => exact .done (.error trivial)

/-- What comes after a program that cannot fail. -/
theorem Retimed.andThenLift (h : Retimed K base base' R p p')
    (hk : ∀ L a a', K.Le L → R L a a' → Retimed L base base' (fun M => SameSuccess (S M)) (k a) (k' a')) :
    Retimed K base base' (fun M => SameSuccess (S M)) (ExceptT.run (ExceptT.lift p >>= fun a => ExceptT.mk (k a)))
      (ExceptT.run (ExceptT.lift p' >>= fun a => ExceptT.mk (k' a))) :=
  Retimed.andThen (R := R) (h.bind fun _ _ _ _ ha => .done (.ok ha)) hk

theorem Retimed.mapOk (h : Retimed K base base' (fun L => SameSuccess (R L)) P P') {g g' : α → β}
    (hg : ∀ L a a', R L a a' → S L (g a) (g' a')) :
    Retimed K base base' (fun M => SameSuccess (S M)) (P.bind fun r => .done (r.map g))
      (P'.bind fun r => .done (r.map g')) := by
  refine h.bind fun L r r' _ hr => .done ?_
  cases hr with
  | ok ha => exact .ok (hg L _ _ ha)
  | error _ => exact .error trivial

end Failing

/-! ## Operations -/

/-- An operation, and what comes after it. -/
theorem Retimed.operate (op : Op α) (hop : op.isPlain = true) (hb : K.met (base ++ op.branch) (base' ++ b'))
    (h : ∀ r, Retimed K base base' S (f r) (f' r)) :
    Retimed K base base' S ((perform op).bind f) ((perform (op.moved b')).bind f') := .act hop hb h

theorem retimed_fork (hb : K.met (base ++ b) (base' ++ b')) (options : ForkOptions) :
    Retimed K base base' (fun L a a' => L.made (base ++ a) (base' ++ a')) (fork b options) (fork b' options) :=
  .fork hb fun _ _ => .done (K.made_insert _ _)

theorem retimed_log : Retimed K base base' (fun _ _ _ => True) (log b) (log b') := .log fun _ _ => .done trivial

theorem retimed_setAll (hb : K.met (base ++ b) (base' ++ b')) (values : List (String × Value)) :
    Retimed K base base' (fun _ => Eq) (setAll b values) (setAll b' values) := by
  induction values with
  | nil => exact .done rfl
  | cons e rest ih => exact .operate (.set b e.1 e.2) rfl hb fun _ => ih

theorem retimed_waitForPending (hb : K.made (base ++ b) (base' ++ b')) :
    Retimed K base base' (fun _ => SameSuccess Eq) (waitForPending b) (waitForPending b') := by
  refine .settle hb fun r => .done ?_
  cases r with
  | ok u => exact .ok rfl
  | error e => exact .error trivial

/-- A failure that leaves its branch. -/
theorem Retimed.wrapping {P P' : Prog (Except EvalError α)}
    (h : Retimed K base base' (fun L => SameSuccess (R L)) P P') (path : Path) :
    Retimed K base base' (fun L => SameSuccess (R L)) (wrapping b path P) (wrapping b' path P') := by
  refine h.bind fun L r r' _ hr => ?_
  cases hr with
  | ok ha => exact .done (.ok ha)
  | error _ => exact retimed_log.bind fun _ _ _ _ _ => .done (.error trivial)

/-- Programs side by side. -/
theorem retimed_parallel {parts parts' : List (Prog (Except ExecutionError β))} {tenants tenants' : List (Tenant β)}
    (hb : K.met (base ++ b) (base' ++ b')) (hlodged : List.Forall₂ (Lodged b) tenants parts)
    (hlodged' : List.Forall₂ (Lodged b') tenants' parts') (hcalm : ∀ tenant ∈ tenants, tenant.program.Calm)
    (hcalm' : ∀ tenant ∈ tenants', tenant.program.Calm) (htenants : List.Forall₂ Tenant.Retimed tenants tenants') :
    Retimed K base base' (fun _ => SameValue) (parallel parts) (parallel parts') := by
  refine .all (fun _ => True) hb (by rwa [List.ofFn_get]) (by rwa [List.ofFn_get]) hcalm hcalm'
    (Machine.map_eq_of_forall₂ htenants fun _ _ h => h.options) (fun i j hij => ?_)
    (fun _ _ _ _ => .done (.error trivial)) fun _ => .done (.ok rfl)
  have htenant : (tenants.get i).Retimed (tenants'.get j) := by
    obtain ⟨i, hi⟩ := i
    obtain ⟨j, hj⟩ := j
    obtain rfl : i = j := hij
    exact htenants.get hi hj
  refine htenant.program.mono fun _ r r' _ hr => ?_
  cases hr with
  | ok h => exact .ok h
  | error _ => exact .error ⟨trivial, trivial⟩

/-! ## Hooks -/

theorem retimed_rest {rest rest' : Hook.Rest} (h : rest.Retimed rest') :
    Retimed K base base' (fun _ => Eq) rest.prog rest'.prog := by
  induction h with
  | answer value => exact .done rfl
  | fail e => exact .done rfl
  | sleep ms ms' _ ih => exact .sleep ms ms' ih

theorem retimed_plan {plan plan' : Hook.Plan} (h : plan.Retimed plan')
    {rest rest' : Value → Prog (Except EvalError Value)}
    (hrest : ∀ input, Retimed K base base' (fun _ => Eq) (rest input) (rest' input)) :
    Retimed K base base' (fun _ => Eq) (plan.prog rest) (plan'.prog rest') := by
  induction h with
  | answer value => exact .done rfl
  | fail e => exact .done rfl
  | sleep ms ms' _ ih => exact .sleep ms ms' ih
  | ask input h => exact (hrest input).bind fun _ r r' _ hr => hr ▸ retimed_rest (h r)

theorem retimed_runChain {chain chain' : List Hook} (h : List.Forall₂ Hook.Retimed chain chain') (input : Value) :
    Retimed K base base' (fun _ => Eq) (Hook.runChain chain input) (Hook.runChain chain' input) := by
  unfold Hook.runChain
  induction h generalizing input with
  | nil => exact .done rfl
  | cons hhook _ ih => exact retimed_plan (hhook input) ih

/-- **To run a hook is the same but for the durations**, if those that are registered are. -/
theorem retimed_runHook (hb : K.met (base ++ b) (base' ++ b')) (name : String) (input : Value) :
    Retimed K base base' (fun _ => Eq) (runHook b name input) (runHook b' name input) :=
  .inputs hb fun _ _ hinputs => retimed_runChain (hinputs.hooks.chain name) input

end Prog

end MediaQuery
