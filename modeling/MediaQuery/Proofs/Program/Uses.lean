import MediaQuery.Proofs.Machine.Alike

/-!
# The branches that a program uses

A program names branches by routes, so what it can reach is a matter of its base. `Prog.Uses` says that a program
uses only some branches, as long as what it makes is one of these too, and what its results satisfy. Programs that
do below a route what other programs do on their own branch use only what is below the route (`Alike.uses`).
-/

namespace MediaQuery

/-- The branch of an operation. -/
def Op.branch : {α : Type} → Op α → Route
  | _, .get branch _ => branch
  | _, .has branch _ => branch
  | _, .getAll branch => branch
  | _, .set branch _ _ => branch
  | _, .record branch _ => branch
  | _, .history branch => branch
  | _, .fork branch _ => branch
  | _, .path branch => branch
  | _, .enter branch _ => branch
  | _, .log branch => branch
  | _, .inputs branch => branch
  | _, .openSession branch _ => branch

/-- What an operation of a program with the given base has made is one of the branches to be used. -/
def Op.Makes (T : Route → Prop) (base : Route) : {α : Type} → Op α → α → Prop
  | _, .fork branch _, i => T (base ++ branch ++ [i])
  | _, .openSession branch _, i => T (base ++ branch ++ [i])
  | _, _, _ => True

theorem Op.branch_under (route : Route) {α : Type} (op : Op α) : (op.under route).branch = route ++ op.branch := by
  cases op <;> rfl

/-- A program with the given base uses only some branches, and its results are as told. -/
inductive Prog.Uses (T : Route → Prop) : Route → {α : Type} → (α → Prop) → Prog α → Prop
  | done {base : Route} {α : Type} {Q : α → Prop} {a : α} (h : Q a) : Uses T base Q (.done a)
  | act {base : Route} {α β : Type} {Q : α → Prop} {op : Op β} {next : β → Prog α} (hb : T (base ++ op.branch))
      (h : ∀ b, op.Makes T base b → Uses T base Q (next b)) : Uses T base Q (.act op next)
  | sleep {base : Route} {α : Type} {Q : α → Prop} {ms : Nat} {next : Prog α} (h : Uses T base Q next) :
      Uses T base Q (.sleep ms next)
  | spawn {base branch : Route} {α : Type} {Q : α → Prop} {key : String} {future : Prog (Except EvalError Value)}
      {next : Prog α} (hb : T (base ++ branch)) (hfuture : Uses T (base ++ branch) (fun _ => True) future)
      (h : Uses T base Q next) : Uses T base Q (.spawn branch key future next)
  | resolve {base branch : Route} {α : Type} {Q : α → Prop} {key : String}
      {next : Except ContextError Value → Prog α} (hb : T (base ++ branch)) (h : ∀ r, Uses T base Q (next r)) :
      Uses T base Q (.resolve branch key next)
  | settle {base branch : Route} {α : Type} {Q : α → Prop} {next : Except EvalError Unit → Prog α}
      (hb : T (base ++ branch)) (h : ∀ r, Uses T base Q (next r)) : Uses T base Q (.settle branch next)
  | all {base : Route} {α β : Type} {n : Nat} {Q : α → Prop} (S : Except ExecutionError β → Prop)
      {parts : Fin n → Prog (Except ExecutionError β)} {next : Except ExecutionError (List β) → Prog α}
      (hparts : ∀ i, Uses T base S (parts i)) (he : ∀ e, S (.error e) → Uses T base Q (next (.error e)))
      (hok : ∀ values, (∀ v ∈ values, S (.ok v)) → Uses T base Q (next (.ok values))) :
      Uses T base Q (.all parts next)

/-- A run with the given base uses only some branches, and its results are as told. -/
inductive Run.Uses (T : Route → Prop) (base : Route) : {α : Type} → (α → Prop) → Run α → Prop
  | done {α : Type} {Q : α → Prop} {a : α} (h : Q a) : Uses T base Q (.done a)
  | asleep {α : Type} {Q : α → Prop} {wake : Nat} {next : Prog α} (h : next.Uses T base Q) :
      Uses T base Q (.asleep wake next)
  | resolving {branch : Route} {α : Type} {Q : α → Prop} {key : String} {generation : Nat} {future : FutureId}
      {next : Except ContextError Value → Prog α} (hb : T (base ++ branch)) (h : ∀ r, (next r).Uses T base Q) :
      Uses T base Q (.resolving branch key generation future next)
  | waiting {branch : Route} {α : Type} {Q : α → Prop} {wait : Wait} {next : Except EvalError Unit → Prog α}
      (hb : T (base ++ branch)) (h : ∀ r, (next r).Uses T base Q) : Uses T base Q (.waiting branch wait next)
  | joined {α β : Type} {n : Nat} {Q : α → Prop} (S : Except ExecutionError β → Prop)
      {parts : Fin n → Run (Except ExecutionError β)} {next : Except ExecutionError (List β) → Prog α}
      (hparts : ∀ i, Uses T base S (parts i)) (he : ∀ e, S (.error e) → (next (.error e)).Uses T base Q)
      (hok : ∀ values, (∀ v ∈ values, S (.ok v)) → (next (.ok values)).Uses T base Q) :
      Uses T base Q (.joined parts next)

variable {T T' : Route → Prop} {base route place : Route} {α : Type} {Q : α → Prop} {R : α → α → Prop}

/-! ## Using less -/

section Mono

variable (hT : ∀ x, T x → T' x) (hclosed : ∀ x i, T x → T (x ++ [i]))
include hT hclosed

/-- What uses only what is below some branches uses no more than any others with these among them. -/
theorem Prog.Uses.mono {p : Prog α} {Q' : α → Prop} (h : p.Uses T base Q) (hQ : ∀ a, Q a → Q' a) :
    p.Uses T' base Q' := by
  induction h with
  | done h => exact .done (hQ _ h)
  | @act base α β Q op next hb _ ih =>
    refine .act (hT _ hb) fun b _ => ih b ?_ hQ
    cases op with
    | fork branch options => exact hclosed _ _ hb
    | openSession branch inputs => exact hclosed _ _ hb
    | _ => trivial
  | sleep _ ih => exact .sleep (ih hQ)
  | spawn hb _ _ ihfuture ih => exact .spawn (hT _ hb) (ihfuture fun _ _ => trivial) (ih hQ)
  | resolve hb _ ih => exact .resolve (hT _ hb) fun r => ih r hQ
  | settle hb _ ih => exact .settle (hT _ hb) fun r => ih r hQ
  | all S _ _ _ ihparts ihe ihok =>
    exact .all S (fun i => ihparts i fun _ h => h) (fun e hS => ihe e hS hQ) fun values hS => ihok values hS hQ

theorem Run.Uses.mono {run : Run α} {Q' : α → Prop} (h : run.Uses T base Q) (hQ : ∀ a, Q a → Q' a) :
    run.Uses T' base Q' := by
  induction h with
  | done h => exact .done (hQ _ h)
  | asleep h => exact .asleep (h.mono hT hclosed hQ)
  | resolving hb h => exact .resolving (hT _ hb) fun r => (h r).mono hT hclosed hQ
  | waiting hb h => exact .waiting (hT _ hb) fun r => (h r).mono hT hclosed hQ
  | joined S _ he hok ih =>
    exact .joined S (fun i => ih i fun _ h => h) (fun e hS => (he e hS).mono hT hclosed hQ)
      fun values hS => (hok values hS).mono hT hclosed hQ

end Mono

/-! ## Sequencing -/

variable {β : Type} {Q' : β → Prop}

/-- An operation, and what comes after it. -/
theorem Prog.Uses.operate (op : Op α) {next : α → Prog β} (hb : T (base ++ op.branch))
    (h : ∀ a, op.Makes T base a → (next a).Uses T base Q') : (Prog.act op next).Uses T base Q' := .act hb h

theorem Prog.Uses.bind {p : Prog α} {k : α → Prog β} (h : p.Uses T base Q) (hk : ∀ a, Q a → (k a).Uses T base Q') :
    (p.bind k).Uses T base Q' := by
  induction h with
  | done h => exact hk _ h
  | act hb _ ih => exact .act hb fun b hmakes => ih b hmakes hk
  | sleep _ ih => exact .sleep (ih hk)
  | spawn hb hfuture _ _ ih => exact .spawn hb hfuture (ih hk)
  | resolve hb _ ih => exact .resolve hb fun r => ih r hk
  | settle hb _ ih => exact .settle hb fun r => ih r hk
  | all S hparts _ _ _ ihe ihok =>
    exact .all S hparts (fun e hS => ihe e hS hk) fun values hS => ihok values hS hk

theorem Op.makes_under (route : Route) (op : Op α) (a : α) :
    (op.under route).Makes T base a ↔ op.Makes T (base ++ route) a := by
  cases op <;> simp only [Op.under, Op.Makes, List.append_assoc]

/-- A program further down uses what it uses on the branch there. -/
theorem Prog.Uses.under {p : Prog α} (h : p.Uses T (base ++ route) Q) : (p.under route).Uses T base Q := by
  generalize hlower : base ++ route = lower at h
  have hbranch {branch : Route} (hb : T (lower ++ branch)) : T (base ++ (route ++ branch)) := by
    rwa [← List.append_assoc, hlower]
  induction h with
  | done h => exact .done h
  | @act lower α β Q op next hb _ ih =>
    refine .act (by rw [Op.branch_under]; exact hbranch hb) fun b hmakes => ih b ?_ hlower hbranch
    rwa [Op.makes_under, hlower] at hmakes
  | sleep _ ih => exact .sleep (ih hlower hbranch)
  | @spawn lower branch α Q key future next hb hfuture _ _ ih =>
    refine .spawn (hbranch hb) ?_ (ih hlower hbranch)
    rwa [← List.append_assoc, hlower]
  | resolve hb _ ih => exact .resolve (hbranch hb) fun r => ih r hlower hbranch
  | settle hb _ ih => exact .settle (hbranch hb) fun r => ih r hlower hbranch
  | all S _ _ _ ihparts ihe ihok =>
    exact .all S (fun i => ihparts i hlower hbranch) (fun e hS => ihe e hS hlower hbranch)
      fun values hS => ihok values hS hlower hbranch

/-- A result that is as told, if it is no failure. -/
abbrev IfOk {ε : Type} (Q : α → Prop) (r : Except ε α) : Prop := ∀ a, r = .ok a → Q a

theorem Prog.Uses.andThen {ε : Type} {p : Prog (Except ε α)} {f : α → Prog (Except ε β)} (h : p.Uses T base (IfOk Q))
    (hk : ∀ a, Q a → (f a).Uses T base (IfOk Q')) :
    (ExceptT.run (ExceptT.mk p >>= fun a => ExceptT.mk (f a))).Uses T base (IfOk Q') := by
  refine h.bind fun r hr => ?_
  cases r with
  | ok a => exact hk a (hr a rfl)
  | error e => exact .done nofun

theorem Prog.Uses.andThenLift {ε : Type} {p : Prog α} {f : α → Prog (Except ε β)} (h : p.Uses T base Q)
    (hk : ∀ a, Q a → (f a).Uses T base (IfOk Q')) :
    (ExceptT.run (ExceptT.lift p >>= fun a => ExceptT.mk (f a))).Uses T base (IfOk Q') := by
  refine Prog.Uses.andThen (Q := Q) (h.bind fun a ha => .done fun a' heq => ?_) hk
  cases heq
  exact ha

/-! ## Programs below their own branch -/

/-- **A program uses only what is below its own branch.** -/
theorem Prog.uses_below (p : Prog α) (hb : place <+: base) : p.Uses (place <+: ·) base fun _ => True := by
  have hbelow {base : Route} (hb : place <+: base) (branch : Route) : place <+: base ++ branch :=
    hb.trans (List.prefix_append _ _)
  induction p generalizing base with
  | done a => exact .done trivial
  | act op next ih => exact .act (hbelow hb _) fun b _ => ih b hb
  | sleep ms next ih => exact .sleep (ih hb)
  | spawn branch key future next ihfuture ih => exact .spawn (hbelow hb _) (ihfuture (hbelow hb _)) (ih hb)
  | resolve branch key next ih => exact .resolve (hbelow hb _) fun r => ih r hb
  | settle branch next ih => exact .settle (hbelow hb _) fun r => ih r hb
  | all parts next ihparts ih =>
    exact .all (fun _ => True) (fun i => ihparts i hb) (fun e _ => ih _ hb) fun values _ => ih _ hb

/-- And so does a run. -/
theorem Run.uses_below (run : Run α) (hb : place <+: base) : run.Uses (place <+: ·) base fun _ => True := by
  have hbelow (branch : Route) : place <+: base ++ branch := hb.trans (List.prefix_append _ _)
  induction run with
  | done a => exact .done trivial
  | asleep wake next => exact .asleep (next.uses_below hb)
  | resolving branch key generation future next => exact .resolving (hbelow _) fun r => (next r).uses_below hb
  | waiting branch wait next => exact .waiting (hbelow _) fun r => (next r).uses_below hb
  | joined parts next ih =>
    exact .joined (fun _ => True) ih (fun e _ => (next _).uses_below hb) fun values _ => (next _).uses_below hb

/-! ## Programs below a route -/

/-- What is related to something. -/
abbrev Related (R : α → α → Prop) (a : α) : Prop := ∃ a', R a a'

theorem forall₂_of_related {S : α → α → Prop} {values : List α} (h : ∀ v ∈ values, Related S v) :
    ∃ values', List.Forall₂ S values values' := by
  induction values with
  | nil => exact ⟨[], .nil⟩
  | cons v rest ih =>
    obtain ⟨v', hv⟩ := h v List.mem_cons_self
    obtain ⟨rest', hrest⟩ := ih fun w hw => h w (List.mem_cons_of_mem _ hw)
    exact ⟨v' :: rest', .cons hv hrest⟩

/-- A result of a part that has failed, or of all parts, has its like. -/
theorem sameResult_all {E : ExecutionError → ExecutionError → Prop} {S : α → α → Prop} :
    (∀ e, Related (SameResult E S) (.error e) → Related (SameResult E (List.Forall₂ S)) (.error e)) ∧
      ∀ values, (∀ v ∈ values, Related (SameResult E S) (.ok v)) →
        Related (SameResult E (List.Forall₂ S)) (.ok values) := by
  constructor
  · rintro e ⟨_, _ | he⟩
    exact ⟨_, .error he⟩
  · intro values h
    have hvalues (v : α) (hv : v ∈ values) : Related S v := by
      obtain ⟨_, hr⟩ := h v hv
      cases hr with
      | ok hv => exact ⟨_, hv⟩
    obtain ⟨values', hall⟩ := forall₂_of_related hvalues
    exact ⟨_, .ok hall⟩

theorem sameResult_self (r : Except EvalError Unit) : SameResult (EvalError.Like []) Eq r r := by
  cases r with
  | ok u => exact .ok rfl
  | error e => exact .error e.like_refl

/-- **A program that does below a route what another does on its own branch uses only what is below the route.** -/
theorem Prog.Alike.uses {p q : Prog α} (h : Prog.Alike route R p q) (hb : place <+: base ++ route) :
    p.Uses (place <+: ·) base (Related R) := by
  have hbelow (branch : Route) : place <+: base ++ (route ++ branch) := by
    rw [← List.append_assoc]
    exact hb.trans (List.prefix_append _ _)
  induction h generalizing base with
  | done h => exact .done ⟨_, h⟩
  | @act route α β R op f g hop _ ih =>
    refine .act ?_ fun b _ => ih b hb hbelow
    rw [Op.branch_under]
    exact hbelow _
  | log _ ih => exact .act (hbelow _) fun b _ => ih b b hb hbelow
  | sleep ms _ ih => exact .sleep (ih hb hbelow)
  | @spawn route branch α R key future future' p q _ _ ihfuture ih =>
    have hfuture : future.Uses (place <+: ·) (base ++ (route ++ branch)) fun _ => True := by
      have hown : place <+: base ++ (route ++ branch) ++ [] := by simpa using hbelow branch
      have hmore (more : Route) : place <+: base ++ (route ++ branch) ++ ([] ++ more) :=
        (hbelow branch).trans (List.prefix_append _ _)
      exact (ihfuture hown hmore).mono (fun _ h => h) (fun x i h => h.trans (List.prefix_append _ _)) fun _ _ => trivial
    exact .spawn (hbelow _) hfuture (ih hb hbelow)
  | resolve key _ ih => exact .resolve (hbelow _) fun r => ih r hb hbelow
  | settle _ ih => exact .settle (hbelow _) fun r => ih r r (sameResult_self r) hb hbelow
  | @all route α β n n' R E S parts parts' f g hn _ _ ihparts ih =>
    refine .all (Related (SameResult E S)) (fun i => ihparts i (i.cast hn) rfl hb hbelow) (fun e he => ?_)
      fun values hvalues => ?_
    · obtain ⟨r', hr⟩ := sameResult_all.1 e he
      exact ih _ _ hr hb hbelow
    · obtain ⟨r', hr⟩ := sameResult_all.2 values hvalues
      exact ih _ _ hr hb hbelow

theorem Run.Alike.uses {run run' : Run α} (h : run.Alike place route R run') (hb : place <+: base ++ route) :
    run.Uses (place <+: ·) base (Related R) := by
  have hbelow (branch : Route) : place <+: base ++ (route ++ branch) := by
    rw [← List.append_assoc]
    exact hb.trans (List.prefix_append _ _)
  induction h with
  | done h => exact .done ⟨_, h⟩
  | asleep wake h => exact .asleep (h.uses hb)
  | resolving branch key generation future h => exact .resolving (hbelow _) fun r => (h r).uses hb
  | waiting branch hw h => exact .waiting (hbelow _) fun r => (h r r (sameResult_self r)).uses hb
  | @joined α β n n' R E S parts parts' f g hn _ _ h ih =>
    refine .joined (Related (SameResult E S)) (fun i => ih i (i.cast hn) rfl) (fun e he => ?_) fun values hvalues => ?_
    · obtain ⟨r', hr⟩ := sameResult_all.1 e he
      exact (h _ _ hr).uses hb
    · obtain ⟨r', hr⟩ := sameResult_all.2 values hvalues
      exact (h _ _ hr).uses hb

end MediaQuery
