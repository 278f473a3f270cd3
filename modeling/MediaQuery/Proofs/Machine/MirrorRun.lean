import MediaQuery.Proofs.Machine.Carried

/-!
# Runs on a machine inside another

Programs that are alike, carried out below a place and on the machine that is found there, stay alike and keep whatever
is carried along with the two machines (`carried_start`, `carried_resume`). So they leave the one machine inside the
other (`mirrors_start`, `mirrors_resume`). They can go on at the same time (`isReady_alike`), and their next sleeps end
at the same time (`wake?_alike`).
-/

namespace MediaQuery.Machine

variable {place route base base' : Route} {m l : Machine}

/-- An operation further down is the operation on the branch there. -/
theorem perform_under (m : Machine) (base route : Route) {α : Type} (op : Op α) :
    m.perform base (op.under route) = m.perform (base ++ route) op := by
  cases op <;> simp only [Op.under, perform, List.append_assoc]

/-! ## Programs side by side -/

section Sweep

variable {β : Type} {n : Nat} {E : ExecutionError → ExecutionError → Prop} {S : β → β → Prop}
  {I : Machine → Machine → Prop}

/-- A sweep over runs that are alike. -/
theorem carried_sweep {advance advance' : Fin n → Machine → Run (Except ExecutionError β) × Machine}
    (hadvance : ∀ i m l, I m l → (advance i m).1.Alike place route (SameResult E S) (advance' i l).1 ∧
      I (advance i m).2 (advance' i l).2) (is : List (Fin n)) (h : I m l) :
    SameResult E (List.Forall₂ (Run.Alike place route (SameResult E S))) (sweep advance is m).1
        (sweep advance' is l).1 ∧
      I (sweep advance is m).2 (sweep advance' is l).2 := by
  induction is generalizing m l with
  | nil => exact ⟨.ok .nil, h⟩
  | cons i rest ih =>
    obtain ⟨hrun, hafter⟩ := hadvance i m l h
    obtain ⟨hruns, hend⟩ := ih hafter
    by_cases hfail : ∃ e, (advance i m).1 = .done (.error e)
    · obtain ⟨e, he⟩ := hfail
      obtain ⟨e', he', hee⟩ : ∃ e', (advance' i l).1 = .done (.error e') ∧ E e e' := by
        rw [he] at hrun
        generalize (advance' i l).1 = run' at hrun
        cases hrun with
        | done hr =>
          cases hr with
          | error hee => exact ⟨_, rfl, hee⟩
      rw [sweep_of_error he, sweep_of_error he']
      exact ⟨.error hee, hafter⟩
    · rw [not_exists] at hfail
      have hfail' (e : ExecutionError) : (advance' i l).1 ≠ .done (.error e) := by
        intro he'
        rw [he'] at hrun
        generalize (advance i m).1 = run at hrun hfail
        cases hrun with
        | done hr =>
          cases hr with
          | error _ => exact hfail _ rfl
      rw [sweep_of_ne_error hfail, sweep_of_ne_error hfail']
      refine ⟨?_, hend⟩
      generalize (sweep advance rest (advance i m).2).1 = r, (sweep advance' rest (advance' i l).2).1 = r' at hruns ⊢
      cases hruns with
      | ok hruns => exact .ok (.cons hrun hruns)
      | error he => exact .error he

/-- Values of runs that are alike. -/
theorem gather?_alike {runs runs' : List (Run (Except ExecutionError β))}
    (h : List.Forall₂ (Run.Alike place route (SameResult E S)) runs runs') :
    Option.Rel (List.Forall₂ S) (gather? runs) (gather? runs') := by
  induction h with
  | nil => exact .some .nil
  | cons hrun _ ih =>
    cases hrun with
    | done hr =>
      cases hr with
      | ok hv =>
        rcases rel_cases ih with ⟨hm, hl⟩ | ⟨vs, vs', hm, hl, hvs⟩
        · simp only [gather?, hm, hl]
          exact .none
        · simp only [gather?, hm, hl]
          exact .some (.cons hv hvs)
      | error _ => exact .none
    | _ => exact .none

/-- What comes of a sweep over parts that wait side by side. -/
def afterSweep {α : Type} (base : Route) (next : Except ExecutionError (List β) → Prog α) :
    Except ExecutionError (List (Run (Except ExecutionError β))) × Machine → Run α × Machine
  | (.error e, m) => (next (.error e)).start base m
  | (.ok runs, m) =>
    match gather? runs with
    | some values => (next (.ok values)).start base m
    | none => (.joined runs.get next, m)

theorem start_all {α : Type} (parts : Fin n → Prog (Except ExecutionError β))
    (next : Except ExecutionError (List β) → Prog α) (base : Route) (m : Machine) :
    (Prog.all parts next).start base m =
      afterSweep base next (sweep (fun i m => (parts i).start base m) (List.finRange n) m) := by
  rw [Prog.start]
  generalize sweep (fun i m => (parts i).start base m) (List.finRange n) m = x
  obtain ⟨_ | _, _⟩ := x <;> rfl

theorem resume_joined {α : Type} (parts : Fin n → Run (Except ExecutionError β))
    (next : Except ExecutionError (List β) → Prog α) (base : Route) (m : Machine) :
    (Run.joined parts next).resume base m =
      afterSweep base next (sweep (fun i m => (parts i).resume base m) (List.finRange n) m) := by
  rw [Run.resume]
  generalize sweep (fun i m => (parts i).resume base m) (List.finRange n) m = x
  obtain ⟨_ | _, _⟩ := x <;> rfl

/-- **After a sweep the first failure is passed on, or the values of all parts, or the parts go on waiting.** -/
theorem afterSweep_cases {α : Type} {P : Run (Except ExecutionError β) → Prop}
    {next : Except ExecutionError (List β) → Prog α} {C : Run α × Machine → Prop}
    {advance : Fin n → Machine → Run (Except ExecutionError β) × Machine} {is : List (Fin n)}
    (h : SweepHolds P (sweep advance is m).1)
    (error : ∀ e, P (.done (.error e)) → C ((next (.error e)).start base (sweep advance is m).2))
    (ok : ∀ values, (∀ v ∈ values, P (.done (.ok v))) → C ((next (.ok values)).start base (sweep advance is m).2))
    (waiting : ∀ runs : List (Run (Except ExecutionError β)), (∀ run ∈ runs, P run) → Unfinished runs.get →
      C (.joined runs.get next, (sweep advance is m).2)) :
    C (afterSweep base next (sweep advance is m)) := by
  have hwait (runs : List (Run (Except ExecutionError β))) (hs : (sweep advance is m).1 = .ok runs)
      (hg : gather? runs = none) : Unfinished runs.get := unfinished_of_sweep hs hg
  generalize sweep advance is m = x at h error ok waiting hwait
  obtain ⟨e | runs, m'⟩ := x
  · exact error e h
  · cases hg : gather? runs with
    | some values =>
      simp only [afterSweep, hg]
      exact ok values fun v hv => h _ (gather?_eq_some.1 hg ▸ List.mem_map_of_mem hv)
    | none =>
      simp only [afterSweep, hg]
      exact waiting runs h (hwait runs rfl hg)

theorem carried_afterSweep {α : Type} {R : α → α → Prop} {f g : Except ExecutionError (List β) → Prog α}
    {advance advance' : Fin n → Machine → Run (Except ExecutionError β) × Machine}
    (hadvance : ∀ i m l, I m l → (advance i m).1.Alike place route (SameResult E S) (advance' i l).1 ∧
      I (advance i m).2 (advance' i l).2)
    (hk : ∀ r r', SameResult E (List.Forall₂ S) r r' → Prog.Alike route R (f r) (g r'))
    (hnext : ∀ r r' m l, SameResult E (List.Forall₂ S) r r' → I m l →
      ((f r).start base m).1.Alike place route R ((g r').start base' l).1 ∧
        I ((f r).start base m).2 ((g r').start base' l).2) (h : I m l) :
    (afterSweep base f (sweep advance (List.finRange n) m)).1.Alike place route R
        (afterSweep base' g (sweep advance' (List.finRange n) l)).1 ∧
      I (afterSweep base f (sweep advance (List.finRange n) m)).2
        (afterSweep base' g (sweep advance' (List.finRange n) l)).2 := by
  obtain ⟨hruns, hafter⟩ := carried_sweep hadvance (List.finRange n) h
  have hwait (runs' : List (Run (Except ExecutionError β)))
      (h : (sweep advance' (List.finRange n) l).1 = .ok runs') (hg : gather? runs' = none) : Unfinished runs'.get :=
    unfinished_of_sweep h hg
  generalize sweep advance (List.finRange n) m = x, sweep advance' (List.finRange n) l = y at hruns hafter hwait ⊢
  obtain ⟨r, m'⟩ := x
  obtain ⟨r', l'⟩ := y
  dsimp only at hruns hafter
  cases hruns with
  | error he => exact hnext _ _ m' l' (.error he) hafter
  | @ok runs runs' hruns =>
    unfold afterSweep
    rcases rel_cases (gather?_alike hruns) with ⟨hm, hl⟩ | ⟨vs, vs', hm, hl, hvs⟩
    · simp only [hm, hl]
      refine ⟨.joined E S hruns.length_eq (fun i j hij => ?_) (hwait runs' rfl hl) hk, hafter⟩
      obtain ⟨i, hi⟩ := i
      obtain ⟨j, hj⟩ := j
      obtain rfl : i = j := hij
      exact hruns.get hi hj
    · simp only [hm, hl]
      exact hnext _ _ m' l' (.ok hvs) hafter

end Sweep

/-! ## Starting and resuming -/

variable {α : Type} {R : α → α → Prop} {I : Machine → Machine → Prop}

/-- A reference below the place gives way to the outcome of its future. -/
theorem mirrors_settle (h : Mirrors place m l) (r : Route) (key : String) (generation : Nat) (value : Option Value) :
    Mirrors place (m.modifyStore (place ++ r) (·.settle key generation value))
      (l.modifyStore r (·.settle key generation value)) :=
  mirrors_modifyStore h r _ _ fun s => s.settle_shift place key generation value

/-- What is carried along is kept by the settlement of a reference. -/
theorem Carried.settle (hI : Carried place I) (h : I m l) (r : Route) (key : String) (generation : Nat)
    (value : Option Value) : I (m.modifyStore (place ++ r) (·.settle key generation value))
      (l.modifyStore r (·.settle key generation value)) :=
  hI.quiet h (mirrors_settle (hI.mirrors h) r key generation value) (sameSessions_modifyStore _ _ _)
    (sameSessions_modifyStore _ _ _)

/-- **Programs that are alike do the same below a place and on the machine found there.** -/
theorem carried_start (hI : Carried place I) {p q : Prog α} (hp : Prog.Alike route R p q) (h : I m l)
    (hb : base ++ route = place ++ base') :
    (p.start base m).1.Alike place route R (q.start base' l).1 ∧ I (p.start base m).2 (q.start base' l).2 := by
  have hbranch (branch : Route) : base ++ (route ++ branch) = place ++ (base' ++ branch) := by
    rw [← List.append_assoc, hb, List.append_assoc]
  have hm := hI.mirrors h
  induction hp generalizing m l with
  | done ha => exact ⟨.done ha, h⟩
  | @act route α β R op f g hop _ ih =>
    obtain ⟨hreply, -⟩ := mirrors_perform hm hop base'
    have hafter := hI.perform h hop base'
    simp only [Prog.start, perform_under, hb, hreply]
    exact ih _ hafter hb hbranch (hI.mirrors hafter)
  | log _ ih =>
    simp only [Prog.start]
    exact ih _ _ h hb hbranch hm
  | sleep ms hnext ih =>
    simp only [Prog.start]
    split
    · exact ih h hb hbranch hm
    · rw [hm.clock]
      exact ⟨.asleep _ hnext, h⟩
  | @spawn route branch α R key future future' p q hfuture _ _ ih =>
    simp only [Prog.start, hbranch]
    have hspawned := mirrors_spawn hm (base' ++ branch) key hfuture
    exact ih (hI.quiet h hspawned (sameSessions_spawn _ _ _ _) (sameSessions_spawn _ _ _ _)) hb hbranch hspawned
  | @resolve route branch α R key f g hk ih =>
    have hsettled (generation : Nat) (value : Option Value) := hI.settle h (base' ++ branch) key generation value
    simp only [Prog.start, hbranch, hm.store, Store.find?_shift]
    rcases (l.store (base' ++ branch)).find? key with _ | ⟨generation, v | future⟩
    · exact ih _ h hb hbranch hm
    · exact ih _ h hb hbranch hm
    · simp only [Option.map_some, Entry.shift, Slot.shift, hm.outcome]
      cases l.outcome future with
      | running => exact ⟨.resolving branch key generation future hk, h⟩
      | resolved v => exact ih _ (hsettled _ _) hb hbranch (hI.mirrors (hsettled _ _))
      | failed => exact ih _ (hsettled _ _) hb hbranch (hI.mirrors (hsettled _ _))
  | @settle route branch α R f g hk ih =>
    obtain ⟨hwait, hafter⟩ := mirrors_waitFutures hm (base' ++ branch) [] (.none (r := EvalError.Like []))
    have hkept := hI.quiet h hafter ((endured_sameSessions _).waitFutures _ _ _)
      ((endured_sameSessions _).waitFutures _ _ _)
    simp only [List.map_nil] at hwait hkept
    simp only [Prog.start, hbranch]
    generalize waitFutures (place ++ (base' ++ branch)) [] none m = x, waitFutures (base' ++ branch) [] none l = y
      at hwait hkept ⊢
    obtain ⟨w, m'⟩ := x
    obtain ⟨w', l'⟩ := y
    dsimp only at hwait hkept
    cases hwait with
    | inl hw => exact ⟨.waiting branch hw hk, hkept⟩
    | inr hr => exact ih _ _ hr hkept hb hbranch (hI.mirrors hkept)
  | @all route α β n n' R E S parts parts' f g hn hparts hk ihparts ih =>
    subst hn
    rw [start_all, start_all]
    exact carried_afterSweep (fun i m l h => ihparts i i rfl h hb hbranch (hI.mirrors h)) hk
      (fun r r' m l hr h => ih r r' hr h hb hbranch (hI.mirrors h)) h

theorem mirrors_start {p q : Prog α} (hp : Prog.Alike route R p q) (h : Mirrors place m l)
    (hb : base ++ route = place ++ base') :
    (p.start base m).1.Alike place route R (q.start base' l).1 ∧ Mirrors place (p.start base m).2 (q.start base' l).2 :=
  carried_start (carried_mirrors place) hp h hb

/-- **Runs that are alike go on alike.** -/
theorem carried_resume (hI : Carried place I) {run run' : Run α} (hr : run.Alike place route R run') (h : I m l)
    (hb : base ++ route = place ++ base') :
    (run.resume base m).1.Alike place route R (run'.resume base' l).1 ∧
      I (run.resume base m).2 (run'.resume base' l).2 := by
  have hbranch (branch : Route) : base ++ (route ++ branch) = place ++ (base' ++ branch) := by
    rw [← List.append_assoc, hb, List.append_assoc]
  induction hr generalizing m l with
  | done ha => exact ⟨.done ha, h⟩
  | asleep wake hp =>
    simp only [Run.resume, (hI.mirrors h).clock]
    split
    · exact carried_start hI hp h hb
    · exact ⟨.asleep wake hp, h⟩
  | resolving branch key generation future hp =>
    have hsettled (value : Option Value) := hI.settle h (base' ++ branch) key generation value
    simp only [Run.resume, hbranch, (hI.mirrors h).outcome]
    cases l.outcome future with
    | running => exact ⟨.resolving branch key generation future hp, h⟩
    | resolved v => exact carried_start hI (hp _) (hsettled _) hb
    | failed => exact carried_start hI (hp _) (hsettled _) hb
  | @waiting α R branch wait wait' hw f g hp =>
    obtain ⟨hwait, hafter⟩ := mirrors_wait (hI.mirrors h) (base' ++ branch) hw
    have hkept := hI.quiet h hafter ((endured_sameSessions _).wait _ _) ((endured_sameSessions _).wait _ _)
    simp only [Run.resume, hbranch]
    generalize Machine.wait (place ++ (base' ++ branch)) wait m = x, Machine.wait (base' ++ branch) wait' l = y
      at hwait hkept ⊢
    obtain ⟨w, m'⟩ := x
    obtain ⟨w', l'⟩ := y
    dsimp only at hwait hkept
    cases hwait with
    | inl hw => exact ⟨.waiting branch hw hp, hkept⟩
    | inr hr => exact carried_start hI (hp _ _ hr) hkept hb
  | @joined α β n n' R E S parts parts' f g hn hparts hwait hp ih =>
    subst hn
    rw [resume_joined, resume_joined]
    exact carried_afterSweep (fun i m l h => ih i i rfl h) hp (fun r r' m l hr h => carried_start hI (hp r r' hr) h hb)
      h

theorem mirrors_resume {run run' : Run α} (hr : run.Alike place route R run') (h : Mirrors place m l)
    (hb : base ++ route = place ++ base') :
    (run.resume base m).1.Alike place route R (run'.resume base' l).1 ∧
      Mirrors place (run.resume base m).2 (run'.resume base' l).2 :=
  carried_resume (carried_mirrors place) hr h hb

/-! ## Readiness -/

/-- Runs that are alike can go on at the same time. -/
theorem isReady_alike {run run' : Run α} (hr : run.Alike place route R run') (h : Mirrors place m l) :
    run.isReady m = run'.isReady l := by
  induction hr with
  | done ha => rfl
  | asleep wake hp =>
    unfold Run.isReady
    rw [h.clock]
  | resolving branch key generation future hp =>
    unfold Run.isReady
    rw [h.outcome]
  | waiting branch hw hp =>
    cases hw with
    | futures front rest hf => exact rel_isSome (h.report front)
    | slots front rest hf =>
      unfold Run.isReady waitIsReady
      exact congrArg (fun o => !Outcome.isRunning o) (h.outcome front.2.2)
  | joined E S hn hparts hwait hp ih =>
    subst hn
    unfold Run.isReady
    exact congrArg (List.any _) (funext fun i => ih i i rfl)

/-- Runs that are alike wake at the same time. -/
theorem wake?_alike {run run' : Run α} (hr : run.Alike place route R run') : run.wake? = run'.wake? := by
  induction hr with
  | joined E S hn hparts hwait hp ih =>
    subst hn
    unfold Run.wake?
    exact congrArg (fun f => (List.filterMap f _).min?) (funext fun i => ih i i rfl)
  | _ => rfl

theorem future_isReady_alike {f f' : Future} (hf : f.Alike place f') (h : Mirrors place m l) :
    f.isReady m = f'.isReady l := by
  unfold Future.isReady
  generalize hs : f.state = state, hs' : f'.state = state'
  have hstate : state.Alike place state' := hs ▸ hs' ▸ hf.state
  cases hstate with
  | running hr => exact isReady_alike hr h
  | busy => rfl
  | ended _ _ => rfl

/-- A name is in the queue of the smaller machine if it is in that of the larger one. -/
theorem Mirrors.mem_ready (h : Mirrors place m l) (id : FutureId) : id.shift place ∈ m.ready ↔ id ∈ l.ready := by
  have hmem : id.shift place ∈ m.ready ↔ id.shift place ∈ m.ready.filter fun id => place <+: id.home := by
    simp [isPrefix_shift]
  rw [hmem, h.ready]
  simp [FutureId.shift_inj]

/-- What has become ready joins both queues. -/
theorem mirrors_enqueue (h : Mirrors place m l) : Mirrors place m.enqueue l.enqueue := by
  refine ⟨h.node, h.inputs, h.futures, ?_, h.clock⟩
  have hfutures := h.futures
  have hcomm : ((m.futures.filter fun f => f.isReady m && f.id ∉ m.ready).map Future.id).filter
      (fun id => place <+: id.home) =
        ((m.futures.filter fun f => place <+: f.id.home).filter fun f => f.isReady m && f.id ∉ m.ready).map
          Future.id := by
    rw [List.filter_map, List.filter_comm]
    rfl
  have hnew : ((m.futures.filter fun f => place <+: f.id.home).filter fun f => f.isReady m && f.id ∉ m.ready).map
      Future.id = ((l.futures.filter fun f => f.isReady l && f.id ∉ l.ready).map Future.id).map
        (FutureId.shift place) := by
    generalize (m.futures.filter fun f => place <+: f.id.home) = below, l.futures = futures at hfutures ⊢
    induction hfutures with
    | nil => rfl
    | @cons f f' rest rest' hf _ ih =>
      have hcond : (f.isReady m && decide (f.id ∉ m.ready)) = (f'.isReady l && decide (f'.id ∉ l.ready)) := by
        rw [future_isReady_alike hf h, hf.id, decide_eq_decide.2 (not_congr (h.mem_ready f'.id))]
      rw [List.filter_cons, List.filter_cons, hcond]
      split
      · rw [List.map_cons, List.map_cons, List.map_cons, ih, hf.id]
      · exact ih
  unfold enqueue
  rw [List.filter_append, List.map_append, h.ready, hcomm, hnew]

end MediaQuery.Machine
