import MediaQuery.Machine.Turn
import MediaQuery.Proofs.Machine.Mirror

/-!
# Futures of a machine inside another

Starting a future, ending it, waiting for it and looking for what has become ready are the same in a machine and in
its image (`mirrors_spawn`, `mirrors_keep`, `mirrors_wait`, `mirrors_enqueue`).
-/

namespace MediaQuery.Machine

variable {place : Route} {m l : Machine}

/-! ## Futures below a place -/

/-- A future below the place changes its state there. -/
theorem filter_setState_below {id : FutureId} (hid : place <+: id.home) (state : FutureState)
    (futures : List Future) :
    ((Future.setState id state futures).filter fun f => place <+: f.id.home) =
      Future.setState id state (futures.filter fun f => place <+: f.id.home) := by
  induction futures with
  | nil => rfl
  | cons f rest ih =>
    by_cases hbelow : place <+: f.id.home
    · rw [List.filter_cons_of_pos (by simpa using hbelow)]
      simp only [Future.setState]
      split
      · rw [List.filter_cons_of_pos (by simpa using hbelow)]
      · rw [List.filter_cons_of_pos (by simpa using hbelow), ih]
    · have hne : f.id ≠ id := fun heq => hbelow (heq ▸ hid)
      rw [List.filter_cons_of_neg (by simpa using hbelow), ← ih]
      simp only [Future.setState, if_neg hne]
      rw [List.filter_cons_of_neg (by simpa using hbelow)]

/-- A future that is not among those looked at changes its state elsewhere. -/
theorem filter_setState_other {p : Route → Bool} {id : FutureId} (hid : p id.home = false) (state : FutureState)
    (futures : List Future) :
    ((Future.setState id state futures).filter fun f => p f.id.home) = futures.filter fun f => p f.id.home := by
  induction futures with
  | nil => rfl
  | cons f rest ih =>
    unfold Future.setState
    by_cases hf : f.id = id
    · simp [hf, hid]
    · simp only [hf, if_false, List.filter_cons, ih]

theorem forall₂_setState {futures futures' : List Future} (h : List.Forall₂ (Future.Alike place) futures futures')
    (id : FutureId) {state state' : FutureState} (hs : state.Alike place state') :
    List.Forall₂ (Future.Alike place) (Future.setState (id.shift place) state futures)
      (Future.setState id state' futures') := by
  induction h with
  | nil => exact .nil
  | @cons f f' rest rest' hf hrest ih =>
    unfold Future.setState
    by_cases hid : f'.id = id
    · have hid' : f.id = id.shift place := by rw [hf.id, hid]
      rw [if_pos hid, if_pos hid']
      exact .cons ⟨hf.id, hf.key, hf.awaited, hs⟩ hrest
    · have hid' : f.id ≠ id.shift place := by rwa [hf.id, Ne, FutureId.shift_inj]
      rw [if_neg hid, if_neg hid']
      exact .cons hf ih

theorem mirrors_setFuture (h : Mirrors place m l) (id : FutureId) {state state' : FutureState}
    (hs : state.Alike place state') : Mirrors place (m.setFuture (id.shift place) state) (l.setFuture id state') := by
  refine ⟨h.node, h.inputs, ?_, h.ready, h.clock⟩
  rw [show (m.setFuture (id.shift place) state).futures = Future.setState (id.shift place) state m.futures from rfl,
    filter_setState_below (isPrefix_shift id)]
  exact forall₂_setState h.futures id hs

theorem mirrors_spawn (h : Mirrors place m l) (r : Route) (key : String) {p q : Prog (Except EvalError Value)}
    (hp : Prog.Alike [] (SameResult (EvalError.Like []) Eq) p q) :
    Mirrors place (m.spawn (place ++ r) key p) (l.spawn r key q) := by
  have hsome : (m.branch? (place ++ r)).isSome = (l.branch? r).isSome := by
    rw [isSome_branch?, isSome_branch?, h.isSome_node?]
  have hnext := h.nextFuture r
  have hstore := mirrors_modifyStore h r (fun s => s.write key (.pending (m.nextFuture (place ++ r))))
    (fun s => s.write key (.pending (l.nextFuture r))) fun s => by
      rw [hnext]
      exact s.write_shift place key (.pending (l.nextFuture r))
  have hbelow : place <+: ((l.nextFuture r).shift place).home := isPrefix_shift _
  unfold spawn
  rw [hsome]
  split
  · refine ⟨hstore.node, hstore.inputs, ?_, ?_, h.clock⟩
    · have hnew : Future.Alike place ⟨m.nextFuture (place ++ r), key, false, .running (.asleep m.clock p)⟩
          ⟨l.nextFuture r, key, false, .running (.asleep l.clock q)⟩ :=
        ⟨hnext, rfl, rfl, .running (h.clock ▸ .asleep m.clock hp)⟩
      rw [hnext] at hnew ⊢
      simp only [List.filter_append, List.filter_cons, hbelow, decide_true, if_true, List.filter_nil]
      exact List.rel_append h.futures (.cons hnew .nil)
    · rw [hnext]
      simp only [List.filter_append, List.filter_cons, hbelow, decide_true, if_true, List.filter_nil, List.map_append,
        List.map_cons, List.map_nil, h.ready]
  · exact h

theorem mirrors_complete (h : Mirrors place m l) {f f' : Future} (hid : f.id = f'.id.shift place)
    (hkey : f.key = f'.key) {result result' : Except EvalError Value}
    (hr : SameResult (EvalError.Like []) Eq result result') :
    Mirrors place (m.complete f result) (l.complete f' result') := by
  cases hr with
  | error he =>
    simp only [complete, hid]
    exact mirrors_setFuture h f'.id (.ended (.error he) (.error he))
  | @ok v v' hv =>
    subst hv
    have hhome : f.id.home = place ++ f'.id.home := by
      rw [hid]
      rfl
    have hgen : f.id.generation = f'.id.generation := by
      rw [hid]
      rfl
    simp only [complete, hhome, hgen, hkey, h.store, Store.resolve_shift]
    cases (l.store f'.id.home).resolve f'.key f'.id.generation v with
    | error e =>
      rw [hid]
      exact mirrors_setFuture h f'.id (.ended (.ok rfl) (.error (EvalError.like_refl _)))
    | ok s =>
      simp only [Except.map]
      rw [hid]
      exact mirrors_setFuture (mirrors_modifyStore h f'.id.home _ (fun _ => s) fun _ => rfl) f'.id
        (.ended (.ok rfl) (.ok rfl))

/-- A future is put back, or ends. -/
theorem mirrors_keep (h : Mirrors place m l) {f f' : Future} (hid : f.id = f'.id.shift place)
    (hkey : f.key = f'.key) {run run' : Run (Except EvalError Value)}
    (hr : run.Alike place [] (SameResult (EvalError.Like []) Eq) run') :
    Mirrors place (m.keep f run) (l.keep f' run') := by
  have hput (hr : run.Alike place [] (SameResult (EvalError.Like []) Eq) run') :
      Mirrors place (m.setFuture f.id (.running run)) (l.setFuture f'.id (.running run')) := by
    rw [hid]
    exact mirrors_setFuture h f'.id (.running hr)
  cases hr with
  | done hr => exact mirrors_complete h hid hkey hr
  | asleep wake hp => exact hput (.asleep wake hp)
  | resolving branch key generation future hp => exact hput (.resolving branch key generation future hp)
  | waiting branch hw hp => exact hput (.waiting branch hw hp)
  | joined E S hn hparts hwait hp => exact hput (.joined E S hn hparts hwait hp)

/-! ## Waiting -/

theorem mirrors_markAwaited (h : Mirrors place m l) (r : Route) :
    Mirrors place (m.markAwaited (place ++ r)) (l.markAwaited r) := by
  refine ⟨h.node, h.inputs, ?_, h.ready, h.clock⟩
  unfold markAwaited
  have hsame : (fun f => decide (place <+: f.id.home)) ∘
      (fun f : Future => if f.id.home = place ++ r then { f with awaited := true } else f) =
        fun f => decide (place <+: f.id.home) := by
    funext f
    dsimp only [Function.comp_apply]
    split <;> rfl
  rw [List.filter_map, hsame, List.forall₂_map_left_iff, List.forall₂_map_right_iff]
  refine h.futures.imp fun f f' hf => ?_
  by_cases hhome : f'.id.home = r
  · have hhome' : f.id.home = place ++ r := by
      rw [hf.id, ← hhome]
      rfl
    rw [if_pos hhome, if_pos hhome']
    exact ⟨hf.id, hf.key, rfl, hf.state⟩
  · have hhome' : f.id.home ≠ place ++ r := by
      rw [hf.id]
      simpa [FutureId.shift] using hhome
    rw [if_neg hhome, if_neg hhome']
    exact hf

theorem mirrors_unawaited (h : Mirrors place m l) (r : Route) :
    m.unawaited (place ++ r) = (l.unawaited r).map (FutureId.shift place) := by
  have hbelow : (m.futures.filter fun f => f.id.home = place ++ r && !f.awaited) =
      (m.futures.filter fun f => place <+: f.id.home).filter fun f => f.id.home = place ++ r && !f.awaited := by
    rw [List.filter_filter]
    refine List.filter_congr fun f _ => ?_
    by_cases hhome : f.id.home = place ++ r
    · simp [hhome]
    · simp [hhome]
  have hfutures := h.futures
  unfold unawaited
  rw [hbelow]
  generalize (m.futures.filter fun f => place <+: f.id.home) = below, l.futures = futures at hfutures ⊢
  induction hfutures with
  | nil => rfl
  | @cons f f' rest rest' hf _ ih =>
    have hhome : f.id.home = place ++ r ↔ f'.id.home = r := by
      rw [hf.id]
      simp [FutureId.shift]
    have hcond : (decide (f.id.home = place ++ r) && !f.awaited) = (decide (f'.id.home = r) && !f'.awaited) := by
      simp only [hhome, hf.awaited]
    rw [List.filter_cons, List.filter_cons, hcond]
    split
    · rw [List.map_cons, List.map_cons, List.map_cons, ih, hf.id]
    · exact ih

/-- Passing over futures that have ended. -/
theorem mirrors_collect (h : Mirrors place m l) (todo : List FutureId) {failure failure' : Option EvalError}
    (hf : Option.Rel (EvalError.Like []) failure failure') :
    (m.collect (todo.map (FutureId.shift place)) failure).1 =
        (l.collect todo failure').1.map (FutureId.shift place) ∧
      Option.Rel (EvalError.Like []) (m.collect (todo.map (FutureId.shift place)) failure).2
        (l.collect todo failure').2 := by
  induction todo generalizing failure failure' with
  | nil => exact ⟨rfl, hf⟩
  | cons id rest ih =>
    rw [List.map_cons]
    unfold collect
    rcases rel_cases (h.report id) with ⟨hm, hl⟩ | ⟨r, r', hm, hl, hr⟩
    · rw [hm, hl]
      exact ⟨rfl, hf⟩
    · rw [hm, hl]
      cases hr with
      | ok _ => exact ih hf
      | error he =>
        refine ih ?_
        cases hf with
        | none => exact .some he
        | some hf => exact .some hf

theorem mirrors_settleSlots (h : Mirrors place m l) (r : Route) (todo : List PendingSlot) :
    (settleSlots (place ++ r) (todo.map (slotShift place)) m).1 = (settleSlots r todo l).1.map (slotShift place) ∧
      Mirrors place (settleSlots (place ++ r) (todo.map (slotShift place)) m).2 (settleSlots r todo l).2 := by
  induction todo generalizing m l with
  | nil => exact ⟨rfl, h⟩
  | cons slot rest ih =>
    obtain ⟨key, generation, id⟩ := slot
    rw [List.map_cons]
    simp only [slotShift]
    unfold settleSlots
    rw [h.outcome id]
    split
    · exact ⟨rfl, h⟩
    · exact ih (mirrors_modifyStore h r _ _ fun s => s.settle_shift place key generation _)

/-- Waits that go on alike, or are over with the same result. -/
abbrev WaitAlike (place : Route) : Wait ⊕ Except EvalError Unit → Wait ⊕ Except EvalError Unit → Prop :=
  Sum.LiftRel (Wait.Alike place) (SameResult (EvalError.Like []) Eq)

theorem mirrors_waitSlots (h : Mirrors place m l) (r : Route) (todo : List PendingSlot)
    {failure failure' : Option EvalError} (hf : Option.Rel (EvalError.Like []) failure failure') :
    WaitAlike place (waitSlots (place ++ r) (todo.map (slotShift place)) failure m).1
        (waitSlots r todo failure' l).1 ∧
      Mirrors place (waitSlots (place ++ r) (todo.map (slotShift place)) failure m).2
        (waitSlots r todo failure' l).2 := by
  obtain ⟨hslots, hafter⟩ := mirrors_settleSlots h r todo
  unfold waitSlots
  generalize settleSlots (place ++ r) (todo.map (slotShift place)) m = x, settleSlots r todo l = y at hslots hafter ⊢
  obtain ⟨slots, m'⟩ := x
  obtain ⟨slots', l'⟩ := y
  subst hslots
  cases slots' with
  | nil =>
    refine ⟨.inr ?_, hafter⟩
    cases hf with
    | none => exact .ok rfl
    | some he => exact .error he
  | cons slot rest => exact ⟨.inl (.slots slot rest hf), hafter⟩

theorem mirrors_waitFutures (h : Mirrors place m l) (r : Route) (todo : List FutureId)
    {failure failure' : Option EvalError} (hf : Option.Rel (EvalError.Like []) failure failure') :
    WaitAlike place (waitFutures (place ++ r) (todo.map (FutureId.shift place)) failure m).1
        (waitFutures r todo failure' l).1 ∧
      Mirrors place (waitFutures (place ++ r) (todo.map (FutureId.shift place)) failure m).2
        (waitFutures r todo failure' l).2 := by
  obtain ⟨htodo, hfailure⟩ := mirrors_collect h todo hf
  unfold waitFutures
  generalize m.collect (todo.map (FutureId.shift place)) failure = x, l.collect todo failure' = y at htodo hfailure ⊢
  obtain ⟨left, failure₁⟩ := x
  obtain ⟨left', failure₁'⟩ := y
  dsimp only at htodo hfailure
  subst htodo
  cases left' with
  | cons id rest => exact ⟨.inl (.futures id rest hfailure), h⟩
  | nil =>
    have hmark := mirrors_markAwaited h r
    obtain ⟨hnew, hfailure'⟩ := mirrors_collect hmark (l.unawaited r) hfailure
    rw [← mirrors_unawaited h r] at hnew hfailure'
    simp only [List.map_nil]
    generalize (m.markAwaited (place ++ r)).collect (m.unawaited (place ++ r)) failure₁ = x,
      (l.markAwaited r).collect (l.unawaited r) failure₁' = y at hnew hfailure' ⊢
    obtain ⟨new, failure₂⟩ := x
    obtain ⟨new', failure₂'⟩ := y
    dsimp only at hnew hfailure'
    subst hnew
    cases new' with
    | cons id rest => exact ⟨.inl (.futures id rest hfailure'), hmark⟩
    | nil =>
      simp only [List.map_nil, h.store, Store.pending_shift]
      exact mirrors_waitSlots hmark r _ hfailure'

/-- **Waiting is the same in a machine and in its image.** -/
theorem mirrors_wait (h : Mirrors place m l) (r : Route) {wait wait' : Wait} (hw : wait.Alike place wait') :
    WaitAlike place (Machine.wait (place ++ r) wait m).1 (Machine.wait r wait' l).1 ∧
      Mirrors place (Machine.wait (place ++ r) wait m).2 (Machine.wait r wait' l).2 := by
  cases hw with
  | futures front rest hf => exact mirrors_waitFutures h r (front :: rest) hf
  | slots front rest hf => exact mirrors_waitSlots h r (front :: rest) hf

end MediaQuery.Machine
