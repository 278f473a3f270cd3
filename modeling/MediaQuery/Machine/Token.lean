import MediaQuery.Machine.Run
import MediaQuery.Order.Bag

/-!
# The work before a machine

The work that lies before a machine is a bag of tokens: one for every program that is yet to be carried out, one
for every wait, and a tick for every future that somebody waits for or is still to wait for. A program gives way
to its parts, a wait to what follows it, and ticks are below everything else; `wellFounded_below` says that this
order has no endless descents. The rest says how each change of a machine and each step of a wait changes the bag.
-/

namespace MediaQuery

open Bag

/-! ## Tokens -/

/-- A piece of the work before a machine. -/
inductive Token : Type 1
  | tick
  | prog {α : Type} (p : Prog α)
  | resolving {α : Type} (next : Except ContextError Value → Prog α)
  | awaiting {α : Type} (next : Except EvalError Unit → Prog α)
  | settling {α : Type} (next : Except EvalError Unit → Prog α)
  | joining {α β : Type} (next : Except ExecutionError (List β) → Prog α)

/-- The pieces that a piece of work may give way to. -/
inductive Token.Part : Token → Token → Prop
  | tick {t : Token} (h : t ≠ .tick) : Part .tick t
  | act {α β : Type} (op : Op β) (next : β → Prog α) (b : β) : Part (.prog (next b)) (.prog (.act op next))
  | sleep {α : Type} (ms : Nat) (next : Prog α) : Part (.prog next) (.prog (.sleep ms next))
  | future {α : Type} (branch : Route) (key : String) (future : Prog (Except EvalError Value)) (next : Prog α) :
      Part (.prog future) (.prog (.spawn branch key future next))
  | spawn {α : Type} (branch : Route) (key : String) (future : Prog (Except EvalError Value)) (next : Prog α) :
      Part (.prog next) (.prog (.spawn branch key future next))
  | resolve {α : Type} (branch : Route) (key : String) (next : Except ContextError Value → Prog α) :
      Part (.resolving next) (.prog (.resolve branch key next))
  | resolved {α : Type} (next : Except ContextError Value → Prog α) (r : Except ContextError Value) :
      Part (.prog (next r)) (.resolving next)
  | settle {α : Type} (branch : Route) (next : Except EvalError Unit → Prog α) :
      Part (.awaiting next) (.prog (.settle branch next))
  | awaited {α : Type} (next : Except EvalError Unit → Prog α) : Part (.settling next) (.awaiting next)
  | settled {α : Type} (next : Except EvalError Unit → Prog α) (r : Except EvalError Unit) :
      Part (.prog (next r)) (.settling next)
  | part {α β : Type} {n : Nat} (parts : Fin n → Prog (Except ExecutionError β))
      (next : Except ExecutionError (List β) → Prog α) (i : Fin n) :
      Part (.prog (parts i)) (.prog (.all parts next))
  | join {α β : Type} {n : Nat} (parts : Fin n → Prog (Except ExecutionError β))
      (next : Except ExecutionError (List β) → Prog α) : Part (.joining next) (.prog (.all parts next))
  | joined {α β : Type} (next : Except ExecutionError (List β) → Prog α) (r : Except ExecutionError (List β)) :
      Part (.prog (next r)) (.joining next)

namespace Token

theorem acc_tick : Acc Part .tick := ⟨_, fun _ h => by cases h; contradiction⟩

theorem acc_resolving {α : Type} {next : Except ContextError Value → Prog α}
    (h : ∀ r, Acc Part (.prog (next r))) : Acc Part (.resolving next) :=
  ⟨_, fun _ hp => by
    cases hp with
    | tick => exact acc_tick
    | resolved _ r => exact h r⟩

theorem acc_settling {α : Type} {next : Except EvalError Unit → Prog α}
    (h : ∀ r, Acc Part (.prog (next r))) : Acc Part (.settling next) :=
  ⟨_, fun _ hp => by
    cases hp with
    | tick => exact acc_tick
    | settled _ r => exact h r⟩

theorem acc_awaiting {α : Type} {next : Except EvalError Unit → Prog α}
    (h : ∀ r, Acc Part (.prog (next r))) : Acc Part (.awaiting next) :=
  ⟨_, fun _ hp => by
    cases hp with
    | tick => exact acc_tick
    | awaited => exact acc_settling h⟩

theorem acc_joining {α β : Type} {next : Except ExecutionError (List β) → Prog α}
    (h : ∀ r, Acc Part (.prog (next r))) : Acc Part (.joining next) :=
  ⟨_, fun _ hp => by
    cases hp with
    | tick => exact acc_tick
    | joined _ r => exact h r⟩

theorem acc_prog {α : Type} (p : Prog α) : Acc Part (.prog p) := by
  induction p with
  | done a => exact ⟨_, fun _ h => by cases h; exact acc_tick⟩
  | act op next ih =>
    refine ⟨_, fun _ h => ?_⟩
    cases h with
    | tick => exact acc_tick
    | act _ _ b => exact ih b
  | sleep ms next ih =>
    refine ⟨_, fun _ h => ?_⟩
    cases h with
    | tick => exact acc_tick
    | sleep => exact ih
  | spawn branch key future next ihf ih =>
    refine ⟨_, fun _ h => ?_⟩
    cases h with
    | tick => exact acc_tick
    | future => exact ihf
    | spawn => exact ih
  | resolve branch key next ih =>
    refine ⟨_, fun _ h => ?_⟩
    cases h with
    | tick => exact acc_tick
    | resolve => exact acc_resolving ih
  | settle branch next ih =>
    refine ⟨_, fun _ h => ?_⟩
    cases h with
    | tick => exact acc_tick
    | settle => exact acc_awaiting ih
  | all parts next ihp ih =>
    refine ⟨_, fun _ h => ?_⟩
    cases h with
    | tick => exact acc_tick
    | part _ _ i => exact ihp i
    | join => exact acc_joining ih

/-- Pieces reached in one or more steps. -/
abbrev Below : Token → Token → Prop := Relation.TransGen Part

theorem wellFounded_below : WellFounded Below :=
  WellFounded.transGen ⟨fun t => by
    cases t with
    | tick => exact acc_tick
    | prog p => exact acc_prog p
    | resolving next => exact acc_resolving fun r => acc_prog _
    | awaiting next => exact acc_awaiting fun r => acc_prog _
    | settling next => exact acc_settling fun r => acc_prog _
    | joining next => exact acc_joining fun r => acc_prog _⟩

end Token

open Token

/-- The work before a run. -/
def Run.tokens : {α : Type} → Run α → List Token
  | _, .done _ => []
  | _, .asleep _ next => [.prog next]
  | _, .resolving _ _ _ _ next => [.resolving next]
  | _, .waiting _ (.futures _ rest _) next => .awaiting next :: List.replicate (rest.length + 1) .tick
  | _, .waiting _ (.slots _ rest _) next => .settling next :: List.replicate (rest.length + 1) .tick
  | _, .joined parts next => .joining next :: (List.finRange _).flatMap fun i => (parts i).tokens

/-- The work before a future. -/
def FutureState.tokens : FutureState → List Token
  | .running run => run.tokens
  | _ => []

/-- The work before a future, with a tick until somebody waits for it. -/
def Future.tokens (f : Future) : List Token := f.state.tokens ++ if f.awaited then [] else [.tick]

/-- The work before the futures of a machine. -/
def Machine.tokens (m : Machine) : List Token := m.futures.flatMap Future.tokens

/-! ## Changes of a machine -/

section
variable {m : Machine} {a base : Route}

theorem tokens_modifyStore (f : Store → Store) : (m.modifyStore a f).tokens = m.tokens := rfl

theorem tokens_perform {α : Type} (op : Op α) : (m.perform base op).2.tokens = m.tokens := by
  cases op <;> rfl

/-- A future that is started brings its own work and a tick. -/
theorem tokens_spawn (key : String) (future : Prog (Except EvalError Value)) :
    (m.spawn a key future).tokens = m.tokens ∨ (m.spawn a key future).tokens = m.tokens ++ [.prog future, .tick] := by
  unfold Machine.spawn
  split
  · refine .inr ?_
    simp [Machine.tokens, Future.tokens, FutureState.tokens, Run.tokens]
  · exact .inl rfl

/-- Marking the futures of a branch as awaited uses up their ticks. -/
theorem tokens_markAwaited :
    m.tokens.Perm (List.replicate (m.unawaited a).length .tick ++ (m.markAwaited a).tokens) := by
  obtain ⟨tree, futures, ready, clock⟩ := m
  simp only [Machine.tokens, Machine.unawaited, Machine.markAwaited, List.length_map]
  induction futures with
  | nil => simp
  | cons f rest ih =>
    by_cases hh : f.id.home = a
    · cases hc : f.awaited with
      | false =>
        simp only [List.flatMap_cons, List.filter_cons, hh, hc, decide_true, Bool.not_false, Bool.and_self,
          if_true, List.length_cons, List.map_cons, Future.tokens, Bool.false_eq_true, if_false,
          List.replicate_succ, List.cons_append, List.append_nil, List.append_assoc]
        refine List.perm_middle.trans (.cons _ ?_)
        rw [List.nil_append]
        refine (ih.append_left f.state.tokens).trans ?_
        rw [← List.append_assoc, ← List.append_assoc]
        exact List.perm_append_comm.append_right _
      | true =>
        simp only [List.flatMap_cons, List.filter_cons, hh, hc, decide_true, Bool.not_true, Bool.and_false,
          Bool.false_eq_true, if_true, if_false, List.map_cons, Future.tokens, List.append_nil]
        refine (ih.append_left f.state.tokens).trans ?_
        rw [← List.append_assoc, ← List.append_assoc]
        exact List.perm_append_comm.append_right _
    · simp only [List.flatMap_cons, List.filter_cons, hh, decide_false, Bool.false_and, Bool.false_eq_true,
        if_false, List.map_cons]
      refine (ih.append_left f.tokens).trans ?_
      rw [← List.append_assoc, ← List.append_assoc]
      exact List.perm_append_comm.append_right _

/-- A future that is set has the work of its new state, and the work of the old state may be gone. -/
theorem tokens_setFuture (id : FutureId) (state : FutureState) :
    ∃ gone, ((m.setFuture id state).tokens ++ gone).Perm (state.tokens ++ m.tokens) := by
  obtain ⟨tree, futures, ready, clock⟩ := m
  simp only [Machine.tokens, Machine.setFuture]
  induction futures with
  | nil => exact ⟨state.tokens, by simp [Future.setState]⟩
  | cons f rest ih =>
    by_cases h : f.id = id
    · refine ⟨f.state.tokens, ?_⟩
      simp only [Future.setState, h, if_true, List.flatMap_cons, Future.tokens, List.append_assoc]
      refine List.Perm.append_left _ ?_
      rw [← List.append_assoc]
      exact List.perm_append_comm
    · obtain ⟨gone, hg⟩ := ih
      refine ⟨gone, ?_⟩
      simp only [Future.setState, h, if_false, List.flatMap_cons, List.append_assoc]
      refine (hg.append_left f.tokens).trans ?_
      rw [← List.append_assoc, ← List.append_assoc]
      exact List.perm_append_comm.append_right _

/-- A future that is taken on has its work taken out of the machine. -/
theorem tokens_busy {id : FutureId} {f : Future} {run : Run (Except EvalError Value)} (hf : m.future? id = some f)
    (hs : f.state = .running run) : m.tokens.Perm (run.tokens ++ (m.setFuture f.id .busy).tokens) := by
  obtain ⟨tree, futures, ready, clock⟩ := m
  simp only [Machine.future?] at hf
  have hid : f.id = id := by simpa using List.find?_some hf
  simp only [Machine.tokens, Machine.setFuture]
  induction futures with
  | nil => simp at hf
  | cons g rest ih =>
    by_cases h : g.id = f.id
    · have hg : g = f := by simpa [List.find?_cons, h, hid] using hf
      subst hg
      simp [Future.setState, Future.tokens, hs, FutureState.tokens]
    · have hg : rest.find? (·.id = id) = some f := by
        rw [List.find?_cons] at hf
        simpa [h, ← hid] using hf
      simp only [Future.setState, h, if_false, List.flatMap_cons]
      refine ((ih hg).append_left g.tokens).trans ?_
      rw [← List.append_assoc, ← List.append_assoc]
      exact List.perm_append_comm.append_right _

/-- Completing a future leaves no work of it. -/
theorem tokens_complete (f : Future) (result : Except EvalError Value) :
    ∃ gone, ((m.complete f result).tokens ++ gone).Perm m.tokens := by
  cases result with
  | error e =>
    simpa [Machine.complete, FutureState.tokens] using
      tokens_setFuture f.id (.ended (.error e) (.error e)) (m := m)
  | ok value =>
    simp only [Machine.complete]
    split
    · next store _ =>
      simpa [FutureState.tokens, tokens_modifyStore] using
        tokens_setFuture f.id (.ended (.ok value) (.ok ())) (m := m.modifyStore f.id.home fun _ => store)
    · next e _ =>
      simpa [FutureState.tokens] using
        tokens_setFuture f.id (.ended (.ok value) (.error (.context e))) (m := m)

end

/-! ## Waiting -/

/-- Some ticks are no more work than more of them. -/
theorem ticks_le {k n : Nat} (h : k ≤ n) (l : List Token) :
    Le Below (List.replicate k .tick ++ l) (List.replicate n .tick ++ l) := by
  obtain ⟨j, rfl⟩ := Nat.exists_eq_add_of_le' h
  rw [← List.replicate_append_replicate, List.append_assoc]
  exact Le.drop _ _

/-- Fewer ticks are less work. -/
theorem ticks_lt {k n : Nat} (h : k < n) (l : List Token) :
    Lt Below (List.replicate k .tick ++ l) (List.replicate n .tick ++ l) := by
  refine (ticks_le (Nat.le_pred_of_lt h) l).trans_lt ?_
  obtain ⟨n, rfl⟩ := Nat.exists_eq_add_one_of_ne_zero (Nat.ne_zero_of_lt h)
  exact Lt.drop Token.tick _

/-- A wait that is held up among the given futures. -/
theorem collect_eq_cons {m : Machine} {todo rest : List FutureId} {failure failure' : Option EvalError}
    {id : FutureId} (h : m.collect todo failure = (id :: rest, failure')) :
    rest.length + 1 ≤ todo.length ∧
      ∀ front back, todo = front :: back → ((m.future? front).bind Future.report?).isSome →
        rest.length + 1 < todo.length := by
  induction todo generalizing failure with
  | nil => simp [Machine.collect] at h
  | cons f todo ih =>
    unfold Machine.collect at h
    split at h
    · next hn =>
      simp only [Prod.mk.injEq, List.cons.injEq] at h
      obtain ⟨⟨rfl, rfl⟩, rfl⟩ := h
      refine ⟨by simp, fun front back e hs => ?_⟩
      simp only [List.cons.injEq] at e
      rw [← e.1, hn] at hs
      simp at hs
    · have hl := (ih h).1
      exact ⟨by simp; omega, fun _ _ _ _ => by simp; omega⟩
    · have hl := (ih h).1
      exact ⟨by simp; omega, fun _ _ _ _ => by simp; omega⟩

/-- Futures are not passed over before the first of them has ended. -/
theorem collect_of_not_ready {m : Machine} {id : FutureId} {rest : List FutureId} {failure : Option EvalError}
    (h : ((m.future? id).bind Future.report?).isSome = false) :
    m.collect (id :: rest) failure = (id :: rest, failure) := by
  unfold Machine.collect
  split
  · rfl
  · next hs => simp [hs] at h
  · next hs => simp [hs] at h

/-- A wait that is not ready stays as it is. -/
theorem wait_of_not_ready {m : Machine} {a : Route} {wait : Wait} (h : m.waitIsReady wait = false) :
    Machine.wait a wait m = (.inl wait, m) := by
  cases wait with
  | futures front rest failure => simp [Machine.wait, Machine.waitFutures, collect_of_not_ready h]
  | slots front rest failure =>
    obtain ⟨key, generation, id⟩ := front
    have hrunning : (m.outcome id).isRunning = true := by simpa [Machine.waitIsReady] using h
    simp [Machine.wait, Machine.waitSlots, Machine.settleSlots, hrunning]

/-- The tokens of a wait for the given continuation. -/
def Wait.tokens {α : Type} (next : Except EvalError Unit → Prog α) : Wait → List Token
  | .futures _ rest _ => .awaiting next :: List.replicate (rest.length + 1) .tick
  | .slots _ rest _ => .settling next :: List.replicate (rest.length + 1) .tick

theorem tokens_waiting {α : Type} (branch : Route) (wait : Wait) (next : Except EvalError Unit → Prog α) :
    (Run.waiting branch wait next).tokens = wait.tokens next := by
  cases wait <;> rfl

theorem tokens_settleSlots (a : Route) (todo : List PendingSlot) (m : Machine) :
    (Machine.settleSlots a todo m).2.tokens = m.tokens ∧ (Machine.settleSlots a todo m).1.length ≤ todo.length := by
  induction todo generalizing m with
  | nil => exact ⟨rfl, Nat.le_refl _⟩
  | cons slot rest ih =>
    obtain ⟨key, generation, id⟩ := slot
    unfold Machine.settleSlots
    split
    · exact ⟨rfl, Nat.le_refl _⟩
    · have h := ih (m.modifyStore a fun s => s.settle key generation (m.outcome id).value?)
      exact ⟨h.1, by simp; omega⟩

/-- The second half of a wait gives way to nothing but ticks and its continuation. -/
theorem tokens_waitSlots {a : Route} {todo : List PendingSlot} {failure : Option EvalError} {m m' : Machine}
    {r : Wait ⊕ Except EvalError Unit} (h : Machine.waitSlots a todo failure m = (r, m')) :
    m'.tokens = m.tokens ∧
      ∀ wait, r = .inl wait → ∃ slot rest, wait = .slots slot rest failure ∧ rest.length + 1 ≤ todo.length := by
  unfold Machine.waitSlots at h
  have ht := tokens_settleSlots a todo m
  split at h
  · next m1 he =>
    rw [he] at ht
    simp only [Prod.mk.injEq] at h
    obtain ⟨rfl, rfl⟩ := h
    exact ⟨ht.1, fun _ e => by simp at e⟩
  · next slot rest m1 he =>
    rw [he] at ht
    simp only [Prod.mk.injEq] at h
    obtain ⟨rfl, rfl⟩ := h
    exact ⟨ht.1, fun wait e => by
      simp only [Sum.inl.injEq] at e
      exact ⟨slot, rest, e.symm, by simpa using ht.2⟩⟩

/-- Pieces that a wait may give way to. -/
theorem below_awaiting_of_mem {α : Type} {next : Except EvalError Unit → Prog α} {n : Nat} {t : Token}
    (h : t ∈ Token.settling next :: List.replicate n .tick) : Below t (.awaiting next) := by
  rcases List.mem_cons.1 h with rfl | h
  · exact .single (.awaited next)
  · rw [List.eq_of_mem_replicate h]
    exact .single (.tick (by simp))

/-- A wait from its start: what it turns into lies below its continuation's wait. -/
theorem tokens_waitFutures {a : Route}
    {todo : List FutureId} {failure : Option EvalError} {m m' : Machine} {r : Wait ⊕ Except EvalError Unit}
    (h : Machine.waitFutures a todo failure m = (r, m')) :
    (∃ id rest failure', r = .inl (.futures id rest failure') ∧
        (m' = m ∧ m.collect todo failure = (id :: rest, failure') ∨
          ((m.collect todo failure).1 = [] ∧
            Le Below (List.replicate (rest.length + 1) .tick ++ m'.tokens) m.tokens))) ∨
      (∃ slot rest failure', r = .inl (.slots slot rest failure') ∧ Le Below m'.tokens m.tokens) ∨
      (∃ result, r = .inr result ∧ Le Below m'.tokens m.tokens) := by
  have hawaited : Le Below (m.markAwaited a).tokens m.tokens :=
    (Le.drop _ _).trans (.inl (tokens_markAwaited (m := m) (a := a)).symm)
  unfold Machine.waitFutures at h
  split at h
  · next id rest failure' he =>
    simp only [Prod.mk.injEq] at h
    obtain ⟨rfl, rfl⟩ := h
    exact .inl ⟨id, rest, failure', rfl, .inl ⟨rfl, he⟩⟩
  · next failure1 he =>
    split at h
    · next id rest failure' he' =>
      simp only [Prod.mk.injEq] at h
      obtain ⟨rfl, rfl⟩ := h
      refine .inl ⟨id, rest, failure', rfl, .inr ⟨by rw [he], ?_⟩⟩
      exact (ticks_le (collect_eq_cons he').1 _).trans (.inl (tokens_markAwaited (m := m) (a := a)).symm)
    · next failure2 he' =>
      obtain ⟨ht, hw⟩ := tokens_waitSlots h
      cases r with
      | inl wait =>
        obtain ⟨slot, rest, rfl, _⟩ := hw wait rfl
        exact .inr (.inl ⟨slot, rest, failure2, rfl, by rw [ht]; exact hawaited⟩)
      | inr result => exact .inr (.inr ⟨result, rfl, by rw [ht]; exact hawaited⟩)

/-- The tokens of a wait. -/
theorem mem_waitTokens {α : Type} {next : Except EvalError Unit → Prog α} {wait : Wait} {t : Token}
    (h : t ∈ wait.tokens next) : t = .awaiting next ∨ t = .settling next ∨ t = .tick := by
  cases wait with
  | futures id rest failure =>
    rcases List.mem_cons.1 h with h | h
    · exact .inl h
    · exact .inr (.inr (List.eq_of_mem_replicate h))
  | slots slot rest failure =>
    rcases List.mem_cons.1 h with h | h
    · exact .inr (.inl h)
    · exact .inr (.inr (List.eq_of_mem_replicate h))

/-- A wait may only use up ticks of the machine. -/
theorem spends_waitFutures {x : Token} {a : Route} {todo : List FutureId} {failure : Option EvalError}
    {m m' : Machine} {r : Wait ⊕ Except EvalError Unit} (h : Machine.waitFutures a todo failure m = (r, m')) :
    Spends Below x m'.tokens m.tokens := by
  have hawaited : Spends Below x (m.markAwaited a).tokens m.tokens :=
    ⟨[], List.replicate (m.unawaited a).length .tick, by simp,
      List.perm_append_comm.trans (tokens_markAwaited (m := m) (a := a)).symm⟩
  unfold Machine.waitFutures at h
  split at h
  · cases h
    exact .refl x _
  · split at h
    · cases h
      exact hawaited
    · rw [(tokens_waitSlots h).1]
      exact hawaited

end MediaQuery
