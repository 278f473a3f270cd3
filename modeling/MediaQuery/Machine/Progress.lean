import MediaQuery.Machine.Token
import MediaQuery.Machine.Turn

/-!
# Every turn makes progress

Carrying out a program spends its token (`start_spends`), and taking a run on spends some of the work before it
unless the run was not ready (`resume_idle_or_works`). So every turn leaves less work than before (`turn_lt`), and
a machine cannot take turns for ever.
-/

namespace MediaQuery

open Bag Token

/-! ## Starting -/

theorem flatMap_finRange_get {α : Type u} {β : Type v} (l : List α) (f : α → List β) :
    ((List.finRange l.length).flatMap fun i => f (l.get i)) = l.flatMap f := by
  induction l with
  | nil => rfl
  | cons a l ih =>
    simp only [List.length_cons, List.finRange_succ, List.flatMap_cons, List.flatMap_map]
    exact congrArg _ ih

theorem tokens_joined {α β : Type} (runs : List (Run (Except ExecutionError β)))
    (next : Except ExecutionError (List β) → Prog α) :
    (Run.joined runs.get next).tokens = .joining next :: runs.flatMap Run.tokens := by
  simp only [Run.tokens]
  rw [flatMap_finRange_get]

theorem below_trans {a b c : Token} (h : Below a b) (h' : Below b c) : Below a c := Relation.TransGen.trans h h'

/-- The tokens of a run together with its machine. -/
abbrev jointTokens {α : Type} (r : Run α × Machine) : List Token := r.1.tokens ++ r.2.tokens

/-- The tokens of what a sweep has reached together with its machine. -/
def sweepTokens {β : Type} :
    Except ExecutionError (List (Run (Except ExecutionError β))) × Machine → List Token
  | (.error _, m) => m.tokens
  | (.ok runs, m) => runs.flatMap Run.tokens ++ m.tokens

/-- A sweep spends no more than each of its parts. -/
theorem sweep_spends {β : Type} {n : Nat} {x : Token}
    {advance : Fin n → Machine → Run (Except ExecutionError β) × Machine}
    (h : ∀ i m, Spends Below x (jointTokens (advance i m)) m.tokens) (is : List (Fin n)) (m : Machine) :
    Spends Below x (sweepTokens (sweep advance is m)) m.tokens := by
  induction is generalizing m with
  | nil => exact .refl x _
  | cons i rest ih =>
    have hi := h i m
    unfold sweep
    split
    · next e m1 he =>
      rw [he] at hi
      exact hi.loss
    · next run m1 _ he =>
      rw [he] at hi
      have hr := ih m1
      revert hr
      cases hs : sweep advance rest m1 with
      | mk res m2 =>
        intro hr
        cases res with
        | error e => exact Spends.loss (((hr.append_left run.tokens).trans hi))
        | ok runs =>
          simp only [sweepTokens, List.flatMap_cons, List.append_assoc]
          exact (hr.append_left run.tokens).trans hi

/-- Carrying out a program spends its token. -/
theorem start_spends {α : Type} (p : Prog α) (base : Route) (m : Machine) :
    Spends Below (.prog p) (jointTokens (p.start base m)) m.tokens := by
  induction p generalizing m with
  | done a => exact .refl _ _
  | act op next ih =>
    have h := ih (m.perform base op).1 (m.perform base op).2
    rw [tokens_perform] at h
    exact h.rise (.single (.act op next _))
  | sleep ms next ih =>
    unfold Prog.start
    split
    · exact (ih m).rise (.single (.sleep ms next))
    · exact .gain_one (.single (.sleep ms next)) (.refl _ _)
  | spawn branch key future next _ ih =>
    have h := (ih (m.spawn (base ++ branch) key future)).rise (.single (.spawn branch key future next))
    refine h.trans ?_
    rcases tokens_spawn (m := m) (a := base ++ branch) key future with hs | hs
    · rw [hs]
      exact .refl _ _
    · rw [hs]
      have hnew : Spends Below (.prog (.spawn branch key future next)) ([.prog future, .tick] ++ m.tokens) m.tokens :=
        .gain_one (.single (.future branch key future next)) (.gain_one (.single (.tick (by simp))) (.refl _ _))
      exact hnew.perm_left List.perm_append_comm
  | resolve branch key next ih =>
    have hb : ∀ r, Below (.prog (next r)) (.prog (.resolve branch key next)) := fun r =>
      .tail (.single (.resolved next r)) (.resolve branch key next)
    unfold Prog.start
    split
    · exact (ih _ m).rise (hb _)
    · exact (ih _ m).rise (hb _)
    · split
      · exact .gain_one (.single (.resolve branch key next)) (.refl _ _)
      · exact (ih _ _).rise (hb _)
      · exact (ih _ _).rise (hb _)
  | settle branch next ih =>
    have ha : Below (.awaiting next) (.prog (.settle branch next)) := .single (.settle branch next)
    unfold Prog.start
    split
    · next wait m1 he =>
      rw [jointTokens, tokens_waiting]
      refine .gain (fun y hy => ?_) (spends_waitFutures he)
      rcases mem_waitTokens hy with rfl | rfl | rfl
      · exact ha
      · exact below_trans (.single (.awaited next)) ha
      · exact .single (.tick (by simp))
    · next r m1 he =>
      have hr : Below (.prog (next r)) (.awaiting next) := .tail (.single (.settled next r)) (.awaited next)
      exact ((ih r m1).rise (below_trans hr ha)).trans (spends_waitFutures he)
  | all parts next ihp ih =>
    have hb : ∀ r, Below (.prog (next r)) (.prog (.all parts next)) := fun r =>
      .tail (.single (.joined next r)) (.join parts next)
    have hs : Spends Below (.prog (.all parts next))
        (sweepTokens (sweep (fun i m => (parts i).start base m) (List.finRange _) m)) m.tokens :=
      sweep_spends (fun i m => (ihp i m).rise (.single (.part parts next i))) (List.finRange _) m
    unfold Prog.start
    split
    · next e m1 he =>
      rw [he] at hs
      exact ((ih _ _).rise (hb _)).trans hs
    · next runs m1 he =>
      rw [he] at hs
      split
      · exact ((ih _ _).rise (hb _)).trans hs.loss
      · rw [jointTokens, tokens_joined]
        exact .gain_one (.single (.join parts next)) hs

/-! ## Resuming -/

/-- The run is not ready: taking it on leaves the machine as it is, and as much work in the run. -/
def Idle {α : Type} (run : Run α) (base : Route) (m : Machine) : Prop :=
  run.isReady m = false ∧ (run.resume base m).1.tokens = run.tokens ∧ (run.resume base m).2 = m

/-- Taking a run on spends some of its work or some of the machine's. -/
def Works {α : Type} (run : Run α) (base : Route) (m : Machine) : Prop :=
  Lt Below (jointTokens (run.resume base m)) (run.tokens ++ m.tokens)

theorem idle_of_resume {α : Type} {run : Run α} {base : Route} {m : Machine} (hn : run.isReady m = false)
    (h : run.resume base m = (run, m)) : Idle run base m := by
  unfold Idle
  rw [h]
  exact ⟨hn, rfl, rfl⟩

theorem le_of_idle_or_works {α : Type} {run : Run α} {base : Route} {m : Machine}
    (h : Idle run base m ∨ Works run base m) :
    Le Below (jointTokens (run.resume base m)) (run.tokens ++ m.tokens) := by
  rcases h with h | h
  · rw [jointTokens, h.2.1, h.2.2]
    exact .refl _
  · exact .inr h

/-- What goes on after a wait spends the token of the wait. -/
theorem settled_lt {α : Type} {next : Except EvalError Unit → Prog α} {base : Route} {m m' : Machine} {x : Token}
    {r : Except EvalError Unit} (hx : Below (.prog (next r)) x) (hm : Le Below m'.tokens m.tokens)
    (ticks : List Token) : Lt Below (jointTokens ((next r).start base m')) (x :: (ticks ++ m.tokens)) := by
  refine ((start_spends (next r) base m').rise hx).below.trans_le ?_
  exact (hm.trans (Le.drop ticks _)).append_left [x]

section
variable {α : Type} {branch base : Route} {failure : Option EvalError} {next : Except EvalError Unit → Prog α}
  {m : Machine}

/-- A wait for futures, the first of which has ended, spends: it has fewer futures left, or none. -/
theorem works_of_futures {id : FutureId} {rest : List FutureId}
    (hready : m.waitIsReady (.futures id rest failure) = true) :
    Works (.waiting branch (.futures id rest failure) next) base m := by
  unfold Works Run.resume
  split
  · next wait m1 he =>
    rw [jointTokens, tokens_waiting, tokens_waiting]
    rcases tokens_waitFutures he with ⟨id', rest', failure', hw, h⟩ | ⟨slot, rest', failure', hw, h⟩ | ⟨r, hw, _⟩
    · cases hw
      refine Lt.append_left (a := List.replicate (rest'.length + 1) .tick ++ m1.tokens) ?_ [.awaiting next]
      rcases h with ⟨rfl, hc⟩ | ⟨-, hle⟩
      · exact ticks_lt ((collect_eq_cons hc).2 id rest rfl hready) _
      · have hticks : List.replicate (rest.length + 1) Token.tick ≠ [] := by simp
        exact hle.trans_lt (Lt.drop_of_ne_nil hticks)
    · cases hw
      exact Lt.replace (fun y hy => below_awaiting_of_mem hy) (h.trans (Le.drop _ _))
    · cases hw
  · next r m1 he =>
    rw [tokens_waiting]
    rcases tokens_waitFutures he with ⟨_, _, _, hw, _⟩ | ⟨_, _, _, hw, _⟩ | ⟨_, _, h⟩
    · cases hw
    · cases hw
    · exact settled_lt (.tail (.single (.settled next r)) (.awaited next)) h _

/-- A wait for pending slots, the future of the first of which has ended, spends: it has fewer slots left, or none. -/
theorem works_of_slots {slot : PendingSlot} {rest : List PendingSlot}
    (hready : m.waitIsReady (.slots slot rest failure) = true) :
    Works (.waiting branch (.slots slot rest failure) next) base m := by
  obtain ⟨key, generation, id⟩ := slot
  have hrun : (m.outcome id).isRunning = false := by simpa [Machine.waitIsReady] using hready
  unfold Works Run.resume
  split
  · next wait m1 he =>
    rw [jointTokens, tokens_waiting, tokens_waiting]
    simp only [Machine.wait, Machine.waitSlots, Machine.settleSlots, hrun, Bool.false_eq_true, if_false] at he
    have hs := tokens_settleSlots (base ++ branch) rest
      (m.modifyStore (base ++ branch) fun s => s.settle key generation (m.outcome id).value?)
    split at he
    · cases he
    · next slot' rest' m2 hm =>
      cases he
      rw [hm] at hs
      have htokens : m1.tokens = m.tokens := hs.1
      refine Lt.append_left (a := List.replicate (rest'.length + 1) .tick ++ m1.tokens) ?_ [.settling next]
      rw [htokens]
      exact ticks_lt (Nat.lt_succ_of_le hs.2) _
  · next r m1 he =>
    rw [tokens_waiting]
    have htokens : m1.tokens = m.tokens := (tokens_waitSlots he).1
    exact settled_lt (.single (.settled next r)) (.inl (by rw [htokens])) _

/-- Taking a wait on either leaves all as it is, and then the wait was not ready, or spends. -/
theorem waiting_idle_or_works (wait : Wait) :
    Idle (.waiting branch wait next) base m ∨ Works (.waiting branch wait next) base m := by
  cases hready : m.waitIsReady wait with
  | true =>
    cases wait with
    | futures id rest failure => exact .inr (works_of_futures hready)
    | slots slot rest failure => exact .inr (works_of_slots hready)
  | false =>
    refine .inl (idle_of_resume hready ?_)
    unfold Run.resume
    rw [wait_of_not_ready hready]

end

/-! ## Sweeping over parts -/

/-- A run, in front of those that a sweep has taken on after it. -/
def beside {β : Type} (run : Run (Except ExecutionError β)) :
    Except ExecutionError (List (Run (Except ExecutionError β))) × Machine →
      Except ExecutionError (List (Run (Except ExecutionError β))) × Machine
  | (.ok runs, m) => (.ok (run :: runs), m)
  | (.error e, m) => (.error e, m)

/-- What a sweep over some waiting parts comes to: if none fails, then none was ready and nothing happens, or the sweep
spends. -/
def Progresses {β : Type} {n : Nat} (parts : Fin n → Run (Except ExecutionError β)) (is : List (Fin n)) (m : Machine) :
    Except ExecutionError (List (Run (Except ExecutionError β))) × Machine → Prop
  | (.error _, m') => Le Below m'.tokens ((is.flatMap fun i => (parts i).tokens) ++ m.tokens)
  | (.ok runs, m') =>
    ((is.any fun i => (parts i).isReady m) = false ∧
      runs.flatMap Run.tokens = (is.flatMap fun i => (parts i).tokens) ∧ m' = m) ∨
    Lt Below (runs.flatMap Run.tokens ++ m'.tokens) ((is.flatMap fun i => (parts i).tokens) ++ m.tokens)

section
variable {β : Type} {n : Nat} {parts : Fin n → Run (Except ExecutionError β)} {base : Route}

/-- The work of a part that has been taken on, with that of other parts between it and the machine. -/
theorem le_around {i : Fin n} {m : Machine} (h : Idle (parts i) base m ∨ Works (parts i) base m) (others : List Token) :
    Le Below (((parts i).resume base m).1.tokens ++ (others ++ ((parts i).resume base m).2.tokens))
      ((parts i).tokens ++ (others ++ m.tokens)) :=
  (Le.trans (.inl (List.perm_append_comm_assoc ..)) ((le_of_idle_or_works h).append_left others)).trans
    (.inl (List.perm_append_comm_assoc ..))

/-- One part is taken on in front of the others. -/
theorem Progresses.beside {i : Fin n} {rest : List (Fin n)} {m : Machine}
    {swept : Except ExecutionError (List (Run (Except ExecutionError β))) × Machine}
    (hi : Idle (parts i) base m ∨ Works (parts i) base m)
    (h : Progresses parts rest ((parts i).resume base m).2 swept) :
    Progresses parts (i :: rest) m (beside ((parts i).resume base m).1 swept) := by
  have haround := le_around hi
  obtain ⟨res, m2⟩ := swept
  unfold Progresses at h ⊢
  simp only [List.flatMap_cons, List.append_assoc]
  cases res with
  | error e => exact (h.trans (Le.drop _ _)).trans (haround _)
  | ok runs =>
    simp only [MediaQuery.beside, List.flatMap_cons, List.append_assoc]
    rcases h with ⟨hn, ht, rfl⟩ | hlt
    · rcases hi with ⟨hn', ht', hm⟩ | hi
      · refine .inl ⟨?_, by rw [ht, ht'], hm⟩
        rw [hm] at hn
        rw [List.any_cons, hn, hn']
        rfl
      · rw [ht]
        exact .inr (((hi.append_left _).perm_left (List.perm_append_comm_assoc ..)).perm_right
          (List.perm_append_comm_assoc ..))
    · exact .inr ((hlt.append_left _).trans_le (haround _))

/-- A sweep over waiting parts progresses if each part does. -/
theorem sweep_progresses (h : ∀ i m, Idle (parts i) base m ∨ Works (parts i) base m) (is : List (Fin n)) (m : Machine) :
    Progresses parts is m (sweep (fun i m => (parts i).resume base m) is m) := by
  induction is generalizing m with
  | nil => exact .inl ⟨rfl, rfl, rfl⟩
  | cons i rest ih =>
    have hi := h i m
    have htail := (ih ((parts i).resume base m).2).beside hi
    have hle := le_of_idle_or_works hi
    unfold sweep
    revert htail hle
    cases (parts i).resume base m with
    | mk run m1 =>
      intro htail hle
      cases run with
      | done r =>
        cases r with
        | error e =>
          refine hle.trans ?_
          rw [List.flatMap_cons, List.append_assoc]
          exact (Le.drop _ _).append_left _
        | ok a => exact htail
      | asleep wake next => exact htail
      | resolving branch key generation future next => exact htail
      | waiting branch wait next => exact htail
      | joined parts' next => exact htail

end

/-- Taking a run on does nothing unless it is ready, and otherwise spends. -/
theorem resume_idle_or_works {α : Type} (run : Run α) (base : Route) (m : Machine) :
    Idle run base m ∨ Works run base m := by
  induction run generalizing m with
  | done a => exact .inl ⟨rfl, rfl, rfl⟩
  | asleep wake next =>
    unfold Idle Works Run.resume
    split
    · exact .inr (start_spends next base m).below
    · next h => exact .inl ⟨by simpa [Run.isReady] using h, rfl, rfl⟩
  | resolving branch key generation future next =>
    unfold Idle Works Run.resume
    have hr : ∀ r m, Lt Below (jointTokens ((next r).start base m)) ([Token.resolving next] ++ m.tokens) :=
      fun r m => ((start_spends (next r) base m).rise (.single (.resolved next r))).below
    split
    · next h => exact .inl ⟨by simp [Run.isReady, h, Outcome.isRunning], rfl, rfl⟩
    · exact .inr (hr _ _)
    · exact .inr (hr _ _)
  | waiting branch wait next => exact waiting_idle_or_works wait
  | @joined _ β n parts next ih =>
    have hs := sweep_progresses ih (List.finRange n) m
    have hend : ∀ {r : Except ExecutionError (List β)} {m1 : Machine} {ts : List Token},
        Le Below m1.tokens (ts ++ m.tokens) →
        Lt Below (jointTokens ((next r).start base m1)) (Token.joining next :: ts ++ m.tokens) := by
      intro r m1 ts hm
      refine ((start_spends (next r) base m1).rise (.single (.joined next r))).below.trans_le ?_
      exact hm.append_left [Token.joining next]
    unfold Idle Works Run.resume
    revert hs
    cases sweep (fun i m => (parts i).resume base m) (List.finRange n) m with
    | mk res m1 =>
      cases res with
      | error e => exact fun hs => .inr (hend hs)
      | ok runs =>
        intro hs
        have hle : Le Below (runs.flatMap Run.tokens ++ m1.tokens)
            (((List.finRange n).flatMap fun i => (parts i).tokens) ++ m.tokens) := by
          rcases hs with ⟨_, ht, rfl⟩ | hs
          · rw [ht]
            exact .refl _
          · exact .inr hs
        dsimp only
        split
        · exact .inr (hend ((Le.drop _ _).trans hle))
        · rcases hs with ⟨hn, ht, rfl⟩ | hs
          · exact .inl ⟨hn, by rw [tokens_joined, ht]; rfl, rfl⟩
          · rw [jointTokens, tokens_joined]
            exact .inr (hs.append_left [Token.joining next])

/-! ## Turns -/

theorem tokens_enqueue (m : Machine) : m.enqueue.tokens = m.tokens := rfl

theorem tokens_keep (m : Machine) (f : Future) (run : Run (Except EvalError Value)) :
    Le Below (m.keep f run).tokens (run.tokens ++ m.tokens) := by
  have hset : ∀ run : Run (Except EvalError Value),
      Le Below (m.setFuture f.id (.running run)).tokens (run.tokens ++ m.tokens) := fun run => by
    obtain ⟨gone, hg⟩ := tokens_setFuture f.id (.running run) (m := m)
    exact (Le.drop gone _).trans (.inl (List.perm_append_comm.trans hg))
  unfold Machine.keep
  split
  · next result =>
    obtain ⟨gone, hg⟩ := tokens_complete f result (m := m)
    exact (Le.drop gone _).trans (.inl (List.perm_append_comm.trans hg))
  · exact hset _

/-- Taking a future on makes less of the work. -/
theorem runFuture_lt {m m' : Machine} {id : FutureId} {f : Future} (hf : m.future? id = some f)
    (h : m.runFuture f = some m') : Lt Below m'.tokens m.tokens := by
  unfold Machine.runFuture at h
  split at h
  · next run hs =>
    dsimp only at h
    split at h
    · next hready =>
      simp only [Option.some.injEq] at h
      subst h
      rw [tokens_enqueue]
      have hb := tokens_busy hf hs
      rcases resume_idle_or_works run f.id.home (m.setFuture f.id .busy) with hi | hw
      · rw [hi.1] at hready
        exact absurd hready (by simp)
      · exact ((tokens_keep _ f _).trans_lt hw).perm_right hb.symm
    · cases h
  · cases h

theorem runQueue_lt {m m' : Machine} {queue : List FutureId} (h : m.runQueue queue = some m') :
    Lt Below m'.tokens m.tokens := by
  induction queue with
  | nil => cases h
  | cons id rest ih =>
    unfold Machine.runQueue at h
    split at h
    · next m1 he =>
      cases h
      obtain ⟨f, hf, hr⟩ := Option.bind_eq_some_iff.1 he
      exact runFuture_lt (m := { m with ready := rest }) hf hr
    · exact ih h

theorem dispatch_lt {α : Type} {main main' : Run α} {m m' : Machine}
    (h : Machine.dispatch main m = some (main', m')) :
    Lt Below (main'.tokens ++ m'.tokens) (main.tokens ++ m.tokens) := by
  unfold Machine.dispatch at h
  split at h
  · next m1 he =>
    cases h
    exact (runQueue_lt he).append_left _
  · split at h
    · next hready =>
      simp only [Option.some.injEq] at h
      rcases resume_idle_or_works main [] m with hi | hw
      · rw [hi.1] at hready
        exact absurd hready (by simp)
      · rw [Works, h] at hw
        exact hw
    · cases h

/-- Every turn makes less of the work. -/
theorem turn_lt {α : Type} {main main' : Run α} {m m' : Machine} (h : Machine.turn main m = some (main', m')) :
    Lt Below (main'.tokens ++ m'.tokens) (main.tokens ++ m.tokens) := by
  unfold Machine.turn at h
  split at h
  · next he =>
    cases h
    exact dispatch_lt he
  · obtain ⟨t, _, h⟩ := Option.bind_eq_some_iff.1 h
    have hd := dispatch_lt h
    exact hd

theorem wellFounded_lt_tokens : WellFounded (Lt Below) := wellFounded_lt wellFounded_below

end MediaQuery
