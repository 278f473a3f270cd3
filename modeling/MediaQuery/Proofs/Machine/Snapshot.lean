import MediaQuery.Proofs.Machine.Recorded

/-!
# Three ways to read a store

`get` looks through a reference at the future behind it, whereas `getAll` and `has` see the entry alone. So they tell
the same as long as no reference outlives its future. One does (`Overdue`) from the end of the future until its branch
next waits: in the branch that started the future if it has failed, and in every fork that copied the reference.
`snapshot_of_history` says what each of the three answers after any history.
-/

namespace MediaQuery

/-- Look-up in a part of some sorted fields. -/
theorem Fields.lookup_filterMap {α β : Type} {fields : List (String × α)}
    (h : (names fields).Pairwise (· < ·)) (f : α → Option β) (k : String) :
    (fields.filterMap fun e => (f e.2).map fun b => (e.1, b)).lookup k = (fields.lookup k).bind f := by
  induction fields with
  | nil => rfl
  | cons e rest ih =>
    obtain ⟨n, v⟩ := e
    obtain ⟨hn, hrest⟩ := List.pairwise_cons.1 h
    rw [lookup_cons]
    cases hv : f v with
    | some b =>
      rw [List.filterMap_cons_some (by rw [hv]; rfl), lookup_cons, ih hrest]
      split
      · rw [Option.bind_some, hv]
      · rfl
    | none =>
      rw [List.filterMap_cons_none (by rw [hv]; rfl), ih hrest]
      split
      · next hk =>
        rw [hk, lookup_of_not_mem fun hmem => lt_irrefl n (hn n hmem), Option.bind_some, hv, Option.bind_none]
      · rfl

/-- A snapshot has the values of the entries that are ready. -/
theorem Store.Sorted.lookup_getAll {s : Store} (h : s.Sorted) (key : String) :
    s.getAll.lookup key = (s.find? key).bind fun e => Store.Slot.value? e.slot :=
  Fields.lookup_filterMap h (fun e => Store.Slot.value? e.slot) key

namespace Machine

variable {inputs : Inputs} {past : List Event} {m m' : Machine} {e : Event} {a : Route} {key : String}
  {id : FutureId}

/-- Whether a branch has put the outcome of a future in the place of the reference to it under a key: it has waited
for it, it has started the future and got its value, or it was forked from a branch that had done so. -/
def TakenOver : List Event → Route → String → FutureId → Prop
  | [], _, _, _ => False
  | .set b k _ :: past, a, key, id => ¬ (b = a ∧ k = key) ∧ TakenOver past a key id
  | .spawned b k _ :: past, a, key, id => ¬ (b = a ∧ k = key) ∧ TakenOver past a key id
  | .forked b c data :: past, a, key, id =>
    if c = a then data = none ∧ TakenOver past b key id else TakenOver past a key id
  | .opened c :: past, a, key, id => c ≠ a ∧ TakenOver past a key id
  | .ended future result :: past, a, key, id =>
    (future = id ∧ id.home = a ∧ result.isOk = true) ∨ TakenOver past a key id
  | .settled b slot :: past, a, key, id => (b = a ∧ slot.1 = key ∧ slot.2.2 = id) ∨ TakenOver past a key id
  | _ :: past, a, key, id => TakenOver past a key id

/-- A key still refers to a future that has ended. -/
def Overdue (past : List Event) (a : Route) (key : String) : Prop :=
  ∃ id result, lastWrite past a key = some (.future id) ∧ endOf past id = some result ∧ ¬ TakenOver past a key id

/-- A key whose last write is a future refers to it exactly until its branch has taken over the outcome. -/
def Referring (past : List Event) (m : Machine) : Prop :=
  ∀ a key id, lastWrite past a key = some (.future id) →
    ((m.store a).find? key = some ⟨id.generation, .pending id⟩ ↔ ¬ TakenOver past a key id)

/-! ## Steps -/

/-- The event makes the branch. -/
def Event.Makes (a : Route) : Event → Prop
  | .forked _ b _ => b = a
  | .opened b => b = a
  | _ => False

theorem lastWrite_of_not_makes (hw : ¬ e.Writes a key) (hm : ¬ e.Makes a) :
    lastWrite (e :: past) a key = lastWrite past a key := by
  refine lastWrite_cons hw (fun b data heq => hm ?_) (fun heq => hm ?_)
  · rw [heq]
    exact rfl
  · rw [heq]
    exact rfl

/-- A branch that is there is not made again. -/
theorem not_makes_of_there (hs : m.Step past e m') (ha : (m.node? a).isSome = true) : ¬ e.Makes a := by
  obtain ⟨hf, ho⟩ := not_made_of_there hs ha
  intro hmakes
  cases e with
  | forked b c data =>
    cases hmakes
    exact hf b data rfl
  | opened c =>
    cases hmakes
    exact ho rfl
  | _ => exact hmakes

/-- Only the making of a branch, a write to the key, the end of the future and a settlement have to do with it. -/
theorem takenOver_cons (hw : ¬ e.Writes a key) (hm : ¬ e.Makes a) (hs : ¬ e.Settles id) :
    TakenOver (e :: past) a key id ↔ TakenOver past a key id := by
  cases e with
  | set b k v => exact and_iff_right hw
  | spawned b k future => exact and_iff_right hw
  | forked b c data =>
    rw [TakenOver, if_neg]
    exact hm
  | opened c => exact and_iff_right hm
  | ended future result => exact or_iff_right fun h => hs h.1
  | settled b slot => exact or_iff_right fun h => hs h.2.2
  | _ => exact Iff.rfl

/-- What leaves the entry of the key alone, and is no settlement of the future, keeps the key referring. -/
theorem Referring.congr (h : Referring past m) (hlast : lastWrite (e :: past) a key = some (.future id))
    (hw : ¬ e.Writes a key) (hm : ¬ e.Makes a) (hs : ¬ e.Settles id)
    (hfind : (m'.store a).find? key = (m.store a).find? key) :
    (m'.store a).find? key = some ⟨id.generation, .pending id⟩ ↔ ¬ TakenOver (e :: past) a key id := by
  rw [lastWrite_of_not_makes hw hm] at hlast
  rw [hfind, takenOver_cons hw hm hs]
  exact h _ _ _ hlast

/-- A write to one key of a branch. -/
theorem Referring.write {b : Route} {k : String} {slot : Slot} (h : Referring past m)
    (hwrites : ∀ a key, e.Writes a key ↔ b = a ∧ k = key) (hm : ∀ a, ¬ e.Makes a) (hs : ∀ id, ¬ e.Settles id)
    (hstore : ∀ c, m'.store c = if c = b then (m.store c).write k slot else m.store c)
    (hself : ∀ id, lastWrite (e :: past) b k = some (.future id) →
      slot = .pending id ∧ id.generation = (m.store b).generation + 1 ∧ ¬ TakenOver (e :: past) b k id) :
    Referring (e :: past) m' := by
  intro a key id hlast
  by_cases he : e.Writes a key
  · obtain ⟨rfl, rfl⟩ := (hwrites a key).1 he
    obtain ⟨rfl, hgen, htaken⟩ := hself id hlast
    rw [hstore, if_pos rfl, Store.find?_write, if_pos rfl, hgen]
    exact iff_of_true rfl htaken
  · refine h.congr hlast he (hm a) (hs id) ?_
    rw [hstore]
    split
    · next hab =>
      rw [Store.find?_write, if_neg]
      exact fun hk => he ((hwrites a key).2 ⟨hab.symm, hk.symm⟩)
    · rfl

/-- A new branch refers to what its parent refers to if it is a copy, and to nothing otherwise. -/
theorem Referring.fork (h : Referring past m) {b : Route} {n : Node} (options : ForkOptions)
    (hb : m.node? b = some n) :
    Referring (.forked b (b ++ [n.degree]) options.data :: past) (m.addChild b fun c => c.forkOf options).2 := by
  intro a key id hlast
  by_cases ha : a = b ++ [n.degree]
  · subst ha
    rw [store_fork hb, if_pos rfl, TakenOver, if_pos rfl]
    replace hlast := (if_pos rfl).symm.trans hlast
    cases hd : options.data with
    | none =>
      rw [hd] at hlast
      have hstore : (forkNode n options).store = m.store b := by
        rw [store_of_node? hb]
        simp [forkNode, hd]
      rw [hstore]
      simpa using h _ _ _ hlast
    | some values =>
      rw [hd] at hlast
      obtain ⟨v, -, hv⟩ := Option.map_eq_some_iff.1 hlast
      cases hv
  · refine h.congr hlast not_false (fun heq => ha heq.symm) not_false ?_
    rw [store_fork hb, if_neg ha]

/-- The first branch of a nested query refers to nothing. -/
theorem Referring.openSession (h : Referring past m) {b : Route} {n : Node} (session : Inputs)
    (hb : m.node? b = some n) :
    Referring (.opened (b ++ [n.degree]) :: past) (m.addChild b fun _ => .root session).2 := by
  intro a key id hlast
  by_cases ha : a = b ++ [n.degree]
  · rw [lastWrite, if_pos ha.symm] at hlast
    cases hlast
  · refine h.congr hlast not_false (fun heq => ha heq.symm) not_false ?_
    rw [store_open hb, if_neg ha]

/-- A key whose last write is a future that has not ended refers to it. -/
theorem Lineage.find?_of_running (h : Lineage past m) (hlast : lastWrite past a key = some (.future id))
    (hrun : endOf past id = none) : (m.store a).find? key = some ⟨id.generation, .pending id⟩ := by
  have hfits := h.values.fits a key
  rw [hlast] at hfits
  generalize (m.store a).find? key = entry at hfits
  cases hfits with
  | pending => rfl
  | landed hend => cases hrun.symm.trans hend
  | dropped hend => cases hrun.symm.trans hend

/-- The key a future is the last write to is its own key, in the branch that started it. -/
theorem Lineage.key_eq_of_lastWrite (h : Lineage past m) {f : Future} (hf : m.future? f.id = some f)
    (hlast : lastWrite past a key = some (.future f.id)) : key = f.key := by
  obtain ⟨b, hb⟩ := spawned_of_lastWrite hlast
  obtain ⟨-, g, hg, hkey⟩ := h.roster.started hb
  cases hf.symm.trans hg
  exact hkey.symm

/-- A value that lands takes the place of the reference in the branch that started the future; a copy of the
reference stays, and so does every reference to a future that fails. -/
theorem Referring.finish (h : Referring past m) (hl : Lineage past m) {f : Future}
    (result : Except EvalError Value) (hf : m.future? f.id = some f) (hr : f.result? = none) :
    Referring (.ended f.id result :: past) (m.complete f result) := by
  intro a key id (hlast : lastWrite past a key = some (.future id))
  have hrun : endOf past f.id = none := by
    rw [← hl.roster.endings, hf]
    exact hr
  by_cases hid : f.id = id
  · subst hid
    have hentry := hl.find?_of_running hlast hrun
    have hnot : ¬ TakenOver past a key f.id := (h _ _ _ hlast).1 hentry
    obtain rfl := hl.key_eq_of_lastWrite hf hlast
    cases result with
    | error error =>
      refine iff_of_true hentry ?_
      rintro (⟨-, -, hok⟩ | htaken)
      · cases hok
      · exact hnot htaken
    | ok v =>
      by_cases hhome : f.id.home = a
      · subst hhome
        have hlanded := (landed_of_lastWrite hl hf hr hlast v).entry
        refine iff_of_false (fun heq => ?_) (not_not_intro (.inl ⟨rfl, rfl, rfl⟩))
        cases hlanded.symm.trans heq
      · have hfind : ((m.complete f (.ok v)).store a).find? f.key = (m.store a).find? f.key := by
          by_cases hown : lastWrite past f.id.home f.key = some (.future f.id)
          · refine (landed_of_lastWrite hl hf hr hown v).others a f.key fun heq => ?_
            exact hhome (congrArg Prod.fst heq).symm
          · rw [store, branch?, (stale_of_lastWrite hl hf hown v).tree]
            rfl
        rw [hfind]
        refine iff_of_true hentry ?_
        rintro (⟨-, hhome', -⟩ | htaken)
        · exact hhome hhome'
        · exact hnot htaken
  · refine h.congr (e := .ended f.id result) hlast not_false not_false hid ?_
    cases result with
    | error error => rfl
    | ok v =>
      by_cases hown : lastWrite past f.id.home f.key = some (.future f.id)
      · refine (landed_of_lastWrite hl hf hr hown v).others a key fun heq => ?_
        obtain ⟨rfl, rfl⟩ := Prod.mk.inj heq
        cases hlast.symm.trans hown
        exact hid rfl
      · rw [store, branch?, (stale_of_lastWrite hl hf hown v).tree]
        rfl

/-- Whoever waits for a reference has the outcome in its place. -/
theorem Referring.settle (h : Referring past m) (hl : Lineage past m) {b : Route} {k : String} {generation : Nat}
    {future : FutureId} (hmet : .met b (k, generation, future) ∈ past) :
    Referring (.settled b (k, generation, future) :: past)
      (m.modifyStore b fun s => s.settle k generation (m.outcome future).value?) := by
  intro a key id (hlast : lastWrite past a key = some (.future id))
  obtain ⟨rfl, hguard⟩ := hl.values.met hmet
  have hstore := store_modifyStore (f := fun s => s.settle k future.generation (m.outcome future).value?) hguard.there a
  by_cases hself : b = a ∧ k = key ∧ future = id
  · obtain ⟨rfl, rfl, rfl⟩ := hself
    refine iff_of_false (fun heq => ?_) (not_not_intro (.inl ⟨rfl, rfl, rfl⟩))
    rw [hstore, if_pos rfl, Store.find?_settle] at heq
    split at heq
    · obtain ⟨v, -, hv⟩ := Option.map_eq_some_iff.1 heq
      cases hv
    · next hgone => exact hgone ⟨rfl, _, heq, rfl⟩
  · have hfind : ((m.modifyStore b fun s => s.settle k future.generation (m.outcome future).value?).store a).find? key =
        (m.store a).find? key := by
      rw [hstore]
      split
      · next hab =>
        subst hab
        rw [Store.find?_settle, if_neg]
        rintro ⟨rfl, entry, hentry, hgen⟩
        cases hlast.symm.trans (hguard.last entry hentry hgen)
        exact hself ⟨rfl, rfl, rfl⟩
      · rfl
    rw [hfind, h _ _ _ hlast]
    exact not_congr (or_iff_right hself).symm

/-- **Every step keeps the references as the history has them.** -/
theorem referring_step (h : Referring past m) (hl : Lineage past m) (hs : m.Step past e m') :
    Referring (e :: past) m' := by
  have quiet (hlast : ∀ a key, ¬ e.Writes a key) (hm : ∀ a, ¬ e.Makes a) (hsettles : ∀ id, ¬ e.Settles id)
      (hstore : ∀ a, m'.store a = m.store a) : Referring (e :: past) m' :=
    fun a key id hw => h.congr hw (hlast a key) (hm a) (hsettles id) (by rw [hstore])
  cases hs with
  | set key value hb =>
    refine h.write (fun _ _ => Iff.rfl) (fun _ => not_false) (fun _ => not_false) (store_modifyStore hb) fun id hlast => ?_
    rw [lastWrite, if_pos ⟨rfl, rfl⟩] at hlast
    cases hlast
  | spawn key p hb =>
    refine h.write (fun _ _ => Iff.rfl) (fun _ => not_false) (fun _ => not_false) (store_spawn hb key p) fun id hlast => ?_
    rw [lastWrite, if_pos ⟨rfl, rfl⟩] at hlast
    cases hlast
    exact ⟨rfl, rfl, fun htaken => htaken.1 ⟨rfl, rfl⟩⟩
  | fork options hb => exact h.fork options hb
  | openSession session hb => exact h.openSession session hb
  | finish result hf hr => exact h.finish hl result hf hr
  | settle hmet hr => exact h.settle hl hmet
  | record b result => exact quiet (fun _ _ => not_false) (fun _ => not_false) (fun _ => not_false) (store_record m b · result)
  | enter b path => exact quiet (fun _ _ => not_false) (fun _ => not_false) (fun _ => not_false) (store_enter m b · path)
  | _ => exact quiet (fun _ _ => not_false) (fun _ => not_false) (fun _ => not_false) fun _ => rfl

/-- Every history tells what each key still refers to. -/
theorem referring_of_history (h : History inputs past m) : Referring past m := by
  induction h with
  | start =>
    intro a key id hlast
    cases hlast
  | step h hs ih => exact referring_step ih (lineage_of_history h) hs

/-! ## References that outlive their futures -/

/-- An outcome that has been taken over stays so until the key is written again. -/
theorem takenOver_mono (hw : ¬ e.Writes a key) (hm : ¬ e.Makes a) (h : TakenOver past a key id) :
    TakenOver (e :: past) a key id := by
  by_cases hs : e.Settles id
  · cases e with
    | ended future result => exact .inr h
    | settled b slot => exact .inr h
    | _ => exact hs.elim
  · exact (takenOver_cons hw hm hs).2 h

/-- The branch that has started a future has taken over its value once it has ended. -/
theorem takenOver_of_home (h : History inputs past m) {v : Value} (hlast : lastWrite past id.home key = some (.future id))
    (hend : endOf past id = some (.ok v)) : TakenOver past id.home key id := by
  induction h with
  | start => cases hlast
  | @step past m m' e h hs ih =>
    have hl := lineage_of_history h
    by_cases hself : e = .ended id (.ok v)
    · subst hself
      exact .inl ⟨rfl, rfl, rfl⟩
    · have hold : endOf past id = some (.ok v) := by
        rwa [endOf_cons] at hend
        rintro result rfl
        rw [endOf, if_pos rfl] at hend
        cases hend
        exact hself rfl
      have hknown : ∃ f, m.future? id = some f := by
        cases hf : m.future? id with
        | some f => exact ⟨f, rfl⟩
        | none => simp [← hl.roster.endings, hf] at hold
      obtain ⟨f, hf⟩ := hknown
      have hspawned := hl.roster.spawned hf
      have hm := not_makes_of_there hs (hl.values.started hspawned).there
      have hw : ¬ e.Writes id.home key := fun hw => lastWrite_of_write hl hs hw hspawned hlast
      rw [lastWrite_of_not_makes hw hm] at hlast
      exact takenOver_mono hw hm (ih hlast hold)

/-- A key is overdue if it has a reference to a future that runs no more. -/
theorem overdue_iff (h : History inputs past m) : Overdue past a key ↔
    ∃ generation id, (m.store a).find? key = some ⟨generation, .pending id⟩ ∧ (m.outcome id).isRunning = false := by
  have hl := lineage_of_history h
  constructor
  · rintro ⟨id, result, hlast, hend, htaken⟩
    obtain ⟨f, hf⟩ := hl.roster.future_of_lastWrite hlast
    refine ⟨_, id, (referring_of_history h a key id hlast).2 htaken, ?_⟩
    rw [hl.roster.outcome_eq hf, hend]
    cases result <;> rfl
  · rintro ⟨generation, id, hentry, hr⟩
    obtain ⟨hlast, rfl⟩ := EntryFits.pending_inv (hentry ▸ hl.values.fits a key)
    obtain ⟨f, hf⟩ := hl.roster.future_of_lastWrite hlast
    rw [hl.roster.outcome_eq hf] at hr
    cases hend : endOf past id with
    | none =>
      rw [hend] at hr
      cases hr
    | some result => exact ⟨id, result, hlast, hend, (referring_of_history h a key id hlast).1 hentry⟩

/-- What an overdue key reads as: the value of a future that another branch has started, if it has one. -/
theorem get_of_overdue (h : History inputs past m) (ho : Overdue past a key) :
    m.get a key = .error (.missingValue key) ∨
      ∃ v id, m.get a key = .ok v ∧ lastWrite past a key = some (.future id) ∧ id.home ≠ a := by
  obtain ⟨id, result, hlast, hend, htaken⟩ := ho
  rw [(lineage_of_history h).get_eq, reading, hlast, Write.read, hend]
  cases result with
  | error error => exact .inl rfl
  | ok v =>
    refine .inr ⟨v, id, rfl, rfl, ?_⟩
    rintro rfl
    exact htaken (takenOver_of_home h hlast hend)

/-- **The three ways to read a store agree but for references that outlive their futures.** After any history, a key is
in the snapshot of a branch with the value it reads as, and a key is not there if it reads as missing, unless it is
overdue. An overdue key is in no snapshot and still counts as there, though it reads as missing or, in a branch other
than the one that started the future, as the value of the future; its branch has still to wait for it. -/
theorem snapshot_of_history (h : History inputs past m) (a : Route) (key : String) :
    (∀ v, (m.store a).getAll.lookup key = some v ↔ m.get a key = .ok v ∧ ¬ Overdue past a key) ∧
      ((m.store a).has key = false ↔ m.get a key = .error (.missingValue key) ∧ ¬ Overdue past a key) ∧
        (Overdue past a key → (∃ slot ∈ (m.store a).pending, slot.1 = key) ∧
          (m.get a key = .error (.missingValue key) ∨
            ∃ v id, m.get a key = .ok v ∧ lastWrite past a key = some (.future id) ∧ id.home ≠ a)) := by
  rw [Store.has, Machine.get, Store.get, (sorted_of_history h a).lookup_getAll]
  refine and_assoc.1 ⟨?_, fun ho => ⟨?_, get_of_overdue h ho⟩⟩
  · rw [overdue_iff h]
    rcases (m.store a).find? key with _ | ⟨generation, v | id⟩
    · simp
    · simp [Store.Slot.value?]
    · cases hout : m.outcome id <;> simp [Store.Slot.value?, hout, Outcome.isRunning]
  · obtain ⟨generation, id, hentry, -⟩ := (overdue_iff h).1 ho
    exact ⟨(key, generation, id), List.mem_filterMap.2 ⟨_, Fields.mem_of_lookup hentry, rfl⟩, rfl⟩

/-- A fork reads the late value, which is not in its snapshot. -/
theorem snapshot_after_overtaking : Overdue (.ended ⟨[], 1⟩ (.ok (.string "late")) :: overtaking) [0] "k" ∧
    ∃ slot ∈ ((overtaken.complete lateFuture (.ok (.string "late"))).store [0]).pending, slot.1 = "k" := by
  have hoverdue : Overdue (.ended ⟨[], 1⟩ (.ok (.string "late")) :: overtaking) [0] "k" :=
    ⟨⟨[], 1⟩, _, rfl, rfl, by simp [TakenOver, overtaking]⟩
  exact ⟨hoverdue, ((snapshot_of_history history_late [0] "k").2.2 hoverdue).1⟩

/-! ## A fork that has not waited -/

/-- Stores a value that is still to be computed, and forks. Once the value is there, reads the fork in three ways. -/
def readingEarlyFork (result : Except EvalError Value) :
    Prog (Except ContextError Value × List (String × Value) × Bool) := do
  Prog.setFuture [] "k" (.done result)
  let b ← Prog.fork [] .plain
  Prog.pause 1
  return (← Prog.get b "k", ← Prog.getAll b, ← Prog.has b "k")

/-- The value can be read but is in no snapshot, and a value that could not be computed is missing but there. -/
theorem untold_in_early_fork :
    ((start .blank).run (readingEarlyFork (.ok (.string "late")))).1 = some (.ok (.string "late"), [], true) ∧
      ((start .blank).run (readingEarlyFork (.error (.action "boom" [])))).1 =
        some (.error (.missingValue "k"), [], true) :=
  ⟨congrArg Prod.fst (drive_of_turns (k := 2) rfl rfl), congrArg Prod.fst (drive_of_turns (k := 2) rfl rfl)⟩

end Machine

end MediaQuery
