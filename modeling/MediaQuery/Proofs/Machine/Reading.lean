import MediaQuery.Proofs.Machine.Lineage

/-!
# Reading a key

Every step of a machine keeps the lineage of its values (`lineage_step`), so every history has it. A key of a
branch therefore reads as its history says, and what happens in one branch is not seen in another.
-/

namespace MediaQuery.Machine

variable {inputs : Inputs} {past : List Event} {m m' : Machine} {e : Event} {a b : Route} {key k : String}
  {id : FutureId}

/-! ## Steps -/

/-- What leaves values and futures alone keeps the lineage. -/
theorem Lineage.quiet (h : Lineage past m) (hnode : ∀ b, (m'.node? b).isSome = (m.node? b).isSome)
    (hstore : ∀ b, m'.store b = m.store b)
    (hf : ∀ id, (m'.future? id).map (fun f => (f.key, f.result?)) =
      (m.future? id).map fun f => (f.key, f.result?)) : Lineage (.other :: past) m' := by
  refine ⟨h.values.settle rfl (fun _ _ hid => hid) hnode (fun b => by rw [hstore]) (fun b k => ?_) nofun nofun,
    h.roster.congr nofun nofun nofun hf⟩
  exact .inl (by rw [hstore])

theorem Lineage.set (h : Lineage past m) (key : String) (value : Value) (ha : (m.node? a).isSome = true) :
    Lineage (.set a key value :: past) (m.modifyStore a fun s => s.write key (.ready value)) := by
  refine ⟨h.values.write ha (fun _ _ => rfl) rfl (.value _ value) (isSome_node?_modifyStore m a · _)
    (store_modifyStore ha) nofun nofun, h.roster.congr nofun nofun nofun fun id => ?_⟩
  rw [future?_modifyStore]

theorem Lineage.spawn (h : Lineage past m) (key : String) (p : Prog (Except EvalError Value))
    (ha : (m.node? a).isSome = true) :
    Lineage (.spawned a key (m.nextFuture a) :: past) (m.spawn a key p) := by
  have hnode (b : Route) : ((m.spawn a key p).node? b).isSome = (m.node? b).isSome := by
    rw [node?_spawn ha, isSome_node?_modifyStore]
  refine ⟨h.values.write ha (fun _ _ => rfl) rfl (.pending (m.nextFuture a)) hnode (store_spawn ha key p)
    (fun {b k id} heq => ?_) nofun, h.roster_spawn key p ha⟩
  injection heq with h₁ h₂ h₃
  subst h₁ h₂ h₃
  refine ⟨by rw [hnode]; exact ha, ?_, fun _ _ _ => if_pos ⟨rfl, rfl⟩⟩
  rw [store_spawn ha, if_pos rfl]
  exact Nat.le_refl _

theorem Lineage.fork (h : Lineage past m) {n : Node} (options : ForkOptions) (ha : m.node? a = some n) :
    Lineage (.forked a (a ++ [n.degree]) options.data :: past) (m.addChild a fun c => c.forkOf options).2 := by
  have hfits (k : String) : EntryFits (endOf past)
      (lastWrite (.forked a (a ++ [n.degree]) options.data :: past) (a ++ [n.degree]) k)
      ((forkNode n options).store.find? k) := by
    cases hd : options.data with
    | none =>
      have hstore : (forkNode n options).store = m.store a := by
        rw [store_of_node? ha]
        simp [forkNode, hd]
      rw [hstore, lastWrite, if_pos rfl]
      exact h.values.fits a k
    | some values =>
      have hstore : (forkNode n options).store = .ofValues values := by simp [forkNode, hd]
      have hslot := Store.find?_ofValues values k
      rw [hstore, lastWrite, if_pos rfl]
      cases hv : values.reverse.lookup k with
      | none =>
        rw [hv, Option.map_none, Option.map_eq_none_iff] at hslot
        rw [hslot]
        exact .unset
      | some v =>
        rw [hv, Option.map_some, Option.map_eq_some_iff] at hslot
        obtain ⟨⟨generation, slot⟩, hentry, rfl⟩ := hslot
        rw [hentry]
        exact .value generation v
  have hbounded : (forkNode n options).store.Bounded := by
    cases hd : options.data with
    | none => simpa [forkNode, hd, ← store_of_node? ha] using h.values.bounded a
    | some values => simpa [forkNode, hd] using Store.bounded_ofValues values
  have hnode (b : Route) (hb : (m.node? b).isSome = true) :
      ((m.addChild a fun c => c.forkOf options).2.node? b).isSome = true := by
    rw [node?_fork ha]
    split
    · rfl
    · split
      · rfl
      · exact hb
  refine ⟨h.values.branch (node?_next ha) (fun b k hb => ?_) rfl hbounded hfits hnode (store_fork ha options)
    (by simp) (by simp), h.roster.congr (by simp) (by simp) (by simp) fun _ => rfl⟩
  exact lastWrite_cons id (fun _ _ heq => hb (by injection heq with _ heq; exact heq.symm)) (by simp)

theorem Lineage.openSession (h : Lineage past m) {n : Node} (inputs : Inputs) (ha : m.node? a = some n) :
    Lineage (.opened (a ++ [n.degree]) :: past) (m.addChild a fun _ => .root inputs).2 := by
  have hfits (k : String) : EntryFits (endOf past)
      (lastWrite (.opened (a ++ [n.degree]) :: past) (a ++ [n.degree]) k) (Store.empty.find? k) := by
    rw [lastWrite, if_pos rfl]
    exact .unset
  have hnode (b : Route) (hb : (m.node? b).isSome = true) :
      ((m.addChild a fun _ => .root inputs).2.node? b).isSome = true := by
    rw [node?_open ha]
    split
    · rfl
    · split
      · rfl
      · exact hb
  refine ⟨h.values.branch (node?_next ha) (fun b k hb => ?_) rfl Store.bounded_empty hfits hnode
    (store_open ha inputs) (by simp) (by simp), h.roster.congr (by simp) (by simp) (by simp) fun _ => rfl⟩
  exact lastWrite_cons id (by simp) fun heq => hb (by injection heq with heq; exact heq.symm)

/-- The end of a future finds its entry only if the future is the last write there. -/
theorem Lineage.finish (h : Lineage past m) {f : Future} (result : Except EvalError Value)
    (hf : m.future? f.id = some f) (hr : f.result? = none) :
    Lineage (.ended f.id result :: past) (m.complete f result) := by
  have hguard := h.values.started (h.roster.spawned hf)
  have hrun : endOf past f.id = none := by
    rw [← h.roster.endings, hf]
    exact hr
  have hself : endOf (.ended f.id result :: past) f.id = some result := if_pos rfl
  have hend (id : FutureId) (r : Except EvalError Value) (hid : endOf past id = some r) :
      endOf (.ended f.id result :: past) id = some r := by
    rw [endOf, if_neg, hid]
    rintro rfl
    rw [hrun] at hid
    cases hid
  -- what does not touch the branches keeps every entry as it is
  have still {m' : Machine} {report : Except EvalError Unit} (hm : m' = m.setFuture f.id (.ended result report)) :
      Lineage (.ended f.id result :: past) m' := by
    subst hm
    exact ⟨h.values.settle rfl hend (fun _ => rfl) (fun _ => rfl) (fun _ _ => .inl rfl) (by simp) (by simp),
      h.roster.finish hf fun _ => rfl⟩
  cases result with
  | error error => exact still rfl
  | ok v =>
    by_cases hlive : ∃ entry, (m.store f.id.home).find? f.key = some entry ∧ entry.generation = f.id.generation
    · obtain ⟨entry, hentry, hgen⟩ := hlive
      have hw := hguard.last entry hentry hgen
      have hstore := store_complete_of_live hentry hgen v
      have hroster : Roster (.ended f.id (.ok v) :: past) (m.complete f (.ok v)) := by
        rw [complete_of_live hentry hgen]
        exact h.roster.finish hf fun _ => rfl
      refine ⟨h.values.settle rfl hend (isSome_node?_complete m f _) (fun b => ?_) (fun b k => ?_) (by simp) (by simp),
        hroster⟩
      · rw [hstore]
        split <;> rfl
      · rw [hstore]
        by_cases hb : b = f.id.home
        · rw [if_pos hb, Store.find?_replace]
          by_cases hk : k = f.key
          · subst hb hk
            exact .inr ⟨f.id, entry, .ok v, hentry, hgen, hw, hself, by rw [if_pos rfl]; rfl⟩
          · exact .inl (if_neg hk)
        · exact .inl (by rw [if_neg hb])
    · exact still (complete_of_stale (fun entry hentry hgen => hlive ⟨entry, hentry, hgen⟩) v)

/-- Whoever looks at a reference finds the last write. -/
theorem Lineage.meet (h : Lineage past m) {generation : Nat}
    (hentry : (m.store a).find? key = some ⟨generation, .pending id⟩) :
    Lineage (.met a (key, generation, id) :: past) m := by
  obtain ⟨hw, hgen⟩ := EntryFits.pending_inv (hentry ▸ h.values.fits a key)
  refine ⟨h.values.settle rfl (fun _ _ hid => hid) (fun _ => rfl) (fun _ => rfl) (fun _ _ => .inl rfl) nofun
    fun heq => ?_, h.roster.congr nofun nofun (fun b slot heq => ?_) fun _ => rfl⟩
  · injection heq with h₁ h₂
    injection h₂ with h₂ h₃
    injection h₃ with h₃ h₄
    subst h₁ h₂ h₃ h₄
    exact ⟨_, hentry, rfl, hgen, hw⟩
  · injection heq with h₁ h₂
    subst h₁ h₂
    exact h.roster.future_of_lastWrite hw

/-- The outcome of a future takes the place of a reference that has been met, unless the key has been written. -/
theorem Lineage.settle (h : Lineage past m) {generation : Nat} (hmet : .met a (key, generation, id) ∈ past)
    (hr : (m.outcome id).isRunning = false) :
    Lineage (.settled a (key, generation, id) :: past)
      (m.modifyStore a fun s => s.settle key generation (m.outcome id).value?) := by
  obtain ⟨rfl, hguard⟩ := h.values.met hmet
  have hstore := store_modifyStore (f := fun s => s.settle key id.generation (m.outcome id).value?) hguard.there
  refine ⟨h.values.settle rfl (fun _ _ hid => hid) (isSome_node?_modifyStore m a · _) (fun b => ?_) (fun b k => ?_)
    nofun nofun, h.roster.congr nofun nofun nofun fun _ => rfl⟩
  · rw [hstore]
    split
    · exact Store.generation_settle ..
    · rfl
  · rw [hstore]
    by_cases hb : b = a
    · subst hb
      rw [if_pos rfl, Store.find?_settle]
      by_cases hk : k = key ∧ ∃ entry, (m.store b).find? key = some entry ∧ entry.generation = id.generation
      · obtain ⟨rfl, entry, hentry, hgen⟩ := hk
        have hw := hguard.last entry hentry hgen
        obtain ⟨f, hf⟩ := h.roster.future_of_lastWrite hw
        have hout := h.roster.outcome_eq hf
        cases hend : endOf past id with
        | none =>
          rw [hout, hend] at hr
          cases hr
        | some result =>
          refine .inr ⟨id, entry, result, hentry, hgen, hw, hend, ?_⟩
          rw [if_pos ⟨rfl, entry, hentry, hgen⟩, hout, hend]
          cases result <;> rfl
      · exact .inl (if_neg hk)
    · exact .inl (by rw [if_neg hb])

/-- **Every step keeps the lineage of values.** -/
theorem lineage_step (h : Lineage past m) (hs : m.Step past e m') : Lineage (e :: past) m' := by
  cases hs with
  | set key value ha => exact h.set key value ha
  | spawn key p ha => exact h.spawn key p ha
  | fork options ha => exact h.fork options ha
  | openSession inputs ha => exact h.openSession inputs ha
  | finish result hf hr => exact h.finish result hf hr
  | meet hentry => exact h.meet hentry
  | settle hmet hr => exact h.settle hmet hr
  | record a result =>
    refine h.quiet (fun b => ?_) (store_record m a · result) fun _ => rfl
    rw [node?_record]
    split <;> simp
  | enter a path =>
    refine h.quiet (fun b => ?_) (store_enter m a · path) fun _ => rfl
    rw [node?_enter]
    split <;> simp
  | await a =>
    refine h.quiet (fun _ => rfl) (fun _ => rfl) fun id => ?_
    rw [future?_markAwaited, Option.map_map]
    refine congrArg (Option.map · _) (funext fun f => ?_)
    dsimp only [Function.comp_apply]
    split <;> rfl
  | work state hf hr hs =>
    refine h.quiet (fun _ => rfl) (fun _ => rfl) fun id => ?_
    rw [future?_setFuture]
    split
    · next hid =>
      rw [hid, hf, Option.map_some, Option.map_some, Option.map_some, hr, hs]
    · rfl
  | queue ready => exact h.quiet (fun _ => rfl) (fun _ => rfl) fun _ => rfl
  | tick clock => exact h.quiet (fun _ => rfl) (fun _ => rfl) fun _ => rfl

/-- A machine that has just been started has nothing to account for. -/
theorem lineage_start (inputs : Inputs) : Lineage [] (.start inputs) := by
  refine ⟨⟨fun a => ?_, fun a key => ?_, nofun, nofun⟩, ⟨nofun, nofun, fun _ => rfl, nofun⟩⟩
  · rw [store_start]
    exact Store.bounded_empty
  · rw [store_start]
    exact .unset

/-- Every history has a lineage. -/
theorem lineage_of_history (h : History inputs past m) : Lineage past m := by
  induction h with
  | start => exact lineage_start _
  | step _ hs ih => exact lineage_step ih hs

/-! ## Readings -/

theorem Lineage.get_eq (h : Lineage past m) (a : Route) (key : String) : m.get a key = reading past a key := by
  refine (h.values.fits a key).get_eq fun id hw => ?_
  obtain ⟨f, hf⟩ := h.roster.future_of_lastWrite hw
  exact h.roster.outcome_eq hf

/-- A branch that is there is not made again. -/
theorem not_made_of_there (hs : m.Step past e m') (ha : (m.node? a).isSome = true) :
    (∀ b data, e ≠ .forked b a data) ∧ e ≠ .opened a := by
  have hnext {b : Route} {n : Node} (hb : m.node? b = some n) : b ++ [n.degree] ≠ a := by
    rintro rfl
    rw [node?_next hb] at ha
    cases ha
  constructor
  · rintro b data rfl
    cases hs with
    | fork options hb => exact hnext hb rfl
  · rintro rfl
    cases hs with
    | openSession inputs hb => exact hnext hb rfl

/-- The branch in which a write or a settlement takes place. -/
def Event.branch? : Event → Option Route
  | .set a _ _ => some a
  | .spawned a _ _ => some a
  | .settled a _ => some a
  | _ => none

/-- A step changes a reading if it is a write to the key, or the end of the future that is its last write; and
where it makes the branch. -/
theorem reading_cons (hw : ¬ e.Writes a key) (hend : ∀ id result, lastWrite past a key = some (.future id) →
    e ≠ .ended id result) (hf : ∀ b data, e ≠ .forked b a data) (ho : e ≠ .opened a) :
    reading (e :: past) a key = reading past a key := by
  unfold reading
  rw [lastWrite_cons hw hf ho]
  rcases hlast : lastWrite past a key with _ | ⟨v | id⟩
  · rfl
  · rfl
  · simp only [Write.read, endOf_cons fun result => hend id result hlast]

/-- **A key of a branch reads as its own lineage says.** After any history, what a key reads as is decided by the
last write to it in the branch or, if there is none since it was forked, by the last one that its parent had seen;
all branches that hold a future read its result. A write or a settlement in one branch is not seen in another, and
a settlement not even in its own. -/
theorem get_of_history (h : History inputs past m) :
    (∀ a key, m.get a key = reading past a key) ∧
      (∀ id, endOf past id = (m.future? id).bind Future.result?) ∧
        (∀ e m' a b, m.Step past e m' → e.branch? = some a → b ≠ a → ∀ key, m'.get b key = m.get b key) ∧
          ∀ a slot m', m.Step past (.settled a slot) m' → ∀ b key, m'.get b key = m.get b key := by
  have hl := lineage_of_history h
  have quiet {e m' b key} (hs : m.Step past e m') (hw : ¬ e.Writes b key) (hend : ∀ id result, e ≠ .ended id result)
      (hf : ∀ c data, e ≠ .forked c b data) (ho : e ≠ .opened b) : m'.get b key = m.get b key := by
    rw [(lineage_step hl hs).get_eq, hl.get_eq]
    exact reading_cons hw (fun id result _ => hend id result) hf ho
  refine ⟨hl.get_eq, fun id => (hl.roster.endings id).symm, fun e m' a b hs hbranch hb key => ?_,
    fun a slot m' hs b key => quiet hs id nofun nofun nofun⟩
  cases e with
  | set c k v =>
    cases hbranch
    exact quiet hs (fun hw => hb hw.1.symm) nofun nofun nofun
  | spawned c k id =>
    cases hbranch
    exact quiet hs (fun hw => hb hw.1.symm) nofun nofun nofun
  | settled c slot => exact quiet hs id nofun nofun nofun
  | _ => cases hbranch

/-! ## A future that is overtaken -/

/-- A value that takes its time. -/
def late : Prog (Except EvalError Value) := .done (.ok (.string "late"))

/-- The future that computes it for the first key of the first branch. -/
def lateFuture : Future := ⟨⟨[], 1⟩, "k", false, .running (.asleep 0 late)⟩

/-- The first branch stores the late value and is forked; then it sets the key itself. -/
def overtaken : Machine :=
  let m := (start .blank).spawn [] "k" late
  (m.addChild [] fun b => b.forkOf .plain).2.modifyStore [] fun s => s.write "k" (.ready (.string "new"))

/-- What has happened to `overtaken`. -/
def overtaking : List Event := [.set [] "k" (.string "new"), .forked [] [0] none, .spawned [] "k" ⟨[], 1⟩]

theorem history_overtaken : History .blank overtaking overtaken := by
  have hspawn : History .blank [.spawned [] "k" ⟨[], 1⟩] ((start .blank).spawn [] "k" late) :=
    .step .start (.spawn "k" late rfl)
  have hfork := hspawn.step (.fork (a := []) (n := ((start .blank).spawn [] "k" late).tree.node) .plain rfl)
  exact hfork.step (.set "k" (.string "new") rfl)

theorem history_late : History .blank (.ended ⟨[], 1⟩ (.ok (.string "late")) :: overtaking)
    (overtaken.complete lateFuture (.ok (.string "late"))) :=
  history_overtaken.step (.finish (f := lateFuture) _ rfl rfl)

/-- The fork still reads the late value, and the branch that has set the key reads its own. -/
theorem get_after_overtaking :
    (overtaken.complete lateFuture (.ok (.string "late"))).get [0] "k" = .ok (.string "late") ∧
      (overtaken.complete lateFuture (.ok (.string "late"))).get [] "k" = .ok (.string "new") := by
  have hget := (get_of_history history_late).1
  exact ⟨hget [0] "k", hget [] "k"⟩

end MediaQuery.Machine
