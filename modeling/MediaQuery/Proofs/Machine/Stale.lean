import MediaQuery.Proofs.Machine.Reading

/-!
# Stale values

A future that ends with a value puts it under its key if and only if the key has not been written again in its
branch since it was started (`Rewritten`). If it has, the value is stale: its end changes no entry, and neither does
a failure or a late settlement.
-/

namespace MediaQuery.Machine

variable {inputs : Inputs} {past recent older : List Event} {m m' : Machine} {e : Event} {a : Route} {key : String}
  {id : FutureId}

/-- Whether the key of a future has been written again in its branch since the future was started. -/
def Rewritten (past : List Event) (f : Future) : Prop :=
  ∃ recent older, past = recent ++ .spawned f.id.home f.key f.id :: older ∧ ∃ e ∈ recent, e.Writes f.id.home f.key

/-- The value of a future has become the value of its key; nothing else has changed, and the future is content. -/
structure Landed (m m' : Machine) (f : Future) (v : Value) : Prop where
  entry : (m'.store f.id.home).find? f.key = some ⟨f.id.generation, .ready v⟩
  others : ∀ b k, (b, k) ≠ (f.id.home, f.key) → (m'.store b).find? k = (m.store b).find? k
  report : (m'.future? f.id).bind Future.report? = some (.ok ())

/-- A future has ended as a stale write and has left all branches as they were. -/
structure Stale (m m' : Machine) (f : Future) : Prop where
  tree : m'.tree = m.tree
  report : (m'.future? f.id).bind Future.report? = some (.error (.context (.staleWrite f.key)))

/-! ## Writes in a history -/

/-- A branch that is there stays. -/
theorem there_step (hs : m.Step past e m') (ha : (m.node? a).isSome = true) : (m'.node? a).isSome = true := by
  cases hs with
  | set key value hb => rw [isSome_node?_modifyStore, ha]
  | spawn key p hb => rw [node?_spawn hb, isSome_node?_modifyStore, ha]
  | fork options hb =>
    rw [node?_fork hb]
    repeat' split
    all_goals first | rfl | exact ha
  | openSession inputs hb =>
    rw [node?_open hb]
    repeat' split
    all_goals first | rfl | exact ha
  | finish result hf hr => rw [isSome_node?_complete, ha]
  | settle hmet hr => rw [isSome_node?_modifyStore, ha]
  | record b result =>
    rw [node?_record]
    split <;> simp [ha]
  | enter b path =>
    rw [node?_enter]
    split <;> simp [ha]
  | _ => exact ha

/-- What becomes of the values of a branch when something happens. -/
inductive Changed (m : Machine) (e : Event) (a : Route) : Store → Prop
  | same : Changed m e a (m.store a)
  | write {key : String} (slot : Slot) (he : e.Writes a key) : Changed m e a ((m.store a).write key slot)
  | replace (key : String) (generation : Nat) (v : Value) :
      Changed m e a ((m.store a).replace key generation (.ready v))
  | settle (key : String) (generation : Nat) (value : Option Value) :
      Changed m e a ((m.store a).settle key generation value)
  | copy (b : Route) (ha : m.node? a = none) : Changed m e a (m.store b)
  | fresh (values : List (String × Value)) (ha : m.node? a = none) : Changed m e a (.ofValues values)

/-- All that a step does to the values of a branch. -/
theorem changed_step (hs : m.Step past e m') (a : Route) : Changed m e a (m'.store a) := by
  cases hs with
  | @set b key value hb =>
    rw [store_modifyStore hb]
    split
    · next hab => exact .write _ ⟨hab.symm, rfl⟩
    · exact .same
  | @spawn b key p hb =>
    rw [store_spawn hb]
    split
    · next hab => exact .write _ ⟨hab.symm, rfl⟩
    · exact .same
  | @fork b n options hb =>
    rw [store_fork hb]
    split
    · next hab =>
      subst hab
      unfold forkNode
      cases options.data with
      | some values => exact .fresh values (node?_next hb)
      | none => exact store_of_node? hb ▸ .copy b (node?_next hb)
    · exact .same
  | openSession inputs hb =>
    rw [store_open hb]
    split
    · next hab => exact .fresh [] (hab ▸ node?_next hb)
    · exact .same
  | @finish f result hf hr =>
    cases result with
    | error error => exact .same
    | ok v =>
      by_cases hlive : ∃ entry, (m.store f.id.home).find? f.key = some entry ∧ entry.generation = f.id.generation
      · obtain ⟨entry, hentry, hgen⟩ := hlive
        rw [store_complete_of_live hentry hgen]
        split
        · exact .replace _ _ _
        · exact .same
      · rw [complete_of_stale fun entry hentry hgen => hlive ⟨entry, hentry, hgen⟩]
        exact .same
  | @settle b key generation id hmet hr =>
    cases hb : (m.node? b).isSome with
    | true =>
      rw [store_modifyStore hb]
      split
      · exact .settle _ _ _
      · exact .same
    | false =>
      rw [modifyStore_of_none (by simpa using hb)]
      exact .same
  | record b result =>
    rw [store_record]
    exact .same
  | enter b path =>
    rw [store_enter]
    exact .same
  | _ => exact .same

/-- A branch that has been written to is there. -/
theorem there_of_write (h : History inputs (e :: past) m) (he : e.Writes a key) : (m.node? a).isSome = true := by
  cases h with
  | step h hs =>
    refine there_step hs ?_
    cases hs with
    | set k value hb => exact he.1 ▸ hb
    | spawn k p hb => exact he.1 ▸ hb
    | _ => exact he.elim

/-- After a write to a key it is the last one until the key is written again. -/
theorem lastWrite_of_unwritten (h : History inputs (recent ++ e :: older) m) (he : e.Writes a key)
    (hn : ∀ e ∈ recent, ¬ e.Writes a key) :
    (m.node? a).isSome = true ∧ lastWrite (recent ++ e :: older) a key = lastWrite (e :: older) a key := by
  induction recent generalizing m with
  | nil => exact ⟨there_of_write h he, rfl⟩
  | cons e' recent ih =>
    cases h with
    | step h hs =>
      obtain ⟨hthere, hlast⟩ := ih h fun e'' hmem => hn e'' (List.mem_cons_of_mem _ hmem)
      obtain ⟨hf, ho⟩ := not_made_of_there hs hthere
      exact ⟨there_step hs hthere, (lastWrite_cons (hn e' List.mem_cons_self) hf ho).trans hlast⟩

/-- A write is the last one to its key, and it is no write of an older future. -/
theorem lastWrite_of_write (h : Lineage past m) (hs : m.Step past e m') (he : e.Writes a key) {b : Route} {k : String}
    (hid : .spawned b k id ∈ past) : lastWrite (e :: past) a key ≠ some (.future id) := by
  cases hs with
  | set k value hb =>
    obtain ⟨rfl, rfl⟩ := he
    rw [lastWrite, if_pos ⟨rfl, rfl⟩]
    simp
  | spawn k p hb =>
    obtain ⟨rfl, rfl⟩ := he
    rw [lastWrite, if_pos ⟨rfl, rfl⟩]
    rintro ⟨rfl⟩
    obtain ⟨-, f, hf, -⟩ := h.roster.started hid
    cases (h.future?_next _).symm.trans hf
  | _ => exact he.elim

/-- Once its key is written again a future is the last write no more. -/
theorem lastWrite_of_written (h : History inputs (recent ++ .spawned a key id :: older) m)
    (hw : ∃ e ∈ recent, e.Writes a key) :
    lastWrite (recent ++ .spawned a key id :: older) a key ≠ some (.future id) := by
  induction recent generalizing m with
  | nil => simp at hw
  | cons e recent ih =>
    cases h with
    | step h hs =>
      have hl := lineage_of_history h
      have hid : Event.spawned a key id ∈ recent ++ .spawned a key id :: older := by simp
      by_cases he : e.Writes a key
      · exact lastWrite_of_write hl hs he hid
      · obtain ⟨hf, ho⟩ := not_made_of_there hs (hl.values.started hid).there
        rw [List.cons_append, lastWrite_cons he hf ho]
        obtain ⟨e', hmem, hw⟩ := hw
        exact ih h ⟨e', (List.mem_cons.1 hmem).resolve_left fun heq => he (heq ▸ hw), hw⟩

/-- A future is the last write to its key if and only if the key has not been written again. -/
theorem lastWrite_eq_iff (h : History inputs past m) {f : Future} (hf : m.future? f.id = some f) :
    lastWrite past f.id.home f.key = some (.future f.id) ↔ ¬ Rewritten past f := by
  have hmem := (lineage_of_history h).roster.spawned hf
  constructor
  · rintro hlast ⟨recent, older, rfl, hw⟩
    exact lastWrite_of_written h hw hlast
  · intro hn
    obtain ⟨recent, older, rfl⟩ := List.append_of_mem hmem
    have hunwritten : ∀ e ∈ recent, ¬ e.Writes f.id.home f.key :=
      fun e he hw => hn ⟨recent, older, rfl, e, he, hw⟩
    rw [(lastWrite_of_unwritten h ⟨rfl, rfl⟩ hunwritten).2]
    exact if_pos ⟨rfl, rfl⟩

/-! ## The end of a future -/

/-- The report of a future that has just ended. -/
theorem report?_setFuture {f : Future} (hf : m.future? f.id = some f) (result : Except EvalError Value)
    (report : Except EvalError Unit) :
    ((m.setFuture f.id (.ended result report)).future? f.id).bind Future.report? = some report := by
  rw [future?_setFuture, if_pos rfl, hf]
  rfl

/-- To end a future leaves all others as they are. -/
theorem exists_report_complete (m : Machine) (f : Future) (result : Except EvalError Value) :
    ∃ report, ∀ id, (m.complete f result).future? id = (m.setFuture f.id (.ended result report)).future? id := by
  cases result with
  | error e => exact ⟨_, fun _ => rfl⟩
  | ok v =>
    simp only [complete]
    split <;> exact ⟨_, fun _ => rfl⟩

/-- A value whose future is the last write lands. -/
theorem landed_of_lastWrite (h : Lineage past m) {f : Future} (hf : m.future? f.id = some f) (hr : f.result? = none)
    (hlast : lastWrite past f.id.home f.key = some (.future f.id)) (v : Value) :
    Landed m (m.complete f (.ok v)) f v := by
  have hrun : endOf past f.id = none := by
    rw [← h.roster.endings, hf]
    exact hr
  have hentry : (m.store f.id.home).find? f.key = some ⟨f.id.generation, .pending f.id⟩ := by
    have hfits := h.values.fits f.id.home f.key
    rw [hlast] at hfits
    generalize (m.store f.id.home).find? f.key = entry at hfits
    cases hfits with
    | pending => rfl
    | landed hend => cases hrun.symm.trans hend
    | dropped hend => cases hrun.symm.trans hend
  have hstore := store_complete_of_live hentry rfl v
  refine ⟨?_, fun b k hne => ?_, ?_⟩
  · rw [hstore, if_pos rfl, Store.find?_replace, if_pos rfl]
  · rw [hstore]
    split
    · next hb =>
      rw [Store.find?_replace, if_neg fun hk => hne (by rw [hb, hk])]
    · rfl
  · rw [complete_of_live hentry rfl]
    exact report?_setFuture hf _ _

/-- A value whose future is not the last write is stale. -/
theorem stale_of_lastWrite (h : Lineage past m) {f : Future} (hf : m.future? f.id = some f)
    (hlast : lastWrite past f.id.home f.key ≠ some (.future f.id)) (v : Value) :
    Stale m (m.complete f (.ok v)) f := by
  have hguard := h.values.started (h.roster.spawned hf)
  rw [complete_of_stale (fun entry hentry hgen => hlast (hguard.last entry hentry hgen)) v]
  exact ⟨rfl, report?_setFuture hf _ _⟩

/-- The end of a future, or a settlement of a reference to it, leaves the entry of its key alone once the key has
been written again. -/
theorem find?_of_settles (h : Lineage past m) (hs : m.Step past e m') {f : Future} (hf : m.future? f.id = some f)
    (he : e.Settles f.id) (hlast : lastWrite past f.id.home f.key ≠ some (.future f.id)) :
    (m'.store f.id.home).find? f.key = (m.store f.id.home).find? f.key := by
  have hguard := h.values.started (h.roster.spawned hf)
  have hold {entry : Entry} (hentry : (m.store f.id.home).find? f.key = some entry) :
      entry.generation ≠ f.id.generation := fun hgen => hlast (hguard.last entry hentry hgen)
  cases hs with
  | @finish g result hg hr =>
    have hid : g.id = f.id := he
    obtain rfl : g = f := by
      rw [hid, hf] at hg
      exact (Option.some.inj hg).symm
    cases result with
    | error error => rfl
    | ok v =>
      rw [complete_of_stale (fun _ => hold) v]
      rfl
  | settle hmet hr =>
    obtain rfl : _ = f.id := he
    obtain ⟨rfl, hguard'⟩ := h.values.met hmet
    rw [store_modifyStore hguard'.there]
    split
    · next hhome =>
      rw [Store.find?_settle, if_neg]
      rintro ⟨hkey, entry, hentry, hgen⟩
      rw [hhome, ← hkey, ← hhome] at hentry
      exact hold hentry hgen
    · rfl
  | _ => exact he.elim

/-- **Stale values are found out.** After any history, the value of a future that ends becomes the value of its key
if and only if the key has not been written again in its branch; otherwise the future is stale and no entry changes.
Once its key is written again, neither its end nor a settlement changes the entry, so that a key which has been set
reads as that value until the next write. -/
theorem stale_of_history (h : History inputs past m) :
    (∀ f, m.future? f.id = some f → f.result? = none → ∀ v,
      (Landed m (m.complete f (.ok v)) f v ↔ ¬ Rewritten past f) ∧
        (Rewritten past f → Stale m (m.complete f (.ok v)) f)) ∧
      (∀ f e m', m.future? f.id = some f → m.Step past e m' → e.Settles f.id → Rewritten past f →
        (m'.store f.id.home).find? f.key = (m.store f.id.home).find? f.key) ∧
      ∀ recent older a key v, past = recent ++ .set a key v :: older → (∀ e ∈ recent, ¬ e.Writes a key) →
        m.get a key = .ok v := by
  have hl := lineage_of_history h
  have hnot {f : Future} (hf : m.future? f.id = some f) (hrew : Rewritten past f) :
      lastWrite past f.id.home f.key ≠ some (.future f.id) :=
    fun hlast => (lastWrite_eq_iff h hf).1 hlast hrew
  refine ⟨fun f hf hr v => ⟨⟨fun hland hrew => ?_, fun hrew => ?_⟩, fun hrew => ?_⟩, fun f e m' hf hs he hrew => ?_,
    fun recent older a key v hpast hn => ?_⟩
  · have hreport := hland.report.symm.trans (stale_of_lastWrite hl hf (hnot hf hrew) v).report
    cases hreport
  · exact landed_of_lastWrite hl hf hr ((lastWrite_eq_iff h hf).2 hrew) v
  · exact stale_of_lastWrite hl hf (hnot hf hrew) v
  · exact find?_of_settles hl hs hf he (hnot hf hrew)
  · subst hpast
    rw [hl.get_eq]
    unfold reading
    rw [(lastWrite_of_unwritten h ⟨rfl, rfl⟩ hn).2, lastWrite, if_pos ⟨rfl, rfl⟩]
    rfl

/-- A late value that has been overtaken is stale. -/
theorem stale_after_overtaking :
    Stale overtaken (overtaken.complete lateFuture (.ok (.string "late"))) lateFuture := by
  have hrewritten : Rewritten overtaking lateFuture :=
    ⟨[.set [] "k" (.string "new"), .forked [] [0] none], [], rfl, _, .head _, rfl, rfl⟩
  exact ((stale_of_history history_overtaken).1 lateFuture rfl rfl (.string "late")).2 hrewritten

end MediaQuery.Machine
