import MediaQuery.Proofs.Machine.History

/-!
# The lineage of a value

The invariant behind every reading is `Lineage`: each entry fits the last write to its key (`EntryFits`), and where
someone knows a future by an entry of its generation, an entry of that generation is there only as long as the
future is the last write (`Guarded`). Every step keeps it (`lineage_step`), so it holds of every history.
-/

namespace MediaQuery.Machine

variable {past : List Event} {m m' : Machine} {e : Event} {a b : Route} {key k : String} {id : FutureId}

/-- How the entry of a key fits the last write to it. The entry of a future may still refer to it after its end. -/
inductive EntryFits (ends : FutureId → Option (Except EvalError Value)) : Option Write → Option Entry → Prop
  | unset : EntryFits ends none none
  | value (generation : Nat) (v : Value) : EntryFits ends (some (.value v)) (some ⟨generation, .ready v⟩)
  | pending (id : FutureId) : EntryFits ends (some (.future id)) (some ⟨id.generation, .pending id⟩)
  | landed {id : FutureId} {v : Value} (h : ends id = some (.ok v)) :
      EntryFits ends (some (.future id)) (some ⟨id.generation, .ready v⟩)
  | dropped {id : FutureId} {error : EvalError} (h : ends id = some (.error error)) :
      EntryFits ends (some (.future id)) none

/-- What a future stands for in a branch: an entry with its generation is the trace of its own write. -/
structure Guarded (past : List Event) (m : Machine) (a : Route) (key : String) (id : FutureId) : Prop where
  there : (m.node? a).isSome = true
  generation_le : id.generation ≤ (m.store a).generation
  last : ∀ entry, (m.store a).find? key = some entry → entry.generation = id.generation →
    lastWrite past a key = some (.future id)

/-- The values of a machine are as its history says. -/
structure Values (past : List Event) (m : Machine) : Prop where
  bounded : ∀ a, (m.store a).Bounded
  fits : ∀ a key, EntryFits (endOf past) (lastWrite past a key) ((m.store a).find? key)
  started : ∀ {a key id}, .spawned a key id ∈ past → Guarded past m a key id
  met : ∀ {a key generation id}, .met a (key, generation, id) ∈ past →
    generation = id.generation ∧ Guarded past m a key id

/-- The futures of a machine are as its history says. -/
structure Roster (past : List Event) (m : Machine) : Prop where
  started : ∀ {a key id}, .spawned a key id ∈ past → id.home = a ∧ ∃ f, m.future? id = some f ∧ f.key = key
  spawned : ∀ {id f}, m.future? id = some f → .spawned id.home f.key id ∈ past
  endings : ∀ id, (m.future? id).bind Future.result? = endOf past id
  met : ∀ {a slot}, .met a slot ∈ past → ∃ f, m.future? slot.2.2 = some f

/-- A machine is as its history says. -/
structure Lineage (past : List Event) (m : Machine) : Prop where
  values : Values past m
  roster : Roster past m

/-! ## Entries -/

/-- What is known about results only grows. -/
theorem EntryFits.mono {ends ends' : FutureId → Option (Except EvalError Value)} {w : Option Write}
    {entry : Option Entry} (h : EntryFits ends w entry)
    (hends : ∀ id result, ends id = some result → ends' id = some result) : EntryFits ends' w entry := by
  cases h with
  | unset => exact .unset
  | value generation v => exact .value generation v
  | pending id => exact .pending id
  | landed h => exact .landed (hends _ _ h)
  | dropped h => exact .dropped (hends _ _ h)

/-- The outcome of a future may take the place of its entry. -/
theorem EntryFits.of_end {ends : FutureId → Option (Except EvalError Value)} {result : Except EvalError Value}
    (h : ends id = some result) :
    EntryFits ends (some (.future id)) (result.toOption.map fun v => ⟨id.generation, .ready v⟩) := by
  cases result with
  | ok v => exact .landed h
  | error error => exact .dropped h

/-- An entry that fits reads as the last write does. -/
theorem EntryFits.get_eq {ends : FutureId → Option (Except EvalError Value)} {s : Store} {w : Option Write}
    {outcome : FutureId → Outcome} (h : EntryFits ends w (s.find? key))
    (ho : ∀ id, w = some (.future id) → outcome id = Future.outcomeOf (ends id)) :
    s.get outcome key = Write.read ends key w := by
  generalize he : s.find? key = entry at h
  cases h with
  | unset => simp [Store.get, he, Write.read]
  | value generation v => simp [Store.get, he, Write.read]
  | pending id =>
    rcases hend : ends id with _ | ⟨error | v⟩ <;>
      simp [Store.get, he, Write.read, ho id rfl, hend, Future.outcomeOf]
  | landed h => simp [Store.get, he, Write.read, h]
  | dropped h => simp [Store.get, he, Write.read, h]

/-- A reference is to the future that is the last write, and has its generation. -/
theorem EntryFits.pending_inv {ends : FutureId → Option (Except EvalError Value)} {w : Option Write}
    {generation : Nat} (h : EntryFits ends w (some ⟨generation, .pending id⟩)) :
    w = some (.future id) ∧ generation = id.generation := by
  cases h
  exact ⟨rfl, rfl⟩

/-! ## Futures -/

/-- A step that starts and ends no future keeps the roster. -/
theorem Roster.congr (h : Roster past m) (hs : ∀ a key id, e ≠ .spawned a key id)
    (he : ∀ id result, e ≠ .ended id result) (hm : ∀ a slot, e = .met a slot → ∃ f, m.future? slot.2.2 = some f)
    (hf : ∀ id, (m'.future? id).map (fun f => (f.key, f.result?)) =
      (m.future? id).map fun f => (f.key, f.result?)) : Roster (e :: past) m' := by
  have known {id f} (h' : m'.future? id = some f) : ∃ g, m.future? id = some g ∧ g.key = f.key := by
    have h := (hf id).symm
    rw [h', Option.map_some, Option.map_eq_some_iff] at h
    obtain ⟨g, hg, hgf⟩ := h
    exact ⟨g, hg, congrArg Prod.fst hgf⟩
  have stays {id f} (hf' : m.future? id = some f) : ∃ g, m'.future? id = some g ∧ g.key = f.key := by
    have h := hf id
    rw [hf', Option.map_some, Option.map_eq_some_iff] at h
    obtain ⟨g, hg, hgf⟩ := h
    exact ⟨g, hg, congrArg Prod.fst hgf⟩
  refine ⟨fun hmem => ?_, fun h' => ?_, fun id => ?_, fun {a slot} hmem => ?_⟩
  · obtain ⟨hhome, f, hf', hkey⟩ := h.started ((List.mem_cons.1 hmem).resolve_left fun heq => hs _ _ _ heq.symm)
    obtain ⟨g, hg, hgf⟩ := stays hf'
    exact ⟨hhome, g, hg, hgf.trans hkey⟩
  · obtain ⟨g, hg, hkey⟩ := known h'
    exact List.mem_cons_of_mem _ (hkey ▸ h.spawned hg)
  · rw [endOf_cons (he id), ← h.endings id]
    have hid := congrArg (fun o => o.bind Prod.snd) (hf id)
    simpa [Option.bind_map, Function.comp_def] using hid
  · have hold : ∃ f, m.future? slot.2.2 = some f := by
      rcases List.mem_cons.1 hmem with heq | hold
      · exact hm a slot heq.symm
      · exact h.met hold
    obtain ⟨f, hf'⟩ := hold
    obtain ⟨g, hg, -⟩ := stays hf'
    exact ⟨g, hg⟩

/-- A future that a key refers to is known. -/
theorem Roster.future_of_lastWrite (h : Roster past m) (hw : lastWrite past a key = some (.future id)) :
    ∃ f, m.future? id = some f := by
  obtain ⟨b, hb⟩ := spawned_of_lastWrite hw
  obtain ⟨-, f, hf, -⟩ := h.started hb
  exact ⟨f, hf⟩

/-- What has become of a future is in the history. -/
theorem Roster.outcome_eq (h : Roster past m) {f : Future} (hf : m.future? id = some f) :
    m.outcome id = Future.outcomeOf (endOf past id) := by
  have hend := h.endings id
  rw [hf, Option.bind_some] at hend
  rw [outcome_of_future? hf, hend]

/-- A new future has a new name. -/
theorem Lineage.future?_next (h : Lineage past m) (a : Route) : m.future? (m.nextFuture a) = none := by
  cases hf : m.future? (m.nextFuture a) with
  | none => rfl
  | some f => exact absurd (h.values.started (h.roster.spawned hf)).generation_le (Nat.not_succ_le_self _)

/-- A started future joins the roster. -/
theorem Lineage.roster_spawn (h : Lineage past m) (key : String) (p : Prog (Except EvalError Value))
    (ha : (m.node? a).isSome = true) :
    Roster (.spawned a key (m.nextFuture a) :: past) (m.spawn a key p) := by
  have hbranch : (m.branch? a).isSome = true := by rw [isSome_branch?, ha]
  have hnew := h.future?_next a
  refine ⟨fun {b k id} hmem => ?_, fun {id f} hf => ?_, fun id => ?_, fun {b slot} hmem => ?_⟩
  · rw [future?_spawn hbranch]
    rcases List.mem_cons.1 hmem with heq | hold
    · injection heq with h₁ h₂ h₃
      subst h₁ h₂ h₃
      exact ⟨rfl, _, by rw [hnew, if_pos rfl]; rfl, rfl⟩
    · obtain ⟨hhome, f, hf, hkey⟩ := h.roster.started hold
      exact ⟨hhome, f, by rw [hf]; rfl, hkey⟩
  · rw [future?_spawn hbranch] at hf
    cases hm : m.future? id with
    | some g =>
      rw [hm] at hf
      cases hf
      exact List.mem_cons_of_mem _ (h.roster.spawned hm)
    | none =>
      rw [hm, Option.none_or] at hf
      split at hf
      · next hid =>
        cases hf
        subst hid
        exact List.mem_cons_self
      · cases hf
  · rw [future?_spawn hbranch, endOf_cons (by simp), ← h.roster.endings id]
    cases hm : m.future? id with
    | some g => rfl
    | none =>
      rw [Option.none_or]
      split <;> rfl
  · obtain ⟨f, hf⟩ := h.roster.met ((List.mem_cons.1 hmem).resolve_left nofun)
    exact ⟨f, by rw [future?_spawn hbranch, hf]; rfl⟩

/-- An ended future stays on the roster, with its result. -/
theorem Roster.finish (h : Roster past m) {f : Future} (hf : m.future? f.id = some f)
    {result : Except EvalError Value} {report : Except EvalError Unit}
    (hm : ∀ id, m'.future? id = (m.setFuture f.id (.ended result report)).future? id) :
    Roster (.ended f.id result :: past) m' := by
  have law (id : FutureId) : m'.future? id =
      if id = f.id then some { f with state := .ended result report } else m.future? id := by
    rw [hm, future?_setFuture, hf]
    rfl
  refine ⟨fun {b k id} hmem => ?_, fun {id g} hg => ?_, fun id => ?_, fun {b slot} hmem => ?_⟩
  · obtain ⟨hhome, g, hg, hkey⟩ := h.started ((List.mem_cons.1 hmem).resolve_left fun heq => by cases heq)
    rw [law]
    split
    · next hid =>
      subst hid
      cases hf.symm.trans hg
      exact ⟨hhome, _, rfl, hkey⟩
    · exact ⟨hhome, g, hg, hkey⟩
  · have hold := h.spawned hf
    rw [law] at hg
    split at hg
    · next hid =>
      cases hg
      subst hid
      exact List.mem_cons_of_mem _ hold
    · exact List.mem_cons_of_mem _ (h.spawned hg)
  · rw [law, endOf]
    by_cases hid : id = f.id
    · rw [if_pos hid, if_pos hid.symm]
      rfl
    · rw [if_neg hid, if_neg (Ne.symm hid)]
      exact h.endings id
  · obtain ⟨g, hg⟩ := h.met ((List.mem_cons.1 hmem).resolve_left fun heq => by cases heq)
    rw [law]
    split
    · exact ⟨_, rfl⟩
    · exact ⟨g, hg⟩

/-! ## Values -/

/-- A write to a key of a branch. Entries of older futures under that key are gone. -/
theorem Values.write (h : Values past m) {w : Write} {slot : Slot} (ha : (m.node? a).isSome = true)
    (hlast : ∀ b k, lastWrite (e :: past) b k = if a = b ∧ key = k then some w else lastWrite past b k)
    (hend : endOf (e :: past) = endOf past)
    (hfits : EntryFits (endOf past) (some w) (some ⟨(m.store a).generation + 1, slot⟩))
    (hnode : ∀ b, (m'.node? b).isSome = (m.node? b).isSome)
    (hstore : ∀ b, m'.store b = if b = a then (m.store b).write key slot else m.store b)
    (hnew : ∀ {b k id}, .spawned b k id = e → Guarded (e :: past) m' b k id)
    (hmet : ∀ b slot, e ≠ .met b slot) : Values (e :: past) m' := by
  have guarded {b k id} (hg : Guarded past m b k id) : Guarded (e :: past) m' b k id := by
    refine ⟨by rw [hnode]; exact hg.there, ?_, fun entry hentry hgen => ?_⟩
    · rw [hstore]
      split
      · exact Nat.le_succ_of_le hg.generation_le
      · exact hg.generation_le
    · rw [hstore] at hentry
      rw [hlast]
      by_cases hb : b = a
      · subst hb
        rw [if_pos rfl, Store.find?_write] at hentry
        by_cases hk : k = key
        · rw [if_pos hk] at hentry
          cases hentry
          exact absurd (hgen ▸ hg.generation_le) (Nat.not_succ_le_self _)
        · rw [if_neg hk] at hentry
          rw [if_neg fun hh => hk hh.2.symm]
          exact hg.last entry hentry hgen
      · rw [if_neg hb] at hentry
        rw [if_neg fun hh => hb hh.1.symm]
        exact hg.last entry hentry hgen
  refine ⟨fun b => ?_, fun b k => ?_, fun {b k id} hmem => ?_, fun {b k generation id} hmem => ?_⟩
  · rw [hstore]
    split
    · exact (h.bounded b).write key slot
    · exact h.bounded b
  · rw [hlast, hend, hstore]
    by_cases hb : b = a
    · subst hb
      rw [if_pos rfl, Store.find?_write]
      by_cases hk : k = key
      · rw [if_pos hk, if_pos ⟨rfl, hk.symm⟩]
        exact hfits
      · rw [if_neg hk, if_neg fun hh => hk hh.2.symm]
        exact h.fits b k
    · rw [if_neg hb, if_neg fun hh => hb hh.1.symm]
      exact h.fits b k
  · rcases List.mem_cons.1 hmem with heq | hold
    · exact hnew heq
    · exact guarded (h.started hold)
  · obtain ⟨hgen, hg⟩ := h.met ((List.mem_cons.1 hmem).resolve_left fun heq => hmet _ _ heq.symm)
    exact ⟨hgen, guarded hg⟩

/-- A new branch. Nobody knows a future by one of its entries yet. -/
theorem Values.branch (h : Values past m) {child : Route} {s : Store} (hchild : m.node? child = none)
    (hlast : ∀ b k, b ≠ child → lastWrite (e :: past) b k = lastWrite past b k)
    (hend : endOf (e :: past) = endOf past) (hbounded : s.Bounded)
    (hfits : ∀ k, EntryFits (endOf past) (lastWrite (e :: past) child k) (s.find? k))
    (hnode : ∀ b, (m.node? b).isSome = true → (m'.node? b).isSome = true)
    (hstore : ∀ b, m'.store b = if b = child then s else m.store b)
    (hspawned : ∀ b k id, e ≠ .spawned b k id) (hmet : ∀ b slot, e ≠ .met b slot) : Values (e :: past) m' := by
  have guarded {b k id} (hg : Guarded past m b k id) : Guarded (e :: past) m' b k id := by
    have hb : b ≠ child := by
      rintro rfl
      simpa [hchild] using hg.there
    refine ⟨hnode b hg.there, ?_, fun entry hentry hgen => ?_⟩
    · rw [hstore, if_neg hb]
      exact hg.generation_le
    · rw [hstore, if_neg hb] at hentry
      rw [hlast b k hb]
      exact hg.last entry hentry hgen
  refine ⟨fun b => ?_, fun b k => ?_, fun {b k id} hmem => ?_, fun {b k generation id} hmem => ?_⟩
  · rw [hstore]
    split
    · exact hbounded
    · exact h.bounded b
  · rw [hend, hstore]
    by_cases hb : b = child
    · rw [if_pos hb, hb]
      exact hfits k
    · rw [if_neg hb, hlast b k hb]
      exact h.fits b k
  · exact guarded (h.started ((List.mem_cons.1 hmem).resolve_left fun heq => hspawned _ _ _ heq.symm))
  · obtain ⟨hgen, hg⟩ := h.met ((List.mem_cons.1 hmem).resolve_left fun heq => hmet _ _ heq.symm)
    exact ⟨hgen, guarded hg⟩

/-- The end of a future may take the place of its entries; nothing else changes. -/
theorem Values.settle (h : Values past m) (hlast : lastWrite (e :: past) = lastWrite past)
    (hend : ∀ id result, endOf past id = some result → endOf (e :: past) id = some result)
    (hnode : ∀ b, (m'.node? b).isSome = (m.node? b).isSome)
    (hgeneration : ∀ b, (m'.store b).generation = (m.store b).generation)
    (hfind : ∀ b k, (m'.store b).find? k = (m.store b).find? k ∨
      ∃ id entry result, (m.store b).find? k = some entry ∧ entry.generation = id.generation ∧
        lastWrite past b k = some (.future id) ∧ endOf (e :: past) id = some result ∧
        (m'.store b).find? k = result.toOption.map fun v => ⟨id.generation, .ready v⟩)
    (hspawned : ∀ b k id, e ≠ .spawned b k id)
    (hmet : ∀ {b k generation id}, .met b (k, generation, id) = e → ∃ entry,
      (m.store b).find? k = some entry ∧ entry.generation = generation ∧ generation = id.generation ∧
        lastWrite past b k = some (.future id)) :
    Values (e :: past) m' := by
  have old {b k entry} (hentry : (m'.store b).find? k = some entry) :
      ∃ entry', (m.store b).find? k = some entry' ∧ entry'.generation = entry.generation := by
    rcases hfind b k with hsame | ⟨id, entry', result, hentry', hgen, -, -, hnew⟩
    · exact ⟨entry, hsame ▸ hentry, rfl⟩
    · rw [hentry] at hnew
      obtain ⟨v, -, rfl⟩ := Option.map_eq_some_iff.1 hnew.symm
      exact ⟨entry', hentry', hgen⟩
  have guarded {b k id} (hg : Guarded past m b k id) : Guarded (e :: past) m' b k id := by
    refine ⟨by rw [hnode]; exact hg.there, by rw [hgeneration]; exact hg.generation_le,
      fun entry hentry hgen => ?_⟩
    obtain ⟨entry', hentry', hgen'⟩ := old hentry
    rw [hlast]
    exact hg.last entry' hentry' (hgen'.trans hgen)
  refine ⟨fun b k entry hentry => ?_, fun b k => ?_, fun {b k id} hmem => ?_, fun {b k generation id} hmem => ?_⟩
  · obtain ⟨entry', hentry', hgen'⟩ := old hentry
    rw [hgeneration, ← hgen']
    exact h.bounded b k entry' hentry'
  · rw [hlast]
    rcases hfind b k with hsame | ⟨id, entry', result, -, -, hw, hres, hnew⟩
    · rw [hsame]
      exact (h.fits b k).mono hend
    · rw [hw, hnew]
      exact .of_end hres
  · exact guarded (h.started ((List.mem_cons.1 hmem).resolve_left fun heq => hspawned _ _ _ heq.symm))
  · rcases List.mem_cons.1 hmem with heq | hold
    · obtain ⟨entry, hentry, hg, hgen, hw⟩ := hmet heq
      refine ⟨hgen, guarded ⟨isSome_node?_of_find? hentry, ?_, fun _ _ _ => hw⟩⟩
      rw [← hgen, ← hg]
      exact h.bounded b k entry hentry
    · obtain ⟨hgen, hg⟩ := h.met hold
      exact ⟨hgen, guarded hg⟩

end MediaQuery.Machine
