import MediaQuery.Proofs.Machine.Rest
import MediaQuery.Proofs.Order.Chronology

/-!
# What is told of a run

The chronicle of a program that runs on a machine tells what it enters in the log of a query, turn after turn, and the
failure it ends with, if it does (`Machine.chronicle`, `Machine.story`). The chronicle of a calm program is in the order
of its instants (`chronicle_eq`), the log has got what it tells (`log_drive`), and that of one program after another is
that of the first and then that of the second (`story_bind`).
-/

namespace MediaQuery.Machine

variable {α β : Type} {m m' m'' : Machine} {s : Route}

/-- What the log of a query has got. -/
def news (s : Route) (m m' : Machine) : List Path := (m'.logAt s).drop (m.logAt s).length

/-- New entries of a log, as incidents of one instant. -/
def entries (t : Nat) (paths : List Path) : Story := paths.map fun path => (t, .entered path)

/-- How a story ends: with the failure, if there is one. -/
def closing (t : Nat) : Except ExecutionError α → Story
  | .ok _ => []
  | .error e => [(t, .failed e.bare)]

/-- What a run enters in the log of a query while it takes turns, and the failure it ends with. -/
def chronicle (s : Route) (main : Run (Except ExecutionError α)) (m : Machine) : Story :=
  match main.result? with
  | some r => closing m.clock r
  | none =>
    match _h : turn main m with
    | some (main', m') => entries m'.clock (news s m m') ++ chronicle s main' m'
    | none => []
termination_by (wellFounded_lt_tokens.wrap (main.tokens ++ m.tokens))
decreasing_by exact turn_lt ‹_›

/-- The same from the start of a program. -/
def story (s : Route) (p : Prog (Except ExecutionError α)) (m : Machine) : Story :=
  entries m.clock (news s m (p.start [] m).2) ++ chronicle s (p.start [] m).1 (p.start [] m).2

/-! ## News -/

theorem log_eq_news (h : m.logAt s <+: m'.logAt s) : m'.logAt s = m.logAt s ++ news s m m' := by
  obtain ⟨paths, hpaths⟩ := h
  unfold news
  rw [← hpaths, List.drop_left]

theorem news_eq {paths : List Path} (h : m'.logAt s = m.logAt s ++ paths) : news s m m' = paths := by
  unfold news
  rw [h, List.drop_left]

@[simp] theorem news_self (s : Route) (m : Machine) : news s m m = [] := List.drop_length

theorem news_trans (h : m.logAt s <+: m'.logAt s) (h' : m'.logAt s <+: m''.logAt s) :
    news s m m'' = news s m m' ++ news s m' m'' := by
  refine news_eq ?_
  rw [log_eq_news h', log_eq_news h, List.append_assoc]

@[simp] theorem entries_nil (t : Nat) : entries t [] = [] := rfl

theorem entries_append (t : Nat) (paths more : List Path) :
    entries t (paths ++ more) = entries t paths ++ entries t more := List.map_append ..

theorem of_mem_entries {t : Nat} {paths : List Path} {x : Nat × Incident} (h : x ∈ entries t paths) :
    x.1 = t ∧ x.2.isFailure = false := by
  obtain ⟨path, -, rfl⟩ := List.mem_map.1 h
  exact ⟨rfl, rfl⟩

@[simp] theorem paths_append (x y : Story) : Story.paths (x ++ y) = x.paths ++ y.paths := List.filterMap_append

@[simp] theorem paths_entries (t : Nat) (paths : List Path) : Story.paths (entries t paths) = paths := by
  induction paths with
  | nil => rfl
  | cons path rest ih => exact congrArg (path :: ·) ih

@[simp] theorem paths_closing (t : Nat) (r : Except ExecutionError α) : Story.paths (closing t r) = [] := by
  cases r <;> rfl

/-! ## Turns -/

variable {main main' : Run (Except ExecutionError α)} {r : Except ExecutionError α}

theorem chronicle_of_result (h : main.result? = some r) (m : Machine) : chronicle s main m = closing m.clock r := by
  unfold chronicle
  rw [h]

theorem chronicle_done (s : Route) (r : Except ExecutionError α) (m : Machine) :
    chronicle s (.done r) m = closing m.clock r := chronicle_of_result rfl m

theorem chronicle_of_turn (h : main.result? = none) (ht : turn main m = some (main', m')) :
    chronicle s main m = entries m'.clock (news s m m') ++ chronicle s main' m' := by
  rw [chronicle]
  simp only [h]
  split
  · next hs =>
    rw [ht] at hs
    cases hs
    rfl
  · next hs =>
    rw [ht] at hs
    cases hs

/-- A calm run has ended, or it sleeps until its next turn. -/
theorem calm_cases (hm : m.Resting) (hr : main.Calm m.clock) :
    (∃ r, main = .done r) ∨ main.result? = none ∧ ∃ w, main.wake? = some w ∧ m.clock < w ∧
      CalmRun { m with clock := w } (main.resume [] { m with clock := w }) ∧
      turn main m = some (main.resume [] { m with clock := w }) := by
  cases hres : main.result? with
  | some r =>
    cases main with
    | done r' => exact .inl ⟨r', rfl⟩
    | _ => cases hres
  | none =>
    obtain ⟨w, hw, hlt, hturn⟩ := turn_of_calm hm hr hres
    exact .inr ⟨rfl, w, hw, hlt, calm_resume hr (hm.advance (Nat.le_of_lt hlt)).rest, hturn⟩

/-- **An induction along the turns of a calm run.** A turn takes it from sleep to sleep. -/
@[elab_as_elim] theorem calm_induction {motive : Run (Except ExecutionError α) → Machine → Prop}
    (done : ∀ r m, m.Resting → motive (.done r) m)
    (turn : ∀ main m w, m.Resting → main.Calm m.clock → main.result? = none → main.wake? = some w → m.clock < w →
      Machine.turn main m = some (main.resume [] { m with clock := w }) →
      CalmRun { m with clock := w } (main.resume [] { m with clock := w }) →
      motive (main.resume [] { m with clock := w }).1 (main.resume [] { m with clock := w }).2 → motive main m)
    (main : Run (Except ExecutionError α)) (m : Machine) (hm : m.Resting) (hr : main.Calm m.clock) : motive main m := by
  induction main, m using drive.induct with
  | case1 main m a h =>
    cases main with
    | done r => exact done r m hm
    | _ => cases h
  | case2 main m h main' m' ht ih =>
    obtain ⟨w, hw, hlt, hturn⟩ := turn_of_calm hm hr h
    have hresumed : CalmRun { m with clock := w } (main.resume [] { m with clock := w }) :=
      calm_resume hr (hm.advance (Nat.le_of_lt hlt)).rest
    refine turn main m w hm hr h hw hlt hturn hresumed ?_
    have hnext := Option.some.inj (ht.symm.trans hturn)
    rw [← hnext] at hresumed ⊢
    exact ih hresumed.rested.rest (by rw [hresumed.clock]; exact hresumed.calm)
  | case3 main m h ht =>
    obtain ⟨w, -, -, hturn⟩ := turn_of_calm hm hr h
    cases ht.symm.trans hturn

/-- What has been told of a run until its end is in order, and is no failure. -/
structure Told (story : Story) (t t' : Nat) : Prop where
  sorted : Story.Sorted story
  quiet : ∀ x ∈ story, x.2.isFailure = false
  early : ∀ x ∈ story, t ≤ x.1
  late : ∀ x ∈ story, x.1 ≤ t'
  order : t ≤ t'

/-- Entries that come before it. -/
theorem Told.after_entries {body : Story} {t w t' : Nat} (h : Told body w t') (ht : t ≤ w) (paths : List Path) :
    Told (entries w paths ++ body) t t' := by
  refine ⟨List.pairwise_append.2 ⟨?_, h.sorted, fun x hx y hy => ?_⟩, fun x hx => ?_, fun x hx => ?_, fun x hx => ?_,
    Nat.le_trans ht h.order⟩
  · exact List.pairwise_of_forall_mem_list fun x hx y hy => by rw [(of_mem_entries hx).1, (of_mem_entries hy).1]
  · rw [(of_mem_entries hx).1]
    exact h.early y hy
  · rcases List.mem_append.1 hx with hx | hx
    · exact (of_mem_entries hx).2
    · exact h.quiet x hx
  · rcases List.mem_append.1 hx with hx | hx
    · rwa [(of_mem_entries hx).1]
    · exact Nat.le_trans ht (h.early x hx)
  · rcases List.mem_append.1 hx with hx | hx
    · rw [(of_mem_entries hx).1]
      exact h.order
    · exact h.late x hx

/-- **The chronicle of a calm run is in order, and ends with the failure of the run.** -/
theorem chronicle_eq (main : Run (Except ExecutionError α)) (m : Machine) (hm : m.Resting) (hr : main.Calm m.clock) :
    ∃ r m' body, drive main m = (some r, m') ∧ chronicle s main m = body ++ closing m'.clock r ∧
      Told body m.clock m'.clock ∧ (main.result? = none → ∀ x ∈ body, m.clock < x.1) ∧
      m'.logAt s = m.logAt s ++ Story.paths body := by
  refine calm_induction (fun r m hm => ?_) (fun main m w hm hr hres hw hlt hturn hcalm ih => ?_) main m hm hr
  · refine ⟨r, m, [], drive_of_result rfl m, chronicle_of_result rfl m, ?_, nofun, (List.append_nil _).symm⟩
    exact ⟨.nil, nofun, nofun, nofun, Nat.le_refl _⟩
  · obtain ⟨r, m', body, hdrive, hchronicle, htold, -, hlog⟩ := ih
    have hclock : (main.resume [] { m with clock := w }).2.clock = w := hcalm.clock
    rw [hclock] at htold
    refine ⟨r, m', entries w (news s m (main.resume [] { m with clock := w }).2) ++ body,
      (drive_of_turn hres hturn).trans hdrive, ?_, htold.after_entries (Nat.le_of_lt hlt) _, fun _ x hx => ?_, ?_⟩
    · rw [chronicle_of_turn hres hturn, hchronicle, hclock, List.append_assoc]
    · rcases List.mem_append.1 hx with hx | hx
      · rw [(of_mem_entries hx).1]
        exact hlt
      · exact Nat.lt_of_lt_of_le hlt (htold.early x hx)
    · rw [hlog, log_eq_news (hcalm.rested.logs s), paths_append, paths_entries]
      exact List.append_assoc ..

/-- What a run that sleeps has to tell is of later instants. -/
theorem chronicle_late (hm : m.Resting) (hr : main.Calm m.clock) (hres : main.result? = none) :
    ∀ x ∈ chronicle s main m, m.clock < x.1 := by
  obtain ⟨w, -, hlt, hturn⟩ := turn_of_calm hm hr hres
  have hcalm : CalmRun { m with clock := w } (main.resume [] { m with clock := w }) :=
    calm_resume hr (hm.advance (Nat.le_of_lt hlt)).rest
  obtain ⟨r, m', body, -, hchronicle, htold, -, -⟩ := chronicle_eq (s := s) _ _ hcalm.rested.rest
    (by rw [hcalm.clock]; exact hcalm.calm)
  have hclock : (main.resume [] { m with clock := w }).2.clock = w := hcalm.clock
  rw [hclock] at htold
  intro x hx
  rw [chronicle_of_turn hres hturn, hchronicle, hclock] at hx
  rcases List.mem_append.1 hx with hx | hx
  · rwa [(of_mem_entries hx).1]
  · rcases List.mem_append.1 hx with hx | hx
    · exact Nat.lt_of_lt_of_le hlt (htold.early x hx)
    · cases r with
      | ok a => cases hx
      | error e =>
        rw [List.mem_singleton.1 hx]
        exact Nat.lt_of_lt_of_le hlt htold.order

/-! ## Programs -/

variable {p : Prog (Except ExecutionError α)} {f : α → Prog (Except ExecutionError β)}

/-- **The story of a calm program is in order, ends with the failure of the program, and is what the log has got.** -/
theorem story_eq (s : Route) (hp : p.Calm) (hm : m.Resting) :
    ∃ r m' body, m.run p = (some r, m') ∧ story s p m = body ++ closing m'.clock r ∧ Told body m.clock m'.clock ∧
      m'.logAt s = m.logAt s ++ Story.paths body ∧ Rested m m' := by
  have hstarted : CalmRun m (p.start [] m) := calm_start hp hm
  obtain ⟨r, m', body, hdrive, hchronicle, htold, -, hlog⟩ :=
    chronicle_eq (s := s) (p.start [] m).1 (p.start [] m).2 hstarted.rested.rest
      (by rw [hstarted.clock]; exact hstarted.calm)
  rw [hstarted.clock] at htold
  refine ⟨r, m', entries m.clock (news s m (p.start [] m).2) ++ body, hdrive, ?_,
    htold.after_entries (Nat.le_refl _) _, ?_, rested_of_run hp hm hdrive⟩
  · unfold story
    rw [hchronicle, List.append_assoc]
  · rw [hlog, log_eq_news (hstarted.rested.logs s), paths_append, paths_entries]
    exact List.append_assoc ..

theorem of_mem_closing {t : Nat} {r : Except ExecutionError α} {x : Nat × Incident} (h : x ∈ closing t r) :
    x.1 = t := by
  cases r with
  | ok a => cases h
  | error e => rw [List.mem_singleton.1 h]

/-- The story of a program that enters nothing. -/
theorem story_silent (hp : p.Calm) (hm : m.Resting) {r : Except ExecutionError α} {m' : Machine}
    (hrun : m.run p = (some r, m')) (hlog : m'.logAt s = m.logAt s) : story s p m = closing m'.clock r := by
  obtain ⟨r, m', body, hrun', hstory, htold, hpaths, -⟩ := story_eq s hp hm
  cases hrun'.symm.trans hrun
  have hsilent : Story.paths body = [] :=
    List.append_cancel_left (hpaths.symm.trans (hlog.trans (List.append_nil _).symm))
  have hbody : body = [] := by
    cases body with
    | nil => rfl
    | cons x rest =>
      obtain ⟨t, incident⟩ := x
      cases incident with
      | entered path => cases hsilent
      | failed e => cases htold.quiet _ List.mem_cons_self
  rw [hstory, hbody, List.nil_append]

/-- A story starts at the time of the machine. -/
theorem story_early (s : Route) (hp : p.Calm) (hm : m.Resting) : ∀ x ∈ story s p m, m.clock ≤ x.1 := by
  obtain ⟨r, m', body, -, hstory, htold, -, -⟩ := story_eq s hp hm
  intro x hx
  rw [hstory] at hx
  rcases List.mem_append.1 hx with hx | hx
  · exact htold.early x hx
  · exact of_mem_closing hx ▸ htold.order

/-- A story is in order, and ends with its first failure. -/
theorem story_chronological (s : Route) (hp : p.Calm) (hm : m.Resting) :
    upToFailure (chronology (story s p m)) = story s p m := by
  obtain ⟨r, m', body, -, hstory, htold, -, -⟩ := story_eq s hp hm
  have hclosing : Story.Sorted (closing m'.clock r) ∧ upToFailure (closing m'.clock r) = closing m'.clock r := by
    cases r with
    | ok a => exact ⟨.nil, rfl⟩
    | error e => exact ⟨List.pairwise_singleton .., rfl⟩
  have hsorted : Story.Sorted (body ++ closing m'.clock r) :=
    List.pairwise_append.2 ⟨htold.sorted, hclosing.1, fun x hx y hy => of_mem_closing hy ▸ htold.late x hx⟩
  rw [hstory, Story.chronology_eq_self hsorted, Story.upToFailure_append htold.quiet, hclosing.2]

/-- What comes after a program that has succeeded. -/
def storyAfter (s : Route) (f : α → Prog (Except ExecutionError β)) :
    Option (Except ExecutionError α) × Machine → Story
  | (some (.ok a), m) => story s (f a) m
  | _ => []

theorem calm_bindCont (hf : ∀ a, (f a).Calm) (r : Except ExecutionError α) :
    (ExceptT.bindCont f r : Prog (Except ExecutionError β)).Calm := by
  cases r with
  | ok a => exact hf a
  | error e => trivial

/-- To go on to another program takes no time, and adds to logs at most. -/
theorem later_andThen (hf : ∀ a, (f a).Calm) (main : Run (Except ExecutionError α)) (hm : m.Resting) :
    (main.andThen (ExceptT.bindCont f : _ → Prog (Except ExecutionError β)) [] m).2.clock = m.clock ∧
      m.logAt s <+: (main.andThen (ExceptT.bindCont f : _ → Prog (Except ExecutionError β)) [] m).2.logAt s := by
  cases main with
  | done r =>
    have hstarted : CalmRun m ((ExceptT.bindCont f r : Prog (Except ExecutionError β)).start [] m) :=
      calm_start (calm_bindCont hf r) hm
    exact ⟨hstarted.clock, hstarted.rested.logs s⟩
  | _ => exact ⟨rfl, List.prefix_rfl⟩

theorem chronicle_andThen (hf : ∀ a, (f a).Calm) (main : Run (Except ExecutionError α)) (m : Machine) (hm : m.Resting)
    (hr : main.Calm m.clock) :
    entries m.clock (news s m (main.andThen (ExceptT.bindCont f) [] m).2) ++
        chronicle s (main.andThen (ExceptT.bindCont f) [] m).1 (main.andThen (ExceptT.bindCont f) [] m).2 =
      chronicle s main m ++ storyAfter s f (drive main m) := by
  refine calm_induction (fun r m hm => ?_) (fun main m w hm hr hres _ hlt hturn hcalm ih => ?_) main m hm hr
  · rw [drive_of_result rfl]
    cases r with
    | ok a =>
      rw [chronicle_done]
      rfl
    | error e =>
      have hthen : (Run.done (Except.error e : Except ExecutionError α)).andThen (ExceptT.bindCont f) [] m =
          (.done (Except.error e : Except ExecutionError β), m) := rfl
      rw [hthen, news_self, chronicle_done, chronicle_done]
      rfl
  · -- the turn of the first program is one of both, which may go on to the second at once
    have hnext := turn_andThen hres (ExceptT.bindCont f : _ → Prog (Except ExecutionError β)) m
    rw [hturn, Option.map_some] at hnext
    generalize main.resume [] { m with clock := w } = x at hturn hcalm ih hnext
    obtain ⟨run, m'⟩ := x
    obtain ⟨hclock, hlogs⟩ := later_andThen (s := s) hf run hcalm.rested.rest
    have hnews := news_trans (hcalm.rested.logs s) hlogs
    rw [andThen_machine hres, news_self, entries_nil, List.nil_append]
    dsimp only at hnext hclock hnews hlogs ih
    generalize run.andThen (ExceptT.bindCont f : _ → Prog (Except ExecutionError β)) [] m' = y
      at hnext hclock hlogs hnews ih
    obtain ⟨next, m''⟩ := y
    rw [chronicle_of_turn (result?_andThen hres _ _ _) hnext, drive_of_turn hres hturn, chronicle_of_turn hres hturn,
      List.append_assoc, ← ih, ← hclock, ← List.append_assoc, ← entries_append]
    exact congrArg (fun paths => entries _ paths ++ _) hnews

/-- **The story of one program after another.** -/
theorem story_andThen (s : Route) (hp : p.Calm) (hf : ∀ a, (f a).Calm) (hm : m.Resting) :
    story s (ExceptT.run (ExceptT.mk p >>= fun a => ExceptT.mk (f a))) m = story s p m ++ storyAfter s f (m.run p) := by
  have hstarted : CalmRun m (p.start [] m) := calm_start hp hm
  have hstart : (ExceptT.run (ExceptT.mk p >>= fun a => ExceptT.mk (f a))).start [] m =
      (p.start [] m).1.andThen (ExceptT.bindCont f) [] (p.start [] m).2 := start_bind p (ExceptT.bindCont f) [] m
  have hafter := chronicle_andThen (s := s) hf (p.start [] m).1 (p.start [] m).2 hstarted.rested.rest
    (by rw [hstarted.clock]; exact hstarted.calm)
  obtain ⟨hclock, hlogs⟩ := later_andThen (s := s) hf (p.start [] m).1 hstarted.rested.rest
  have hrun : m.run p = drive (p.start [] m).1 (p.start [] m).2 := rfl
  unfold story
  rw [hstart, hrun, List.append_assoc, ← hafter, hstarted.clock, ← List.append_assoc, ← entries_append,
    news_trans (hstarted.rested.logs s) hlogs]

theorem story_done (s : Route) (a : α) (m : Machine) : story s (.done (.ok a)) m = [] := by
  have hstart : (Prog.done (Except.ok a : Except ExecutionError α)).start [] m = (.done (.ok a), m) := rfl
  unfold story
  rw [hstart, news_self, chronicle_done]
  rfl

theorem bind_map (p : Prog (Except ExecutionError α)) (f : α → β) : (p.bind fun r => .done (r.map f)) =
    ExceptT.run (ExceptT.mk p >>= fun a => ExceptT.mk (.done (.ok (f a)))) := by
  refine congrArg p.bind (funext fun r => ?_)
  cases r <;> rfl

/-- Nothing is told of what is done with a value. -/
theorem story_map (s : Route) (hp : p.Calm) (hm : m.Resting) (f : α → β) :
    story s (p.bind fun r => .done (r.map f)) m = story s p m := by
  have hstory := story_andThen (f := fun a => .done (.ok (f a))) s hp (fun _ => trivial) hm
  obtain ⟨r, m', hrun, -⟩ := run_of_calm hp hm
  rw [bind_map, hstory, hrun]
  cases r with
  | error e => exact List.append_nil _
  | ok a =>
    dsimp only [storyAfter]
    rw [story_done, List.append_nil]

/-! ## Time that passes -/

/-- A calm run that sleeps does not mind that time passes, as long as it goes on sleeping. -/
theorem chronicle_tick (hm : m.Resting) (hr : main.Calm m.clock) (hres : main.result? = none) {t : Nat}
    (ht : main.Calm t) : chronicle s main { m with clock := t } = chronicle s main m ∧
      drive main { m with clock := t } = drive main m := by
  obtain ⟨w, hw, -, hturn⟩ := turn_of_calm hm hr hres
  have htick : { m with clock := t }.Resting := ⟨hm.ended, hm.idle⟩
  obtain ⟨w', hw', -, hturn'⟩ := turn_of_calm htick ht hres
  cases hw.symm.trans hw'
  refine ⟨?_, ?_⟩
  · rw [chronicle_of_turn hres hturn, chronicle_of_turn hres hturn']
    rfl
  · rw [drive_of_turn hres hturn, drive_of_turn hres hturn']

/-- A run that has not failed may be taken on before its next sleep ends, and then tells what it tells without that. -/
theorem chronicle_resume (hm : m.Resting) (hr : main.Calm m.clock) (hne : ∀ e, main ≠ .done (.error e)) {t : Nat}
    (ht : ∀ w, main.wake? = some w → t ≤ w) :
    chronicle s main m = entries t (news s m (main.resume [] { m with clock := t }).2) ++
        chronicle s (main.resume [] { m with clock := t }).1 (main.resume [] { m with clock := t }).2 ∧
      (drive main m).1 =
        (drive (main.resume [] { m with clock := t }).1 (main.resume [] { m with clock := t }).2).1 := by
  rcases calm_cases hm hr with ⟨r, rfl⟩ | ⟨hres, w, hw, hlt, hcalm, hturn⟩
  · cases r with
    | error e => exact absurd rfl (hne e)
    | ok a =>
      have hresume : (Run.done (Except.ok a : Except ExecutionError α)).resume [] { m with clock := t } =
          (.done (.ok a), { m with clock := t }) := rfl
      have hnews : news s m { m with clock := t } = [] := news_self s m
      rw [hresume, hnews, chronicle_done, chronicle_done, drive_of_result rfl, drive_of_result rfl]
      exact ⟨rfl, rfl⟩
  · rcases Nat.eq_or_lt_of_le (ht w hw) with rfl | hidle
    · have hclock : (main.resume [] { m with clock := t }).2.clock = t := hcalm.clock
      rw [chronicle_of_turn hres hturn, drive_of_turn hres hturn, hclock]
      exact ⟨rfl, rfl⟩
    · have hwake : ∀ w', main.wake? = some w' → t < w' := fun w' hw' => by
        cases hw.symm.trans hw'
        exact hidle
      have hresume : main.resume [] { m with clock := t } = (main, { m with clock := t }) := hr.resume_idle hwake []
      obtain ⟨hsame, hdrive⟩ := chronicle_tick (s := s) hm hr hres (hr.later hwake)
      have hnews : news s m { m with clock := t } = [] := news_self s m
      rw [hresume, hnews, hsame, hdrive]
      exact ⟨rfl, rfl⟩

end MediaQuery.Machine
