import MediaQuery.Proofs.Machine.Parallel
import MediaQuery.Proofs.Machine.Standing

/-!
# Courses

A course says how something goes that may fail: what is told of it, with all that its parts would tell if they did not
stop each other, and what it comes to unless it fails (`Course`). Courses are put together one after another
(`Course.andThen`) and side by side (`Course.all`). A program goes as a course says (`Goes`) if its story is that of the
course in the order of instants, up to the first failure, and it succeeds exactly if the course does. Programs that are
put together in the same ways go as their courses do (`Goes.andThen`, `goes_parallel`).
-/

namespace MediaQuery

open Machine

variable {α β γ δ : Type}

/-- How something goes: what is told of it, and what it comes to unless it fails. -/
structure Course (α : Type) where
  story : Story
  value? : Option α

/-- A value, and a branch to go on with: what it offers, from what instant on, and whether it belongs to the same
query. -/
structure After (α : Type) where
  value : α
  setting : Setting
  instant : Nat
  loyal : Bool

/-- The same with another value. -/
def After.map (f : α → β) (a : After α) : After β := ⟨f a.value, a.setting, a.instant, a.loyal⟩

namespace Course

/-- A value. -/
def value (a : α) : Course α := ⟨[], some a⟩

/-- A failure. -/
def failure (t : Nat) (e : ExecutionError) : Course α := ⟨[(t, .failed e.bare)], none⟩

/-- One after another. -/
def andThen (c : Course α) (f : α → Course β) : Course β :=
  match c.value? with
  | some a => ⟨c.story ++ (f a).story, (f a).value?⟩
  | none => ⟨c.story, none⟩

/-- The same with another value. -/
def map (f : α → β) (c : Course α) : Course β := ⟨c.story, c.value?.map f⟩

/-- Side by side. -/
def all (courses : List (Course α)) : Course (List α) := ⟨courses.flatMap story, courses.mapM value?⟩

/-- If it is not heard, nothing but a failure is told. -/
def heard (c : Course α) (hears : Bool) : Course α := if hears then c else ⟨c.story.muted, c.value?⟩

/-- Some paths are entered first. -/
def entering (t : Nat) (paths : List Path) (c : Course α) : Course α := ⟨entries t paths ++ c.story, c.value?⟩

/-- Goes on with the branch that has been left. What is done on a branch of another query is not heard. -/
def goOn (c : Course (After α)) (f : α → Setting → Nat → Course β) : Course β :=
  c.andThen fun a => (f a.value a.setting a.instant).heard a.loyal

theorem andThen_of_some {c : Course α} {a : α} (h : c.value? = some a) (f : α → Course β) :
    c.andThen f = ⟨c.story ++ (f a).story, (f a).value?⟩ := by
  unfold andThen
  rw [h]

theorem andThen_of_none {c : Course α} (h : c.value? = none) (f : α → Course β) : c.andThen f = ⟨c.story, none⟩ := by
  unfold andThen
  rw [h]

theorem andThen_entering (c : Course α) (t : Nat) (paths : List Path) (f : α → Course β) :
    (c.entering t paths).andThen f = (c.andThen f).entering t paths := by
  unfold andThen entering
  cases c.value? with
  | none => rfl
  | some a => simp only [List.append_assoc]

theorem mapM_value?_eq_some {courses : List (Course α)} {values : List α} :
    courses.mapM value? = some values ↔ courses.map value? = values.map some := by
  induction courses generalizing values with
  | nil => cases values <;> simp
  | cons c rest ih =>
    simp only [List.mapM_cons, List.map_cons, Option.bind_eq_bind, Option.bind_eq_some_iff, Option.pure_def,
      Option.some_inj, ih]
    constructor
    · rintro ⟨a, ha, values', hvalues, rfl⟩
      rw [ha, hvalues, List.map_cons]
    · intro h
      cases values with
      | nil => cases h
      | cons v values =>
        obtain ⟨hv, hvalues⟩ := List.cons.inj h
        exact ⟨v, hv, values, hvalues, rfl⟩

end Course

/-- What a run comes to that goes as a course says: its result, the instant of its end, and the paths that have been
entered. It succeeds if there is no failure in the course, and has then entered all its paths. Otherwise the first
failure ends it, and what precedes that one has been entered. -/
inductive Course.Ends (c : Course α) : Except ExecutionError α → Nat → List Path → Prop
  | value {v : α} {t : Nat} (value : c.value? = some v) (quiet : ∀ x ∈ c.story, x.2.isFailure = false)
    (ended : ∀ x ∈ c.story, x.1 ≤ t) : c.Ends (.ok v) t (Story.paths (chronology c.story))
  | failure {e : ExecutionError} {t : Nat} {before after : Story} (value : c.value? = none)
    (first : Story.FirstFailure c.story before t e.bare after) :
    c.Ends (.error e) t (Story.paths (Story.preceding before t after))

/-- A run fails exactly if there is a failure in its course. -/
theorem Course.Ends.fails_iff {c : Course α} {r : Except ExecutionError α} {t : Nat} {paths : List Path}
    (h : c.Ends r t paths) : (∃ e, r = .error e) ↔ ∃ x ∈ c.story, x.2.isFailure = true := by
  cases h with
  | value _ hquiet _ =>
    refine ⟨nofun, fun ⟨x, hx, hf⟩ => ?_⟩
    rw [hquiet x hx] at hf
    cases hf
  | @failure e t before after _ hfirst =>
    refine ⟨fun _ => ⟨(t, .failed e.bare), ?_, rfl⟩, fun _ => ⟨e, rfl⟩⟩
    rw [hfirst.split]
    exact List.mem_append_right _ List.mem_cons_self

namespace Machine

/-- A result, and what it is taken for. -/
inductive Matches (R : α → Machine → γ → Prop) (m : Machine) : Except ExecutionError α → Option γ → Prop
  | ok {a : α} {c : γ} (h : R a m c) : Matches R m (.ok a) (some c)
  | error {e : ExecutionError} : Matches R m (.error e) none

/-- A program goes as told on a machine. Of the logs that have been there from some moment on, it adds to that of the
given session only. -/
structure Goes (s : Route) (m₀ : Machine) (p : Prog (Except ExecutionError α)) (m : Machine)
    (R : α → Machine → γ → Prop) (c : Course γ) : Prop where
  story : story s p m = upToFailure (chronology c.story)
  early : ∀ x ∈ c.story, m.clock ≤ x.1
  ends : ∃ r m', m.run p = (some r, m') ∧ Matches R m' r c.value? ∧
    ∀ a, a ≠ s → (m₀.node? a).isSome = true → m'.logAt a = m.logAt a

variable {m m' m₀ : Machine} {s s' b : Route} {g : Setting} {t : Nat} {R : α → Machine → γ → Prop}
  {S : β → Machine → δ → Prop} {p : Prog (Except ExecutionError α)} {f : α → Prog (Except ExecutionError β)}
  {c : Course γ}

/-! ## One after another -/

theorem goes_done {r : α} {d : γ} (h : R r m d) : Goes s m₀ (.done (.ok r)) m R (.value d) := by
  refine ⟨?_, nofun, .ok r, m, run_done _ m, .ok h, fun _ _ _ => rfl⟩
  unfold Course.value
  rw [story_done, Story.chronology_nil]
  rfl

/-- A failure at a branch. -/
theorem goes_throw (e : EvalError) (place : Path) (b : Route) :
    Goes s m₀ (ExceptT.run (ExceptT.lift (Prog.log b) >>= fun log =>
      ExceptT.mk (.done (.error (e.wrap place log b))))) m R (.failure m.clock (e.wrap place [] [])) := by
  have hbare (log : List Path) : (e.wrap place log b).bare = (e.wrap place [] []).bare := by
    cases e <;> rfl
  refine ⟨?_, fun x hx => by rw [List.mem_singleton.1 hx], .error (e.wrap place (m.session b).log b), m,
    drive_of_result rfl m, .error, fun _ _ _ => rfl⟩
  have hstart : (ExceptT.run (ExceptT.lift (Prog.log b) >>= fun log =>
      ExceptT.mk (.done (.error (e.wrap place log b)))) : Prog (Except ExecutionError α)).start [] m =
        (.done (.error (e.wrap place (m.session b).log b)), m) := rfl
  unfold Machine.story Course.failure
  rw [hstart, news_self, chronicle_done, Story.chronology_eq_self (List.pairwise_singleton ..)]
  dsimp only [closing]
  rw [hbare]
  rfl

/-- A program whose story has no failure goes as a course without failures. -/
theorem Goes.quiet (h : Goes s m₀ p m R c) (hp : p.Calm) (hm : m.Resting) {a : α}
    (hrun : m.run p = (some (.ok a), m')) :
    Machine.story s p m = chronology c.story ∧ (∀ x ∈ c.story, x.2.isFailure = false) ∧
      ∀ x ∈ c.story, x.1 ≤ m'.clock := by
  obtain ⟨r, m'', body, hrun', hstory, htold, -, -⟩ := story_eq s hp hm
  cases hrun'.symm.trans hrun
  have hbody : upToFailure (chronology c.story) = body := by
    rw [← h.story, hstory]
    exact List.append_nil body
  have hquiet := Story.quiet_of_upToFailure (hbody ▸ htold.quiet)
  have hall : ∀ x ∈ c.story, x ∈ chronology c.story := fun x hx => Story.mem_chronology.2 hx
  have hsame := Story.upToFailure_eq_self hquiet
  refine ⟨h.story.trans hsame, fun x hx => hquiet x (hall x hx), fun x hx => htold.late x ?_⟩
  rw [← hbody, hsame]
  exact hall x hx

/-- **What a run comes to that goes as told.** -/
theorem Goes.comes_to {p : Prog (Except ExecutionError γ)} (h : Goes s m₀ p m (fun v _ v' => v = v') c) (hp : p.Calm)
    (hm : m.Resting) :
    ∃ r m' paths, m.run p = (some r, m') ∧ c.Ends r m'.clock paths ∧ m'.logAt s = m.logAt s ++ paths := by
  obtain ⟨r, m', body, hrun, hstory, htold, hlog, -⟩ := story_eq s hp hm
  obtain ⟨_, _, hrun', hmatch, -⟩ := h.ends
  cases hrun'.symm.trans hrun
  refine ⟨r, m', Story.paths body, hrun, ?_, hlog⟩
  generalize hv : c.value? = v at hmatch
  cases hmatch with
  | ok hR =>
    subst hR
    obtain ⟨hall, hquiet, hlate⟩ := h.quiet hp hm hrun
    have hbody : body = chronology c.story := (List.append_nil body).symm.trans (hstory.symm.trans hall)
    exact hbody ▸ .value hv hquiet hlate
  | error =>
    obtain ⟨before, after, hfirst, hbody⟩ :=
      Story.firstFailure_of_upToFailure (h.story.symm.trans hstory) htold.quiet
    exact hbody ▸ .failure hv hfirst

/-- **One program after another goes as one course after another.** -/
theorem Goes.andThen (h : Goes s m₀ p m R c) (hp : p.Calm) (hf : ∀ a, (f a).Calm) (hm : m.Resting) {f' : γ → Course δ}
    (hnext : ∀ a m' d, m.run p = (some (.ok a), m') → R a m' d → Goes s m₀ (f a) m' S (f' d)) :
    Goes s m₀ (ExceptT.run (ExceptT.mk p >>= fun a => ExceptT.mk (f a))) m S (c.andThen f') := by
  obtain ⟨r, m', hrun, hmatch, hothers⟩ := h.ends
  have hstory := story_andThen s hp hf hm
  have hboth := run_andThen p f m
  rw [hrun] at hstory hboth
  generalize hv : c.value? = v at hmatch
  cases hmatch with
  | @error e =>
    rw [Course.andThen_of_none hv]
    refine ⟨?_, h.early, .error e, m', hboth, .error, hothers⟩
    rw [hstory, h.story]
    exact List.append_nil _
  | @ok a d hR =>
    have hgoes := hnext a m' d hrun hR
    obtain ⟨htold, hquiet, hlate⟩ := h.quiet hp hm hrun
    obtain ⟨r, m'', hrun', hmatch, hothers'⟩ := hgoes.ends
    have hrested := rested_of_run hp hm hrun
    rw [Course.andThen_of_some hv]
    refine ⟨?_, fun x hx => ?_, r, m'', hboth.trans hrun', hmatch,
      fun a has ha => (hothers' a has ha).trans (hothers a has ha)⟩
    · dsimp only [storyAfter] at hstory
      have hquiet' : ∀ x ∈ chronology c.story, x.2.isFailure = false := fun x hx =>
        hquiet x (Story.mem_chronology.1 hx)
      rw [hstory, htold, hgoes.story, ← Story.upToFailure_append hquiet',
        Story.chronology_append fun x hx y hy => Nat.le_trans (hlate x hx) (hgoes.early y hy)]
    · rcases List.mem_append.1 hx with hx | hx
      · exact h.early x hx
      · exact Nat.le_trans hrested.clock (hgoes.early x hx)

theorem Goes.mono (h : Goes s m₀ p m R c) {R' : α → Machine → γ → Prop} (hR : ∀ a m' d, R a m' d → R' a m' d) :
    Goes s m₀ p m R' c := by
  obtain ⟨r, m', hrun, hmatch, hothers⟩ := h.ends
  refine ⟨h.story, h.early, r, m', hrun, ?_, hothers⟩
  generalize c.value? = v at hmatch
  cases hmatch with
  | ok h => exact .ok (hR _ _ _ h)
  | error => exact .error

/-- One value after another. -/
theorem Goes.thenValue (h : Goes s m₀ p m R c) (hp : p.Calm) (hm : m.Resting) (f : α → β) (f' : γ → δ)
    (hR : ∀ a m' d, R a m' d → S (f a) m' (f' d)) :
    Goes s m₀ (ExceptT.run (ExceptT.mk p >>= fun a => ExceptT.mk (.done (.ok (f a))))) m S (c.map f') := by
  have hcourse : c.map f' = c.andThen fun d => .value (f' d) := by
    unfold Course.map Course.andThen Course.value
    cases c.value? <;> simp
  rw [hcourse]
  exact Goes.andThen (f := fun a => .done (.ok (f a))) h hp (fun _ => trivial) hm
    fun a m' d _ hR' => goes_done (hR a m' d hR')

theorem Goes.map (h : Goes s m₀ p m R c) (hp : p.Calm) (hm : m.Resting) (f : α → β) (f' : γ → δ)
    (hR : ∀ a m' d, R a m' d → S (f a) m' (f' d)) :
    Goes s m₀ (p.bind fun r => .done (r.map f)) m S (c.map f') := by
  rw [bind_map]
  exact h.thenValue hp hm f f' hR

/-! ## Operations -/

/-- An operation that adds to no log that is there. -/
theorem goes_act {op : Op γ} {next : γ → Prog (Except ExecutionError α)} {c : Course δ} {R : α → Machine → δ → Prop}
    (hm : m.Resting) (hlogs : ∀ a, (m.node? a).isSome = true → (m.perform [] op).2.logAt a = m.logAt a)
    (hgrows : m₀.Grows m) (hs : (m.node? s).isSome = true)
    (h : Goes s m₀ (next (m.perform [] op).1) (m.perform [] op).2 R c) : Goes s m₀ (.act op next) m R c := by
  have hclock := (hm.perform [] op).2
  obtain ⟨r, m', hrun, hmatch, hothers⟩ := h.ends
  refine ⟨?_, fun x hx => hclock ▸ h.early x hx, r, m', hrun, hmatch, fun a has ha => ?_⟩
  · have hstart : (Prog.act op next).start [] m = (next (m.perform [] op).1).start [] (m.perform [] op).2 := rfl
    have hnews (m' : Machine) : news s m m' = news s (m.perform [] op).2 m' := by
      unfold news
      rw [hlogs s hs]
    rw [← h.story]
    unfold Machine.story
    rw [hstart, hnews, hclock]
  · exact (hothers a has ha).trans (hlogs a (hgrows a ha))

theorem Stands.session_there (h : m.Stands s b g t) : (m.node? s).isSome = true :=
  isSome_node?_of_session? (h.route ▸ h.vacant.head b)

/-- What goes on on a fork of a branch. -/
theorem goes_fork (h : m.Stands s b g t) (hgrows : m₀.Grows m) (path : Path)
    {next : Nat → Prog (Except ExecutionError α)}
    (hnext : ∀ i m', m'.Stands s (b ++ [i]) g t → m₀.Grows m' → Goes s m₀ (next i) m' R c) :
    Goes s m₀ (.act (.fork b (.place path)) next) m R c := by
  obtain ⟨i, hperform, hstands⟩ := h.fork path
  obtain ⟨n, hn, -⟩ := h.node
  have hforked := keepsHeads_fork hn (.place path)
  refine goes_act h.vacant.rest (fun a _ => ?_) hgrows h.session_there ?_
  · rw [hperform]
    exact logAt_congr (session?_fork hn (.place path) a)
  · rw [hperform]
    exact hnext i _ hstands fun a ha => (hforked a (hgrows a ha)).1

/-- What goes on after a key has been set. -/
theorem goes_set (h : m.Stands s b g t) (hgrows : m₀.Grows m) (key : String) (v : Value)
    (hnext : ∀ m', m'.Stands s b (g.write key v) t → m₀.Grows m' → Goes s m₀ p m' R c) :
    Goes s m₀ (.act (.set b key v) fun _ => p) m R c := by
  have hsame := sameSessions_modifyStore m b fun s => s.write key (.ready v)
  exact goes_act h.vacant.rest (fun a _ => logAt_congr (hsame.session? a)) hgrows h.session_there
    (hnext _ (h.write key v) fun a ha => (hsame.keepsHeads a (hgrows a ha)).1)

theorem goes_setAll (h : m.Stands s b g t) (hgrows : m₀.Grows m) (values : List (String × Value))
    (hnext : ∀ m', m'.Stands s b (g.writeAll values) t → m₀.Grows m' → Goes s m₀ p m' R c) :
    Goes s m₀ (ExceptT.run (ExceptT.lift (Prog.setAll b values) >>= fun _ => ExceptT.mk p)) m R c := by
  induction values generalizing m g with
  | nil => exact hnext m h hgrows
  | cons e rest ih => exact goes_set h hgrows e.1 e.2 fun m' h' hgrows' => ih h' hgrows' hnext

/-! ## On a branch of another query -/

/-- A program that adds to another log than that of a query is not heard there. -/
theorem story_muted (hp : p.Calm) (hm : m.Resting) (hlog : (m.run p).2.logAt s = m.logAt s) (s' : Route) :
    story s p m = (story s' p m).muted := by
  obtain ⟨r, m', body, hrun, hstory, htold, -, -⟩ := story_eq s' hp hm
  have hmuted : Story.muted body = [] := List.filter_eq_nil_iff.2 fun x hx => by simp [htold.quiet x hx]
  rw [story_silent hp hm hrun (by rwa [hrun] at hlog), hstory, Story.muted_append, hmuted]
  cases r <;> rfl

theorem Goes.muted (h : Goes s' m' p m' R c) (hp : p.Calm) (hm : m'.Resting) (hgrows : m₀.Grows m')
    (hs : (m₀.node? s).isSome = true) (hnew : m₀.node? s' = none) : Goes s m₀ p m' R (c.heard false) := by
  obtain ⟨r, m'', hrun, hmatch, hothers⟩ := h.ends
  have hne {a : Route} (ha : (m₀.node? a).isSome = true) : a ≠ s' := by
    rintro rfl
    rw [hnew] at ha
    cases ha
  have hlog (a : Route) (ha : (m₀.node? a).isSome = true) : m''.logAt a = m'.logAt a :=
    hothers a (hne ha) (hgrows a ha)
  refine ⟨?_, fun x hx => h.early x (List.mem_of_mem_filter hx), r, m'', hrun, hmatch, fun a _ ha => hlog a ha⟩
  have hsame : (m'.run p).2.logAt s = m'.logAt s := by
    rw [hrun]
    exact hlog s hs
  rw [story_muted hp hm hsame s', h.story, ← Story.upToFailure_muted, ← Story.chronology_muted]
  rfl

/-- What is left to go on with: how things stand on a branch, which belongs to the same query or to a new one. -/
structure Leaves (s : Route) (m₀ : Machine) (b : Route) (m : Machine) (a : After γ) : Prop where
  grows : m₀.Grows m
  stands : ∃ s', m.Stands s' b a.setting a.instant ∧ (if a.loyal then s' = s else m₀.node? s' = none)

/-- **To go on with a branch that has been left.** -/
theorem Goes.goOn {c : Course (After γ)} (R : α → γ → Prop) (branch : α → Route)
    (h : Goes s m₀ p m (fun x m' a => R x a.value ∧ Leaves s m₀ (branch x) m' a) c) (hp : p.Calm)
    (hf : ∀ a, (f a).Calm) (hm : m.Resting) (hs : (m₀.node? s).isSome = true) {f' : γ → Setting → Nat → Course δ}
    (hnext : ∀ x d m' m₁ s' g t, R x d → m'.Stands s' (branch x) g t → m₁.Grows m' → (m₁.node? s').isSome = true →
      Goes s' m₁ (f x) m' S (f' d g t)) :
    Goes s m₀ (ExceptT.run (ExceptT.mk p >>= fun a => ExceptT.mk (f a))) m S (c.goOn f') := by
  refine h.andThen hp hf hm fun x m' a _ ⟨hR, hleaves⟩ => ?_
  obtain ⟨s', hstands, hroute⟩ := hleaves.stands
  cases hloyal : a.loyal with
  | true =>
    rw [hloyal, if_pos rfl] at hroute
    subst hroute
    exact hnext x a.value m' m₀ s' _ _ hR hstands hleaves.grows hs
  | false =>
    rw [hloyal, if_neg Bool.false_ne_true] at hroute
    exact (hnext x a.value m' m' s' _ _ hR hstands (fun _ ha => ha) hstands.session_there).muted (hf x)
      hstands.vacant.rest hleaves.grows hs hroute

/-! ## Side by side -/

/-- A tenant goes as told on any machine made of a branch that offers the given. -/
structure Tenant.Goes (g : Setting) (t : Nat) (tenant : Tenant β) (c : Course β) : Prop where
  story : ∀ n : Node, n.store = g.store → tenant.story g.inputs n t = upToFailure (chronology c.story)
  early : ∀ x ∈ c.story, t ≤ x.1
  answer : ∀ n : Node, n.store = g.store → ∃ r, tenant.answer? g.inputs n t = some r ∧ r.toOption = c.value?

/-- What programs side by side come to. -/
theorem matches_of_comes {k : Nat} {answers : List (Option (Except ExecutionError β))} {courses : List (Course β)}
    {r : Except ExecutionError (List β)} (h : Comes b s m k answers r m')
    (hanswers : List.Forall₂ (fun answer c => ∃ r, answer = some r ∧ r.toOption = c.value?) answers courses) :
    Matches (fun values _ values' => values = values') m' r (Course.all courses).value? := by
  cases h with
  | @succeeded values _ hsame _ =>
    have hvalues : (Course.all courses).value? = some values := by
      refine Course.mapM_value?_eq_some.2 ?_
      rw [hsame, List.forall₂_map_left_iff] at hanswers
      refine (map_eq_of_forall₂ hanswers fun v c ⟨r, hr, hc⟩ => ?_).symm
      cases hr
      exact hc
    rw [hvalues]
    exact .ok rfl
  | @failed e e' _ _ hmem _ _ =>
    have hnone : (Course.all courses).value? = none := by
      refine Option.eq_none_iff_forall_ne_some.2 fun values hvalues => ?_
      have hall := Course.mapM_value?_eq_some.1 hvalues
      obtain ⟨c, hc, r, hr, hnone⟩ := exists_of_mem_right hanswers.flip hmem
      cases hr
      have hsome : c.value? ∈ courses.map Course.value? := List.mem_map_of_mem hc
      rw [hall] at hsome
      obtain ⟨v, -, hv⟩ := List.mem_map.1 hsome
      cases hnone.trans hv.symm
    rw [hnone]
    exact .error

/-- **Programs side by side go as their courses do.** -/
theorem goes_parallel (h : m.Stands s b g t) (hgrows : m₀.Grows m) {tenants : List (Tenant β)}
    {parts : List (Prog (Except ExecutionError β))} {courses : List (Course β)}
    (hlodged : List.Forall₂ (Lodged b) tenants parts) (hparts : ∀ p ∈ parts, p.Calm)
    (hhomes : ∀ tenant ∈ tenants, tenant.program.Calm) (hcourses : List.Forall₂ (Tenant.Goes g t) tenants courses) :
    Goes s m₀ (Prog.parallel parts) m (fun values _ values' => values = values') (.all courses) := by
  obtain ⟨n, hn, hstore, hinputs⟩ := h.node
  obtain ⟨r, m', hrun, hstory, hcomes⟩ :=
    run_parallel h.vacant hn (hstore ▸ h.pending) hlodged hparts hhomes
  have htold : tenants.flatMap (Tenant.story (m.inputsAt b) n m.clock) =
      courses.flatMap fun c => upToFailure (chronology c.story) := by
    rw [List.flatMap_def, List.flatMap_def]
    refine congrArg List.flatten (map_eq_of_forall₂ hcourses fun tenant c hc => ?_)
    rw [hinputs, h.clock]
    exact hc.story n hstore
  rw [h.route] at hstory hcomes
  refine ⟨?_, fun x hx => ?_, r, m', hrun, ?_, fun a has ha => ?_⟩
  · rw [hstory, htold, Story.upToFailure_flatMap]
    rfl
  · obtain ⟨c, hc, hx⟩ := List.mem_flatMap.1 hx
    obtain ⟨tenant, -, hgoes⟩ := exists_of_mem_right hcourses hc
    exact h.clock ▸ hgoes.early x hx
  · refine matches_of_comes hcomes (List.forall₂_map_left_iff.2 (hcourses.imp fun tenant c hc => ?_))
    rw [hinputs, h.clock]
    exact hc.answer n hstore
  · obtain ⟨k, hspared⟩ := hcomes.spared
    exact hspared.logs a has (hgrows a ha)

theorem upToFailure_entries (paths : List Path) {story : Story} (h : ∀ x ∈ story, t ≤ x.1) :
    upToFailure (chronology (entries t paths ++ story)) = entries t paths ++ upToFailure (chronology story) := by
  have hsorted : Story.Sorted (entries t paths) :=
    List.pairwise_of_forall_mem_list fun x hx y hy => by rw [(of_mem_entries hx).1, (of_mem_entries hy).1]
  rw [Story.chronology_append fun x hx y hy => by rw [(of_mem_entries hx).1]; exact h y hy,
    Story.chronology_eq_self hsorted, Story.upToFailure_append fun x hx => (of_mem_entries hx).2]

/-- A tenant whose program does something more with its value. -/
theorem Tenant.Goes.map {tenant : Tenant α} {c : Course α} (h : Tenant.Goes g t tenant c) (hcalm : tenant.program.Calm)
    (f : α → β) : Tenant.Goes g t (tenant.map f) (c.map f) := by
  have hrest (n : Node) : (tenant.home g.inputs n t).Resting := (vacant_lone _ _ _).rest
  refine ⟨fun n hn => ?_, h.early, fun n hn => ?_⟩
  · have hstory : Machine.story [] (tenant.map f).program (tenant.home g.inputs n t) =
        Machine.story [] tenant.program (tenant.home g.inputs n t) := story_map [] hcalm (hrest n) f
    exact (congrArg (entries t tenant.paths ++ ·) hstory).trans (h.story n hn)
  · obtain ⟨r, hr, hc⟩ := h.answer n hn
    refine ⟨r.map f, ?_, ?_⟩
    · have hrun : (tenant.home g.inputs n t).run tenant.program = (some r, _) := Prod.ext hr rfl
      have hmap := run_bind tenant.program (fun r => .done (r.map f)) (tenant.home g.inputs n t)
      rw [hrun] at hmap
      exact (congrArg Prod.fst hmap).trans (congrArg Prod.fst (run_done _ _))
    · unfold Course.map
      rw [← hc]
      cases r <;> rfl

/-- What goes on its own branch as told goes so as a tenant. -/
theorem tenant_goes {path : Path} {p : Prog (Except ExecutionError β)} {c : Course β}
    (h : Goes [] (g.alone path t) p (g.alone path t) (fun v _ v' => v = v') c) (paths : List Path) :
    Tenant.Goes g t ⟨some (.place path), paths, p⟩ (c.entering t paths) := by
  have hhome (n : Node) (hn : n.store = g.store) :
      Tenant.home g.inputs n t ⟨some (.place path), paths, p⟩ = g.alone path t := Setting.lone_forkNode hn path t
  refine ⟨fun n hn => ?_, fun x hx => ?_, fun n hn => ?_⟩
  · unfold Tenant.story
    rw [hhome n hn]
    exact (congrArg (entries t paths ++ ·) h.story).trans (upToFailure_entries (t := t) paths h.early).symm
  · rcases List.mem_append.1 hx with hx | hx
    · exact Nat.le_of_eq (of_mem_entries hx).1.symm
    · exact h.early x hx
  · obtain ⟨r, m', hrun, hmatch, -⟩ := h.ends
    refine ⟨r, ?_, ?_⟩
    · unfold Tenant.answer?
      rw [hhome n hn, hrun]
    · unfold Course.entering
      generalize c.value? = v at hmatch
      cases hmatch with
      | ok h => exact congrArg some h
      | error => rfl

end Machine

end MediaQuery
