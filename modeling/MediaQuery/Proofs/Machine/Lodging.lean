import MediaQuery.Proofs.Machine.Chronicle
import MediaQuery.Proofs.Machine.Siblings
import MediaQuery.Proofs.Machine.Vacant

/-!
# Calm programs on forks

A program that forks a branch and goes on there (`Lodges`) does on a vacant machine what another program does on a
machine of its own, the fork being that machine (`Housed`). It takes the same turns, enters the same in the log, and
spares all else, and so both have the same story and come to the same result (`run_of_lodges`).
-/

namespace MediaQuery

variable {β : Type} {R : Route → β → β → Prop} {b place s : Route} {options : ForkOptions} {paths : List Path}
  {p q : Prog (Except ExecutionError β)}

/-- A program enters some paths in the log, forks a branch, and does on the fork what another program does on its own
branch. How results are related may depend on where the fork is. -/
inductive Lodges (R : Route → β → β → Prop) (b : Route) (options : ForkOptions) (q : Prog (Except ExecutionError β)) :
    List Path → Prog (Except ExecutionError β) → Prop
  | fork {k : Nat → Prog (Except ExecutionError β)} (h : ∀ i,
      Prog.Alike (b ++ [i]) (SameResult ExecutionError.SameBare (R (b ++ [i]))) (k i) q) :
      Lodges R b options q [] (.act (.fork b options) k)
  | enter (path : Path) {paths : List Path} {p : Prog (Except ExecutionError β)} (h : Lodges R b options q paths p) :
      Lodges R b options q (path :: paths) (.act (.enter b path) fun _ => p)

/-- Such a program does not use the forks that are there. -/
theorem Lodges.uses (h : Lodges R b options q paths p) (j : Nat) : p.Uses (Away (b ++ [j])) [] fun _ => True := by
  induction h with
  | fork hk =>
    refine .act (away_self b j) fun i hi => (hk i).keeps_away fun heq => ?_
    rw [heq] at hi
    exact hi List.prefix_rfl
  | enter path _ ih => exact .act (away_self b j) fun _ _ => ih

namespace Machine

variable {m m' m₀ l : Machine} {n : Node} {S : β → β → Prop} {part run : Run (Except ExecutionError β)} {k : Nat}
  {t t' : Nat}

theorem Confined.mono {T T' : Route → Prop} (h : Confined T m m') (hT : ∀ x, T x → T' x)
    (hclosed : ∀ x i, T x → T (x ++ [i])) : Confined T' m m' := by
  refine ⟨h.grows, fun a ha => h.node a (mt (hT a) ha), h.inputs, fun p hp => h.futures p fun x hx => hp x (hT x hx),
    fun p hp => h.ready p fun x hx => hp x (hT x hx), h.clock, fun f hf run hs => ?_⟩
  exact (h.guests f hf run hs).imp_right fun ⟨hhome, huses⟩ =>
    ⟨hT _ hhome, huses.mono hT hclosed fun _ _ => trivial⟩

/-! ## Housing -/

/-- A run does below a place what another run does on the machine that is found there, which has nothing else to do.
What it enters in its log goes to the log of the given branch. -/
structure Housed (place s : Route) (S : β → β → Prop) (m : Machine) (part : Run (Except ExecutionError β))
    (l : Machine) (run : Run (Except ExecutionError β)) : Prop where
  hosts : Hosts place m l
  linked : Linked place s m l
  alike : part.Alike place place (SameResult ExecutionError.SameBare S) run
  rest : l.Resting

/-- What happens elsewhere leaves links as they are. -/
theorem Linked.elsewhere (h : Linked place s m l) (hp : (m.node? place).isSome = true)
    (hc : Confined (Away place) m m') (hk : KeepsHeads m m') : Linked place s m' l := by
  refine h.congr hp hk (.refl l) fun r hr => ?_
  rw [← h.below r hr]
  cases hm : m.node? (place ++ r) with
  | some n => exact (hk _ (hm ▸ rfl)).2
  | none =>
    have hnode := hc.node (place ++ r) fun haway => haway (List.prefix_append _ _)
    rw [hm, Option.map_none, Option.map_eq_none_iff] at hnode
    unfold session?
    rw [hm, hnode]

theorem Housed.elsewhere (h : Housed place s S m part l run) (hc : Confined (Away place) m m')
    (hk : KeepsHeads m m') : Housed place s S m' part l run :=
  ⟨h.hosts.elsewhere hc, h.linked.elsewhere h.hosts.there hc hk, h.alike, h.rest⟩

theorem Housed.tick (h : Housed place s S m part l run) (t : Nat) :
    Housed place s S { m with clock := t } part { l with clock := t } run :=
  ⟨⟨⟨h.hosts.mirrors.node, h.hosts.mirrors.inputs, h.hosts.mirrors.futures, h.hosts.mirrors.ready, rfl⟩,
    h.hosts.there, h.hosts.guests⟩, ⟨h.linked.route, h.linked.head, h.linked.own, h.linked.below⟩, h.alike,
    ⟨h.rest.ended, h.rest.idle⟩⟩

theorem Housed.clock_eq (h : Housed place s S m part l run) : m.clock = l.clock := h.hosts.mirrors.clock

/-- New entries of a log, where the same is new in another one. -/
theorem news_of_echoes {l' : Machine} (h : Echoes place s m l m' l') : news s m m' = news [] l l' := by
  obtain ⟨paths, hm, hl⟩ := h.news
  rw [news_eq hm, news_eq hl]

/-- **A run that is taken on does below its place what the other does on its own machine.** -/
theorem Housed.resume (h : Housed place s S m part l run) (hq : run.Calm t) :
    Housed place s S (part.resume [] m).2 (part.resume [] m).1 (run.resume [] l).2 (run.resume [] l).1 ∧
      Confined (place <+: ·) m (part.resume [] m).2 ∧
      (∀ a, a ≠ s → Away place a → (part.resume [] m).2.logAt a = m.logAt a) ∧
      news s m (part.resume [] m).2 = news [] l (run.resume [] l).2 := by
  have hbase : [] ++ place = place ++ [] := (List.append_nil place).symm
  have halike := (mirrors_resume h.alike h.hosts.mirrors hbase).1
  have hechoes := echoes_resume h.alike h.hosts.mirrors h.linked hbase
  have huses : part.Uses (place <+: ·) [] _ := h.alike.uses List.prefix_rfl
  have hconfined := (confined_resume huses (settled_below place m)).1
  have hcalm : CalmRun l (run.resume [] l) := calm_resume hq h.rest
  exact ⟨⟨h.hosts.inside hechoes.mirrors hconfined, hechoes.linked, halike, hcalm.rested.rest⟩, hconfined,
    hechoes.others, news_of_echoes hechoes⟩

/-! ## Moving in -/

theorem node?_enter_bare (hn : m.node? b = some n) (path : Path) :
    ∃ n', (m.enter b path).node? b = some n' ∧ n'.store = n.store ∧ n'.path = n.path ∧ n'.degree = n.degree := by
  obtain ⟨n', hn', hstore, hpath, -, hdegree⟩ := (spared_enter m b path).trunk_eq hn
  exact ⟨n', hn', hstore, hpath, hdegree⟩

/-- **A program that starts on a fork does there what the other does on a machine of its own**, and spares all else. -/
theorem housed_of_lodges (hp : Lodges R b options q paths p) (hv : m.Vacant) (hn : m.node? b = some n)
    (hpending : n.store.pending = []) (hcalm : p.Calm) (hq : q.Calm) :
    Housed (b ++ [n.degree]) (m.tree.sessionRoute b) (R (b ++ [n.degree])) (p.start [] m).2 (p.start [] m).1
        (q.start [] (lone (m.inputsAt b) (forkNode n options) m.clock)).2
        (q.start [] (lone (m.inputsAt b) (forkNode n options) m.clock)).1 ∧
      Spared b (m.tree.sessionRoute b) 1 m (p.start [] m).2 ∧
      news (m.tree.sessionRoute b) m (p.start [] m).2 =
        paths ++ news [] (lone (m.inputsAt b) (forkNode n options) m.clock)
          (q.start [] (lone (m.inputsAt b) (forkNode n options) m.clock)).2 := by
  have hthere : (m.node? b).isSome = true := hn ▸ rfl
  induction hp generalizing m n with
  | @fork k hk =>
    have hposition : (m.addChild b fun c => c.forkOf options).1 = n.degree := addChild_position hn
    have hstart : (Prog.act (.fork b options) k).start [] m =
        (k n.degree).start [] (m.addChild b fun c => c.forkOf options).2 := hposition ▸ rfl
    have hhosts := hv.hosts_fork hn hpending options
    have hlinked : Linked _ _ _ (lone (m.inputsAt b) (forkNode n options) m.clock) :=
      hv.linked_fork hn options m.clock
    have hbase : [] ++ (b ++ [n.degree]) = b ++ [n.degree] ++ [] := (List.append_nil _).symm
    have halike := (mirrors_start (hk n.degree) hhosts.mirrors hbase).1
    have hechoes := echoes_start (hk n.degree) hhosts.mirrors hlinked hbase
    have huses : (k n.degree).Uses (b ++ [n.degree] <+: ·) [] _ := (hk _).uses List.prefix_rfl
    have hconfined := (confined_start huses (settled_below _ (m.addChild b fun c => c.forkOf options).2)).1
    have hforked := spared_fork hn options (m.tree.sessionRoute b)
    have hrested : Rested m (m.addChild b fun c => c.forkOf options).2 := (hv.rest.perform [] (.fork b options)).1
    have hstarted : CalmRun _ ((k n.degree).start [] (m.addChild b fun c => c.forkOf options).2) :=
      calm_start (hcalm _) hrested.rest
    have hlone : CalmRun _ (q.start [] (lone (m.inputsAt b) (forkNode n options) m.clock)) :=
      calm_start hq (vacant_lone _ _ _).rest
    have hsame : (m.addChild b fun c => c.forkOf options).2.logAt (m.tree.sessionRoute b) =
        m.logAt (m.tree.sessionRoute b) := logAt_congr (session?_fork hn options _)
    rw [hstart]
    refine ⟨⟨hhosts.inside hechoes.mirrors hconfined, hechoes.linked, halike, hlone.rested.rest⟩, ?_, ?_⟩
    · exact hforked.below hv (node?_next hn) hthere hconfined hstarted.rested hechoes.others
    · rw [List.nil_append, ← news_of_echoes hechoes]
      unfold news
      rw [hsame]
  | @enter path paths p hp ih =>
    have hentered := spared_enter m b path
    have hrested : Rested m (m.enter b path) := (hv.rest.perform [] (.enter b path)).1
    obtain ⟨n', hn', hstore, hpath, hdegree⟩ := node?_enter_bare hn path
    have hroute : (m.enter b path).tree.sessionRoute b = m.tree.sessionRoute b := hentered.sessionRoute hthere
    have hinputs : (m.enter b path).inputsAt b = m.inputsAt b := inputsAt_enter m b b path
    have hfork : forkNode n' options = forkNode n options := by
      unfold forkNode
      rw [hstore, hpath]
    obtain ⟨hhoused, hspared, hnews⟩ := ih (hv.rested hrested) hn' (hstore ▸ hpending) (hcalm ()) (hn' ▸ rfl)
    have hclock : (m.enter b path).clock = m.clock := rfl
    rw [hroute, hinputs, hfork, hdegree, hclock] at hhoused
    rw [hroute] at hspared
    rw [hroute, hinputs, hfork, hclock] at hnews
    have hstart : (Prog.act (.enter b path) fun _ => p).start [] m = p.start [] (m.enter b path) := rfl
    have hstarted : CalmRun (m.enter b path) (p.start [] (m.enter b path)) := calm_start (hcalm ()) hrested.rest
    have hlog := logAt_enter_self (hv.head b) rfl path
    rw [hstart]
    refine ⟨hhoused, hentered.trans hspared, ?_⟩
    rw [news_trans (hrested.logs _) (hstarted.rested.logs _), hnews, news_eq hlog]
    rfl

/-! ## Going on -/

variable {main : Run (Except ExecutionError β)}

/-- What a main program and the run on the machine below its place come to. -/
structure SameCourse (place s b : Route) (S : β → β → Prop) (k : Nat) (m₀ : Machine)
    (main : Run (Except ExecutionError β)) (m : Machine) (run : Run (Except ExecutionError β)) (l : Machine)
    (r : Except ExecutionError β) (m' : Machine) (r' : Except ExecutionError β) (l' : Machine) : Prop where
  host : drive main m = (some r, m')
  lone : drive run l = (some r', l')
  result : SameResult ExecutionError.SameBare S r r'
  housed : Housed place s S m' (.done r) l' (.done r')
  spared : Spared b s k m₀ m'
  story : chronicle s main m = chronicle [] run l

/-- Failures that are alike end a story alike. -/
theorem closing_of_sameResult {r r' : Except ExecutionError β} (h : SameResult ExecutionError.SameBare S r r')
    (t : Nat) : closing t r = closing t r' := by
  cases h with
  | ok _ => rfl
  | error he => exact congrArg (fun e => [(t, Incident.failed e)]) he

/-- **Turn by turn both do the same.** -/
theorem Housed.drive (hv : m₀.Vacant) (hplace : m₀.node? place = none) (hb : (m₀.node? b).isSome = true)
    (hm : m.Resting) (hmain : main.Calm m.clock) (h : Housed place s S m main l run) (hrun : run.Calm l.clock)
    (hspared : Spared b s k m₀ m) : ∃ r m' r' l', SameCourse place s b S k m₀ main m run l r m' r' l' := by
  refine calm_induction (motive := fun main m => ∀ l run, Housed place s S m main l run → run.Calm l.clock →
    Spared b s k m₀ m → ∃ r m' r' l', SameCourse place s b S k m₀ main m run l r m' r' l')
    (fun r m hm l run h _ hspared => ?_)
    (fun main m w hm hmain hres hw hlt hturn hcalm ih l run h hrun hspared => ?_) main m hm hmain l run h hrun hspared
  · obtain ⟨r', rfl, hr⟩ : ∃ r', run = .done r' ∧ SameResult ExecutionError.SameBare S r r' := by
      cases h.alike with
      | done hr => exact ⟨_, rfl, hr⟩
    refine ⟨r, m, r', l, drive_of_result rfl m, drive_of_result rfl l, hr, h, hspared, ?_⟩
    rw [chronicle_done, chronicle_done, h.clock_eq]
    exact closing_of_sameResult hr _
  · have hres' : run.result? = none := by
      have hsame := h.alike.isSome_result?
      rw [hres] at hsame
      exact Option.not_isSome_iff_eq_none.1 (by simp [← hsame])
    obtain ⟨w', hw', -, hturn'⟩ := turn_of_calm h.rest hrun hres'
    cases hw.symm.trans ((wake?_alike h.alike).trans hw')
    obtain ⟨hhoused, hconfined, hlogs, hnews⟩ := (h.tick w).resume hrun
    have hticked : Spared b s k m₀ { m with clock := w } :=
      ⟨hspared.node, hspared.trunk, hspared.inputs, hspared.futures, hspared.heads, hspared.logs⟩
    have hnext := hticked.below hv hplace hb hconfined hcalm.rested hlogs
    have hlone : CalmRun { l with clock := w } (run.resume [] { l with clock := w }) :=
      calm_resume hrun ⟨h.rest.ended, h.rest.idle⟩
    obtain ⟨r, m', r', l', hcourse⟩ := ih _ _ hhoused (hlone.clock ▸ hlone.calm) hnext
    refine ⟨r, m', r', l', (drive_of_turn hres hturn).trans hcourse.host,
      (drive_of_turn hres' hturn').trans hcourse.lone, hcourse.result, hcourse.housed, hcourse.spared, ?_⟩
    have hsame : news s m (main.resume [] { m with clock := w }).2 =
        news [] l (run.resume [] { l with clock := w }).2 := hnews
    rw [chronicle_of_turn hres hturn, chronicle_of_turn hres' hturn', hcourse.story, hcalm.clock, hlone.clock, hsame]

/-- **A program that runs on a fork does there what the other does on a machine of its own.** Both come to the same
result, and have the same story, but for what the first has entered before. -/
theorem run_of_lodges (hp : Lodges R b options q paths p) (hv : m.Vacant) (hn : m.node? b = some n)
    (hpending : n.store.pending = []) (hcalm : p.Calm) (hq : q.Calm) :
    ∃ r m' r' l', m.run p = (some r, m') ∧
      (lone (m.inputsAt b) (forkNode n options) m.clock).run q = (some r', l') ∧
      SameResult ExecutionError.SameBare (R (b ++ [n.degree])) r r' ∧
      Housed (b ++ [n.degree]) (m.tree.sessionRoute b) (R (b ++ [n.degree])) m' (.done r) l' (.done r') ∧
      Spared b (m.tree.sessionRoute b) 1 m m' ∧
      story (m.tree.sessionRoute b) p m =
        entries m.clock paths ++ story [] q (lone (m.inputsAt b) (forkNode n options) m.clock) := by
  obtain ⟨hhoused, hspared, hnews⟩ := housed_of_lodges hp hv hn hpending hcalm hq
  have hstarted : CalmRun m (p.start [] m) := calm_start hcalm hv.rest
  have hlone : CalmRun _ (q.start [] (lone (m.inputsAt b) (forkNode n options) m.clock)) :=
    calm_start hq (vacant_lone _ _ _).rest
  obtain ⟨r, m', r', l', hcourse⟩ := hhoused.drive hv (node?_next hn) (hn ▸ rfl) hstarted.rested.rest
    (hstarted.clock ▸ hstarted.calm) (by rw [hlone.clock]; exact hlone.calm) hspared
  refine ⟨r, m', r', l', hcourse.host, hcourse.lone, hcourse.result, hcourse.housed, hcourse.spared, ?_⟩
  unfold story
  rw [hnews, hcourse.story, entries_append, List.append_assoc]
  rfl

end Machine

end MediaQuery
