import MediaQuery.Proofs.Machine.Lodging

/-!
# Guests on forks of one branch

Parts that run side by side are guests of one branch (`Guest`, `Kept`): each is a value, or is yet to make a fork of the
branch, or goes on at a fork of its own as on a machine of its own. A part that is taken on leaves the others as they
are (`Kept.resume`). So a sweep takes all of them on, up to the first failure, and what it enters in the log is what
they enter on their own, one after another (`sweep_passed`, `sweep_failed`).
-/

namespace MediaQuery

/-- The fork that a part runs on. -/
inductive Seat where
  /-- A value needs none. -/
  | none
  /-- It is yet to be made. -/
  | waiting
  /-- It has the given position. -/
  | taken (i : Nat)
  deriving DecidableEq

/-- One of several parts, as a run on a machine of its own, and the paths that it enters before it starts there. -/
structure Guest (β : Type) : Type 1 where
  seat : Seat
  paths : List Path
  run : Run (Except ExecutionError β)
  machine : Machine

namespace Guest

open Machine

variable {β : Type}

/-- What taking the guest on leaves. -/
abbrev after (g : Guest β) : Run (Except ExecutionError β) × Machine := g.run.resume [] g.machine

/-- The guest after it has been taken on. -/
abbrev next (g : Guest β) (seat : Seat) : Guest β := ⟨seat, [], g.after.1, g.after.2⟩

/-- The failure that a run has ended with. -/
def ending (t : Nat) (run : Run (Except ExecutionError β)) : Story :=
  match run.result? with
  | some r => closing t r
  | none => []

/-- What the guest does when it is taken on. -/
def moment (g : Guest β) : Story :=
  entries g.machine.clock (g.paths ++ news [] g.machine g.after.2) ++ ending g.machine.clock g.after.1

/-- What it does after that. -/
def later (g : Guest β) : Story := if g.after.1.result?.isSome then [] else chronicle [] g.after.1 g.after.2

/-- What it comes to. -/
def answer? (g : Guest β) : Option (Except ExecutionError β) := (drive g.run g.machine).1

/-- Two guests that do not share a fork. -/
def Apart (g g' : Guest β) : Prop := ∀ i, g.seat = .taken i → g'.seat ≠ .taken i

theorem Apart.symm {g g' : Guest β} (h : g.Apart g') : g'.Apart g := fun i hi hi' => h i hi' hi

/-- How many forks are yet to be made. -/
def newcomers (guests : List (Guest β)) : Nat := guests.countP fun g => g.seat = .waiting

end Guest

namespace Machine

open Guest

variable {β : Type} {b s : Route} {n : Node} {m₀ m : Machine} {t k : Nat} {part : Run (Except ExecutionError β)}
  {g : Guest β}

/-- The branch that guests come to: it holds no reference to a future, on a vacant machine. -/
structure Grounds (b s : Route) (n : Node) (m₀ : Machine) : Prop where
  vacant : m₀.Vacant
  node : m₀.node? b = some n
  pending : n.store.pending = []
  route : m₀.tree.sessionRoute b = s

/-- A part of several, and its guest. Their sleeps end after the given time. -/
inductive Kept (b s : Route) (n : Node) (m₀ : Machine) (t : Nat) (m : Machine) :
    Run (Except ExecutionError β) → Guest β → Prop
  | value (v : β) {l : Machine} (hl : l.Resting) (hclock : l.clock = m.clock) :
      Kept b s n m₀ t m (.done (.ok v)) ⟨.none, [], .done (.ok v), l⟩
  | waiting {options : ForkOptions} {paths : List Path} {p q : Prog (Except ExecutionError β)}
      (hp : Lodges (fun _ => Eq) b options q paths p) (hcalm : p.Calm) (hq : q.Calm) :
      Kept b s n m₀ t m (.asleep 0 p)
        ⟨.waiting, paths, .asleep 0 q, lone (m₀.inputsAt b) (forkNode n options) m.clock⟩
  | housed {i : Nat} {part run : Run (Except ExecutionError β)} {l : Machine}
      (h : Housed (b ++ [i]) s Eq m part l run) (hnew : m₀.node? (b ++ [i]) = none) (hpart : part.Calm t)
      (hrun : run.Calm t) : Kept b s n m₀ t m part ⟨.taken i, [], run, l⟩

theorem Kept.clock_eq (h : Kept b s n m₀ t m part g) : g.machine.clock = m.clock := by
  cases h with
  | value v hl hclock => exact hclock
  | waiting hp hcalm hq => rfl
  | housed h hnew hpart hrun => exact h.clock_eq.symm

theorem Kept.rest (h : Kept b s n m₀ t m part g) : g.machine.Resting := by
  cases h with
  | value v hl hclock => exact hl
  | waiting hp hcalm hq => exact (vacant_lone _ _ _).rest
  | housed h hnew hpart hrun => exact h.rest

/-- What taking a part on leaves, for its guest and for the others. -/
structure Advanced (b s : Route) (n : Node) (m₀ : Machine) (k : Nat) (m : Machine)
    (part : Run (Except ExecutionError β)) (g : Guest β) (seat : Seat) : Prop where
  kept : Kept b s n m₀ m.clock (part.resume [] m).2 (part.resume [] m).1 (g.next seat)
  calm : CalmRun m (part.resume [] m)
  spared : Spared b s (k + newcomers [g]) m₀ (part.resume [] m).2
  news : news s m (part.resume [] m).2 = g.paths ++ Machine.news [] g.machine g.after.2
  seated : seat ≠ .waiting
  clock : g.machine.clock = m.clock
  others : ∀ (t' : Nat) part' (g' : Guest β), Kept b s n m₀ t' m part' g' → g.Apart g' →
    Kept b s n m₀ t' (part.resume [] m).2 part' g' ∧ (g.next seat).Apart g'

/-- Guests that have a fork of their own do not mind what happens elsewhere. -/
theorem Kept.elsewhere {m' : Machine} (h : Kept b s n m₀ t m part g) (hclock : m'.clock = m.clock)
    (hc : ∀ i, g.seat = .taken i → Confined (Away (b ++ [i])) m m') (hk : KeepsHeads m m') :
    Kept b s n m₀ t m' part g := by
  cases h with
  | value v hl hsame => exact .value v hl (hsame.trans hclock.symm)
  | waiting hp hcalm hq => exact hclock ▸ .waiting hp hcalm hq
  | housed h hnew hpart hrun => exact .housed (h.elsewhere (hc _ rfl) hk) hnew hpart hrun

/-- The forks that guests have are there. -/
theorem Kept.there (h : Kept b s n m₀ t m part g) {i : Nat} (hi : g.seat = .taken i) :
    (m.node? (b ++ [i])).isSome = true := by
  cases h with
  | value v hl hclock => cases hi
  | waiting hp hcalm hq => cases hi
  | housed h hnew hpart hrun =>
    cases hi
    exact h.hosts.there

/-- A part that is a value stays as it is. -/
theorem advanced_value {v : β} {l : Machine} (hm : m.Vacant) (hs : Spared b s k m₀ m) (hl : l.Resting)
    (hclock : l.clock = m.clock) :
    Advanced b s n m₀ k m (.done (.ok v)) ⟨.none, [], .done (.ok v), l⟩ .none := by
  refine ⟨.value v hl hclock, ⟨hm.rest.rested, rfl, trivial⟩, hs, ?_, nofun, hclock, fun t' part' g' h' _ => ⟨h', nofun⟩⟩
  have hidle : (Run.done (Except.ok v : Except ExecutionError β)).resume [] m = (.done (.ok v), m) := rfl
  rw [hidle, news_self]
  exact (news_self _ _).symm

/-- A part that is yet to make its fork makes it after all others. -/
theorem advanced_waiting {options : ForkOptions} {paths : List Path} {p q : Prog (Except ExecutionError β)}
    (hg : Grounds b s n m₀) (hm : m.Vacant) (hs : Spared b s k m₀ m) (hp : Lodges (fun _ => Eq) b options q paths p)
    (hcalm : p.Calm) (hq : q.Calm) : ∃ seat, Advanced b s n m₀ k m (.asleep 0 p)
      ⟨.waiting, paths, .asleep 0 q, lone (m₀.inputsAt b) (forkNode n options) m.clock⟩ seat := by
  obtain ⟨n', hn', hstore, hpath, -, hdegree⟩ := hs.trunk_eq hg.node
  have hthere : (m₀.node? b).isSome = true := hg.node ▸ rfl
  have hroute : m.tree.sessionRoute b = s := (hs.sessionRoute hthere).trans hg.route
  have hinputs : m.inputsAt b = m₀.inputsAt b := hs.inputs b hthere
  have hfork : forkNode n' options = forkNode n options := by
    unfold forkNode
    rw [hstore, hpath]
  obtain ⟨hhoused, hspared, hnews⟩ := housed_of_lodges hp hm hn' (hstore ▸ hg.pending) hcalm hq
  rw [hroute, hinputs, hfork] at hhoused
  rw [hroute] at hspared
  rw [hroute, hinputs, hfork] at hnews
  have hresume : (Run.asleep 0 p).resume [] m = p.start [] m := if_pos (Nat.zero_le _)
  have hresume' : (Run.asleep 0 q).resume [] (lone (m₀.inputsAt b) (forkNode n options) m.clock) =
      q.start [] (lone (m₀.inputsAt b) (forkNode n options) m.clock) := if_pos (Nat.zero_le _)
  have hstarted : CalmRun m (p.start [] m) := calm_start hcalm hm.rest
  have hlone : CalmRun _ (q.start [] (lone (m₀.inputsAt b) (forkNode n options) m.clock)) :=
    calm_start hq (vacant_lone _ _ _).rest
  -- the fork is new to the branch, and so to all guests that have one
  have hnone := node?_next hn'
  have hnew : m₀.node? (b ++ [n'.degree]) = none := by
    rw [← Option.not_isSome_iff_eq_none]
    intro hold
    have hstill := (hs.heads _ hold).1
    rw [hnone] at hstill
    cases hstill
  refine ⟨.taken n'.degree, ?_, ?_, ?_, ?_, nofun, rfl, fun t' part' g' h' _ => ?_⟩
  · dsimp only [Guest.next, Guest.after]
    rw [hresume, hresume']
    exact .housed hhoused hnew hstarted.calm hlone.calm
  · rw [hresume]
    exact hstarted
  · rw [hresume]
    exact hs.trans hspared
  · dsimp only [Guest.after]
    rw [hresume, hresume']
    exact hnews
  · have hfresh (i : Nat) (hi : g'.seat = .taken i) : i ≠ n'.degree := by
      rintro rfl
      have hold := h'.there hi
      rw [hnone] at hold
      cases hold
    rw [hresume]
    refine ⟨h'.elsewhere hstarted.clock (fun i hi => ?_) hstarted.rested.heads, fun i hi hi' => ?_⟩
    · exact (confined_start (hp.uses i) (settled_away (h'.there hi))).1
    · cases hi
      exact hfresh _ hi' rfl

/-- A part that has a fork goes on there, away from the forks of the others. -/
theorem advanced_housed {i : Nat} {run : Run (Except ExecutionError β)} {l : Machine} (hg : Grounds b s n m₀)
    (hm : m.Vacant) (hs : Spared b s k m₀ m) (h : Housed (b ++ [i]) s Eq m part l run)
    (hnew : m₀.node? (b ++ [i]) = none) (hpart : part.Calm t) (hrun : run.Calm t) :
    Advanced b s n m₀ k m part ⟨.taken i, [], run, l⟩ (.taken i) := by
  obtain ⟨hhoused, hconfined, hlogs, hnews⟩ := h.resume hrun
  have hresumed : CalmRun m (part.resume [] m) := calm_resume hpart hm.rest
  have hlone : CalmRun l (run.resume [] l) := calm_resume hrun h.rest
  refine ⟨.housed hhoused hnew hresumed.calm (h.clock_eq ▸ hlone.calm), hresumed, ?_, hnews, nofun,
    h.clock_eq.symm, fun t' part' g' h' hapart =>
      ⟨h'.elsewhere hresumed.clock (fun j hj => ?_) hresumed.rested.heads, hapart⟩⟩
  · exact hs.below hg.vacant hnew (hg.node ▸ rfl) hconfined hresumed.rested hlogs
  · have hij : i ≠ j := fun heq => hapart i rfl (heq ▸ hj)
    exact hconfined.mono (fun x hx => away_of_sibling hij hx) fun x c hx => hx.trans (List.prefix_append _ _)

/-- **A part that is taken on does what its guest does, and leaves the others as they are.** -/
theorem Kept.resume (hg : Grounds b s n m₀) (hm : m.Vacant) (hs : Spared b s k m₀ m)
    (h : Kept b s n m₀ t m part g) : ∃ seat, Advanced b s n m₀ k m part g seat := by
  cases h with
  | value v hl hclock => exact ⟨.none, advanced_value hm hs hl hclock⟩
  | waiting hp hcalm hq => exact advanced_waiting hg hm hs hp hcalm hq
  | @housed i _ _ _ h hnew hpart hrun => exact ⟨.taken i, advanced_housed hg hm hs h hnew hpart hrun⟩

/-! ## What guests have come to -/

/-- What taking a guest on leaves on its own machine. -/
theorem Kept.calm (h : Kept b s n m₀ t m part g) : CalmRun g.machine g.after := by
  cases h with
  | value v hl hclock => exact ⟨hl.rested, rfl, trivial⟩
  | @waiting options paths p q hp hcalm hq =>
    have hresume : (Run.asleep 0 q).resume [] (lone (m₀.inputsAt b) (forkNode n options) m.clock) =
        q.start [] (lone (m₀.inputsAt b) (forkNode n options) m.clock) := if_pos (Nat.zero_le _)
    dsimp only [Guest.after]
    rw [hresume]
    exact calm_start hq (vacant_lone _ _ _).rest
  | housed h hnew hpart hrun => exact calm_resume hrun h.rest

/-- What a guest does when it is taken on takes no time. -/
theorem Kept.moment_eq (h : Kept b s n m₀ t m part g) : ∀ x ∈ g.moment, x.1 = m.clock := by
  intro x hx
  rw [← h.clock_eq]
  rcases List.mem_append.1 hx with hx | hx
  · exact (of_mem_entries hx).1
  · unfold ending at hx
    split at hx
    · next r _ =>
      cases r with
      | ok v => cases hx
      | error e => rw [List.mem_singleton.1 hx]
    · cases hx

/-- What it does after that takes place later. -/
theorem Kept.later_lt (h : Kept b s n m₀ t m part g) : ∀ x ∈ g.later, m.clock < x.1 := by
  intro x hx
  have hcalm := h.calm
  unfold later at hx
  split at hx
  · cases hx
  · next hres =>
    have hlate := chronicle_late (s := []) hcalm.rested.rest (hcalm.clock ▸ hcalm.calm)
      (Option.not_isSome_iff_eq_none.1 hres) x hx
    rwa [hcalm.clock, h.clock_eq] at hlate

/-- Both together. -/
theorem Kept.moment_append_later (h : Kept b s n m₀ t m part g) :
    g.moment ++ g.later =
      entries m.clock (g.paths ++ Machine.news [] g.machine g.after.2) ++ chronicle [] g.after.1 g.after.2 := by
  have hcalm := h.calm
  unfold moment later ending
  cases hres : g.after.1.result? with
  | none => simp only [Option.isSome_none, Bool.false_eq_true, if_false, List.append_nil, h.clock_eq]
  | some r =>
    rw [chronicle_of_result hres, hcalm.clock]
    simp only [Option.isSome_some, if_true, List.append_nil, h.clock_eq]

/-- A guest that does not fail when it is taken on. -/
theorem later_of_quiet (h : ∀ x ∈ g.moment, x.2.isFailure = false) :
    g.later = chronicle [] g.after.1 g.after.2 := by
  unfold later
  cases hres : g.after.1.result? with
  | none => simp
  | some r =>
    rw [chronicle_of_result hres]
    cases r with
    | ok v => simp [closing]
    | error e =>
      have hfailed : (g.machine.clock, Incident.failed e.bare) ∈ g.moment := by
        unfold moment ending
        rw [hres]
        exact List.mem_append_right _ (List.mem_singleton_self _)
      cases h _ hfailed

theorem Kept.failed {e : ExecutionError} (h : Kept b s n m₀ t m (.done (.error e)) g) :
    ∃ e', g.run = .done (.error e') ∧ e.bare = e'.bare := by
  cases h with
  | @housed i part run l h hnew hpart hrun =>
    cases h.alike with
    | done hr =>
      cases hr with
      | error he => exact ⟨_, rfl, he⟩

theorem Kept.succeeded {v : β} (h : Kept b s n m₀ t m (.done (.ok v)) g) : g.run = .done (.ok v) := by
  cases h with
  | value v hl hclock => rfl
  | @housed i part run l h hnew hpart hrun =>
    cases h.alike with
    | done hr =>
      cases hr with
      | ok hv => exact hv ▸ rfl

theorem Kept.waits (h : Kept b s n m₀ t m part g) (hr : part.result? = none) : g.run.result? = none := by
  cases h with
  | value v hl hclock => cases hr
  | waiting hp hcalm hq => rfl
  | housed h hnew hpart hrun =>
    have hsame := h.alike.isSome_result?
    rw [hr] at hsame
    exact Option.not_isSome_iff_eq_none.1 (by simp [← hsame])

/-- A part that has not failed has a guest that has not failed. -/
theorem Kept.ending_eq (h : Kept b s n m₀ t m part g) (hne : ∀ e, part ≠ .done (.error e)) (t' : Nat) :
    ending t' g.run = [] := by
  unfold ending
  cases hr : part.result? with
  | none => rw [h.waits hr]
  | some r =>
    cases part with
    | done r' =>
      cases r' with
      | ok v => rw [h.succeeded]; rfl
      | error e => exact absurd rfl (hne e)
    | _ => cases hr

variable {seat : Seat}

theorem Advanced.moment_failed (h : Advanced b s n m₀ k m part g seat) {e : ExecutionError}
    (he : (part.resume [] m).1 = .done (.error e)) :
    g.moment = entries m.clock (Machine.news s m (part.resume [] m).2) ++ [(m.clock, .failed e.bare)] := by
  have hkept := h.kept
  rw [he] at hkept
  obtain ⟨e', hrun, hbare⟩ := hkept.failed
  have hafter : g.after.1 = .done (.error e') := hrun
  unfold moment ending
  rw [h.news, h.clock, hafter, hbare]
  rfl

theorem Advanced.moment_passed (h : Advanced b s n m₀ k m part g seat)
    (he : ∀ e, (part.resume [] m).1 ≠ .done (.error e)) :
    g.moment = entries m.clock (Machine.news s m (part.resume [] m).2) := by
  have hending := h.kept.ending_eq he m.clock
  unfold moment
  rw [h.news, h.clock, hending, List.append_nil]

/-! ## Sweeps -/

/-- What a sweep leaves that has met no failure. -/
structure Passed (b s : Route) (n : Node) (m₀ : Machine) (k : Nat) (m : Machine) (guests : List (Guest β))
    (runs : List (Run (Except ExecutionError β))) (m' : Machine) (guests' : List (Guest β)) : Prop where
  next : List.Forall₂ (fun g g' => ∃ seat, seat ≠ .waiting ∧ g' = Guest.next g seat) guests guests'
  kept : List.Forall₂ (Kept b s n m₀ m.clock m') runs guests'
  apart : guests'.Pairwise Apart
  unfailed : ∀ run ∈ runs, ∀ e, run ≠ .done (.error e)
  rested : Rested m m'
  clock : m'.clock = m.clock
  spared : Spared b s (k + newcomers guests) m₀ m'
  news : entries m.clock (news s m m') = guests.flatMap moment
  others : ∀ (t' : Nat) part' (g' : Guest β), Kept b s n m₀ t' m part' g' → (∀ g ∈ guests, g.Apart g') →
    Kept b s n m₀ t' m' part' g' ∧ ∀ g ∈ guests', g.Apart g'

/-- What a sweep leaves that has met a failure. -/
structure Broken (b s : Route) (m₀ m : Machine) (guests : List (Guest β)) (e : ExecutionError) (m' : Machine) :
    Prop where
  rested : Rested m m'
  clock : m'.clock = m.clock
  spared : ∃ k', Spared b s k' m₀ m'
  news : entries m.clock (news s m m') ++ [(m.clock, .failed e.bare)] = upToFailure (guests.flatMap moment)
  failure : ∃ g ∈ guests, ∃ e', g.after.1 = .done (.error e') ∧ e.SameBare e'

/-- What a sweep leaves. -/
inductive Swept (b s : Route) (n : Node) (m₀ : Machine) (k : Nat) (m : Machine) (guests : List (Guest β)) :
    Except ExecutionError (List (Run (Except ExecutionError β))) × Machine → Prop
  | passed {runs : List (Run (Except ExecutionError β))} {m' : Machine} (guests' : List (Guest β))
      (h : Passed b s n m₀ k m guests runs m' guests') : Swept b s n m₀ k m guests (.ok runs, m')
  | broken {e : ExecutionError} {m' : Machine} (h : Broken b s m₀ m guests e m') :
      Swept b s n m₀ k m guests (.error e, m')

/-- What is related to an element of the second list. -/
theorem exists_of_mem_right {α γ : Type*} {R : α → γ → Prop} {xs : List α} {ys : List γ} (h : List.Forall₂ R xs ys)
    {y : γ} (hy : y ∈ ys) : ∃ x ∈ xs, R x y := by
  obtain ⟨i, hi, rfl⟩ := List.mem_iff_getElem.1 hy
  have hi' : i < xs.length := h.length_eq ▸ hi
  exact ⟨xs[i], List.getElem_mem hi', h.get hi' hi⟩

/-- A relation may be changed for the elements of two lists. -/
theorem forall₂_of_mem {α γ : Type*} {R S : α → γ → Prop} {xs : List α} {ys : List γ} (h : List.Forall₂ R xs ys)
    (hS : ∀ x y, x ∈ xs → y ∈ ys → R x y → S x y) : List.Forall₂ S xs ys :=
  List.forall₂_iff_get.2
    ⟨h.length_eq, fun _ hi hi' => hS _ _ (List.getElem_mem hi) (List.getElem_mem hi') (h.get hi hi')⟩

theorem newcomers_cons (g : Guest β) (guests : List (Guest β)) :
    newcomers (g :: guests) = newcomers [g] + newcomers guests := by
  unfold newcomers
  rw [List.countP_cons, List.countP_cons, List.countP_nil, Nat.add_comm, Nat.zero_add]

/-- What a sweep leaves that has not failed at its first part. -/
theorem Advanced.cons {guests guests' : List (Guest β)} {runs : List (Run (Except ExecutionError β))} {m' : Machine}
    (ha : Advanced b s n m₀ k m part g seat) (hall : ∀ g' ∈ guests, (g.next seat).Apart g')
    (hne : ∀ e, (part.resume [] m).1 ≠ .done (.error e))
    (hmoment : g.moment = entries m.clock (Machine.news s m (part.resume [] m).2))
    (h : Passed b s n m₀ (k + newcomers [g]) (part.resume [] m).2 guests runs m' guests') :
    Passed b s n m₀ k m (g :: guests) ((part.resume [] m).1 :: runs) m' (g.next seat :: guests') := by
  have hclock : (part.resume [] m).2.clock = m.clock := ha.calm.clock
  obtain ⟨hown, happart⟩ := h.others _ _ _ ha.kept fun g' hg' => (hall g' hg').symm
  refine ⟨.cons ⟨seat, ha.seated, rfl⟩ h.next, .cons hown (hclock ▸ h.kept), List.pairwise_cons.2 ⟨?_, h.apart⟩,
    List.forall_mem_cons.2 ⟨hne, h.unfailed⟩, ha.calm.rested.trans h.rested, h.clock.trans hclock, ?_, ?_,
    fun t' part' g' h' hapart => ?_⟩
  · exact fun g' hg' => (happart g' hg').symm
  · rw [newcomers_cons, ← Nat.add_assoc]
    exact h.spared
  · have hlater := h.news
    rw [hclock] at hlater
    rw [news_trans (ha.calm.rested.logs s) (h.rested.logs s), entries_append, hlater, List.flatMap_cons, hmoment]
  · obtain ⟨hkept, hnext⟩ := ha.others t' part' g' h' (hapart g List.mem_cons_self)
    obtain ⟨hkept', hrest⟩ := h.others t' part' g' hkept fun g hg => hapart g (List.mem_cons_of_mem _ hg)
    exact ⟨hkept', List.forall_mem_cons.2 ⟨hnext, hrest⟩⟩

/-- What a sweep leaves that fails at its first part. -/
theorem Advanced.broken {guests : List (Guest β)} {e : ExecutionError} (ha : Advanced b s n m₀ k m part g seat)
    (he : (part.resume [] m).1 = .done (.error e)) : Broken b s m₀ m (g :: guests) e (part.resume [] m).2 := by
  have hkept := ha.kept
  rw [he] at hkept
  obtain ⟨e', hrun, hbare⟩ := hkept.failed
  refine ⟨ha.calm.rested, ha.calm.clock, ⟨_, ha.spared⟩, ?_, g, List.mem_cons_self, e', hrun, hbare⟩
  have hmem : (m.clock, Incident.failed e.bare) ∈ g.moment := by
    rw [ha.moment_failed he]
    exact List.mem_append_right _ (List.mem_singleton_self _)
  rw [List.flatMap_cons, Story.upToFailure_append_of_failure hmem rfl, ha.moment_failed he,
    Story.upToFailure_append fun x hx => (of_mem_entries hx).2]
  rfl

/-- What a sweep leaves that fails after its first part. -/
theorem Advanced.cons_broken {guests : List (Guest β)} {e : ExecutionError} {m' : Machine}
    (ha : Advanced b s n m₀ k m part g seat)
    (hmoment : g.moment = entries m.clock (Machine.news s m (part.resume [] m).2))
    (h : Broken b s m₀ (part.resume [] m).2 guests e m') : Broken b s m₀ m (g :: guests) e m' := by
  have hclock : (part.resume [] m).2.clock = m.clock := ha.calm.clock
  have hquiet : ∀ x ∈ g.moment, x.2.isFailure = false := fun x hx => (of_mem_entries (hmoment ▸ hx)).2
  obtain ⟨g', hg', hfailed⟩ := h.failure
  refine ⟨ha.calm.rested.trans h.rested, h.clock.trans hclock, h.spared, ?_, g', List.mem_cons_of_mem _ hg', hfailed⟩
  have hlater := h.news
  rw [hclock] at hlater
  rw [List.flatMap_cons, Story.upToFailure_append hquiet, ← hlater, hmoment,
    news_trans (ha.calm.rested.logs s) (h.rested.logs s), entries_append, List.append_assoc]

/-- **A sweep takes on all parts as their guests go on on their own, up to the first failure.** -/
theorem swept_guests {size : Nat} {parts : Fin size → Run (Except ExecutionError β)} (hg : Grounds b s n m₀)
    {is : List (Fin size)} {guests : List (Guest β)} (hm : m.Vacant) (hs : Spared b s k m₀ m)
    (hkept : List.Forall₂ (fun i => Kept b s n m₀ t m (parts i)) is guests) (hapart : guests.Pairwise Apart) :
    Swept b s n m₀ k m guests (sweep (fun i m => (parts i).resume [] m) is m) := by
  induction is generalizing m k guests with
  | nil =>
    cases hkept
    refine .passed [] ⟨.nil, .nil, .nil, nofun, hm.rest.rested, rfl, hs, ?_, fun t' part' g' h' _ => ⟨h', nofun⟩⟩
    rw [news_self]
    rfl
  | cons i rest ih =>
    obtain ⟨g, gs, hpart, hrest, rfl⟩ := List.forall₂_cons_left_iff.1 hkept
    obtain ⟨hfirst, hothers⟩ := List.pairwise_cons.1 hapart
    obtain ⟨seat, hadvanced⟩ := hpart.resume hg hm hs
    by_cases hfail : ∃ e, ((parts i).resume [] m).1 = .done (.error e)
    · obtain ⟨e, he⟩ := hfail
      rw [sweep_of_error he]
      exact .broken (hadvanced.broken he)
    · rw [not_exists] at hfail
      have hmoment := hadvanced.moment_passed hfail
      have hrest' : List.Forall₂ (fun j => Kept b s n m₀ t ((parts i).resume [] m).2 (parts j)) rest gs :=
        forall₂_of_mem hrest fun _ g' _ hg' h => (hadvanced.others t _ g' h (hfirst g' hg')).1
      have hall : ∀ g' ∈ gs, (g.next seat).Apart g' := by
        intro g' hg'
        obtain ⟨j, -, h⟩ := exists_of_mem_right hrest hg'
        exact (hadvanced.others t _ g' h (hfirst g' hg')).2
      have hswept := ih (hm.rested hadvanced.calm.rested) hadvanced.spared hrest' hothers
      rw [sweep_of_ne_error hfail]
      generalize sweep (fun i m => (parts i).resume [] m) rest ((parts i).resume [] m).2 = x at hswept
      cases hswept with
      | @passed runs m' guests' h => exact .passed (g.next seat :: guests') (hadvanced.cons hall hfail hmoment h)
      | broken h => exact .broken (hadvanced.cons_broken hmoment h)

end Machine

end MediaQuery
