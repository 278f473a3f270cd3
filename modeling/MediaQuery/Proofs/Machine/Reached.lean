import MediaQuery.Proofs.Machine.Passage
import Mathlib.Data.Set.Lattice

/-!
# How far programs have got

`Prog.Reaches` says how far a program has got at a moment, whether it has its answer by then or is still under way, and
which entries it has made in execution logs (`Note`). What comes to an answer gets to it (`Prog.leads_of_reaches`). Logs
get longer at their ends only (`Moment.Before.logAt_prefix`), so every entry keeps its position (`Prog.Reaches.logged`),
and what is entered later has a later position. Of two programs one after the other the second has entered nothing as
long as the first is under way, or after it has failed (`Prog.reaches_andThen`).
-/

namespace MediaQuery

/-- An entry of an execution log: the branch that it is made on, the first branch of that one's query, whose log it is,
the position there, and the path. -/
structure Note where
  branch : Route
  log : Route
  position : Nat
  place : Path

/-- The first entry is made before the second, as far as they are in the same log. -/
def Note.Precedes (n n' : Note) : Prop := n.log = n'.log → n.position < n'.position

/-- The entry that is made if the path is entered on the branch. -/
def Machine.note (m : Machine) (a : Route) (path : Path) : Note :=
  ⟨a, m.tree.sessionRoute a, (m.session a).log.length, path⟩

/-- The entries that an operation makes. -/
def Op.notes (m : Machine) (base : Route) : {α : Type} → Op α → Set Note
  | _, .enter branch place => {m.note (base ++ branch) place}
  | _, _ => ∅

open Machine (Moment)

/-- Nothing more has been done yet. -/
structure Unbegun {α : Type} (x : Moment) (N : Set Note) (r : Option α) (y : Moment) : Prop where
  notes : N = ∅
  result : r = none
  before : x.Before y

/-- A program on the branch at the base that begins at the first moment has got so far at the second: the entries that
it has made, and its answer, if it has one already. It stops only where it waits. -/
def Prog.Reaches : {α : Type} → Prog α → Route → Moment → Set Note → Option α → Moment → Prop
  | _, .done a, _, x, N, r, y => N = ∅ ∧ r = some a ∧ y = x
  | _, .act op next, base, x, N, r, y => ∃ x₁ N', x.Before x₁ ∧ x₁.machine = (x.machine.perform base op).2 ∧
    (next (x.machine.perform base op).1).Reaches base x₁ N' r y ∧ N = op.notes x.machine base ∪ N'
  | _, .sleep _ next, base, x, N, r, y => Unbegun x N r y ∨ ∃ x₁, x.Before x₁ ∧ next.Reaches base x₁ N r y
  | _, .spawn branch key future next, base, x, N, r, y => ∃ x₁, x.Before x₁ ∧
    x₁.machine = x.machine.spawn (base ++ branch) key future ∧ next.Reaches base x₁ N r y
  | _, .resolve _ _ next, base, x, N, r, y => Unbegun x N r y ∨ ∃ result x₁, x.Before x₁ ∧
    (next result).Reaches base x₁ N r y
  | _, .settle branch next, base, x, N, r, y => Unbegun x N r y ∨ ∃ result x₁,
    Moment.Waits (base ++ branch) x result x₁ ∧ (next result).Reaches base x₁ N r y
  | _, .all (β := β) (n := n) parts next, base, x, N, r, y =>
    ∃ (Ns : Fin n → Set Note) (rs : Fin n → Option (Except ExecutionError β)) (x₁ : Moment) (N' : Set Note),
      x.Before x₁ ∧
      (∀ i, x.Meanwhile x₁ fun x y => Unbegun x (Ns i) (rs i) y ∨ (parts i).Reaches base x (Ns i) (rs i) y) ∧
      (Unbegun x₁ N' r y ∨ ∃ result, Joint (fun i r => rs i = some r) result ∧ (next result).Reaches base x₁ N' r y) ∧
      N = (⋃ i, Ns i) ∪ N'

/-- The same for a program that has been started. -/
def Run.Reaches : {α : Type} → Run α → Route → Moment → Set Note → Option α → Moment → Prop
  | _, .done a, _, x, N, r, y => N = ∅ ∧ r = some a ∧ y = x
  | _, .asleep _ next, base, x, N, r, y => Unbegun x N r y ∨ ∃ x₁, x.Before x₁ ∧ next.Reaches base x₁ N r y
  | _, .resolving _ _ _ _ next, base, x, N, r, y => Unbegun x N r y ∨ ∃ result x₁, x.Before x₁ ∧
    (next result).Reaches base x₁ N r y
  | _, .waiting branch wait next, base, x, N, r, y => Unbegun x N r y ∨ ∃ result x₁,
    Moment.Held (base ++ branch) (.inl wait) x result x₁ ∧ (next result).Reaches base x₁ N r y
  | _, .joined (β := β) (n := n) parts next, base, x, N, r, y =>
    ∃ (Ns : Fin n → Set Note) (rs : Fin n → Option (Except ExecutionError β)) (x₁ : Moment) (N' : Set Note),
      x.Before x₁ ∧ (∀ i, x.Meanwhile x₁ fun x y => (parts i).Reaches base x (Ns i) (rs i) y) ∧
      (Unbegun x₁ N' r y ∨ ∃ result, Joint (fun i r => rs i = some r) result ∧ (next result).Reaches base x₁ N' r y) ∧
      N = (⋃ i, Ns i) ∪ N'

namespace Prog

variable {α β : Type} {base branch : Route} {path : Path} {x y : Moment} {N : Set Note}

theorem Reaches.before {p : Prog α} {r : Option α} (h : p.Reaches base x N r y) : x.Before y := by
  induction p generalizing x N with
  | done a =>
    obtain ⟨-, -, rfl⟩ := h
    exact .refl _
  | act op next ih =>
    obtain ⟨x₁, N', hsteps, -, hnext, -⟩ := h
    exact hsteps.trans (ih _ hnext)
  | sleep ms next ih =>
    rcases h with h | ⟨x₁, hsteps, hnext⟩
    · exact h.before
    · exact hsteps.trans (ih hnext)
  | spawn branch key future next _ ih =>
    obtain ⟨x₁, hsteps, -, hnext⟩ := h
    exact hsteps.trans (ih hnext)
  | resolve branch key next ih =>
    rcases h with h | ⟨result, x₁, hsteps, hnext⟩
    · exact h.before
    · exact hsteps.trans (ih _ hnext)
  | settle branch next ih =>
    rcases h with h | ⟨result, x₁, hwaits, hnext⟩
    · exact h.before
    · exact hwaits.before.trans (ih _ hnext)
  | all parts next _ ih =>
    obtain ⟨Ns, rs, x₁, N', hsteps, -, hrest, -⟩ := h
    rcases hrest with hrest | ⟨result, -, hnext⟩
    · exact hsteps.trans hrest.before
    · exact hsteps.trans (ih _ hnext)

/-- **A program that has its answer has got to it.** -/
theorem leads_of_reaches {p : Prog α} {answer : α} (h : p.Reaches base x N (some answer) y) :
    p.Leads base x answer y := by
  induction p generalizing x y N with
  | done a =>
    obtain ⟨-, ha, hy⟩ := h
    exact ⟨Option.some.inj ha, hy⟩
  | act op next ih =>
    obtain ⟨x₁, N', hsteps, hm, hnext, -⟩ := h
    exact ⟨x₁, hsteps, hm, ih _ hnext⟩
  | sleep ms next ih =>
    rcases h with ⟨-, h, -⟩ | ⟨x₁, hsteps, hnext⟩
    · cases h
    · exact ⟨x₁, hsteps, ih hnext⟩
  | spawn branch key future next _ ih =>
    obtain ⟨x₁, hsteps, hm, hnext⟩ := h
    exact ⟨x₁, hsteps, hm, ih hnext⟩
  | resolve branch key next ih =>
    rcases h with ⟨-, h, -⟩ | ⟨result, x₁, hsteps, hnext⟩
    · cases h
    · exact ⟨result, x₁, hsteps, ih _ hnext⟩
  | settle branch next ih =>
    rcases h with ⟨-, h, -⟩ | ⟨result, x₁, hwaits, hnext⟩
    · cases h
    · exact ⟨result, x₁, hwaits, ih _ hnext⟩
  | all parts next ihparts ih =>
    obtain ⟨Ns, rs, x₁, N', hsteps, hparts, hrest, -⟩ := h
    rcases hrest with ⟨-, h, -⟩ | ⟨result, hjoint, hnext⟩
    · cases h
    · refine ⟨result, x₁, hsteps, hjoint.imp fun i r hr => ?_, ih _ hnext⟩
      obtain ⟨x₂, y₂, hbefore, hpart, hafter⟩ := hparts i
      rw [hr] at hpart
      rcases hpart with ⟨-, h, -⟩ | hreaches
      · cases h
      · exact ⟨x₂, y₂, hbefore, ihparts i hreaches, hafter⟩

end Prog

/-! ## Positions -/

namespace Machine

variable {m m' : Machine} {a : Route}

/-- Where the first branch has a session, so has the query of every branch. -/
theorem isSome_session?_sessionRoute (h : (m.session? []).isSome = true) (a : Route) :
    (m.session? (m.tree.sessionRoute a)).isSome = true := by
  induction a using List.reverseRecOn with
  | nil => exact h
  | append_singleton a i ih =>
    rw [Branch.sessionRoute_snoc]
    split
    · next hs => exact hs
    · exact ih

/-- A log gets longer at its end only. -/
theorem Evolves.logAt_prefix (h : Evolves m m') (a : Route) : m.logAt a <+: m'.logAt a := by
  rw [logAt_eq, logAt_eq]
  cases hn : m.node? a with
  | none => exact List.nil_prefix
  | some n =>
    obtain ⟨n', hn', hevolves⟩ := h a n hn
    rw [hn']
    exact hevolves.log

/-- The first branch has a session. -/
abbrev Moment.Rooted (x : Moment) : Prop := (x.machine.session? []).isSome = true

theorem Moment.Before.rooted {x y : Moment} (h : x.Before y) (hx : x.Rooted) : y.Rooted := by
  unfold Moment.Rooted
  rw [h.evolves.isSome_session? (isSome_node?_of_session? hx)]
  exact hx

/-- What is entered is at the end of the log. -/
theorem logAt_enter (h : (m.session? []).isSome = true) (a : Route) (path : Path) :
    (m.enter a path).logAt (m.tree.sessionRoute a) = (m.session a).log ++ [path] := by
  obtain ⟨s, hs⟩ := Option.isSome_iff_exists.1 (isSome_session?_sessionRoute h a)
  rw [log_session]
  unfold logAt
  rw [session?_enter, if_pos rfl, hs]
  rfl

end Machine

/-- The entry has been made between two moments: it has a place at the end of its log then. -/
structure Note.Between (n : Note) (x y : Moment) : Prop where
  after : (x.machine.logAt n.log).length ≤ n.position
  logged : (y.machine.logAt n.log)[n.position]? = some n.place

theorem Unbegun.logged {α : Type} {x y : Moment} {N : Set Note} {r : Option α} (h : Unbegun x N r y) :
    ∀ n ∈ N, n.Between x y := fun n hn => absurd (h.notes ▸ hn) (Set.notMem_empty n)

namespace Note.Between

variable {n n' : Note} {x y x' y' : Moment}

theorem lt (h : n.Between x y) : n.position < (y.machine.logAt n.log).length :=
  (List.getElem?_eq_some_iff.1 h.logged).1

theorem earlier (h : n.Between x y) (hx : x'.Before x) : n.Between x' y :=
  ⟨(hx.evolves.logAt_prefix n.log).length_le.trans h.after, h.logged⟩

theorem later (h : n.Between x y) (hy : y.Before y') : n.Between x y' := by
  refine ⟨h.after, ?_⟩
  obtain ⟨more, hmore⟩ := hy.evolves.logAt_prefix n.log
  rw [← hmore, List.getElem?_append_left h.lt]
  exact h.logged

/-- What is entered by some moment precedes what is entered from then on. -/
theorem precedes (h : n.Between x y) (h' : n'.Between y y') : n.Precedes n' := by
  intro hlog
  exact h.lt.trans_le (hlog ▸ h'.after)

end Note.Between

namespace Prog

variable {α β : Type} {base branch : Route} {path : Path} {x y : Moment} {N : Set Note}

/-- What an operation enters is at the end of the log. -/
theorem notes_between (op : Op β) (hx : x.Rooted)
    (hy : y.machine = (x.machine.perform base op).2) : ∀ n ∈ op.notes x.machine base, n.Between x y := by
  cases op with
  | enter branch place =>
    rintro n rfl
    have hlength : (x.machine.note (base ++ branch) place).position =
        (x.machine.logAt (x.machine.tree.sessionRoute (base ++ branch))).length :=
      congrArg List.length (Machine.log_session x.machine (base ++ branch))
    refine ⟨hlength.ge, ?_⟩
    rw [hy]
    show ((x.machine.enter (base ++ branch) place).logAt (x.machine.tree.sessionRoute (base ++ branch)))[
      (x.machine.session (base ++ branch)).log.length]? = some place
    rw [Machine.logAt_enter hx]
    exact List.getElem?_concat_length
  | _ => exact fun n hn => absurd hn (Set.notMem_empty n)

/-- **Every entry that a program has made is in its log, at its position.** -/
theorem Reaches.logged {p : Prog α} {r : Option α} (h : p.Reaches base x N r y)
    (hx : x.Rooted) : ∀ n ∈ N, n.Between x y := by
  induction p generalizing x y N with
  | done a =>
    obtain ⟨rfl, -, -⟩ := h
    exact fun n hn => absurd hn (Set.notMem_empty n)
  | act op next ih =>
    obtain ⟨x₁, N', hsteps, hm, hnext, rfl⟩ := h
    rintro n (hn | hn)
    · exact (notes_between _ hx hm n hn).later hnext.before
    · exact (ih _ hnext (hsteps.rooted hx) n hn).earlier hsteps
  | sleep ms next ih =>
    rcases h with h | ⟨x₁, hsteps, hnext⟩
    · exact h.logged
    · exact fun n hn => (ih hnext (hsteps.rooted hx) n hn).earlier hsteps
  | spawn branch key future next _ ih =>
    obtain ⟨x₁, hsteps, -, hnext⟩ := h
    exact fun n hn => (ih hnext (hsteps.rooted hx) n hn).earlier hsteps
  | resolve branch key next ih =>
    rcases h with h | ⟨result, x₁, hsteps, hnext⟩
    · exact h.logged
    · exact fun n hn => (ih _ hnext (hsteps.rooted hx) n hn).earlier hsteps
  | settle branch next ih =>
    rcases h with h | ⟨result, x₁, hwaits, hnext⟩
    · exact h.logged
    · exact fun n hn => (ih _ hnext (hwaits.before.rooted hx) n hn).earlier hwaits.before
  | all parts next ihparts ih =>
    obtain ⟨Ns, rs, x₁, N', hsteps, hparts, hrest, rfl⟩ := h
    have hlast : x₁.Before y := by
      rcases hrest with h | ⟨result, -, hnext⟩
      · exact h.before
      · exact hnext.before
    rintro n (hn | hn)
    · obtain ⟨i, hi⟩ := Set.mem_iUnion.1 hn
      obtain ⟨x₂, y₂, hbegun, hpart, hended⟩ := hparts i
      refine Note.Between.later (Note.Between.earlier ?_ hbegun) (hended.trans hlast)
      rcases hpart with hpart | hpart
      · exact hpart.logged n hi
      · exact ihparts i hpart (hbegun.rooted hx) n hi
    · refine Note.Between.earlier ?_ hsteps
      rcases hrest with h | ⟨result, -, hnext⟩
      · exact h.logged n hn
      · exact ih _ hnext (hsteps.rooted hx) n hn

/-! ## Laws -/

/-- **One program after another.** The first is still under way, or it is done and the second has got so far. -/
theorem reaches_bind {p : Prog α} {k : α → Prog β} {r : Option β} (h : (p.bind k).Reaches base x N r y) :
    p.Reaches base x N none y ∧ r = none ∨
      ∃ a x₁ N₁ N₂, p.Reaches base x N₁ (some a) x₁ ∧ (k a).Reaches base x₁ N₂ r y ∧ N = N₁ ∪ N₂ := by
  induction p generalizing x N with
  | done a => exact .inr ⟨a, x, ∅, N, ⟨rfl, rfl, rfl⟩, h, (Set.empty_union N).symm⟩
  | act op next ih =>
    obtain ⟨x₁, N', hsteps, hm, hnext, rfl⟩ := h
    rcases ih _ hnext with ⟨hfirst, hr⟩ | ⟨a, x₂, N₁, N₂, hfirst, hk, rfl⟩
    · exact .inl ⟨⟨x₁, N', hsteps, hm, hfirst, rfl⟩, hr⟩
    · exact .inr ⟨a, x₂, _, N₂, ⟨x₁, N₁, hsteps, hm, hfirst, rfl⟩, hk, (Set.union_assoc ..).symm⟩
  | sleep ms next ih =>
    rcases h with ⟨hN, hr, hxy⟩ | ⟨x₁, hsteps, hnext⟩
    · exact .inl ⟨.inl ⟨hN, rfl, hxy⟩, hr⟩
    rcases ih hnext with ⟨hfirst, hr⟩ | ⟨a, x₂, N₁, N₂, hfirst, hk, hN⟩
    · exact .inl ⟨.inr ⟨x₁, hsteps, hfirst⟩, hr⟩
    · exact .inr ⟨a, x₂, N₁, N₂, .inr ⟨x₁, hsteps, hfirst⟩, hk, hN⟩
  | spawn branch key future next _ ih =>
    obtain ⟨x₁, hsteps, hm, hnext⟩ := h
    rcases ih hnext with ⟨hfirst, hr⟩ | ⟨a, x₂, N₁, N₂, hfirst, hk, hN⟩
    · exact .inl ⟨⟨x₁, hsteps, hm, hfirst⟩, hr⟩
    · exact .inr ⟨a, x₂, N₁, N₂, ⟨x₁, hsteps, hm, hfirst⟩, hk, hN⟩
  | resolve branch key next ih =>
    rcases h with ⟨hN, hr, hxy⟩ | ⟨result, x₁, hsteps, hnext⟩
    · exact .inl ⟨.inl ⟨hN, rfl, hxy⟩, hr⟩
    rcases ih _ hnext with ⟨hfirst, hr⟩ | ⟨a, x₂, N₁, N₂, hfirst, hk, hN⟩
    · exact .inl ⟨.inr ⟨result, x₁, hsteps, hfirst⟩, hr⟩
    · exact .inr ⟨a, x₂, N₁, N₂, .inr ⟨result, x₁, hsteps, hfirst⟩, hk, hN⟩
  | settle branch next ih =>
    rcases h with ⟨hN, hr, hxy⟩ | ⟨result, x₁, hwaits, hnext⟩
    · exact .inl ⟨.inl ⟨hN, rfl, hxy⟩, hr⟩
    rcases ih _ hnext with ⟨hfirst, hr⟩ | ⟨a, x₂, N₁, N₂, hfirst, hk, hN⟩
    · exact .inl ⟨.inr ⟨result, x₁, hwaits, hfirst⟩, hr⟩
    · exact .inr ⟨a, x₂, N₁, N₂, .inr ⟨result, x₁, hwaits, hfirst⟩, hk, hN⟩
  | all parts next _ ih =>
    obtain ⟨Ns, rs, x₁, N', hsteps, hparts, hrest, rfl⟩ := h
    rcases hrest with ⟨hN, hr, hxy⟩ | ⟨result, hjoint, hnext⟩
    · exact .inl ⟨⟨Ns, rs, x₁, N', hsteps, hparts, .inl ⟨hN, rfl, hxy⟩, rfl⟩, hr⟩
    rcases ih _ hnext with ⟨hfirst, hr⟩ | ⟨a, x₂, N₁, N₂, hfirst, hk, rfl⟩
    · exact .inl ⟨⟨Ns, rs, x₁, N', hsteps, hparts, .inr ⟨result, hjoint, hfirst⟩, rfl⟩, hr⟩
    · exact .inr ⟨a, x₂, _, N₂, ⟨Ns, rs, x₁, N₁, hsteps, hparts, .inr ⟨result, hjoint, hfirst⟩, rfl⟩, hk,
        (Set.union_assoc ..).symm⟩

end Prog

/-! ## In succession and side by side -/

/-- What begins at a moment has got so far at another: what has been entered meanwhile, and the answer, if there is one
already. -/
abbrev Stretch (α : Type) : Type 1 := Moment → Set Note → Option α → Moment → Prop

/-- One thing after another: the first is under way, or has failed, and then nothing has been entered by the second; or
it is over, and then all that it has entered precedes all that the second has. -/
inductive Successive {ε α β : Type} (first : Stretch (Except ε α)) (next : α → Stretch (Except ε β)) (x : Moment) :
    Set Note → Option (Except ε β) → Moment → Prop
  | underWay {N : Set Note} {y : Moment} (h : first x N none y) : Successive first next x N none y
  | failed {N : Set Note} {e : ε} {y : Moment} (h : first x N (some (.error e)) y) :
      Successive first next x N (some (.error e)) y
  | onward {N N' : Set Note} {a : α} {r : Option (Except ε β)} {x₁ y : Moment} (h : first x N (some (.ok a)) x₁)
      (hnext : next a x₁ N' r y) (horder : ∀ n ∈ N, ∀ n' ∈ N', n.Precedes n') :
      Successive first next x (N ∪ N') r y

/-- Things side by side, each of which has yet to begin or has got so far in the course of the whole. If that has an
answer, it is that of all of them, or the failure of one. -/
inductive Alongside {β : Type} (parts : List (Stretch (Except ExecutionError β))) (x : Moment) :
    Set Note → Option (Except ExecutionError (List β)) → Moment → Prop
  | mk {got : List (Set Note × Option (Except ExecutionError β))} {r : Option (Except ExecutionError (List β))}
      {y : Moment}
      (hparts : List.Forall₂ (fun part g => x.Meanwhile y fun x y => Unbegun x g.1 g.2 y ∨ part x g.1 g.2 y) parts got)
      (hok : ∀ values, r = some (.ok values) → got.map Prod.snd = values.map fun v => some (.ok v))
      (herror : ∀ e, r = some (.error e) → ∃ g ∈ got, g.2 = some (.error e)) :
      Alongside parts x {n | ∃ g ∈ got, n ∈ g.1} r y

section Stretches

variable {α β ε : Type} {x y : Moment} {N : Set Note}

theorem Successive.imp {first first' : Stretch (Except ε α)} {next next' : α → Stretch (Except ε β)}
    {r : Option (Except ε β)} (h : Successive first next x N r y)
    (hfirst : ∀ {N r y}, first x N r y → x.Before y ∧ first' x N r y)
    (hnext : ∀ {a x₁ N r y}, x.Before x₁ → next a x₁ N r y → next' a x₁ N r y) : Successive first' next' x N r y := by
  cases h with
  | underWay h => exact .underWay (hfirst h).2
  | failed h => exact .failed (hfirst h).2
  | onward h hafter horder => exact .onward (hfirst h).2 (hnext (hfirst h).1 hafter) horder

theorem Alongside.imp {parts parts' : List (Stretch (Except ExecutionError β))}
    {r : Option (Except ExecutionError (List β))} (h : Alongside parts x N r y)
    (himp : List.Forall₂ (fun part part' => ∀ {x₁ N r y}, x.Before x₁ → part x₁ N r y → part' x₁ N r y) parts parts') :
    Alongside parts' x N r y := by
  obtain @⟨got, r, y, hparts, hok, herror⟩ := h
  refine .mk ?_ hok herror
  clear hok herror
  -- part by part
  induction himp generalizing got with
  | nil => exact hparts
  | cons hpart _ ih =>
    cases hparts with
    | cons hfirst hrest =>
      obtain ⟨x₁, y₁, hbegun, hfirst, hended⟩ := hfirst
      exact .cons ⟨x₁, y₁, hbegun, hfirst.imp_right (hpart hbegun), hended⟩ (ih hrest)

/-- Nothing is entered. -/
def Silent : Stretch α := fun x N _ y => N = ∅ ∧ x.Before y

/-- There is an answer at once. -/
def Answered (a : α) : Stretch α := fun x N r y => N = ∅ ∧ r = some a ∧ y = x

/-- The same, but for a change of the answer. -/
def Mapped (s : Stretch (Except ε α)) (f : α → β) : Stretch (Except ε β) :=
  fun x N r y => ∃ r', s x N r' y ∧ r = r'.map (Except.map f)

/-- The same on a fork of the branch. -/
def Forked (branch : Route) (s : Route → Stretch α) : Stretch α :=
  fun x N r y => ∃ i x₁, x.Before x₁ ∧ s (branch ++ [i]) x₁ N r y

end Stretches

namespace Prog

variable {α β : Type} {base branch : Route} {path : Path} {x y : Moment} {N : Set Note}

section Failing

variable {ε : Type}

/-- A program that may fail, and what comes after it. -/
theorem reaches_andThen {p : Prog (Except ε α)} {f : α → Prog (Except ε β)} {r : Option (Except ε β)}
    (h : (ExceptT.run (ExceptT.mk p >>= fun a => ExceptT.mk (f a))).Reaches base x N r y)
    (hx : x.Rooted) :
    Successive (p.Reaches base) (fun a => (f a).Reaches base) x N r y := by
  rcases reaches_bind h with ⟨hfirst, rfl⟩ | ⟨result, x₁, N₁, N₂, hfirst, hnext, rfl⟩
  · exact .underWay hfirst
  cases result with
  | ok a =>
    have hnext : (f a).Reaches base x₁ N₂ r y := hnext
    exact .onward hfirst hnext fun n hn n' hn' =>
      (hfirst.logged hx n hn).precedes (hnext.logged (hfirst.before.rooted hx) n' hn')
  | error e =>
    obtain ⟨rfl, rfl, rfl⟩ := hnext
    rw [Set.union_empty]
    exact .failed hfirst

/-- A change of its answer does not change how far a program has got. -/
theorem reaches_map {p : Prog (Except ε α)} {f : α → β} {r : Option (Except ε β)}
    (h : (p.bind fun r => .done (r.map f)).Reaches base x N r y) :
    ∃ r', p.Reaches base x N r' y ∧ r = r'.map (Except.map f) := by
  rcases reaches_bind h with ⟨hfirst, rfl⟩ | ⟨result, x₁, N₁, N₂, hfirst, ⟨rfl, rfl, rfl⟩, rfl⟩
  · exact ⟨none, hfirst, rfl⟩
  · rw [Set.union_empty]
    exact ⟨some result, hfirst, rfl⟩

end Failing

/-- **Programs side by side.** -/
theorem reaches_parallel {parts : List (Prog (Except ExecutionError β))} {r : Option (Except ExecutionError (List β))}
    (h : (parallel parts).Reaches base x N r y) : Alongside (parts.map fun p => p.Reaches base) x N r y := by
  obtain ⟨Ns, rs, x₁, N', hsteps, hparts, hrest, rfl⟩ := h
  obtain ⟨rfl, hx₁, hanswer⟩ : N' = ∅ ∧ x₁.Before y ∧ ∀ result, r = some result → Joint (fun i r => rs i = some r) result := by
    rcases hrest with ⟨hN, hr, hafter⟩ | ⟨result, hjoint, hN, hr, hy⟩
    · exact ⟨hN, hafter, fun result h => by cases hr.symm.trans h⟩
    · exact ⟨hN, hy ▸ .refl _, fun result' h => Option.some.inj (hr.symm.trans h) ▸ hjoint⟩
  let got := List.ofFn fun i => (Ns i, rs i)
  have hnotes : (⋃ i, Ns i) ∪ ∅ = {n | ∃ g ∈ got, n ∈ g.1} := by
    ext n
    simp [got, List.mem_ofFn]
  rw [hnotes]
  refine .mk (List.forall₂_iff_get.2 ⟨by simp [got], fun i hi hi' => ?_⟩) (fun values h => ?_) fun e h => ?_
  · obtain ⟨x₂, y₂, hbegun, hpart, hended⟩ := hparts ⟨i, by simpa using hi⟩
    simp only [got, List.get_eq_getElem, List.getElem_map, List.getElem_ofFn]
    exact ⟨x₂, y₂, hbegun, hpart, hended.trans hx₁⟩
  · cases hanswer _ h with
    | ok hn hvalues => exact List.ext_getElem (by simp [got, hn]) fun i hi hi' => by simp [got, hvalues]
  · cases hanswer _ h with
    | @error i _ hi => exact ⟨(Ns i, rs i), List.mem_ofFn.2 ⟨i, rfl⟩, hi⟩

/-! ## Programs along stretches -/

/-- However far the program has got, it is on the stretch. -/
structure RunsAs (p : Prog α) (base : Route) (s : Stretch α) : Prop where
  reached : ∀ {x N r y}, x.Rooted → p.Reaches base x N r y → s x N r y

theorem runsAs_done (a : α) (base : Route) : (Prog.done a).RunsAs base (Answered a) := ⟨fun _ h => h⟩

/-- **One after the other.** -/
theorem RunsAs.andThen {ε : Type} {p : Prog (Except ε α)} {f : α → Prog (Except ε β)} {s : Stretch (Except ε α)}
    {t : α → Stretch (Except ε β)} (hp : p.RunsAs base s) (hf : ∀ a, (f a).RunsAs base (t a)) :
    (ExceptT.run (ExceptT.mk p >>= fun a => ExceptT.mk (f a))).RunsAs base (Successive s t) := by
  refine ⟨fun hx h => (reaches_andThen h hx).imp (fun h => ⟨h.before, hp.reached hx h⟩) fun hbefore h => ?_⟩
  exact (hf _).reached (hbefore.rooted hx) h

theorem RunsAs.map {ε : Type} {p : Prog (Except ε α)} {s : Stretch (Except ε α)} (hp : p.RunsAs base s) (f : α → β) :
    (p.bind fun r => .done (r.map f)).RunsAs base (Mapped s f) := by
  refine ⟨fun hx h => ?_⟩
  obtain ⟨r', hfirst, hr⟩ := reaches_map h
  exact ⟨r', hp.reached hx hfirst, hr⟩

/-- **Side by side.** -/
theorem runsAs_parallel {parts : List (Prog (Except ExecutionError β))}
    {stretches : List (Stretch (Except ExecutionError β))}
    (h : List.Forall₂ (fun p s => p.RunsAs base s) parts stretches) :
    (parallel parts).RunsAs base (Alongside stretches) := by
  refine ⟨fun hx hreaches => (reaches_parallel hreaches).imp (List.forall₂_map_left_iff.2 (h.imp fun p s hp => ?_))⟩
  exact fun hbefore hpart => hp.reached (hbefore.rooted hx) hpart

theorem RunsAs.fork {options : ForkOptions} {k : Route → Prog α} {s : Route → Stretch α}
    (h : ∀ own, (k own).RunsAs base (s own)) : ((fork branch options).bind k).RunsAs base (Forked branch s) := by
  refine ⟨?_⟩
  rintro x N r y hx ⟨x₁, N', hsteps, -, hnext, rfl⟩
  simp only [Op.notes, Set.empty_union]
  exact ⟨_, x₁, hsteps, (h _).reached (hsteps.rooted hx) hnext⟩

/-! ## Programs that enter nothing -/

theorem silent_done (a : α) : (Prog.done a).RunsAs base Silent := by
  refine ⟨?_⟩
  rintro x N r y - ⟨hN, -, rfl⟩
  exact ⟨hN, .refl _⟩

/-- An operation that enters nothing, and what comes after it. -/
theorem silent_act (op : Op β) {next : β → Prog α} (hop : ∀ m : Machine, op.notes m base = ∅)
    (h : ∀ b, (next b).RunsAs base Silent) : (Prog.act op next).RunsAs base Silent := by
  refine ⟨?_⟩
  rintro x N r y hx ⟨x₁, N', hsteps, -, hnext, rfl⟩
  obtain ⟨rfl, hafter⟩ := (h _).reached (hsteps.rooted hx) hnext
  rw [hop, Set.empty_union]
  exact ⟨rfl, hsteps.trans hafter⟩

theorem silent_fork (branch : Route) (options : ForkOptions) : (fork branch options).RunsAs base Silent :=
  silent_act (.fork branch options) (fun _ => rfl) fun _ => silent_done _

theorem silent_setAll (branch : Route) (values : List (String × Value)) :
    (setAll branch values).RunsAs base Silent := by
  induction values with
  | nil => exact silent_done ()
  | cons e rest ih => exact silent_act (.set branch e.1 e.2) (fun _ => rfl) fun _ => ih

/-- What enters nothing, and then nothing either. -/
theorem RunsAs.silently {ε : Type} {p : Prog α} {f : α → Prog (Except ε β)} (hp : p.RunsAs base Silent)
    (hf : ∀ a, (f a).RunsAs base Silent) :
    (ExceptT.run (ExceptT.lift p >>= fun a => ExceptT.mk (f a))).RunsAs base Silent := by
  have heq : ExceptT.run (ExceptT.lift p >>= fun a => ExceptT.mk (f a)) = p.bind f := bind_assoc p _ _
  rw [heq]
  refine ⟨fun hx h => ?_⟩
  rcases reaches_bind h with ⟨hfirst, -⟩ | ⟨a, x₁, N₁, N₂, hfirst, hnext, rfl⟩
  · exact hp.reached hx hfirst
  · obtain ⟨rfl, hbefore⟩ := hp.reached hx hfirst
    obtain ⟨rfl, hafter⟩ := (hf a).reached (hbefore.rooted hx) hnext
    exact ⟨Set.union_empty ∅, hbefore.trans hafter⟩

end Prog

/-! ## Runs -/

namespace Machine

variable {α : Type} {base : Route} {x y z : Moment} {N : Set Note} {r : Option α}

/-- A run that waits has not gone on yet. -/
theorem reaches_waiting {run : Run α} (hrun : run.result? = none) (hxy : x.Before y) :
    run.Reaches base x ∅ none y := by
  induction run generalizing x y with
  | done a => cases hrun
  | asleep wake next => exact .inl ⟨rfl, rfl, hxy⟩
  | resolving branch key generation future next => exact .inl ⟨rfl, rfl, hxy⟩
  | waiting branch wait next => exact .inl ⟨rfl, rfl, hxy⟩
  | @joined _ β n parts next ih =>
    have hpart (i : Fin n) : ∃ r, x.Meanwhile y fun x y => (parts i).Reaches base x ∅ r y := by
      cases hpart : (parts i).result? with
      | none => exact ⟨none, x, y, .refl x, ih i hpart hxy, .refl y⟩
      | some a =>
        cases hrun : parts i with
        | done b => exact ⟨some b, x, x, .refl x, ⟨rfl, rfl, rfl⟩, hxy⟩
        | _ =>
          rw [hrun] at hpart
          cases hpart
    choose rs hrs using hpart
    exact ⟨fun _ => ∅, rs, y, ∅, hxy, hrs, .inl ⟨rfl, rfl, .refl y⟩, by simp⟩

/-- How far a run has got is known. -/
theorem exists_reaches (run : Run α) (hxy : x.Before y) :
    ∃ r, x.Meanwhile y fun x y => run.Reaches base x ∅ r y := by
  cases hrun : run.result? with
  | none => exact ⟨none, x, y, .refl x, reaches_waiting hrun hxy, .refl y⟩
  | some a =>
    cases run with
    | done b => exact ⟨some b, x, x, .refl x, ⟨rfl, rfl, rfl⟩, hxy⟩
    | _ => cases hrun

/-- What a run reaches that waits, it also reaches from an earlier moment. -/
theorem reaches_earlier {run : Run α} (hrun : run.result? = none) (hx : x.Before y) (h : run.Reaches base y N r z) :
    run.Reaches base x N r z := by
  cases run with
  | done a => cases hrun
  | asleep wake next =>
    rcases h with ⟨hN, hr, hyz⟩ | ⟨y₁, hsteps, hnext⟩
    · exact .inl ⟨hN, hr, hx.trans hyz⟩
    · exact .inr ⟨y₁, hx.trans hsteps, hnext⟩
  | resolving branch key generation future next =>
    rcases h with ⟨hN, hr, hyz⟩ | ⟨result, y₁, hsteps, hnext⟩
    · exact .inl ⟨hN, hr, hx.trans hyz⟩
    · exact .inr ⟨result, y₁, hx.trans hsteps, hnext⟩
  | waiting branch wait next =>
    rcases h with ⟨hN, hr, hyz⟩ | ⟨result, y₁, hheld, hnext⟩
    · exact .inl ⟨hN, hr, hx.trans hyz⟩
    · exact .inr ⟨result, y₁, hheld.earlier hx, hnext⟩
  | joined parts next =>
    obtain ⟨Ns, rs, y₁, N', hsteps, hparts, hrest, hN⟩ := h
    exact ⟨Ns, rs, y₁, N', hx.trans hsteps, fun i => (hparts i).earlier hx, hrest, hN⟩

/-- What a run has reached meanwhile it has reached from an earlier moment as well. -/
theorem reaches_of_meanwhile {run : Run α} (hx : x.Before y)
    (h : y.Meanwhile z fun x y => run.Reaches base x N r y) : ∃ x₁, run.Reaches base x N r x₁ ∧ x₁.Before z := by
  obtain ⟨y₁, z₁, hbefore, hrun, hafter⟩ := h
  cases hr : run.result? with
  | none => exact ⟨z₁, reaches_earlier hr (hx.trans hbefore) hrun, hafter⟩
  | some a =>
    cases run with
    | done b =>
      obtain ⟨rfl, rfl, rfl⟩ := hrun
      exact ⟨x, ⟨rfl, rfl, rfl⟩, (hx.trans hbefore).trans hafter⟩
    | _ => cases hr

end Machine

end MediaQuery
