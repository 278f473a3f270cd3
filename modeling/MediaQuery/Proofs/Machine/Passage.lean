import MediaQuery.Proofs.Machine.Moment
import MediaQuery.Proofs.Machine.Outcome

/-!
# How programs get to their answers

`Prog.Leads` says how a program gets from one moment to its answer at another, while others act when it waits. It is
what the program comes to (`Prog.comesTo_of_leads`), with what happens on the way: what the program does itself it does
there and then, a wait for a branch is one (`Moment.Waits`), and of programs side by side each gets to its answer in the
course of it. It can be read along the program (`Prog.leads_bind`).
-/

namespace MediaQuery

namespace Machine

/-- Whatever happens, a machine evolves. -/
theorem evolves_step {past : List Event} {m m' : Machine} {e : Event} (hs : m.Step past e m') : m.Evolves m' := by
  cases hs with
  | @set a key value _ => exact evolves_modifyStore m a _
  | @spawn a key p _ => exact evolves_spawn m a key p
  | @fork a n options _ => simpa [perform] using evolves_perform m a (.fork [] options)
  | @openSession a n inputs _ => simpa [perform] using evolves_perform m a (.openSession [] inputs)
  | @finish f result _ _ => exact evolves_complete m f result
  | @settle a key generation id _ _ => exact evolves_modifyStore m a _
  | record a result => simpa [perform] using evolves_perform m a (.record [] result)
  | enter a path => exact evolves_enter m a path
  | _ => exact .refl m

end Machine

namespace Machine.Moment

variable {x y z : Moment} {a : Route}

/-- How a wait on a branch comes to its result: it is over, or others act and then it is taken on. -/
inductive Held (a : Route) : Wait ⊕ Except EvalError Unit → Moment → Except EvalError Unit → Moment → Prop
  | finished (r : Except EvalError Unit) (x : Moment) : Held a (.inr r) x r x
  | on {wait : Wait} {x x₁ x₂ y : Moment} {r : Except EvalError Unit} (hothers : x.Before x₁) (hsteps : x₁.Before x₂)
      (hm : x₂.machine = (Machine.wait a wait x₁.machine).2)
      (hrest : Held a (Machine.wait a wait x₁.machine).1 x₂ r y) : Held a (.inl wait) x r y

/-- A wait for all values of a branch begins at the first moment, and is over at the second, with the result. -/
def Waits (a : Route) (x : Moment) (r : Except EvalError Unit) (y : Moment) : Prop :=
  ∃ x₁, x.Before x₁ ∧ x₁.machine = (waitFutures a [] none x.machine).2 ∧
    Held a (waitFutures a [] none x.machine).1 x₁ r y

theorem Held.before {state : Wait ⊕ Except EvalError Unit} {r : Except EvalError Unit} (h : Held a state x r y) :
    x.Before y := by
  induction h with
  | finished => exact .refl _
  | on hothers hsteps _ _ ih => exact (hothers.trans hsteps).trans ih

theorem Waits.before {r : Except EvalError Unit} (h : Waits a x r y) : x.Before y := by
  obtain ⟨x₁, hsteps, -, hheld⟩ := h
  exact hsteps.trans hheld.before

/-- A wait that goes on can be taken on later. -/
theorem Held.earlier {wait : Wait} {r : Except EvalError Unit} (h : Held a (.inl wait) y r z) (hx : x.Before y) :
    Held a (.inl wait) x r z := by
  cases h with
  | on hothers hsteps hm hrest => exact .on (hx.trans hothers) hsteps hm hrest

/-- Something has been done from its beginning to its end while the first moment has become the second. -/
def Meanwhile (x y : Moment) (done : Moment → Moment → Prop) : Prop :=
  ∃ x₁ y₁, x.Before x₁ ∧ done x₁ y₁ ∧ y₁.Before y

theorem Meanwhile.earlier {done : Moment → Moment → Prop} (h : y.Meanwhile z done) (hx : x.Before y) :
    x.Meanwhile z done := by
  obtain ⟨y₁, z₁, hbefore, hd, hafter⟩ := h
  exact ⟨y₁, z₁, hx.trans hbefore, hd, hafter⟩

/-- Machines evolve from one moment to a later one. -/
theorem Before.evolves (h : x.Before y) : x.machine.Evolves y.machine := by
  induction h with
  | refl => exact .refl _
  | tail _ hn ih =>
    obtain ⟨e, hs, -⟩ := hn
    exact ih.trans (evolves_step hs)

end Machine.Moment

open Machine (Moment)

/-! ## Programs -/

/-- A program on the branch at the base gets from the first moment to the answer at the second. -/
def Prog.Leads : {α : Type} → Prog α → Route → Moment → α → Moment → Prop
  | _, .done a, _, x, answer, y => answer = a ∧ y = x
  | _, .act op next, base, x, answer, y => ∃ x₁, x.Before x₁ ∧ x₁.machine = (x.machine.perform base op).2 ∧
    (next (x.machine.perform base op).1).Leads base x₁ answer y
  | _, .sleep _ next, base, x, answer, y => ∃ x₁, x.Before x₁ ∧ next.Leads base x₁ answer y
  | _, .spawn branch key future next, base, x, answer, y => ∃ x₁, x.Before x₁ ∧
    x₁.machine = x.machine.spawn (base ++ branch) key future ∧ next.Leads base x₁ answer y
  | _, .resolve _ _ next, base, x, answer, y => ∃ r x₁, x.Before x₁ ∧ (next r).Leads base x₁ answer y
  | _, .settle branch next, base, x, answer, y => ∃ r x₁, Moment.Waits (base ++ branch) x r x₁ ∧
    (next r).Leads base x₁ answer y
  | _, .all parts next, base, x, answer, y => ∃ r x₁, x.Before x₁ ∧
    Joint (fun i r => x.Meanwhile x₁ fun x y => (parts i).Leads base x r y) r ∧ (next r).Leads base x₁ answer y

namespace Prog

variable {α β : Type} {base branch : Route} {path : Path} {x y : Moment}

/-- The answer comes later. -/
theorem Leads.before {p : Prog α} {answer : α} (h : p.Leads base x answer y) : x.Before y := by
  induction p generalizing x with
  | done a => exact h.2 ▸ .refl x
  | act op next ih =>
    obtain ⟨x₁, hsteps, -, hnext⟩ := h
    exact hsteps.trans (ih _ hnext)
  | sleep ms next ih =>
    obtain ⟨x₁, hsteps, hnext⟩ := h
    exact hsteps.trans (ih hnext)
  | spawn branch key future next _ ih =>
    obtain ⟨x₁, hsteps, -, hnext⟩ := h
    exact hsteps.trans (ih hnext)
  | resolve branch key next ih =>
    obtain ⟨r, x₁, hsteps, hnext⟩ := h
    exact hsteps.trans (ih r hnext)
  | settle branch next ih =>
    obtain ⟨r, x₁, hwaits, hnext⟩ := h
    exact hwaits.before.trans (ih r hnext)
  | all parts next _ ih =>
    obtain ⟨r, x₁, hsteps, -, hnext⟩ := h
    exact hsteps.trans (ih r hnext)

/-- A program comes to what it leads to. -/
theorem comesTo_of_leads {p : Prog α} {answer : α} (h : p.Leads base x answer y) :
    p.ComesTo base x.machine answer y.machine := by
  induction p generalizing x y with
  | done a =>
    obtain ⟨rfl, rfl⟩ := h
    exact ⟨rfl, rfl⟩
  | act op next ih =>
    obtain ⟨x₁, -, hm, hnext⟩ := h
    have hcomes := ih _ hnext
    rwa [hm] at hcomes
  | sleep ms next ih =>
    obtain ⟨x₁, hsteps, hnext⟩ := h
    exact ⟨_, hsteps.evolves, ih hnext⟩
  | spawn branch key future next _ ih =>
    obtain ⟨x₁, -, hm, hnext⟩ := h
    have hcomes := ih hnext
    rwa [hm] at hcomes
  | resolve branch key next ih =>
    obtain ⟨r, x₁, hsteps, hnext⟩ := h
    exact ⟨r, _, hsteps.evolves, ih r hnext⟩
  | settle branch next ih =>
    obtain ⟨r, x₁, hwaits, hnext⟩ := h
    exact ⟨r, _, hwaits.before.evolves, ih r hnext⟩
  | all parts next ihparts ih =>
    obtain ⟨r, x₁, hsteps, hparts, hnext⟩ := h
    refine ⟨r, _, hsteps.evolves, hparts.imp fun i r hpart => ?_, ih r hnext⟩
    obtain ⟨x₂, y₂, hbefore, hleads, hafter⟩ := hpart
    exact ⟨_, _, hbefore.evolves, ihparts i hleads, hafter.evolves⟩

/-- **One program after another.** -/
theorem leads_bind {p : Prog α} {k : α → Prog β} {b : β} :
    (p.bind k).Leads base x b y ↔ ∃ a x₁, p.Leads base x a x₁ ∧ (k a).Leads base x₁ b y := by
  induction p generalizing x with
  | done a =>
    refine ⟨fun h => ⟨a, x, ⟨rfl, rfl⟩, h⟩, ?_⟩
    rintro ⟨_, _, ⟨rfl, rfl⟩, h⟩
    exact h
  | act op next ih =>
    simp only [Prog.bind, Leads, ih]
    constructor
    · rintro ⟨x₁, hsteps, hm, a, x₂, hp, hk⟩
      exact ⟨a, x₂, ⟨x₁, hsteps, hm, hp⟩, hk⟩
    · rintro ⟨a, x₂, ⟨x₁, hsteps, hm, hp⟩, hk⟩
      exact ⟨x₁, hsteps, hm, a, x₂, hp, hk⟩
  | sleep ms next ih =>
    simp only [Prog.bind, Leads, ih]
    constructor
    · rintro ⟨x₁, hsteps, a, x₂, hp, hk⟩
      exact ⟨a, x₂, ⟨x₁, hsteps, hp⟩, hk⟩
    · rintro ⟨a, x₂, ⟨x₁, hsteps, hp⟩, hk⟩
      exact ⟨x₁, hsteps, a, x₂, hp, hk⟩
  | spawn branch key future next _ ih =>
    simp only [Prog.bind, Leads, ih]
    constructor
    · rintro ⟨x₁, hsteps, hm, a, x₂, hp, hk⟩
      exact ⟨a, x₂, ⟨x₁, hsteps, hm, hp⟩, hk⟩
    · rintro ⟨a, x₂, ⟨x₁, hsteps, hm, hp⟩, hk⟩
      exact ⟨x₁, hsteps, hm, a, x₂, hp, hk⟩
  | resolve branch key next ih =>
    simp only [Prog.bind, Leads, ih]
    constructor
    · rintro ⟨r, x₁, hsteps, a, x₂, hp, hk⟩
      exact ⟨a, x₂, ⟨r, x₁, hsteps, hp⟩, hk⟩
    · rintro ⟨a, x₂, ⟨r, x₁, hsteps, hp⟩, hk⟩
      exact ⟨r, x₁, hsteps, a, x₂, hp, hk⟩
  | settle branch next ih =>
    simp only [Prog.bind, Leads, ih]
    constructor
    · rintro ⟨r, x₁, hwaits, a, x₂, hp, hk⟩
      exact ⟨a, x₂, ⟨r, x₁, hwaits, hp⟩, hk⟩
    · rintro ⟨a, x₂, ⟨r, x₁, hwaits, hp⟩, hk⟩
      exact ⟨r, x₁, hwaits, a, x₂, hp, hk⟩
  | all parts next _ ih =>
    simp only [Prog.bind, Leads, ih]
    constructor
    · rintro ⟨r, x₁, hsteps, hparts, a, x₂, hp, hk⟩
      exact ⟨a, x₂, ⟨r, x₁, hsteps, hparts, hp⟩, hk⟩
    · rintro ⟨a, x₂, ⟨r, x₁, hsteps, hparts, hp⟩, hk⟩
      exact ⟨r, x₁, hsteps, hparts, a, x₂, hp, hk⟩

section Failing

variable {ε : Type} {b : β}

/-- A program that may fail and what comes after it have got to a value: so has the program, and then the rest. -/
theorem leads_andThen {p : Prog (Except ε α)} {f : α → Prog (Except ε β)} :
    (ExceptT.run (ExceptT.mk p >>= fun a => ExceptT.mk (f a))).Leads base x (.ok b) y ↔
      ∃ a x₁, p.Leads base x (.ok a) x₁ ∧ (f a).Leads base x₁ (.ok b) y := by
  refine leads_bind.trans ⟨?_, ?_⟩
  · rintro ⟨r, x₁, hp, hf⟩
    cases r with
    | ok a => exact ⟨a, x₁, hp, hf⟩
    | error e => cases hf.1
  · rintro ⟨a, x₁, hp, hf⟩
    exact ⟨.ok a, x₁, hp, hf⟩

/-- A program that cannot fail, and what comes after it. -/
theorem leads_andThenLift {p : Prog α} {f : α → Prog (Except ε β)} {r : Except ε β} :
    (ExceptT.run (ExceptT.lift p >>= fun a => ExceptT.mk (f a))).Leads base x r y ↔
      ∃ a x₁, p.Leads base x a x₁ ∧ (f a).Leads base x₁ r y := by
  have heq : ExceptT.run (ExceptT.lift p >>= fun a => ExceptT.mk (f a)) = p.bind f := bind_assoc p _ _
  rw [heq]
  exact leads_bind

/-- A program that may fail, and a change of its answer. -/
theorem leads_map {p : Prog (Except ε α)} {f : α → β} :
    (p.bind fun r => .done (r.map f)).Leads base x (.ok b) y ↔ ∃ a, p.Leads base x (.ok a) y ∧ b = f a := by
  refine leads_bind.trans ⟨?_, ?_⟩
  · rintro ⟨r, x₁, hp, hb, rfl⟩
    cases r with
    | ok a => exact ⟨a, hp, Except.ok.inj hb⟩
    | error e => cases hb
  · rintro ⟨a, hp, rfl⟩
    exact ⟨.ok a, y, hp, rfl, rfl⟩

/-- What is wrapped has got to its value by itself. -/
theorem leads_wrapping {p : Prog (Except EvalError α)} {answer : α} :
    (Prog.wrapping branch path p).Leads base x (.ok answer) y ↔ p.Leads base x (.ok answer) y := by
  refine leads_bind.trans ⟨?_, fun h => ⟨_, _, h, rfl, rfl⟩⟩
  rintro ⟨r, x₁, hp, hr⟩
  cases r with
  | ok answer' =>
    obtain ⟨heq, rfl⟩ := hr
    cases heq
    exact hp
  | error e =>
    obtain ⟨_, _, _, heq, -⟩ := leads_bind.1 hr
    cases heq

end Failing

end Prog

end MediaQuery
