import MediaQuery.Program.Context
import MediaQuery.Proofs.Machine.Evolves

/-!
# Programs that are safe whatever else happens

Between two operations of a program other programs run on the same machine. `Prog.Safe` says that a program comes to an
end as asked for (`post`) in spite of that: at every operation the machine may have become any machine that evolves from
of the one before. Failures that a program waits for are those that the branch's futures may report (`permits`), and
the futures it starts itself report no others. Safety lasts (`Safe.mono`), and programs are safe one after another
(`Safe.bind`) and on branches further down (`Safe.under`).
-/

namespace MediaQuery

/-- An answer that is good, or a failure of the given kind. -/
def Meets {ε α : Type} (kind : Machine → ε → Prop) (good : Machine → α → Prop) (m : Machine) : Except ε α → Prop
  | .ok a => good m a
  | .error e => kind m e

/-- Any answer, or a failure of the given kind. -/
def FailsWith {ε α : Type} (kind : Machine → ε → Prop) : Machine → Except ε α → Prop := Meets kind fun _ _ => True

/-- The failures that the futures of a branch may report, as seen from that branch, where `permits` has them as seen
from the root. -/
def reports (permits : Machine → Route → EvalError → Prop) (home : Route) (m : Machine) (e : EvalError) : Prop :=
  permits m home (e.under home)

/-- A program on the branch at the base, started on the machine or on any that evolves from it, which comes to an end
as asked for. -/
def Prog.Safe (permits : Machine → Route → EvalError → Prop) :
    {α : Type} → Prog α → Route → Machine → (Machine → α → Prop) → Prop
  | _, .done a, _, m, post => ∀ m', m.Evolves m' → post m' a
  | _, .act op next, base, m, post =>
    ∀ m', m.Evolves m' → (next (m'.perform base op).1).Safe permits base (m'.perform base op).2 post
  | _, .sleep _ next, base, m, post => next.Safe permits base m post
  | _, .spawn branch _ future next, base, m, post =>
    future.Safe permits (base ++ branch) m (FailsWith (reports permits (base ++ branch))) ∧
      next.Safe permits base m post
  | _, .resolve _ _ next, base, m, post => ∀ m' r, m.Evolves m' → (next r).Safe permits base m' post
  | _, .settle branch next, base, m, post =>
    ∀ m' r, m.Evolves m' → FailsWith (reports permits (base ++ branch)) m' r → (next r).Safe permits base m' post
  | _, .all parts next, base, m, post => ∃ kind : Machine → ExecutionError → Prop,
    (∀ i, (parts i).Safe permits base m (FailsWith kind)) ∧
      ∀ m' r, m.Evolves m' → FailsWith kind m' r → (next r).Safe permits base m' post

namespace Prog

variable {permits : Machine → Route → EvalError → Prop} {α β : Type} {base : Route} {m m' : Machine}
  {post : Machine → α → Prop} {post' : Machine → β → Prop}

/-- Safety lasts. -/
theorem Safe.mono {p : Prog α} (h : p.Safe permits base m post) (hg : m.Evolves m') : p.Safe permits base m' post := by
  induction p generalizing base with
  | done a => exact fun m'' hg' => h m'' (hg.trans hg')
  | act op next => exact fun m'' hg' => h m'' (hg.trans hg')
  | sleep ms next ih => exact ih h
  | spawn branch key future next ihf ih => exact ⟨ihf h.1, ih h.2⟩
  | resolve branch key next => exact fun m'' r hg' => h m'' r (hg.trans hg')
  | settle branch next => exact fun m'' r hg' => h m'' r (hg.trans hg')
  | all parts next ihp =>
    obtain ⟨kind, hparts, hnext⟩ := h
    exact ⟨kind, fun i => ihp i (hparts i), fun m'' r hg' => hnext m'' r (hg.trans hg')⟩

/-- What is asked for can be weakened. -/
theorem Safe.imp {p : Prog α} {post' : Machine → α → Prop} (h : p.Safe permits base m post)
    (hpost : ∀ m' a, m.Evolves m' → post m' a → post' m' a) : p.Safe permits base m post' := by
  induction p generalizing base m with
  | done a => exact fun m' hg => hpost m' a hg (h m' hg)
  | act op next ih =>
    intro m' hg
    have hdone := hg.trans (Machine.evolves_perform m' base op)
    exact ih _ (h m' hg) fun m'' a hg' => hpost m'' a (hdone.trans hg')
  | sleep ms next ih => exact ih h hpost
  | spawn branch key future next _ ih => exact ⟨h.1, ih h.2 hpost⟩
  | resolve branch key next ih => exact fun m' r hg => ih r (h m' r hg) fun m'' a hg' => hpost m'' a (hg.trans hg')
  | settle branch next ih =>
    exact fun m' r hg hr => ih r (h m' r hg hr) fun m'' a hg' => hpost m'' a (hg.trans hg')
  | all parts next _ ih =>
    obtain ⟨kind, hparts, hnext⟩ := h
    exact ⟨kind, hparts, fun m' r hg hr => ih r (hnext m' r hg hr) fun m'' a hg' => hpost m'' a (hg.trans hg')⟩

/-- One program after another. -/
theorem Safe.bind {p : Prog α} {k : α → Prog β} (h : p.Safe permits base m post)
    (hk : ∀ m' a, m.Evolves m' → post m' a → (k a).Safe permits base m' post') :
    (p.bind k).Safe permits base m post' := by
  induction p generalizing m with
  | done a => exact hk m a (.refl m) (h m (.refl m))
  | act op next ih =>
    intro m' hg
    have hdone := hg.trans (Machine.evolves_perform m' base op)
    exact ih _ (h m' hg) fun m'' a hg' => hk m'' a (hdone.trans hg')
  | sleep ms next ih => exact ih h hk
  | spawn branch key future next _ ih => exact ⟨h.1, ih h.2 hk⟩
  | resolve branch key next ih => exact fun m' r hg => ih r (h m' r hg) fun m'' a hg' => hk m'' a (hg.trans hg')
  | settle branch next ih =>
    exact fun m' r hg hr => ih r (h m' r hg hr) fun m'' a hg' => hk m'' a (hg.trans hg')
  | all parts next _ ih =>
    obtain ⟨kind, hparts, hnext⟩ := h
    exact ⟨kind, hparts, fun m' r hg hr => ih r (hnext m' r hg hr) fun m'' a hg' => hk m'' a (hg.trans hg')⟩

theorem perform_under (m : Machine) (base route : Route) (op : Op α) :
    m.perform base (op.under route) = m.perform (base ++ route) op := by
  cases op <;> simp only [Op.under, Machine.perform, List.append_assoc]

/-- A program on a branch further down. -/
theorem Safe.under {p : Prog α} {route : Route} (h : p.Safe permits (base ++ route) m post) :
    (p.under route).Safe permits base m post := by
  induction p generalizing m with
  | done a => exact h
  | act op next ih =>
    intro m' hg
    rw [perform_under]
    exact ih _ (h m' hg)
  | sleep ms next ih => exact ih h
  | spawn branch key future next _ ih =>
    obtain ⟨hfuture, hnext⟩ := h
    rw [List.append_assoc] at hfuture
    exact ⟨hfuture, ih hnext⟩
  | resolve branch key next ih => exact fun m' r hg => ih r (h m' r hg)
  | settle branch next ih =>
    intro m' r hg hr
    rw [← List.append_assoc] at hr
    exact ih r (h m' r hg hr)
  | all parts next ihp ih =>
    obtain ⟨kind, hparts, hnext⟩ := h
    exact ⟨kind, fun i => ihp i (hparts i), fun m' r hg hr => ih r (hnext m' r hg hr)⟩

/-- An operation. -/
theorem safe_perform {P : Machine → α → Prop} (op : Op α)
    (h : ∀ m', m.Evolves m' → ∀ m'', (m'.perform base op).2.Evolves m'' → P m'' (m'.perform base op).1) :
    (perform op).Safe permits base m P :=
  fun m' hg m'' hg' => h m' hg m'' hg'

/-- An operation whose answer does not matter. -/
theorem safe_operation (op : Op α) : (perform op).Safe permits base m fun m' _ => m.Evolves m' :=
  safe_perform op fun m' hg _ hg' => hg.trans ((Machine.evolves_perform m' base op).trans hg')

section Failing

variable {ε : Type} {kind : Machine → ε → Prop} {good : Machine → α → Prop} {good' : Machine → β → Prop}

/-- A program that may fail, and what comes after it if it does not. -/
theorem Safe.andThen {p : Prog (Except ε α)} {f : α → Prog (Except ε β)}
    (hp : p.Safe permits base m (Meets kind good))
    (hf : ∀ m' a, m.Evolves m' → good m' a → (f a).Safe permits base m' (Meets kind good'))
    (hkind : ∀ m m' e, m.Evolves m' → kind m e → kind m' e) :
    (ExceptT.run (ExceptT.mk p >>= fun a => ExceptT.mk (f a))).Safe permits base m (Meets kind good') := by
  refine Safe.bind hp fun m' r hg hr => ?_
  cases r with
  | ok a => exact hf m' a hg hr
  | error e => exact fun m'' hg' => hkind m' m'' e hg' hr

/-- A program that cannot fail, and what comes after it. -/
theorem Safe.andThenLift {p : Prog α} {f : α → Prog (Except ε β)} (hp : p.Safe permits base m post)
    (hf : ∀ m' a, m.Evolves m' → post m' a → (f a).Safe permits base m' (Meets kind good')) :
    (ExceptT.run (ExceptT.lift p >>= fun a => ExceptT.mk (f a))).Safe permits base m (Meets kind good') := by
  have heq : ExceptT.run (ExceptT.lift p >>= fun a => ExceptT.mk (f a)) = p.bind f := bind_assoc p _ _
  rw [heq]
  exact Safe.bind hp hf

/-- A program that may fail, and a change of its answer. -/
theorem Safe.mapOk {p : Prog (Except ε α)} {f : α → β} (hp : p.Safe permits base m (Meets kind good))
    (hgood : ∀ m m' a, m.Evolves m' → good m a → good' m' (f a))
    (hkind : ∀ m m' e, m.Evolves m' → kind m e → kind m' e) :
    (p.bind fun r => .done (r.map f)).Safe permits base m (Meets kind good') := by
  refine Safe.bind hp fun m' r _ hr => ?_
  intro m'' hg
  cases r with
  | ok a => exact hgood m' m'' a hg hr
  | error e => exact hkind m' m'' e hg hr

/-- Programs side by side. -/
theorem safe_parallel {parts : List (Prog (Except ExecutionError β))} {kind : Machine → ExecutionError → Prop}
    (h : ∀ p ∈ parts, p.Safe permits base m (FailsWith kind)) (hkind : ∀ m m' e, m.Evolves m' → kind m e → kind m' e) :
    (parallel parts).Safe permits base m (FailsWith kind) := by
  refine ⟨kind, fun i => h _ (List.get_mem parts i), fun m' r _ hr => ?_⟩
  intro m'' hg
  cases r with
  | ok values => trivial
  | error e => exact hkind m' m'' e hg hr

end Failing

/-- A fork is there from then on. -/
theorem safe_fork {branch : Route} (options : ForkOptions) (hbranch : m.Hosted (base ++ branch)) :
    (fork branch options).Safe permits base m fun m' own => m.Evolves m' ∧ m'.Kin (base ++ branch) (base ++ own) := by
  intro m₁ hg₁ m₂ hg₂
  have hkin := ((hbranch.evolves hg₁).fork options).1
  rw [List.append_assoc] at hkin
  exact ⟨hg₁.trans ((Machine.evolves_perform m₁ base (.fork branch options)).trans hg₂), hkin.evolves hg₂⟩

/-- Setting several keys. -/
theorem safe_setAll (branch : Route) (values : List (String × Value)) :
    (setAll branch values).Safe permits base m fun m' _ => m.Evolves m' := by
  induction values generalizing m with
  | nil => exact fun _ hg => hg
  | cons e rest ih =>
    exact (safe_operation (.set branch e.1 e.2)).bind fun _ _ _ hg => Safe.imp ih fun _ _ _ hg' => hg.trans hg'

end Prog

end MediaQuery
