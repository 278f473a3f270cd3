import MediaQuery.Proofs.Machine.Turns
import MediaQuery.Proofs.Template.Below

/-!
# What whole runs leave alone

A program that uses some branches only leaves the others as they are. If all futures keep to these branches too
(`Heeds`), so does a whole run: every step of a turn leaves the others what they hold and starts no futures there
(`Aside`, `maintained_staying`), and so do all turns (`aside_run`).
-/

namespace MediaQuery.Machine

variable {T : Route → Prop} {m m' m'' : Machine} {α : Type} {Q : α → Prop} {run run' : Run α}

/-- All futures are at home on some branches, and those that run use no others. -/
structure Heeds (T : Route → Prop) (m : Machine) : Prop where
  home : ∀ f ∈ m.futures, T f.id.home
  uses : ∀ f ∈ m.futures, ∀ run, f.state = .running run → run.Uses T f.id.home fun _ => True

theorem Heeds.confined (h : m.Heeds T) (hc : Confined T m m') : m'.Heeds T := by
  classical
  refine ⟨fun f hf => ?_, fun f hf run hrun => ?_⟩
  · by_contra hoff
    have hsame := hc.futures (fun x => decide (¬ T x)) fun x hx => decide_eq_false (not_not_intro hx)
    have hmem : f ∈ m'.futures.filter fun f => decide (¬ T f.id.home) := List.mem_filter.2 ⟨hf, decide_eq_true hoff⟩
    rw [hsame] at hmem
    exact hoff (h.home f (List.mem_of_mem_filter hmem))
  · rcases hc.guests f hf run hrun with ⟨g, hg, hid, hgs⟩ | ⟨-, huses⟩
    · exact hid ▸ h.uses g hg run hgs
    · exact huses

/-- Branches stay, the futures keep to some of them, and the others hold what they have held. -/
structure Aside (T : Route → Prop) (m m' : Machine) : Prop where
  grows : m.Grows m'
  heeds : m'.Heeds T
  store : ∀ a, ¬ T a → m'.store a = m.store a

theorem Aside.refl (h : m.Heeds T) : Aside T m m := ⟨fun _ ha => ha, h, fun _ _ => rfl⟩

theorem Aside.trans (h : Aside T m m') (h' : Aside T m' m'') : Aside T m m'' :=
  ⟨fun a ha => h'.grows a (h.grows a ha), h'.heeds, fun a ha => (h'.store a ha).trans (h.store a ha)⟩

theorem aside_of_confined (h : m.Heeds T) (hc : Confined T m m') : Aside T m m' :=
  ⟨hc.grows, h.confined hc, fun _ ha => hc.store_eq ha⟩

/-- Queue and clock are no matter. -/
theorem Heeds.congr (h : m.Heeds T) (hf : m'.futures = m.futures) : m'.Heeds T :=
  ⟨fun f hmem => h.home f (hf ▸ hmem), fun f hmem => h.uses f (hf ▸ hmem)⟩

/-! ## Whole runs -/

/-- The main program uses some branches only, as do all futures. -/
structure Staying (T : Route → Prop) (Q : α → Prop) (run : Run α) (m : Machine) : Prop where
  heeds : m.Heeds T
  settled : m.Settled T
  uses : run.Uses T [] Q

theorem Staying.after (h : Staying T Q run m) (ha : Aside T m m') (hr : run'.Uses T [] Q) :
    Aside T m m' ∧ Staying T Q run' m' := ⟨ha, ha.heeds, h.settled.grows ha.grows, hr⟩

/-- Queue and clock are no matter either. -/
theorem Aside.congr (h : Aside T m m') (ht : m''.tree = m'.tree) (hf : m''.futures = m'.futures) : Aside T m m'' := by
  obtain ⟨_, _, _, _⟩ := m'
  obtain ⟨_, _, _, _⟩ := m''
  cases ht
  exact ⟨h.grows, h.heeds.congr hf, h.store⟩

/-- **Every step of a turn leaves the other branches alone.** -/
theorem maintained_staying (T : Route → Prop) (Q : α → Prop) : Maintained (Staying T Q) (Aside T) where
  refl h := .refl h.heeds
  trans := .trans
  idle h _ _ := h.after ((Aside.refl h.heeds).congr rfl rfl) h.uses
  resume h := by
    obtain ⟨hconfined, huses⟩ := confined_resume h.uses h.settled
    exact h.after (aside_of_confined h.heeds hconfined) huses
  future {run m m' id f} h hf hm := by
    have hmem := List.mem_of_find?_eq_some hf
    obtain ⟨taken, hrun, rfl⟩ := running_of_runFuture hm
    have hconfined := confined_takeOn h.settled (h.heeds.home f hmem) (h.heeds.uses f hmem taken hrun)
    exact h.after ((aside_of_confined h.heeds hconfined).congr rfl rfl) h.uses

/-- **A whole run leaves alone the branches that neither the program nor a future uses.** -/
theorem aside_run (h : m.Heeds T) (hT : m.Settled T) {p : Prog α} (hp : p.Uses T [] Q) : Aside T m (m.run p).2 := by
  obtain ⟨hconfined, huses⟩ := confined_start hp hT
  have haside := aside_of_confined h hconfined
  have hstarted : Staying T Q (p.start [] m).1 (p.start [] m).2 := ⟨haside.heeds, hT.grows haside.grows, huses⟩
  obtain ⟨-, -, hdriven, -⟩ := (maintained_staying T Q).drive hstarted
  exact haside.trans hdriven

end MediaQuery.Machine
