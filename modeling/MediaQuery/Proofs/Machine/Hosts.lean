import MediaQuery.Proofs.Machine.Inside
import MediaQuery.Proofs.Machine.Recorded

/-!
# Hosts and guests

A machine hosts another one (`Hosts`) if that is found below a place and nothing else that runs uses what is below
the place. A future of the host that is taken on is either one of the machine inside, and then the machine inside
takes it on too, or it leaves the machine inside as it is (`Hosts.runQueue`).
-/

namespace MediaQuery.Machine

variable {place : Route} {m m' l l' : Machine}

/-- One machine is found below a place of another, and what else runs there keeps away from the place. -/
structure Hosts (place : Route) (m l : Machine) : Prop where
  mirrors : Mirrors place m l
  there : (m.node? place).isSome = true
  guests : ∀ f ∈ m.futures, Away place f.id.home → ∀ run, f.state = .running run →
    run.Uses (Away place) f.id.home fun _ => True

/-- What happens elsewhere leaves the machine inside as it is. -/
theorem Hosts.elsewhere (h : Hosts place m l) (hc : Confined (Away place) m m') : Hosts place m' l := by
  refine ⟨h.mirrors.confined hc (fun _ hx => hx) h.there, hc.grows _ h.there, fun f hf haway run hs => ?_⟩
  rcases hc.guests f hf run hs with ⟨g, hg, hid, hgs⟩ | ⟨-, huses⟩
  · rw [← hid] at haway ⊢
    exact h.guests g hg haway run hgs
  · exact huses

/-- What happens below the place leaves the guests as they are. -/
theorem Hosts.inside (h : Hosts place m l) (hm : Mirrors place m' l') (hc : Confined (place <+: ·) m m') :
    Hosts place m' l' := by
  refine ⟨hm, hc.grows _ h.there, fun f hf haway => ?_⟩
  have hsame := hc.futures (fun x => decide (Away place x)) fun x hx => decide_eq_false (not_not_intro hx)
  have hmem : f ∈ m'.futures.filter fun f => decide (Away place f.id.home) :=
    List.mem_filter.2 ⟨hf, decide_eq_true haway⟩
  rw [hsame] at hmem
  exact h.guests f (List.mem_of_mem_filter hmem) haway

theorem Hosts.enqueue (h : Hosts place m l) : Hosts place m.enqueue l.enqueue :=
  ⟨mirrors_enqueue h.mirrors, h.there, h.guests⟩

theorem Hosts.advanceTo (h : Hosts place m l) (t : Nat) : Hosts place (m.advanceTo t) (l.advanceTo t) :=
  ⟨h.mirrors.advanceTo t, h.there, h.guests⟩

/-! ## Taking futures on -/

/-- A future that is taken on leaves alone what its run does not use. -/
theorem confined_takeOn {T : Route → Prop} {f : Future} {run : Run (Except EvalError Value)} (hT : m.Settled T)
    (ha : T f.id.home) (hr : run.Uses T f.id.home fun _ => True) : Confined T m (m.takeOn f run) :=
  (upheld_confined T).takeOn hT ha hr

/-- A future of the machine inside is taken on in both machines. -/
theorem mirrors_takeOn (h : Mirrors place m l) {f f' : Future} (hf : f.Alike place f')
    {run run' : Run (Except EvalError Value)} (hr : run.Alike place [] (SameResult (EvalError.Like []) Eq) run') :
    Mirrors place (m.takeOn f run) (l.takeOn f' run') := by
  have hbusy : Mirrors place (m.setFuture f.id .busy) (l.setFuture f'.id .busy) := by
    rw [hf.id]
    exact mirrors_setFuture h f'.id .busy
  have hhome : f.id.home ++ [] = place ++ f'.id.home := by
    rw [List.append_nil, hf.id]
    rfl
  obtain ⟨hrun, hafter⟩ := mirrors_resume hr hbusy hhome
  exact mirrors_keep hafter hf.id hf.key hrun

/-- The head of a queue that is taken off leaves the machine inside as it is, or is the head of its queue. -/
theorem Hosts.tail_elsewhere (h : Hosts place m l) {id : FutureId} {rest : List FutureId}
    (hr : m.ready = id :: rest) (hid : Away place id.home) : Hosts place { m with ready := rest } l := by
  refine ⟨⟨h.mirrors.node, h.mirrors.inputs, h.mirrors.futures, ?_, h.mirrors.clock⟩, h.there, h.guests⟩
  have hready := h.mirrors.ready
  rwa [hr, List.filter_cons_of_neg (by simpa using hid)] at hready

theorem Hosts.tail_inside (h : Hosts place m l) {id : FutureId} {rest : List FutureId}
    (hr : m.ready = id :: rest) (hid : place <+: id.home) :
    ∃ id' rest', l.ready = id' :: rest' ∧ id = id'.shift place ∧
      Hosts place { m with ready := rest } { l with ready := rest' } := by
  have hready := h.mirrors.ready
  rw [hr, List.filter_cons_of_pos (by simpa using hid)] at hready
  obtain ⟨id', rest', hl, hid', hrest⟩ := List.map_eq_cons_iff.1 hready.symm
  exact ⟨id', rest', hl, hid'.symm,
    ⟨⟨h.mirrors.node, h.mirrors.inputs, h.mirrors.futures, hrest.symm, h.mirrors.clock⟩, h.there, h.guests⟩⟩

/-- **The head of the queue belongs to the machine inside, which then takes it on too, or it leaves that machine as
it is.** -/
theorem Hosts.runQueue (h : Hosts place m l) (ho : Orderly m) {id : FutureId} {rest : List FutureId}
    (hr : m.ready = id :: rest) (hm : runQueue m.ready m = some m') :
    ∃ l', Hosts place m' l' ∧ (l' = l ∨ Machine.runQueue l.ready l = some l') := by
  obtain ⟨f, run, m₁, hf, hs, -, hrun, hq⟩ := ho.runQueue_of_head hr
  cases hm.symm.trans hq
  obtain rfl := id_of_future? hf
  rw [runFuture_eq hs hrun]
  by_cases hbelow : place <+: f.id.home
  · obtain ⟨id', rest', hr', hid, htail⟩ := h.tail_inside hr hbelow
    obtain ⟨f', run', l', hf', hs', -, hrun', hq'⟩ := (h.mirrors.orderly ho).runQueue_of_head hr'
    have halike : f.Alike place f' := by
      rcases rel_cases (h.mirrors.future? id') with ⟨-, hn⟩ | ⟨g, g', hg, hg', halike⟩
      · cases hf'.symm.trans hn
      · rw [← hid] at hg
        cases hf.symm.trans hg
        cases hf'.symm.trans hg'
        exact halike
    have hstate := halike.state
    rw [hs, hs'] at hstate
    obtain ⟨_, heq, hr⟩ := running_of_left hstate
    cases heq
    refine ⟨l', ?_, .inr hq'⟩
    rw [runFuture_eq hs' hrun']
    refine (htail.inside (mirrors_takeOn htail.mirrors halike hr) ?_).enqueue
    exact confined_takeOn (settled_below place _) hbelow ((hr.uses (by simpa using hbelow)).mono (fun _ h => h)
      (fun _ _ h => h.trans (List.prefix_append _ _)) fun _ _ => trivial)
  · have htail := h.tail_elsewhere hr hbelow
    refine ⟨l, ?_, .inl rfl⟩
    rw [← (h.mirrors.orderly ho).enqueue_eq]
    refine (htail.elsewhere ?_).enqueue
    exact confined_takeOn (settled_away htail.there) hbelow (h.guests f (List.mem_of_find?_eq_some hf) hbelow run hs)

end MediaQuery.Machine
