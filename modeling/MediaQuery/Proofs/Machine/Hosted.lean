import MediaQuery.Proofs.Machine.Lone

/-!
# Whole runs below a place

A program that runs below a place of one machine, and the one it is like on the machine found there, come to the same
(`Hosts.together`): their answers are related, and the machine is still found there. Whoever else runs keeps away from the
place, and takes turns in between.
-/

namespace MediaQuery.Machine

variable {inputs : Inputs} {past : List Event} {place : Route} {m m₁ l l' : Machine} {α : Type} {R : α → α → Prop}
  {run run₁ run' : Run α} {x : Option α × Machine}

/-- Both have come to related answers, the second on the machine below the place, or to none. -/
inductive Together (place : Route) (R : α → α → Prop) : Option α × Machine → Option α × Machine → Prop
  | ended {a a' : α} {m l : Machine} (h : R a a') (hm : Hosts place m l) : Together place R (some a, m) (some a', l)
  | stuck (m l : Machine) : Together place R (none, m) (none, l)

/-- What a waiting run comes to depends on its next turn. -/
theorem Together.congr (h : Together place R x (drive run' l')) (hr : run'.result? = none)
    (ht : turn run' l' = turn run' l) : Together place R x (drive run' l) := by
  cases hnext : turn run' l with
  | none =>
    rw [drive_of_stuck hr (ht.trans hnext)] at h
    cases h
    rw [drive_of_stuck hr hnext]
    exact .stuck _ l
  | some next => rwa [drive_of_turn hr hnext, ← drive_of_turn hr (ht.trans hnext)]

/-! ## Turns -/

theorem result?_of_alike (h : run.Alike place place R run') (hr : run.result? = none) : run'.result? = none := by
  have hsame := h.isSome_result?
  rw [hr, Option.isSome_none] at hsame
  exact Option.isNone_iff_eq_none.1 (Option.isSome_eq_false_iff.1 hsame.symm)

/-- What is dispatched is the run itself, which then goes on alone as well, or a future beside it or below it. -/
theorem Hosts.dispatch (h : Hosts place m l) (hp : run.Alike place place R run') (hr : run.result? = none)
    (ho : Orderly m) (hd : dispatch run m = some (run₁, m₁)) :
    ∃ run₁' l₁, Hosts place m₁ l₁ ∧ run₁.Alike place place R run₁' ∧ drive run₁' l₁ = drive run' l := by
  have hr' := result?_of_alike hp hr
  cases hready : m.ready with
  | cons id rest =>
    obtain ⟨f, future, m₂, -, -, -, -, hq⟩ := ho.runQueue_of_head hready
    obtain ⟨l₁, hm, hl⟩ := h.runQueue ho hready hq
    unfold Machine.dispatch at hd
    rw [hq] at hd
    cases hd
    refine ⟨run', l₁, hm, hp, ?_⟩
    rcases hl with rfl | hl
    · rfl
    · have hdispatch : Machine.dispatch run' l = some (run', l₁) := by
        unfold Machine.dispatch
        rw [hl]
      rw [drive_of_turn hr' (turn_of_dispatch hdispatch)]
  | nil =>
    rw [dispatch_of_empty hready] at hd
    split at hd
    · next hgo =>
      have hgo' : run'.isReady l = true := isReady_alike hp h.mirrors ▸ hgo
      have hbase : [] ++ place = place ++ [] := (List.append_nil place).symm
      obtain ⟨halike, hafter⟩ := mirrors_resume hp h.mirrors hbase
      have huses : run.Uses (place <+: ·) [] _ := hp.uses List.prefix_rfl
      have hinside := h.inside hafter (confined_resume huses (settled_below place m)).1
      have hdispatch : Machine.dispatch run' l = some (run'.resume [] l) := by
        rw [dispatch_of_empty (h.mirrors.ready_eq_nil hready), if_pos hgo']
      rw [Option.some.inj hd] at halike hinside
      exact ⟨_, _, hinside, halike, (drive_of_turn hr' (turn_of_dispatch hdispatch)).symm⟩
    · cases hd

/-- Where nothing can be dispatched nothing can be dispatched alone. -/
theorem Hosts.dispatch_eq_none (h : Hosts place m l) (hp : run.Alike place place R run') (ho : Orderly m)
    (hd : Machine.dispatch run m = none) : Machine.dispatch run' l = none := by
  obtain ⟨hready, hidle⟩ := ho.dispatch_eq_none hd
  rw [isReady_alike hp h.mirrors] at hidle
  rw [dispatch_of_empty (h.mirrors.ready_eq_nil hready), hidle]
  rfl

theorem Hosts.nextWake?_le (h : Hosts place m l) (hp : run.Alike place place R run') {w : Nat}
    (hw : nextWake? run' l = some w) : ∃ least, nextWake? run m = some least ∧ least ≤ w :=
  h.mirrors.nextWake?_le (fun w hrun => ⟨w, (wake?_alike hp).trans hrun, Nat.le_refl w⟩) hw

/-- **A turn is at most one turn alone.** -/
theorem Hosts.turn (h : Hosts place m l) (hp : run.Alike place place R run') (hr : run.result? = none)
    (ho : Orderly m) (ht : turn run m = some (run₁, m₁)) :
    ∃ run₁' l₁, Hosts place m₁ l₁ ∧ run₁.Alike place place R run₁' ∧
      ∀ x, Together place R x (drive run₁' l₁) → Together place R x (drive run' l) := by
  cases hd : Machine.dispatch run m with
  | some next =>
    rw [turn_of_dispatch hd] at ht
    cases ht
    obtain ⟨run₁', l₁, hm, halike, hdrive⟩ := h.dispatch hp hr ho hd
    exact ⟨run₁', l₁, hm, halike, fun x hx => hdrive ▸ hx⟩
  | none =>
    rw [turn_of_idle hd] at ht
    obtain ⟨t, hw, hd'⟩ := Option.bind_eq_some_iff.1 ht
    have hle := Nat.le_of_lt (ho.clock_lt_nextWake hd hw)
    obtain ⟨run₁', l₁, hm, halike, hdrive⟩ := (h.advanceTo t).dispatch hp hr (ho.toTidy.tick hle).enqueue hd'
    refine ⟨run₁', l₁, hm, halike, fun x hx => ?_⟩
    rw [hdrive] at hx
    -- alone the clock is moved on no further than to the next sleep to end
    refine hx.congr (result?_of_alike hp hr) ((h.mirrors.orderly ho).turn_advanceTo (h.dispatch_eq_none hp ho hd)
      (h.mirrors.clock ▸ hle) fun w hw' => ?_)
    obtain ⟨least, hleast, hle'⟩ := h.nextWake?_le hp hw'
    cases hw.symm.trans hleast
    exact hle'

/-- Where there is no turn there is none alone. -/
theorem Hosts.turn_eq_none (h : Hosts place m l) (hp : run.Alike place place R run') (ho : Orderly m)
    (ht : Machine.turn run m = none) : Machine.turn run' l = none := by
  have hd : Machine.dispatch run m = none := by
    cases hd : Machine.dispatch run m with
    | none => rfl
    | some next => cases ht.symm.trans (turn_of_dispatch hd)
  rw [turn_of_idle (h.dispatch_eq_none hp ho hd)]
  refine Option.bind_eq_none_iff.2 fun w hw => ?_
  obtain ⟨least, hleast, -⟩ := h.nextWake?_le hp hw
  have hsome := ho.dispatch_advanceTo hd hleast
  rw [turn_of_idle hd, hleast, Option.bind_some] at ht
  rw [ht] at hsome
  cases hsome

/-! ## Runs -/

theorem Hosts.drive (h : Hosts place m l) (hp : run.Alike place place R run') (hs : Steady inputs past m)
    (hw : run.Watched past []) : Together place R (drive run m) (drive run' l) := by
  -- along the turns
  induction run, m using drive.induct generalizing past run' l with
  | case1 run m a hr =>
    have hresult := hp.result?
    rw [hr] at hresult
    cases hr' : run'.result? with
    | none =>
      rw [hr'] at hresult
      cases hresult
    | some a' =>
      rw [hr'] at hresult
      cases hresult with
      | some ha =>
        rw [drive_of_result hr, drive_of_result hr']
        exact .ended ha h
  | case2 run m hr run₁ m₁ ht ih =>
    obtain ⟨past', hs', hw'⟩ := steady_turn hs hw ht
    obtain ⟨run₁', l₁, hm, halike, htogether⟩ := h.turn hp hr hs.toOrderly ht
    rw [drive_of_turn hr ht]
    exact htogether _ (ih hm halike hs' hw')
  | case3 run m hr ht =>
    rw [drive_of_stuck hr ht, drive_of_stuck (result?_of_alike hp hr) (h.turn_eq_none hp hs.toOrderly ht)]
    exact .stuck m l

/-- **What runs below the place comes to what it comes to alone.** -/
theorem Hosts.together {p q : Prog α} (h : Hosts place m l) (hp : Prog.Alike place R p q) (hs : Steady inputs past m) :
    Together place R (m.run p) (l.run q) := by
  have hbase : [] ++ place = place ++ [] := (List.append_nil place).symm
  obtain ⟨halike, hafter⟩ := mirrors_start hp h.mirrors hbase
  have huses : p.Uses (place <+: ·) [] (Related R) := hp.uses List.prefix_rfl
  obtain ⟨past', hacts, hw⟩ := acts_start p [] hs.history
  exact (h.inside hafter (confined_start huses (settled_below place m)).1).drive halike (hs.acts hacts) hw

end MediaQuery.Machine
