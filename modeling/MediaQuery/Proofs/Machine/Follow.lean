import MediaQuery.Proofs.Machine.Hosts

/-!
# Following one of several parts

Of programs that wait side by side, each below a place of its own, one is followed on a machine of its own
(`Follows`): the machine found below its place, on which it runs alone. A turn of all parts is at most one turn of
that machine (`Follows.turn`). So where all parts succeed, the part that is followed succeeds on its own, with the
same value, and a part without others comes to what it comes to on its own (`Follows.drive`).
-/

namespace MediaQuery

/-- Results with the same value, or failures. -/
abbrev SameValue {β : Type} : Except ExecutionError β → Except ExecutionError β → Prop :=
  SameResult (fun _ _ => True) Eq

namespace Machine

variable {place : Route} {β : Type} {n k : Nat} {m l : Machine} {run : Run (Except ExecutionError β)}
  {answer : Option (Except ExecutionError β)}

/-- One of the parts is like a run on a machine of its own, and the others keep away from its place. -/
structure Shares (place : Route) (parts : Fin n → Run (Except ExecutionError β)) (i : Fin n)
    (run : Run (Except ExecutionError β)) : Prop where
  own : (parts i).Alike place place SameValue run
  others : ∀ j, j ≠ i → (parts j).Uses (Away place) [] fun _ => True
  unfinished : Unfinished parts

/-- The main program waits for parts, one of which comes to the answer on the machine below its place; or it has
ended, with the value of that answer among others, or with a failure, which is no other part's if there is none. -/
inductive Follows (place : Route) (n k : Nat) (answer : Option (Except ExecutionError β)) :
    Run (Except ExecutionError (List β)) → Machine → Prop
  | going {n' : Nat} {parts : Fin n' → Run (Except ExecutionError β)} {i : Fin n'}
      {run : Run (Except ExecutionError β)} {m l : Machine} (hn : n' = n) (hi : i.val = k) (hm : Hosts place m l)
      (hp : Shares place parts i run) (ha : (drive run l).1 = answer) :
      Follows place n k answer (.joined parts .done) m
  | ended {values : List β} {v : β} {m : Machine} (hn : values.length = n) (hv : values[k]? = some v)
      (ha : answer = some (.ok v)) : Follows place n k answer (.done (.ok values)) m
  | failed {e : ExecutionError} {m : Machine} (ha : n = 1 → ∀ v, answer ≠ some (.ok v)) :
      Follows place n k answer (.done (.error e)) m

/-! ## A sweep over all parts -/

section Sweep

variable {advance : Fin n → Machine → Run (Except ExecutionError β) × Machine} {pre post : List (Fin n)} {i : Fin n}

/-- What has become of a run that is like one that has failed. -/
theorem drive_of_failed {e : ExecutionError} (h : (Run.done (.error e)).Alike place place SameValue run) (v : β) :
    (drive run l).1 ≠ some (.ok v) := by
  cases h with
  | done hr =>
    cases hr with
    | error _ =>
      rw [drive_of_result rfl]
      exact nofun

/-- What is elsewhere in a list than the given element is before or after it. -/
theorem mem_of_other {α : Type*} {before after : List α} {a : α} {j : Nat} (hj : j ≠ before.length)
    (hlt : j < (before ++ a :: after).length) : (before ++ a :: after)[j] ∈ before ++ after := by
  rcases Nat.lt_or_gt_of_ne hj with hleft | hright
  · rw [List.getElem_append_left hleft]
    exact List.mem_append_left _ (List.getElem_mem hleft)
  · rw [List.getElem_append_right (Nat.le_of_lt hright), List.getElem_cons, dif_neg (by omega)]
    exact List.mem_append_right _ (List.getElem_mem _)

/-- Where all parts have a value, that of the part that is followed is among them. -/
theorem follows_gathered {runs : List (Run (Except ExecutionError β))} {part : Run (Except ExecutionError β)}
    {values : List β} (hsize : runs.length = n) (hat : runs[k]? = some part) (hg : gather? runs = some values)
    (hown : part.Alike place place SameValue run) :
    Follows place n k (drive run l).1 (.done (.ok values)) m := by
  have hvalues := gather?_eq_some.1 hg
  rw [hvalues, List.getElem?_map, Option.map_eq_some_iff] at hat
  obtain ⟨v, hv, hdone⟩ := hat
  rw [hvalues, List.length_map] at hsize
  refine .ended hsize hv ?_
  rw [← hdone] at hown
  cases hown with
  | done hr =>
    cases hr with
    | ok hv => rw [drive_of_result rfl, hv]

/-- Where some part waits, the part that is followed goes on among the others. -/
theorem follows_waiting {runs later : List (Run (Except ExecutionError β))} {part : Run (Except ExecutionError β)}
    (hsize : (runs ++ part :: later).length = n) (hm : Hosts place m l) (hown : part.Alike place place SameValue run)
    (hothers : ∀ run ∈ runs ++ later, run.Uses (Away place) [] fun _ => True)
    (hwait : Unfinished (runs ++ part :: later).get) :
    Follows place n runs.length (drive run l).1 (.joined (runs ++ part :: later).get .done) m := by
  have hlt : runs.length < (runs ++ part :: later).length := by simp
  refine .going (i := ⟨runs.length, hlt⟩) hsize rfl hm ⟨?_, fun j hj => ?_, hwait⟩ rfl
  · rwa [List.get_eq_getElem, List.getElem_append_right (Nat.le_refl _), List.getElem_cons, dif_pos (Nat.sub_self _)]
  · exact hothers _ (mem_of_other (fun heq => hj (Fin.ext heq)) j.isLt)

/-- After the parts before it and the part itself a sweep goes over the other parts. -/
theorem follows_rest {runs : List (Run (Except ExecutionError β))} (hlen : pre.length + (post.length + 1) = n)
    (hpre : (sweep advance pre m).1 = .ok runs) (huses : ∀ run ∈ runs, run.Uses (Away place) [] fun _ => True)
    (hm : Hosts place (advance i (sweep advance pre m).2).2 l)
    (hown : (advance i (sweep advance pre m).2).1.Alike place place SameValue run)
    (hothers : ∀ j ∈ post, ∀ m, m.Settled (Away place) →
      ConfinedRun (Away place) [] (fun _ => True) m (advance j m)) :
    Follows place n pre.length (drive run l).1 (afterSweep [] .done (sweep advance (pre ++ i :: post) m)).1
      (afterSweep [] .done (sweep advance (pre ++ i :: post) m)).2 := by
  have hwait (all : List (Run (Except ExecutionError β)))
      (h : (sweep advance (pre ++ i :: post) m).1 = .ok all) (hg : gather? all = none) : Unfinished all.get :=
    unfinished_of_sweep h hg
  rw [sweep_append_of_ok hpre] at hwait ⊢
  have hruns := length_sweep hpre
  generalize (sweep advance pre m).2 = m₁ at hm hown hwait ⊢
  by_cases hfail : ∃ e, (advance i m₁).1 = .done (.error e)
  · obtain ⟨e, he⟩ := hfail
    rw [sweep_of_error he]
    rw [he] at hown
    exact .failed fun _ => drive_of_failed hown
  · rw [not_exists] at hfail
    rw [sweep_of_ne_error hfail] at hwait ⊢
    obtain ⟨hconfined, hafter⟩ := confined_sweep post hothers (settled_away hm.there)
    cases hs : (sweep advance post (advance i m₁).2).1 with
    | error e =>
      refine .failed fun hn => ?_
      cases post with
      | nil => cases hs
      | cons j post =>
        simp only [List.length_cons] at hlen
        omega
    | ok later =>
      have hall : (runs ++ (advance i m₁).1 :: later).length = n := by
        simp only [List.length_append, List.length_cons, hruns, length_sweep hs, hlen]
      rw [hs] at hafter hwait
      simp only [Except.map] at hwait ⊢
      unfold afterSweep
      rw [← hruns]
      cases hg : gather? (runs ++ (advance i m₁).1 :: later) with
      | some values =>
        simp only [hg]
        exact follows_gathered hall (by simp) hg hown
      | none =>
        simp only [hg]
        refine follows_waiting hall (hm.elsewhere hconfined) hown (fun run hrun => ?_) (hwait _ rfl hg)
        rcases List.mem_append.1 hrun with hrun | hrun
        · exact huses _ hrun
        · exact hafter _ hrun

/-- Where a part before it fails the part that is followed is not the only one. -/
theorem follows_failed {e : ExecutionError} (hlen : pre.length + (post.length + 1) = n)
    (hpre : (sweep advance pre m).1 = .error e) :
    Follows place n k answer (afterSweep [] .done (sweep advance (pre ++ i :: post) m)).1
      (afterSweep [] .done (sweep advance (pre ++ i :: post) m)).2 := by
  rw [sweep_append_of_failed hpre]
  have hne : pre ≠ [] := by
    rintro rfl
    cases hpre
  have hpos := List.length_pos_iff.2 hne
  generalize sweep advance pre m = x at hpre
  obtain ⟨r, m'⟩ := x
  cases hpre
  exact .failed fun hn => by omega

/-- A sweep over all parts, of which the one that is followed has gone on on its own as well. -/
theorem follows_sweep (h : Hosts place m l) (hothers : ∀ j, j ≠ i → ∀ m, m.Settled (Away place) →
      ConfinedRun (Away place) [] (fun _ => True) m (advance j m))
    (hown : ∀ m, Hosts place m l → ∃ l' run', Hosts place (advance i m).2 l' ∧
      (advance i m).1.Alike place place SameValue run' ∧ (drive run' l').1 = answer) :
    Follows place n i answer (afterSweep [] .done (sweep advance (List.finRange n) m)).1
      (afterSweep [] .done (sweep advance (List.finRange n) m)).2 := by
  obtain ⟨pre, post, hsplit, hlen, hsize, hpre, hpost⟩ := finRange_split i
  obtain ⟨hconfined, hbefore⟩ := confined_sweep pre (fun j hj => hothers j fun heq => hpre (heq ▸ hj))
    (settled_away h.there)
  rw [hsplit, ← hlen]
  cases hs : (sweep advance pre m).1 with
  | error e => exact follows_failed hsize hs
  | ok runs =>
    rw [hs] at hbefore
    obtain ⟨l', run', hm, hrun, rfl⟩ := hown _ (h.elsewhere hconfined)
    exact follows_rest hsize hs hbefore hm hrun fun j hj => hothers j fun heq => hpost (heq ▸ hj)

end Sweep

/-! ## Turns -/

/-- What can go on is not done. -/
theorem result?_of_ready {α : Type} {run : Run α} (h : run.isReady m = true) : run.result? = none := by
  cases run with
  | done a => cases h
  | _ => rfl

/-- The part that is followed is taken on if it can go on, and then it goes on on its own as well. -/
theorem Hosts.resume (h : Hosts place m l) (hr : l.ready = []) {part : Run (Except ExecutionError β)}
    (hp : part.Alike place place SameValue run) :
    ∃ l' run', Hosts place (part.resume [] m).2 l' ∧ (part.resume [] m).1.Alike place place SameValue run' ∧
      (drive run' l').1 = (drive run l).1 := by
  cases hready : part.isReady m with
  | false =>
    have hstay : (part.resume [] m).2 = m ∧ _ := Run.resume_of_not_ready hp hready
    rw [hstay.1]
    exact ⟨l, run, h, hstay.2, rfl⟩
  | true =>
    have hready' : run.isReady l = true := isReady_alike hp h.mirrors ▸ hready
    have hbase : [] ++ place = place ++ [] := (List.append_nil place).symm
    obtain ⟨halike, hafter⟩ := mirrors_resume hp h.mirrors hbase
    have huses : part.Uses (place <+: ·) [] _ := hp.uses List.prefix_rfl
    refine ⟨_, _, h.inside hafter (confined_resume huses (settled_below place m)).1, halike, ?_⟩
    have hd : Machine.dispatch run l = some (run.resume [] l) := by rw [dispatch_of_empty hr, if_pos hready']
    rw [drive_of_turn (result?_of_ready hready') (turn_of_dispatch hd)]

/-- A dispatch for all parts. -/
theorem Follows.dispatch {parts : Fin n → Run (Except ExecutionError β)} {i : Fin n} (h : Hosts place m l)
    (hp : Shares place parts i run) (ho : Orderly m) {main' : Run (Except ExecutionError (List β))} {m' : Machine}
    (hd : dispatch (.joined parts .done) m = some (main', m')) :
    Follows place n i (drive run l).1 main' m' := by
  cases hr : m.ready with
  | cons id rest =>
    obtain ⟨f, run₁, m₁, -, -, -, -, hq⟩ := ho.runQueue_of_head hr
    obtain ⟨l', hm, hl⟩ := h.runQueue ho hr hq
    unfold Machine.dispatch at hd
    rw [hq] at hd
    cases hd
    refine .going rfl rfl hm hp ?_
    rcases hl with rfl | hl
    · rfl
    · exact drive_runQueue hl
  | nil =>
    rw [dispatch_of_empty hr] at hd
    split at hd
    · have hnext := Option.some.inj hd
      rw [resume_joined] at hnext
      have hfollows := follows_sweep h (fun j hj m hT => confined_resume (hp.others j hj) hT) fun m hm =>
        hm.resume (h.mirrors.ready_eq_nil hr) hp.own
      rwa [hnext] at hfollows
    · cases hd

/-- Where nothing can be dispatched for all parts nothing can be dispatched for the part on its own. -/
theorem Shares.dispatch_eq_none {parts : Fin n → Run (Except ExecutionError β)} {i : Fin n}
    (hp : Shares place parts i run) (h : Hosts place m l) (ho : Orderly m)
    (hd : dispatch (.joined parts .done) m = none) : dispatch run l = none := by
  obtain ⟨hr, hidle⟩ := ho.dispatch_eq_none hd
  have hpart : (parts i).isReady m = false :=
    Bool.eq_false_iff.2 (List.any_eq_false.1 hidle i (List.mem_finRange i))
  rw [isReady_alike hp.own h.mirrors] at hpart
  rw [dispatch_of_empty (h.mirrors.ready_eq_nil hr), hpart]
  rfl

/-- The next sleep of the part on its own ends no earlier than that of all parts. -/
theorem Shares.nextWake?_le {parts : Fin n → Run (Except ExecutionError β)} {i : Fin n}
    (hp : Shares place parts i run) (h : Hosts place m l) {w : Nat} (hw : nextWake? run l = some w) :
    ∃ least, nextWake? (.joined parts .done) m = some least ∧ least ≤ w := by
  refine h.mirrors.nextWake?_le (fun w hrun => ?_) hw
  have hmem : w ∈ (List.finRange n).filterMap fun j => (parts j).wake? :=
    List.mem_filterMap.2 ⟨i, List.mem_finRange i, (wake?_alike hp.own).trans hrun⟩
  exact exists_min?_le hmem

/-- **A turn of all parts is at most one turn of the part that is followed.** -/
theorem Follows.turn {parts : Fin n → Run (Except ExecutionError β)} {i : Fin n} (h : Hosts place m l)
    (hp : Shares place parts i run) (ho : Orderly m) {main' : Run (Except ExecutionError (List β))} {m' : Machine}
    (ht : turn (.joined parts .done) m = some (main', m')) : Follows place n i (drive run l).1 main' m' := by
  cases hd : Machine.dispatch (.joined parts .done) m with
  | some next =>
    rw [turn_of_dispatch hd] at ht
    cases ht
    exact Follows.dispatch h hp ho hd
  | none =>
    rw [turn_of_idle hd] at ht
    obtain ⟨t, hw, hd'⟩ := Option.bind_eq_some_iff.1 ht
    have hle := Nat.le_of_lt (ho.clock_lt_nextWake hd hw)
    have hsame : (drive run (l.advanceTo t)).1 = (drive run l).1 := by
      refine (h.mirrors.orderly ho).drive_advanceTo (hp.dispatch_eq_none h ho hd) (h.mirrors.clock ▸ hle)
        fun w hw' => ?_
      obtain ⟨least, hleast, hle'⟩ := hp.nextWake?_le h hw'
      cases hw.symm.trans hleast
      exact hle'
    rw [← hsame]
    exact Follows.dispatch (h.advanceTo t) hp (ho.toTidy.tick hle).enqueue hd'

/-- A part without others is stuck on its own where it is stuck. -/
theorem Shares.drive_eq_none {parts : Fin 1 → Run (Except ExecutionError β)} {i : Fin 1}
    (hp : Shares place parts i run) (h : Hosts place m l) (ho : Orderly m)
    (ht : Machine.turn (.joined parts .done) m = none) : (drive run l).1 = none := by
  obtain ⟨j, hj⟩ := hp.unfinished.waits
  cases Subsingleton.elim i j
  have hr : run.result? = none := by
    have hsame := hp.own.isSome_result?
    rw [hj] at hsame
    exact Option.not_isSome_iff_eq_none.1 (by simp [← hsame])
  have hd : Machine.dispatch (.joined parts .done) m = none := by
    cases hd : Machine.dispatch (.joined parts .done) m with
    | none => rfl
    | some next => cases ht.symm.trans (turn_of_dispatch hd)
  have hstuck : Machine.turn run l = none := by
    rw [turn_of_idle (hp.dispatch_eq_none h ho hd)]
    refine Option.bind_eq_none_iff.2 fun w hw => ?_
    obtain ⟨least, hleast, -⟩ := hp.nextWake?_le h hw
    have hsome := ho.dispatch_advanceTo hd hleast
    rw [turn_of_idle hd, hleast, Option.bind_some] at ht
    rw [ht] at hsome
    cases hsome
  rw [drive_of_stuck hr hstuck]

/-- **What all parts come to is what the part that is followed comes to on its own.** Where all succeed, so does that
part, and its value is among theirs; and a part without others succeeds where it succeeds on its own. -/
theorem Follows.drive {inputs : Inputs} {past : List Event} {main : Run (Except ExecutionError (List β))}
    (h : Follows place n k answer main m) (hs : Steady inputs past m) (hw : main.Watched past []) :
    (∀ values, (drive main m).1 = some (.ok values) → values.length = n ∧
      ∃ v, values[k]? = some v ∧ answer = some (.ok v)) ∧
    (n = 1 → ∀ v, answer = some (.ok v) → (Machine.drive main m).1 = some (.ok [v])) := by
  -- along the turns of all parts
  induction main, m using drive.induct generalizing past with
  | case1 main m a hr =>
    rw [drive_of_result hr]
    cases h with
    | going hn hi hm hp ha => cases hr
    | @ended values v m hn hv ha =>
      cases hr
      refine ⟨fun values' heq => ?_, fun hone v' heq => ?_⟩
      · cases heq
        exact ⟨hn, v, hv, ha⟩
      · cases ha.symm.trans heq
        obtain ⟨w, rfl⟩ := List.length_eq_one_iff.1 (hn.trans hone)
        rw [← List.mem_singleton.1 (List.mem_of_getElem? hv)]
    | failed ha =>
      cases hr
      exact ⟨fun values heq => (by cases heq), fun hone v heq => absurd heq (ha hone v)⟩
  | case2 main m hr main' m' ht ih =>
    obtain ⟨past', hs', hw'⟩ := steady_turn hs hw ht
    rw [drive_of_turn hr ht]
    cases h with
    | going hn hi hm hp ha =>
      subst hn hi ha
      exact ih (Follows.turn hm hp hs.toOrderly ht) hs' hw'
    | ended hn hv ha => cases hr
    | failed ha => cases hr
  | case3 main m hr ht =>
    rw [drive_of_stuck hr ht]
    refine ⟨fun values heq => (by cases heq), fun hone v heq => ?_⟩
    cases h with
    | going hn hi hm hp ha =>
      subst hone hn
      rw [← ha, hp.drive_eq_none hm hs.toOrderly ht] at heq
      cases heq
    | ended hn hv ha => cases hr
    | failed ha => cases hr

end Machine

end MediaQuery
