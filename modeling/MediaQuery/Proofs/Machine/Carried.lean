import MediaQuery.Proofs.Machine.MirrorFuture

/-!
# What a machine and the one inside it have in common

What holds of every little step of a wait holds of the wait (`Endured`), and waits leave alone what branches are there
and which of them carry sessions (`SameSessions`). A relation between a machine and the one inside it is carried along
by programs (`Carried`) if operations on both keep it, and if all else that programs do, which leaves the sessions alone
as well, keeps it as long as the one machine is found inside the other.
-/

namespace MediaQuery.Machine

variable {place a : Route} {m m' m'' : Machine}

/-! ## Waits -/

/-- A relation between a machine and a later one that holds of every little step of a wait for a branch. -/
structure Endured (a : Route) (R : Machine → Machine → Prop) : Prop where
  refl : ∀ m, R m m
  trans : ∀ {m m' m'' : Machine}, R m m' → R m' m'' → R m m''
  modifyStore : ∀ (m : Machine) (f : Store → Store), R m (m.modifyStore a f)
  markAwaited : ∀ m : Machine, R m (m.markAwaited a)

namespace Endured

variable {R : Machine → Machine → Prop} (h : Endured a R)
include h

theorem settleSlots (m : Machine) (todo : List PendingSlot) : R m (settleSlots a todo m).2 := by
  induction todo generalizing m with
  | nil => exact h.refl m
  | cons slot rest ih =>
    obtain ⟨key, generation, id⟩ := slot
    unfold Machine.settleSlots
    split
    · exact h.refl m
    · exact h.trans (h.modifyStore m _) (ih _)

theorem waitSlots (m : Machine) (todo : List PendingSlot) (failure : Option EvalError) :
    R m (waitSlots a todo failure m).2 := by
  have hslots := h.settleSlots m todo
  unfold Machine.waitSlots
  generalize Machine.settleSlots a todo m = x at hslots
  obtain ⟨_ | _, m'⟩ := x
  · exact hslots
  · exact hslots

theorem waitFutures (m : Machine) (todo : List FutureId) (failure : Option EvalError) :
    R m (waitFutures a todo failure m).2 := by
  have hmark := h.markAwaited m
  unfold Machine.waitFutures
  split
  · exact h.refl m
  · split
    · exact hmark
    · exact h.trans hmark (h.waitSlots _ _ _)

/-- **A wait.** -/
theorem wait (m : Machine) (wait : Wait) : R m (Machine.wait a wait m).2 := by
  cases wait with
  | futures front rest failure => exact h.waitFutures m _ failure
  | slots front rest failure => exact h.waitSlots m _ failure

end Endured

/-! ## Sessions -/

/-- There are the same branches, with the same sessions. -/
def SameSessions (m m' : Machine) : Prop := ∀ a, (m'.node? a).map Node.session = (m.node? a).map Node.session

theorem SameSessions.refl (m : Machine) : SameSessions m m := fun _ => rfl

theorem SameSessions.trans (h : SameSessions m m') (h' : SameSessions m' m'') : SameSessions m m'' :=
  fun a => (h' a).trans (h a)

/-- A change in place that keeps the session. -/
theorem sameSessions_of_map {b : Route} {g : Node → Node} (hg : ∀ n, (g n).session = n.session)
    (h : ∀ a, m'.node? a = if a = b then (m.node? a).map g else m.node? a) : SameSessions m m' := by
  intro a
  rw [h]
  split
  · rw [Option.map_map]
    exact congrArg (Option.map · _) (funext hg)
  · rfl

theorem sameSessions_modifyStore (m : Machine) (a : Route) (f : Store → Store) : SameSessions m (m.modifyStore a f) :=
  sameSessions_of_map (g := fun n => { n with store := f n.store }) (fun _ => rfl) (node?_modifyStore m a · f)

theorem sameSessions_record (m : Machine) (a : Route) (result : Option Value) :
    SameSessions m (m.modify a fun b => { b with results := b.results ++ [result] }) :=
  sameSessions_of_map (g := fun n => { n with results := n.results ++ [result] }) (fun _ => rfl)
    (node?_record m a · result)

theorem sameSessions_spawn (m : Machine) (a : Route) (key : String) (p : Prog (Except EvalError Value)) :
    SameSessions m (m.spawn a key p) := by
  unfold spawn
  split
  · exact sameSessions_modifyStore m a fun s => s.write key (.pending (m.nextFuture a))
  · exact .refl m

theorem endured_sameSessions (a : Route) : Endured a SameSessions where
  refl := .refl
  trans := .trans
  modifyStore m := sameSessions_modifyStore m a
  markAwaited _ _ := rfl

/-! ## Relations that programs keep -/

/-- A relation between a machine and the one found below a place of it that programs keep. -/
structure Carried (place : Route) (I : Machine → Machine → Prop) : Prop where
  mirrors : ∀ {m l : Machine}, I m l → Mirrors place m l
  perform : ∀ {m l : Machine}, I m l → ∀ {α : Type} {op : Op α}, op.readsLog = false → ∀ base,
    I (m.perform (place ++ base) op).2 (l.perform base op).2
  quiet : ∀ {m l m' l' : Machine}, I m l → Mirrors place m' l' → SameSessions m m' → SameSessions l l' → I m' l'

theorem carried_mirrors (place : Route) : Carried place (Mirrors place) :=
  ⟨id, fun h _ _ hop base => (mirrors_perform h hop base).2, fun _ h _ _ => h⟩

end MediaQuery.Machine
