/-!
# Bags ordered by replacement

A bag, given as a list, gets smaller when one element gives way to any number of smaller ones; elements may also
be dropped on the way. If the elements are well founded then so are the bags (`wellFounded_lt`). `Lt` is any
number of such steps, and `Le` allows none.
-/

namespace MediaQuery.Bag

variable {α : Type u} {r : α → α → Prop}

/-- One element gives way to smaller ones, and some may be dropped. -/
def Cut (r : α → α → Prop) (small big : List α) : Prop :=
  ∃ x new rest gone, big.Perm (x :: rest) ∧ (small ++ gone).Perm (new ++ rest) ∧ ∀ y ∈ new, r y x

/-! ## Well-foundedness -/

theorem acc_of_perm {a b : List α} (h : Acc (Cut r) a) (p : a.Perm b) : Acc (Cut r) b :=
  ⟨b, fun _ ⟨x, new, rest, gone, hb, hc, hn⟩ => h.inv ⟨x, new, rest, gone, p.trans hb, hc, hn⟩⟩

/-- What lies below a part of a bag lies below the bag. -/
theorem acc_of_append {a gone : List α} (h : Acc (Cut r) (a ++ gone)) : Acc (Cut r) a := by
  refine ⟨a, fun c ⟨x, new, rest, gone', ha, hc, hn⟩ => h.inv ⟨x, new, rest ++ gone, gone' ++ gone, ?_, ?_, hn⟩⟩
  · exact ha.append_right gone
  · rw [← List.append_assoc, ← List.append_assoc]
    exact hc.append_right gone

theorem acc_append {new l : List α} (h : ∀ y ∈ new, ∀ l, Acc (Cut r) l → Acc (Cut r) (y :: l))
    (hl : Acc (Cut r) l) : Acc (Cut r) (new ++ l) := by
  induction new with
  | nil => exact hl
  | cons y new ih =>
    exact h y (by simp) _ (ih fun z hz => h z (by simp [hz]))

/-- An element can be added if all smaller ones can. -/
theorem acc_cons {x : α} (hx : ∀ y, r y x → ∀ l, Acc (Cut r) l → Acc (Cut r) (y :: l)) {l : List α}
    (hl : Acc (Cut r) l) : Acc (Cut r) (x :: l) := by
  induction hl with
  | intro l hl ih =>
    refine ⟨_, fun c ⟨a, new, rest, gone, hxl, hc, hn⟩ => ?_⟩
    have hm : a ∈ x :: l := hxl.mem_iff.2 (by simp)
    rcases List.mem_cons.1 hm with rfl | hm
    · have hr : l.Perm rest := hxl.cons_inv
      have hacc : Acc (Cut r) (new ++ l) := acc_append (fun y hy => hx y (hn y hy)) ⟨l, hl⟩
      exact acc_of_append (acc_of_perm hacc ((hr.append_left new).trans hc.symm))
    · obtain ⟨s, t, rfl⟩ := List.append_of_mem hm
      have hr : rest.Perm (x :: (s ++ t)) := by
        have h1 : (x :: (s ++ a :: t)).Perm (a :: x :: (s ++ t)) :=
          ((List.perm_middle).cons x).trans (.swap a x _)
        exact (h1.symm.trans hxl).cons_inv.symm
      have hcut : Cut r (new ++ (s ++ t)) (s ++ a :: t) :=
        ⟨a, new, s ++ t, [], List.perm_middle, by simp, hn⟩
      have hacc := ih _ hcut
      refine acc_of_append (acc_of_perm hacc (.trans ?_ hc.symm))
      exact (List.perm_middle.symm).trans (hr.symm.append_left new)

theorem wellFounded_cut (h : WellFounded r) : WellFounded (Cut r) := by
  have hcons : ∀ x l, Acc (Cut r) l → Acc (Cut r) (x :: l) := fun x =>
    h.induction x fun x ih l hl => acc_cons ih hl
  refine ⟨fun l => ?_⟩
  induction l with
  | nil => exact ⟨_, fun c ⟨x, new, rest, gone, hp, _, _⟩ => by simpa using hp.length_eq⟩
  | cons x l ih => exact hcons x l ih

/-! ## Several steps -/

/-- Some elements give way to smaller ones, at least one of them. -/
def Lt (r : α → α → Prop) : List α → List α → Prop := Relation.TransGen (Cut r)

/-- The same bag or a smaller one. -/
def Le (r : α → α → Prop) (a b : List α) : Prop := a.Perm b ∨ Lt r a b

theorem wellFounded_lt (h : WellFounded r) : WellFounded (Lt r) := (wellFounded_cut h).transGen

theorem Lt.trans {a b c : List α} (h : Lt r a b) (h' : Lt r b c) : Lt r a c := Relation.TransGen.trans h h'

theorem Cut.perm_left {a a' b : List α} (h : Cut r a b) (p : a'.Perm a) : Cut r a' b := by
  obtain ⟨x, new, rest, gone, hb, ha, hn⟩ := h
  exact ⟨x, new, rest, gone, hb, (p.append_right gone).trans ha, hn⟩

theorem Cut.perm_right {a b b' : List α} (h : Cut r a b) (p : b.Perm b') : Cut r a b' := by
  obtain ⟨x, new, rest, gone, hb, ha, hn⟩ := h
  exact ⟨x, new, rest, gone, p.symm.trans hb, ha, hn⟩

theorem Lt.perm_left {a a' b : List α} (h : Lt r a b) (p : a'.Perm a) : Lt r a' b := by
  induction h with
  | single h => exact .single (h.perm_left p)
  | tail _ h ih => exact .tail ih h

theorem Lt.perm_right {a b b' : List α} (h : Lt r a b) (p : b.Perm b') : Lt r a b' := by
  cases h with
  | single h => exact .single (h.perm_right p)
  | tail h' h => exact .tail h' (h.perm_right p)

theorem Le.refl (a : List α) : Le r a a := .inl (.refl a)

theorem Le.trans_lt {a b c : List α} (h : Le r a b) (h' : Lt r b c) : Lt r a c := by
  rcases h with h | h
  · exact h'.perm_left h
  · exact h.trans h'

theorem Lt.trans_le {a b c : List α} (h : Lt r a b) (h' : Le r b c) : Lt r a c := by
  rcases h' with h' | h'
  · exact h.perm_right h'
  · exact h.trans h'

theorem Le.trans {a b c : List α} (h : Le r a b) (h' : Le r b c) : Le r a c := by
  rcases h with h | h
  · rcases h' with h' | h'
    · exact .inl (h.trans h')
    · exact .inr (h'.perm_left h)
  · exact .inr (h.trans_le h')

theorem Cut.append_right {a b : List α} (h : Cut r a b) (c : List α) : Cut r (a ++ c) (b ++ c) := by
  obtain ⟨x, new, rest, gone, hb, ha, hn⟩ := h
  refine ⟨x, new, rest ++ c, gone, hb.append_right c, ?_, hn⟩
  have h1 : (a ++ c ++ gone).Perm (a ++ gone ++ c) := by
    rw [List.append_assoc, List.append_assoc]
    exact List.perm_append_comm.append_left a
  rw [← List.append_assoc]
  exact h1.trans (ha.append_right c)

theorem Lt.append_right {a b : List α} (h : Lt r a b) (c : List α) : Lt r (a ++ c) (b ++ c) := by
  induction h with
  | single h => exact .single (h.append_right c)
  | tail _ h ih => exact .tail ih (h.append_right c)

theorem Lt.append_left {a b : List α} (h : Lt r a b) (c : List α) : Lt r (c ++ a) (c ++ b) :=
  ((h.append_right c).perm_left List.perm_append_comm).perm_right List.perm_append_comm

theorem Le.append_left {a b : List α} (h : Le r a b) (c : List α) : Le r (c ++ a) (c ++ b) := by
  rcases h with h | h
  · exact .inl (h.append_left c)
  · exact .inr (h.append_left c)

/-- A bag loses an element. -/
theorem Lt.drop (x : α) (l : List α) : Lt r l (x :: l) :=
  .single ⟨x, [], l, [], .refl _, by simp, by simp⟩

/-- A bag loses some elements. -/
theorem Le.drop (gone l : List α) : Le r l (gone ++ l) := by
  induction gone with
  | nil => exact .refl l
  | cons x gone ih => exact .inr (ih.trans_lt (Lt.drop x (gone ++ l)))

/-- A bag loses elements, at least one of them. -/
theorem Lt.drop_of_ne_nil {gone l : List α} (h : gone ≠ []) : Lt r l (gone ++ l) := by
  cases gone with
  | nil => exact absurd rfl h
  | cons x gone => exact (Le.drop gone l).trans_lt (Lt.drop x (gone ++ l))

/-- What gives way to smaller elements, with a bag beside it that only loses elements. -/
theorem Lt.replace {x : α} {new a b : List α} (hn : ∀ y ∈ new, r y x) (h : Le r a b) :
    Lt r (new ++ a) (x :: b) := by
  have h1 : Lt r (new ++ b) (x :: b) := .single ⟨x, new, b, [], .refl _, by simp, hn⟩
  exact (h.append_left new).trans_lt h1

/-! ## Spending an element -/

/-- A bag changes by the gain of elements smaller than `x` and by losses. -/
def Spends (r : α → α → Prop) (x : α) (small big : List α) : Prop :=
  ∃ new gone, (∀ y ∈ new, r y x) ∧ (small ++ gone).Perm (new ++ big)

theorem Spends.refl (x : α) (l : List α) : Spends r x l l := ⟨[], [], by simp, by simp⟩

theorem Spends.below {x : α} {a b : List α} (h : Spends r x a b) : Lt r a (x :: b) := by
  obtain ⟨new, gone, hn, hp⟩ := h
  exact .single ⟨x, new, b, gone, .refl _, hp, hn⟩

theorem Spends.perm_left {x : α} {a a' b : List α} (h : Spends r x a b) (p : a'.Perm a) : Spends r x a' b := by
  obtain ⟨new, gone, hn, hp⟩ := h
  exact ⟨new, gone, hn, (p.append_right gone).trans hp⟩

theorem Spends.trans {x : α} {a b c : List α} (h : Spends r x a b) (h' : Spends r x b c) : Spends r x a c := by
  obtain ⟨new, gone, hn, hp⟩ := h
  obtain ⟨new', gone', hn', hp'⟩ := h'
  refine ⟨new ++ new', gone ++ gone', fun y hy => ?_, ?_⟩
  · rcases List.mem_append.1 hy with hy | hy
    · exact hn y hy
    · exact hn' y hy
  · have h1 : (a ++ (gone ++ gone')).Perm (new ++ b ++ gone') := by
      rw [← List.append_assoc]
      exact hp.append_right gone'
    have h2 : (new ++ b ++ gone').Perm (new ++ (new' ++ c)) := by
      rw [List.append_assoc]
      exact hp'.append_left new
    rw [List.append_assoc]
    exact h1.trans h2

/-- What a smaller element can pay for, a greater one can. -/
theorem Spends.rise {x y : α} {a b : List α} (h : Spends (Relation.TransGen r) x a b)
    (hxy : Relation.TransGen r x y) : Spends (Relation.TransGen r) y a b := by
  obtain ⟨new, gone, hn, hp⟩ := h
  exact ⟨new, gone, fun z hz => (hn z hz).trans hxy, hp⟩

/-- Smaller elements are gained. -/
theorem Spends.gain {x : α} {new a b : List α} (hn : ∀ y ∈ new, r y x) (h : Spends r x a b) :
    Spends r x (new ++ a) b := by
  obtain ⟨new', gone, hn', hp⟩ := h
  refine ⟨new ++ new', gone, fun y hy => ?_, ?_⟩
  · rcases List.mem_append.1 hy with hy | hy
    · exact hn y hy
    · exact hn' y hy
  · rw [List.append_assoc, List.append_assoc]
    exact hp.append_left new

/-- A smaller element is gained. -/
theorem Spends.gain_one {x y : α} {a b : List α} (hy : r y x) (h : Spends r x a b) : Spends r x (y :: a) b := by
  have hn : ∀ z ∈ [y], r z x := List.forall_mem_singleton.2 hy
  exact h.gain hn

/-- Elements are lost. -/
theorem Spends.loss {x : α} {gone a b : List α} (h : Spends r x (gone ++ a) b) : Spends r x a b := by
  obtain ⟨new, gone', hn, hp⟩ := h
  refine ⟨new, gone ++ gone', hn, .trans ?_ hp⟩
  rw [← List.append_assoc]
  exact List.perm_append_comm.append_right gone'

/-- Elements that stay. -/
theorem Spends.append_left {x : α} {a b : List α} (h : Spends r x a b) (c : List α) :
    Spends r x (c ++ a) (c ++ b) := by
  obtain ⟨new, gone, hn, hp⟩ := h
  refine ⟨new, gone, hn, ?_⟩
  have h1 : (c ++ a ++ gone).Perm (c ++ (new ++ b)) := by
    rw [List.append_assoc]
    exact hp.append_left c
  refine h1.trans ?_
  rw [← List.append_assoc, ← List.append_assoc]
  exact List.perm_append_comm.append_right b

end MediaQuery.Bag
