import MediaQuery.Proofs.Error.Likeness
import Mathlib.Data.List.Sort

/-!
# Chronologies

What happens in a run is told as a list of incidents with their instants: entries of the execution log, and failures. A
chronology has them in the order of their instants, and those of one instant in the order in which they were told
(`chronology`). What is told of a run ends with its first failure (`upToFailure`). Both are known from what they tell of
every single instant (`eq_of_sorted`, `filter_upToFailure`), and so the parts of a run may be told up to their own first
failures before they are put together (`upToFailure_flatMap`).
-/

namespace MediaQuery

/-- Something that happens in a run. -/
inductive Incident where
  /-- An action is started at a path. -/
  | entered (path : Path)
  /-- A failure ends a run. -/
  | failed (e : ExecutionError)

namespace Incident

/-- Whether an incident is a failure. -/
def isFailure : Incident → Bool
  | .entered _ => false
  | .failed _ => true

/-- The path that is entered. -/
def path? : Incident → Option Path
  | .entered path => some path
  | .failed _ => none

end Incident

/-- Incidents with their instants. -/
abbrev Story := List (Nat × Incident)

/-- Whether one incident is no later than another. -/
def noLater (x y : Nat × Incident) : Bool := x.1 ≤ y.1

/-- The incidents in the order of their instants; those of one instant keep their order. -/
def chronology (story : Story) : Story := story.mergeSort noLater

/-- The incidents up to the first failure. -/
def upToFailure : Story → Story
  | [] => []
  | x :: rest => if x.2.isFailure then [x] else x :: upToFailure rest

/-- What is left of a story that is not heard: whether it fails, and when. -/
def Story.muted (story : Story) : Story := story.filter fun x => x.2.isFailure

/-- The paths that are entered. -/
def Story.paths (story : Story) : List Path := story.filterMap fun x => x.2.path?

namespace Story

variable {story story' early late : Story} {t w : Nat}

/-! ## One instant after another -/

/-- The incidents of an instant. -/
def during (story : Story) (t : Nat) : Story := story.filter fun x => x.1 = t

/-- The incidents of other instants. -/
def outside (story : Story) (t : Nat) : Story := story.filter fun x => x.1 ≠ t

/-- Whether there is a failure before an instant. -/
def FailsBefore (story : Story) (t : Nat) : Prop := ∃ x ∈ story, x.2.isFailure = true ∧ x.1 < t

/-- The instants are in order. -/
abbrev Sorted (story : Story) : Prop := story.Pairwise fun x y => x.1 ≤ y.1

theorem mem_during {x : Nat × Incident} : x ∈ during story t ↔ x ∈ story ∧ x.1 = t := by simp [during]

theorem mem_outside {x : Nat × Incident} : x ∈ outside story t ↔ x ∈ story ∧ x.1 ≠ t := by simp [outside]

theorem during_append (story story' : Story) (t : Nat) :
    during (story ++ story') t = during story t ++ during story' t := List.filter_append ..

theorem outside_append (story story' : Story) (t : Nat) :
    outside (story ++ story') t = outside story t ++ outside story' t := List.filter_append ..

theorem during_eq_nil (h : ∀ x ∈ story, x.1 ≠ t) : during story t = [] :=
  List.filter_eq_nil_iff.2 fun x hx => by simpa using h x hx

theorem during_eq_self (h : ∀ x ∈ story, x.1 = t) : during story t = story :=
  List.filter_eq_self.2 fun x hx => by simpa using h x hx

theorem outside_eq_nil (h : ∀ x ∈ story, x.1 = t) : outside story t = [] :=
  List.filter_eq_nil_iff.2 fun x hx => by simpa using h x hx

theorem outside_eq_self (h : ∀ x ∈ story, x.1 ≠ t) : outside story t = story :=
  List.filter_eq_self.2 fun x hx => by simpa using h x hx

theorem during_flatMap {α : Type*} (parts : List α) (f : α → Story) (t : Nat) :
    during (parts.flatMap f) t = parts.flatMap fun a => during (f a) t := List.filter_flatMap ..

theorem outside_flatMap {α : Type*} (parts : List α) (f : α → Story) (t : Nat) :
    outside (parts.flatMap f) t = parts.flatMap fun a => outside (f a) t := List.filter_flatMap ..

theorem sorted_during (story : Story) (t : Nat) : Sorted (during story t) :=
  List.pairwise_of_forall_mem_list fun x hx y hy => by rw [(mem_during.1 hx).2, (mem_during.1 hy).2]

/-- Stories in order that tell the same of every instant are the same. -/
theorem eq_of_sorted (h : Sorted story) (h' : Sorted story') (hsame : ∀ t, during story t = during story' t) :
    story = story' := by
  induction story generalizing story' with
  | nil =>
    cases story' with
    | nil => rfl
    | cons y rest' => simpa [during] using hsame y.1
  | cons x rest ih =>
    cases story' with
    | nil => simpa [during] using hsame x.1
    | cons y rest' =>
      have hx : x ∈ y :: rest' := (mem_during.1 (hsame x.1 ▸ mem_during.2 ⟨List.mem_cons_self, rfl⟩)).1
      have hy : y ∈ x :: rest := (mem_during.1 ((hsame y.1).symm ▸ mem_during.2 ⟨List.mem_cons_self, rfl⟩)).1
      have hxy : x.1 = y.1 := by
        refine Nat.le_antisymm ?_ ?_
        · rcases List.mem_cons.1 hy with rfl | hy
          · exact Nat.le_refl _
          · exact List.rel_of_pairwise_cons h hy
        · rcases List.mem_cons.1 hx with rfl | hx
          · exact Nat.le_refl _
          · exact List.rel_of_pairwise_cons h' hx
      have hhead := hsame x.1
      simp only [during, List.filter_cons, decide_true, if_true, hxy, List.cons.injEq] at hhead
      obtain ⟨rfl, -⟩ := hhead
      refine congrArg (x :: ·) (ih h.of_cons h'.of_cons fun t => ?_)
      have ht := hsame t
      simp only [during, List.filter_cons] at ht
      split at ht
      · exact (List.cons.inj ht).2
      · exact ht

/-! ## Chronologies -/

theorem noLater_trans (x y z : Nat × Incident) (h : noLater x y = true) (h' : noLater y z = true) :
    noLater x z = true := decide_eq_true (Nat.le_trans (of_decide_eq_true h) (of_decide_eq_true h'))

theorem noLater_total (x y : Nat × Incident) : (noLater x y || noLater y x) = true := by
  simpa [noLater] using Nat.le_total x.1 y.1

theorem sorted_chronology (story : Story) : Sorted (chronology story) :=
  (List.pairwise_mergeSort noLater_trans noLater_total story).imp fun h => of_decide_eq_true h

theorem perm_chronology (story : Story) : (chronology story).Perm story := List.mergeSort_perm _ _

theorem mem_chronology {x : Nat × Incident} : x ∈ chronology story ↔ x ∈ story := (perm_chronology story).mem_iff

/-- A chronology tells of every instant what the story tells of it. -/
theorem during_chronology (story : Story) (t : Nat) : during (chronology story) t = during story t := by
  have hsorted : (during story t).Pairwise fun x y => noLater x y = true :=
    (sorted_during story t).imp fun h => decide_eq_true h
  have hsub : (during story t).Sublist (chronology story) :=
    List.sublist_mergeSort noLater_trans noLater_total hsorted List.filter_sublist
  have hsub' : (during (during story t) t).Sublist (during (chronology story) t) := hsub.filter _
  rw [during_eq_self fun x hx => (mem_during.1 hx).2] at hsub'
  exact (hsub'.eq_of_length ((perm_chronology story).symm.filter _).length_eq).symm

theorem chronology_eq (h : Sorted story) (hsame : ∀ t, during story t = during story' t) : chronology story' = story :=
  eq_of_sorted (sorted_chronology story') h fun t => (during_chronology story' t).trans (hsame t).symm

theorem chronology_eq_self (h : Sorted story) : chronology story = story := chronology_eq h fun _ => rfl

theorem chronology_nil : chronology [] = [] := chronology_eq_self .nil

/-- What happens later comes later. -/
theorem chronology_append (h : ∀ x ∈ early, ∀ y ∈ late, x.1 ≤ y.1) :
    chronology (early ++ late) = chronology early ++ chronology late := by
  refine chronology_eq (List.pairwise_append.2 ⟨sorted_chronology _, sorted_chronology _, fun x hx y hy => ?_⟩)
    fun t => ?_
  · exact h x (mem_chronology.1 hx) y (mem_chronology.1 hy)
  · rw [during_append, during_append, during_chronology, during_chronology]

/-- The incidents of the first instant come first. -/
theorem chronology_split (h : ∀ x ∈ story, w ≤ x.1) :
    chronology story = during story w ++ chronology (outside story w) := by
  refine chronology_eq ?_ fun t => ?_
  · refine List.pairwise_append.2 ⟨sorted_during story w, sorted_chronology _, fun x hx y hy => ?_⟩
    rw [(mem_during.1 hx).2]
    exact h y (mem_outside.1 (mem_chronology.1 hy)).1
  · rw [during_append, during_chronology]
    by_cases ht : t = w
    · subst ht
      rw [during_eq_self fun x hx => (mem_during.1 hx).2, during_eq_nil fun x hx => (mem_outside.1 hx).2,
        List.append_nil]
    · rw [during_eq_nil fun x hx => by rw [(mem_during.1 hx).2]; exact Ne.symm ht, List.nil_append]
      unfold during outside
      rw [List.filter_filter]
      refine List.filter_congr fun x _ => ?_
      by_cases hx : x.1 = t <;> simp [hx, ht]

/-! ## Up to the first failure -/

theorem prefix_upToFailure (story : Story) : upToFailure story <+: story := by
  induction story with
  | nil => exact List.prefix_rfl
  | cons x rest ih =>
    unfold upToFailure
    split
    · exact ⟨rest, rfl⟩
    · exact List.cons_prefix_cons.2 ⟨rfl, ih⟩

theorem sorted_upToFailure (h : Sorted story) : Sorted (upToFailure story) :=
  h.sublist (prefix_upToFailure story).sublist

theorem upToFailure_eq_self (h : ∀ x ∈ story, x.2.isFailure = false) : upToFailure story = story := by
  induction story with
  | nil => rfl
  | cons x rest ih =>
    unfold upToFailure
    rw [if_neg (by simp [h x List.mem_cons_self]), ih fun y hy => h y (List.mem_cons_of_mem _ hy)]

/-- A story without failure up to its first failure has none. -/
theorem quiet_of_upToFailure (h : ∀ x ∈ upToFailure story, x.2.isFailure = false) :
    ∀ x ∈ story, x.2.isFailure = false := by
  induction story with
  | nil => exact nofun
  | cons x rest ih =>
    have hx : x.2.isFailure = false := h x (by unfold upToFailure; split <;> exact List.mem_cons_self)
    rw [upToFailure, if_neg (by simp [hx])] at h
    exact List.forall_mem_cons.2 ⟨hx, ih fun y hy => h y (List.mem_cons_of_mem _ hy)⟩

/-- What comes after a story without failure. -/
theorem upToFailure_append (h : ∀ x ∈ early, x.2.isFailure = false) (late : Story) :
    upToFailure (early ++ late) = early ++ upToFailure late := by
  induction early with
  | nil => rfl
  | cons x rest ih =>
    rw [List.cons_append, upToFailure, if_neg (by simp [h x List.mem_cons_self]),
      ih fun y hy => h y (List.mem_cons_of_mem _ hy), List.cons_append]

/-- What comes after a failure. -/
theorem upToFailure_append_of_failure {x : Nat × Incident} (h : x ∈ early) (hx : x.2.isFailure = true) (late : Story) :
    upToFailure (early ++ late) = upToFailure early := by
  induction early with
  | nil => cases h
  | cons y rest ih =>
    rw [List.cons_append, upToFailure, upToFailure]
    split
    · rfl
    · next hy =>
      rcases List.mem_cons.1 h with rfl | h
      · exact absurd hx hy
      · rw [ih h]

/-- The first part of a story may be told up to its own first failure. -/
theorem upToFailure_append_left (early late : Story) :
    upToFailure (upToFailure early ++ late) = upToFailure (early ++ late) := by
  induction early with
  | nil => rfl
  | cons x rest ih =>
    rw [List.cons_append, upToFailure, upToFailure]
    split
    · next hx => rw [List.singleton_append, upToFailure, if_pos hx]
    · next hx => rw [List.cons_append, upToFailure, if_neg hx, ih]

/-- So may the second part. -/
theorem upToFailure_append_right (early late : Story) :
    upToFailure (early ++ upToFailure late) = upToFailure (early ++ late) := by
  by_cases hfail : ∃ x ∈ early, x.2.isFailure = true
  · obtain ⟨x, hx, hxf⟩ := hfail
    rw [upToFailure_append_of_failure hx hxf, upToFailure_append_of_failure hx hxf]
  · have hnone : ∀ x ∈ early, x.2.isFailure = false := fun x hx => by simpa using fun hxf => hfail ⟨x, hx, hxf⟩
    have hidem : upToFailure (upToFailure late) = upToFailure late := by
      simpa using upToFailure_append_left late []
    rw [upToFailure_append hnone, upToFailure_append hnone, hidem]

/-- So may all parts. -/
theorem upToFailure_parts {α : Type*} (parts : List α) (f : α → Story) :
    upToFailure (parts.flatMap fun a => upToFailure (f a)) = upToFailure (parts.flatMap f) := by
  induction parts with
  | nil => rfl
  | cons a rest ih =>
    rw [List.flatMap_cons, List.flatMap_cons, upToFailure_append_left, ← upToFailure_append_right, ih,
      upToFailure_append_right]

/-- A failure is met no later than any failure of the story. -/
theorem exists_failure_le (h : Sorted story) {x : Nat × Incident} (hx : x ∈ story) (hf : x.2.isFailure = true) :
    ∃ y ∈ upToFailure story, y.2.isFailure = true ∧ y.1 ≤ x.1 := by
  induction story with
  | nil => cases hx
  | cons z rest ih =>
    unfold upToFailure
    split
    · next hz =>
      refine ⟨z, List.mem_singleton_self z, hz, ?_⟩
      rcases List.mem_cons.1 hx with rfl | hx
      · exact Nat.le_refl _
      · exact List.rel_of_pairwise_cons h hx
    · next hz =>
      rcases List.mem_cons.1 hx with rfl | hx
      · exact absurd hf hz
      · obtain ⟨y, hy, hyf, hle⟩ := ih h.of_cons hx
        exact ⟨y, List.mem_cons_of_mem _ hy, hyf, hle⟩

theorem failsBefore_upToFailure (h : Sorted story) : FailsBefore (upToFailure story) t ↔ FailsBefore story t := by
  constructor
  · rintro ⟨x, hx, hf, hlt⟩
    exact ⟨x, (prefix_upToFailure story).subset hx, hf, hlt⟩
  · rintro ⟨x, hx, hf, hlt⟩
    obtain ⟨y, hy, hyf, hle⟩ := exists_failure_le h hx hf
    exact ⟨y, hy, hyf, Nat.lt_of_le_of_lt hle hlt⟩

/-- A story in order that ends with its first failure tells nothing of later instants. -/
theorem during_upToFailure_of_failsBefore (h : Sorted story) (hb : FailsBefore story t) :
    during (upToFailure story) t = [] := by
  induction story with
  | nil => rfl
  | cons x rest ih =>
    obtain ⟨y, hy, hf, hlt⟩ := hb
    have hxt : x.1 < t := by
      rcases List.mem_cons.1 hy with rfl | hy
      · exact hlt
      · exact Nat.lt_of_le_of_lt (List.rel_of_pairwise_cons h hy) hlt
    unfold upToFailure
    split
    · exact during_eq_nil fun z hz => by
        rw [List.mem_singleton.1 hz]
        exact Nat.ne_of_lt hxt
    · next hx =>
      have hrest : FailsBefore rest t := by
        rcases List.mem_cons.1 hy with rfl | hy
        · exact absurd hf hx
        · exact ⟨y, hy, hf, hlt⟩
      unfold during
      rw [List.filter_cons_of_neg (by simpa using Nat.ne_of_lt hxt)]
      exact ih h.of_cons hrest

/-- Of the instants before, and of that of the failure, it tells all up to the failure. -/
theorem during_upToFailure (h : Sorted story) (hb : ¬ FailsBefore story t) :
    during (upToFailure story) t = upToFailure (during story t) := by
  induction story with
  | nil => rfl
  | cons x rest ih =>
    have hrest : ¬ FailsBefore rest t := fun ⟨y, hy, hf, hlt⟩ => hb ⟨y, List.mem_cons_of_mem _ hy, hf, hlt⟩
    have hsame := ih h.of_cons hrest
    by_cases hf : x.2.isFailure = true
    · rw [upToFailure, if_pos hf]
      by_cases hxt : x.1 = t
      · unfold during
        rw [List.filter_cons_of_pos (by simpa using hxt), List.filter_cons_of_pos (by simpa using hxt),
          upToFailure, if_pos hf]
        rfl
      · have hgt : t < x.1 := by
          have hnot : ¬ x.1 < t := fun hlt => hb ⟨x, List.mem_cons_self, hf, hlt⟩
          omega
        have hlate : during rest t = [] := during_eq_nil fun y hy => by
          have hle := List.rel_of_pairwise_cons h hy
          omega
        unfold during at hlate ⊢
        rw [List.filter_cons_of_neg (by simpa using hxt), List.filter_cons_of_neg (by simpa using hxt), hlate]
        rfl
    · rw [upToFailure, if_neg hf]
      unfold during at hsame ⊢
      rw [List.filter_cons, List.filter_cons]
      split
      · rw [upToFailure, if_neg hf, hsame]
      · exact hsame

/-! ## Both -/

/-- **The parts of a run may be told in the order of their instants and up to their own first failures before they are
put together.** -/
theorem upToFailure_flatMap {α : Type*} (parts : List α) (f : α → Story) :
    upToFailure (chronology (parts.flatMap fun a => upToFailure (chronology (f a)))) =
      upToFailure (chronology (parts.flatMap f)) := by
  have hsorted (story : Story) := sorted_upToFailure (sorted_chronology story)
  have hfails (story : Story) (t : Nat) : FailsBefore (chronology story) t ↔ FailsBefore story t := by
    unfold FailsBefore
    simp only [mem_chronology]
  have hparts (t : Nat) : FailsBefore (parts.flatMap fun a => upToFailure (chronology (f a))) t ↔
      FailsBefore (parts.flatMap f) t := by
    have hpart (a : α) := (failsBefore_upToFailure (t := t) (sorted_chronology (f a))).trans (hfails (f a) t)
    unfold FailsBefore at hpart ⊢
    simp only [List.mem_flatMap]
    constructor
    · rintro ⟨x, ⟨a, ha, hx⟩, hf, hlt⟩
      obtain ⟨y, hy, hyf⟩ := (hpart a).1 ⟨x, hx, hf, hlt⟩
      exact ⟨y, ⟨a, ha, hy⟩, hyf⟩
    · rintro ⟨x, ⟨a, ha, hx⟩, hf, hlt⟩
      obtain ⟨y, hy, hyf⟩ := (hpart a).2 ⟨x, hx, hf, hlt⟩
      exact ⟨y, ⟨a, ha, hy⟩, hyf⟩
  -- both sides tell the same of every instant
  refine eq_of_sorted (hsorted _) (hsorted _) fun t => ?_
  by_cases hb : FailsBefore (parts.flatMap f) t
  · rw [during_upToFailure_of_failsBefore (sorted_chronology _) ((hfails _ t).2 ((hparts t).2 hb)),
      during_upToFailure_of_failsBefore (sorted_chronology _) ((hfails _ t).2 hb)]
  · have hnone (a : α) (ha : a ∈ parts) : ¬ FailsBefore (chronology (f a)) t := by
      rw [hfails]
      exact fun ⟨x, hx, hf, hlt⟩ => hb ⟨x, List.mem_flatMap.2 ⟨a, ha, hx⟩, hf, hlt⟩
    have hpart : parts.flatMap (fun a => during (upToFailure (chronology (f a))) t) =
        parts.flatMap fun a => upToFailure (during (f a) t) := by
      refine List.flatMap_congr fun a ha => ?_
      rw [during_upToFailure (sorted_chronology _) (hnone a ha), during_chronology]
    rw [during_upToFailure (sorted_chronology _) (mt (hfails _ t).1 (mt (hparts t).1 hb)),
      during_upToFailure (sorted_chronology _) (mt (hfails _ t).1 hb), during_chronology, during_chronology,
      during_flatMap, hpart, upToFailure_parts, during_flatMap]

/-! ## Stories that are not heard -/

theorem chronology_muted (story : Story) : chronology (muted story) = muted (chronology story) := by
  refine chronology_eq ((sorted_chronology story).filter _) fun t => ?_
  unfold muted
  rw [during, during, List.filter_comm, ← during, ← during, during_chronology]
  exact (List.filter_comm ..).symm

theorem muted_cons (x : Nat × Incident) (rest : Story) :
    muted (x :: rest) = if x.2.isFailure then x :: muted rest else muted rest := List.filter_cons

theorem muted_append (early late : Story) : muted (early ++ late) = muted early ++ muted late := List.filter_append ..

theorem upToFailure_muted (story : Story) : upToFailure (muted story) = muted (upToFailure story) := by
  induction story with
  | nil => rfl
  | cons x rest ih =>
    rw [muted_cons, upToFailure]
    split
    · next hx => rw [upToFailure, if_pos hx, muted_cons, if_pos hx]; rfl
    · next hx => rw [muted_cons, if_neg hx, ih]

section Moments

variable {α : Type*} {parts : List α} {moment later : α → Story} (hmoment : ∀ a ∈ parts, ∀ x ∈ moment a, x.1 = w)
  (hlater : ∀ a ∈ parts, ∀ x ∈ later a, w < x.1)
include hmoment hlater

/-- Parts that have something to tell of the first instant, and then of later ones. -/
theorem chronology_moments : chronology (parts.flatMap fun a => moment a ++ later a) =
    parts.flatMap moment ++ chronology (parts.flatMap later) := by
  have hfirst : ∀ x ∈ parts.flatMap fun a => moment a ++ later a, w ≤ x.1 := by
    intro x hx
    obtain ⟨a, ha, hx⟩ := List.mem_flatMap.1 hx
    rcases List.mem_append.1 hx with hx | hx
    · exact Nat.le_of_eq (hmoment a ha x hx).symm
    · exact Nat.le_of_lt (hlater a ha x hx)
  have hduring : during (parts.flatMap fun a => moment a ++ later a) w = parts.flatMap moment := by
    rw [during_flatMap]
    refine List.flatMap_congr fun a ha => ?_
    rw [during_append, during_eq_self (hmoment a ha), during_eq_nil fun x hx => Nat.ne_of_gt (hlater a ha x hx),
      List.append_nil]
  have houtside : outside (parts.flatMap fun a => moment a ++ later a) w = parts.flatMap later := by
    rw [outside_flatMap]
    refine List.flatMap_congr fun a ha => ?_
    rw [outside_append, outside_eq_nil (hmoment a ha), outside_eq_self fun x hx => Nat.ne_of_gt (hlater a ha x hx),
      List.nil_append]
  rw [chronology_split hfirst, hduring, houtside]

/-- Where nothing fails at the first instant, all else comes after it. -/
theorem upToFailure_moments (hquiet : ∀ x ∈ parts.flatMap moment, x.2.isFailure = false) :
    upToFailure (chronology (parts.flatMap fun a => moment a ++ later a)) =
      parts.flatMap moment ++ upToFailure (chronology (parts.flatMap later)) := by
  rw [chronology_moments hmoment hlater, upToFailure_append hquiet]

/-- A failure at the first instant ends the story. -/
theorem upToFailure_moments_of_failure {x : Nat × Incident} (hx : x ∈ parts.flatMap moment)
    (hf : x.2.isFailure = true) :
    upToFailure (chronology (parts.flatMap fun a => moment a ++ later a)) = upToFailure (parts.flatMap moment) := by
  rw [chronology_moments hmoment hlater, upToFailure_append_of_failure hx hf]

end Moments

/-! ## The first failure -/

theorem during_filter (q : Nat → Bool) (story : Story) (t : Nat) :
    during (story.filter fun x => q x.1) t = if q t then during story t else [] := by
  unfold during
  rw [List.filter_filter]
  split
  · next h =>
    refine List.filter_congr fun x _ => ?_
    by_cases hx : x.1 = t <;> simp [hx, h]
  · next h =>
    refine List.filter_eq_nil_iff.2 fun x _ hx => ?_
    obtain ⟨heq, hq⟩ := Bool.and_eq_true_iff.1 hx
    exact h (of_decide_eq_true heq ▸ hq)

/-- A failure of a story is the first one if none is earlier, and none of the same instant is told before it. -/
structure FirstFailure (story before : Story) (t : Nat) (e : ExecutionError) (after : Story) : Prop where
  split : story = before ++ (t, .failed e) :: after
  before : ∀ x ∈ before, x.2.isFailure = true → t < x.1
  after : ∀ x ∈ after, x.2.isFailure = true → t ≤ x.1

/-- What comes before an incident in the order of instants: of what is told before it all that is no later, and of what
is told after it all that is earlier. -/
def preceding (before : Story) (t : Nat) (after : Story) : Story :=
  chronology ((before.filter fun x => x.1 ≤ t) ++ after.filter fun x => x.1 < t)

/-- Where an incident is told. -/
theorem exists_split {x : Nat × Incident} {rest : Story} (h : during story t = early ++ x :: rest) :
    ∃ before after, story = before ++ x :: after ∧ during before t = early := by
  obtain ⟨first, others, hsplit, hfirst, hothers⟩ := List.filter_eq_append_iff.1 h
  obtain ⟨skipped, after, rfl, hskipped, -, -⟩ := List.filter_eq_cons_iff.1 hothers
  refine ⟨first ++ skipped, after, by rw [hsplit, List.append_assoc], ?_⟩
  have hnone : during skipped t = [] := during_eq_nil fun x hx => by simpa using hskipped x hx
  rw [during_append, hnone, List.append_nil]
  exact hfirst

section Told

variable {body : Story} {e : ExecutionError} (h : upToFailure (chronology story) = body ++ [(t, .failed e)])
  (hquiet : ∀ x ∈ body, x.2.isFailure = false)
include h

/-- What comes before a failure is no later. -/
theorem told_before : Sorted body ∧ ∀ x ∈ body, x.1 ≤ t := by
  have hsorted := List.pairwise_append.1 (h ▸ sorted_upToFailure (sorted_chronology story))
  exact ⟨hsorted.1, fun x hx => hsorted.2.2 x hx (t, .failed e) (List.mem_singleton_self _)⟩

include hquiet

/-- No failure is earlier than the first. -/
theorem le_of_failure : ∀ x ∈ story, x.2.isFailure = true → t ≤ x.1 := by
  intro x hx hf
  obtain ⟨y, hy, hyf, hle⟩ := exists_failure_le (sorted_chronology story) (mem_chronology.2 hx) hf
  rw [h] at hy
  rcases List.mem_append.1 hy with hy | hy
  · rw [hquiet y hy] at hyf
    cases hyf
  · rwa [List.mem_singleton.1 hy] at hle

/-- Of the instants before all is told. -/
theorem during_before {t' : Nat} (ht' : t' < t) : during body t' = during story t' := by
  have hnone : during [(t, Incident.failed e)] t' = [] := during_eq_nil (by simpa using Nat.ne_of_gt ht')
  have hall : ∀ x ∈ during story t', x.2.isFailure = false := fun x hx => by
    obtain ⟨hmem, rfl⟩ := mem_during.1 hx
    by_contra hf
    exact absurd (le_of_failure h hquiet x hmem (by simpa using hf)) (Nat.not_le_of_lt ht')
  have hb : ¬ FailsBefore (chronology story) t' := fun ⟨x, hx, hf, hlt⟩ => by
    have hle := le_of_failure h hquiet x (mem_chronology.1 hx) hf
    omega
  have hsame := during_upToFailure (sorted_chronology story) hb
  rwa [h, during_append, hnone, List.append_nil, during_chronology, upToFailure_eq_self hall] at hsame

/-- Of the instant of the failure what comes before it is told. -/
theorem during_failure : ∃ rest, during story t = during body t ++ (t, .failed e) :: rest := by
  have hb : ¬ FailsBefore (chronology story) t := fun ⟨x, hx, hf, hlt⟩ => by
    have hle := le_of_failure h hquiet x (mem_chronology.1 hx) hf
    omega
  have hsame := during_upToFailure (sorted_chronology story) hb
  have hself : during [(t, Incident.failed e)] t = [(t, .failed e)] := during_eq_self (by simp)
  rw [h, during_append, hself, during_chronology] at hsame
  obtain ⟨rest, hrest⟩ := prefix_upToFailure (during story t)
  exact ⟨rest, by rw [← hrest, ← hsame, List.append_assoc]; rfl⟩

/-- **What a story tells in the order of instants, up to the first failure.** -/
theorem firstFailure_of_upToFailure :
    ∃ before after, FirstFailure story before t e after ∧ body = preceding before t after := by
  obtain ⟨rest, hrest⟩ := during_failure h hquiet
  obtain ⟨before, after, hsplit, hbefore⟩ := exists_split hrest
  obtain ⟨hsorted, hbody⟩ := told_before h
  refine ⟨before, after, ⟨hsplit, fun x hx hf => ?_, fun x hx hf => ?_⟩, (chronology_eq hsorted fun t' => ?_).symm⟩
  · have hle := le_of_failure h hquiet x (hsplit ▸ List.mem_append_left _ hx) hf
    refine Nat.lt_of_le_of_ne hle fun heq => ?_
    have hmem : x ∈ during body t := hbefore ▸ mem_during.2 ⟨hx, heq.symm⟩
    rw [hquiet x (mem_during.1 hmem).1] at hf
    cases hf
  · exact le_of_failure h hquiet x (hsplit ▸ List.mem_append_right _ (List.mem_cons_of_mem _ hx)) hf
  · rw [during_append, during_filter (fun w => decide (w ≤ t)), during_filter (fun w => decide (w < t))]
    rcases Nat.lt_trichotomy t' t with hlt | rfl | hgt
    · have hcons : during ((t, Incident.failed e) :: after) t' = during after t' :=
        List.filter_cons_of_neg (by simpa using Nat.ne_of_gt hlt)
      rw [if_pos (by simpa using Nat.le_of_lt hlt), if_pos (by simpa using hlt), during_before h hquiet hlt, hsplit,
        during_append, hcons]
    · simpa using hbefore.symm
    · have hnone : during body t' = [] := during_eq_nil fun x hx => by
        have hle := hbody x hx
        omega
      simp [hnone, Nat.not_le_of_lt hgt, Nat.not_lt_of_lt hgt]

end Told

end Story

end MediaQuery
