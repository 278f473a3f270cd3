import MediaQuery.Path
import Mathlib.Data.List.Basic
import Mathlib.Data.List.TakeWhile

/-!
# Paths as text

The text of a path tells the path, if its keys are plain (`Path.render_eq_iff`): no key holds one of the characters that
set segments and the step of a chain apart, which are the dot, the opening bracket and the dash.

A dash then stands in the text only where a step follows, so the text of the segments ends before it
(`Path.eq_of_append_ending`). A dot or a bracket stands there only where a segment begins, so there is one way to cut it
into the texts of the segments (`eq_of_flatten_eq`). Each of these tells its segment (`Segment.render_injective`).
-/

namespace MediaQuery

/-! ## Pieces of a text -/

section Pieces

variable {α : Type} {begins : α → Bool} {body : List α} {xs ys : List (List α)}

/-- A piece begins with a character that begins pieces, and has no other one. -/
def IsPiece (begins : α → Bool) (piece : List α) : Prop :=
  ∃ c body, piece = c :: body ∧ begins c = true ∧ ∀ d ∈ body, begins d = false

/-- Nothing stands before the first piece. -/
theorem takeWhile_flatten_eq_nil (h : ∀ x ∈ xs, IsPiece begins x) : xs.flatten.takeWhile (fun c => !begins c) = [] := by
  cases xs with
  | nil => rfl
  | cons x xs =>
    obtain ⟨c, body, rfl, hc, -⟩ := h x List.mem_cons_self
    rw [List.flatten_cons, List.cons_append, List.takeWhile_cons_of_neg (by simp [hc])]

/-- The rest of a piece reaches to where the next one begins. -/
theorem takeWhile_body (hbody : ∀ d ∈ body, begins d = false) (h : ∀ x ∈ xs, IsPiece begins x) :
    (body ++ xs.flatten).takeWhile (fun c => !begins c) = body := by
  have hpos : ∀ d ∈ body, (!begins d) = true := by
    intro d hd
    rw [hbody d hd, Bool.not_false]
  rw [List.takeWhile_append_of_pos hpos, takeWhile_flatten_eq_nil h, List.append_nil]

/-- **A text is cut into pieces in one way only.** -/
theorem eq_of_flatten_eq (hx : ∀ x ∈ xs, IsPiece begins x) (hy : ∀ y ∈ ys, IsPiece begins y)
    (h : xs.flatten = ys.flatten) : xs = ys := by
  -- pieces are not empty, so both lists end together
  induction xs generalizing ys with
  | nil =>
    cases ys with
    | nil => rfl
    | cons y ys =>
      obtain ⟨c, body, rfl, -, -⟩ := hy y List.mem_cons_self
      cases h
  | cons x xs ih =>
    obtain ⟨c, body, rfl, -, hbody⟩ := hx x List.mem_cons_self
    cases ys with
    | nil => cases h
    | cons y ys =>
      obtain ⟨c', body', rfl, -, hbody'⟩ := hy y List.mem_cons_self
      have hxs : ∀ x ∈ xs, IsPiece begins x := fun x hm => hx x (List.mem_cons_of_mem _ hm)
      have hys : ∀ y ∈ ys, IsPiece begins y := fun y hm => hy y (List.mem_cons_of_mem _ hm)
      rw [List.flatten_cons, List.flatten_cons, List.cons_append, List.cons_append, List.cons.injEq] at h
      obtain ⟨rfl, hrest⟩ := h
      have hsame : body = body' := by
        rw [← takeWhile_body hbody hxs, hrest, takeWhile_body hbody' hys]
      subst hsame
      rw [ih hxs hys (List.append_cancel_left hrest)]

end Pieces

/-! ## Numbers -/

/-- A number is told by its digits. -/
theorem toDigits_injective {m n : Nat} (h : Nat.toDigits 10 m = Nat.toDigits 10 n) : m = n := by
  rw [← Nat.ofDigitChars_ten_toDigits (n := m), h, Nat.ofDigitChars_ten_toDigits]

theorem not_mem_toDigits {c : Char} (hc : c.isDigit = false) (n : Nat) : c ∉ Nat.toDigits 10 n := by
  intro hm
  rw [Nat.isDigit_of_mem_toDigits (by decide) (by decide) hm] at hc
  cases hc

/-! ## Segments -/

namespace Segment

variable {s t : Segment}

/-- The characters that begin a segment in the text of a path. -/
def begins (c : Char) : Bool := c = '.' || c = '['

/-- A segment is plain if its key, where it has one, holds no character that begins a segment, and no dash. -/
def IsPlain : Segment → Prop
  | .key name => ∀ c ∈ name.toList, begins c = false ∧ c ≠ '—'
  | .index _ => True

theorem toList_render_key (name : String) : (key name).render.toList = '.' :: name.toList := by
  simp [render]

theorem toList_render_index (i : Nat) : (index i).render.toList = '[' :: (Nat.toDigits 10 i ++ [']']) := by
  simp [render]

/-- The text of a segment tells the segment, whatever its key is. -/
theorem render_injective (h : s.render.toList = t.render.toList) : s = t := by
  cases s with
  | key name =>
    cases t with
    | key name' =>
      rw [toList_render_key, toList_render_key, List.cons.injEq, String.toList_inj] at h
      rw [h.2]
    | index j =>
      rw [toList_render_key, toList_render_index, List.cons.injEq] at h
      exact absurd h.1 (by decide)
  | index i =>
    cases t with
    | key name' =>
      rw [toList_render_key, toList_render_index, List.cons.injEq] at h
      exact absurd h.1 (by decide)
    | index j =>
      rw [toList_render_index, toList_render_index, List.cons.injEq] at h
      rw [toDigits_injective (List.append_cancel_right h.2)]

/-- The text of a plain segment is a piece, and has no dash. -/
theorem IsPlain.piece (h : s.IsPlain) : IsPiece begins s.render.toList ∧ '—' ∉ s.render.toList := by
  cases s with
  | key name =>
    rw [toList_render_key]
    refine ⟨⟨'.', name.toList, rfl, rfl, fun c hc => (h c hc).1⟩, ?_⟩
    rw [List.mem_cons, not_or]
    exact ⟨by decide, fun hdash => (h '—' hdash).2 rfl⟩
  | index i =>
    have hbody : ∀ c ∈ Nat.toDigits 10 i ++ [']'], begins c = false ∧ c ≠ '—' := by
      intro c hc
      rcases List.mem_append.1 hc with hdigit | hbracket
      · have hdot : c ≠ '.' := ne_of_mem_of_not_mem hdigit (not_mem_toDigits rfl i)
        have hopening : c ≠ '[' := ne_of_mem_of_not_mem hdigit (not_mem_toDigits rfl i)
        exact ⟨by simp [begins, hdot, hopening], ne_of_mem_of_not_mem hdigit (not_mem_toDigits rfl i)⟩
      · rw [List.mem_singleton.1 hbracket]
        decide
    rw [toList_render_index]
    refine ⟨⟨'[', _, rfl, rfl, fun c hc => (hbody c hc).1⟩, ?_⟩
    rw [List.mem_cons, not_or]
    exact ⟨by decide, fun hdash => (hbody '—' hdash).2 rfl⟩

end Segment

/-! ## Paths -/

namespace Path

variable {p q : Path}

/-- A path with plain segments. -/
def IsPlain (p : Path) : Prop := ∀ s ∈ p.segments, s.IsPlain

/-- The texts of the segments. -/
def texts (p : Path) : List (List Char) := p.segments.map fun s => s.render.toList

/-- What ends the text: the step of the chain, if there is one. -/
def ending : Option Nat → List Char
  | some n => ' ' :: '—' :: (" (chain step ".toList ++ (Nat.toDigits 10 n ++ [')']))
  | none => []

theorem toList_render (p : Path) : p.render.toList = '$' :: (p.texts.flatten ++ ending p.step) := by
  obtain ⟨segments, step⟩ := p
  cases step with
  | none => simp [render, texts, ending, List.flatMap, Function.comp_def]
  | some n => simp [render, texts, ending, List.flatMap, Function.comp_def]

/-- The texts of plain segments are pieces. -/
theorem IsPlain.pieces (h : p.IsPlain) : ∀ x ∈ p.texts, IsPiece Segment.begins x := by
  intro x hx
  obtain ⟨s, hs, rfl⟩ := List.mem_map.1 hx
  exact (h s hs).piece.1

/-- There is no dash in them. -/
theorem IsPlain.not_mem (h : p.IsPlain) : '—' ∉ p.texts.flatten := by
  intro hdash
  obtain ⟨x, hx, hmem⟩ := List.mem_flatten.1 hdash
  obtain ⟨s, hs, rfl⟩ := List.mem_map.1 hx
  exact (h s hs).piece.2 hmem

/-- **The dash tells where the segments end.** -/
theorem eq_of_append_ending {front front' : List Char} {step step' : Option Nat} (hfront : '—' ∉ front)
    (hfront' : '—' ∉ front') (h : front ++ ending step = front' ++ ending step') : front = front' ∧ step = step' := by
  cases step with
  | none =>
    cases step' with
    | none => exact ⟨List.append_cancel_right h, rfl⟩
    | some n =>
      rw [ending, ending, List.append_nil] at h
      rw [h] at hfront
      simp at hfront
  | some m =>
    cases step' with
    | none =>
      rw [ending, ending, List.append_nil] at h
      rw [← h] at hfront'
      simp at hfront'
    | some n =>
      -- a key may end with a blank, so the blank before the dash counts as part of what is in front of it
      rw [ending, ending, List.append_cons, List.append_cons front'] at h
      have hblank : '—' ∉ front ++ [' '] := by simp [hfront]
      have hrest : '—' ∉ " (chain step ".toList ++ (Nat.toDigits 10 m ++ [')']) := by simp [not_mem_toDigits]
      obtain ⟨hsame, -, hdigits⟩ := (List.append_cons_inj_of_notMem hblank hrest).1 h
      have hstep := toDigits_injective (List.append_cancel_right (List.append_cancel_left hdigits))
      exact ⟨List.append_cancel_right hsame, congrArg some hstep⟩

/-- **The text of a path tells the path**, segment by segment and with the step of the chain, if its keys are plain. -/
theorem render_eq_iff (hp : p.IsPlain) (hq : q.IsPlain) : p.render = q.render ↔ p = q := by
  constructor
  · intro h
    have htext := congrArg String.toList h
    rw [toList_render, toList_render, List.cons.injEq] at htext
    obtain ⟨hfront, hstep⟩ := eq_of_append_ending hp.not_mem hq.not_mem htext.2
    have htexts : p.texts = q.texts := eq_of_flatten_eq hp.pieces hq.pieces hfront
    have hsegments : p.segments = q.segments := List.map_injective_iff.2 (fun _ _ => Segment.render_injective) htexts
    obtain ⟨segments, step⟩ := p
    obtain ⟨segments', step'⟩ := q
    rw [Path.mk.injEq]
    exact ⟨hsegments, hstep⟩
  · rintro rfl
    rfl

/-- Each of the three characters can make two paths look the same. -/
example : (ofSegments [.key "a.b"]).render = (ofSegments [.key "a", .key "b"]).render ∧
    (ofSegments [.key "a[0]"]).render = (ofSegments [.key "a", .index 0]).render ∧
    (ofSegments [.key "a — (chain step 1)"]).render = ((ofSegments [.key "a"]).withStep 1).render := by decide

/-- Keys with a bracket, with nothing and with a blank at the end, an index, and a step. -/
def bracketed : Path := ⟨[.key "a]", .key "", .index 10, .key "b "], some 2⟩

/-- A key that looks like the index but for its first character. -/
def unopened : Path := ⟨[.key "a]", .key "", .key "10]", .key "b "], some 2⟩

/-- The two texts differ, in this one character. -/
theorem render_ne_of_unopened : bracketed.IsPlain ∧ unopened.IsPlain ∧ bracketed ≠ unopened ∧
    bracketed.render ≠ unopened.render := by
  have hp : bracketed.IsPlain := by simp [bracketed, IsPlain, Segment.IsPlain, Segment.begins]
  have hq : unopened.IsPlain := by simp [unopened, IsPlain, Segment.IsPlain, Segment.begins]
  have hne : bracketed ≠ unopened := by decide
  exact ⟨hp, hq, hne, mt (render_eq_iff hp hq).1 hne⟩

end Path

end MediaQuery
