import MediaQuery.Text.Blank
import MediaQuery.Text.Digit
import Mathlib.Data.List.Induction
import Mathlib.Data.List.TakeWhile
import Mathlib.Data.Nat.Digits.Defs

/-!
# Classes of characters

Two classes whose spans lie apart have no character in common (`not_inSpans_of_apart`), so no decimal digit is a blank.
What `trim` leaves of a text is all of it but blanks at both ends (`exists_trim`), and blanks that are put around a text
that neither begins nor ends with one are taken off again (`trim_surrounded`). A run of decimal digits denotes a number,
in whichever script it is written (`denoted`).
-/

namespace MediaQuery.Text

/-! ## Classes without common characters -/

/-- Whether each span of one list ends before each of the other one begins, or begins after it ends. -/
def apart (spans spans' : List Span) : Bool := spans.all fun s => spans'.all fun t => s.2 < t.1 || t.2 < s.1

theorem not_inSpans_of_apart {spans spans' : List Span} {c : Char} (h : apart spans spans' = true)
    (hc : inSpans spans c = true) : inSpans spans' c = false := by
  obtain ⟨s, hs, hlow, hhigh⟩ := inSpans_iff.1 hc
  rw [← Bool.not_eq_true, inSpans_iff]
  rintro ⟨t, ht, hlow', hhigh'⟩
  simp only [apart, List.all_eq_true, Bool.or_eq_true, decide_eq_true_eq] at h
  have hst := h s hs t ht
  omega

theorem not_isBlank_of_isDecimal {c : Char} (h : isDecimal c = true) : isBlank c = false := by
  have hapart : apart decimalSpans blankSpans = true := by decide
  exact not_inSpans_of_apart hapart h

/-! ## Blanks around a text -/

/-- All that is taken off is blank. -/
theorem exists_trim (s : List Char) : ∃ lead trail : List Char, (∀ c ∈ lead, isBlank c = true) ∧
    (∀ c ∈ trail, isBlank c = true) ∧ s = lead ++ trim s ++ trail := by
  have hback := List.takeWhile_append_dropWhile (p := isBlank) (l := (s.dropWhile isBlank).reverse)
  rw [← List.reverse_inj, List.reverse_append, List.reverse_reverse] at hback
  refine ⟨s.takeWhile isBlank, ((s.dropWhile isBlank).reverse.takeWhile isBlank).reverse, ?_, ?_, ?_⟩
  · intro c hc
    exact List.mem_takeWhile_imp hc
  · intro c hc
    exact List.mem_takeWhile_imp (List.mem_reverse.1 hc)
  · rw [trim, List.append_assoc, hback, List.takeWhile_append_dropWhile]

theorem trim_append_left {lead : List Char} (h : ∀ c ∈ lead, isBlank c = true) (s : List Char) :
    trim (lead ++ s) = trim s := by
  rw [trim, List.dropWhile_append_of_pos h, trim]

theorem trim_append_right {trail : List Char} (h : ∀ c ∈ trail, isBlank c = true) (s : List Char) :
    trim (s ++ trail) = trim s := by
  rw [trim, trim, List.dropWhile_append]
  split
  · next hempty =>
    rw [List.isEmpty_iff.1 hempty, List.dropWhile_eq_nil_iff.2 h]
  · have hback : ∀ c ∈ trail.reverse, isBlank c = true := by
      intro c hc
      exact h c (List.mem_reverse.1 hc)
    rw [List.reverse_append, List.dropWhile_append_of_pos hback]

theorem dropWhile_isBlank_eq_self {s : List Char} (h : ∀ c ∈ s.head?, isBlank c = false) : s.dropWhile isBlank = s := by
  cases s with
  | nil => rfl
  | cons c rest =>
    apply List.dropWhile_cons_of_neg
    simp [h c rfl]

/-- Blanks around a text are taken off, if it has none at its own ends. -/
theorem trim_surrounded {lead body trail : List Char} (hlead : ∀ c ∈ lead, isBlank c = true)
    (htrail : ∀ c ∈ trail, isBlank c = true) (hfirst : ∀ c ∈ body.head?, isBlank c = false)
    (hlast : ∀ c ∈ body.getLast?, isBlank c = false) : trim (lead ++ body ++ trail) = body := by
  rw [trim_append_right htrail, trim_append_left hlead, trim, dropWhile_isBlank_eq_self hfirst,
    dropWhile_isBlank_eq_self, List.reverse_reverse]
  intro c hc
  apply hlast
  rwa [List.head?_reverse] at hc

/-! ## Numbers -/

/-- The value of a decimal digit of any script: its place in its run of ten. -/
def digitValue (c : Char) : Nat :=
  match decimalSpans.find? fun s => s.1 ≤ c.toNat && c.toNat ≤ s.2 with
  | some s => (c.toNat - s.1) % 10
  | none => 0

/-- The number that a run of decimal digits denotes. -/
def denoted (digits : List Char) : Nat := Nat.ofDigits 10 (digits.reverse.map digitValue)

theorem denoted_append_singleton (digits : List Char) (c : Char) :
    denoted (digits ++ [c]) = denoted digits * 10 + digitValue c := by
  rw [denoted, denoted, List.reverse_append, List.reverse_singleton, List.singleton_append, List.map_cons,
    Nat.ofDigits_cons]
  omega

/-- The digits of ASCII have the values that their places among the characters say. -/
theorem digitValue_of_isDigit {c : Char} (h : c.isDigit = true) : digitValue c = c.toNat - '0'.toNat := by
  simp only [Char.isDigit, Bool.and_eq_true, decide_eq_true_eq, ge_iff_le] at h
  have hlow : 0x30 ≤ c.toNat := UInt32.le_iff_toNat_le.1 h.1
  have hhigh : c.toNat ≤ 0x39 := UInt32.le_iff_toNat_le.1 h.2
  have hfirst : (decimalSpans.find? fun s => s.1 ≤ c.toNat && c.toNat ≤ s.2) = some (0x30, 0x39) := by
    rw [decimalSpans, List.find?_cons_of_pos]
    simp [hlow, hhigh]
  have hzero : '0'.toNat = 0x30 := rfl
  rw [digitValue, hfirst, hzero]
  simp only
  omega

/-- Reading the digits of ASCII from left to right gives the number that they denote. -/
theorem foldl_eq_denoted {digits : List Char} (h : ∀ c ∈ digits, c.isDigit = true) :
    digits.foldl (fun n c => n * 10 + (c.toNat - '0'.toNat)) 0 = denoted digits := by
  induction digits using List.reverseRecOn with
  | nil => rfl
  | append_singleton digits c ih =>
    have hinit : ∀ c ∈ digits, c.isDigit = true := by
      intro d hd
      exact h d (List.mem_append_left [c] hd)
    have hlast : c.isDigit = true := h c (List.mem_append_right digits List.mem_cons_self)
    rw [List.foldl_append, ih hinit, denoted_append_singleton, digitValue_of_isDigit hlast]
    rfl

end MediaQuery.Text
