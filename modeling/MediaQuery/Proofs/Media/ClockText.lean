import MediaQuery.Media.Duration
import MediaQuery.Proofs.Text.Classes
import Mathlib.Data.List.Basic

/-!
# Clock texts

The grammar of clock texts (`Clock.Spells`, and `Clock.Written` with blanks around the text and a last `S`) says how the
parts of a duration may be written, for any class of digits. Reading a text finds these parts, if the digits are those
of any script (`written_iff`), and it finds them in no other text. So a text is a duration exactly if it is a clock text
(`durationSeconds_eq_ok_iff`).

With the digits of ASCII, and where the sum fits the word, the seconds are those that the parts denote
(`clockTexts_read`). Where it does not, or with other digits, a part that cannot be read as a number counts nothing
instead of making the reading fail, so that the duration is understated (`counted_of_duration`).
-/

namespace MediaQuery.Media

open MediaQuery.Text

variable {text : List Char} {mark : Char} {c : Clock}

/-! ## Cutting -/

/-- A run of digits is not cut. -/
theorem cut_digits {digits : List Char} (h : ∀ x ∈ digits, isDecimal x = true) : cut digits = (digits, []) := by
  induction digits with
  | nil => rfl
  | cons x digits ih =>
    obtain ⟨hx, hdigits⟩ := List.forall_mem_cons.1 h
    rw [cut, if_pos hx, ih hdigits]

/-- The first cut is behind the digits in front. -/
theorem cut_append {digits : List Char} (h : ∀ x ∈ digits, isDecimal x = true) (hmark : isDecimal mark = false)
    (rest : List Char) : cut (digits ++ mark :: rest) = (digits, (mark, (cut rest).1) :: (cut rest).2) := by
  induction digits with
  | nil => rw [List.nil_append, cut, if_neg (by simp [hmark])]
  | cons x digits ih =>
    obtain ⟨hx, hdigits⟩ := List.forall_mem_cons.1 h
    rw [List.cons_append, cut, if_pos hx, ih hdigits]

/-- The pieces consist of digits. -/
theorem digits_of_cut (s : List Char) :
    (∀ x ∈ (cut s).1, isDecimal x = true) ∧ ∀ e ∈ (cut s).2, ∀ x ∈ e.2, isDecimal x = true := by
  induction s with
  | nil => simp [cut]
  | cons x rest ih =>
    rw [cut]
    split
    · next hx => exact ⟨List.forall_mem_cons.2 ⟨hx, ih.1⟩, ih.2⟩
    · exact ⟨by simp, List.forall_mem_cons.2 ih⟩

/-- At most an `S` is left out. -/
theorem dropSecondMark_cases (s : List Char) : s = dropSecondMark s ++ [] ∨ s = dropSecondMark s ++ ['S'] := by
  unfold dropSecondMark
  split
  · next hlast =>
    obtain ⟨init, rfl⟩ := List.getLast?_eq_some_iff.1 hlast
    right
    rw [List.dropLast_concat]
  · left
    rw [List.append_nil]

namespace Clock

/-! ## The grammar -/

/-- The clock texts without blanks and without a last mark: minutes and two digits of seconds, with one or two digits of
hours before them, and with any number of digits of days before those. Behind each part but the last one stands a colon
or the letter of the part. -/
inductive Spells (digit : Char → Bool) : Clock → List Char → Prop
  | minutes {m s : List Char} {mark : Char} : (m.length = 1 ∨ m.length = 2) → (∀ x ∈ m, digit x = true) →
      (mark = ':' ∨ mark = 'M') → s.length = 2 → (∀ x ∈ s, digit x = true) →
      Spells digit ⟨[], [], m, s⟩ (m ++ mark :: s)
  | hours {h m s text : List Char} {mark : Char} : (h.length = 1 ∨ h.length = 2) → (∀ x ∈ h, digit x = true) →
      (mark = ':' ∨ mark = 'H') → Spells digit ⟨[], [], m, s⟩ text → Spells digit ⟨[], h, m, s⟩ (h ++ mark :: text)
  | days {d h m s text : List Char} {mark : Char} : d ≠ [] → (∀ x ∈ d, digit x = true) → (mark = ':' ∨ mark = 'D') →
      h ≠ [] → Spells digit ⟨[], h, m, s⟩ text → Spells digit ⟨d, h, m, s⟩ (d ++ mark :: text)

/-- The clock texts with blanks around them, and with an `S` behind the seconds or without. -/
inductive Written (digit : Char → Bool) (c : Clock) : List Char → Prop
  | intro {lead core ending trail : List Char} : (∀ x ∈ lead, isBlank x = true) → Spells digit c core →
      (ending = [] ∨ ending = ['S']) → (∀ x ∈ trail, isBlank x = true) →
      Written digit c (lead ++ (core ++ ending) ++ trail)

variable {digit digit' : Char → Bool}

theorem ne_nil_of_length {part : List Char} (h : part.length = 1 ∨ part.length = 2) : part ≠ [] := by
  rintro rfl
  simp at h

/-- Only the digits in the text matter. -/
theorem Spells.of_digits (h : Spells digit c text) (hd : ∀ x ∈ text, digit x = true → digit' x = true) :
    Spells digit' c text := by
  induction h with
  | minutes hm hmd hmark hs hsd =>
    refine .minutes hm ?_ hmark hs ?_
    · intro x hx
      exact hd x (List.mem_append_left _ hx) (hmd x hx)
    · intro x hx
      exact hd x (List.mem_append_right _ (List.mem_cons_of_mem _ hx)) (hsd x hx)
  | hours hh hhd hmark _ ih =>
    refine .hours hh ?_ hmark (ih ?_)
    · intro x hx
      exact hd x (List.mem_append_left _ hx) (hhd x hx)
    · intro x hx
      exact hd x (List.mem_append_right _ (List.mem_cons_of_mem _ hx))
  | days hne hdd hmark hh _ ih =>
    refine .days hne ?_ hmark hh (ih ?_)
    · intro x hx
      exact hd x (List.mem_append_left _ hx) (hdd x hx)
    · intro x hx
      exact hd x (List.mem_append_right _ (List.mem_cons_of_mem _ hx))

theorem Written.of_digits (h : c.Written digit text) (hd : ∀ x ∈ text, digit x = true → digit' x = true) :
    c.Written digit' text := by
  obtain ⟨hlead, hcore, hending, htrail⟩ := h
  refine .intro hlead (hcore.of_digits ?_) hending htrail
  intro x hx
  apply hd x
  simp [hx]

/-- The parts of a clock text. -/
def parts (c : Clock) : List (List Char) := [c.days, c.hours, c.minutes, c.seconds]

theorem Spells.digits (h : Spells digit c text) : ∀ part ∈ c.parts, ∀ x ∈ part, digit x = true := by
  induction h with
  | minutes _ hmd _ _ hsd => simpa [parts] using ⟨hmd, hsd⟩
  | hours _ hhd _ _ ih =>
    simp only [parts, List.forall_mem_cons] at ih ⊢
    exact ⟨ih.1, hhd, ih.2.2⟩
  | days _ hdd _ _ _ ih =>
    simp only [parts, List.forall_mem_cons] at ih ⊢
    exact ⟨hdd, ih.2⟩

theorem Written.digits (h : c.Written digit text) : ∀ part ∈ c.parts, ∀ x ∈ part, digit x = true := by
  obtain ⟨-, hcore, -, -⟩ := h
  exact hcore.digits

/-- A clock text begins with a digit. -/
theorem Spells.head? (h : Spells digit c text) : ∃ x, text.head? = some x ∧ digit x = true := by
  have hfirst {part : List Char} (hne : part ≠ []) (hpart : ∀ x ∈ part, digit x = true) (rest : List Char) :
      ∃ x, (part ++ rest).head? = some x ∧ digit x = true := by
    obtain ⟨x, part', rfl⟩ := List.exists_cons_of_ne_nil hne
    exact ⟨x, rfl, hpart x List.mem_cons_self⟩
  cases h with
  | minutes hm hmd => exact hfirst (ne_nil_of_length hm) hmd _
  | hours hh hhd => exact hfirst (ne_nil_of_length hh) hhd _
  | days hne hdd => exact hfirst hne hdd _

/-- It ends with a digit. -/
theorem Spells.getLast? (h : Spells digit c text) : ∃ x, text.getLast? = some x ∧ digit x = true := by
  have hlast {rest : List Char} {x : Char} (hx : rest.getLast? = some x) (part : List Char) (mark : Char) :
      (part ++ mark :: rest).getLast? = some x := by
    simp [List.getLast?_append, List.getLast?_cons, hx]
  induction h with
  | minutes _ _ _ hs hsd =>
    obtain ⟨a, b, rfl⟩ := List.length_eq_two.1 hs
    exact ⟨b, hlast rfl _ _, hsd b (by simp)⟩
  | hours _ _ _ _ ih =>
    obtain ⟨x, hx, hdigit⟩ := ih
    exact ⟨x, hlast hx _ _, hdigit⟩
  | days _ _ _ _ _ ih =>
    obtain ⟨x, hx, hdigit⟩ := ih
    exact ⟨x, hlast hx _ _, hdigit⟩

/-! ## Reading finds what the grammar says -/

theorem ofMinutes?_eq_some_iff {m s : List Char} : ofMinutes? m mark s = some c ↔
    (m.length = 1 ∨ m.length = 2) ∧ (mark = ':' ∨ mark = 'M') ∧ s.length = 2 ∧ ⟨[], [], m, s⟩ = c := by
  simp [ofMinutes?, isShort, isMark, and_assoc]

theorem ofHours?_eq_some_iff {h : List Char} {rest : Option Clock} : ofHours? h mark rest = some c ↔
    (h.length = 1 ∨ h.length = 2) ∧ (mark = ':' ∨ mark = 'H') ∧ ∃ c', rest = some c' ∧ { c' with hours := h } = c := by
  simp [ofHours?, isShort, isMark, and_assoc]

theorem ofDays?_eq_some_iff {d : List Char} {rest : Option Clock} : ofDays? d mark rest = some c ↔
    d ≠ [] ∧ (mark = ':' ∨ mark = 'D') ∧ ∃ c', rest = some c' ∧ { c' with days := d } = c := by
  simp [ofDays?, isMark, and_assoc]

/-- Minutes and seconds that are read from digits are spelled by them. -/
theorem spells_of_ofMinutes? {m s : List Char} (h : ofMinutes? m mark s = some c)
    (hmd : ∀ x ∈ m, isDecimal x = true) (hsd : ∀ x ∈ s, isDecimal x = true) :
    c = ⟨[], [], m, s⟩ ∧ Spells isDecimal ⟨[], [], m, s⟩ (m ++ mark :: s) := by
  obtain ⟨hm, hmark, hs, rfl⟩ := ofMinutes?_eq_some_iff.1 h
  exact ⟨rfl, .minutes hm hmd hmark hs hsd⟩

/-- The same with hours. -/
theorem spells_of_ofHours? {h m s : List Char} {hourMark : Char}
    (hread : ofHours? h hourMark (ofMinutes? m mark s) = some c) (hhd : ∀ x ∈ h, isDecimal x = true)
    (hmd : ∀ x ∈ m, isDecimal x = true) (hsd : ∀ x ∈ s, isDecimal x = true) :
    h ≠ [] ∧ c = ⟨[], h, m, s⟩ ∧ Spells isDecimal ⟨[], h, m, s⟩ (h ++ hourMark :: (m ++ mark :: s)) := by
  obtain ⟨hh, hhour, _, hmin, rfl⟩ := ofHours?_eq_some_iff.1 hread
  obtain ⟨rfl, hspells⟩ := spells_of_ofMinutes? hmin hmd hsd
  exact ⟨ne_nil_of_length hh, rfl, .hours hh hhd hhour hspells⟩

/-- What is read is spelled by the text, but for a last `S`. -/
theorem spells_of_ofChars? (h : ofChars? text = some c) : Spells isDecimal c (dropSecondMark text) := by
  obtain ⟨hfirst, hrest⟩ := digits_of_cut (dropSecondMark text)
  have hjoin := cut_join (dropSecondMark text)
  unfold ofChars? at h
  -- the number of pieces says which parts there are
  split at h
  · next m mark s hcut =>
    rw [hcut] at hfirst hrest hjoin
    simp only [List.forall_mem_cons, List.flatMap_cons, List.flatMap_nil, List.append_nil] at hrest hjoin
    obtain ⟨rfl, hspells⟩ := spells_of_ofMinutes? h hfirst hrest.1
    rwa [← hjoin]
  · next h' hourMark m mark s hcut =>
    rw [hcut] at hfirst hrest hjoin
    simp only [List.forall_mem_cons, List.flatMap_cons, List.flatMap_nil, List.append_nil] at hrest hjoin
    obtain ⟨-, rfl, hspells⟩ := spells_of_ofHours? h hfirst hrest.1 hrest.2.1
    rwa [← hjoin]
  · next d dayMark h' hourMark m mark s hcut =>
    rw [hcut] at hfirst hrest hjoin
    simp only [List.forall_mem_cons, List.flatMap_cons, List.flatMap_nil, List.append_nil] at hrest hjoin
    obtain ⟨hd, hday, _, hhours, rfl⟩ := ofDays?_eq_some_iff.1 h
    obtain ⟨hne, rfl, hspells⟩ := spells_of_ofHours? hhours hrest.1 hrest.2.1 hrest.2.2.1
    rw [← hjoin]
    exact .days hd hfirst hday hne hspells
  · cases h

/-- A mark is no digit. -/
theorem not_isDecimal_of_mark {letter : Char} (h : mark = ':' ∨ mark = letter)
    (hletter : isDecimal letter = false) : isDecimal mark = false := by
  rcases h with rfl | rfl
  · decide
  · exact hletter

theorem dropSecondMark_append {ending : List Char} (hlast : text.getLast? ≠ some 'S')
    (hending : ending = [] ∨ ending = ['S']) : dropSecondMark (text ++ ending) = text := by
  unfold dropSecondMark
  rcases hending with rfl | rfl
  · rw [List.append_nil, if_neg hlast]
  · rw [List.getLast?_concat, if_pos rfl, List.dropLast_concat]

theorem Spells.getLast?_ne (h : Spells isDecimal c text) : text.getLast? ≠ some 'S' := by
  intro hlast
  obtain ⟨x, hx, hdigit⟩ := h.getLast?
  rw [hlast] at hx
  cases hx
  revert hdigit
  decide

/-- A text without hours is cut into minutes and seconds. -/
theorem Spells.cut_minutes {m s : List Char} (h : Spells isDecimal ⟨[], [], m, s⟩ text) :
    ∃ mark, cut text = (m, [(mark, s)]) ∧ ofMinutes? m mark s = some ⟨[], [], m, s⟩ := by
  cases h with
  | @minutes _ _ mark hm hmd hmark hs hsd =>
    refine ⟨mark, ?_, ofMinutes?_eq_some_iff.2 ⟨hm, hmark, hs, rfl⟩⟩
    rw [cut_append hmd (not_isDecimal_of_mark hmark (by decide)), cut_digits hsd]
  | hours hh => simp at hh
  | days hne => exact absurd rfl hne

/-- A text without days is cut into hours, minutes and seconds. -/
theorem Spells.cut_hours {h m s : List Char} (hne : h ≠ []) (hs : Spells isDecimal ⟨[], h, m, s⟩ text) :
    ∃ hourMark mark, cut text = (h, [(hourMark, m), (mark, s)]) ∧
      ofHours? h hourMark (ofMinutes? m mark s) = some ⟨[], h, m, s⟩ := by
  cases hs with
  | minutes => exact absurd rfl hne
  | @hours _ _ _ rest hourMark hh hhd hhour hrest =>
    obtain ⟨mark, hcut, hmin⟩ := hrest.cut_minutes
    refine ⟨hourMark, mark, ?_, ofHours?_eq_some_iff.2 ⟨hh, hhour, _, hmin, rfl⟩⟩
    rw [cut_append hhd (not_isDecimal_of_mark hhour (by decide)), hcut]
  | days hne => exact absurd rfl hne

/-- **What a text spells is read**, with a last `S` and without. -/
theorem Spells.ofChars? (h : Spells isDecimal c text) {ending : List Char} (hending : ending = [] ∨ ending = ['S']) :
    Clock.ofChars? (text ++ ending) = some c := by
  unfold Clock.ofChars?
  rw [dropSecondMark_append h.getLast?_ne hending]
  cases h with
  | minutes hm hmd hmark hs hsd =>
    obtain ⟨mark, hcut, hmin⟩ := (Spells.minutes hm hmd hmark hs hsd).cut_minutes
    rw [hcut]
    exact hmin
  | hours hh hhd hmark hrest =>
    obtain ⟨hourMark, mark, hcut, hhours⟩ := (Spells.hours hh hhd hmark hrest).cut_hours (ne_nil_of_length hh)
    rw [hcut]
    exact hhours
  | days hne hdd hday hh hrest =>
    obtain ⟨hourMark, mark, hcut, hhours⟩ := hrest.cut_hours hh
    rw [cut_append hdd (not_isDecimal_of_mark hday (by decide)), hcut]
    exact ofDays?_eq_some_iff.2 ⟨hne, hday, _, hhours, rfl⟩

/-- **Reading finds the parts of a clock text, and in no other text any.** -/
theorem written_iff : c.Written isDecimal text ↔ Clock.ofChars? (trim text) = some c := by
  constructor
  · rintro ⟨hlead, hcore, hending, htrail⟩
    rw [trim_surrounded hlead htrail]
    · exact hcore.ofChars? hending
    · obtain ⟨x, hx, hdigit⟩ := hcore.head?
      intro y hy
      rw [List.head?_append, hx] at hy
      cases hy
      exact not_isBlank_of_isDecimal hdigit
    · obtain ⟨x, hx, hdigit⟩ := hcore.getLast?
      intro y hy
      rcases hending with rfl | rfl
      · rw [List.append_nil, hx] at hy
        cases hy
        exact not_isBlank_of_isDecimal hdigit
      · rw [List.getLast?_concat] at hy
        cases hy
        decide
  · intro h
    obtain ⟨lead, trail, hlead, htrail, htext⟩ := exists_trim text
    have hcore := spells_of_ofChars? h
    rw [htext]
    rcases dropSecondMark_cases (trim text) with hending | hending
    · rw [hending]
      exact .intro hlead hcore (.inl rfl) htrail
    · rw [hending]
      exact .intro hlead hcore (.inr rfl) htrail

/-- A text has the parts of one clock only. -/
theorem Written.unique {c' : Clock} (h : c.Written isDecimal text) (h' : c'.Written isDecimal text) : c' = c := by
  rw [written_iff] at h h'
  rw [h] at h'
  exact (Option.some.inj h').symm

/-! ## Numbers -/

/-- A part that can be read as a number of the word. -/
structure Readable (part : List Char) : Prop where
  ascii : ∀ x ∈ part, x.isDigit = true
  fits : denoted part ≤ greatest

instance (part : List Char) : Decidable (Readable part) :=
  decidable_of_iff (part.all Char.isDigit = true ∧ denoted part ≤ greatest)
    ⟨fun h => ⟨List.all_eq_true.1 h.1, h.2⟩, fun h => ⟨List.all_eq_true.2 h.ascii, h.fits⟩⟩

/-- A part counts what it denotes if it can be read, and else nothing. -/
theorem number_eq (part : List Char) : number part = if Readable part then denoted part else 0 := by
  unfold number
  split
  · next hdigits =>
    have hascii : ∀ x ∈ part, x.isDigit = true := List.all_eq_true.1 hdigits
    simp only [foldl_eq_denoted hascii]
    split
    · next hfits => rw [if_pos ⟨hascii, hfits⟩]
    · next hfits => rw [if_neg fun h => hfits h.fits]
  · next hdigits =>
    rw [if_neg]
    intro h
    exact hdigits (List.all_eq_true.2 h.ascii)

theorem number_le (part : List Char) : number part ≤ denoted part := by
  rw [number_eq]
  split <;> omega

theorem number_eq_denoted_iff (part : List Char) : number part = denoted part ↔ Readable part ∨ denoted part = 0 := by
  rw [number_eq]
  split <;> simp_all [eq_comm]

/-- The seconds that the parts add up to, each with a worth of its own. -/
def secondsBy (worth : List Char → Nat) (c : Clock) : Nat :=
  worth c.days * 86400 + worth c.hours * 3600 + worth c.minutes * 60 + worth c.seconds

theorem total_eq (c : Clock) : c.total = c.secondsBy number := rfl

theorem le_secondsBy (worth : List Char → Nat) {part : List Char} (h : part ∈ c.parts) :
    worth part ≤ c.secondsBy worth := by
  simp only [parts, List.mem_cons, List.not_mem_nil, or_false] at h
  unfold secondsBy
  rcases h with rfl | rfl | rfl | rfl <;> omega

/-- **A duration is never overstated.** -/
theorem total_le (c : Clock) : c.total ≤ c.secondsBy denoted := by
  have hd := number_le c.days
  have hh := number_le c.hours
  have hm := number_le c.minutes
  have hs := number_le c.seconds
  unfold total secondsBy
  omega

/-- It is exact only if no part is left out that denotes more than nothing. -/
theorem total_eq_denoted_iff (c : Clock) :
    c.total = c.secondsBy denoted ↔ ∀ part ∈ c.parts, Readable part ∨ denoted part = 0 := by
  have hd := number_le c.days
  have hh := number_le c.hours
  have hm := number_le c.minutes
  have hs := number_le c.seconds
  simp only [parts, List.forall_mem_cons, ← number_eq_denoted_iff]
  unfold total secondsBy
  constructor
  · intro h
    refine ⟨?_, ?_, ?_, ?_, nofun⟩ <;> omega
  · rintro ⟨h1, h2, h3, h4, -⟩
    rw [h1, h2, h3, h4]

end Clock

/-! ## Durations -/

variable {s : String}

theorem durationSeconds_eq_ok_iff {n : Nat} :
    durationSeconds s = .ok n ↔ ∃ c : Clock, c.Written isDecimal s.toList ∧ c.total = n := by
  simp only [Clock.written_iff, durationSeconds]
  cases hread : Clock.ofChars? (trim s.toList) with
  | none => simp
  | some c => simp

theorem durationSeconds_eq_error_iff {e : MediaError} :
    durationSeconds s = .error e ↔ e = .invalidDuration s ∧ ∀ c : Clock, ¬c.Written isDecimal s.toList := by
  simp only [Clock.written_iff, durationSeconds]
  cases hread : Clock.ofChars? (trim s.toList) with
  | none => simp [eq_comm]
  | some c => simp

/-- **Clock texts are read, and nothing else is.** A text that is written with the digits of ASCII is read as the
seconds that it denotes, if they fit the word. A text of such digits, marks and blanks that has none of the forms is
refused as it stands. -/
theorem clockTexts_read :
    (∀ (c : Clock) (s : String), c.Written Char.isDigit s.toList → c.secondsBy denoted < 2 ^ 63 →
      durationSeconds s = .ok (c.secondsBy denoted)) ∧
    ∀ s : String, (∀ x ∈ s.toList, x.isDigit = true ∨ x ∈ [':', 'D', 'H', 'M', 'S'] ∨ isBlank x = true) →
      (∀ c : Clock, ¬c.Written Char.isDigit s.toList) → durationSeconds s = .error (.invalidDuration s) := by
  constructor
  · intro c s hwritten hfits
    have hdecimal : c.Written isDecimal s.toList := hwritten.of_digits fun _ _ hx => isDecimal_of_isDigit hx
    refine durationSeconds_eq_ok_iff.2 ⟨c, hdecimal, c.total_eq_denoted_iff.2 ?_⟩
    intro part hpart
    have hle : denoted part ≤ c.secondsBy denoted := Clock.le_secondsBy denoted hpart
    refine .inl ⟨hwritten.digits part hpart, ?_⟩
    exact Nat.le_sub_one_of_lt (hle.trans_lt hfits)
  · intro s halphabet hforms
    refine durationSeconds_eq_error_iff.2 ⟨rfl, ?_⟩
    intro c hwritten
    apply hforms c
    apply hwritten.of_digits
    intro x hx hdigit
    rcases halphabet x hx with hascii | hmark | hblank
    · exact hascii
    · have hnone : [':', 'D', 'H', 'M', 'S'].all (fun y => !isDecimal y) = true := by decide
      have hx : (!isDecimal x) = true := List.all_eq_true.1 hnone x hmark
      rw [hdigit] at hx
      cases hx
    · rw [not_isBlank_of_isDecimal hdigit] at hblank
      cases hblank

/-- Two days, an hour, three minutes and seven seconds, with marks of both kinds. -/
def mixedClock : Clock := ⟨['2'], ['0', '1'], ['3'], ['0', '7']⟩

theorem written_mixed : mixedClock.Written Char.isDigit " 2D01:3M07S\n".toList := by
  have hminutes : Clock.Spells Char.isDigit ⟨[], [], ['3'], ['0', '7']⟩ ['3', 'M', '0', '7'] :=
    .minutes (.inl rfl) (List.all_eq_true.1 rfl) (.inr rfl) rfl (List.all_eq_true.1 rfl)
  have hhours : Clock.Spells Char.isDigit ⟨[], ['0', '1'], ['3'], ['0', '7']⟩ ['0', '1', ':', '3', 'M', '0', '7'] :=
    .hours (.inr rfl) (List.all_eq_true.1 rfl) (.inl rfl) hminutes
  have hdays : Clock.Spells Char.isDigit mixedClock ['2', 'D', '0', '1', ':', '3', 'M', '0', '7'] :=
    .days (by decide) (List.all_eq_true.1 rfl) (.inr rfl) (by decide) hhours
  have hblank : ∀ x ∈ [' '], isBlank x = true := List.all_eq_true.1 rfl
  have hbreak : ∀ x ∈ ['\n'], isBlank x = true := List.all_eq_true.1 rfl
  exact .intro hblank hdays (.inr rfl) hbreak

/-- A text is no clock text if its parts are not found. -/
theorem not_written_of_none (h : Clock.ofChars? (trim text) = none) (c : Clock) : ¬c.Written Char.isDigit text := by
  intro hwritten
  have hread := Clock.written_iff.1 (hwritten.of_digits fun _ _ hx => isDecimal_of_isDigit hx)
  rw [h] at hread
  cases hread

/-- It is read, and a text with one digit of seconds is refused. -/
theorem clockTexts_read_mixed :
    mixedClock.Written Char.isDigit " 2D01:3M07S\n".toList ∧ durationSeconds " 2D01:3M07S\n" = .ok 176587 ∧
      (∀ c : Clock, ¬c.Written Char.isDigit "1:5".toList) ∧
        durationSeconds "1:5" = .error (.invalidDuration "1:5") := by
  have hnone : ∀ c : Clock, ¬c.Written Char.isDigit "1:5".toList := not_written_of_none (by decide)
  have halphabet : ∀ x ∈ "1:5".toList, x.isDigit = true ∨ x ∈ [':', 'D', 'H', 'M', 'S'] ∨ isBlank x = true := by
    simp
  obtain ⟨hread, hrefused⟩ := clockTexts_read
  exact ⟨written_mixed, hread mixedClock " 2D01:3M07S\n" written_mixed (by decide), hnone,
    hrefused "1:5" halphabet hnone⟩

/-- **Parts that cannot be read count nothing.** A duration that is read is the sum of the parts of its text, which are
told from the text alone, where a part counts nothing if it has a digit beyond ASCII or does not fit the word. So it is
never more than the text denotes, and less as soon as such a part denotes anything. Nothing but a text that is no clock
text is refused. -/
theorem counted_of_duration (s : String) :
    (∀ n : Nat, durationSeconds s = .ok n → ∃ c : Clock, (∀ c' : Clock, c'.Written isDecimal s.toList ↔ c' = c) ∧
      n = c.secondsBy (fun part => if Clock.Readable part then denoted part else 0) ∧ n ≤ c.secondsBy denoted ∧
        (n = c.secondsBy denoted ↔ ∀ part ∈ c.parts, Clock.Readable part ∨ denoted part = 0)) ∧
      ∀ e : MediaError, durationSeconds s = .error e ↔
        e = .invalidDuration s ∧ ∀ c : Clock, ¬c.Written isDecimal s.toList := by
  refine ⟨?_, fun e => durationSeconds_eq_error_iff⟩
  intro n hn
  obtain ⟨c, hwritten, rfl⟩ := durationSeconds_eq_ok_iff.1 hn
  refine ⟨c, ?_, ?_, c.total_le, c.total_eq_denoted_iff⟩
  · intro c'
    constructor
    · exact hwritten.unique
    · rintro rfl
      exact hwritten
  · rw [c.total_eq, funext Clock.number_eq]

/-- A minute in Arabic digits and five seconds. -/
def foreignMinute : Clock := ⟨[], [], ['\u0661'], ['0', '5']⟩

/-- The minute is not counted. -/
theorem counted_of_foreignMinute : durationSeconds "\u0661:05" = .ok 5 ∧
    (∀ c : Clock, c.Written isDecimal "\u0661:05".toList ↔ c = foreignMinute) ∧
      5 < foreignMinute.secondsBy denoted := by
  have hwritten : foreignMinute.Written isDecimal "\u0661:05".toList := Clock.written_iff.2 (by decide)
  have hfive : durationSeconds "\u0661:05" = .ok 5 := durationSeconds_eq_ok_iff.2 ⟨_, hwritten, by decide⟩
  obtain ⟨hread, -⟩ := counted_of_duration "\u0661:05"
  obtain ⟨c, hparts, -, hle, hexact⟩ := hread 5 hfive
  obtain rfl : foreignMinute = c := (hparts foreignMinute).1 hwritten
  refine ⟨hfive, hparts, lt_of_le_of_ne hle ?_⟩
  intro hsame
  exact absurd (hexact.1 hsame ['\u0661'] (by decide)) (by decide)

/-- Days that do not fit the word are not refused but lost. -/
theorem understated_of_greatDays : durationSeconds "9223372036854775808:00:00:00" = .ok 0 ∧ ∃ c : Clock,
    c.Written isDecimal "9223372036854775808:00:00:00".toList ∧ ¬Clock.Readable c.days ∧
      c.secondsBy denoted = 9223372036854775808 * 86400 := by
  have hwritten : Clock.Written isDecimal ⟨"9223372036854775808".toList, ['0', '0'], ['0', '0'], ['0', '0']⟩
      "9223372036854775808:00:00:00".toList := Clock.written_iff.2 (by decide)
  refine ⟨durationSeconds_eq_ok_iff.2 ⟨_, hwritten, by decide⟩, _, hwritten, by decide, by decide⟩

end MediaQuery.Media
