import MediaQuery.Proofs.Media.Guess
import Mathlib.Data.List.Forall2

/-!
# Addresses with a query

The extension of an address is looked for behind every dot. Behind a dot in the middle the word runs into a character
that neither belongs to it nor begins a query (`finalWord?_eq_none`). So an address that ends with a word behind a dot
has this word for its extension, whatever query follows (`extensionIn?_of_named`): the dots of a query come too late.

A description depends on the address only through its extension (`guessFromUrl_congr`). So a query changes nothing in it
but the address itself (`guess_of_queried`).
-/

namespace MediaQuery

/-! ## Fields that differ under one name -/

namespace Fields

universe u

variable {α : Type u} {name : String} {fields fields' : List (String × α)}

/-- The same names in the same order, and the same values but under one name. -/
def SameBut (name : String) : List (String × α) → List (String × α) → Prop :=
  List.Forall₂ fun e e' => e.1 = e'.1 ∧ (e.1 ≠ name → e.2 = e'.2)

theorem SameBut.refl (name : String) (fields : List (String × α)) : SameBut name fields fields :=
  List.forall₂_same.2 fun _ _ => ⟨rfl, fun _ => rfl⟩

theorem SameBut.insert (h : SameBut name fields fields') (n : String) (v : α) :
    SameBut name (insert n v fields) (insert n v fields') := by
  induction h with
  | nil => exact SameBut.refl name [(n, v)]
  | @cons e e' rest rest' he hrest ih =>
    obtain ⟨k, value⟩ := e
    obtain ⟨k', value'⟩ := e'
    obtain ⟨rfl, hvalue⟩ : k = k' ∧ (k ≠ name → value = value') := he
    rw [Fields.insert, Fields.insert]
    split
    · exact .cons ⟨rfl, fun _ => rfl⟩ hrest
    · exact .cons ⟨rfl, hvalue⟩ ih

theorem SameBut.insertAll (h : SameBut name fields fields') (more : List (String × α)) :
    SameBut name (insertAll fields more) (insertAll fields' more) := by
  unfold Fields.insertAll
  induction more generalizing fields fields' with
  | nil => exact h
  | cons e more ih => exact ih (h.insert e.1 e.2)

end Fields

namespace Media

open MediaQuery.Text

variable {front word tail s : List Char} {types : FileTypes} {url url' : String} {known : List (String × Value)}

/-! ## The extension -/

/-- Behind a word no character may follow that does not begin a query. -/
theorem finalWord?_eq_none {stop : Char} (hstop : isWord stop = false) (hmark : stop ≠ '?') (hs : '?' ∉ s)
    (rest : List Char) : finalWord? (s ++ stop :: rest) = none := by
  have hend : endsHere ((s ++ stop :: rest).dropWhile isWord) = false := by
    induction s with
    | nil =>
      rw [List.nil_append, List.dropWhile_cons_of_neg (by simp [hstop])]
      simp [endsHere, hmark]
    | cons c s ih =>
      obtain ⟨hc, hs⟩ := not_or.1 (mt List.mem_cons.2 hs)
      by_cases hword : isWord c = true
      · rw [List.cons_append, List.dropWhile_cons_of_pos hword, ih hs]
      · rw [List.cons_append, List.dropWhile_cons_of_neg hword]
        simp [endsHere, Ne.symm hc]
  simp [finalWord?, hend]

/-- A word does not go on into a query. -/
theorem word_of_endsHere (h : endsHere tail = true) :
    tail.takeWhile isWord = [] ∧ tail.dropWhile isWord = tail := by
  cases tail with
  | nil => exact ⟨rfl, rfl⟩
  | cons c rest =>
    have hmark : c = '?' := by
      simp only [endsHere, Bool.and_eq_true, decide_eq_true_eq] at h
      exact h.1
    have hc : ¬isWord c = true := by
      rw [hmark]
      decide +kernel
    exact ⟨List.takeWhile_cons_of_neg hc, List.dropWhile_cons_of_neg hc⟩

/-- A word is found whole, if nothing follows it but a query. -/
theorem finalWord?_eq_some (hne : word ≠ []) (hword : ∀ c ∈ word, isWord c = true) (htail : endsHere tail = true) :
    finalWord? (word ++ tail) = some word := by
  obtain ⟨htake, hdrop⟩ := word_of_endsHere htail
  rw [finalWord?, List.takeWhile_append_of_pos hword, List.dropWhile_append_of_pos hword, htake, hdrop,
    List.append_nil]
  simp [hne, htail]

/-- **The word that an address ends with is its extension**, whatever dots stand before it or in the query. -/
theorem extensionIn?_of_named (hfront : '?' ∉ front) (hne : word ≠ []) (hword : ∀ c ∈ word, isWord c = true)
    (tail : List Char) (htail : endsHere tail = true) : extensionIn? (front ++ '.' :: (word ++ tail)) = some word := by
  -- the first dot that counts is the one before the word
  induction front with
  | nil => rw [List.nil_append, extensionIn?, if_pos rfl, finalWord?_eq_some hne hword htail, Option.some_or]
  | cons c front ih =>
    obtain ⟨-, hfront⟩ := not_or.1 (mt List.mem_cons.2 hfront)
    have hdot : finalWord? (front ++ '.' :: (word ++ tail)) = none :=
      finalWord?_eq_none (by decide +kernel) (by decide) hfront (word ++ tail)
    rw [List.cons_append, extensionIn?, hdot, Option.none_or, ih hfront, ite_self]

/-! ## The description -/

/-- Two answers that are both failures, or descriptions that differ in nothing but the address. -/
inductive SameButAddress : Except MediaError (List (String × Value)) → Except MediaError (List (String × Value)) → Prop
  | failed (e e' : MediaError) : SameButAddress (.error e) (.error e')
  | described {info info' : List (String × Value)} (h : Fields.SameBut "url" info info') :
      SameButAddress (.ok info) (.ok info')

/-- Addresses with one extension are described alike. -/
theorem guessFromUrl_congr (h : urlExtension? url = urlExtension? url') :
    SameButAddress (guessFromUrl types url known) (guessFromUrl types url' known) := by
  have htype : fileType types url known = fileType types url' known := by rw [fileType, fileType, h]
  cases hguess : guessFromUrl types url known with
  | ok info =>
    obtain ⟨extension, mimeType, kind, hfile, hkind, rfl⟩ := guessFromUrl_eq_ok_iff.1 hguess
    rw [guessFromUrl_eq_ok_iff.2 ⟨extension, mimeType, kind, htype.symm.trans hfile, hkind, rfl⟩]
    have hfront : Fields.SameBut "url" (("url", .string url) :: describedAs extension mimeType kind)
        (("url", .string url') :: describedAs extension mimeType kind) :=
      .cons ⟨rfl, fun h => absurd rfl h⟩ (Fields.SameBut.refl "url" _)
    exact .described (hfront.insertAll known)
  | error e =>
    cases hguess' : guessFromUrl types url' known with
    | error e' => exact .failed e e'
    | ok info =>
      obtain ⟨extension, mimeType, kind, hfile, hkind, -⟩ := guessFromUrl_eq_ok_iff.1 hguess'
      rw [guessFromUrl_eq_ok_iff.2 ⟨extension, mimeType, kind, htype.trans hfile, hkind, rfl⟩] at hguess
      cases hguess

/-- **A query does not change what a medium is taken for.** An address that ends with a word behind a dot keeps this
word for its extension when a query is put behind it. Whatever is known already, either neither address can be
described, or both descriptions are the same but for the address. -/
theorem guess_of_queried (types : FileTypes) (known : List (String × Value)) {front word query : String}
    (hfront : '?' ∉ front.toList) (hne : word ≠ "") (hword : ∀ c ∈ word.toList, isWord c = true)
    (hquery : '?' ∉ query.toList) : urlExtension? (front ++ "." ++ word ++ "?" ++ query) = some word ∧
      SameButAddress (guessFromUrl types (front ++ "." ++ word ++ "?" ++ query) known)
        (guessFromUrl types (front ++ "." ++ word) known) := by
  have hletters : word.toList ≠ [] := mt String.toList_eq_nil_iff.1 hne
  have hplain : urlExtension? (front ++ "." ++ word) = some word := by
    have hfound := extensionIn?_of_named hfront hletters hword [] rfl
    simpa [urlExtension?] using congrArg (Option.map String.ofList) hfound
  have hqueried : urlExtension? (front ++ "." ++ word ++ "?" ++ query) = some word := by
    have hends : endsHere ('?' :: query.toList) = true := by simp [endsHere, hquery]
    have hfound := extensionIn?_of_named hfront hletters hword _ hends
    simpa [urlExtension?] using congrArg (Option.map String.ofList) hfound
  exact ⟨hqueried, guessFromUrl_congr (hqueried.trans hplain.symm)⟩

/-- A picture whose query names a film is a picture. -/
theorem guess_of_queried_picture : '?' ∉ "https://example.com/a/b".toList ∧ "jpg" ≠ "" ∧
    (∀ c ∈ "jpg".toList, isWord c = true) ∧ '?' ∉ "from=/c.mp4".toList ∧
      urlExtension? "https://example.com/a/b.jpg?from=/c.mp4" = some "jpg" ∧
      SameButAddress (guessFromUrl .common "https://example.com/a/b.jpg?from=/c.mp4" [])
        (guessFromUrl .common "https://example.com/a/b.jpg" []) ∧
      guessFromUrl .common "https://example.com/a/b.jpg" [] =
        .ok (("url", .string "https://example.com/a/b.jpg") :: describedAs "jpg" "image/jpeg" .image) := by
  have hfront : '?' ∉ "https://example.com/a/b".toList := by simp
  have hquery : '?' ∉ "from=/c.mp4".toList := by simp
  have hletters : "jpg".toList.all isWord = true := by decide +kernel
  have hword : ∀ c ∈ "jpg".toList, isWord c = true := List.all_eq_true.1 hletters
  have hne : "jpg" ≠ "" := by decide
  obtain ⟨hfound, hsame⟩ := guess_of_queried .common [] hfront hne hword hquery
  have hqueried : "https://example.com/a/b" ++ "." ++ "jpg" ++ "?" ++ "from=/c.mp4" =
      "https://example.com/a/b.jpg?from=/c.mp4" := by simp
  have hplain : "https://example.com/a/b" ++ "." ++ "jpg" = "https://example.com/a/b.jpg" := by simp
  rw [hqueried] at hfound hsame
  rw [hplain] at hsame
  have hfile : fileType .common "https://example.com/a/b.jpg" [] = (some "jpg", some "image/jpeg") := by decide +kernel
  have hkind : kindOf? "jpg" "image/jpeg" = some .image := by decide +kernel
  have hread := guessFromUrl_eq_ok_iff.2 ⟨"jpg", "image/jpeg", .image, hfile, hkind, rfl⟩
  exact ⟨hfront, hne, hword, hquery, hfound, hsame, hread⟩

end Media

end MediaQuery
