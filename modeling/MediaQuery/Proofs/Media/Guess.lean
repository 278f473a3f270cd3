import MediaQuery.Media.Guess
import MediaQuery.Proofs.Fields.Sorted
import Mathlib.Logic.ExistsUnique

/-!
# Two ways to describe a medium

A medium can be described from its address or from its type alone. Both put together the same entries
(`describedAs`), which mark exactly one kind (`lookup_describedAs`), and both put what is known already over them. So
they agree wherever the address says nothing about the file type, but for the address itself, and whichever of them
describes a medium keeps what is known and, unless that says otherwise, marks one kind (`guesses_agree`).
-/

namespace MediaQuery.Media

variable {types : FileTypes} {extension mimeType url : String} {known info : List (String × Value)} {kind : MediaKind}

/-! ## One kind -/

/-- The name of the entry that marks a kind. -/
def MediaKind.name : MediaKind → String
  | .video => "video"
  | .image => "image"
  | .audio => "audio"

/-- The entries of a medium of the given kind. -/
def describedAs (extension mimeType : String) (kind : MediaKind) : List (String × Value) :=
  [("ext", .string extension), ("mimeType", .string mimeType)] ++ kindEntries kind

theorem describe_eq_ok_iff : describe extension mimeType = .ok info ↔
    ∃ kind, kindOf? extension mimeType = some kind ∧ info = describedAs extension mimeType kind := by
  unfold describe describedAs
  cases kindOf? extension mimeType with
  | none => simp
  | some kind => simp [eq_comm]

/-- **A description marks its own kind and no other.** -/
theorem lookup_describedAs (extension mimeType : String) (kind kind' : MediaKind) :
    (describedAs extension mimeType kind).lookup kind'.name = some (.bool true) ↔ kind' = kind := by
  cases kind <;> cases kind' <;> simp [describedAs, kindEntries, MediaKind.name, Fields.lookup_cons]

/-! ## What is described -/

/-- What is known is put over a description, if there is one. -/
theorem described_eq_ok_iff (front : List (String × Value)) :
    (do
      let entries ← describe extension mimeType
      return Fields.insertAll (front ++ entries) known) = Except.ok info ↔
    ∃ kind, kindOf? extension mimeType = some kind ∧
      info = Fields.insertAll (front ++ describedAs extension mimeType kind) known := by
  constructor
  · intro h
    cases hentries : describe extension mimeType with
    | error e =>
      rw [hentries] at h
      cases h
    | ok entries =>
      rw [hentries] at h
      obtain ⟨kind, hkind, rfl⟩ := describe_eq_ok_iff.1 hentries
      exact ⟨kind, hkind, (Except.ok.inj h).symm⟩
  · rintro ⟨kind, hkind, rfl⟩
    rw [describe_eq_ok_iff.2 ⟨kind, hkind, rfl⟩]
    rfl

theorem guessFromType_eq_ok_iff : guessFromType types mimeType known = .ok info ↔
    ∃ extension kind, types.extensionFor? mimeType = some extension ∧ kindOf? extension mimeType = some kind ∧
      info = Fields.insertAll (describedAs extension mimeType kind) known := by
  unfold guessFromType
  cases types.extensionFor? mimeType with
  | none => simp
  | some extension =>
    simp only [Option.some.injEq, exists_and_left, exists_eq_left']
    exact described_eq_ok_iff []

theorem guessFromUrl_eq_ok_iff : guessFromUrl types url known = .ok info ↔
    ∃ extension mimeType kind, fileType types url known = (some extension, some mimeType) ∧
      kindOf? extension mimeType = some kind ∧
        info = Fields.insertAll (("url", .string url) :: describedAs extension mimeType kind) known := by
  unfold guessFromUrl
  rcases fileType types url known with ⟨_ | extension, _ | mimeType⟩
  · simp
  · simp
  · simp
  · simp only [Prod.mk.injEq, Option.some.injEq, and_assoc, exists_and_left, exists_eq_left']
    exact described_eq_ok_iff [("url", .string url)]

/-- An address that says nothing leaves the file type to the MIME type that is known. -/
theorem fileType_of_known (htype : known.lookup "mimeType" = some (.string mimeType))
    (hext : ∀ s, known.lookup "ext" ≠ some (.string s)) (hurl : urlExtension? url = none) :
    fileType types url known = (types.extensionFor? mimeType, some mimeType) := by
  have hknown : knownText? known "ext" = none := by
    unfold knownText?
    cases hlookup : known.lookup "ext" with
    | none => rfl
    | some v =>
      cases v with
      | string s => exact absurd hlookup (hext s)
      | _ => rfl
  have hmime : knownText? known "mimeType" = some mimeType := by
    rw [knownText?, htype]
    rfl
  rw [fileType, hknown, hurl, hmime]
  rfl

/-- **Both ways agree** on a medium whose type is known and whose address says nothing more. -/
theorem guessFromUrl_iff_guessFromType (htype : known.lookup "mimeType" = some (.string mimeType))
    (hext : ∀ s, known.lookup "ext" ≠ some (.string s)) (hnew : "url" ∉ Fields.names known)
    (hurl : urlExtension? url = none) : guessFromUrl types url known = .ok info ↔
      ∃ rest, guessFromType types mimeType known = .ok rest ∧ info = ("url", .string url) :: rest := by
  rw [guessFromUrl_eq_ok_iff, fileType_of_known htype hext hurl]
  simp only [guessFromType_eq_ok_iff, Fields.insertAll_cons hnew, Prod.mk.injEq, Option.some.injEq]
  constructor
  · rintro ⟨extension, _, kind, ⟨hextension, rfl⟩, hkind, rfl⟩
    exact ⟨_, ⟨extension, kind, hextension, hkind, rfl⟩, rfl⟩
  · rintro ⟨_, ⟨extension, kind, hextension, hkind, rfl⟩, rfl⟩
    exact ⟨extension, mimeType, kind, ⟨hextension, rfl⟩, hkind, rfl⟩

/-- What either way yields is a description with what is known put over it. -/
theorem exists_description (h : (∃ url, guessFromUrl types url known = .ok info) ∨
    ∃ mimeType, guessFromType types mimeType known = .ok info) : ∃ front extension mimeType kind,
      (∀ kind : MediaKind, kind.name ∉ Fields.names front) ∧
        info = Fields.insertAll (front ++ describedAs extension mimeType kind) known := by
  rcases h with ⟨url, h⟩ | ⟨mimeType, h⟩
  · obtain ⟨extension, mimeType, kind, -, -, rfl⟩ := guessFromUrl_eq_ok_iff.1 h
    refine ⟨[("url", .string url)], extension, mimeType, kind, ?_, rfl⟩
    intro kind
    cases kind <;> simp [MediaKind.name, Fields.names]
  · obtain ⟨extension, kind, -, -, rfl⟩ := guessFromType_eq_ok_iff.1 h
    exact ⟨[], extension, mimeType, kind, fun _ => List.not_mem_nil, rfl⟩

/-- **The two ways to describe a medium agree, and each marks exactly one kind.** Where the type is known, but neither
an extension nor an address, and the address says nothing, the address is described exactly if the type is, and in the
same way but for the address itself. Whatever is described keeps all that is known, and exactly one of its three marks
is true if none of them is known. -/
theorem guesses_agree (types : FileTypes) (hnames : (Fields.names known).Nodup) :
    (∀ url mimeType : String, known.lookup "mimeType" = some (.string mimeType) →
      (∀ s, known.lookup "ext" ≠ some (.string s)) → "url" ∉ Fields.names known → urlExtension? url = none →
        ∀ info, guessFromUrl types url known = .ok info ↔
          ∃ rest, guessFromType types mimeType known = .ok rest ∧ info = ("url", .string url) :: rest) ∧
      ∀ info, ((∃ url, guessFromUrl types url known = .ok info) ∨
        ∃ mimeType, guessFromType types mimeType known = .ok info) →
          (∀ e ∈ known, info.lookup e.1 = some e.2) ∧
            ((∀ kind : MediaKind, kind.name ∉ Fields.names known) →
              ∃! kind : MediaKind, info.lookup kind.name = some (.bool true)) := by
  refine ⟨fun _ _ htype hext hnew hurl _ => guessFromUrl_iff_guessFromType htype hext hnew hurl, ?_⟩
  intro info h
  obtain ⟨front, extension, mimeType, kind, hfront, rfl⟩ := exists_description h
  constructor
  · intro e he
    rw [Fields.lookup_insertAll hnames, Fields.lookup_of_nodup hnames he]
    rfl
  · intro hmarks
    have hlookup (kind' : MediaKind) : (Fields.insertAll (front ++ describedAs extension mimeType kind) known).lookup
        kind'.name = some (.bool true) ↔ kind' = kind := by
      rw [Fields.lookup_insertAll hnames, Fields.lookup_of_not_mem (hmarks kind'), Option.none_or, List.lookup_append,
        Fields.lookup_of_not_mem (hfront kind'), Option.none_or, lookup_describedAs]
    exact ⟨kind, (hlookup kind).2 rfl, fun kind' => (hlookup kind').1⟩

/-! ## A film -/

/-- What is known of a film: its type, its width, and a number in place of its extension. -/
def knownFilm : List (String × Value) :=
  [("mimeType", .string "video/mp4"), ("ext", .integer 3), ("width", .integer 640)]

/-- It is described as video from either side, and from an address that does not end with a name. -/
theorem guesses_agree_film : (Fields.names knownFilm).Nodup ∧ urlExtension? "https://example.com/watch" = none ∧
    ∃ info, guessFromType .common "video/mp4" knownFilm = .ok info ∧
      guessFromUrl .common "https://example.com/watch" knownFilm =
        .ok (("url", .string "https://example.com/watch") :: info) ∧
      (∀ e ∈ knownFilm, info.lookup e.1 = some e.2) ∧
        ∃! kind : MediaKind, info.lookup kind.name = some (.bool true) := by
  have hnames : (Fields.names knownFilm).Nodup := by simp [knownFilm, Fields.names]
  have hurl : urlExtension? "https://example.com/watch" = none := by decide +kernel
  have hextension : FileTypes.common.extensionFor? "video/mp4" = some "mp4" := by decide +kernel
  have hkind : kindOf? "mp4" "video/mp4" = some .video := by decide +kernel
  have htype : knownFilm.lookup "mimeType" = some (.string "video/mp4") := by simp [knownFilm]
  have hext : ∀ s, knownFilm.lookup "ext" ≠ some (.string s) := by simp [knownFilm, Fields.lookup_cons]
  have hnew : "url" ∉ Fields.names knownFilm := by simp [knownFilm, Fields.names]
  have hmarks : ∀ kind : MediaKind, kind.name ∉ Fields.names knownFilm := by
    intro kind
    cases kind <;> simp [MediaKind.name, knownFilm, Fields.names]
  obtain ⟨hagree, hdescribed⟩ := guesses_agree .common hnames
  have hread : guessFromType .common "video/mp4" knownFilm =
      .ok (Fields.insertAll (describedAs "mp4" "video/mp4" .video) knownFilm) :=
    guessFromType_eq_ok_iff.2 ⟨"mp4", .video, hextension, hkind, rfl⟩
  obtain ⟨hkept, hone⟩ := hdescribed _ (.inr ⟨_, hread⟩)
  exact ⟨hnames, hurl, _, hread, (hagree _ _ htype hext hnew hurl _).2 ⟨_, hread, rfl⟩, hkept, hone hmarks⟩

end MediaQuery.Media
