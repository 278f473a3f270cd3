import MediaQuery.Media.Error
import MediaQuery.Media.FileType
import MediaQuery.Text.Word
import MediaQuery.Value.Basic

/-!
# What a medium is

`guessFromUrl` and `guessFromType` describe a medium by its file name extension, its MIME type and its kind,
which is video, image or audio. What the caller knows already goes last into the description and so stands.
-/

namespace MediaQuery.Media

open MediaQuery.Text

/-- The kinds of media. -/
inductive MediaKind where
  | video
  | image
  | audio
  deriving DecidableEq, Repr, Inhabited

/-- The type of playlists that are streamed like video. -/
def playlistType : String := "application/vnd.apple.mpegurl"

/-- The kind of a medium. Animated images and playlists count as video. -/
def kindOf? (extension mimeType : String) : Option MediaKind :=
  if "video/".isPrefixOf mimeType || lowerAscii extension = "gif" || mimeType = playlistType then some .video
  else if "image/".isPrefixOf mimeType then some .image
  else if "audio/".isPrefixOf mimeType then some .audio
  else none

/-- The entries that describe a medium of the given kind. Only audio is marked as such. -/
def kindEntries (kind : MediaKind) : List (String × Value) :=
  [("video", .bool (kind = .video)), ("image", .bool (kind = .image))] ++
    if kind = .audio then [("audio", .bool true)] else []

/-- The entries that describe a medium. -/
def describe (extension mimeType : String) : Except MediaError (List (String × Value)) :=
  match kindOf? extension mimeType with
  | some kind => .ok ([("ext", .string extension), ("mimeType", .string mimeType)] ++ kindEntries kind)
  | none => .error (.invalidMediaType mimeType)

/-! ## Addresses -/

/-- Whether a text ends here, but for a query that has no question mark of its own. -/
def endsHere : List Char → Bool
  | [] => true
  | c :: rest => c = '?' && '?' ∉ rest

/-- The word at the beginning of a text, if the text ends behind it. -/
def finalWord? (s : List Char) : Option (List Char) :=
  if (s.takeWhile isWord).isEmpty || !endsHere (s.dropWhile isWord) then none else some (s.takeWhile isWord)

/-- The extension in an address: the first word behind a dot that the address ends with, but for its query. -/
def extensionIn? : List Char → Option (List Char)
  | [] => none
  | c :: rest => if c = '.' then (finalWord? rest).or (extensionIn? rest) else extensionIn? rest

/-- The extension in an address, as text. -/
def urlExtension? (url : String) : Option String := (extensionIn? url.toList).map String.ofList

/-! ## Descriptions -/

/-- An entry of what the caller knows, if it is text. -/
def knownText? (known : List (String × Value)) (name : String) : Option String :=
  known.lookup name >>= Value.asString?

/-- Extension and type of an address: those that are known, or the extension in the address; if one of the two is
missing, the one that goes with the other. -/
def fileType (types : FileTypes) (url : String) (known : List (String × Value)) : Option String × Option String :=
  match (knownText? known "ext").or (urlExtension? url), knownText? known "mimeType" with
  | some extension, none => (some extension, types.typeOf? extension)
  | none, some mimeType => (types.extensionFor? mimeType, some mimeType)
  | extension?, mimeType? => (extension?, mimeType?)

/-- Describes the medium at an address. -/
def guessFromUrl (types : FileTypes) (url : String) (known : List (String × Value)) :
    Except MediaError (List (String × Value)) :=
  match fileType types url known with
  | (some extension, some mimeType) => do
    let entries ← describe extension mimeType
    return Fields.insertAll (("url", .string url) :: entries) known
  | (extension?, mimeType?) => .error (.unknownFileType url extension? mimeType?)

/-- Describes a medium of which only the type is known. -/
def guessFromType (types : FileTypes) (mimeType : String) (known : List (String × Value)) :
    Except MediaError (List (String × Value)) :=
  match types.extensionFor? mimeType with
  | some extension => do
    let entries ← describe extension mimeType
    return Fields.insertAll entries known
  | none => .error (.invalidMediaType mimeType)

end MediaQuery.Media
