import MediaQuery.Text.Blank
import MediaQuery.Text.Fold

/-!
# File types

A catalog says which MIME type a file name extension stands for, and which extensions a MIME type has, in both
cases regardless of case. Whatever is said about media holds for every catalog; `FileTypes.common` is the one in
use.
-/

namespace MediaQuery.Media

open MediaQuery.Text

/-- Extensions with their types, and types with their extensions, all in small letters. -/
structure FileTypes where
  byExtension : List (String × String)
  byType : List (String × List String)
  deriving Repr, Inhabited

namespace FileTypes

/-- The MIME type of an extension. -/
def typeOf? (t : FileTypes) (extension : String) : Option String := t.byExtension.lookup (fold extension)

/-- A MIME type without blanks around it and without parameters. -/
def essence (mimeType : String) : String := String.ofList ((trim mimeType.toList).takeWhile (· ≠ ';'))

/-- The extensions of a MIME type. -/
def extensions? (t : FileTypes) (mimeType : String) : Option (List String) :=
  t.byType.lookup (fold (essence mimeType))

/-- What follows the last slash of a text; all of it if there is none. -/
def afterSlash (s : String) : String := String.ofList (s.toList.reverse.takeWhile (· ≠ '/')).reverse

/-- The extension that suits a MIME type best: the first one that is called like its subtype, regardless of the case of
ASCII letters, else the first one. -/
def extensionFor? (t : FileTypes) (mimeType : String) : Option String := do
  let extensions ← t.extensions? mimeType
  (extensions.find? fun e => lowerAscii e = lowerAscii (afterSlash mimeType)).or extensions.head?

/-- The common types. -/
def common : FileTypes where
  byExtension := [
    ("3gp", "video/3gpp"), ("aac", "audio/aac"), ("apng", "image/apng"), ("avi", "video/x-msvideo"),
    ("avif", "image/avif"), ("bmp", "image/bmp"), ("c", "text/plain"), ("com", "application/x-msdownload"),
    ("css", "text/css"), ("exe", "application/octet-stream"), ("flac", "audio/flac"), ("gif", "image/gif"),
    ("heic", "image/heic"), ("html", "text/html"), ("ico", "image/x-icon"), ("jpeg", "image/jpeg"),
    ("jpg", "image/jpeg"), ("js", "text/javascript"), ("json", "application/json"), ("m3u8", "audio/x-mpegurl"),
    ("m4a", "audio/m4a"), ("mkv", "video/x-matroska"), ("mov", "video/quicktime"), ("mp3", "audio/mpeg"),
    ("mp4", "video/mp4"), ("mp4v", "video/mp4"), ("mpeg", "video/mpeg"), ("ogg", "audio/ogg"),
    ("ogv", "video/ogg"), ("opus", "audio/ogg"), ("pdf", "application/pdf"), ("png", "image/png"),
    ("svg", "image/svg+xml"), ("tiff", "image/tiff"), ("ts", "video/vnd.dlna.mpeg-tts"), ("txt", "text/plain"),
    ("wav", "audio/wav"), ("webm", "video/webm"), ("webp", "image/webp"), ("xml", "text/xml"),
    ("zip", "application/zip")]
  byType := [
    ("application/json", ["json"]), ("application/octet-stream", ["aaf", "exe"]), ("application/pdf", ["pdf"]),
    ("application/zip", ["zip"]), ("audio/aac", ["aac", "adts"]), ("audio/flac", ["flac"]),
    ("audio/mpeg", ["m2a", "m3a", "mp2", "mp2a", "mp3", "mpga"]), ("audio/ogg", ["oga", "ogg", "opus", "spx"]),
    ("audio/wav", ["wav", "wave"]), ("image/avif", ["avif"]), ("image/bmp", ["bmp", "dib"]),
    ("image/gif", ["gif"]), ("image/jpeg", ["jfif", "jpe", "jpeg", "jpg"]), ("image/png", ["png", "pnz"]),
    ("image/svg+xml", ["svg", "svgz"]), ("image/tiff", ["tif", "tiff"]), ("image/webp", ["webp"]),
    ("text/html", ["htm", "html", "hxt", "shtml"]), ("text/plain", ["asm", "c", "txt"]),
    ("video/mp4", ["mp4", "mp4v", "mpg4"]),
    ("video/mpeg", ["m1v", "m2v", "mod", "mp2", "mp2v", "mpa", "mpe", "mpeg", "mpg", "mpv2", "vbk"]),
    ("video/quicktime", ["mov", "mqv", "qt"]), ("video/webm", ["webm"]), ("video/x-matroska", ["mk3d", "mks", "mkv"])]

end FileTypes

end MediaQuery.Media
