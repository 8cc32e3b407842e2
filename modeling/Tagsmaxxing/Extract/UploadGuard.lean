import Tagsmaxxing.Core.Types

/-! # The upload-edge guards (`security.rs`)

Size, path and MIME checks on one uploaded file. MIME detection starts from the `tree_magic_mini`
crate, which is a parameter here (`fromU8`), and refines what that crate cannot classify by magic
bytes. -/

namespace Tagsmaxxing.Security

inductive UploadRejected
  | tooLarge (size max : ℕ)
  | unsafePath (path : String)
  | disallowedMime (mime : String)
deriving DecidableEq

/-- The message of the `Display` instance. -/
def UploadRejected.message : UploadRejected → String
  | .tooLarge size max =>
      "rejected upload: file size " ++ toString size ++ " bytes exceeds limit of " ++ toString max ++ " bytes"
  | .unsafePath path =>
      "rejected upload: '" ++ path ++ "' contains path-traversal or unsafe characters"
  | .disallowedMime mime =>
      "rejected upload: unsupported MIME type '" ++ mime ++
        "'. Allowed types include documents, images, audio, video, and archives."

def maxIndividualFileBytes : ℕ := 500 * 1024 * 1024

def allowedMimes : List String :=
  [ "text/plain", "text/markdown", "text/html", "text/csv", "text/xml", "text/css",
    "text/javascript", "text/x-python", "text/x-python3", "text/x-rust", "text/x-c", "text/x-c++",
    "text/x-csrc", "text/x-modelica", "text/x-java", "text/x-go", "text/x-sh", "text/x-yaml",
    "text/x-toml", "text/x-log",
    "application/json", "application/xml",
    "application/pdf", "application/msword",
    "application/vnd.openxmlformats-officedocument.wordprocessingml.document",
    "application/vnd.openxmlformats-officedocument.spreadsheetml.sheet",
    "application/vnd.openxmlformats-officedocument.presentationml.presentation",
    "application/vnd.oasis.opendocument.text", "application/rtf",
    "image/jpeg", "image/png", "image/gif", "image/webp", "image/tiff",
    "audio/mpeg", "audio/wav", "audio/wave", "audio/ogg", "audio/x-opus+ogg", "audio/flac",
    "audio/mp4", "audio/x-wav",
    "video/mp4", "video/x-matroska", "application/x-matroska", "video/webm", "video/ogg",
    "video/quicktime", "video/x-msvideo",
    "application/zip", "application/x-tar", "application/gzip", "application/x-bzip2",
    "application/x-xz", "application/zstd", "application/x-7z-compressed",
    "message/rfc822" ]

def deniedMimes : List String :=
  [ "application/x-msdownload", "application/x-dosexec", "application/x-executable",
    "application/x-sharedlib", "application/x-mach-binary", "application/java-archive",
    "application/x-iso9660-image", "application/x-raw-disk-image" ]

/-! ## Paths, sizes and types -/

def isSafePath (path : String) : Bool :=
  let chars := path.toList
  if chars.isEmpty then true
  else if chars.contains '\x00' then false
  else if chars.head? == some '/' || chars.head? == some '\\' then false
  else if (chars.splitOn '/').any fun component =>
      component == "..".toList || component == "...".toList ||
        (decide (2 ≤ component.length) && component.all (· == '.')) then false
  else !chars.contains '\\'

def validateFilePath (fileName : String) : Except UploadRejected Unit :=
  if isSafePath fileName then .ok () else .error (.unsafePath fileName)

def validateFileSize (size maxSize : ℕ) : Except UploadRejected Unit :=
  if maxSize < size then .error (.tooLarge size maxSize) else .ok ()

def isAllowedMime (mime : String) (allowed : List String) : Bool :=
  if deniedMimes.contains mime then false
  else if "text/x-".toList.isPrefixOf mime.toList then true
  else allowed.contains mime

def validateMime (mime : String) : Except UploadRejected Unit :=
  if isAllowedMime mime allowedMimes then .ok () else .error (.disallowedMime mime)

/-! ## Magic bytes -/

/-- The bytes of an ASCII literal. -/
def ascii (s : String) : List UInt8 := s.toList.map fun c => UInt8.ofNat c.toNat

def containsSubslice (haystack needle : List UInt8) : Bool :=
  if needle.isEmpty || decide (haystack.length < needle.length) then false
  else haystack.tails.any needle.isPrefixOf

def classifyZipContainer (bytes : List UInt8) : String :=
  let window := bytes.take (64 * 1024)
  if containsSubslice window (ascii "[Content_Types].xml") then
    if containsSubslice window (ascii "word/") then
      "application/vnd.openxmlformats-officedocument.wordprocessingml.document"
    else if containsSubslice window (ascii "xl/") then
      "application/vnd.openxmlformats-officedocument.spreadsheetml.sheet"
    else if containsSubslice window (ascii "ppt/") then
      "application/vnd.openxmlformats-officedocument.presentationml.presentation"
    else "application/vnd.openxmlformats-officedocument.wordprocessingml.document"
  else if containsSubslice window (ascii "META-INF/MANIFEST.MF") then "application/java-archive"
  else "application/zip"

/-- The slice `bytes[i..i + 4]`. -/
def fourAt (bytes : List UInt8) (i : ℕ) : List UInt8 := (bytes.drop i).take 4

/-- The type of an ISO base media file, by its major brand. -/
def ftypMime (brand : List UInt8) : String :=
  if brand == ascii "qt  " then "video/quicktime"
  else if ["heic", "heix", "heim", "heis", "heif"].any fun b => brand == ascii b then "image/heic"
  else if ["mif1", "msf1", "avif"].any fun b => brand == ascii b then "image/avif"
  else if (ascii "3gp").isPrefixOf brand then "video/3gpp"
  else "video/mp4"

def normalizeOctetStreamMagic (bytes : List UInt8) : String :=
  if [0x50, 0x4b, 0x03, 0x04].isPrefixOf bytes then "application/zip"
  else if decide (12 ≤ bytes.length) && fourAt bytes 0 == ascii "RIFF" &&
      fourAt bytes 8 == ascii "WAVE" then "audio/wav"
  else if decide (12 ≤ bytes.length) && fourAt bytes 0 == ascii "RIFF" &&
      fourAt bytes 8 == ascii "WEBP" then "image/webp"
  else if decide (12 ≤ bytes.length) && fourAt bytes 4 == ascii "ftyp" then
    ftypMime (fourAt bytes 8)
  else "application/octet-stream"

/-- The header names `looks_like_email` counts. -/
def emailHeaders : List String :=
  [ "From:", "To:", "Cc:", "Bcc:", "Subject:", "Date:", "MIME-Version:", "Message-ID:",
    "Message-Id:", "Received:", "Return-Path:", "Delivered-To:", "Reply-To:", "Content-Type:",
    "Content-Transfer-Encoding:", "In-Reply-To:" ]

/-- At least two of the headers start a line of the first kilobyte, which must be
    UTF-8. -/
def looksLikeEmail (bytes : List UInt8) : Bool :=
  match String.fromUTF8? ⟨(bytes.take 1024).toArray⟩ with
  | none => false
  | some text =>
      let lines := text.toList.splitOn '\n'
      decide (2 ≤ emailHeaders.countP fun header => lines.any header.toList.isPrefixOf)

def detectUploadMime (fromU8 : List UInt8 → String) (bytes : List UInt8) : String :=
  if bytes.isEmpty then "application/x-empty"
  else
    let detected := fromU8 bytes
    let mime :=
      if detected == "application/octet-stream" || detected == "application/x-riff" then
        normalizeOctetStreamMagic bytes
      else detected
    if mime == "application/zip" then classifyZipContainer bytes
    else if mime == "text/plain" && looksLikeEmail bytes then "message/rfc822"
    else mime

def validateUpload (fromU8 : List UInt8 → String) (bytes : List UInt8) (filePath : Option String)
    (maxFileBytes : ℕ) : Except UploadRejected Unit := do
  validateFileSize bytes.length maxFileBytes
  match filePath with
  | some path => validateFilePath path
  | none => pure ()
  validateMime (detectUploadMime fromU8 bytes)

end Tagsmaxxing.Security
