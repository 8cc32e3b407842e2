import Mathlib.Data.List.DropRight
import Tagsmaxxing.Extract.UploadGuard
import Tagsmaxxing.Lib.Utf8
import Tagsmaxxing.Store.Ingest

/-! # From uploaded bytes to rows (`document_builder.rs`, the sanitizers of `ingest.rs`)

`DocumentBuilder` hashes each page, derives its blob key and MIME type, and infers the document's
kind. Two third-party functions are parameters: the `sha2` digest and `tree_magic_mini`'s detection.
The builder's magic-byte helpers are its own copies of the upload guard's (`classifyZipContainer_eq`,
`normalizeOctetStreamMagic_eq`). -/

namespace Tagsmaxxing

open List

/-! ## Sanitizers -/

def isControl (c : Char) : Bool :=
  decide (c.toNat < 0x20) || (decide (0x7f ≤ c.toNat) && decide (c.toNat ≤ 0x9f))

/-- The Unicode property `White_Space`. -/
def isWhitespace (c : Char) : Bool :=
  let n := c.toNat
  (decide (0x9 ≤ n) && decide (n ≤ 0xd)) || n == 0x20 || n == 0x85 || n == 0xa0 || n == 0x1680 ||
    (decide (0x2000 ≤ n) && decide (n ≤ 0x200a)) || n == 0x2028 || n == 0x2029 || n == 0x202f ||
    n == 0x205f || n == 0x3000

def trim (s : List Char) : List Char :=
  ((s.dropWhile isWhitespace).reverse.dropWhile isWhitespace).reverse

def stripControlChars (input : List Char) : List Char :=
  input.filter fun c => !(isControl c && c != '\t' && c != '\n' && c != '\r')

def maxUserNoteBytes : ℕ := 10 * 1024

/-- The `while` loop of `truncate_to_char_boundary`. -/
def snapBack (s : List Char) : ℕ → ℕ
  | 0 => 0
  | n + 1 => if Utf8.isBoundary s (n + 1) then n + 1 else snapBack s n

def truncateToCharBoundary (s : List Char) (maxBytes : ℕ) : List Char :=
  if String.utf8Len s ≤ maxBytes then s else Utf8.takeBytes s (snapBack s maxBytes)

/-- The text after the last separator: `name.rsplit(['/', '\\']).next()`. -/
def basename (name : List Char) : List Char :=
  (name.reverse.takeWhile fun c => c != '/' && c != '\\').reverse

/-- `basename.replace("..", "")`. -/
def removeDotDot : List Char → List Char
  | '.' :: '.' :: cs => removeDotDot cs
  | c :: cs => c :: removeDotDot cs
  | [] => []

def sanitizeFilename (name : String) : Option String :=
  let trimmed := trim (removeDotDot (basename name.toList))
  if trimmed.isEmpty then none else some (String.ofList trimmed)

/-! ### What `sanitize_filename` keeps -/

theorem trim_infix (s : List Char) : trim s <:+: s :=
  (List.rdropWhile_prefix isWhitespace (s.dropWhile isWhitespace)).isInfix.trans (dropWhile_suffix _).isInfix

theorem trim_trim (s : List Char) : trim (trim s) = trim s := by
  have hpre : trim s <+: s.dropWhile isWhitespace := rdropWhile_prefix _ _
  have hstop := head?_dropWhile_not isWhitespace s
  -- the first character that is left is the one that stopped the trimming from the front
  have hfront : (trim s).dropWhile isWhitespace = trim s := by
    cases htrim : trim s with
    | nil => rfl
    | cons c cs =>
      obtain ⟨rest, hrest⟩ := htrim ▸ hpre
      rw [← hrest] at hstop
      exact dropWhile_cons_of_neg (Bool.eq_false_iff.1 hstop)
  rw [trim, hfront]
  exact rdropWhile_idempotent isWhitespace (s.dropWhile isWhitespace)

theorem removeDotDot_sublist (cs : List Char) : (removeDotDot cs).Sublist cs := by
  fun_induction removeDotDot cs with
  | case1 cs ih => exact (ih.cons '.').cons '.'
  | case2 c cs _ ih => exact ih.cons_cons c
  | case3 => exact List.Sublist.refl []

theorem dotDot_not_infix_removeDotDot (cs : List Char) : ¬ ['.', '.'] <:+: removeDotDot cs := by
  fun_induction removeDotDot cs with
  | case1 cs ih => exact ih
  | case2 c cs hne ih =>
    rw [infix_cons_iff, not_or]
    refine ⟨fun hdots => ?_, ih⟩
    obtain ⟨rfl, hdot⟩ := cons_prefix_cons.1 hdots
    cases cs with
    | nil => exact absurd hdot (by decide)
    | cons d cs =>
      -- what follows the dot is no dot, so it is kept
      have hd : d ≠ '.' := fun hd => hne cs rfl (hd ▸ rfl)
      rw [removeDotDot.eq_2 d cs fun _ h _ => hd h] at hdot
      exact hd (cons_prefix_cons.1 hdot).1.symm
  | case3 => decide

theorem removeDotDot_eq_self {cs : List Char} (h : ¬ ['.', '.'] <:+: cs) : removeDotDot cs = cs := by
  fun_induction removeDotDot cs with
  | case1 cs => exact absurd ⟨[], cs, rfl⟩ h
  | case2 c cs _ ih => rw [ih fun hcs => h (hcs.trans (suffix_cons c cs).isInfix)]
  | case3 => rfl

theorem mem_basename {name : List Char} {c : Char} (h : c ∈ basename name) : c ≠ '/' ∧ c ≠ '\\' := by
  simpa using mem_takeWhile_imp (mem_reverse.1 h)

theorem basename_eq_self {name : List Char} (h : ∀ c ∈ name, c ≠ '/' ∧ c ≠ '\\') : basename name = name := by
  rw [basename, takeWhile_eq_self_iff.2, reverse_reverse]
  intro c hc
  simpa using h c (mem_reverse.1 hc)

/-- A name that is kept is a single path component, and sanitizing it again keeps it. -/
theorem sanitizeFilename_safe (name result : String) (h : sanitizeFilename name = some result) :
    result ≠ "" ∧ '/' ∉ result.toList ∧ '\\' ∉ result.toList ∧ ¬ ['.', '.'] <:+: result.toList ∧
      trim result.toList = result.toList ∧ sanitizeFilename result = some result := by
  unfold sanitizeFilename at h
  obtain ⟨hempty, hresult⟩ := Option.ite_none_left_eq_some.1 h
  obtain rfl := Option.some.inj hresult
  have hpart := trim_infix (removeDotDot (basename name.toList))
  have htrim := trim_trim (removeDotDot (basename name.toList))
  have hdots : ¬ ['.', '.'] <:+: trim (removeDotDot (basename name.toList)) :=
    fun hdots => dotDot_not_infix_removeDotDot _ (hdots.trans hpart)
  have hchars : ∀ c ∈ trim (removeDotDot (basename name.toList)), c ≠ '/' ∧ c ≠ '\\' :=
    fun c hc => mem_basename ((removeDotDot_sublist _).mem (hpart.mem hc))
  generalize trim (removeDotDot (basename name.toList)) = trimmed at *
  simp only [sanitizeFilename, String.toList_ofList]
  rw [basename_eq_self hchars, removeDotDot_eq_self hdots, htrim, if_neg hempty]
  exact ⟨by simpa using hempty, fun hc => (hchars _ hc).1 rfl, fun hc => (hchars _ hc).2 rfl, hdots, rfl, rfl⟩

theorem sanitizeFilename_safe_report :
    sanitizeFilename "../a\\ ..b...c " = some "b.c" ∧ sanitizeFilename "b.c" = some "b.c" :=
  have h : sanitizeFilename "../a\\ ..b...c " = some "b.c" := by decide +kernel
  ⟨h, (sanitizeFilename_safe _ _ h).2.2.2.2.2⟩

/-! ## The builder -/

structure PageInput where
  bytes : List UInt8
  pageLabel : Option String
  path : Option String

/-- The third-party functions on file contents: `sha2::Sha256` and `tree_magic_mini::from_u8`. -/
structure Content where
  sha256 : List UInt8 → Sha256
  fromU8 : List UInt8 → String

namespace DocumentBuilder

def buildBlobKey (tenantId : Int) (sha256Hex : String) : String :=
  toString tenantId ++ "/" ++ sha256Hex

open Security (ascii fourAt)

def containsSubslice (haystack needle : List UInt8) : Bool :=
  if needle.isEmpty || decide (haystack.length < needle.length) then false
  else haystack.tails.any needle.isPrefixOf

def classifyZipContainer (bytes : List UInt8) : String :=
  let window := bytes.take (64 * 1024)
  if containsSubslice window (ascii "[Content_Types].xml") then
    if containsSubslice window (ascii "word/") then
      "application/vnd.openxmlformats-officedocument.wordprocessingml.document"
    else if containsSubslice window (ascii "xl/") then
      "application/vnd.openxmlformats-officedocument.spreadsheetml.sheet"
    else if containsSubslice window (ascii "ppt/") then
      "application/vnd.openxmlformats-officedocument.presentationml.presentation"
    else "application/vnd.openxmlformats-officedocument.wordprocessingml.document"
  else if containsSubslice window (ascii "META-INF/MANIFEST.MF") then "application/java-archive"
  else "application/zip"

def normalizeOctetStreamMagic (bytes : List UInt8) : String :=
  if [0x50, 0x4b, 0x03, 0x04].isPrefixOf bytes then "application/zip"
  else if decide (12 ≤ bytes.length) && fourAt bytes 0 == ascii "RIFF" && fourAt bytes 8 == ascii "WAVE" then
    "audio/wav"
  else if decide (12 ≤ bytes.length) && fourAt bytes 0 == ascii "RIFF" && fourAt bytes 8 == ascii "WEBP" then
    "image/webp"
  else if decide (12 ≤ bytes.length) && fourAt bytes 4 == ascii "ftyp" then
    let brand := fourAt bytes 8
    if brand == ascii "qt  " then "video/quicktime"
    else if ["heic", "heix", "heim", "heis", "heif"].any fun b => brand == ascii b then "image/heic"
    else if ["mif1", "msf1", "avif"].any fun b => brand == ascii b then "image/avif"
    else if (ascii "3gp").isPrefixOf brand then "video/3gpp"
    else "video/mp4"
  else "application/octet-stream"

def detectMime (fromU8 : List UInt8 → String) (bytes : List UInt8) : String :=
  if bytes.isEmpty then "application/x-empty"
  else
    let detected := fromU8 bytes
    let mime :=
      if detected == "application/octet-stream" || detected == "application/x-riff" then
        normalizeOctetStreamMagic bytes
      else detected
    if mime == "application/zip" then classifyZipContainer bytes else mime

def mimeToDocKind (mime : String) : DocKind :=
  let startsWith (pre : String) : Bool := pre.toList.isPrefixOf mime.toList
  if startsWith "image/" then .image
  else if startsWith "audio/" then .audio
  else if startsWith "video/" then .video
  else if mime == "application/x-matroska" then .video
  else if [ "application/zip", "application/x-tar", "application/gzip", "application/x-bzip2",
      "application/x-xz", "application/zstd", "application/x-7z-compressed",
      "application/x-rar-compressed" ].contains mime then .archive
  else if [ "application/pdf", "application/msword",
      "application/vnd.openxmlformats-officedocument.wordprocessingml.document",
      "application/vnd.openxmlformats-officedocument.presentationml.presentation",
      "application/vnd.openxmlformats-officedocument.spreadsheetml.sheet",
      "application/vnd.oasis.opendocument.text", "application/vnd.oasis.opendocument.presentation",
      "application/vnd.oasis.opendocument.spreadsheet", "application/rtf",
      "application/x-empty" ].contains mime then .document
  else if mime == "message/rfc822" then .email
  else if startsWith "text/" then .document
  else .binary

def inferDocKind (mimes : List String) : DocKind :=
  match mimes.map mimeToDocKind with
  | [] => .binary
  | first :: rest => if (first :: rest).all (· == first) then first else .document

/-- The record of the page at position `idx`. -/
def fileRecord (c : Content) (tenantId : Int) (now : Time) (idx : ℕ) (page : PageInput) : Store.FileRecord :=
  { tenantId := tenantId, pageNo := Int32.ofNat (idx + 1), pageLabel := page.pageLabel,
    sha256 := c.sha256 page.bytes,
    blobKey := buildBlobKey tenantId (c.sha256 page.bytes).toHex,
    path := page.path, mime := some (detectMime c.fromU8 page.bytes),
    sizeBytes := some (min page.bytes.length (2 ^ 63 - 1)), metaJson := "\x7b\x7d",
    status := .pending, ingestedAt := now }

def buildMulti (c : Content) (tenantId : Int) (pages : List PageInput) (userNote : Option String)
    (now : Time) : Store.Document × List Store.FileRecord :=
  let records := pages.zipIdx.map fun p => fileRecord c tenantId now p.2 p.1
  ({ id := 0, tenantId := tenantId, title := none, summary := none, userNote := userNote,
     kind := inferDocKind (pages.map fun p => detectMime c.fromU8 p.bytes), metaJson := "\x7b\x7d",
     pageCount := Int32.ofNat pages.length, localOnly := false }, records)

def buildSingle (c : Content) (tenantId : Int) (bytes : List UInt8) (path userNote : Option String)
    (now : Time) : Store.Document × List Store.FileRecord :=
  buildMulti c tenantId [⟨bytes, path, path⟩] userNote now

/-! ## Do the edge and the pipeline classify alike? (`security.rs`, `document_builder.rs`)

The two cascades differ in their last step: only the edge looks for the headers of an e-mail in a plain text, so what
it validates as an e-mail is routed as a document (`detect_alike_iff`). An e-mail that the magic library itself
recognises passes both, and gets a kind that `documents.kind` does not admit (`accepted_kind_admitted_iff`). -/

open Security

theorem classifyZipContainer_eq (bytes : List UInt8) :
    classifyZipContainer bytes = Security.classifyZipContainer bytes := rfl

theorem normalizeOctetStreamMagic_eq (bytes : List UInt8) :
    normalizeOctetStreamMagic bytes = Security.normalizeOctetStreamMagic bytes := rfl

theorem classifyZipContainer_mem (bytes : List UInt8) : classifyZipContainer bytes ∈
    ["application/vnd.openxmlformats-officedocument.wordprocessingml.document",
      "application/vnd.openxmlformats-officedocument.spreadsheetml.sheet",
      "application/vnd.openxmlformats-officedocument.presentationml.presentation", "application/java-archive",
      "application/zip"] := by
  unfold classifyZipContainer
  dsimp only
  split_ifs <;> simp

theorem normalizeOctetStreamMagic_ne (bytes : List UInt8) :
    normalizeOctetStreamMagic bytes ≠ "text/plain" ∧ normalizeOctetStreamMagic bytes ≠ "message/rfc822" := by
  unfold normalizeOctetStreamMagic
  dsimp only
  split_ifs <;> decide

/-- **Edge and pipeline agree exactly on what is not a plain text, for the magic library, that looks like an
    e-mail.** -/
theorem detect_alike_iff (fromU8 : List UInt8 → String) (bytes : List UInt8) :
    detectUploadMime fromU8 bytes = detectMime fromU8 bytes ↔
      ¬ (fromU8 bytes = "text/plain" ∧ looksLikeEmail bytes = true) := by
  have hmagic := (normalizeOctetStreamMagic_ne bytes).1
  unfold detectUploadMime detectMime
  rw [← classifyZipContainer_eq, ← normalizeOctetStreamMagic_eq]
  by_cases hempty : bytes.isEmpty = true
  · have hnone : looksLikeEmail bytes = false := by
      rw [List.isEmpty_iff.1 hempty]
      decide +kernel
    simp [hempty, hnone]
  · rw [if_neg hempty, if_neg hempty]
    dsimp only
    generalize normalizeOctetStreamMagic bytes = magic at *
    by_cases hunknown : (fromU8 bytes == "application/octet-stream" || fromU8 bytes == "application/x-riff") = true
    · -- the bytes were looked at, and what they say is no text
      have hne : fromU8 bytes ≠ "text/plain" := by
        intro h
        rw [h] at hunknown
        exact absurd hunknown (by decide)
      simp [hunknown, hmagic, hne]
    · rw [if_neg hunknown]
      by_cases hzip : fromU8 bytes = "application/zip"
      · simp [hzip]
      · by_cases hemail : fromU8 bytes = "text/plain" ∧ looksLikeEmail bytes = true
        · simp [hemail.1, hemail.2]
        · simp [hzip, hemail]

/-- Two headers and nothing else: an e-mail at the edge, a text in the pipeline. -/
theorem email_routed_as_text :
    detectUploadMime (fun _ => "text/plain") (ascii "To:\nCc:") = "message/rfc822" ∧
      detectMime (fun _ => "text/plain") (ascii "To:\nCc:") = "text/plain" := by
  decide +kernel

/-! ### Kinds -/

/-- `DocKind::as_str`. -/
def kindStr : DocKind → String
  | .document => "document"
  | .image => "image"
  | .audio => "audio"
  | .video => "video"
  | .identityDocument => "identity_document"
  | .code => "code"
  | .archive => "archive"
  | .binary => "binary"
  | .email => "email"

/-- The `CHECK` constraint on `documents.kind`. -/
def kindAdmitted (kind : DocKind) : Bool :=
  ["document", "image", "audio", "video", "identity_document", "code", "archive", "binary"].contains (kindStr kind)

theorem kindAdmitted_iff (kind : DocKind) : kindAdmitted kind = true ↔ kind ≠ .email := by
  cases kind <;> decide

theorem mimeToDocKind_eq_email_iff (mime : String) : mimeToDocKind mime = .email ↔ mime = "message/rfc822" := by
  refine ⟨fun h => ?_, fun h => by rw [h]; decide⟩
  by_contra hne
  dsimp only [mimeToDocKind] at h
  rw [beq_eq_false_iff_ne.2 hne, if_neg Bool.false_ne_true] at h
  split_ifs at h

variable {fromU8 : List UInt8 → String} {bytes : List UInt8}

/-- What is not empty is of the type of an e-mail only by the magic library. -/
theorem detectMime_eq_email_iff (hbytes : bytes ≠ []) :
    detectMime fromU8 bytes = "message/rfc822" ↔ fromU8 bytes = "message/rfc822" := by
  have hzip : classifyZipContainer bytes ≠ "message/rfc822" := by
    intro h
    have hmem := classifyZipContainer_mem bytes
    rw [h] at hmem
    exact absurd hmem (by decide)
  unfold detectMime
  rw [if_neg (by simpa using hbytes)]
  dsimp only
  by_cases hunknown : (fromU8 bytes == "application/octet-stream" || fromU8 bytes == "application/x-riff") = true
  · have hne : fromU8 bytes ≠ "message/rfc822" := by
      intro h
      rw [h] at hunknown
      exact absurd hunknown (by decide)
    rw [if_pos hunknown]
    refine iff_of_false ?_ hne
    split_ifs
    · exact hzip
    · exact (normalizeOctetStreamMagic_ne bytes).2
  · rw [if_neg hunknown]
    split_ifs with hcontainer
    · refine iff_of_false hzip fun h => ?_
      rw [h] at hcontainer
      exact absurd hcontainer (by decide)
    · exact Iff.rfl

theorem inferDocKind_eq_email_iff {mimes : List String} (hne : mimes ≠ []) :
    inferDocKind mimes = .email ↔ ∀ mime ∈ mimes, mime = "message/rfc822" := by
  obtain ⟨mime, rest, rfl⟩ := exists_cons_of_ne_nil hne
  have hall : (∀ m ∈ mime :: rest, m = "message/rfc822") ↔ ∀ m ∈ mime :: rest, mimeToDocKind m = .email :=
    forall₂_congr fun m _ => (mimeToDocKind_eq_email_iff m).symm
  rw [hall, inferDocKind, map_cons]
  dsimp only
  rw [← map_cons, all_map]
  split_ifs with hsame
  · simp only [all_eq_true, Function.comp_apply, beq_iff_eq] at hsame
    exact ⟨fun h m hm => (hsame m hm).trans h, fun h => h mime mem_cons_self⟩
  · refine iff_of_false (by decide) fun h => hsame (all_eq_true.2 fun m hm => ?_)
    rw [Function.comp_apply, h m hm, h mime mem_cons_self]
    rfl

theorem ne_nil_of_accepted {path : Option String} {max : ℕ}
    (h : validateUpload fromU8 bytes path max = .ok ()) : bytes ≠ [] := by
  rintro rfl
  have hmime : validateMime "application/x-empty" = .error (.disallowedMime "application/x-empty") := by
    decide +kernel
  have hempty : detectUploadMime fromU8 [] = "application/x-empty" := rfl
  rw [validateUpload, hempty, hmime] at h
  revert h
  cases validateFileSize ([] : List UInt8).length max with
  | error e => rintro ⟨⟩
  | ok _ =>
    cases path with
    | none => rintro ⟨⟩
    | some path => cases h : validateFilePath path <;> simp [h, bind, Except.bind]

/-- **An upload that was accepted has a kind the schema admits exactly if the magic library takes one of its files for
    something other than an e-mail.** -/
theorem accepted_kind_admitted_iff (c : Content) (tenantId : Int) {pages : List PageInput} (userNote : Option String)
    (now : Time) (maxFileBytes : ℕ) (hne : pages ≠ [])
    (haccepted : ∀ page ∈ pages, validateUpload c.fromU8 page.bytes page.path maxFileBytes = .ok ()) :
    kindAdmitted (buildMulti c tenantId pages userNote now).1.kind = true ↔
      ∃ page ∈ pages, c.fromU8 page.bytes ≠ "message/rfc822" := by
  have hmimes : pages.map (fun p => detectMime c.fromU8 p.bytes) ≠ [] := by simpa using hne
  rw [kindAdmitted_iff, ne_eq, buildMulti, inferDocKind_eq_email_iff hmimes, forall_mem_map]
  simp only [not_forall, exists_prop]
  refine exists_congr fun page => and_congr_right fun hpage => ?_
  rw [detectMime_eq_email_iff (ne_nil_of_accepted (haccepted page hpage))]

/-- What the magic library says is the same for every file. -/
def constantMagic (mime : String) : Content := ⟨fun _ => ⟨List.replicate 32 0, Sha256.length_filled 0⟩, fun _ => mime⟩

theorem text_kind_admitted :
    kindAdmitted (buildMulti (constantMagic "text/plain") 1 [⟨[97], none, none⟩] none 0).1.kind = true :=
  (accepted_kind_admitted_iff (constantMagic "text/plain") 1 none 0 1 (by decide)
    (by decide +kernel)).2 (by decide +kernel)

/-- An e-mail that the magic library recognises is accepted, and cannot be inserted. -/
theorem email_not_insertable :
    validateUpload (fun _ => "message/rfc822") [97] none 1 = .ok () ∧
      kindAdmitted (buildSingle (constantMagic "message/rfc822") 1 [97] none none 0).1.kind = false := by
  decide +kernel

end DocumentBuilder

end Tagsmaxxing
