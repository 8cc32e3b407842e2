import Tagsmaxxing.Extract.Text

/-! # E-mails (`email.rs`)

`extract_email` walks the parts of a message and joins the texts of those that have one; HTML parts lose their
tags first. The MIME parser is a parameter: any message with any parts. -/

namespace Tagsmaxxing.Email

open List

/-! ## Messages -/

structure Addr where
  name : Option String
  address : Option String

inductive Address
  | list (addrs : List Addr)
  | group (groups : List (Option String × List Addr))

structure ContentType where
  ctype : String
  subtype : Option String

/-- What is asked of a part. -/
structure Part where
  isMultipart : Bool
  isTextHtml : Bool
  isText : Bool
  isBinary : Bool
  isMessage : Bool
  textContents : Option (List Char)
  attachmentName : Option String

/-- What is asked of a message; the date is in RFC 3339 form. -/
structure Message where
  fromAddr : Option Address
  toAddr : Option Address
  ccAddr : Option Address
  subject : Option String
  date : Option String
  messageId : Option String
  contentType : Option ContentType
  parts : List Part

/-! ## The code -/

def maxEmailBytes : ℕ := 10 * 1024 * 1024

def maxEmailParts : ℕ := 1000

def formatAddr (a : Addr) : String :=
  match a.name, a.address with
  | some name, some addr => name ++ " <" ++ addr ++ ">"
  | some name, none => name
  | none, some addr => addr
  | none, none => ""

def formatAddress : Address → String
  | .list addrs => String.intercalate ", " (addrs.map formatAddr)
  | .group groups => String.intercalate "; "
      (groups.map fun g => g.1.getD "" ++ ": " ++ String.intercalate ", " (g.2.map formatAddr))

def formatContentType (ct : ContentType) : String :=
  match ct.subtype with
  | some subtype => ct.ctype ++ "/" ++ subtype
  | none => ct.ctype

/-- The loop of `strip_html_tags`. -/
def outsideTags (inside : Bool) : List Char → List Char
  | [] => []
  | ch :: cs =>
      if ch = '<' then outsideTags true cs
      else if ch = '>' then outsideTags false cs
      else if inside then outsideTags inside cs
      else ch :: outsideTags inside cs

def splitAsciiWhitespace (cs : List Char) : List (List Char) :=
  (cs.splitOnP Text.isAsciiWhitespace).filter fun word => !word.isEmpty

/-- `str::replace`, with the number of characters that belong to the last match. -/
def replaceFrom (pat new : List Char) : ℕ → List Char → List Char
  | _, [] => []
  | skip + 1, _ :: cs => replaceFrom pat new skip cs
  | 0, c :: cs =>
      if pat.isPrefixOf (c :: cs) then new ++ replaceFrom pat new (pat.length - 1) cs
      else c :: replaceFrom pat new 0 cs

def replace (pat new cs : List Char) : List Char := replaceFrom pat new 0 cs

/-- The replacements of `strip_html_tags`, in their order. -/
def entities : List (String × Char) :=
  [("&amp;", '&'), ("&lt;", '<'), ("&gt;", '>'), ("&quot;", '"'), ("&#39;", '\''), ("&nbsp;", ' ')]

def stripHtmlTags (html : List Char) : List Char :=
  let collapsed := [' '].intercalate (splitAsciiWhitespace (outsideTags false html))
  entities.foldl (fun text entity => replace entity.1.toList [entity.2] text) collapsed

/-- What the walk over the parts has collected. -/
structure Body where
  bodyText : List Char := []
  hasHtml : Bool := false
  attachmentNames : List String := []

/-- A text goes on a line of its own. -/
def Body.push (body : Body) (text : List Char) : Body :=
  { body with bodyText := (if body.bodyText.isEmpty then [] else body.bodyText ++ ['\n']) ++ text }

/-- One round of the walk. -/
def walkPart (body : Body) (part : Part) : Body :=
  if part.isMultipart then body
  else if part.isTextHtml then
    let body := { body with hasHtml := true }
    match part.textContents with
    | some html => body.push (stripHtmlTags html)
    | none => body
  else if part.isText then
    match part.textContents with
    | some t => body.push t
    | none => body
  else if part.isBinary || part.isMessage || part.isMultipart then
    let name := part.attachmentName.getD ("part_" ++ toString body.attachmentNames.length)
    { body with attachmentNames := body.attachmentNames ++ [name] }
  else body

/-- The header fields of the metadata, those that are there. -/
def headerFields (message : Message) : List (String × Json) :=
  [ ("email:from", message.fromAddr.map formatAddress), ("email:to", message.toAddr.map formatAddress),
    ("email:cc", message.ccAddr.map formatAddress), ("email:subject", message.subject),
    ("email:date", message.date), ("email:message_id", message.messageId),
    ("email:content_type", message.contentType.map formatContentType) ].filterMap
    fun field => field.2.map fun value => (field.1, Json.str value)

def extractEmail (parse : List UInt8 → Option Message) (file : RawFile) : Extracted :=
  match parse (file.bytes.take maxEmailBytes) with
  | none => {}
  | some message =>
      let body := (message.parts.take maxEmailParts).foldl walkPart {}
      { text := body.bodyText
        metadata := .obj (headerFields message ++
          [ ("email:attachment_count", .int body.attachmentNames.length),
            ("email:attachment_names", .arr (body.attachmentNames.map .str)),
            ("email:has_html", .bool body.hasHtml) ]) }

/-- `EmailExtractor::extract`. -/
def emailExtract (parse : List UInt8 → Option Message) (file : RawFile) : Except String Extracted :=
  .ok (extractEmail parse file)

example : stripHtmlTags "<p>a  &lt;b&gt;</p>\n c".toList = "a <b> c".toList := by decide +kernel

/-! ## A NUL passes

Nothing between the parser and the result removes one: it is lost only inside a tag. -/

theorem flatten_splitOnP {α : Type} (p : α → Bool) (xs : List α) :
    (xs.splitOnP p).flatten = xs.filter fun c => !p c := by
  induction xs with
  | nil => simp
  | cons x xs ih =>
    rw [splitOnP_cons_eq_if_modifyHead, filter_cons, ← ih]
    split
    next hx => simp [hx]
    next hx =>
      obtain ⟨w, ws, hw⟩ := exists_cons_of_ne_nil (splitOnP_ne_nil p xs)
      simp [hx, hw]

theorem mem_intercalate {α : Type} {sep : List α} {c : α} (hc : c ∉ sep) (words : List (List α)) :
    c ∈ sep.intercalate words ↔ c ∈ words.flatten := by
  induction words with
  | nil => simp
  | cons w words ih =>
    cases words with
    | nil => simp
    | cons w' words =>
      rw [intercalate_cons_cons, flatten_cons, mem_append, mem_append, mem_append, ih]
      simp [hc]

theorem mem_replaceFrom {pat new : List Char} {c : Char} (hpat : c ∉ pat) (hnew : c ∉ new) (hne : pat ≠ [])
    (skip : ℕ) (cs : List Char) : c ∈ replaceFrom pat new skip cs ↔ c ∈ cs.drop skip := by
  induction cs generalizing skip with
  | nil => simp [replaceFrom]
  | cons d cs ih =>
    cases skip with
    | succ skip => rw [replaceFrom, ih, drop_succ_cons]
    | zero =>
      rw [replaceFrom, drop_zero]
      split
      next hprefix =>
        -- what is replaced is the pattern
        obtain ⟨rest, hrest⟩ := isPrefixOf_iff_prefix.1 hprefix
        have hdrop : cs.drop (pat.length - 1) = rest := by
          rw [← drop_succ_cons (a := d), Nat.sub_add_cancel (length_pos_iff.2 hne), ← hrest, drop_left]
        rw [mem_append, ih, hdrop, ← hrest, mem_append]
        simp [hpat, hnew]
      · rw [mem_cons, ih, drop_zero, mem_cons]

theorem nul_mem_foldl_replace {entities : List (String × Char)}
    (h : ∀ entity ∈ entities, '\x00' ∉ entity.1.toList ∧ '\x00' ∉ [entity.2] ∧ entity.1.toList ≠ [])
    (text : List Char) :
    '\x00' ∈ entities.foldl (fun text entity => replace entity.1.toList [entity.2] text) text ↔ '\x00' ∈ text := by
  induction entities generalizing text with
  | nil => rfl
  | cons entity entities ih =>
    obtain ⟨hpat, hnew, hne⟩ := h entity mem_cons_self
    rw [foldl_cons, ih fun e he => h e (mem_cons_of_mem _ he), replace, mem_replaceFrom hpat hnew hne,
      drop_zero]

theorem nul_mem_stripHtmlTags (html : List Char) :
    '\x00' ∈ stripHtmlTags html ↔ '\x00' ∈ outsideTags false html := by
  rw [stripHtmlTags, nul_mem_foldl_replace (by decide), mem_intercalate (by decide), splitAsciiWhitespace,
    flatten_filter_not_isEmpty, flatten_splitOnP, mem_filter]
  exact and_iff_left rfl

/-- A part whose text has a NUL, for HTML outside of the tags. -/
def Part.CarriesNul (part : Part) : Prop :=
  part.isMultipart = false ∧ ∃ text, part.textContents = some text ∧
    ((part.isTextHtml = true ∧ '\x00' ∈ outsideTags false text) ∨
      (part.isTextHtml = false ∧ part.isText = true ∧ '\x00' ∈ text))

theorem nul_mem_push (body : Body) (text : List Char) :
    '\x00' ∈ (body.push text).bodyText ↔ '\x00' ∈ body.bodyText ∨ '\x00' ∈ text := by
  rw [Body.push, mem_append]
  refine or_congr_left ?_
  split
  next hempty => rw [List.isEmpty_iff.1 hempty]
  · simp

theorem nul_mem_walkPart (body : Body) (part : Part) :
    '\x00' ∈ (walkPart body part).bodyText ↔ '\x00' ∈ body.bodyText ∨ part.CarriesNul := by
  unfold walkPart
  split
  next hmulti => simp [Part.CarriesNul, hmulti]
  next hmulti =>
    split
    · next hhtml =>
      cases htext : part.textContents with
      | none => simp [Part.CarriesNul, htext]
      | some html => simp [Part.CarriesNul, htext, hmulti, hhtml, nul_mem_push, nul_mem_stripHtmlTags]
    · next hhtml =>
      split
      · next hisText =>
        cases htext : part.textContents with
        | none => simp [Part.CarriesNul, htext]
        | some text => simp [Part.CarriesNul, htext, hmulti, hhtml, hisText, nul_mem_push]
      · next hisText =>
        have hno : ¬ part.CarriesNul := by simp [Part.CarriesNul, hhtml, hisText]
        split
        all_goals simp [hno]

theorem nul_mem_foldl_walkPart (parts : List Part) (body : Body) :
    '\x00' ∈ (parts.foldl walkPart body).bodyText ↔
      '\x00' ∈ body.bodyText ∨ ∃ part ∈ parts, part.CarriesNul := by
  induction parts generalizing body with
  | nil => simp
  | cons part parts ih => rw [foldl_cons, ih, nul_mem_walkPart, exists_mem_cons_iff, or_assoc]

/-- A NUL in the text of an e-mail is one of the text of one of its first parts. -/
theorem nul_mem_emailExtract {parse : List UInt8 → Option Message} {file : RawFile} {extracted : Extracted}
    (h : emailExtract parse file = .ok extracted) :
    '\x00' ∈ extracted.text ↔ ∃ message, parse (file.bytes.take maxEmailBytes) = some message ∧
      ∃ part ∈ message.parts.take maxEmailParts, part.CarriesNul := by
  cases h
  rw [extractEmail]
  cases hparse : parse (file.bytes.take maxEmailBytes) with
  | none => simp
  | some message => simp [nul_mem_foldl_walkPart]

end Tagsmaxxing.Email
