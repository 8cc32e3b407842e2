import Tagsmaxxing.Core.Json
import Tagsmaxxing.Lib.Utf8Decode
import Tagsmaxxing.Pipeline.DocumentBuilder

/-! # Text and code files (`text.rs`, `code.rs`, the types of `extractor.rs`)

Both extractors decode the bytes as UTF-8. `CodeExtractor` returns the text as it is; `TextExtractor` first
reads CSV, Markdown and HTML into plain text and then removes the control characters. Rust's peekable
iterators are the characters that are still to come, and what a scanner leaves is always the end of what it
was given. -/

namespace Tagsmaxxing

open List

/-- What the extractors read of a `RawFile`. -/
structure RawFile where
  bytes : List UInt8
  mime : Option String
  path : Option String

structure PageImage where
  data : List UInt8
  mime : String

/-- `Extracted`, with `Extracted::default()`. -/
structure Extracted where
  text : List Char := []
  metadata : Json := .null
  pageImages : List PageImage := []

namespace Text

/-! ## Line ends -/

def isEol (c : Char) : Bool := c == '\r' || c == '\n'

/-- `matches!(chars.peek(), Some('\r') | Some('\n') | None)`. -/
def atEol : List Char → Bool
  | [] => true
  | c :: _ => isEol c

/-- Past a CR, LF or CRLF if there is one. -/
def skipLineTerminator : List Char → List Char
  | [] => []
  | c :: cs =>
      if c = '\r' then (if cs.head? = some '\n' then cs.drop 1 else cs)
      else if c = '\n' then cs
      else c :: cs

/-! ### What a scanner reads and what it shows -/

/-- A scanner goes from `chars` to `rest` and shows `shown`: of the characters that `p` picks, what it read. -/
def Reads (p : Char → Bool) (chars shown rest : List Char) : Prop :=
  ∃ read, chars = read ++ rest ∧ read.filter p = shown.filter p

section Reads

variable {p : Char → Bool}

theorem Reads.refl (rest : List Char) : Reads p rest [] rest := ⟨[], rfl, rfl⟩

theorem Reads.all (chars : List Char) : Reads p chars chars [] := ⟨chars, (append_nil chars).symm, rfl⟩

variable {cs shown rest : List Char}

section

variable (h : Reads p cs shown rest)

include h

theorem Reads.suffix : rest <:+ cs := by
  obtain ⟨read, rfl, -⟩ := h
  exact suffix_append read rest

theorem Reads.cons (c : Char) : Reads p (c :: cs) (c :: shown) rest := by
  obtain ⟨read, rfl, hread⟩ := h
  refine ⟨c :: read, rfl, ?_⟩
  rw [filter_cons, filter_cons, hread]

theorem Reads.mark {c : Char} (hc : p c = false) : Reads p (c :: cs) shown rest := by
  obtain ⟨read, rfl, hread⟩ := h
  refine ⟨c :: read, rfl, ?_⟩
  rw [filter_cons_of_neg (Bool.eq_false_iff.1 hc), hread]

theorem Reads.marks {marks : List Char} (hmarks : ∀ c ∈ marks, p c = false) : Reads p (marks ++ cs) shown rest := by
  induction marks with
  | nil => exact h
  | cons c marks ih =>
    exact (ih fun d hd => hmarks d (mem_cons_of_mem c hd)).mark (hmarks c mem_cons_self)

end

theorem reads_skipLineTerminator (hcr : p '\r' = false) (hlf : p '\n' = false) (cs : List Char) :
    Reads p cs [] (skipLineTerminator cs) := by
  fun_cases skipLineTerminator cs with
  | case1 => exact .refl []
  | case2 cs hhead =>
    obtain ⟨cs, rfl⟩ := head?_eq_some_iff.1 hhead
    exact ((Reads.refl cs).mark hlf).mark hcr
  | case3 cs _ => exact (Reads.refl cs).mark hcr
  | case4 cs => exact (Reads.refl cs).mark hlf
  | case5 c cs => exact .refl (c :: cs)

end Reads

theorem skipLineTerminator_suffix (cs : List Char) : skipLineTerminator cs <:+ cs :=
  (reads_skipLineTerminator (p := fun _ => false) rfl rfl cs).suffix

variable {cs : List Char}

theorem length_skipLineTerminator_lt (hcs : cs ≠ []) (h : atEol cs = true) :
    (skipLineTerminator cs).length < cs.length := by
  cases cs with
  | nil => exact absurd rfl hcs
  | cons c cs =>
    rw [skipLineTerminator]
    split_ifs with hcr hlf hnl
    · simp only [length_drop, length_cons]
      omega
    · exact Nat.lt_succ_self _
    · exact Nat.lt_succ_self _
    · simp [atEol, isEol, hcr, hnl] at h

/-! ## CSV -/

/-- The rest of a quoted field: its value and what comes after the closing quote. -/
def readQuoted : List Char → List Char × List Char
  | [] => ([], [])
  | c :: cs =>
      if c = '"' then
        match cs with
        | '"' :: cs => ('"' :: (readQuoted cs).1, (readQuoted cs).2)
        | cs => ([], cs)
      else (c :: (readQuoted cs).1, (readQuoted cs).2)

def skipAfterQuotedField : List Char → List Char
  | [] => []
  | c :: cs => if c = ',' then cs else if isEol c then c :: cs else skipAfterQuotedField cs

/-- An unquoted field, up to a comma or the end of the line. -/
def readUnquoted : List Char → List Char × List Char
  | [] => ([], [])
  | c :: cs =>
      if c = ',' then ([], cs)
      else if isEol c then ([], c :: cs)
      else (c :: (readUnquoted cs).1, (readUnquoted cs).2)

/-- One field of a row: its value and what comes after its comma. -/
def readField : List Char → List Char × List Char
  | [] => ([], [])
  | c :: cs =>
      if c = '"' then ((readQuoted cs).1, skipAfterQuotedField (readQuoted cs).2)
      else if c = ',' then ([], cs)
      else readUnquoted (c :: cs)

theorem readQuoted_suffix (cs : List Char) : (readQuoted cs).2 <:+ cs := by
  fun_induction readQuoted cs with
  | case1 => exact suffix_rfl
  | case2 cs ih => exact (ih.trans (suffix_cons _ _)).trans (suffix_cons _ _)
  | case3 cs _ => exact suffix_cons _ _
  | case4 c cs _ ih => exact ih.trans (suffix_cons _ _)

theorem skipAfterQuotedField_suffix (cs : List Char) : skipAfterQuotedField cs <:+ cs := by
  induction cs with
  | nil => exact suffix_rfl
  | cons c cs ih =>
    rw [skipAfterQuotedField]
    split_ifs
    · exact suffix_cons c cs
    · exact suffix_rfl
    · exact ih.trans (suffix_cons c cs)

theorem readUnquoted_suffix (cs : List Char) : (readUnquoted cs).2 <:+ cs := by
  induction cs with
  | nil => exact suffix_rfl
  | cons c cs ih =>
    rw [readUnquoted]
    split_ifs
    · exact suffix_cons c cs
    · exact suffix_rfl
    · exact ih.trans (suffix_cons c cs)

theorem readField_suffix {c : Char} (h : isEol c = false) : (readField (c :: cs)).2 <:+ cs := by
  rw [readField]
  split_ifs with hquote hcomma
  · exact (skipAfterQuotedField_suffix _).trans (readQuoted_suffix cs)
  · exact suffix_rfl
  · rw [readUnquoted, if_neg hcomma, h]
    exact readUnquoted_suffix cs

/-- The loop over the fields of a row. -/
def readRow (first : Bool) (cs : List Char) : List Char × List Char :=
  if atEol cs then ([], cs)
  else
    let sep := if first then [] else [' ']
    let field := readField cs
    if atEol field.2 then (sep ++ field.1, field.2)
    else
      let row := readRow false field.2
      (sep ++ field.1 ++ row.1, row.2)
termination_by cs.length
decreasing_by
  rename_i h _
  cases cs with
  | nil => exact absurd rfl h
  | cons c cs => exact Nat.lt_succ_of_le (readField_suffix (Bool.eq_false_iff.2 h)).length_le

theorem readRow_spec (first : Bool) (cs : List Char) :
    (readRow first cs).2 <:+ cs ∧ atEol (readRow first cs).2 = true := by
  fun_induction readRow first cs with
  | case1 first cs h => exact ⟨suffix_rfl, h⟩
  | case2 first cs h sep field hfield =>
    cases cs with
    | nil => exact absurd rfl h
    | cons c cs =>
      exact ⟨(readField_suffix (Bool.eq_false_iff.2 h)).trans (suffix_cons c cs), hfield⟩
  | case3 first cs h sep field hfield row ih =>
    cases cs with
    | nil => exact absurd rfl h
    | cons c cs =>
      exact ⟨(ih.1.trans (readField_suffix (Bool.eq_false_iff.2 h))).trans (suffix_cons c cs), ih.2⟩

theorem length_afterRow_lt (h : cs ≠ []) : (skipLineTerminator (readRow true cs).2).length < cs.length := by
  obtain ⟨hsuffix, heol⟩ := readRow_spec true cs
  by_cases hrest : (readRow true cs).2 = []
  · rw [hrest]
    exact length_pos_iff.2 h
  · exact (length_skipLineTerminator_lt hrest heol).trans_le hsuffix.length_le

def csvToText (cs : List Char) : List Char :=
  if cs = [] then []
  else
    let row := readRow true cs
    let rest := skipLineTerminator row.2
    row.1 ++ (if rest.isEmpty then [] else ['\n']) ++ csvToText rest
termination_by cs.length
decreasing_by
  rename_i h
  exact length_afterRow_lt h

example : csvToText "a,\"b, c\"\n1,\r\n".toList = "a b, c\n1".toList := by decide +kernel

/-! ## HTML -/

def isAsciiWhitespace (c : Char) : Bool := c == ' ' || c == '\t' || c == '\n' || c == '\x0c' || c == '\r'

def isHtmlBlockTag (raw : List Char) : Bool :=
  let stripped := if raw.head? = some '/' then raw.drop 1 else raw
  let name := (stripped.dropWhile isAsciiWhitespace).takeWhile fun c => !isAsciiWhitespace c
  ["p", "div", "h1", "h2", "h3", "h4", "h5", "h6", "li", "tr", "br"].any fun tag => tag.toList == name

/-- The name of an entity up to its semicolon. -/
def readEntityName : List Char → Option (List Char × List Char)
  | [] => none
  | c :: cs =>
      if c = ';' then some ([], cs)
      else if c.isAlphanum || c == '#' then (readEntityName cs).map fun r => (c :: r.1, r.2)
      else none

/-- The entities that `decode_html_entity` knows. -/
def entityChar (name : List Char) : Option Char :=
  [("amp", '&'), ("lt", '<'), ("gt", '>'), ("quot", '"'), ("apos", '\''), ("#39", '\''), ("nbsp", ' ')].lookup
    (String.ofList name)

/-- `decode_html_entity`, after the `&`. -/
def decodeHtmlEntity (cs : List Char) : Option (Char × List Char) :=
  (readEntityName cs).bind fun r => (entityChar r.1).map fun decoded => (decoded, r.2)

theorem readEntityName_suffix {r : List Char × List Char} (h : readEntityName cs = some r) : r.2 <:+ cs := by
  induction cs generalizing r with
  | nil => cases h
  | cons c cs ih =>
    rw [readEntityName] at h
    split_ifs at h
    · cases h
      exact suffix_cons c cs
    · obtain ⟨r', hr', rfl⟩ := Option.map_eq_some_iff.1 h
      exact (ih hr').trans (suffix_cons c cs)

theorem decodeHtmlEntity_suffix {rest : List Char} {decoded : Char} (h : decodeHtmlEntity cs = some (decoded, rest)) :
    rest <:+ cs := by
  obtain ⟨r, hr, hmap⟩ := Option.bind_eq_some_iff.1 h
  obtain ⟨d, -, ⟨⟩⟩ := Option.map_eq_some_iff.1 hmap
  exact readEntityName_suffix hr

/-- The loop of `strip_html`. The last tag is kept, and a `>` outside of any tag asks for it again. -/
def stripTags (inTag : Bool) (tagBuf : List Char) (cs : List Char) : List Char :=
  match cs with
  | [] => []
  | c :: cs =>
      if c = '<' then stripTags true [] cs
      else if c = '>' then (if isHtmlBlockTag tagBuf then ['\n'] else []) ++ stripTags false tagBuf cs
      else if inTag then stripTags inTag (tagBuf ++ [c]) cs
      else if c = '&' then
        match _ : decodeHtmlEntity cs with
        | some (decoded, rest) => decoded :: stripTags inTag tagBuf rest
        | none => c :: stripTags inTag tagBuf cs
      else c :: stripTags inTag tagBuf cs
termination_by cs.length
decreasing_by
  all_goals simp only [List.length_cons]
  all_goals first
    | omega
    | exact Nat.lt_succ_of_le (decodeHtmlEntity_suffix ‹_›).length_le

/-- The loop of `collapse_newlines`. -/
def collapseFrom (resultIsEmpty : Bool) (nlCount : ℕ) : List Char → List Char
  | [] => []
  | c :: cs =>
      if c = '\n' then
        if !resultIsEmpty && decide (nlCount + 1 ≤ 2) then '\n' :: collapseFrom false (nlCount + 1) cs
        else collapseFrom resultIsEmpty (nlCount + 1) cs
      else c :: collapseFrom false 0 cs

def collapseNewlines (out : List Char) : List Char := collapseFrom true 0 out

theorem collapseNewlines_sublist (out : List Char) : (collapseNewlines out).Sublist out := by
  have hfrom : ∀ (resultIsEmpty : Bool) (n : ℕ), (collapseFrom resultIsEmpty n out).Sublist out := by
    induction out with
    | nil => intro _ _; exact List.Sublist.refl _
    | cons c cs ih =>
      intro resultIsEmpty n
      rw [collapseFrom]
      split_ifs with hc
      · exact hc ▸ (ih _ _).cons_cons _
      · exact (ih _ _).cons c
      · exact (ih _ _).cons_cons c
  exact hfrom true 0

theorem filter_collapseNewlines {p : Char → Bool} (hp : p '\n' = false) (out : List Char) :
    (collapseNewlines out).filter p = out.filter p := by
  have hfrom : ∀ (resultIsEmpty : Bool) (n : ℕ), (collapseFrom resultIsEmpty n out).filter p = out.filter p := by
    induction out with
    | nil => intro _ _; rfl
    | cons c cs ih =>
      intro resultIsEmpty n
      rw [collapseFrom]
      split_ifs with hc
      · rw [filter_cons, filter_cons, ih, hc]
      · rw [ih, filter_cons_of_neg (by simp [hc, hp])]
      · rw [filter_cons, filter_cons, ih]
  exact hfrom true 0

def stripHtml (input : List Char) : List Char := collapseNewlines (stripTags false [] input)

example : stripHtml "<p>Hello <b>world</b> &amp; friends</p>".toList = "Hello world & friends\n".toList := by
  decide +kernel

/-! ## Markdown -/

/-- The bracket that nests what ends with `closing`. -/
def mdOpening (closing : Char) : Char := if closing = ']' then '[' else closing

/-- `md_collect_until`, at nesting `depth`. -/
def mdCollectUntil (closing : Char) (depth : ℕ) : List Char → List Char × List Char
  | [] => ([], [])
  | c :: cs =>
      if c = mdOpening closing then
        (c :: (mdCollectUntil closing (depth + 1) cs).1, (mdCollectUntil closing (depth + 1) cs).2)
      else if c = closing then
        if depth - 1 = 0 then ([], cs)
        else (c :: (mdCollectUntil closing (depth - 1) cs).1, (mdCollectUntil closing (depth - 1) cs).2)
      else (c :: (mdCollectUntil closing depth cs).1, (mdCollectUntil closing depth cs).2)

/-- `md_skip_parens`, at nesting `depth`. -/
def mdSkipParens (depth : ℕ) : List Char → List Char
  | [] => []
  | c :: cs =>
      if c = '(' then mdSkipParens (depth + 1) cs
      else if c = ')' then (if depth - 1 = 0 then cs else mdSkipParens (depth - 1) cs)
      else mdSkipParens depth cs

/-- A destination in parentheses, after the text of a link or an image. -/
def mdSkipDestination : List Char → List Char
  | [] => []
  | c :: cs => if c = '(' then mdSkipParens 1 cs else c :: cs

def mdConsumeUntilStr (delim : List Char) : List Char → List Char × List Char
  | [] => ([], [])
  | c :: cs =>
      if delim.isPrefixOf (c :: cs) then ([], (c :: cs).drop delim.length)
      else (c :: (mdConsumeUntilStr delim cs).1, (mdConsumeUntilStr delim cs).2)

/-- The text after a `*` or `_` that opens an emphasis, which may be a double one. -/
def mdEmphasis (mark : Char) (cs : List Char) : List Char × List Char :=
  if cs.head? = some mark then mdConsumeUntilStr [mark, mark] (cs.drop 1) else mdConsumeUntilStr [mark] cs

def mdIsBlank (c : Char) : Bool := c == ' ' || c == '\t'

/-- The space after a heading's or a quote's mark. -/
def mdSkipSpace (cs : List Char) : List Char := if cs.head? = some ' ' then cs.drop 1 else cs

def mdSkipEol (cs : List Char) : List Char := cs.dropWhile fun c => !isEol c

def mdSkipCrlf (cs : List Char) : List Char := skipLineTerminator cs

/-- `md_consume_line_terminator`, with whether there was one. -/
def mdConsumeLineTerminator (cs : List Char) : Bool × List Char :=
  (cs.head?.any isEol, skipLineTerminator cs)

section Reads

variable {p : Char → Bool}

theorem reads_mdCollectUntil {closing : Char} (hclosing : p closing = false) (depth : ℕ) (cs : List Char) :
    Reads p cs (mdCollectUntil closing depth cs).1 (mdCollectUntil closing depth cs).2 := by
  induction cs generalizing depth with
  | nil => exact .refl []
  | cons c cs ih =>
    rw [mdCollectUntil]
    split_ifs with hopening hc
    · exact (ih (depth + 1)).cons c
    · exact (Reads.refl cs).mark (hc ▸ hclosing)
    · exact (ih (depth - 1)).cons c
    · exact (ih depth).cons c

theorem reads_mdConsumeUntilStr {delim : List Char} (hdelim : ∀ c ∈ delim, p c = false) (cs : List Char) :
    Reads p cs (mdConsumeUntilStr delim cs).1 (mdConsumeUntilStr delim cs).2 := by
  induction cs with
  | nil => exact .refl []
  | cons c cs ih =>
    rw [mdConsumeUntilStr]
    split_ifs with hmatch
    · obtain ⟨rest, hrest⟩ := isPrefixOf_iff_prefix.1 hmatch
      rw [← hrest, drop_left]
      exact (Reads.refl rest).marks hdelim
    · exact ih.cons c

theorem reads_mdEmphasis {mark : Char} (hmark : p mark = false) (cs : List Char) :
    Reads p cs (mdEmphasis mark cs).1 (mdEmphasis mark cs).2 := by
  rw [mdEmphasis]
  split_ifs with hdouble
  · obtain ⟨cs, rfl⟩ := head?_eq_some_iff.1 hdouble
    refine Reads.mark (reads_mdConsumeUntilStr ?_ cs) hmark
    simp [hmark]
  · exact reads_mdConsumeUntilStr (by simp [hmark]) cs

theorem reads_mdSkipSpace (hspace : p ' ' = false) (cs : List Char) :
    Reads p cs [] (mdSkipSpace cs) := by
  rw [mdSkipSpace]
  split_ifs with hhead
  · obtain ⟨cs, rfl⟩ := head?_eq_some_iff.1 hhead
    exact (Reads.refl cs).mark hspace
  · exact .refl cs

end Reads

theorem mdCollectUntil_suffix (closing : Char) (depth : ℕ) (cs : List Char) :
    (mdCollectUntil closing depth cs).2 <:+ cs :=
  (reads_mdCollectUntil (p := fun _ => false) rfl depth cs).suffix

theorem mdSkipParens_suffix (depth : ℕ) (cs : List Char) : mdSkipParens depth cs <:+ cs := by
  induction cs generalizing depth with
  | nil => exact suffix_rfl
  | cons c cs ih =>
    rw [mdSkipParens]
    split_ifs
    · exact (ih _).trans (suffix_cons c cs)
    · exact suffix_cons c cs
    · exact (ih _).trans (suffix_cons c cs)
    · exact (ih _).trans (suffix_cons c cs)

theorem mdSkipDestination_suffix (cs : List Char) : mdSkipDestination cs <:+ cs := by
  cases cs with
  | nil => exact suffix_rfl
  | cons c cs =>
    rw [mdSkipDestination]
    split_ifs
    · exact (mdSkipParens_suffix 1 cs).trans (suffix_cons c cs)
    · exact suffix_rfl

theorem mdEmphasis_suffix (mark : Char) (cs : List Char) : (mdEmphasis mark cs).2 <:+ cs :=
  (reads_mdEmphasis (p := fun _ => false) rfl cs).suffix

theorem mdSkipSpace_suffix (cs : List Char) : mdSkipSpace cs <:+ cs :=
  (reads_mdSkipSpace (p := fun _ => false) rfl cs).suffix

section

-- `char::is_alphanumeric`, which knows all of Unicode
variable (isAlphanumeric : Char → Bool)

/-- The characters that are left, and the output. -/
def mdStripInline (chars out : List Char) : List Char × List Char :=
  match chars with
  | [] => ([], out)
  | c :: cs =>
      if isEol c then (c :: cs, out)
      else if c = '\\' then mdStripInline (cs.drop 1) (out ++ cs.take 1)
      else if c = '!' then
        if cs.head? = some '[' then
          let alt := mdCollectUntil ']' 1 (cs.drop 1)
          mdStripInline (mdSkipDestination alt.2) (out ++ alt.1)
        else mdStripInline cs (out ++ ['!'])
      else if c = '[' then
        let text := mdCollectUntil ']' 1 cs
        mdStripInline (mdSkipDestination text.2) (out ++ text.1)
      else if c = '*' then
        let text := mdEmphasis '*' cs
        mdStripInline text.2 (out ++ text.1)
      else if c = '_' then
        -- within a word an underscore is one
        if out.getLast?.any isAlphanumeric then mdStripInline cs (out ++ ['_'])
        else
          let text := mdEmphasis '_' cs
          mdStripInline text.2 (out ++ text.1)
      else if c = '`' then
        if '`' ∈ cs then
          mdStripInline ((cs.dropWhile fun d => d != '`').drop 1) (out ++ cs.takeWhile fun d => d != '`')
        else ([], out ++ '`' :: cs)
      else mdStripInline cs (out ++ [c])
termination_by chars.length
decreasing_by
  · exact Nat.lt_succ_of_le (List.drop_suffix 1 cs).length_le
  · exact Nat.lt_succ_of_le (((mdSkipDestination_suffix _).trans (mdCollectUntil_suffix _ _ _)).trans
      (List.drop_suffix 1 cs)).length_le
  · exact Nat.lt_succ_self _
  · exact Nat.lt_succ_of_le ((mdSkipDestination_suffix _).trans (mdCollectUntil_suffix _ _ _)).length_le
  · exact Nat.lt_succ_of_le (mdEmphasis_suffix _ cs).length_le
  · exact Nat.lt_succ_self _
  · exact Nat.lt_succ_of_le (mdEmphasis_suffix _ cs).length_le
  · exact Nat.lt_succ_of_le ((List.drop_suffix 1 _).trans (List.dropWhile_suffix _)).length_le
  · exact Nat.lt_succ_self _

namespace Markdown

/-- A round of the loop of `md_strip_inline`: what it shows, what is left when that is read, and what is left when a
destination is skipped. -/
structure Round where
  shown : List Char
  rest : List Char
  next : List Char

/-- A round without a destination. -/
def Round.text (text : List Char × List Char) : Round := ⟨text.1, text.2, text.2⟩

/-- A round over a link or an image. -/
def Round.link (text : List Char × List Char) : Round := ⟨text.1, text.2, mdSkipDestination text.2⟩

/-- The round of `md_strip_inline` at `c`. All it knows of the output is whether that ends with a letter or digit. -/
def round (inWord : Bool) (c : Char) (cs : List Char) : Round :=
  if c = '\\' then .text (cs.take 1, cs.drop 1)
  else if c = '!' then
    if cs.head? = some '[' then .link (mdCollectUntil ']' 1 (cs.drop 1)) else .text (['!'], cs)
  else if c = '[' then .link (mdCollectUntil ']' 1 cs)
  else if c = '*' then .text (mdEmphasis '*' cs)
  else if c = '_' then if inWord then .text (['_'], cs) else .text (mdEmphasis '_' cs)
  else if c = '`' then
    if '`' ∈ cs then .text (cs.takeWhile fun d => d != '`', (cs.dropWhile fun d => d != '`').drop 1)
    else .text ('`' :: cs, [])
  else .text ([c], cs)

section

variable (inWord : Bool) (c : Char) (cs : List Char)

theorem round_next_suffix_rest : (round inWord c cs).next <:+ (round inWord c cs).rest := by
  fun_cases round inWord c cs with
  | case2 => exact mdSkipDestination_suffix _
  | case4 => exact mdSkipDestination_suffix _
  | _ => exact suffix_rfl

theorem round_rest_suffix : (round inWord c cs).rest <:+ cs := by
  fun_cases round inWord c cs with
  | case1 => exact drop_suffix 1 cs
  | case2 => exact (mdCollectUntil_suffix _ _ _).trans (drop_suffix 1 cs)
  | case3 => exact suffix_rfl
  | case4 => exact mdCollectUntil_suffix _ _ cs
  | case5 => exact mdEmphasis_suffix _ cs
  | case6 => exact suffix_rfl
  | case7 => exact mdEmphasis_suffix _ cs
  | case8 => exact (drop_suffix 1 _).trans (dropWhile_suffix _)
  | case9 => exact nil_suffix
  | case10 => exact suffix_rfl

theorem round_next_suffix : (round inWord c cs).next <:+ cs :=
  (round_next_suffix_rest inWord c cs).trans (round_rest_suffix inWord c cs)

end

variable {isAlphanumeric} in
theorem mdStripInline_of_atEol {cs : List Char} (h : atEol cs = true) (out : List Char) :
    mdStripInline isAlphanumeric cs out = (cs, out) := by
  cases cs with
  | nil => rw [mdStripInline]
  | cons c cs =>
    rw [atEol] at h
    rw [mdStripInline, if_pos h]

variable {isAlphanumeric} in
theorem mdStripInline_round {c : Char} (hc : isEol c = false) (cs out : List Char) :
    mdStripInline isAlphanumeric (c :: cs) out =
      mdStripInline isAlphanumeric (round (out.getLast?.any isAlphanumeric) c cs).next
        (out ++ (round (out.getLast?.any isAlphanumeric) c cs).shown) := by
  rw [mdStripInline, if_neg (Bool.eq_false_iff.1 hc), round]
  split_ifs
  all_goals first | rfl | exact (mdStripInline_of_atEol rfl _).symm

end Markdown

/-- What is left is the end of the input, and before the end of a line something is consumed. -/
theorem mdStripInline_spec (chars out : List Char) :
    (mdStripInline isAlphanumeric chars out).1 <:+ chars ∧
      (atEol chars = false → (mdStripInline isAlphanumeric chars out).1 <:+ chars.tail) := by
  induction hlength : chars.length using Nat.strong_induction_on generalizing chars out with
  | _ n ih =>
    subst hlength
    by_cases heol : atEol chars = true
    · rw [Markdown.mdStripInline_of_atEol heol]
      exact ⟨suffix_rfl, fun h => absurd heol (Bool.eq_false_iff.1 h)⟩
    · cases chars with
      | nil => exact absurd rfl heol
      | cons c cs =>
        -- a round goes on within the tail
        have hnext := Markdown.round_next_suffix (out.getLast?.any isAlphanumeric) c cs
        have htail out := (ih _ (Nat.lt_succ_of_le hnext.length_le) _ out rfl).1.trans hnext
        rw [Markdown.mdStripInline_round (Bool.eq_false_iff.2 heol)]
        exact ⟨(htail _).trans (suffix_cons c cs), fun _ => htail _⟩

theorem mdStripInline_suffix (chars out : List Char) : (mdStripInline isAlphanumeric chars out).1 <:+ chars :=
  (mdStripInline_spec isAlphanumeric chars out).1

theorem length_skipLine_lt (h : cs ≠ []) : (mdSkipCrlf (mdSkipEol cs)).length < cs.length := by
  cases cs with
  | nil => exact absurd rfl h
  | cons c cs =>
    by_cases hc : isEol c = true
    · have hskip : mdSkipEol (c :: cs) = c :: cs := dropWhile_cons_of_neg (by simp [hc])
      rw [hskip]
      exact length_skipLineTerminator_lt h hc
    · have hskip : mdSkipEol (c :: cs) = mdSkipEol cs := dropWhile_cons_of_pos (by simp [hc])
      rw [hskip]
      exact Nat.lt_succ_of_le ((skipLineTerminator_suffix _).trans (dropWhile_suffix _)).length_le

/-- The loop of `md_consume_fence_body`. -/
def mdFenceLoop (chars out : List Char) : List Char × List Char :=
  if chars = [] then ([], out)
  else
    let probe := chars.dropWhile mdIsBlank
    if 3 ≤ (probe.takeWhile fun c => c == '`').length then
      (mdSkipEol (probe.dropWhile fun c => c == '`'), out)
    else
      let line := mdStripInline isAlphanumeric chars out
      mdFenceLoop (mdSkipCrlf (mdSkipEol line.1)) (line.2 ++ ['\n'])
termination_by chars.length
decreasing_by
  rename_i hchars _
  by_cases hline : (mdStripInline isAlphanumeric chars out).1 = []
  · rw [hline]
    exact List.length_pos_iff.2 hchars
  · exact (length_skipLine_lt hline).trans_le (mdStripInline_suffix isAlphanumeric chars out).length_le

def mdConsumeFenceBody (chars out : List Char) : List Char × List Char :=
  mdFenceLoop isAlphanumeric (mdSkipCrlf chars) out

def mdIsHr (probe : List Char) : Bool :=
  match probe with
  | [] => false
  | ch :: _ =>
      (ch == '-' || ch == '*' || ch == '_') && decide (3 ≤ (probe.takeWhile fun c => c == ch).length) &&
        atEol ((probe.dropWhile fun c => c == ch).dropWhile mdIsBlank)

theorem mdIsHr_cons {probe : List Char} (h : mdIsHr probe = true) :
    ∃ c cs, probe = c :: cs ∧ isEol c = false := by
  cases probe with
  | nil => cases h
  | cons c cs =>
    simp only [mdIsHr, Bool.and_eq_true, Bool.or_eq_true, beq_iff_eq] at h
    refine ⟨c, cs, rfl, ?_⟩
    rcases h.1.1 with (rfl | rfl) | rfl
    all_goals rfl

/-- `md_strip_line`. Only some of the prefixes move on to the probe; the others are read again. -/
def mdStripLine (chars out : List Char) : List Char × List Char :=
  let leading := chars.takeWhile mdIsBlank
  let probe := chars.dropWhile mdIsBlank
  if probe.head? = some '#' then
    mdStripInline isAlphanumeric (mdSkipSpace (probe.dropWhile fun c => c == '#')) out
  else if probe.head? = some '>' then mdStripInline isAlphanumeric (mdSkipSpace (probe.drop 1)) out
  else if probe.head? = some '`' then
    if 3 ≤ (probe.takeWhile fun c => c == '`').length then
      mdConsumeFenceBody isAlphanumeric (mdSkipEol (probe.dropWhile fun c => c == '`')) out
    else mdStripInline isAlphanumeric (chars.drop 1) (out ++ leading ++ ['`'])
  else if mdIsHr probe then (mdSkipEol probe, out)
  else mdStripInline isAlphanumeric chars (out ++ leading)

theorem mdFenceLoop_suffix (chars out : List Char) : (mdFenceLoop isAlphanumeric chars out).1 <:+ chars := by
  fun_induction mdFenceLoop isAlphanumeric chars out with
  | case1 => exact nil_suffix
  | case2 chars out _ probe _ =>
    exact ((dropWhile_suffix _).trans (dropWhile_suffix _)).trans (dropWhile_suffix _)
  | case3 chars out _ probe _ line ih =>
    exact ((ih.trans (skipLineTerminator_suffix _)).trans (dropWhile_suffix _)).trans
      (mdStripInline_suffix isAlphanumeric chars out)

theorem length_afterLine_lt {chars : List Char} (h : chars ≠ []) (out : List Char) :
    (mdSkipCrlf (mdStripLine isAlphanumeric chars out).1).length < chars.length := by
  -- the prefixes that move on drop the first character of the probe at least
  have hprobe : ∀ {c : Char} {cs rest : List Char}, chars.dropWhile mdIsBlank = c :: cs → rest <:+ cs →
      (mdSkipCrlf rest).length < chars.length := by
    intro c cs rest hcs hrest
    have hle := (hcs ▸ dropWhile_suffix mdIsBlank : c :: cs <:+ chars).length_le
    have hlt := ((skipLineTerminator_suffix rest).trans hrest).length_le
    exact Nat.lt_of_le_of_lt hlt (Nat.lt_of_succ_le hle)
  have hinline := mdStripInline_suffix isAlphanumeric
  rw [mdStripLine]
  split_ifs with hhash hquote htick hfence hhr
  · obtain ⟨cs, hcs⟩ := head?_eq_some_iff.1 hhash
    refine hprobe hcs (((hinline _ out).trans (mdSkipSpace_suffix _)).trans ?_)
    rw [hcs, dropWhile_cons_of_pos (by rfl)]
    exact dropWhile_suffix _
  · obtain ⟨cs, hcs⟩ := head?_eq_some_iff.1 hquote
    refine hprobe hcs (((hinline _ out).trans (mdSkipSpace_suffix _)).trans ?_)
    rw [hcs]
    exact suffix_rfl
  · obtain ⟨cs, hcs⟩ := head?_eq_some_iff.1 htick
    refine hprobe hcs ((((mdFenceLoop_suffix isAlphanumeric _ out).trans (skipLineTerminator_suffix _)).trans
      (dropWhile_suffix _)).trans ?_)
    rw [hcs, dropWhile_cons_of_pos (by rfl)]
    exact dropWhile_suffix _
  · obtain ⟨c, cs, rfl⟩ := exists_cons_of_ne_nil h
    exact Nat.lt_succ_of_le ((skipLineTerminator_suffix _).trans (hinline cs _)).length_le
  · obtain ⟨c, cs, hcs, hc⟩ := mdIsHr_cons hhr
    refine hprobe hcs ?_
    rw [hcs, mdSkipEol, dropWhile_cons_of_pos (by simp [hc])]
    exact dropWhile_suffix _
  · obtain ⟨c, cs, rfl⟩ := exists_cons_of_ne_nil h
    by_cases hc : isEol c = true
    · rw [mdStripInline, if_pos hc]
      exact length_skipLineTerminator_lt h hc
    · exact Nat.lt_succ_of_le ((skipLineTerminator_suffix _).trans
        ((mdStripInline_spec isAlphanumeric (c :: cs) _).2 (Bool.eq_false_iff.2 hc))).length_le

/-- The loop of `strip_markdown`. -/
def mdLoop (chars out : List Char) : List Char :=
  if chars = [] then out
  else
    let line := mdStripLine isAlphanumeric chars out
    let eol := mdConsumeLineTerminator line.1
    mdLoop eol.2
      (if decide (out.length < line.2.length) && eol.1 && !eol.2.isEmpty then line.2 ++ ['\n'] else line.2)
termination_by chars.length
decreasing_by
  rename_i h
  exact length_afterLine_lt isAlphanumeric h out

def stripMarkdown (input : List Char) : List Char := collapseNewlines (mdLoop isAlphanumeric input [])

example : stripMarkdown Char.isAlphanum "# Title\n\nSome **bold** [link](url).\n".toList =
    "Title\nSome bold link.".toList := by decide +kernel

end

/-! ## The extractors -/

/-- `strip_control_chars`, with `is_stripped_control`: a second copy of the pipeline's. -/
def stripControlChars (input : List Char) : List Char :=
  input.filter fun c => !(isControl c && c != '\t' && c != '\n' && c != '\r')

/-- The last part of a path after a dot: `p.rsplit('.').next()`. -/
def extension (path : String) : List Char := (path.toList.reverse.takeWhile fun c => c != '.').reverse

/-- Whether a file has one of the MIME type and the extensions of a format. -/
def isFormat (mime : String) (extensions : List String) (file : RawFile) : Bool :=
  file.mime == some mime || file.path.any fun p =>
    -- `eq_ignore_ascii_case`
    extensions.any fun ext => (extension p).map Char.toLower == ext.toList

def isCsv : RawFile → Bool := isFormat "text/csv" ["csv"]

def isMarkdown : RawFile → Bool := isFormat "text/markdown" ["md", "markdown"]

def isHtml : RawFile → Bool := isFormat "text/html" ["html", "htm"]

/-- The standard library's text for what is wrong with the bytes. -/
def describe (e : Utf8.Error) : String :=
  match e.errorLen with
  | some n => "invalid utf-8 sequence of " ++ toString n ++ " bytes from index " ++ toString e.validUpTo
  | none => "incomplete utf-8 byte sequence from index " ++ toString e.validUpTo

/-- `String::from_utf8` of the bytes, with the error of the extractor that asks. -/
def fromUtf8 (extractor : String) (file : RawFile) : Except String (List Char) :=
  (Utf8.decode file.bytes).mapError fun e =>
    extractor ++ ": file '" ++ file.path.getD "<unknown>" ++ "' is not valid UTF-8: " ++ describe e

/-- `TextExtractor::extract`. -/
def textExtract (isAlphanumeric : Char → Bool) (file : RawFile) : Except String Extracted :=
  (fromUtf8 "TextExtractor" file).map fun raw =>
    let text :=
      if isCsv file then csvToText raw
      else if isMarkdown file then stripMarkdown isAlphanumeric raw
      else if isHtml file then stripHtml raw
      else raw
    { text := stripControlChars text, metadata := .obj [] }

/-- `CodeExtractor::extract`. -/
def codeExtract (file : RawFile) : Except String Extracted :=
  (fromUtf8 "CodeExtractor" file).map fun text => { text := text, metadata := .obj [] }

theorem nul_not_mem_stripControlChars (input : List Char) : '\x00' ∉ stripControlChars input := by
  intro h
  exact absurd (mem_filter.1 h).2 (by decide)

variable {file : RawFile}

theorem decode_of_fromUtf8 {extractor : String} {text : List Char} (h : fromUtf8 extractor file = .ok text) :
    Utf8.decode file.bytes = .ok text := by
  rw [fromUtf8] at h
  cases hdecode : Utf8.decode file.bytes with
  | error e =>
    rw [hdecode] at h
    cases h
  | ok decoded =>
    rw [hdecode] at h
    cases h
    rfl

variable {extracted : Extracted}

/-- Whatever form a text file has, its text passes the sanitizer last. -/
theorem nul_not_mem_textExtract {isAlphanumeric : Char → Bool} (h : textExtract isAlphanumeric file = .ok extracted) :
    '\x00' ∉ extracted.text := by
  obtain ⟨raw, -, rfl⟩ := Except.map_eq_ok_iff.1 h
  exact nul_not_mem_stripControlChars _

theorem bytes_of_codeExtract (h : codeExtract file = .ok extracted) : file.bytes = Utf8.encode extracted.text := by
  obtain ⟨text, htext, rfl⟩ := Except.map_eq_ok_iff.1 h
  exact Utf8.encode_of_decode (decode_of_fromUtf8 htext)

theorem codeExtract_encode (text : List Char) (mime path : Option String) :
    codeExtract ⟨Utf8.encode text, mime, path⟩ = .ok { text := text, metadata := .obj [] } := by
  rw [codeExtract, fromUtf8, Utf8.decode_encode]
  rfl

end Text

end Tagsmaxxing
