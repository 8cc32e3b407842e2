import Tagsmaxxing.Extract.Text

/-! # The scanners of `strip_markdown`, followed over the text

Every scanner but `md_skip_parens` shows the letters and digits it reads. `skipScan` follows the scanners over a text
and marks the characters that `md_skip_parens` passes over; without backticks, the others are what
`strip_markdown` shows (`filter_stripMarkdown`). -/

namespace Tagsmaxxing.Text.Markdown

open List

/-! ## Alphanumeric characters -/

/-- `char::is_alphanumeric` on ASCII. -/
def OnAscii (isAlphanumeric : Char → Bool) : Prop := ∀ c : Char, c.toNat < 128 → isAlphanumeric c = c.isAlphanum

variable {isAlphanumeric p : Char → Bool}

theorem OnAscii.mark_eq_false (h : OnAscii isAlphanumeric) {mark : Char}
    (hmark : (mark.toNat < 128 && !mark.isAlphanum) = true) : isAlphanumeric mark = false := by
  rw [Bool.and_eq_true, decide_eq_true_eq, Bool.not_eq_true'] at hmark
  exact (h mark hmark.1).trans hmark.2

theorem OnAscii.ne (h : OnAscii isAlphanumeric) {c : Char} (hc : isAlphanumeric c = true) (mark : Char)
    (hmark : (mark.toNat < 128 && !mark.isAlphanum) = true) : c ≠ mark := by
  rintro rfl
  exact Bool.eq_false_iff.1 (h.mark_eq_false hmark) hc

theorem OnAscii.isEol (h : OnAscii isAlphanumeric) {c : Char} (hc : isAlphanumeric c = true) : isEol c = false := by
  have hcr := h.ne hc '\r' rfl
  have hlf := h.ne hc '\n' rfl
  simp [Text.isEol, hcr, hlf]

theorem mdLoop_nil (out : List Char) : mdLoop isAlphanumeric [] out = out := by
  rw [mdLoop.eq_def, if_pos rfl]

/-! ## What is written stays -/

section

variable (chars out : List Char)

theorem mdStripInline_grows : out <+: (mdStripInline isAlphanumeric chars out).2 := by
  fun_induction mdStripInline isAlphanumeric chars out with
  | case1 => exact prefix_rfl
  | case2 => exact prefix_rfl
  | case11 => exact prefix_append _ _
  | _ => exact (prefix_append _ _).trans ‹_›

theorem mdFenceLoop_grows : out <+: (mdFenceLoop isAlphanumeric chars out).2 := by
  fun_induction mdFenceLoop isAlphanumeric chars out with
  | case1 => exact prefix_rfl
  | case2 => exact prefix_rfl
  | case3 chars out _ probe _ line ih =>
    exact ((mdStripInline_grows chars out).trans (prefix_append _ _)).trans ih

theorem mdStripLine_grows : out <+: (mdStripLine isAlphanumeric chars out).2 := by
  rw [mdStripLine]
  split_ifs
  · exact mdStripInline_grows _ out
  · exact mdStripInline_grows _ out
  · exact mdFenceLoop_grows _ out
  · rw [append_assoc]
    exact (prefix_append _ _).trans (mdStripInline_grows _ _)
  · exact prefix_rfl
  · exact (prefix_append _ _).trans (mdStripInline_grows _ _)

theorem mdLoop_grows : out <+: mdLoop isAlphanumeric chars out := by
  fun_induction mdLoop isAlphanumeric chars out with
  | case1 => exact prefix_rfl
  | case2 chars out _ line eol ih =>
    have hline : out <+: line.2 := mdStripLine_grows chars out
    refine (hline.trans ?_).trans ih
    split_ifs
    · exact prefix_append _ _
    · exact prefix_rfl

end

/-! ## What a round of the inline scanner reads -/

theorem reads_code (htick : p '`' = false) {cs : List Char} (hcs : '`' ∈ cs) :
    Reads p cs (cs.takeWhile fun d => d != '`') ((cs.dropWhile fun d => d != '`').drop 1) := by
  induction cs with
  | nil => exact absurd hcs not_mem_nil
  | cons c cs ih =>
    by_cases hc : c = '`'
    · subst hc
      exact (Reads.refl cs).mark htick
    · have hpos : (c != '`') = true := bne_iff_ne.2 hc
      rw [takeWhile_cons_of_pos (p := fun d => d != '`') hpos,
        dropWhile_cons_of_pos (p := fun d => d != '`') hpos]
      exact (ih ((mem_cons.1 hcs).resolve_left (Ne.symm hc))).cons c

theorem reads_round (h : OnAscii isAlphanumeric) (inWord : Bool) (c : Char) (cs : List Char) :
    Reads isAlphanumeric (c :: cs) (round inWord c cs).shown (round inWord c cs).rest := by
  fun_cases round inWord c cs with
  | case1 hc =>
    subst hc
    refine Reads.mark ?_ (h.mark_eq_false rfl)
    cases cs with
    | nil => exact .refl []
    | cons d cs => exact (Reads.refl cs).cons d
  | case2 _ hc himage =>
    subst hc
    obtain ⟨cs, rfl⟩ := head?_eq_some_iff.1 himage
    refine Reads.mark (Reads.mark ?_ (h.mark_eq_false rfl)) (h.mark_eq_false rfl)
    exact reads_mdCollectUntil (h.mark_eq_false rfl) 1 cs
  | case3 _ hc =>
    subst hc
    exact (Reads.refl cs).cons '!'
  | case4 _ _ hc =>
    subst hc
    exact (reads_mdCollectUntil (h.mark_eq_false rfl) 1 cs).mark (h.mark_eq_false rfl)
  | case5 _ _ _ hc =>
    subst hc
    exact (reads_mdEmphasis (h.mark_eq_false rfl) cs).mark (h.mark_eq_false rfl)
  | case6 _ _ _ _ hc =>
    subst hc
    exact (Reads.refl cs).cons '_'
  | case7 _ _ _ _ hc =>
    subst hc
    exact (reads_mdEmphasis (h.mark_eq_false rfl) cs).mark (h.mark_eq_false rfl)
  | case8 _ _ _ _ _ hc hclosed =>
    subst hc
    exact (reads_code (h.mark_eq_false rfl) hclosed).mark (h.mark_eq_false rfl)
  | case9 _ _ _ _ _ hc =>
    subst hc
    exact (Reads.all cs).cons '`'
  | case10 => exact (Reads.refl cs).cons c

/-! ## Marking what is skipped -/

/-- The characters of `before` up to `after`, each marked with whether it is skipped. -/
def passed (skipped : Bool) (before after : List Char) : List (Char × Bool) :=
  (before.take (before.length - after.length)).map fun c => (c, skipped)

/-- Of the characters that `p` picks, those that are not skipped. -/
def kept (p : Char → Bool) (scan : List (Char × Bool)) : List Char :=
  (scan.filter fun x => p x.1 && !x.2).map Prod.fst

theorem kept_append (p : Char → Bool) (scan scan' : List (Char × Bool)) :
    kept p (scan ++ scan') = kept p scan ++ kept p scan' := by
  rw [kept, filter_append, map_append]
  rfl

theorem passed_append (skipped : Bool) (read after : List Char) :
    passed skipped (read ++ after) after = read.map fun c => (c, skipped) := by
  rw [passed, length_append, Nat.add_sub_cancel, take_left]

theorem map_fst_passed (skipped : Bool) {before after : List Char} (h : after <:+ before) :
    (passed skipped before after).map Prod.fst ++ after = before := by
  obtain ⟨read, rfl⟩ := h
  rw [passed_append, map_map]
  exact congrArg (· ++ after) (map_id read)

theorem kept_passed_true (p : Char → Bool) (before after : List Char) : kept p (passed true before after) = [] := by
  rw [kept, passed, map_eq_nil_iff, filter_eq_nil_iff]
  intro x hx
  obtain ⟨c, _, rfl⟩ := mem_map.1 hx
  simp

theorem kept_passed {chars shown rest : List Char} (h : Reads p chars shown rest) :
    kept p (passed false chars rest) = shown.filter p := by
  obtain ⟨read, rfl, hread⟩ := h
  rw [passed_append, kept, filter_map, map_map, ← hread]
  refine (map_id _).trans (filter_congr fun c _ => ?_)
  exact Bool.and_true (p c)

/-- Whether the output ends with a letter or digit when `shown` is added to it. -/
def endsInWord (isAlphanumeric : Char → Bool) (inWord : Bool) (shown : List Char) : Bool :=
  (shown.getLast?.map isAlphanumeric).getD inWord

theorem endsInWord_eq (isAlphanumeric : Char → Bool) (out shown : List Char) :
    endsInWord isAlphanumeric (out.getLast?.any isAlphanumeric) shown = (out ++ shown).getLast?.any isAlphanumeric := by
  rw [endsInWord, getLast?_append]
  cases shown.getLast? with
  | none | some c => rfl

/-- `md_strip_inline` with the characters it passes over instead of the output, and what is left. -/
def readInline (isAlphanumeric : Char → Bool) (inWord : Bool) (chars : List Char) : List (Char × Bool) × List Char :=
  match chars with
  | [] => ([], [])
  | c :: cs =>
      if isEol c then ([], c :: cs)
      else
        let round := round inWord c cs
        let line := readInline isAlphanumeric (endsInWord isAlphanumeric inWord round.shown) round.next
        (passed false (c :: cs) round.rest ++ passed true round.rest round.next ++ line.1, line.2)
termination_by chars.length
decreasing_by exact Nat.lt_succ_of_le (round_next_suffix inWord c cs).length_le

variable {chars : List Char} (inWord : Bool) {q : Char → Bool}

theorem readInline_of_atEol (h : atEol chars = true) : readInline isAlphanumeric inWord chars = ([], chars) := by
  cases chars with
  | nil => rw [readInline]
  | cons c cs =>
    rw [atEol] at h
    rw [readInline, if_pos h]

theorem readInline_text (chars : List Char) :
    (readInline isAlphanumeric inWord chars).1.map Prod.fst ++ (readInline isAlphanumeric inWord chars).2 = chars := by
  fun_induction readInline isAlphanumeric inWord chars with
  | case1 => rfl
  | case2 => rfl
  | case3 inWord c cs _ round line ih =>
    have hnext := map_fst_passed true (round_next_suffix_rest inWord c cs)
    have hrest := map_fst_passed false ((round_rest_suffix inWord c cs).trans (suffix_cons c cs))
    rw [map_append, map_append, append_assoc, ih, append_assoc, hnext, hrest]

theorem readInline_suffix (chars : List Char) : (readInline isAlphanumeric inWord chars).2 <:+ chars :=
  ⟨_, readInline_text inWord chars⟩

theorem readInline_suffix_tail (h : atEol chars = false) :
    (readInline isAlphanumeric inWord chars).2 <:+ chars.tail := by
  cases chars with
  | nil => cases h
  | cons c cs =>
    rw [atEol] at h
    rw [readInline, if_neg (Bool.eq_false_iff.1 h)]
    exact (readInline_suffix _ _).trans (round_next_suffix inWord c cs)

theorem atEol_readInline (chars : List Char) : atEol (readInline isAlphanumeric inWord chars).2 = true := by
  fun_induction readInline isAlphanumeric inWord chars with
  | case1 => rfl
  | case2 inWord c cs hc => exact hc
  | case3 inWord c cs _ round line ih => exact ih

/-- The scanner and `md_strip_inline` go the same way, and what is not skipped is shown. -/
theorem mdStripInline_eq (h : OnAscii isAlphanumeric) (chars out : List Char) :
    (mdStripInline isAlphanumeric chars out).1 = (readInline isAlphanumeric (out.getLast?.any isAlphanumeric) chars).2 ∧
      (mdStripInline isAlphanumeric chars out).2.filter isAlphanumeric =
        out.filter isAlphanumeric ++
          kept isAlphanumeric (readInline isAlphanumeric (out.getLast?.any isAlphanumeric) chars).1 := by
  generalize hword : out.getLast?.any isAlphanumeric = inWord
  fun_induction readInline isAlphanumeric inWord chars generalizing out with
  | case1 =>
    rw [mdStripInline_of_atEol rfl]
    exact ⟨rfl, (append_nil _).symm⟩
  | case2 inWord c cs hc =>
    have heol : atEol (c :: cs) = true := hc
    rw [mdStripInline_of_atEol heol]
    exact ⟨rfl, (append_nil _).symm⟩
  | case3 inWord c cs hc round line ih =>
    subst hword
    have hround := reads_round h (out.getLast?.any isAlphanumeric) c cs
    obtain ⟨hleft, hshown⟩ := ih (out ++ round.shown) (endsInWord_eq isAlphanumeric out round.shown).symm
    rw [mdStripInline_round (Bool.eq_false_iff.2 hc)]
    refine ⟨hleft, hshown.trans ?_⟩
    rw [kept_append, kept_append, kept_passed hround, kept_passed_true, append_nil, filter_append,
      append_assoc]

/-! ## Lines -/

/-- Where `md_strip_line` starts to read inline: after the mark of a heading or of a quote, at the end of a
horizontal rule, or at the start of the line. A line that starts with a backtick has no place here. -/
def lineStart (chars : List Char) : List Char :=
  let probe := chars.dropWhile mdIsBlank
  if probe.head? = some '#' then mdSkipSpace (probe.dropWhile fun c => c == '#')
  else if probe.head? = some '>' then mdSkipSpace (probe.drop 1)
  else if mdIsHr probe then mdSkipEol probe
  else chars

theorem atEol_mdSkipEol (cs : List Char) : atEol (mdSkipEol cs) = true := by
  induction cs with
  | nil => rfl
  | cons c cs ih =>
    rw [mdSkipEol, dropWhile_cons]
    split_ifs with hc
    · exact ih
    · rwa [Bool.not_eq_true', Bool.not_eq_false] at hc

theorem mdSkipEol_of_atEol {cs : List Char} (h : atEol cs = true) : mdSkipEol cs = cs := by
  cases cs with
  | nil => rfl
  | cons c cs =>
    rw [atEol] at h
    rw [mdSkipEol, dropWhile_cons, h]
    rfl

theorem mdSkipEol_dropWhile (h : ∀ c, q c = true → isEol c = false) (cs : List Char) :
    mdSkipEol (cs.dropWhile q) = mdSkipEol cs := by
  induction cs with
  | nil => rfl
  | cons c cs ih =>
    rw [dropWhile_cons]
    split_ifs with hc
    · rw [ih, mdSkipEol, mdSkipEol, dropWhile_cons, h c hc]
      rfl
    · rfl

theorem reads_takeWhile (h : ∀ c, q c = true → p c = false) {shown rest : List Char}
    (hrest : Reads p (chars.dropWhile q) shown rest) : Reads p chars shown rest := by
  rw [← chars.takeWhile_append_dropWhile (p := q)]
  exact hrest.marks fun c hc => h c (mem_takeWhile_imp hc)

theorem mdIsBlank_iff (c : Char) : mdIsBlank c = true ↔ c = ' ' ∨ c = '\t' := by
  rw [mdIsBlank, Bool.or_eq_true, beq_iff_eq, beq_iff_eq]

theorem OnAscii.blank_eq_false (h : OnAscii isAlphanumeric) (c : Char) (hc : mdIsBlank c = true) :
    isAlphanumeric c = false := by
  rcases (mdIsBlank_iff c).1 hc with rfl | rfl
  all_goals exact h.mark_eq_false rfl

theorem isEol_of_mdIsBlank (c : Char) (hc : mdIsBlank c = true) : isEol c = false := by
  rcases (mdIsBlank_iff c).1 hc with rfl | rfl
  · rfl
  · rfl

theorem reads_mdIsHr (h : OnAscii isAlphanumeric) {probe : List Char} (hhr : mdIsHr probe = true) :
    Reads isAlphanumeric probe [] (mdSkipEol probe) := by
  cases probe with
  | nil => exact .refl []
  | cons ch cs =>
    rw [mdIsHr, Bool.and_eq_true, Bool.and_eq_true, Bool.or_eq_true, Bool.or_eq_true, beq_iff_eq, beq_iff_eq,
      beq_iff_eq] at hhr
    obtain ⟨⟨hch, _⟩, heol⟩ := hhr
    have hmark : ∀ c, (c == ch) = true → isAlphanumeric c = false ∧ isEol c = false := by
      intro c hc
      rw [beq_iff_eq.1 hc]
      rcases hch with (rfl | rfl) | rfl
      all_goals exact ⟨h.mark_eq_false rfl, rfl⟩
    rw [← mdSkipEol_dropWhile (fun c hc => (hmark c hc).2) (ch :: cs), ← mdSkipEol_dropWhile isEol_of_mdIsBlank,
      mdSkipEol_of_atEol heol]
    exact reads_takeWhile (fun c hc => (hmark c hc).1) (reads_takeWhile h.blank_eq_false (.refl _))

theorem reads_lineStart (h : OnAscii isAlphanumeric) (chars : List Char) :
    Reads isAlphanumeric chars [] (lineStart chars) := by
  rw [lineStart]
  split_ifs with hhash hquote hhr
  · refine reads_takeWhile h.blank_eq_false (reads_takeWhile ?_ (reads_mdSkipSpace (h.mark_eq_false rfl) _))
    intro c hc
    exact beq_iff_eq.1 hc ▸ h.mark_eq_false rfl
  · refine reads_takeWhile h.blank_eq_false ?_
    obtain ⟨cs, hcs⟩ := head?_eq_some_iff.1 hquote
    rw [hcs]
    exact (reads_mdSkipSpace (h.mark_eq_false rfl) cs).mark (h.mark_eq_false rfl)
  · exact reads_takeWhile h.blank_eq_false (reads_mdIsHr h hhr)
  · exact .refl chars

variable (isAlphanumeric) in
/-- Without backticks a line is read inline from its start, after blanks that may be shown. -/
theorem mdStripLine_eq (htick : '`' ∉ chars) (out : List Char) :
    ∃ leading, (∀ c ∈ leading, mdIsBlank c = true) ∧
      mdStripLine isAlphanumeric chars out = mdStripInline isAlphanumeric (lineStart chars) (out ++ leading) := by
  have hprobe : (chars.dropWhile mdIsBlank).head? ≠ some '`' := by
    intro hhead
    exact htick ((dropWhile_suffix _).mem (mem_of_mem_head? hhead))
  have hnil : ∀ c ∈ ([] : List Char), mdIsBlank c = true := by
    intro c hc
    exact absurd hc not_mem_nil
  rw [mdStripLine, lineStart]
  split_ifs with hhash hquote hhr
  · exact ⟨[], hnil, by rw [append_nil]⟩
  · exact ⟨[], hnil, by rw [append_nil]⟩
  · exact ⟨[], hnil, by rw [append_nil, mdStripInline_of_atEol (atEol_mdSkipEol _)]⟩
  · exact ⟨chars.takeWhile mdIsBlank, fun c hc => mem_takeWhile_imp hc, rfl⟩

theorem lineStart_suffix (chars : List Char) : lineStart chars <:+ chars := by
  rw [lineStart]
  split_ifs
  · exact ((mdSkipSpace_suffix _).trans (dropWhile_suffix _)).trans (dropWhile_suffix _)
  · exact ((mdSkipSpace_suffix _).trans (drop_suffix 1 _)).trans (dropWhile_suffix _)
  · exact (dropWhile_suffix _).trans (dropWhile_suffix _)
  · exact suffix_rfl

theorem length_afterReadInline_lt (h : chars ≠ []) :
    (skipLineTerminator (readInline isAlphanumeric false (lineStart chars)).2).length < chars.length := by
  have hskip := skipLineTerminator_suffix (readInline isAlphanumeric false (lineStart chars)).2
  by_cases hstart : lineStart chars = chars
  · rw [hstart] at hskip ⊢
    by_cases heol : atEol chars = true
    · rw [readInline_of_atEol false heol]
      exact length_skipLineTerminator_lt h heol
    · have hle := (hskip.trans (readInline_suffix_tail false (Bool.eq_false_iff.2 heol))).length_le
      rw [length_tail] at hle
      have hpos := length_pos_iff.2 h
      omega
  · have hle := (hskip.trans (readInline_suffix false (lineStart chars))).length_le
    have hlt := (lineStart_suffix chars).length_le.lt_of_ne fun hlength =>
      hstart ((lineStart_suffix chars).eq_of_length hlength)
    exact hle.trans_lt hlt

/-- `strip_markdown` with the characters it passes over instead of the output. -/
def skipScan (isAlphanumeric : Char → Bool) (chars : List Char) : List (Char × Bool) :=
  if chars = [] then []
  else
    let line := readInline isAlphanumeric false (lineStart chars)
    let next := skipLineTerminator line.2
    passed false chars (lineStart chars) ++ line.1 ++ passed false line.2 next ++ skipScan isAlphanumeric next
termination_by chars.length
decreasing_by
  rename_i h
  exact length_afterReadInline_lt h

theorem map_fst_skipScan (chars : List Char) : (skipScan isAlphanumeric chars).map Prod.fst = chars := by
  fun_induction skipScan isAlphanumeric chars with
  | case1 => rfl
  | case2 chars _ line next ih =>
    have hnext := map_fst_passed false (skipLineTerminator_suffix line.2)
    have hline : line.1.map Prod.fst ++ line.2 = lineStart chars := readInline_text false (lineStart chars)
    have hstart := map_fst_passed false (lineStart_suffix chars)
    rw [map_append, map_append, map_append, ih, append_assoc, hnext, append_assoc, hline,
      hstart]

section

variable (h : OnAscii isAlphanumeric) {out : List Char}

include h

theorem any_getLast?_append_blanks {leading : List Char}
    (hleading : ∀ c ∈ leading, mdIsBlank c = true) (hout : out.getLast?.any isAlphanumeric = false) :
    (out ++ leading).getLast?.any isAlphanumeric = false := by
  rw [getLast?_append]
  cases hlast : leading.getLast? with
  | none => exact hout
  | some c => exact h.blank_eq_false c (hleading c (mem_of_mem_getLast? hlast))

/-- The loop writes a newline after what a line shows, unless the text ends. -/
theorem any_getLast?_afterLine {left : List Char}
    (hout : out.getLast?.any isAlphanumeric = false) (hleft : atEol left = true)
    (hnext : skipLineTerminator left ≠ []) :
    (if decide (out.length < (mdStripLine isAlphanumeric chars out).2.length) && left.head?.any isEol &&
        !(skipLineTerminator left).isEmpty then (mdStripLine isAlphanumeric chars out).2 ++ ['\n']
      else (mdStripLine isAlphanumeric chars out).2).getLast?.any isAlphanumeric = false := by
  have hhead : left.head?.any isEol = true := by
    cases left with
    | nil => exact absurd rfl hnext
    | cons c cs => exact hleft
  split_ifs with hgrows
  · rw [getLast?_concat]
    exact h.mark_eq_false rfl
  · have hle : (mdStripLine isAlphanumeric chars out).2.length ≤ out.length := by
      by_contra hlt
      exact hgrows (by simp [Nat.lt_of_not_le hlt, hhead, hnext])
    rw [← (mdStripLine_grows chars out).eq_of_length_le hle]
    exact hout

/-- What a line shows, from an output that does not end within a word. -/
theorem mdStripLine_reads (htick : '`' ∉ chars) (hout : out.getLast?.any isAlphanumeric = false) :
    (mdStripLine isAlphanumeric chars out).1 = (readInline isAlphanumeric false (lineStart chars)).2 ∧
      (mdStripLine isAlphanumeric chars out).2.filter isAlphanumeric =
        out.filter isAlphanumeric ++ kept isAlphanumeric (readInline isAlphanumeric false (lineStart chars)).1 := by
  obtain ⟨leading, hleading, hline⟩ := mdStripLine_eq isAlphanumeric htick out
  have hblank : leading.filter isAlphanumeric = [] := by
    rw [filter_eq_nil_iff]
    intro c hc
    exact Bool.eq_false_iff.1 (h.blank_eq_false c (hleading c hc))
  have hinline := mdStripInline_eq h (lineStart chars) (out ++ leading)
  rw [any_getLast?_append_blanks h hleading hout, filter_append, hblank, append_nil] at hinline
  rw [hline]
  exact hinline

theorem filter_newline (newline : Bool) (out : List Char) :
    (if newline then out ++ ['\n'] else out).filter isAlphanumeric = out.filter isAlphanumeric := by
  have hlf : isAlphanumeric '\n' = false := h.mark_eq_false rfl
  cases newline with
  | false => rfl
  | true => rw [if_pos rfl, filter_append, filter_cons_of_neg (Bool.eq_false_iff.1 hlf), filter_nil,
      append_nil]

/-- The letters and digits of the output are those that the scan does not skip. -/
theorem filter_mdLoop (htick : '`' ∉ chars) (hout : chars ≠ [] → out.getLast?.any isAlphanumeric = false) :
    (mdLoop isAlphanumeric chars out).filter isAlphanumeric =
      out.filter isAlphanumeric ++ kept isAlphanumeric (skipScan isAlphanumeric chars) := by
  fun_induction skipScan isAlphanumeric chars generalizing out with
  | case1 =>
    rw [mdLoop_nil]
    exact (append_nil _).symm
  | case2 chars hchars line next =>
    rename_i ih
    obtain ⟨hleft, hshown⟩ := mdStripLine_reads h htick (hout hchars)
    have hnext : next <:+ chars :=
      ((skipLineTerminator_suffix _).trans (readInline_suffix false _)).trans (lineStart_suffix chars)
    rw [mdLoop.eq_def, if_neg hchars]
    dsimp only [mdConsumeLineTerminator]
    rw [hleft, ih (fun hmem => htick (hnext.mem hmem)) (any_getLast?_afterLine h (hout hchars) (atEol_readInline _ _)),
      filter_newline h, hshown]
    -- the marks of the line and its terminator are not shown
    rw [kept_append, kept_append, kept_append, kept_passed (reads_lineStart h chars),
      kept_passed (reads_skipLineTerminator (h.mark_eq_false rfl) (h.mark_eq_false rfl) line.2),
      filter_nil, nil_append, append_nil,
      append_assoc]

theorem filter_stripMarkdown {text : List Char} (htick : '`' ∉ text) :
    (stripMarkdown isAlphanumeric text).filter isAlphanumeric = kept isAlphanumeric (skipScan isAlphanumeric text) := by
  have hlf : isAlphanumeric '\n' = false := h.mark_eq_false rfl
  rw [stripMarkdown, filter_collapseNewlines hlf, filter_mdLoop h htick fun _ => rfl]
  rfl

end

end Tagsmaxxing.Text.Markdown
