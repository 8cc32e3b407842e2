import Tagsmaxxing.Extract.MarkdownScan

/-! # What Markdown rendering survives `strip_markdown`

Documents of paragraphs of lines of inline pieces: words, and words written bold, italic, as code or as a link. Within a
line the pieces come out as their words (`mdStripInline_line`). Two things do not come back. A blank line puts nothing
into the output, so the loop adds no line feed for it, and paragraphs run together; and a line that begins with code is
taken for a possible fence, whose first backtick is written out (`stripMarkdown_render_iff`). -/

namespace Tagsmaxxing.Text.Markdown

open List

/-! ## Documents -/

section

variable (isAlphanumeric : Char → Bool)

structure Word where
  chars : List Char
  chars_ne : chars ≠ []
  alphanumeric : ∀ c ∈ chars, isAlphanumeric c = true

/-- An inline piece. -/
inductive Inline
  | plain (w : Word isAlphanumeric)
  | bold (w : Word isAlphanumeric)
  | italic (w : Word isAlphanumeric)
  | code (w : Word isAlphanumeric)
  | link (w : Word isAlphanumeric) (u : List Char) (hu : ∀ c ∈ u, isAlphanumeric c = true)

/-- A line of at least one piece. -/
structure Line where
  first : Inline isAlphanumeric
  rest : List (Inline isAlphanumeric)

end

variable {isAlphanumeric : Char → Bool}

namespace Inline

/-- As Markdown. -/
def render : Inline isAlphanumeric → List Char
  | .plain w => w.chars
  | .bold w => '*' :: '*' :: (w.chars ++ ['*', '*'])
  | .italic w => '*' :: (w.chars ++ ['*'])
  | .code w => '`' :: (w.chars ++ ['`'])
  | .link w u _ => '[' :: (w.chars ++ ']' :: '(' :: (u ++ [')']))

/-- As a plain word. -/
def text : Inline isAlphanumeric → List Char
  | .plain w => w.chars
  | .bold w => w.chars
  | .italic w => w.chars
  | .code w => w.chars
  | .link w _ _ => w.chars

def isCode : Inline isAlphanumeric → Bool
  | .code _ => true
  | _ => false

end Inline

/-- A line with its pieces written by `f`. -/
def Line.layout (f : Inline isAlphanumeric → List Char) (line : Line isAlphanumeric) : List Char :=
  [' '].intercalate ((line.first :: line.rest).map f)

section

variable (f : Inline isAlphanumeric → List Char)

@[simp] theorem Line.layout_nil (first : Inline isAlphanumeric) :
    Line.layout f ⟨first, []⟩ = f first := intercalate_singleton

@[simp] theorem Line.layout_cons (first next : Inline isAlphanumeric) (rest : List (Inline isAlphanumeric)) :
    Line.layout f ⟨first, next :: rest⟩ = f first ++ ' ' :: Line.layout f ⟨next, rest⟩ := by
  simp [Line.layout, intercalate_cons_cons]

end

/-- A document with its pieces written by `f`: a line feed between lines, a blank line between paragraphs. -/
def layout (f : Inline isAlphanumeric → List Char) (doc : List (List (Line isAlphanumeric))) : List Char :=
  ['\n', '\n'].intercalate (doc.map fun para => ['\n'].intercalate (para.map (Line.layout f)))

/-- The line begins with code. -/
def Line.codeFirst (line : Line isAlphanumeric) : Bool := line.first.isCode

/-- No line of the document begins with code. -/
def NoCodeFirst (doc : List (List (Line isAlphanumeric))) : Prop :=
  ∀ para ∈ doc, ∀ line ∈ para, line.codeFirst = false

/-! ## Rows

A document is a list of rows, some of them blank. -/

/-- A row written by `f`; `none` is a blank one. -/
def rowLayout (f : Inline isAlphanumeric → List Char) : Option (Line isAlphanumeric) → List Char
  | none => []
  | some line => line.layout f

def joinRows (f : Inline isAlphanumeric → List Char) (rows : List (Option (Line isAlphanumeric))) : List Char :=
  ['\n'].intercalate (rows.map (rowLayout f))

def paraRows (para : List (Line isAlphanumeric)) : List (Option (Line isAlphanumeric)) :=
  if para = [] then [none] else para.map some

/-- The rows of a document: a blank one between paragraphs. -/
def docRows (doc : List (List (Line isAlphanumeric))) : List (Option (Line isAlphanumeric)) :=
  [none].intercalate (doc.map paraRows)

/-- A row that begins with code. -/
def rowCodeFirst : Option (Line isAlphanumeric) → Bool
  | none => false
  | some line => line.codeFirst

/-- What the loop puts out for a row that `rest` follows on the next line: no line feed after a blank one. -/
def rowOut (row : Option (Line isAlphanumeric)) (rest : List Char) : List Char :=
  rowLayout Inline.text row ++ if row.isSome && !rest.isEmpty then ['\n'] else []

/-- What the loop puts out for all rows. -/
def rowsOut : List (Option (Line isAlphanumeric)) → List Char
  | [] => []
  | [row] => rowLayout Inline.text row
  | row :: next :: rows => rowOut row (joinRows Inline.render (next :: rows)) ++ rowsOut (next :: rows)

section Rows

variable {f : Inline isAlphanumeric → List Char} (line : Line isAlphanumeric) (row : Option (Line isAlphanumeric))
  {rows : List (Option (Line isAlphanumeric))} (para next : List (Line isAlphanumeric))
  (doc : List (List (Line isAlphanumeric)))

theorem Line.layout_eq_append (f : Inline isAlphanumeric → List Char) :
    ∃ rest, line.layout f = f line.first ++ rest := by
  obtain ⟨first, rest⟩ := line
  cases rest with
  | nil => exact ⟨[], by simp⟩
  | cons next rest => exact ⟨_, Line.layout_cons f first next rest⟩

theorem Line.layout_ne_nil (hf : ∀ piece, f piece ≠ []) : line.layout f ≠ [] := by
  obtain ⟨rest, hrest⟩ := line.layout_eq_append f
  rw [hrest]
  exact append_ne_nil_of_left_ne_nil (hf line.first) rest

variable (piece : Inline isAlphanumeric)

theorem Inline.text_ne_nil : piece.text ≠ [] := by
  cases piece with
  | plain w | bold w | italic w | code w | link w u hu => exact w.chars_ne

theorem Inline.render_ne_nil : piece.render ≠ [] := by
  cases piece with
  | plain w => exact w.chars_ne
  | bold w | italic w | code w | link w u hu => exact cons_ne_nil _ _

theorem paraRows_ne_nil : paraRows para ≠ [] := by
  unfold paraRows
  split_ifs with hpara
  · exact cons_ne_nil _ _
  · simpa using hpara

theorem docRows_cons_cons :
    docRows (para :: next :: doc) = paraRows para ++ none :: docRows (next :: doc) := by
  simp [docRows, intercalate_cons_cons]

theorem docRows_ne_nil :
    docRows (para :: doc) ≠ [] := by
  cases doc with
  | nil => simpa [docRows] using paraRows_ne_nil para
  | cons next doc => simp [docRows_cons_cons]

theorem joinRows_singleton : joinRows f [row] = rowLayout f row := intercalate_singleton

theorem joinRows_cons (hrows : rows ≠ []) : joinRows f (row :: rows) = rowLayout f row ++ '\n' :: joinRows f rows := by
  obtain ⟨next, rows, rfl⟩ := exists_cons_of_ne_nil hrows
  simp [joinRows, intercalate_cons_cons]

theorem joinRows_append {rows' : List (Option (Line isAlphanumeric))} (hrows : rows ≠ []) (hrows' : rows' ≠ []) :
    joinRows f (rows ++ rows') = joinRows f rows ++ '\n' :: joinRows f rows' := by
  induction rows with
  | nil => exact absurd rfl hrows
  | cons row rows ih =>
    cases rows with
    | nil =>
      rw [singleton_append, joinRows_cons row hrows']
      simp [joinRows]
    | cons next rows =>
      rw [cons_append, joinRows_cons row (by simp), ih (cons_ne_nil _ _),
        joinRows_cons row (cons_ne_nil _ _), append_assoc]
      rfl

theorem joinRows_paraRows :
    joinRows f (paraRows para) = ['\n'].intercalate (para.map (Line.layout f)) := by
  unfold paraRows
  split_ifs with hpara
  · rw [hpara]
    rfl
  · rw [joinRows, map_map]
    rfl

theorem layout_eq_joinRows : layout f doc = joinRows f (docRows doc) := by
  induction doc with
  | nil => rfl
  | cons para doc ih =>
    cases doc with
    | nil => simp [layout, docRows, joinRows_paraRows]
    | cons next doc =>
      have hlayout : layout f (para :: next :: doc) =
          ['\n'].intercalate (para.map (Line.layout f)) ++ '\n' :: '\n' :: layout f (next :: doc) := by
        simp [layout, intercalate_cons_cons]
      rw [hlayout, ih, docRows_cons_cons, joinRows_append (paraRows_ne_nil para) (cons_ne_nil _ _),
        joinRows_cons none (docRows_ne_nil next doc), joinRows_paraRows]
      rfl

variable (rows) in
theorem joinRows_render_ne_nil :
    joinRows Inline.render (some line :: rows) ≠ [] := by
  have hline := line.layout_ne_nil Inline.render_ne_nil
  by_cases hrows : rows = []
  · subst hrows
    rwa [joinRows_singleton]
  · rw [joinRows_cons _ hrows]
    exact append_ne_nil_of_left_ne_nil hline _

theorem rowsOut_para :
    rowsOut (para.map some) = joinRows Inline.text (para.map some) := by
  induction para with
  | nil => rfl
  | cons line para ih =>
    cases para with
    | nil => exact (joinRows_singleton (some line)).symm
    | cons next para =>
      have hmore := isEmpty_eq_false_iff.2 (joinRows_render_ne_nil next (para.map some))
      rw [map_cons] at ih
      rw [map_cons, map_cons]
      rw [rowsOut, ih, joinRows_cons _ (cons_ne_nil _ _), rowOut, hmore]
      simp

theorem mem_docRows :
    some line ∈ docRows doc ↔ ∃ para ∈ doc, line ∈ para := by
  have hpara : ∀ para : List (Line isAlphanumeric), some line ∈ paraRows para ↔ line ∈ para := by
    intro para
    unfold paraRows
    split_ifs with hnil
    · simp [hnil]
    · simp
  induction doc with
  | nil => simp [docRows]
  | cons para doc ih =>
    cases doc with
    | nil => simp [docRows, hpara]
    | cons next doc =>
      simp only [docRows_cons_cons, mem_append, mem_cons, ih, hpara, reduceCtorEq, false_or, exists_eq_or_imp]

/-- A blank row comes before the last if there are two paragraphs. -/
theorem none_mem_docRows :
    none ∈ (docRows (para :: next :: doc)).dropLast := by
  rw [docRows_cons_cons, dropLast_append_of_ne_nil (cons_ne_nil _ _)]
  refine mem_append_right _ ?_
  obtain ⟨row, rows, hrows⟩ := exists_cons_of_ne_nil (docRows_ne_nil next doc)
  rw [hrows, dropLast_cons_cons]
  exact mem_cons_self

end Rows

/-! ## Inline pieces -/

/-! ### The marks -/

variable (cs out : List Char)

theorem mdStripInline_star : mdStripInline isAlphanumeric ('*' :: cs) out =
    mdStripInline isAlphanumeric (mdEmphasis '*' cs).2 (out ++ (mdEmphasis '*' cs).1) := by
  rw [mdStripInline, if_neg (by decide), if_neg (by decide), if_neg (by decide), if_neg (by decide), if_pos rfl]

theorem mdStripInline_bracket : mdStripInline isAlphanumeric ('[' :: cs) out =
    mdStripInline isAlphanumeric (mdSkipDestination (mdCollectUntil ']' 1 cs).2)
      (out ++ (mdCollectUntil ']' 1 cs).1) := by
  rw [mdStripInline, if_neg (by decide), if_neg (by decide), if_neg (by decide), if_pos rfl]

theorem mdStripInline_tick {cs : List Char} (h : '`' ∈ cs) (out : List Char) :
    mdStripInline isAlphanumeric ('`' :: cs) out =
      mdStripInline isAlphanumeric ((cs.dropWhile fun d => d != '`').drop 1)
        (out ++ cs.takeWhile fun d => d != '`') := by
  rw [mdStripInline, if_neg (by decide), if_neg (by decide), if_neg (by decide), if_neg (by decide),
    if_neg (by decide), if_neg (by decide), if_pos rfl, if_pos h]

theorem mdStripInline_space :
    mdStripInline isAlphanumeric (' ' :: cs) out = mdStripInline isAlphanumeric cs (out ++ [' ']) := by
  rw [mdStripInline, if_neg (by decide), if_neg (by decide), if_neg (by decide), if_neg (by decide),
    if_neg (by decide), if_neg (by decide), if_neg (by decide)]

/-! ### The words -/

theorem Word.exists_cons (w : Word isAlphanumeric) : ∃ c cs, w.chars = c :: cs ∧ isAlphanumeric c = true := by
  obtain ⟨c, cs, hcs⟩ := exists_cons_of_ne_nil w.chars_ne
  exact ⟨c, cs, hcs, w.alphanumeric c (by rw [hcs]; exact mem_cons_self)⟩

theorem Inline.exists_code {piece : Inline isAlphanumeric} (h : piece.isCode = true) : ∃ w, piece = .code w := by
  cases piece with
  | code w => exact ⟨w, rfl⟩
  | plain w | bold w | italic w | link w u hu => cases h

theorem mem_layout_text (line : Line isAlphanumeric) {c : Char} (hc : c ∈ line.layout Inline.text) :
    isAlphanumeric c = true ∨ c = ' ' := by
  obtain ⟨first, rest⟩ := line
  have hword : ∀ piece : Inline isAlphanumeric, c ∈ piece.text → isAlphanumeric c = true := by
    intro piece hmem
    cases piece with
    | plain w | bold w | italic w | code w | link w u hu => exact w.alphanumeric c hmem
  induction rest generalizing first with
  | nil =>
    rw [Line.layout_nil] at hc
    exact .inl (hword first hc)
  | cons next rest ih =>
    rw [Line.layout_cons, mem_append, mem_cons] at hc
    rcases hc with hc | hc | hc
    · exact .inl (hword first hc)
    · exact .inr hc
    · exact ih next hc

theorem mdStripLine_of_atEol {tail : List Char} (htail : atEol tail = true) (out : List Char) :
    mdStripLine isAlphanumeric tail out = (tail, out) := by
  have hinline : mdStripInline isAlphanumeric tail out = (tail, out) := mdStripInline_of_atEol htail out
  cases tail with
  | nil => simp [mdStripLine, mdIsHr, hinline]
  | cons c cs =>
    rcases Bool.or_eq_true_iff.1 htail with hc | hc
    all_goals
      obtain rfl := beq_iff_eq.1 hc
      simp [mdStripLine, mdIsHr, mdIsBlank, hinline]

theorem collapseFrom_append {w : List Char} (hw : '\n' ∉ w) (hne : w ≠ []) (resultIsEmpty : Bool) (n : ℕ)
    (rest : List Char) : collapseFrom resultIsEmpty n (w ++ rest) = w ++ collapseFrom false 0 rest := by
  induction w generalizing resultIsEmpty n with
  | nil => exact absurd rfl hne
  | cons c w ih =>
    rw [mem_cons, not_or] at hw
    rw [cons_append, collapseFrom, if_neg (Ne.symm hw.1), cons_append]
    by_cases hnil : w = []
    · subst hnil
      rfl
    · rw [ih hw.2 hnil]

section OnAscii

variable (h : OnAscii isAlphanumeric) {tail : List Char} {piece : Inline isAlphanumeric}
  {line : Line isAlphanumeric} {row : Option (Line isAlphanumeric)} {rows : List (Option (Line isAlphanumeric))}

include h

section Scanners

variable {w : List Char} (hw : ∀ c ∈ w, isAlphanumeric c = true)

include hw

theorem mdStripInline_word (rest out : List Char) :
    mdStripInline isAlphanumeric (w ++ rest) out = mdStripInline isAlphanumeric rest (out ++ w) := by
  induction w generalizing out with
  | nil => rw [nil_append, append_nil]
  | cons c w ih =>
    obtain ⟨hc, hw⟩ := forall_mem_cons.1 hw
    rw [cons_append, mdStripInline, h.isEol hc, if_neg Bool.false_ne_true, if_neg (h.ne hc _ rfl),
      if_neg (h.ne hc _ rfl), if_neg (h.ne hc _ rfl), if_neg (h.ne hc _ rfl),
      if_neg (h.ne hc _ rfl), if_neg (h.ne hc _ rfl), ih hw, append_assoc]
    rfl

theorem mdConsumeUntilStr_word (marks rest : List Char) :
    mdConsumeUntilStr ('*' :: marks) (w ++ ('*' :: marks ++ rest)) = (w, rest) := by
  induction w with
  | nil =>
    rw [nil_append, cons_append, mdConsumeUntilStr, if_pos]
    · rw [← cons_append, drop_left]
    · exact isPrefixOf_iff_prefix.2 ⟨rest, rfl⟩
  | cons c w ih =>
    obtain ⟨hc, hw⟩ := forall_mem_cons.1 hw
    have hne : ¬ ('*' :: marks).isPrefixOf (c :: (w ++ ('*' :: marks ++ rest))) = true := by
      rw [List.isPrefixOf_iff_prefix, cons_prefix_cons]
      exact fun hpre => h.ne hc '*' rfl hpre.1.symm
    rw [cons_append, mdConsumeUntilStr, if_neg hne, ih hw]

variable (rest : List Char)

theorem mdCollectUntil_word : mdCollectUntil ']' 1 (w ++ ']' :: rest) = (w, rest) := by
  induction w with
  | nil => rfl
  | cons c w ih =>
    obtain ⟨hc, hw⟩ := forall_mem_cons.1 hw
    have hopen : c ≠ mdOpening ']' := h.ne hc '[' rfl
    rw [cons_append, mdCollectUntil, if_neg hopen, if_neg (h.ne hc _ rfl), ih hw]

theorem mdSkipParens_word : mdSkipParens 1 (w ++ ')' :: rest) = rest := by
  induction w with
  | nil => rfl
  | cons c w ih =>
    obtain ⟨hc, hw⟩ := forall_mem_cons.1 hw
    rw [cons_append, mdSkipParens, if_neg (h.ne hc _ rfl), if_neg (h.ne hc _ rfl), ih hw]

theorem span_word : (w ++ '`' :: rest).takeWhile (fun d => d != '`') = w ∧
      (w ++ '`' :: rest).dropWhile (fun d => d != '`') = '`' :: rest := by
  have hne : ∀ c ∈ w, (c != '`') = true := fun c hc => bne_iff_ne.2 (h.ne (hw c hc) '`' rfl)
  rw [takeWhile_append_of_pos hne, dropWhile_append_of_pos hne, takeWhile_cons_of_neg (by decide),
    dropWhile_cons_of_neg (by decide), append_nil]
  exact ⟨rfl, rfl⟩

end Scanners

theorem Word.head_ne (w : Word isAlphanumeric) (rest : List Char) :
    (w.chars ++ rest).head? ≠ some '*' := by
  obtain ⟨c, cs, hcs, hc⟩ := w.exists_cons
  rw [hcs, cons_append, head?_cons]
  exact fun hstar => h.ne hc '*' rfl (Option.some.inj hstar)

theorem mdStripInline_inline (piece : Inline isAlphanumeric) (rest out : List Char) :
    mdStripInline isAlphanumeric (piece.render ++ rest) out =
      mdStripInline isAlphanumeric rest (out ++ piece.text) := by
  cases piece with
  | plain w => exact mdStripInline_word h w.alphanumeric rest out
  | bold w =>
    have hread : mdEmphasis '*' ('*' :: (w.chars ++ '*' :: '*' :: rest)) = (w.chars, rest) :=
      mdConsumeUntilStr_word h w.alphanumeric ['*'] rest
    rw [Inline.render, cons_append, cons_append, append_assoc, mdStripInline_star,
      cons_append, singleton_append, hread]
    rfl
  | italic w =>
    have hread : mdEmphasis '*' (w.chars ++ '*' :: rest) = (w.chars, rest) := by
      rw [mdEmphasis, if_neg (w.head_ne h _)]
      exact mdConsumeUntilStr_word h w.alphanumeric [] rest
    rw [Inline.render, cons_append, append_assoc, mdStripInline_star, singleton_append, hread]
    rfl
  | code w =>
    obtain ⟨htake, hdrop⟩ := span_word h w.alphanumeric rest
    rw [Inline.render, cons_append, append_assoc, singleton_append,
      mdStripInline_tick (by simp), htake, hdrop]
    rfl
  | link w u hu =>
    have hread := mdCollectUntil_word h w.alphanumeric ('(' :: (u ++ ')' :: rest))
    have hskip : mdSkipDestination ('(' :: (u ++ ')' :: rest)) = rest := mdSkipParens_word h hu rest
    rw [Inline.render, cons_append, append_assoc, mdStripInline_bracket, cons_append,
      cons_append, append_assoc, singleton_append, hread, hskip]
    rfl

theorem mdStripInline_line (line : Line isAlphanumeric) (htail : atEol tail = true) (out : List Char) :
    mdStripInline isAlphanumeric (line.layout Inline.render ++ tail) out = (tail, out ++ line.layout Inline.text) := by
  obtain ⟨first, rest⟩ := line
  induction rest generalizing first out with
  | nil =>
    rw [Line.layout_nil, Line.layout_nil, mdStripInline_inline h, mdStripInline_of_atEol htail]
  | cons next rest ih =>
    rw [Line.layout_cons, Line.layout_cons, append_assoc, mdStripInline_inline h, cons_append,
      mdStripInline_space, ih]
    simp

/-! ## Lines -/

/-- What a piece other than code begins with, which is no mark of a block. -/
theorem Inline.render_cons (hcode : piece.isCode = false) :
    ∃ c cs, piece.render = c :: cs ∧ mdIsBlank c = false ∧ isEol c = false ∧ c ≠ '#' ∧ c ≠ '>' ∧ c ≠ '`' := by
  cases piece with
  | plain w =>
    obtain ⟨c, cs, hcs, hc⟩ := w.exists_cons
    have hspace := h.ne hc ' ' rfl
    have htab := h.ne hc '\t' rfl
    refine ⟨c, cs, hcs, ?_, h.isEol hc, h.ne hc _ rfl, h.ne hc _ rfl, h.ne hc _ rfl⟩
    simp [mdIsBlank, hspace, htab]
  | bold w | italic w | link w u hu => exact ⟨_, _, rfl, by decide⟩
  | code w => cases hcode

theorem Inline.not_hr (hcode : piece.isCode = false) (rest : List Char) :
    mdIsHr (piece.render ++ rest) = false := by
  cases piece with
  | plain w =>
    obtain ⟨c, cs, hcs, hc⟩ := w.exists_cons
    have hdash := h.ne hc '-' rfl
    have hstar := h.ne hc '*' rfl
    have hunder := h.ne hc '_' rfl
    simp [Inline.render, hcs, mdIsHr, hdash, hstar, hunder]
  | bold w | italic w =>
    obtain ⟨c, cs, hcs, hc⟩ := w.exists_cons
    have hstar := h.ne hc '*' rfl
    simp [Inline.render, hcs, mdIsHr, hstar]
  | code w => cases hcode
  | link w u hu => rfl

/-- A line that does not begin with code has no mark of a block. -/
theorem mdStripLine_line (hcode : line.codeFirst = false) (htail : atEol tail = true) (out : List Char) :
    mdStripLine isAlphanumeric (line.layout Inline.render ++ tail) out = (tail, out ++ line.layout Inline.text) := by
  obtain ⟨rest, hrest⟩ := line.layout_eq_append Inline.render
  obtain ⟨c, cs, hcs, hblank, -, hhash, hquote, htick⟩ := Inline.render_cons h hcode
  have hhr := Inline.not_hr h hcode (rest ++ tail)
  have hread := mdStripInline_line h line htail out
  rw [hrest, append_assoc, hcs, cons_append] at hread ⊢
  rw [hcs, cons_append] at hhr
  simp only [mdStripLine, dropWhile_cons_of_neg (show ¬ mdIsBlank c = true by simp [hblank]),
    takeWhile_cons_of_neg (show ¬ mdIsBlank c = true by simp [hblank]), head?_cons, Option.some.injEq,
    hhash, hquote, htick, hhr, if_false, append_nil, Bool.false_eq_true]
  exact hread

/-! ## The loop over the lines -/

section

variable (hcode : rowCodeFirst row = false)

include hcode

theorem mdStripLine_row (htail : atEol tail = true) (out : List Char) :
    mdStripLine isAlphanumeric (rowLayout Inline.render row ++ tail) out =
      (tail, out ++ rowLayout Inline.text row) := by
  cases row with
  | some line => exact mdStripLine_line h hcode htail out
  | none =>
    rw [rowLayout, rowLayout, nil_append, append_nil]
    exact mdStripLine_of_atEol htail out

theorem mdLoop_row (rest out : List Char) : mdLoop isAlphanumeric (rowLayout Inline.render row ++ '\n' :: rest) out =
      mdLoop isAlphanumeric rest (out ++ rowOut row rest) := by
  have hnew : decide (out.length < (out ++ rowLayout Inline.text row).length) = row.isSome := by
    cases row with
    | none => simp [rowLayout]
    | some line =>
      simpa [rowLayout] using length_pos_of_ne_nil (line.layout_ne_nil Inline.text_ne_nil)
  have hterm : mdConsumeLineTerminator ('\n' :: rest) = (true, rest) := rfl
  rw [mdLoop.eq_def, if_neg (by simp)]
  dsimp only
  rw [mdStripLine_row h hcode (by rfl), hnew, hterm, Bool.and_true, rowOut]
  split_ifs with hpush
  · rw [append_assoc]
  · rw [append_nil]

theorem mdLoop_last (out : List Char) :
    mdLoop isAlphanumeric (rowLayout Inline.render row) out = out ++ rowLayout Inline.text row := by
  have hline : mdStripLine isAlphanumeric (rowLayout Inline.render row ++ []) out =
      ([], out ++ rowLayout Inline.text row) := mdStripLine_row h hcode rfl out
  rw [append_nil] at hline
  rw [mdLoop.eq_def]
  split_ifs with hnil
  · cases row with
    | none => simp [rowLayout]
    | some line => exact absurd hnil (line.layout_ne_nil Inline.render_ne_nil)
  · dsimp only
    rw [hline]
    simp [mdConsumeLineTerminator, skipLineTerminator, mdLoop_nil]

end

theorem mdLoop_rows (hcode : ∀ row ∈ rows, rowCodeFirst row = false) (out : List Char) :
    mdLoop isAlphanumeric (joinRows Inline.render rows) out = out ++ rowsOut rows := by
  induction rows using rowsOut.induct generalizing out with
  | case1 =>
    rw [rowsOut, append_nil]
    exact mdLoop_nil out
  | case2 row =>
    rw [joinRows_singleton, rowsOut]
    exact mdLoop_last h (hcode row (mem_singleton_self row)) out
  | case3 row next rows ih =>
    obtain ⟨hrow, hrows⟩ := forall_mem_cons.1 hcode
    rw [joinRows_cons row (cons_ne_nil _ _), mdLoop_row h hrow, ih hrows, rowsOut, append_assoc]

/-- The backtick of a line that begins with code is written out. -/
theorem tick_mem_mdStripLine (hcode : line.codeFirst = true) (tail out : List Char) :
    '`' ∈ (mdStripLine isAlphanumeric (line.layout Inline.render ++ tail) out).2 := by
  obtain ⟨rest, hrest⟩ := line.layout_eq_append Inline.render
  obtain ⟨w, hw⟩ := Inline.exists_code hcode
  obtain ⟨c, cs, hcs, hc⟩ := w.exists_cons
  have htick := h.ne hc '`' rfl
  have hwritten : out ++ ['`'] <+:
      (mdStripInline isAlphanumeric (c :: (cs ++ ['`']) ++ rest ++ tail) (out ++ ['`'])).2 :=
    mdStripInline_grows _ _
  have hmem := hwritten.subset (mem_append_right out (mem_singleton_self '`'))
  rw [hrest, hw, Inline.render, hcs]
  simpa [mdStripLine, mdIsBlank, htick] using hmem

theorem tick_mem_mdLoop (hcode : line.codeFirst = true) (tail out : List Char) :
    '`' ∈ mdLoop isAlphanumeric (line.layout Inline.render ++ tail) out := by
  have hline := tick_mem_mdStripLine h hcode tail out
  have hne : line.layout Inline.render ++ tail ≠ [] :=
    append_ne_nil_of_left_ne_nil (line.layout_ne_nil Inline.render_ne_nil) tail
  rw [mdLoop.eq_def, if_neg hne]
  refine (mdLoop_grows _ _).subset ?_
  split_ifs
  · exact mem_append_left _ hline
  · exact hline

/-- The loop gets to the first line that begins with code. -/
theorem tick_mem_mdLoop_rows (hcode : ∃ row ∈ rows, rowCodeFirst row = true)
    (out : List Char) : '`' ∈ mdLoop isAlphanumeric (joinRows Inline.render rows) out := by
  induction rows generalizing out with
  | nil =>
    obtain ⟨row, hrow, -⟩ := hcode
    cases hrow
  | cons row rows ih =>
    -- what comes after the row, if anything
    obtain ⟨tail, htail⟩ : ∃ tail, joinRows Inline.render (row :: rows) = rowLayout Inline.render row ++ tail := by
      cases rows with
      | nil => exact ⟨[], by rw [joinRows_singleton, append_nil]⟩
      | cons next rows => exact ⟨_, joinRows_cons row (cons_ne_nil next rows)⟩
    cases hrow : rowCodeFirst row with
    | true =>
      cases row with
      | none => cases hrow
      | some line =>
        rw [htail]
        exact tick_mem_mdLoop h hrow tail out
    | false =>
      obtain ⟨row', hmem, hcode'⟩ := hcode
      have hmem' : row' ∈ rows := by
        refine (mem_cons.1 hmem).resolve_left ?_
        rintro rfl
        cases hrow.symm.trans hcode'
      rw [joinRows_cons row (ne_nil_of_mem hmem'), mdLoop_row h hrow]
      exact ih ⟨row', hmem', hcode'⟩ _

/-! ## Comparing -/

variable (row : Option (Line isAlphanumeric))

theorem not_mem_rowLayout {mark : Char} (hmark : (mark.toNat < 128 && !mark.isAlphanum) = true) (hspace : mark ≠ ' ') :
    mark ∉ rowLayout Inline.text row := by
  intro hmem
  cases row with
  | none => cases hmem
  | some line =>
    rcases mem_layout_text line hmem with hc | hc
    · exact h.ne hc mark hmark rfl
    · exact hspace hc

theorem tick_not_mem_joinRows (rows : List (Option (Line isAlphanumeric))) : '`' ∉ joinRows Inline.text rows := by
  have hrow : ∀ row : Option (Line isAlphanumeric), '`' ∉ rowLayout Inline.text row := fun row =>
    not_mem_rowLayout h row rfl (by decide)
  induction rows using rowsOut.induct with
  | case1 => exact not_mem_nil
  | case2 row =>
    rw [joinRows_singleton]
    exact hrow row
  | case3 row next rows ih =>
    rw [joinRows_cons row (cons_ne_nil _ _), mem_append, mem_cons]
    rintro (hmem | hmem | hmem)
    · exact hrow row hmem
    · cases hmem
    · exact ih hmem

theorem count_rowLayout : (rowLayout Inline.text row).count '\n' = 0 :=
  count_eq_zero.2 (not_mem_rowLayout h row rfl (by decide))

/-- The rows should have a line feed between any two, -/
theorem count_joinRows (hrows : rows ≠ []) : (joinRows Inline.text rows).count '\n' + 1 = rows.length := by
  induction rows using rowsOut.induct with
  | case1 => exact absurd rfl hrows
  | case2 row =>
    rw [joinRows_singleton, count_rowLayout h]
    rfl
  | case3 row next rows ih =>
    rw [joinRows_cons row (cons_ne_nil _ _), count_append, count_cons_self, count_rowLayout h,
      Nat.zero_add, ih (cons_ne_nil _ _)]
    rfl

/-- but get at most one for each that is not blank. -/
theorem count_rowsOut_le (rows : List (Option (Line isAlphanumeric))) :
    (rowsOut rows).count '\n' ≤ rows.dropLast.countP Option.isSome := by
  induction rows using rowsOut.induct with
  | case1 => exact Nat.le_refl 0
  | case2 row =>
    rw [rowsOut, count_rowLayout h]
    exact Nat.zero_le _
  | case3 row next rows ih =>
    rw [rowsOut, dropLast_cons_cons, count_append, countP_cons, rowOut, count_append,
      count_rowLayout h, Nat.zero_add, Nat.add_comm]
    refine Nat.add_le_add ih ?_
    cases row with
    | none => exact Nat.le_refl 0
    | some line =>
      rw [Option.isSome_some, if_pos rfl]
      split_ifs
      · exact Nat.le_refl 1
      · exact Nat.zero_le 1

theorem collapseFrom_para (para : List (Line isAlphanumeric)) (resultIsEmpty : Bool) (n : ℕ) :
    collapseFrom resultIsEmpty n (joinRows Inline.text (para.map some)) = joinRows Inline.text (para.map some) := by
  induction para generalizing resultIsEmpty n with
  | nil => rfl
  | cons line para ih =>
    have hfree : '\n' ∉ rowLayout Inline.text (some line) := not_mem_rowLayout h _ (by decide) (by decide)
    have hne : rowLayout Inline.text (some line) ≠ [] := line.layout_ne_nil Inline.text_ne_nil
    rw [map_cons]
    by_cases hnil : para.map some = []
    · rw [hnil, joinRows_singleton]
      simpa [collapseFrom] using collapseFrom_append hfree hne resultIsEmpty n []
    · rw [joinRows_cons _ hnil, collapseFrom_append hfree hne]
      rw [collapseFrom, if_pos rfl, if_pos (by decide), ih]

/-! ## The round trip -/

variable {doc : List (List (Line isAlphanumeric))}

theorem stripMarkdown_of_noCodeFirst (hlines : NoCodeFirst doc) :
    stripMarkdown isAlphanumeric (layout Inline.render doc) = collapseNewlines (rowsOut (docRows doc)) := by
  rw [layout_eq_joinRows, stripMarkdown, mdLoop_rows h, nil_append]
  intro row hrow
  cases row with
  | none => rfl
  | some line =>
    obtain ⟨para, hpara, hline⟩ := (mem_docRows line doc).1 hrow
    exact hlines para hpara line hline

/-- The backtick of a line that begins with code is in the result and in no plain text. -/
theorem noCodeFirst_of_eq (heq : stripMarkdown isAlphanumeric (layout Inline.render doc) = layout Inline.text doc) :
    NoCodeFirst doc := by
  intro para hpara line hline
  by_contra hfirst
  rw [Bool.not_eq_false] at hfirst
  have hmem : some line ∈ docRows doc := (mem_docRows line doc).2 ⟨para, hpara, hline⟩
  have hwritten : '`' ∈ (mdLoop isAlphanumeric (layout Inline.render doc) []).filter (fun c => c == '`') := by
    rw [layout_eq_joinRows]
    exact mem_filter.2 ⟨tick_mem_mdLoop_rows h ⟨some line, hmem, hfirst⟩ [], rfl⟩
  rw [← filter_collapseNewlines (by decide), ← stripMarkdown, heq, layout_eq_joinRows] at hwritten
  exact tick_not_mem_joinRows h _ (mem_filter.1 hwritten).1

/-- A document of two paragraphs should have a line feed more than the loop puts out. -/
theorem length_le_one_of_eq (hlines : NoCodeFirst doc)
    (heq : stripMarkdown isAlphanumeric (layout Inline.render doc) = layout Inline.text doc) : doc.length ≤ 1 := by
  rcases doc with _ | ⟨para, _ | ⟨next, doc⟩⟩
  · exact Nat.zero_le 1
  · exact Nat.le_refl 1
  · rw [stripMarkdown_of_noCodeFirst h hlines, layout_eq_joinRows] at heq
    have hwant := count_joinRows h (docRows_ne_nil para (next :: doc))
    have hgot := (collapseNewlines_sublist (rowsOut (docRows (para :: next :: doc)))).count_le '\n'
    have hout := count_rowsOut_le h (docRows (para :: next :: doc))
    have hblank : (docRows (para :: next :: doc)).dropLast.countP Option.isSome <
        (docRows (para :: next :: doc)).dropLast.length := by
      refine lt_of_le_of_ne countP_le_length fun hall => ?_
      have hnone := countP_eq_length.1 hall none (none_mem_docRows para next doc)
      cases hnone
    rw [heq] at hgot
    rw [length_dropLast] at hblank
    omega

theorem stripMarkdown_para (hlines : NoCodeFirst doc) (hshort : doc.length ≤ 1) :
    stripMarkdown isAlphanumeric (layout Inline.render doc) = layout Inline.text doc := by
  rw [stripMarkdown_of_noCodeFirst h hlines, layout_eq_joinRows]
  rcases doc with _ | ⟨para, _ | ⟨next, doc⟩⟩
  · rfl
  · rw [docRows, map_singleton, intercalate_singleton, paraRows]
    split_ifs with hpara
    · rfl
    · rw [rowsOut_para, collapseNewlines, collapseFrom_para h]
  · exact absurd hshort (by simp)

/-- **A rendered document comes back exactly if it has at most one paragraph and no line begins with code.** -/
theorem stripMarkdown_render_iff (doc : List (List (Line isAlphanumeric))) :
    stripMarkdown isAlphanumeric (layout Inline.render doc) = layout Inline.text doc ↔
      doc.length ≤ 1 ∧ NoCodeFirst doc := by
  constructor
  · intro heq
    have hlines := noCodeFirst_of_eq h heq
    exact ⟨length_le_one_of_eq h hlines heq, hlines⟩
  · rintro ⟨hshort, hlines⟩
    exact stripMarkdown_para h hlines hshort

end OnAscii

theorem alphanumeric_singleton {c : Char} (h : c.isAlphanum = true) : ∀ d ∈ [c], d.isAlphanum = true :=
  forall_mem_singleton.2 h

/-- A word of one letter. -/
def letter (c : Char) (h : c.isAlphanum = true) : Word Char.isAlphanum :=
  ⟨[c], List.cons_ne_nil c [], alphanumeric_singleton h⟩

def letterA : Word Char.isAlphanum := letter 'a' rfl

def letterB : Word Char.isAlphanum := letter 'b' rfl

/-- Two lines, of a bold and a plain word, and of a link. -/
def twoLines : List (List (Line Char.isAlphanum)) :=
  [[⟨.bold letterA, [.plain letterB]⟩, ⟨.link letterB ['a'] (alphanumeric_singleton rfl), []⟩]]

theorem two_lines_come_back :
    layout Inline.render twoLines = "**a** b\n[b](a)".toList ∧
      stripMarkdown Char.isAlphanum (layout Inline.render twoLines) = layout Inline.text twoLines := by
  refine ⟨by decide, (stripMarkdown_render_iff (fun _ _ => rfl) twoLines).2 ⟨by decide, ?_⟩⟩
  intro para hpara line hline
  rw [twoLines, mem_singleton] at hpara
  subst hpara
  simp only [mem_cons, not_mem_nil, or_false] at hline
  rcases hline with rfl | rfl
  · rfl
  · rfl

/-- Two paragraphs run together, and a line that begins with code keeps its backticks. -/
theorem paragraphs_run_together :
    (stripMarkdown Char.isAlphanum (layout Inline.render [[⟨.plain letterA, []⟩], [⟨.plain letterB, []⟩]]) =
        "a\nb".toList ∧
      layout Inline.text [[⟨.plain letterA, []⟩], [⟨.plain letterB, []⟩]] ≠ "a\nb".toList) ∧
    stripMarkdown Char.isAlphanum (layout Inline.render [[⟨.code letterA, []⟩]]) = "`a`".toList ∧
      layout Inline.text [[⟨.code letterA, []⟩]] ≠ "`a`".toList := by
  decide +kernel

end Tagsmaxxing.Text.Markdown
