import Tagsmaxxing.Extract.Text

/-! # HTML stripping undoes escaping once (`strip_html`)

A text is escaped character by character, and tags that are not block tags may stand anywhere between the escaped
parts. `strip_html` gives the text back, but for the newlines `collapse_newlines` takes away. In an escaped text
every `&` starts an entity, so the look-ahead of `decode_html_entity` never finds another one, and what an entity
stands for is not read again. -/

namespace Tagsmaxxing.Text.Html

open List

/-! ## Escaped texts -/

/-- The two ways to write a single quote. -/
inductive QuoteEntity
  | numeric
  | named

def QuoteEntity.name : QuoteEntity → List Char
  | .numeric => ['#', '3', '9']
  | .named => ['a', 'p', 'o', 's']

/-- The entity of a character that has to be escaped. -/
def entityName (quote : QuoteEntity) (c : Char) : Option (List Char) :=
  if c = '&' then some ['a', 'm', 'p']
  else if c = '<' then some ['l', 't']
  else if c = '>' then some ['g', 't']
  else if c = '"' then some ['q', 'u', 'o', 't']
  else if c = '\'' then some quote.name
  else none

def escapeChar (quote : QuoteEntity) (c : Char) : List Char :=
  match entityName quote c with
  | some name => '&' :: (name ++ [';'])
  | none => [c]

def escape (quote : QuoteEntity) (t : List Char) : List Char := t.flatMap (escapeChar quote)

/-- The inside of a tag that is not a block tag. -/
structure InlineTag where
  raw : List Char
  no_angle : ∀ c ∈ raw, c ≠ '<' ∧ c ≠ '>'
  not_block : isHtmlBlockTag raw = false

/-- A part of a text with tags in it. -/
inductive Piece
  | text (quote : QuoteEntity) (t : List Char)
  | tag (t : InlineTag)

def Piece.render : Piece → List Char
  | .text quote t => escape quote t
  | .tag t => '<' :: (t.raw ++ ['>'])

def Piece.plain : Piece → List Char
  | .text _ t => t
  | .tag _ => []

/-! ## What is left of the newlines -/

/-- Every run of newlines cut to two: a newline that two more follow is dropped. -/
def limitNewlines : List Char → List Char
  | [] => []
  | c :: cs => if c = '\n' ∧ ['\n', '\n'] <+: cs then limitNewlines cs else c :: limitNewlines cs

/-- Without leading newlines, and with every run of newlines cut to two. -/
def squeezeNewlines (t : List Char) : List Char := limitNewlines (t.dropWhile fun c => c == '\n')

variable {c : Char} {name : List Char} {quote : QuoteEntity}

section

variable (h : c ≠ '\n') (cs : List Char)

include h

theorem limitNewlines_cons_of_ne : limitNewlines (c :: cs) = c :: limitNewlines cs := by
  rw [limitNewlines, if_neg fun hc => h hc.1]

theorem limitNewlines_newline_of_ne : limitNewlines ('\n' :: c :: cs) = '\n' :: c :: limitNewlines cs := by
  have hnot : ¬ ['\n', '\n'] <+: c :: cs := by
    rw [cons_prefix_cons]
    exact fun hpre => h hpre.1.symm
  rw [limitNewlines, if_neg fun hc => hnot hc.2, limitNewlines_cons_of_ne h]

theorem limitNewlines_two_of_ne : limitNewlines ('\n' :: '\n' :: c :: cs) = '\n' :: '\n' :: c :: limitNewlines cs := by
  have hnot : ¬ ['\n', '\n'] <+: '\n' :: c :: cs := by
    rw [cons_prefix_cons, cons_prefix_cons]
    exact fun hpre => h hpre.2.1.symm
  rw [limitNewlines, if_neg fun hc => hnot hc.2, limitNewlines_newline_of_ne h]

end

variable (cs : List Char)

theorem limitNewlines_three : limitNewlines ('\n' :: '\n' :: '\n' :: cs) = limitNewlines ('\n' :: '\n' :: cs) := by
  rw [limitNewlines, if_pos ⟨rfl, cs, rfl⟩]

/-- From two newlines on, the count no longer matters. -/
theorem collapseFrom_of_two_le {n : ℕ} (h : 2 ≤ n) : collapseFrom false n cs = collapseFrom false 2 cs := by
  induction cs generalizing n with
  | nil => rfl
  | cons c cs ih =>
    rw [collapseFrom, collapseFrom]
    split_ifs with hc hn h2 h2
    · simp at hn
      omega
    · simp at hn
      omega
    · simp at h2
    · rw [ih (Nat.le_succ_of_le h), ih (Nat.le_succ 2)]
    · rfl

/-- The loop within a text, after no newline, after one and after two. -/
theorem collapseFrom_eq : collapseFrom false 0 cs = limitNewlines cs ∧
      '\n' :: collapseFrom false 1 cs = limitNewlines ('\n' :: cs) ∧
      '\n' :: '\n' :: collapseFrom false 2 cs = limitNewlines ('\n' :: '\n' :: cs) := by
  induction cs with
  | nil => decide
  | cons c cs ih =>
    obtain ⟨h0, h1, h2⟩ := ih
    by_cases hc : c = '\n'
    · subst hc
      refine ⟨h1, ?_, ?_⟩
      · exact h2
      · rw [limitNewlines_three, ← h2, ← collapseFrom_of_two_le cs (Nat.le_succ 2)]
        rfl
    · have hstep : ∀ n, collapseFrom false n (c :: cs) = c :: collapseFrom false 0 cs := by
        intro n
        rw [collapseFrom, if_neg hc]
      rw [hstep, hstep, hstep, h0, limitNewlines_cons_of_ne hc, limitNewlines_newline_of_ne hc,
        limitNewlines_two_of_ne hc]
      exact ⟨rfl, rfl, rfl⟩

theorem collapseNewlines_eq (t : List Char) : collapseNewlines t = squeezeNewlines t := by
  have hlead : ∀ n, collapseFrom true n t = squeezeNewlines t := by
    induction t with
    | nil => intro n; rfl
    | cons c cs ih =>
      intro n
      rw [squeezeNewlines]
      by_cases hc : c = '\n'
      · subst hc
        exact ih (n + 1)
      · rw [collapseFrom, if_neg hc, dropWhile_cons_of_neg (by simpa using hc), limitNewlines_cons_of_ne hc,
          (collapseFrom_eq cs).1]
  exact hlead 0

/-! ## Entities -/

theorem readEntityName_append (h : ∀ c ∈ name, c ≠ ';' ∧ (c.isAlphanum || c == '#') = true) (rest : List Char) :
    readEntityName (name ++ ';' :: rest) = some (name, rest) := by
  induction name with
  | nil => rfl
  | cons c name ih =>
    obtain ⟨⟨hsemi, hname⟩, h⟩ := forall_mem_cons.1 h
    rw [cons_append, readEntityName, if_neg hsemi, if_pos hname, ih h]
    rfl

theorem forall_mem_of_all (h : (name.all fun d => d != ';' && (d.isAlphanum || d == '#')) = true) :
    ∀ d ∈ name, d ≠ ';' ∧ (d.isAlphanum || d == '#') = true := by
  intro d hd
  have hall := all_eq_true.1 h d hd
  rwa [Bool.and_eq_true, bne_iff_ne] at hall

/-- The names are ones `decode_html_entity` accepts, and it knows each of them. -/
theorem entityName_spec (h : entityName quote c = some name) :
    (∀ d ∈ name, d ≠ ';' ∧ (d.isAlphanum || d == '#') = true) ∧ entityChar name = some c := by
  unfold entityName at h
  split_ifs at h
  all_goals
    subst_vars
    cases h
    -- the name of the apostrophe depends on the writer
    cases quote with
    | numeric | named => exact ⟨forall_mem_of_all (by decide +kernel), by decide +kernel⟩

/-- The other characters mean nothing to `strip_html`. -/
theorem ne_of_entityName_eq_none (h : entityName quote c = none) : c ≠ '<' ∧ c ≠ '>' ∧ c ≠ '&' := by
  unfold entityName at h
  split_ifs at h with hamp hlt hgt
  exact ⟨hlt, hgt, hamp⟩

theorem decodeHtmlEntity_append (h : entityName quote c = some name) (rest : List Char) :
    decodeHtmlEntity (name ++ ';' :: rest) = some (c, rest) := by
  obtain ⟨hname, hchar⟩ := entityName_spec h
  rw [decodeHtmlEntity, readEntityName_append hname, Option.bind_some, hchar]
  rfl

/-! ## The loop -/

section Loop

variable (buf rest : List Char)

theorem stripTags_entity {cs : List Char} (h : decodeHtmlEntity cs = some (c, rest)) :
    stripTags false buf ('&' :: cs) = c :: stripTags false buf rest := by
  rw [stripTags]
  simp only [show ('&' : Char) ≠ '<' by decide, show ('&' : Char) ≠ '>' by decide, if_false, Bool.false_eq_true,
    if_true]
  split
  next decoded rest' hdecoded =>
    obtain ⟨rfl, rfl⟩ := Prod.mk.inj (Option.some.inj (hdecoded.symm.trans h))
    rfl
  next hnone =>
    cases h.symm.trans hnone

/-- An escaped character comes out as itself, and nothing of it is read twice. -/
theorem stripTags_escapeChar (quote : QuoteEntity) (c : Char) :
    stripTags false buf (escapeChar quote c ++ rest) = c :: stripTags false buf rest := by
  unfold escapeChar
  split
  next name hname =>
    rw [cons_append, append_assoc, singleton_append]
    exact stripTags_entity buf rest (decodeHtmlEntity_append hname rest)
  next hnone =>
    obtain ⟨hlt, hgt, hamp⟩ := ne_of_entityName_eq_none hnone
    rw [singleton_append, stripTags, if_neg hlt, if_neg hgt, if_neg Bool.false_ne_true, if_neg hamp]

theorem stripTags_escape (quote : QuoteEntity) (t : List Char) :
    stripTags false buf (escape quote t ++ rest) = t ++ stripTags false buf rest := by
  induction t with
  | nil => rfl
  | cons c t ih =>
    rw [escape, flatMap_cons, append_assoc, stripTags_escapeChar, ← escape, ih]
    rfl

theorem stripTags_inTag {raw : List Char} (h : ∀ c ∈ raw, c ≠ '<' ∧ c ≠ '>') :
    stripTags true buf (raw ++ '>' :: rest) =
      (if isHtmlBlockTag (buf ++ raw) then ['\n'] else []) ++ stripTags false (buf ++ raw) rest := by
  induction raw generalizing buf with
  | nil =>
    rw [nil_append, stripTags, if_neg (by decide), if_pos rfl, append_nil]
  | cons c raw ih =>
    obtain ⟨⟨hlt, hgt⟩, h⟩ := forall_mem_cons.1 h
    rw [cons_append, stripTags, if_neg hlt, if_neg hgt, if_pos rfl, ih (buf ++ [c]) h, append_assoc]
    rfl

theorem stripTags_tag (tag : InlineTag) :
    stripTags false buf (Piece.render (.tag tag) ++ rest) = stripTags false tag.raw rest := by
  rw [Piece.render, cons_append, stripTags, if_pos rfl, append_assoc, singleton_append,
    stripTags_inTag [] rest tag.no_angle, nil_append, tag.not_block]
  rfl

end Loop

/-- The pieces come out as their text, whatever tag was read last. -/
theorem stripTags_pieces (pieces : List Piece) (buf : List Char) :
    stripTags false buf (pieces.flatMap Piece.render) = pieces.flatMap Piece.plain := by
  induction pieces generalizing buf with
  | nil =>
    rw [flatMap_nil, stripTags]
    rfl
  | cons piece pieces ih =>
    rw [flatMap_cons, flatMap_cons]
    cases piece with
    | text quote t =>
      rw [Piece.render, stripTags_escape, ih]
      rfl
    | tag t =>
      rw [stripTags_tag, ih]
      rfl

/-- **`strip_html` undoes escaping exactly once.** An escaped text comes back with its newlines squeezed, and inline
    tags between the escaped parts of a text change nothing. -/
theorem stripHtml_escape :
    (∀ quote t, stripHtml (escape quote t) = squeezeNewlines t) ∧
      ∀ quote (pieces : List Piece), stripHtml (pieces.flatMap Piece.render) =
        stripHtml (escape quote (pieces.flatMap Piece.plain)) := by
  have hpieces : ∀ pieces : List Piece, stripHtml (pieces.flatMap Piece.render) =
      squeezeNewlines (pieces.flatMap Piece.plain) := by
    intro pieces
    rw [stripHtml, stripTags_pieces, collapseNewlines_eq]
  have hescape : ∀ quote t, stripHtml (escape quote t) = squeezeNewlines t := by
    intro quote t
    have hone := hpieces [.text quote t]
    rwa [flatMap_singleton, flatMap_singleton] at hone
  refine ⟨hescape, fun quote pieces => ?_⟩
  rw [hpieces, hescape]

example :
    let pieces : List Piece := [.text .named ['a', '<'], .tag ⟨['b'], by simp, by decide⟩, .text .named ['c']]
    pieces.flatMap Piece.render = "a&lt;<b>c".toList ∧ stripHtml (pieces.flatMap Piece.render) = "a<c".toList := by
  decide +kernel

end Tagsmaxxing.Text.Html
