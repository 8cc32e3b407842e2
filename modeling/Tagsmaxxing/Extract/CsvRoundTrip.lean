import Tagsmaxxing.Extract.Text

/-! # Reading back what RFC 4180 writes (`csv_to_text`)

A table of rows of cells, each cell quoted or left bare, is written with commas and line ends, and `csv_to_text`
gives back the values: a space between cells, a line feed between rows. A bare empty cell at the end of a row is
not seen by the reader, so it adds neither text nor separator.

The row loop peeks for the end of the line before and after every field. Both peeks come to the same
(`readRow_of_not_atEol`), so a row is read one cell at a time. -/

namespace Tagsmaxxing.Text.Csv

open List

/-! ## Tables and how they are written -/

/-- What may be written without quotes. -/
def IsBare (value : List Char) : Prop :=
  (∀ c ∈ value, c ≠ ',' ∧ isEol c = false) ∧ value.head? ≠ some '"'

inductive Cell
  | quoted (value : List Char)
  | bare (value : List Char) (h : IsBare value)

def Cell.value : Cell → List Char
  | .quoted value => value
  | .bare value _ => value

/-- A bare empty cell. -/
def Cell.isBlank : Cell → Bool
  | .quoted _ => false
  | .bare value _ => value.isEmpty

/-- The quotes of a value doubled. -/
def doubleQuotes : List Char → List Char
  | [] => []
  | c :: cs => if c = '"' then '"' :: '"' :: doubleQuotes cs else c :: doubleQuotes cs

def Cell.render : Cell → List Char
  | .quoted value => '"' :: doubleQuotes value ++ ['"']
  | .bare value _ => value

inductive Terminator
  | lf
  | crlf

def Terminator.chars : Terminator → List Char
  | .lf => ['\n']
  | .crlf => ['\r', '\n']

/-- A row with at least one cell. -/
structure Row where
  cells : List Cell
  cells_ne : cells ≠ []
  terminator : Terminator

def renderCells (cells : List Cell) : List Char := [','].intercalate (cells.map Cell.render)

/-- A row that consists of one bare empty cell. -/
def Row.isBlank (row : Row) : Bool := row.cells.length == 1 && row.cells.all Cell.isBlank

/-- The rows, and whether the last one has its terminator. Without it a last row that is blank would not be there
    at all. -/
structure Table where
  rows : List Row
  terminated : Bool
  last_ok : terminated = false → ∀ row, rows.getLast? = some row → row.isBlank = false

def renderRows (terminated : Bool) : List Row → List Char
  | [] => []
  | [row] => renderCells row.cells ++ if terminated then row.terminator.chars else []
  | row :: next :: rows => renderCells row.cells ++ (row.terminator.chars ++ renderRows terminated (next :: rows))

def Table.render (table : Table) : List Char := renderRows table.terminated table.rows

/-! ## What is to be read -/

/-- The cells of a row but for a bare empty one at its end. -/
def keptCells (cells : List Cell) : List Cell :=
  if cells.getLast?.any Cell.isBlank then cells.dropLast else cells

def Row.text (row : Row) : List Char := [' '].intercalate ((keptCells row.cells).map Cell.value)

def Table.text (table : Table) : List Char := ['\n'].intercalate (table.rows.map Row.text)

/-! ## One cell -/

/-- What stands behind a cell, and where the reader goes on: behind the comma, or at the end of the line. -/
def Ends (after rest : List Char) : Prop := after = ',' :: rest ∨ after = rest ∧ atEol rest = true

variable {cs tail : List Char}

section Field

variable {after rest : List Char}

theorem ne_comma_of_isEol {c : Char} (h : isEol c = true) : c ≠ ',' := by
  rintro rfl
  cases h

section

variable (h : Ends after rest)

include h

theorem Ends.head_ne : after.head? ≠ some '"' := by
  rcases h with rfl | ⟨rfl, heol⟩
  · simp
  · intro hhead
    obtain ⟨cs, rfl⟩ := head?_eq_some_iff.1 hhead
    cases heol

theorem Ends.skipAfterQuotedField : skipAfterQuotedField after = rest := by
  rcases h with rfl | ⟨rfl, heol⟩
  · rfl
  · cases after with
    | nil => rfl
    | cons c cs =>
      rw [atEol] at heol
      rw [Text.skipAfterQuotedField, if_neg (ne_comma_of_isEol heol), if_pos heol]

theorem Ends.readUnquoted : readUnquoted after = ([], rest) := by
  rcases h with rfl | ⟨rfl, heol⟩
  · rfl
  · cases after with
    | nil => rfl
    | cons c cs =>
      rw [atEol] at heol
      rw [Text.readUnquoted, if_neg (ne_comma_of_isEol heol), if_pos heol]

theorem readUnquoted_append (value : List Char) (hvalue : ∀ c ∈ value, c ≠ ',' ∧ isEol c = false) :
    readUnquoted (value ++ after) = (value, rest) := by
  induction value with
  | nil => exact h.readUnquoted
  | cons c value ih =>
    obtain ⟨⟨hcomma, heol⟩, hvalue⟩ := forall_mem_cons.1 hvalue
    rw [cons_append, Text.readUnquoted, if_neg hcomma, heol, ih hvalue]
    rfl

end

/-- A quoted value is read up to the quote that no other follows. -/
theorem readQuoted_doubleQuotes (h : after.head? ≠ some '"') (value : List Char) :
    readQuoted (doubleQuotes value ++ '"' :: after) = (value, after) := by
  induction value with
  | nil =>
    rw [doubleQuotes, nil_append, readQuoted.eq_def]
    cases after with
    | nil => rfl
    | cons c cs =>
      have hc : c ≠ '"' := fun hc => h (by rw [hc]; rfl)
      simp [hc]
  | cons c value ih =>
    rw [doubleQuotes]
    split_ifs with hc
    · rw [cons_append, cons_append, readQuoted.eq_def]
      simp only [if_true, ih, hc]
    · rw [cons_append, readQuoted.eq_def]
      simp only [hc, if_false, ih]

/-- A field that does not start with a quote is an unquoted one, also if it is empty. -/
theorem readField_eq_readUnquoted (h : cs.head? ≠ some '"') : readField cs = readUnquoted cs := by
  cases cs with
  | nil => rfl
  | cons c cs =>
    have hquote : c ≠ '"' := fun hc => h (by rw [hc]; rfl)
    rw [readField, if_neg hquote]
    split_ifs with hcomma
    · rw [readUnquoted, if_pos hcomma]
    · rfl

theorem readField_render (h : Ends after rest) (cell : Cell) :
    readField (cell.render ++ after) = (cell.value, rest) := by
  cases cell with
  | quoted value =>
    rw [Cell.render, append_assoc, cons_append, readField, if_pos rfl, singleton_append,
      readQuoted_doubleQuotes h.head_ne, h.skipAfterQuotedField]
    rfl
  | bare value hbare =>
    have hhead : (value ++ after).head? ≠ some '"' := by
      cases value with
      | nil => exact h.head_ne
      | cons c value => exact hbare.2
    rw [Cell.render, readField_eq_readUnquoted hhead, readUnquoted_append h value hbare.1]
    rfl

end Field

/-! ## One row -/

theorem render_of_isBlank {cell : Cell} (h : cell.isBlank = true) : cell.render = [] := by
  cases cell with
  | quoted value => cases h
  | bare value hbare => exact List.isEmpty_iff.1 h

/-- The reader is at the end of the line only behind a bare empty cell. -/
theorem atEol_render_append (cell : Cell) (after : List Char) :
    atEol (cell.render ++ after) = (cell.isBlank && atEol after) := by
  cases cell with
  | quoted value => rfl
  | bare value hbare =>
    cases value with
    | nil => rfl
    | cons c value => exact (hbare.1 c mem_cons_self).2

theorem readRow_of_atEol (h : atEol cs = true) (first : Bool) : readRow first cs = ([], cs) := by
  rw [readRow.eq_def, if_pos h]

/-- The peek behind a field finds what the next round of the loop would find. -/
theorem readRow_of_not_atEol (h : atEol cs = false) (first : Bool) :
    readRow first cs = ((if first then [] else [' ']) ++ (readField cs).1 ++ (readRow false (readField cs).2).1,
      (readRow false (readField cs).2).2) := by
  rw [readRow.eq_def, h]
  by_cases hfield : atEol (readField cs).2 = true
  · simp [hfield, readRow_of_atEol]
  · simp [hfield]

/-- The text of a row whose first cell is the row's first or not. -/
def rowText (first : Bool) : List Cell → List Char
  | [] => []
  | [cell] => if cell.isBlank then [] else (if first then [] else [' ']) ++ cell.value
  | cell :: next :: cells => (if first then [] else [' ']) ++ cell.value ++ rowText false (next :: cells)

theorem readRow_renderCells (htail : atEol tail = true) (cells : List Cell) (first : Bool) :
    readRow first (renderCells cells ++ tail) = (rowText first cells, tail) := by
  induction cells generalizing first with
  | nil => exact readRow_of_atEol htail first
  | cons cell cells ih =>
    cases cells with
    | nil =>
      rw [renderCells, map_singleton, intercalate_singleton, rowText]
      have heol := atEol_render_append cell tail
      rw [htail, Bool.and_true] at heol
      cases hblank : cell.isBlank with
      | true => rw [render_of_isBlank hblank, nil_append, readRow_of_atEol htail, if_pos rfl]
      | false =>
        rw [readRow_of_not_atEol (heol.trans hblank), readField_render (.inr ⟨rfl, htail⟩), readRow_of_atEol htail]
        simp
    | cons next cells =>
      have hrender : renderCells (cell :: next :: cells) ++ tail =
          cell.render ++ ',' :: (renderCells (next :: cells) ++ tail) := by
        simp [renderCells, intercalate_cons_cons]
      have heol : atEol (cell.render ++ ',' :: (renderCells (next :: cells) ++ tail)) = false := by
        rw [atEol_render_append]
        exact Bool.and_false _
      rw [hrender, readRow_of_not_atEol heol, readField_render (.inl rfl), ih false, rowText]

theorem keptCells_cons_cons (cell next : Cell) (cells : List Cell) :
    keptCells (cell :: next :: cells) = cell :: keptCells (next :: cells) := by
  rw [keptCells, keptCells, getLast?_cons_cons, dropLast_cons_cons]
  split_ifs
  · rfl
  · rfl

theorem rowText_false (cells : List Cell) :
    rowText false cells = ((keptCells cells).map Cell.value).flatMap fun value => ' ' :: value := by
  induction cells with
  | nil => rfl
  | cons cell cells ih =>
    cases cells with
    | nil =>
      rw [rowText, keptCells]
      cases hblank : cell.isBlank with
      | true | false => simp [hblank]
    | cons next cells =>
      rw [rowText, ih, keptCells_cons_cons]
      simp

theorem rowText_true (cells : List Cell) : rowText true cells = (rowText false cells).drop 1 := by
  rcases cells with _ | ⟨cell, _ | ⟨next, cells⟩⟩
  · rfl
  · cases hblank : cell.isBlank with
    | true | false => simp [rowText, hblank]
  · rfl

theorem intercalate_eq_drop (sep : Char) (values : List (List Char)) :
    [sep].intercalate values = (values.flatMap fun value => sep :: value).drop 1 := by
  induction values with
  | nil => rfl
  | cons value values ih =>
    cases values with
    | nil => simp
    | cons next values =>
      rw [intercalate_cons_cons, ih]
      simp

theorem Row.rowText_cells (row : Row) : rowText true row.cells = row.text := by
  rw [rowText_true, rowText_false, Row.text, intercalate_eq_drop]

/-! ## The table -/

variable (t : Terminator) (rest : List Char)

theorem Terminator.skip : skipLineTerminator (t.chars ++ rest) = rest := by
  cases t with
  | lf | crlf => rfl

theorem Terminator.chars_ne_nil (t : Terminator) : t.chars ≠ [] := by
  cases t with
  | lf | crlf => exact cons_ne_nil _ _

theorem Terminator.atEol : atEol (t.chars ++ rest) = true := by
  cases t with
  | lf | crlf => rfl

theorem Cell.isBlank_of_render {cell : Cell} (h : cell.render = []) : cell.isBlank = true := by
  cases cell with
  | quoted value => cases h
  | bare value hbare => exact List.isEmpty_iff.2 h

theorem Row.isBlank_of_renderCells (row : Row) (h : renderCells row.cells = []) : row.isBlank = true := by
  obtain ⟨cells, hne, t⟩ := row
  rcases cells with _ | ⟨cell, _ | ⟨next, cells⟩⟩
  · exact absurd rfl hne
  · have hblank : cell.isBlank = true := Cell.isBlank_of_render (by simpa [renderCells] using h)
    simp [Row.isBlank, hblank]
  · simp [renderCells, intercalate_cons_cons] at h

/-- One round of the loop over the rows. -/
theorem csvToText_row (row : Row) {rest : List Char} (htail : atEol tail = true)
    (hskip : skipLineTerminator tail = rest) (hne : renderCells row.cells ++ tail ≠ []) :
    csvToText (renderCells row.cells ++ tail) = row.text ++ (if rest.isEmpty then [] else ['\n']) ++
      csvToText rest := by
  rw [csvToText.eq_def, if_neg hne]
  dsimp only
  rw [readRow_renderCells htail, hskip, row.rowText_cells]

variable {terminated : Bool}

/-- What is written of rows is empty only if there are none. -/
theorem renderRows_ne_nil {rows : List Row} (hrows : rows ≠ [])
    (hlast : terminated = false → ∀ row, rows.getLast? = some row → row.isBlank = false) :
    renderRows terminated rows ≠ [] := by
  rcases rows with _ | ⟨row, _ | ⟨next, rows⟩⟩
  · exact absurd rfl hrows
  · intro h
    obtain ⟨hcells, hterm⟩ := append_eq_nil_iff.1 h
    cases terminated with
    | true => exact row.terminator.chars_ne_nil hterm
    | false =>
      have hblank := hlast rfl row rfl
      rw [row.isBlank_of_renderCells hcells] at hblank
      cases hblank
  · intro h
    obtain ⟨-, hrest⟩ := append_eq_nil_iff.1 h
    exact row.terminator.chars_ne_nil (append_eq_nil_iff.1 hrest).1

theorem csvToText_renderRows (rows : List Row)
    (hlast : terminated = false → ∀ row, rows.getLast? = some row → row.isBlank = false) :
    csvToText (renderRows terminated rows) = ['\n'].intercalate (rows.map Row.text) := by
  induction rows with
  | nil =>
    rw [csvToText.eq_def]
    rfl
  | cons row rows ih =>
    have hne := renderRows_ne_nil (cons_ne_nil row rows) hlast
    cases rows with
    | nil =>
      rw [renderRows] at hne ⊢
      have hend : atEol (if terminated then row.terminator.chars else []) = true ∧
          skipLineTerminator (if terminated then row.terminator.chars else []) = [] := by
        cases terminated with
        | true => simpa using And.intro (row.terminator.atEol []) (row.terminator.skip [])
        | false => exact ⟨rfl, rfl⟩
      rw [csvToText_row row hend.1 hend.2 hne, csvToText.eq_def]
      simp
    | cons next rows =>
      have hrest := renderRows_ne_nil (cons_ne_nil next rows) hlast
      rw [renderRows] at hne ⊢
      rw [csvToText_row row (row.terminator.atEol _) (row.terminator.skip _) hne, ih hlast,
        isEmpty_eq_false_iff.2 hrest]
      simp [intercalate_cons_cons]

/-- **`csv_to_text` reads back what is written.** -/
theorem csvToText_render (table : Table) : csvToText table.render = table.text :=
  csvToText_renderRows table.rows table.last_ok

/-- A cell that is a quote, and a last row without its terminator. -/
example :
    let table : Table := ⟨[⟨[.bare ['a'] ⟨by simp [isEol], by simp⟩, .quoted ['"']], by simp, .crlf⟩,
      ⟨[.bare ['b'] ⟨by simp [isEol], by simp⟩], by simp, .lf⟩], false, by simp [Row.isBlank, Cell.isBlank]⟩
    table.render = "a,\"\"\"\"\r\nb".toList ∧ csvToText table.render = table.text := by
  decide +kernel

end Tagsmaxxing.Text.Csv
