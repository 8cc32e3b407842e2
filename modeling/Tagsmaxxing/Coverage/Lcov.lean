import Tagsmaxxing.Core.Json
import Tagsmaxxing.Pipeline.DocumentBuilder

/-! # Reading a coverage report (`lcov.rs`)

A record is opened by its path and closed by `end_of_record`, by the next path or by the end of the text. -/

namespace Tagsmaxxing.Lcov

open List

structure FileCov where
  path : List Char
  linesFound : UInt64
  linesHit : UInt64
deriving DecidableEq

def stripCr (line : List Char) : List Char := if line.getLast? = some '\r' then line.dropLast else line

/-- `str::lines`. -/
def lines (text : List Char) : List (List Char) :=
  let pieces := text.splitOn '\n'
  pieces.dropLast.map stripCr ++ pieces.getLast?.toList.filter fun line => !line.isEmpty

/-- `str::parse::<u64>`: an optional sign, digits, and no overflow. -/
def parseU64 (cs : List Char) : Option UInt64 :=
  let value := match cs with
    | '+' :: cs => parseDigits cs
    | cs => parseDigits cs
  (value.filter (· < 2 ^ 64)).map UInt64.ofNat

/-- The records that are closed, and the open one. -/
abbrev State := List FileCov × Option FileCov

/-- The body of the loop of `parse_lcov`, for a trimmed line. -/
def step (s : State) (line : List Char) : State :=
  match line.dropPrefix? ['S', 'F', ':'] with
  | some path => (s.1 ++ s.2.toList, some ⟨trim path, 0, 0⟩)
  | none =>
    match line.dropPrefix? ['L', 'F', ':'] with
    | some v => (s.1, s.2.map fun f => { f with linesFound := (parseU64 (trim v)).getD 0 })
    | none =>
      match line.dropPrefix? ['L', 'H', ':'] with
      | some v => (s.1, s.2.map fun f => { f with linesHit := (parseU64 (trim v)).getD 0 })
      | none => if line = "end_of_record".toList then (s.1 ++ s.2.toList, none) else s

def parseLcov (text : List Char) : List FileCov :=
  let s := ((lines text).map trim).foldl step ([], none)
  s.1 ++ s.2.toList

/-! ## Printing -/

/-- A line that is not part of a record. -/
def other (raw : List Char) : Bool :=
  ([['S', 'F', ':'], ['L', 'F', ':'], ['L', 'H', ':']].all fun tag => ((trim raw).dropPrefix? tag).isNone) &&
    trim raw != "end_of_record".toList

def digits (n : UInt64) : List Char := (toString n.toNat).toList

/-- The lines of a record, with whether `end_of_record` is one of them. -/
def printRecord (r : FileCov × Bool) : List (List Char) :=
  ['S' :: 'F' :: ':' :: r.1.path, 'L' :: 'F' :: ':' :: digits r.1.linesFound,
    'L' :: 'H' :: ':' :: digits r.1.linesHit] ++ if r.2 then ["end_of_record".toList] else []

def print (ls : List (List Char)) : List Char := ls.flatMap (· ++ ['\n'])

/-! ## Numbers -/

section

variable {n : UInt64}

theorem foldl_digits {cs : List Char} (h : ∀ c ∈ cs, c.isDigit = true) (n : ℕ) :
    cs.foldl (fun acc c => acc.bind fun n => (digitValue c).map fun d => 10 * n + d) (some n) =
      some (Nat.ofDigitChars 10 cs n) := by
  induction cs generalizing n with
  | nil => rfl
  | cons c cs ih =>
    obtain ⟨hc, hcs⟩ := forall_mem_cons.1 h
    rw [foldl_cons, Option.bind_some, digitValue, if_pos hc, Option.map_some, ih hcs, Nat.ofDigitChars_cons]
    rfl

theorem digits_eq (n : UInt64) : digits n = Nat.toDigits 10 n.toNat := by
  rw [digits, Nat.toString_eq_repr, Nat.toList_repr]

theorem isDigit_of_mem_digits {c : Char} (h : c ∈ digits n) : c.isDigit = true :=
  Nat.isDigit_of_mem_toDigits (by decide) (by decide) (digits_eq n ▸ h)

@[simp] theorem parseU64_digits : parseU64 (digits n) = some n := by
  have hdigits : parseDigits (digits n) = some n.toNat := by
    rw [parseDigits, foldl_digits fun c => isDigit_of_mem_digits, digits_eq,
      Nat.ofDigitChars_toDigits (by decide) (by decide), if_neg]
    simp
  rw [parseU64, hdigits]
  · simp [Option.filter, n.toNat_lt]
  · intro cs hcs
    exact absurd (isDigit_of_mem_digits (hcs ▸ mem_cons_self)) (by decide)

@[simp] theorem trim_digits : trim (digits n) = digits n := by
  have hdigit : ∀ c ∈ digits n, ¬ isWhitespace c := by
    intro c hc
    have hrange : 48 ≤ c.toNat ∧ c.toNat ≤ 57 := by
      simpa [Char.isDigit, UInt32.le_iff_toNat_le] using isDigit_of_mem_digits hc
    simp [isWhitespace]
    omega
  rw [trim, dropWhile_eq_self_iff.2 fun h => hdigit _ (getElem_mem _)]
  exact rdropWhile_eq_self_iff.2 fun h => hdigit _ (getLast_mem h)

end

/-! ## Lines -/

@[simp] theorem trim_field {a b : Char} {value : List Char} (ha : isWhitespace a = false)
    (hvalue : trim value = value) : trim (a :: b :: ':' :: value) = a :: b :: ':' :: value := by
  have hend : value.rdropWhile isWhitespace = value := by
    rw [← hvalue]
    exact rdropWhile_idempotent isWhitespace (value.dropWhile isWhitespace)
  rw [trim, dropWhile_cons_of_neg (by simp [ha])]
  refine rdropWhile_eq_self_iff.2 fun _ => ?_
  cases value with
  | nil => exact Bool.false_ne_true
  | cons c cs => exact rdropWhile_eq_self_iff.1 hend (cons_ne_nil c cs)

@[simp] theorem dropPrefix?_field (a b a' b' : Char) (value : List Char) :
    (a :: b :: ':' :: value).dropPrefix? [a', b', ':'] = if a = a' ∧ b = b' then some value else none := by
  by_cases ha : a = a' <;> by_cases hb : b = b' <;> simp [dropPrefix?, ha, hb]

theorem trim_stripCr (l : List Char) : trim (stripCr l) = trim l := by
  rw [stripCr]
  split_ifs with hcr
  · obtain ⟨l, rfl⟩ := getLast?_eq_some_iff.1 hcr
    rw [dropLast_concat, trim, trim, dropWhile_append]
    split_ifs with hempty
    · rw [List.isEmpty_iff.1 hempty]
      rfl
    · rw [reverse_concat]
      rfl
  · rfl

section

variable {ls : List (List Char)} (hline : ∀ l ∈ ls, '\n' ∉ l)

include hline

theorem splitOn_print : (print ls).splitOn '\n' = ls ++ [[]] := by
  induction ls with
  | nil => rfl
  | cons l ls ih =>
    obtain ⟨hl, hls⟩ := forall_mem_cons.1 hline
    rw [cons_append, ← ih hls, print, flatMap_cons, append_assoc]
    exact splitOnP_append_cons_of_forall_mem (by simpa using fun c hc (hc' : c = '\n') => hl (hc' ▸ hc)) _ rfl _

theorem map_trim_lines_print : (lines (print ls)).map trim = ls.map trim := by
  have hlines : lines (print ls) = ls.map stripCr := by
    rw [lines, splitOn_print hline]
    simp
  rw [hlines, map_map]
  exact map_congr_left fun l _ => trim_stripCr l

end

/-! ## Records -/

variable (s : State)

theorem step_other {raw : List Char} (h : other raw = true) : step s (trim raw) = s := by
  simp only [other, all_cons, all_nil, Bool.and_true, Bool.and_eq_true, Option.isNone_iff_eq_none, bne_iff_ne] at h
  obtain ⟨⟨hsf, hlf, hlh⟩, hend⟩ := h
  simp only [step, hsf, hlf, hlh, if_neg hend]

/-- A record closes the one before it. -/
theorem foldl_printRecord (r : FileCov × Bool) (hpath : trim r.1.path = r.1.path) :
    ((printRecord r).map trim).foldl step s =
      if r.2 then (s.1 ++ s.2.toList ++ [r.1], none) else (s.1 ++ s.2.toList, some r.1) := by
  obtain ⟨r, closed⟩ := r
  have hS : isWhitespace 'S' = false := rfl
  have hL : isWhitespace 'L' = false := rfl
  have hopen : ((printRecord (r, false)).map trim).foldl step s = (s.1 ++ s.2.toList, some r) := by
    simp [printRecord, step, hpath, hS, hL]
  cases closed with
  | false => exact hopen
  | true =>
    have hclose : printRecord (r, true) = printRecord (r, false) ++ ["end_of_record".toList] := rfl
    rw [hclose, map_append, foldl_append, hopen]
    rfl

theorem foldl_records (records : List (FileCov × Bool)) (hpath : ∀ r ∈ records, trim r.1.path = r.1.path) :
    let s' := ((records.flatMap printRecord).map trim).foldl step s
    s'.1 ++ s'.2.toList = s.1 ++ s.2.toList ++ records.map Prod.fst := by
  induction records generalizing s with
  | nil => exact (append_nil _).symm
  | cons r records ih =>
    obtain ⟨hr, hrecords⟩ := forall_mem_cons.1 hpath
    rw [flatMap_cons, map_append, foldl_append, foldl_printRecord s r hr]
    refine (ih _ hrecords).trans ?_
    split_ifs
    all_goals simp

/-- What is printed is read again: `ls` are the lines of the records with other lines anywhere. -/
theorem parseLcov_print (records : List (FileCov × Bool)) (ls : List (List Char))
    (hpath : ∀ r ∈ records, trim r.1.path = r.1.path) (hline : ∀ l ∈ ls, '\n' ∉ l)
    (hls : ls.filter (fun l => !other l) = records.flatMap printRecord) :
    parseLcov (print ls) = records.map Prod.fst := by
  have hskip (s : State) : (ls.map trim).foldl step s = ((records.flatMap printRecord).map trim).foldl step s := by
    rw [← hls, foldl_map, foldl_map, foldl_filter]
    refine congrArg (foldl · s ls) (funext fun s => funext fun l => ?_)
    cases hl : other l with
    | true => exact step_other s hl
    | false => rfl
  rw [parseLcov, map_trim_lines_print hline, hskip]
  exact foldl_records _ records hpath

theorem parseLcov_print_two :
    parseLcov "TN:\nSF:a b\nLF:12\nDA:1,1\nLH:3\nSF:c\nLF:0\nLH:0\n end\nend_of_record\n".toList =
      [⟨['a', ' ', 'b'], 12, 3⟩, ⟨['c'], 0, 0⟩] :=
  parseLcov_print [(⟨['a', ' ', 'b'], 12, 3⟩, false), (⟨['c'], 0, 0⟩, true)]
    (["TN:", "SF:a b", "LF:12", "DA:1,1", "LH:3", "SF:c", "LF:0", "LH:0", " end", "end_of_record"].map String.toList)
    (by decide +kernel) (by decide +kernel) (by decide +kernel)

end Tagsmaxxing.Lcov
