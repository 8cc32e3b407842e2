import Tagsmaxxing.Lib.Utf8Decode

/-! # The printable strings of a file (`binary.rs`)

`extract_strings` gathers printable bytes. At every other byte and at the end it returns what it has gathered, if
that is long enough. -/

namespace Tagsmaxxing.Binary

def printable (b : UInt8) : Bool := 0x20 ≤ b && b ≤ 0x7e

/-- What is pushed of the bytes that were gathered. -/
def flush (minLen : ℕ) (current : List UInt8) : List String :=
  if minLen ≤ current.length then [String.ofList (Utf8.decodeLossy current)] else []

/-- The loop of `extract_strings`, and the push after it. -/
def scan (minLen : ℕ) : List UInt8 → List UInt8 → List String
  | current, [] => flush minLen current
  | current, b :: bytes =>
    if printable b then scan minLen (current ++ [b]) bytes else flush minLen current ++ scan minLen [] bytes

def extractStrings (bytes : List UInt8) (minLen : ℕ) : List String :=
  if bytes.isEmpty then [] else scan minLen [] bytes

/-- The maximal runs of printable bytes, in order: each ends at a byte that is not printable, after which the next
    one starts, or at the end. Between two such bytes a run is empty. -/
inductive MaximalRuns : List UInt8 → List (List UInt8) → Prop
  | last {run : List UInt8} (h : ∀ b ∈ run, printable b = true) : MaximalRuns run [run]
  | cons {run rest : List UInt8} {b : UInt8} {runs : List (List UInt8)} (h : ∀ b ∈ run, printable b = true)
      (hb : printable b = false) (hrest : MaximalRuns rest runs) : MaximalRuns (run ++ b :: rest) (run :: runs)

/-- The runs that are long enough, as ASCII strings. -/
def strings (minLen : ℕ) (runs : List (List UInt8)) : List String :=
  (runs.filter fun run => minLen ≤ run.length).map fun run => String.ofList (run.map Utf8.asciiChar)

variable {minLen : ℕ} {current : List UInt8}

theorem strings_cons (h : ∀ b ∈ current, printable b = true) (runs : List (List UInt8)) :
    strings minLen (current :: runs) = flush minLen current ++ strings minLen runs := by
  have hascii : ∀ b ∈ current, b < 128 := by
    intro b hb
    have hle := (Bool.and_eq_true_iff.1 (h b hb)).2
    exact UInt8.lt_of_le_of_lt (of_decide_eq_true hle) (by decide)
  rw [flush, Utf8.decodeLossy_ascii hascii, strings, List.filter_cons]
  split_ifs with hlen hlen'
  all_goals simp_all [strings]

theorem scan_runs (minLen : ℕ) (h : ∀ b ∈ current, printable b = true) (rest : List UInt8) :
    ∃ runs, MaximalRuns (current ++ rest) runs ∧ scan minLen current rest = strings minLen runs := by
  fun_induction scan minLen current rest with
  | case1 current =>
    rw [List.append_nil]
    exact ⟨[current], .last h, by rw [strings_cons h]; exact (List.append_nil _).symm⟩
  | case2 current b rest hb ih =>
    rw [List.append_cons]
    exact ih (List.forall_mem_append.2 ⟨h, List.forall_mem_singleton.2 hb⟩)
  | case3 current b rest hb ih =>
    obtain ⟨runs, hruns, hscan⟩ := ih (List.forall_mem_nil _)
    exact ⟨current :: runs, .cons h (Bool.eq_false_iff.2 hb) hruns, by rw [strings_cons h, hscan]⟩

/-- `extract_strings` returns the maximal runs of at least `minLen` printable bytes. -/
theorem extractStrings_runs (bytes : List UInt8) (minLen : ℕ) (hmin : 1 ≤ minLen) :
    ∃ runs, MaximalRuns bytes runs ∧ extractStrings bytes minLen = strings minLen runs := by
  obtain ⟨runs, hruns, hscan⟩ := scan_runs minLen (List.forall_mem_nil _) bytes
  rw [extractStrings]
  split_ifs with hempty
  · rw [List.isEmpty_iff.1 hempty]
    refine ⟨[[]], .last (List.forall_mem_nil _), ?_⟩
    rw [strings, List.filter_cons_of_neg (by simpa using Nat.ne_of_gt hmin)]
    rfl
  · exact ⟨runs, hruns, hscan⟩

theorem extractStrings_runs_hi : ∃ runs, MaximalRuns [0x68, 0x69, 0, 0x21, 7, 0x6f, 0x6b] runs ∧
    strings 2 runs = ["hi", "ok"] := by
  obtain ⟨runs, hruns, h⟩ := extractStrings_runs [0x68, 0x69, 0, 0x21, 7, 0x6f, 0x6b] 2 (by decide)
  exact ⟨runs, hruns, h.symm.trans (by decide +kernel)⟩

end Tagsmaxxing.Binary
