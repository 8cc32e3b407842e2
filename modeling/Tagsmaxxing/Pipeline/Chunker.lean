import Mathlib.Data.List.Forall2
import Tagsmaxxing.Lib.Utf8

/-! # The text chunker (`chunker.rs`)

`chunk_text` walks a text in byte steps. Each round snaps the end of the window *back* to a character boundary, emits
the slice, and snaps the next start *forward* to a boundary, by at most three bytes. With an overlap of at least that
the slices tile the text (`chunkSpans_tiling`); without any, a character between two windows is in neither
(`chunkText_partition_iff`). A window that ends at the same boundary as the last one repeats a part of it
(`chunkText_not_redundant_iff`).

`usize` arithmetic wraps at `2^64`; `start_byte + chunk_size` can reach it only when the first slice was already the
whole text. `idx` is an `i32` and wraps as well: `chunkText_coverage_iff` says that the documented indices are right
exactly for the texts the scan gets through in `2^31` steps. -/

namespace Tagsmaxxing.Chunker

open List Utf8
open String (utf8Len)

/-! ## The code -/

/-- A `&str`: Rust allocates at most `isize::MAX` bytes. -/
structure Str where
  chars : List Char
  fits : utf8Len chars < 2 ^ 63

def Str.len (text : Str) : ℕ := utf8Len text.chars

structure TextChunk where
  content : List Char
  idx : Int32
  pageNo : Option Int32
  fileId : Int
  tsOffset : Option Float

/-- The window of a scan that has passed the `assert!`. -/
structure Window where
  chunkSize : ℕ
  overlap : ℕ
  lt : overlap < chunkSize
  usize : chunkSize < 2 ^ 64

/-- `chunk_size.saturating_sub(overlap)`. -/
def Window.step (w : Window) : ℕ := w.chunkSize - w.overlap

/-- `while end > start_byte && !text.is_char_boundary(end) { end -= 1; }`. -/
def snapEnd (text : Str) (start : ℕ) : ℕ → ℕ
  | 0 => 0
  | e + 1 =>
      if start < e + 1 && !isBoundary text.chars (e + 1) then snapEnd text start e else e + 1

/-- `while next_start < text.len() && !text.is_char_boundary(next_start) { next_start += 1; }`. -/
def snapStart (text : Str) (n : ℕ) : ℕ :=
  if n < text.len ∧ isBoundary text.chars n = false then snapStart text (n + 1) else n
termination_by text.len - n

theorem le_snapStart (text : Str) (n : ℕ) : n ≤ snapStart text n := by
  fun_induction snapStart text n with
  | case1 n h ih => omega
  | case2 n h => exact le_refl n

theorem snapEnd_le (text : Str) (start e : ℕ) : snapEnd text start e ≤ e := by
  induction e with
  | zero => exact le_refl 0
  | succ e ih =>
    unfold snapEnd
    split
    · omega
    · exact le_refl _

/-- The end of the chunk at `start`. -/
abbrev Window.stop (w : Window) (text : Str) (start : ℕ) : ℕ :=
  snapEnd text start (min ((start + w.chunkSize) % 2 ^ 64) text.len)

/-- A round that emits a chunk moves the start ahead: the window did not wrap, so neither does the
    step. -/
theorem lt_snapStart (text : Str) (w : Window) {start : ℕ} (hlt : start < text.len) (h : start < w.stop text start) :
    start < snapStart text ((start + w.step) % 2 ^ 64) := by
  have hle : w.stop text start ≤ _ := snapEnd_le text start _
  have hnext := le_snapStart text ((start + w.step) % 2 ^ 64)
  have hlen : text.len < 2 ^ 63 := text.fits
  have hw := w.lt
  have hu := w.usize
  have hstep : w.step = w.chunkSize - w.overlap := rfl
  omega

/-- The `while` loop of `chunk_text`. -/
def chunkLoop (text : Str) (fileId : Int) (pageNo : Option Int32) (tsOffset : Option Float)
    (w : Window) (start : ℕ) (idx : Int32) : List TextChunk :=
  if start < text.len then
    let endByte := min ((start + w.chunkSize) % 2 ^ 64) text.len
    let stop := snapEnd text start endByte
    if stop ≤ start then []
    else
      { content := slice text.chars start stop, idx := idx, pageNo := pageNo, fileId := fileId,
        tsOffset := tsOffset } ::
        chunkLoop text fileId pageNo tsOffset w (snapStart text ((start + w.step) % 2 ^ 64)) (idx + 1)
  else []
termination_by text.len - start
decreasing_by
  rename_i hlt hstop
  exact Nat.sub_lt_sub_left hlt (lt_snapStart text w hlt (Nat.lt_of_not_le hstop))

/-- The byte ranges of the chunks of `chunkLoop`. -/
def chunkSpans (text : Str) (w : Window) (start : ℕ) : List (ℕ × ℕ) :=
  if start < text.len then
    let stop := snapEnd text start (min ((start + w.chunkSize) % 2 ^ 64) text.len)
    if stop ≤ start then []
    else (start, stop) :: chunkSpans text w (snapStart text ((start + w.step) % 2 ^ 64))
  else []
termination_by text.len - start
decreasing_by
  rename_i hlt hstop
  exact Nat.sub_lt_sub_left hlt (lt_snapStart text w hlt (Nat.lt_of_not_le hstop))

/-- `chunk_text`. A failed `assert!` is an error. -/
def chunkText (text : Str) (fileId : Int) (pageNo : Option Int32) (tsOffset : Option Float)
    (chunkSize overlap : UInt64) : Except String (List TextChunk) :=
  if h : overlap < chunkSize then
    if text.chars.isEmpty then .ok []
    else .ok (chunkLoop text fileId pageNo tsOffset
      ⟨chunkSize.toNat, overlap.toNat, UInt64.lt_iff_toNat_lt.1 h, chunkSize.toNat_lt⟩ 0 0)
  else
    .error ("chunk_size (" ++ toString chunkSize ++ ") must be greater than overlap (" ++
      toString overlap ++ ")")

/-- The filter of `dedup_identical_chunks`, with the set of contents it has seen. -/
def dedupLoop (seen : List (List Char)) : List TextChunk → List TextChunk
  | [] => []
  | c :: cs =>
      if c.content ∈ seen then dedupLoop seen cs else c :: dedupLoop (c.content :: seen) cs

def dedupIdenticalChunks (chunks : List TextChunk) : List TextChunk := dedupLoop [] chunks

/-! ## Snapping to boundaries -/

variable {text : Str} {n chunkSize : ℕ}

/-- Snapping back stops at the last boundary that is not before `start`. -/
theorem snapEnd_spec {start e : ℕ} (hs : isBoundary text.chars start = true) (hse : start ≤ e) :
    start ≤ snapEnd text start e ∧ isBoundary text.chars (snapEnd text start e) = true ∧
      ∀ b, isBoundary text.chars b = true → b ≤ e → b ≤ snapEnd text start e := by
  induction e with
  | zero =>
    obtain rfl : start = 0 := Nat.le_zero.1 hse
    exact ⟨le_refl 0, hs, fun b _ hb => hb⟩
  | succ e ih =>
    unfold snapEnd
    split
    next hcond =>
      simp only [Bool.and_eq_true, decide_eq_true_eq, Bool.not_eq_true'] at hcond
      obtain ⟨h₁, h₂, h₃⟩ := ih (by omega)
      refine ⟨h₁, h₂, fun b hb hbe => h₃ b hb ?_⟩
      have hne : b ≠ e + 1 := by
        rintro rfl
        exact absurd (hb.symm.trans hcond.2) (by simp)
      omega
    next hcond =>
      simp only [Bool.and_eq_true, decide_eq_true_eq, Bool.not_eq_true', not_and, Bool.not_eq_false] at hcond
      refine ⟨hse, ?_, fun b _ hb => hb⟩
      rcases Nat.lt_or_ge start (e + 1) with hlt | hge
      · exact hcond hlt
      · rwa [Nat.le_antisymm hge hse]

/-- Snapping forward from inside the text stops at a boundary at most three bytes ahead. -/
theorem snapStart_spec (hn : n < text.len) :
    isBoundary text.chars (snapStart text n) = true ∧ snapStart text n ≤ n + 3 := by
  obtain ⟨b, hnb, hbn, hb⟩ := exists_boundary_ge text.chars (le_of_lt hn)
  have hblen := le_utf8Len_of_isBoundary hb
  -- the loop cannot pass the boundary `b`
  have aux : ∀ m, m ≤ b → isBoundary text.chars (snapStart text m) = true ∧ snapStart text m ≤ b := by
    intro m
    fun_induction snapStart text m with
    | case1 m h ih =>
      intro hm
      have hne : m ≠ b := by
        rintro rfl
        exact absurd (hb.symm.trans h.2) (by simp)
      exact ih (by omega)
    | case2 m h =>
      intro hm
      refine ⟨?_, hm⟩
      rcases Nat.lt_or_ge m text.len with hlt | hge
      · simpa [hlt] using h
      · rwa [Nat.le_antisymm hm (le_trans hblen hge)]
  exact ⟨(aux n hnb).1, le_trans (aux n hnb).2 hbn⟩

/-! ## One round of the loop -/

/-- Where the scan starts its next round, when nothing wraps. -/
def advance (text : Str) (w : Window) (start : ℕ) : ℕ := snapStart text (start + w.step)

/-- The window starting at `start` wraps or lies past the text. -/
def PastEnd (text : Str) (w : Window) (start : ℕ) : Prop :=
  text.len ≤ start ∨ 2 ^ 64 ≤ start + w.chunkSize

theorem lt_of_not_pastEnd {w : Window} {start : ℕ} (h : ¬ PastEnd text w start) : start < text.len := by
  unfold PastEnd at h
  omega

section Loop

variable {text : Str} {w : Window} (fileId : Int) (pageNo : Option Int32) (tsOffset : Option Float)

theorem lt_advance (text : Str) (w : Window) (start : ℕ) : start < advance text w start := by
  have h := le_snapStart text (start + w.step)
  have hw := w.lt
  unfold advance Window.step at *
  omega

theorem le_iterate_advance (text : Str) (w : Window) (n start : ℕ) :
    start + n * w.step ≤ (advance text w)^[n] start := by
  induction n generalizing start with
  | zero => simp
  | succ n ih =>
    rw [Function.iterate_succ_apply]
    have h₁ : start + w.step ≤ advance text w start := le_snapStart text _
    have h₂ := ih (advance text w start)
    rw [Nat.add_mul, Nat.one_mul]
    omega

variable {start : ℕ}

/-- The range of a chunk: from the start of a window to its last boundary. -/
structure Round (text : Str) (w : Window) (p : ℕ × ℕ) : Prop where
  fits : p.1 + w.chunkSize < 2 ^ 64
  start : isBoundary text.chars p.1 = true
  stop : isBoundary text.chars p.2 = true
  lt : p.1 < p.2
  le : p.2 ≤ p.1 + w.chunkSize
  last : ∀ b, isBoundary text.chars b = true → b ≤ p.1 + w.chunkSize → b ≤ p.2

theorem round (hlt : start < text.len) (hb : isBoundary text.chars start = true)
    (h : ¬ w.stop text start ≤ start) : Round text w (start, w.stop text start) := by
  unfold Window.stop at *
  have hle := snapEnd_le text start (min ((start + w.chunkSize) % 2 ^ 64) text.len)
  have hlen : text.len < 2 ^ 63 := text.fits
  have hu := w.usize
  have hfits : start + w.chunkSize < 2 ^ 64 := by omega
  rw [Nat.mod_eq_of_lt hfits] at h hle ⊢
  obtain ⟨-, hstop, hlast⟩ := snapEnd_spec (e := min (start + w.chunkSize) text.len) hb (by omega)
  exact ⟨hfits, hb, hstop, by omega, by omega,
    fun b hbb hbe => hlast b hbb (le_min hbe (le_utf8Len_of_isBoundary hbb))⟩

theorem Round.next {p : ℕ × ℕ} (h : Round text w p) :
    snapStart text ((p.1 + w.step) % 2 ^ 64) = advance text w p.1 := by
  have hle : w.step ≤ w.chunkSize := Nat.sub_le _ _
  have hfits := h.fits
  rw [Nat.mod_eq_of_lt (by omega), advance]

theorem isBoundary_advance (h : advance text w start < text.len) :
    isBoundary text.chars (advance text w start) = true :=
  (snapStart_spec (lt_of_le_of_lt (le_snapStart text _) h)).1

theorem chunkSpans_pastEnd (h : PastEnd text w start) : chunkSpans text w start = [] := by
  rw [chunkSpans]
  split
  next hlt =>
    have hwrap : 2 ^ 64 ≤ start + w.chunkSize := h.resolve_left (by omega)
    have hlen : text.len < 2 ^ 63 := text.fits
    have hu := w.usize
    exact if_pos ((snapEnd_le text start _).trans (by omega))
  · rfl

/-- A window of four bytes, or one that reaches the end, holds a whole character: the round emits a slice. -/
theorem chunkSpans_round (hw : 4 ≤ w.chunkSize ∨ text.len ≤ start + w.chunkSize)
    (hb : isBoundary text.chars start = true) (h : ¬ PastEnd text w start) :
    ∃ stop, Round text w (start, stop) ∧
      chunkSpans text w start = (start, stop) :: chunkSpans text w (advance text w start) := by
  have hlt := lt_of_not_pastEnd h
  unfold PastEnd at h
  have hstop : ¬ w.stop text start ≤ start := by
    rw [Window.stop, Nat.mod_eq_of_lt (by omega)]
    obtain ⟨-, -, hlast⟩ := snapEnd_spec (e := min (start + w.chunkSize) text.len) hb (by omega)
    obtain ⟨b, hbe, heb, hbb⟩ := exists_boundary_le text.chars (Nat.min_le_right (start + w.chunkSize) text.len)
    have hle := hlast b hbb hbe
    have hend := hlast text.len (isBoundary_utf8Len text.chars)
    omega
  have hround := round hlt hb hstop
  refine ⟨_, hround, ?_⟩
  rw [chunkSpans, if_pos hlt, if_neg hstop, hround.next]

theorem mem_chunkSpans (hb : start < text.len → isBoundary text.chars start = true) :
    ∀ p ∈ chunkSpans text w start, start ≤ p.1 ∧ Round text w p := by
  fun_induction chunkSpans text w start with
  | case1 | case3 => simp
  | case2 start hlt stop hstop ih =>
    have hround := round hlt (hb hlt) hstop
    rw [hround.next] at ih ⊢
    have hmove := lt_advance text w start
    exact forall_mem_cons.2 ⟨⟨le_refl _, hround⟩, fun p hp =>
      ⟨le_trans (le_of_lt hmove) (ih isBoundary_advance p hp).1, (ih isBoundary_advance p hp).2⟩⟩

theorem Round.advance_le (h3 : 3 ≤ w.overlap) {stop : ℕ} (h : Round text w (start, stop))
    (hnext : advance text w start < text.len) : advance text w start ≤ stop := by
  have hw := w.lt
  have hle := (snapStart_spec (lt_of_le_of_lt (le_snapStart text _) hnext)).2
  refine h.last _ (isBoundary_advance hnext) ?_
  unfold advance Window.step at *
  omega

/-- If the scan ends after a round, that round reached the end of the text. -/
theorem Round.stop_eq_len (h3 : 3 ≤ w.overlap) {stop : ℕ} (h : Round text w (start, stop))
    (hpast : PastEnd text w (advance text w start)) : stop = text.len := by
  have hw := w.lt
  have hlen : text.len < 2 ^ 63 := text.fits
  refine Nat.le_antisymm (le_utf8Len_of_isBoundary h.stop) (h.last _ (isBoundary_utf8Len text.chars) ?_)
  by_contra hl
  have hin : start + w.step < text.len := by
    unfold Window.step
    omega
  have hle := (snapStart_spec hin).2
  unfold PastEnd advance at hpast
  unfold Window.step at *
  omega

/-! ## The slices tile the text -/

/-- The byte ranges `spans` tile the text from `start` on, overlapping or touching. -/
structure Tiling (text : Str) (chunkSize start : ℕ) (spans : List (ℕ × ℕ)) : Prop where
  boundaries : ∀ p ∈ spans, isBoundary text.chars p.1 = true ∧ isBoundary text.chars p.2 = true ∧
    p.1 < p.2 ∧ p.2 - p.1 ≤ chunkSize
  chain : spans.IsChain fun p q => p.1 < q.1 ∧ q.1 ≤ p.2
  first : spans.head?.map Prod.fst = some start
  last : spans.getLast?.map Prod.snd = some text.len

/-- The chunk is the part `text[p.1..p.2]` of the text. -/
def IsSlice (text : Str) (c : TextChunk) (p : ℕ × ℕ) : Prop :=
  ∃ a b, text.chars = a ++ c.content ++ b ∧ utf8Len a = p.1 ∧ utf8Len (a ++ c.content) = p.2

/-- Every byte from `start` on lies in some range. -/
theorem Tiling.covers {spans : List (ℕ × ℕ)}
    (h : Tiling text chunkSize start spans) {i : ℕ} (hi : start ≤ i) (hlt : i < text.len) :
    ∃ p ∈ spans, p.1 ≤ i ∧ i < p.2 := by
  induction spans generalizing start with
  | nil => exact absurd h.first (by simp)
  | cons p rest ih =>
    have hp : p.1 = start := by simpa using h.first
    by_cases hip : i < p.2
    · exact ⟨p, mem_cons_self, by omega, hip⟩
    · cases rest with
      | nil =>
        have : p.2 = text.len := by simpa using h.last
        omega
      | cons q rest =>
        -- the next range starts inside `p`, so `i` is still ahead of it
        have hchain := isChain_cons_cons.1 h.chain
        have hq : Tiling text chunkSize q.1 (q :: rest) :=
          ⟨fun x hx => h.boundaries x (mem_cons_of_mem _ hx), hchain.2, rfl,
            by simpa using h.last⟩
        obtain ⟨x, hx, hxi⟩ := ih hq (by omega)
        exact ⟨x, mem_cons_of_mem _ hx, hxi⟩

theorem chunkLoop_slices (hb : start < text.len → isBoundary text.chars start = true) (idx : Int32) :
    List.Forall₂ (IsSlice text) (chunkLoop text fileId pageNo tsOffset w start idx) (chunkSpans text w start) := by
  fun_induction chunkSpans text w start generalizing idx with
  | case1 start hlt stop hstop =>
    rw [chunkLoop, if_pos hlt, if_pos hstop]
    exact .nil
  | case2 start hlt stop hstop ih =>
    have hround := round hlt (hb hlt) hstop
    rw [chunkLoop, if_pos hlt, if_neg hstop]
    refine .cons (slice_spec hround.start hround.stop (le_of_lt hround.lt)) (ih ?_ _)
    rw [hround.next]
    exact isBoundary_advance
  | case3 start hlt =>
    rw [chunkLoop, if_neg hlt]
    exact .nil

/-- **The loop tiles.** From a boundary inside the text, the ranges tile it. -/
theorem chunkSpans_tiling (h3 : 3 ≤ w.overlap) (hb : isBoundary text.chars start = true)
    (h : ¬ PastEnd text w start) : Tiling text w.chunkSize start (chunkSpans text w start) := by
  have hbounds : ∀ p ∈ chunkSpans text w start, isBoundary text.chars p.1 = true ∧ isBoundary text.chars p.2 = true ∧
      p.1 < p.2 ∧ p.2 - p.1 ≤ w.chunkSize := by
    intro p hp
    have hround := (mem_chunkSpans (fun _ => hb) p hp).2
    exact ⟨hround.start, hround.stop, hround.lt, Nat.sub_le_of_le_add (Nat.add_comm _ _ ▸ hround.le)⟩
  -- induction on what is left of the text
  induction hn : text.len - start using Nat.strong_induction_on generalizing start with
  | _ n ih =>
    obtain ⟨stop, hround, heq⟩ := chunkSpans_round (.inl (lt_of_le_of_lt h3 w.lt)) hb h
    rw [heq] at hbounds ⊢
    by_cases hpast : PastEnd text w (advance text w start)
    · -- the last round
      rw [chunkSpans_pastEnd hpast] at hbounds ⊢
      exact ⟨hbounds, List.IsChain.singleton _, rfl, by simp [hround.stop_eq_len h3 hpast]⟩
    · have hin := lt_of_not_pastEnd hpast
      have hmove := lt_advance text w start
      have ht := ih (text.len - advance text w start) (by omega) (isBoundary_advance hin) hpast
        (fun p hp => hbounds p (mem_cons_of_mem _ hp)) rfl
      cases hs : chunkSpans text w (advance text w start) with
      | nil => exact absurd (hs ▸ ht.first) (by simp)
      | cons q rest =>
        rw [hs] at hbounds ht
        have hq : q.1 = advance text w start := by simpa using ht.first
        exact ⟨hbounds, isChain_cons_cons.2 ⟨⟨hq ▸ hmove, hq ▸ hround.advance_le h3 hin⟩, ht.chain⟩, rfl,
          by simpa using ht.last⟩

/-! ## Indices -/

theorem idx_chunkLoop (start : ℕ) (idx : Int32) (k : ℕ) (c : TextChunk)
    (h : (chunkLoop text fileId pageNo tsOffset w start idx)[k]? = some c) :
    c.idx = idx + Int32.ofNat k := by
  fun_induction chunkLoop text fileId pageNo tsOffset w start idx generalizing k with
  | case1 => cases h
  | case2 start idx hlt endByte stop hstop ih =>
    cases k with
    | zero =>
      cases h
      simp
    | succ k =>
      rw [ih k h, Int32.ofNat_add, Int32.add_assoc, Int32.add_comm 1]
      rfl
  | case3 => cases h

/-- How many chunks there are, in terms of how far the scan gets. -/
theorem length_chunkSpans_le_iff (h4 : 4 ≤ w.chunkSize) (n : ℕ)
    (hb : start < text.len → isBoundary text.chars start = true) :
    (chunkSpans text w start).length ≤ n ↔ PastEnd text w ((advance text w)^[n] start) := by
  induction n generalizing start with
  | zero =>
    by_cases hpast : PastEnd text w start
    · simp [chunkSpans_pastEnd hpast, hpast]
    · obtain ⟨stop, -, heq⟩ := chunkSpans_round (.inl h4) (hb (lt_of_not_pastEnd hpast)) hpast
      simp [heq, hpast]
  | succ n ih =>
    rw [Function.iterate_succ_apply]
    by_cases hpast : PastEnd text w start
    · rw [chunkSpans_pastEnd hpast]
      refine ⟨fun _ => ?_, fun _ => Nat.zero_le _⟩
      -- past the end, the scan stays past the end
      have := le_iterate_advance text w n (advance text w start)
      have := lt_advance text w start
      unfold PastEnd at *
      omega
    · obtain ⟨stop, -, heq⟩ := chunkSpans_round (.inl h4) (hb (lt_of_not_pastEnd hpast)) hpast
      rw [heq, length_cons, Nat.add_le_add_iff_right]
      exact ih isBoundary_advance

/-! ## Deduplication -/

section

variable (seen : List (List Char)) (l : List TextChunk)

include seen l

theorem dedupLoop_sublist :
    (dedupLoop seen l).Sublist l := by
  induction l generalizing seen with
  | nil => exact .slnil
  | cons c cs ih =>
    unfold dedupLoop
    split
    · exact (ih seen).cons c
    · exact (ih _).cons_cons c

theorem dedupLoop_find? (x : List Char) :
    (dedupLoop seen l).find? (fun c => c.content == x) =
      if x ∈ seen then none else l.find? (fun c => c.content == x) := by
  induction l generalizing seen with
  | nil => simp [dedupLoop]
  | cons c cs ih =>
    unfold dedupLoop
    by_cases hx : c.content = x
    · subst hx
      split <;> simp_all
    · have hb : (c.content == x) = false := by simpa using hx
      have hne : ¬ x = c.content := fun h => hx h.symm
      split <;> simp [hb, ih, hne]

theorem dedupLoop_nodup :
    ((dedupLoop seen l).map TextChunk.content).Nodup ∧
      ∀ c ∈ dedupLoop seen l, c.content ∉ seen := by
  induction l generalizing seen with
  | nil => simp [dedupLoop]
  | cons c cs ih =>
    unfold dedupLoop
    split
    · exact ih seen
    next hc =>
      obtain ⟨hn, hs⟩ := ih (c.content :: seen)
      simp only [mem_cons, not_or] at hs
      constructor
      · rw [map_cons, nodup_cons]
        refine ⟨?_, hn⟩
        rw [mem_map]
        rintro ⟨d, hd, heq⟩
        exact (hs d hd).1 heq
      · exact forall_mem_cons.2 ⟨hc, fun d hd => (hs d hd).2⟩

end

/-! ## The chunker's contract -/

/-- What callers rely on: the chunks are consecutive, overlapping or touching slices that cover the
    text, numbered from zero, and deduplication keeps the first chunk of each content in order. -/
structure Coverage (text : Str) (chunkSize : ℕ) (chunks : List TextChunk) : Prop where
  empty : text.chars = [] → chunks = []
  slices : text.chars ≠ [] → ∃ spans, Tiling text chunkSize 0 spans ∧
    List.Forall₂ (IsSlice text) chunks spans ∧
    ∀ i < text.len, ∃ p ∈ spans, p.1 ≤ i ∧ i < p.2
  idx : ∀ (k : ℕ) c, chunks[k]? = some c → c.idx.toInt = k
  dedup_first : ∀ x, (dedupIdenticalChunks chunks).find? (fun c => c.content == x) =
    chunks.find? (fun c => c.content == x)
  dedup_once : ((dedupIdenticalChunks chunks).map TextChunk.content).Nodup
  dedup_kept : (dedupIdenticalChunks chunks).Sublist chunks
  dedup_idx : (dedupIdenticalChunks chunks).Pairwise fun a b => a.idx < b.idx

/-- The scan is past the text, or past the address space, after at most `2^31` rounds. -/
def ScanFits (text : Str) (chunkSize overlap : ℕ) (h : overlap < chunkSize) (hu : chunkSize < 2 ^ 64) : Prop :=
  PastEnd text ⟨chunkSize, overlap, h, hu⟩ ((advance text ⟨chunkSize, overlap, h, hu⟩)^[2 ^ 31] 0)

/-- The loop meets the contract exactly when it emits at most `2^31` chunks. -/
theorem chunkLoop_coverage_iff (h6 : 6 ≤ w.overlap) (hne : text.chars ≠ []) :
    Coverage text w.chunkSize (chunkLoop text fileId pageNo tsOffset w 0 0) ↔
      PastEnd text w ((advance text w)^[2 ^ 31] 0) := by
  have hlen : 0 < text.len := Nat.pos_of_ne_zero fun h => hne (String.utf8Len_eq_zero.1 h)
  have hzero : 0 < text.len → isBoundary text.chars 0 = true := fun _ => isBoundary_zero _
  have hslices := chunkLoop_slices (w := w) fileId pageNo tsOffset hzero 0
  rw [← length_chunkSpans_le_iff (by have := w.lt; omega) (2 ^ 31) hzero, ← hslices.length_eq]
  have hidx : ∀ k c, (chunkLoop text fileId pageNo tsOffset w 0 0)[k]? = some c →
      c.idx = 0 + Int32.ofNat k := idx_chunkLoop fileId pageNo tsOffset 0 0
  have hstart : ¬ PastEnd text w 0 := by
    have := w.usize
    unfold PastEnd
    omega
  have htile := chunkSpans_tiling (by omega) (hzero hlen) hstart
  generalize chunkLoop text fileId pageNo tsOffset w 0 0 = chunks at *
  constructor
  · intro hcov
    by_contra hlong
    -- the chunk after the first `2^31` has a wrapped index
    have hget : chunks[2 ^ 31]? = some (chunks[2 ^ 31]) := getElem?_eq_getElem _
    have hi := hcov.idx _ _ hget
    have := Int32.toInt_lt (chunks[2 ^ 31]).idx
    omega
  · intro hshort
    have hint : ∀ (k : ℕ) c, chunks[k]? = some c → c.idx.toInt = k := by
      intro k c hk
      obtain ⟨hlt, -⟩ := List.getElem?_eq_some_iff.1 hk
      rw [hidx k c hk, Int32.zero_add]
      exact Int32.toInt_ofNat_of_lt (by omega)
    have hsorted : chunks.Pairwise fun a b => a.idx < b.idx := by
      rw [pairwise_iff_getElem]
      intro i j hi hj hij
      rw [Int32.lt_iff_toInt_lt, hint i _ (getElem?_eq_getElem hi), hint j _ (getElem?_eq_getElem hj)]
      exact Int.ofNat_lt.2 hij
    exact {
      empty := fun h => absurd h hne
      slices := fun _ => ⟨_, htile, hslices, fun i hi => htile.covers (Nat.zero_le i) hi⟩
      idx := hint
      dedup_first := fun x => (dedupLoop_find? [] chunks x).trans (if_neg (by simp))
      dedup_once := (dedupLoop_nodup [] chunks).1
      dedup_kept := dedupLoop_sublist [] chunks
      dedup_idx := hsorted.sublist (dedupLoop_sublist [] chunks) }

/-- The window of a call that passes the `assert!`. -/
def window {chunkSize overlap : UInt64} (h : overlap < chunkSize) : Window :=
  ⟨chunkSize.toNat, overlap.toNat, UInt64.lt_iff_toNat_lt.1 h, chunkSize.toNat_lt⟩

theorem chunkText_eq {chunkSize overlap : UInt64} (h : overlap < chunkSize) :
    chunkText text fileId pageNo tsOffset chunkSize overlap =
      .ok (chunkLoop text fileId pageNo tsOffset (window h) 0 0) := by
  rw [chunkText, dif_pos h]
  split
  next hempty =>
    have hlen : text.len = 0 := String.utf8Len_eq_zero.2 (List.isEmpty_iff.1 hempty)
    rw [chunkLoop, if_neg (by omega)]
  · rfl

end Loop

/-- **Chunk coverage.** With an overlap of at least six bytes, `chunk_text` returns for every text,
    and its chunks meet the contract if and only if the scan fits into the `i32` index. -/
theorem chunkText_coverage_iff (text : Str) (fileId : Int) (pageNo : Option Int32)
    (tsOffset : Option Float) (chunkSize overlap : UInt64) (h6 : 6 ≤ overlap)
    (h : overlap < chunkSize) :
    ∃ chunks, chunkText text fileId pageNo tsOffset chunkSize overlap = .ok chunks ∧
      (Coverage text chunkSize.toNat chunks ↔ ScanFits text chunkSize.toNat overlap.toNat
        (UInt64.lt_iff_toNat_lt.1 h) chunkSize.toNat_lt) := by
  have h6' : 6 ≤ overlap.toNat := UInt64.le_iff_toNat_le.1 h6
  refine ⟨_, chunkText_eq fileId pageNo tsOffset h, ?_⟩
  by_cases hne : text.chars = []
  · -- the empty text has no chunks, and the scan is past its end from the start
    have hzero : text.len = 0 := String.utf8Len_eq_zero.2 hne
    rw [chunkLoop, if_neg (by omega)]
    refine ⟨fun _ => .inl (by omega), fun _ => ?_⟩
    exact {
      empty := fun _ => rfl
      slices := fun h => absurd hne h
      idx := fun k c hk => absurd hk (by simp)
      dedup_first := fun x => rfl
      dedup_once := nodup_nil
      dedup_kept := .slnil
      dedup_idx := .nil }
  · exact chunkLoop_coverage_iff (w := window h) fileId pageNo tsOffset h6' hne

/-- A text of at most `2^31` steps fits: with the ingest's window of 2048 and 64 bytes, anything up to
    four terabytes. -/
theorem scanFits_of_len_le {overlap : ℕ} {h : overlap < chunkSize}
    {hu : chunkSize < 2 ^ 64} (hlen : text.len ≤ 2 ^ 31 * (chunkSize - overlap)) :
    ScanFits text chunkSize overlap h hu := by
  refine .inl (le_trans hlen ?_)
  have := le_iterate_advance text ⟨chunkSize, overlap, h, hu⟩ (2 ^ 31) 0
  rwa [Nat.zero_add] at this

/-- Three overlapping chunks: the end of the first window and the start of the third fall inside the `€`. -/
theorem chunkText_coverage_price :
    ∃ chunks, chunkText ⟨"Größe 5 €, süß".toList, by decide⟩ 1 none none 12 6 = .ok chunks ∧
      chunks.map TextChunk.content = ["Größe 5 ".toList, "e 5 €, sü".toList, ", süß".toList] ∧
      Coverage ⟨"Größe 5 €, süß".toList, by decide⟩ 12 chunks := by
  obtain ⟨chunks, hok, hiff⟩ :=
    chunkText_coverage_iff ⟨"Größe 5 €, süß".toList, by decide⟩ 1 none none 12 6 (by decide) (by decide)
  refine ⟨chunks, hok, ?_, hiff.2 (scanFits_of_len_le (by decide))⟩
  cases hok.symm.trans (chunkText_eq 1 none none (by decide))
  decide +kernel

/-! ### A text the index cannot number -/

theorem utf8Len_as (n : ℕ) : utf8Len (replicate n 'a') = n := by
  induction n with
  | zero => rfl
  | succ n ih =>
    rw [replicate_succ, String.utf8Len_cons, ih]
    rfl

/-- `n` times the letter `a`. -/
def manyAs (n : ℕ) (h : n < 2 ^ 63) : Str := ⟨List.replicate n 'a', by rwa [utf8Len_as]⟩

/-- One byte per character: a scan with step one visits every byte. -/
theorem iterate_advance_manyAs (h : n < 2 ^ 63) {w : Window} (hw : w.step = 1) {k : ℕ}
    (hk : k ≤ n) : (advance (manyAs n h) w)^[k] 0 = k := by
  induction k with
  | zero => rfl
  | succ k ih =>
    rw [Function.iterate_succ_apply', ih (by omega)]
    have hb : isBoundary (manyAs n h).chars (k + 1) = true := by
      refine (isBoundary_iff _ _).2 ⟨replicate (k + 1) 'a', replicate (n - (k + 1)) 'a', ?_, utf8Len_as _⟩
      rw [replicate_append_replicate, Nat.add_sub_cancel' hk]
      rfl
    unfold advance snapStart
    rw [hw]
    exact if_neg (by simp [hb])

theorem manyAs_not_coverage (h : n < 2 ^ 63) (hn : 2 ^ 31 < n) :
    ∃ chunks, chunkText (manyAs n h) 1 none none 7 6 = .ok chunks ∧
      ¬ Coverage (manyAs n h) 7 chunks := by
  have hlen : (manyAs n h).len = n := utf8Len_as n
  have hne : (manyAs n h).chars ≠ [] := fun he => by
    have : (manyAs n h).len = 0 := String.utf8Len_eq_zero.2 he
    omega
  refine ⟨_, chunkText_eq 1 none none (by decide), fun hcov => ?_⟩
  have hpast := (chunkLoop_coverage_iff (w := ⟨7, 6, by decide, by decide⟩) 1 none none le_rfl hne).1 hcov
  rw [iterate_advance_manyAs h rfl (le_of_lt hn)] at hpast
  simp only [PastEnd] at hpast
  omega

/-- Two gibibytes of text in steps of one byte: the last chunk's index is negative. -/
theorem chunkText_index_wraps :
    ∃ chunks, chunkText (manyAs (2 ^ 31 + 1) (by decide)) 1 none none 7 6 = .ok chunks ∧
      ¬ Coverage (manyAs (2 ^ 31 + 1) (by decide)) 7 chunks :=
  manyAs_not_coverage (by decide) (by decide)

/-! ## Redundant chunks -/

theorem chunkSpans_pairwise {w : Window} {start : ℕ} (hb : start < text.len → isBoundary text.chars start = true) :
    (chunkSpans text w start).Pairwise fun p q => p.1 < q.1 := by
  fun_induction chunkSpans text w start with
  | case1 | case3 => exact .nil
  | case2 start hlt stop hstop ih =>
    have hround := round hlt (hb hlt) hstop
    rw [hround.next] at ih ⊢
    exact pairwise_cons.2 ⟨fun q hq => lt_of_lt_of_le (lt_advance text w start)
      (mem_chunkSpans isBoundary_advance q hq).1, ih isBoundary_advance⟩

/-- A later chunk goes beyond an earlier one exactly when a boundary lies between the ends of their windows. -/
theorem Round.not_inside_iff {w : Window} {p q : ℕ × ℕ} (hp : Round text w p) (hq : Round text w q)
    (hlt : p.1 < q.1) : ¬ (p.1 ≤ q.1 ∧ q.2 ≤ p.2) ↔
      ∃ b, isBoundary text.chars b = true ∧ p.1 + w.chunkSize < b ∧ b ≤ q.1 + w.chunkSize := by
  constructor
  · intro h
    refine ⟨q.2, hq.stop, ?_, hq.le⟩
    by_contra hle
    exact h ⟨le_of_lt hlt, hp.last q.2 hq.stop (Nat.le_of_not_lt hle)⟩
  · rintro ⟨b, hb, hpb, hbq⟩ ⟨-, hle⟩
    have := hq.last b hb hbq
    have := hp.le
    omega

/-- **No redundant chunks.** No chunk lies inside its predecessor, and a text of at most one window is one
    chunk, if and only if there is a boundary between the ends of any two windows in a row. -/
theorem chunkText_not_redundant_iff (text : Str) (fileId : Int) (pageNo : Option Int32) (tsOffset : Option Float)
    (chunkSize overlap : UInt64) (h : overlap < chunkSize) :
    ∃ chunks, chunkText text fileId pageNo tsOffset chunkSize overlap = .ok chunks ∧
      List.Forall₂ (IsSlice text) chunks (chunkSpans text (window h) 0) ∧
      (((chunkSpans text (window h) 0).IsChain fun p q => ¬ (p.1 ≤ q.1 ∧ q.2 ≤ p.2)) ∧
          (text.chars ≠ [] → text.len ≤ chunkSize.toNat → chunks.length = 1) ↔
        (chunkSpans text (window h) 0).IsChain fun p q =>
          ∃ b, isBoundary text.chars b = true ∧ p.1 + chunkSize.toNat < b ∧ b ≤ q.1 + chunkSize.toNat) := by
  have hzero : 0 < text.len → isBoundary text.chars 0 = true := fun _ => isBoundary_zero _
  have hslices := chunkLoop_slices (w := window h) fileId pageNo tsOffset hzero 0
  refine ⟨_, chunkText_eq fileId pageNo tsOffset h, hslices, ?_⟩
  have hmem := mem_chunkSpans (w := window h) hzero
  have hiff : ∀ (i : ℕ) (hi : i + 1 < (chunkSpans text (window h) 0).length), _ ↔ _ := fun i hi =>
    (hmem _ (getElem_mem (Nat.lt_of_succ_lt hi))).2.not_inside_iff (hmem _ (getElem_mem hi)).2
      (pairwise_iff_getElem.1 (chunkSpans_pairwise hzero) i (i + 1) _ hi (Nat.lt_succ_self i))
  rw [hslices.length_eq, isChain_iff_getElem, isChain_iff_getElem]
  simp only [hiff]
  refine and_iff_left_of_imp fun hcond hne hlen => ?_
  -- the first window reaches the end of the text, so there is no boundary for a second one
  have hpos : 0 < text.len := Nat.pos_of_ne_zero fun hz => hne (String.utf8Len_eq_zero.1 hz)
  have hstart : ¬ PastEnd text (window h) 0 := by
    have := (window h).usize
    unfold PastEnd
    omega
  have hfits : text.len ≤ 0 + (window h).chunkSize := (Nat.zero_add _).symm ▸ hlen
  obtain ⟨stop, -, heq⟩ := chunkSpans_round (.inr hfits) (isBoundary_zero _) hstart
  have hone : ¬ 0 + 1 < (chunkSpans text (window h) 0).length := by
    intro htwo
    obtain ⟨b, hb, hlt, -⟩ := hcond 0 htwo
    have : b ≤ text.len := le_utf8Len_of_isBoundary hb
    omega
  rw [heq, length_cons] at hone ⊢
  omega

/-- The second window of `abcd` ends where the first one does. -/
theorem chunkText_repeats_end :
    ∃ chunks, chunkText ⟨"abcd".toList, by decide⟩ 1 none none 4 2 = .ok chunks ∧
      chunks.map TextChunk.content = ["abcd".toList, "cd".toList] ∧
      chunkSpans ⟨"abcd".toList, by decide⟩ (window (by decide : (2 : UInt64) < 4)) 0 = [(0, 4), (2, 4)] :=
  ⟨_, chunkText_eq 1 none none (by decide), by decide +kernel, by decide +kernel⟩

theorem chunkText_three_windows :
    ∃ chunks, chunkText ⟨"abcdefé".toList, by decide⟩ 1 none none 4 1 = .ok chunks ∧ chunks.length = 3 ∧
      (chunkSpans ⟨"abcdefé".toList, by decide⟩ (window (by decide : (1 : UInt64) < 4)) 0).IsChain
        fun p q => ¬ (p.1 ≤ q.1 ∧ q.2 ≤ p.2) := by
  obtain ⟨chunks, hok, hslices, hiff⟩ :=
    chunkText_not_redundant_iff ⟨"abcdefé".toList, by decide⟩ 1 none none 4 1 (by decide)
  have hspans : chunkSpans ⟨"abcdefé".toList, by decide⟩ (window (by decide : (1 : UInt64) < 4)) 0 =
      [(0, 4), (3, 6), (6, 8)] := by decide +kernel
  refine ⟨chunks, hok, hslices.length_eq.trans (congrArg length hspans), (hiff.2 ?_).1⟩
  rw [hspans]
  exact .cons_cons ⟨5, by decide +kernel⟩ (.cons_cons ⟨8, by decide +kernel⟩ (.singleton _))

/-! ## Without overlap -/

theorem dropBytes_eq_nil {cs : List Char} (h : utf8Len cs ≤ n) : dropBytes cs n = [] := by
  induction cs generalizing n with
  | nil => cases n <;> rfl
  | cons c cs ih =>
    rw [String.utf8Len_cons] at h
    have := c.utf8Size_pos
    obtain ⟨n, rfl⟩ : ∃ m, n = m + 1 := ⟨n - 1, by omega⟩
    exact ih (by omega)

/-- What is left from the start of a chunk on: the chunk, and what is left after it. -/
theorem IsSlice.dropBytes_eq {c : TextChunk} {p : ℕ × ℕ} (h : IsSlice text c p) :
    dropBytes text.chars p.1 = c.content ++ dropBytes text.chars p.2 ∧ p.1 + utf8Len c.content = p.2 ∧
      p.2 + utf8Len (dropBytes text.chars p.2) = text.len := by
  obtain ⟨a, b, hab, ha, hac⟩ := h
  rw [Str.len, ← hac, ← ha, hab, dropBytes_append, append_assoc, dropBytes_append, ← append_assoc]
  simp only [String.utf8Len_append, true_and]

/-- Without overlap the chunks are all that is left exactly when no window ends inside a character. -/
theorem flatMap_content_iff {w : Window} (h0 : w.overlap = 0) (h4 : 4 ≤ w.chunkSize) {start : ℕ}
    (hb : start < text.len → isBoundary text.chars start = true ∧ start + w.chunkSize < 2 ^ 64)
    {chunks : List TextChunk} (hs : List.Forall₂ (IsSlice text) chunks (chunkSpans text w start)) :
    (chunks.flatMap TextChunk.content = dropBytes text.chars start ↔
      ∀ p ∈ chunkSpans text w start, p.1 + w.chunkSize < text.len →
        isBoundary text.chars (p.1 + w.chunkSize) = true) ∧
    utf8Len (chunks.flatMap TextChunk.content) ≤ text.len - start := by
  have hstep : w.step = w.chunkSize := by rw [Window.step, h0, Nat.sub_zero]
  have hlen : text.len < 2 ^ 63 := text.fits
  induction hn : text.len - start using Nat.strong_induction_on generalizing start chunks with
  | _ n ih =>
    by_cases hlt : start < text.len
    · obtain ⟨hbs, hfits⟩ := hb hlt
      have hpast : ¬ PastEnd text w start := by
        unfold PastEnd
        omega
      obtain ⟨stop, hround, heq⟩ := chunkSpans_round (.inl h4) hbs hpast
      rw [heq] at hs ⊢
      obtain ⟨c, rest, hslice, hrest, rfl⟩ := forall₂_cons_right_iff.1 hs
      have hnext : start + w.chunkSize ≤ advance text w start := hstep ▸ le_snapStart text (start + w.step)
      obtain ⟨ih, hshort⟩ := ih (text.len - advance text w start) (by omega)
        (fun hin => ⟨isBoundary_advance hin, by omega⟩) hrest rfl
      obtain ⟨hdrop, hslice, hleft⟩ := hslice.dropBytes_eq
      have hend := hround.last text.len (isBoundary_utf8Len text.chars)
      have hle := hround.le
      dsimp only at *
      rw [flatMap_cons, forall_mem_cons, hdrop, append_cancel_left_eq]
      refine ⟨?_, by rw [String.utf8Len_append]; omega⟩
      by_cases hcond : start + w.chunkSize < text.len → isBoundary text.chars (start + w.chunkSize) = true
      · -- nothing lies between this chunk and the next window
        have hsame : dropBytes text.chars stop = dropBytes text.chars (advance text w start) := by
          by_cases hin : start + w.chunkSize < text.len
          · rw [advance, hstep, snapStart, if_neg (by simp [hcond hin]),
              Nat.le_antisymm hle (hround.last _ (hcond hin) le_rfl)]
          · rw [dropBytes_eq_nil (hend (by omega)), dropBytes_eq_nil (le_trans (Nat.le_of_not_lt hin) hnext)]
        rw [hsame, ih]
        exact (and_iff_right hcond).symm
      · -- the character in which the window ends is in neither
        refine iff_of_false (fun heq => hcond fun _ => ?_) fun h => hcond h.1
        rw [heq] at hshort
        exact (show stop = start + w.chunkSize by omega) ▸ hround.stop
    · rw [chunkSpans_pastEnd (.inl (Nat.le_of_not_lt hlt))] at hs ⊢
      cases hs
      rw [dropBytes_eq_nil (Nat.le_of_not_lt hlt)]
      simp

/-- **Zero overlap.** The chunks in their order are the text if and only if no window inside the text
    ends inside a character. -/
theorem chunkText_partition_iff (text : Str) (fileId : Int) (pageNo : Option Int32) (tsOffset : Option Float)
    (chunkSize : UInt64) (h : 0 < chunkSize) (h4 : 4 ≤ chunkSize) :
    ∃ chunks, chunkText text fileId pageNo tsOffset chunkSize 0 = .ok chunks ∧
      (chunks.flatMap TextChunk.content = text.chars ↔
        ∀ p ∈ chunkSpans text (window h) 0, p.1 + chunkSize.toNat < text.len →
          isBoundary text.chars (p.1 + chunkSize.toNat) = true) := by
  have hfits : 0 + (window h).chunkSize < 2 ^ 64 := (Nat.zero_add _).symm ▸ (window h).usize
  have hslices := chunkLoop_slices (w := window h) fileId pageNo tsOffset (fun _ => isBoundary_zero text.chars) 0
  have hsize : 4 ≤ (window h).chunkSize := UInt64.le_iff_toNat_le.1 h4
  have hiff := (flatMap_content_iff rfl hsize (fun _ => ⟨isBoundary_zero _, hfits⟩) hslices).1
  rw [show dropBytes text.chars 0 = text.chars from dropBytes_append [] text.chars] at hiff
  exact ⟨_, chunkText_eq fileId pageNo tsOffset h, hiff⟩

theorem chunkText_partition_ascii :
    ∃ chunks, chunkText ⟨"abcdef".toList, by decide⟩ 1 none none 4 0 = .ok chunks ∧
      chunks.flatMap TextChunk.content = "abcdef".toList := by
  obtain ⟨chunks, hok, hiff⟩ :=
    chunkText_partition_iff ⟨"abcdef".toList, by decide⟩ 1 none none 4 (by decide) (by decide)
  exact ⟨chunks, hok, hiff.2 (by decide +kernel)⟩

/-- The first window ends inside the `é`, and the second one starts after it. -/
theorem chunkText_loses_character :
    ∃ chunks, chunkText ⟨"aaaé".toList, by decide⟩ 1 none none 4 0 = .ok chunks ∧
      chunks.flatMap TextChunk.content = "aaa".toList :=
  ⟨_, chunkText_eq 1 none none (by decide), by decide +kernel⟩

end Tagsmaxxing.Chunker
