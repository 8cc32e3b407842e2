import Tagsmaxxing.Extract.Text
import Tagsmaxxing.Lib.Exec

/-! # The text shown to the tagger (`ingest.rs`)

The prompt of the tagging model has to fit its context window. After a call that the server rejects for its size,
`tag_with_context_retry` halves the text and calls again. Tokens are estimated by character: the text is walked until
the running estimate reaches half of what it was. -/

namespace Tagsmaxxing.TaggerText

open List

open String (utf8Len utf8Len_append)
open Utf8

/-! ## Estimates and walks -/

def tokenCostMilli (ch : Char) : ℕ :=
  if ch.isAlphanum || Text.isAsciiWhitespace ch then 250 else if ch.toNat < 128 then 1000 else 2000

def tokenEstimateMilli (s : List Char) : ℕ := (s.map tokenCostMilli).sum

/-- `str::char_indices`, of a text that starts at byte `i`. -/
def charIndices : ℕ → List Char → List (ℕ × Char)
  | _, [] => []
  | i, c :: cs => (i, c) :: charIndices (i + c.utf8Size) cs

/-- The position at which a walk over the characters stops: the first one whose cost brings the running
    total to `stop`. -/
def walk (stop : ℕ → Bool) : ℕ → List (ℕ × Char) → Option ℕ
  | _, [] => none
  | cost, (i, ch) :: rest =>
    if stop (cost + tokenCostMilli ch) then some i else walk stop (cost + tokenCostMilli ch) rest

/-- `&s[a..b]`. -/
def strSlice (s : List Char) (a b : ℕ) : Exec (List Char) :=
  if a ≤ b ∧ isBoundary s a ∧ isBoundary s b then .ok (slice s a b) else .panicked

@[simp] theorem tokenEstimateMilli_nil : tokenEstimateMilli [] = 0 := rfl

@[simp] theorem tokenEstimateMilli_cons (c : Char) (cs : List Char) :
    tokenEstimateMilli (c :: cs) = tokenCostMilli c + tokenEstimateMilli cs := by
  simp [tokenEstimateMilli]

variable (a b : List Char)

theorem isBoundary_utf8Len_append : isBoundary (a ++ b) (utf8Len a) = true :=
  (isBoundary_iff _ _).2 ⟨a, b, rfl, rfl⟩

theorem strSlice_head : strSlice (a ++ b) 0 (utf8Len a) = .ok a := by
  rw [strSlice, if_pos ⟨Nat.zero_le _, isBoundary_zero _, isBoundary_utf8Len_append a b⟩, slice]
  rw [show dropBytes (a ++ b) 0 = a ++ b by cases a ++ b <;> rfl, Nat.sub_zero, takeBytes_append]

/-- A walk from the front stops after a prefix whose total, unless the prefix is empty, did not stop it; the next
    character, if there is one, is the one that did. -/
theorem walk_spec (stop : ℕ → Bool) (s : List Char) (i cost : ℕ) :
    ∃ a b, s = a ++ b ∧ (walk stop cost (charIndices i s)).getD (i + utf8Len s) = i + utf8Len a ∧
      (a = [] ∨ stop (cost + tokenEstimateMilli a) = false) ∧
      ∀ c ∈ b.head?, stop (cost + tokenEstimateMilli (a ++ [c])) = true := by
  induction s generalizing i cost with
  | nil => exact ⟨[], [], rfl, rfl, .inl rfl, fun c hc => nomatch hc⟩
  | cons c cs ih =>
    rw [charIndices, walk]
    split
    case isTrue h =>
      refine ⟨[], c :: cs, rfl, rfl, .inl rfl, fun d hd => ?_⟩
      cases hd
      simpa using h
    case isFalse h =>
      obtain ⟨a, b, rfl, hcut, ha, hnext⟩ := ih (i + c.utf8Size) (cost + tokenCostMilli c)
      refine ⟨c :: a, b, rfl, ?_, .inr ?_, fun d hd => ?_⟩
      · rw [String.utf8Len_cons, String.utf8Len_cons, add_comm (utf8Len _) c.utf8Size, ← add_assoc, hcut]
        omega
      · rcases ha with rfl | ha
        · simpa using h
        · rwa [tokenEstimateMilli_cons, ← add_assoc]
      · rw [cons_append, tokenEstimateMilli_cons, ← add_assoc]
        exact hnext d hd

/-! ## Bounding the text -/

/-- `MAX_TAGGER_TEXT_BYTES`. -/
def maxTaggerTextBytes : ℕ := 480 * 1024

def truncateToTokenBudget (s : List Char) (maxTokens : UInt64) : Exec (List Char) :=
  -- `saturating_mul`
  let budgetMilli := min (maxTokens.toNat * 1000) (2 ^ 64 - 1)
  match walk (budgetMilli < ·) 0 (charIndices 0 s) with
  | some i => strSlice s 0 i
  | none => .ok s

def boundTaggerText (s : List Char) (maxTokens : UInt64) : Exec (List Char) :=
  truncateToTokenBudget (truncateToCharBoundary s maxTaggerTextBytes) maxTokens

variable (s : List Char)

theorem snapBack_le (n : ℕ) : snapBack s n ≤ n := by
  fun_induction snapBack s n with
  | case1 | case2 => exact le_rfl
  | case3 n _ ih => exact Nat.le_succ_of_le ih

theorem utf8Len_truncateToCharBoundary_le (maxBytes : ℕ) : utf8Len (truncateToCharBoundary s maxBytes) ≤ maxBytes := by
  rw [truncateToCharBoundary]
  split_ifs with hfits
  · exact hfits
  · exact (utf8Len_takeBytes_le s _).trans (snapBack_le s maxBytes)

theorem tokenEstimateMilli_append : tokenEstimateMilli (a ++ b) = tokenEstimateMilli a + tokenEstimateMilli b := by
  simp [tokenEstimateMilli]

theorem tokenEstimateMilli_le : tokenEstimateMilli s ≤ 2000 * utf8Len s := by
  induction s with
  | nil => exact le_rfl
  | cons c cs ih =>
    have hcost : tokenCostMilli c ≤ 2000 := by
      unfold tokenCostMilli
      split_ifs <;> decide
    have hsize := c.utf8Size_pos
    rw [tokenEstimateMilli_cons, String.utf8Len_cons]
    omega

theorem truncateToTokenBudget_spec {s : List Char} (hs : utf8Len s ≤ maxTaggerTextBytes) (maxTokens : UInt64) :
    ∃ a b, s = a ++ b ∧ truncateToTokenBudget s maxTokens = .ok a ∧
      tokenEstimateMilli a ≤ 1000 * maxTokens.toNat ∧
      ∀ c ∈ b.head?, 1000 * maxTokens.toNat < tokenEstimateMilli (a ++ [c]) := by
  -- what fits the byte cap costs less than the saturated budget
  have hest := tokenEstimateMilli_le s
  unfold maxTaggerTextBytes at hs
  obtain ⟨a, b, rfl, hcut, ha, hnext⟩ := walk_spec (min (maxTokens.toNat * 1000) (2 ^ 64 - 1) < ·) s 0 0
  refine ⟨a, b, rfl, ?_, ?_, fun c hc => ?_⟩
  · rw [truncateToTokenBudget]
    split
    next i hwalk =>
      rw [hwalk, Option.getD_some, zero_add] at hcut
      rw [hcut, strSlice_head]
    next hwalk =>
      rw [hwalk, Option.getD_none, zero_add, zero_add, utf8Len_append] at hcut
      obtain rfl : b = [] := String.utf8Len_eq_zero.1 (by omega)
      rw [append_nil]
  · rcases ha with rfl | ha
    · exact Nat.zero_le _
    · have := of_decide_eq_false ha
      omega
  · obtain ⟨b, rfl⟩ := head?_eq_some_iff.1 hc
    have := of_decide_eq_true (hnext c rfl)
    simp only [tokenEstimateMilli_append, tokenEstimateMilli_cons, tokenEstimateMilli_nil] at hest this ⊢
    omega

/-- The text is the longest prefix of the byte-capped one within the budget. -/
theorem boundTaggerText_longest (s : List Char) (maxTokens : UInt64) :
    ∃ a, boundTaggerText s maxTokens = .ok a ∧ a <+: truncateToCharBoundary s maxTaggerTextBytes ∧
      tokenEstimateMilli a ≤ 1000 * maxTokens.toNat ∧
      ∀ a', a' <+: truncateToCharBoundary s maxTaggerTextBytes →
        tokenEstimateMilli a' ≤ 1000 * maxTokens.toNat → a' <+: a := by
  obtain ⟨a, b, hs, hbound, hest, hnext⟩ :=
    truncateToTokenBudget_spec (utf8Len_truncateToCharBoundary_le s maxTaggerTextBytes) maxTokens
  refine ⟨a, hbound, ⟨b, hs.symm⟩, hest, fun a' ha' hest' => ?_⟩
  rw [hs] at ha'
  rcases prefix_or_prefix_of_prefix ha' (prefix_append a b) with h | ⟨t, rfl⟩
  · exact h
  · cases t with
    | nil => exact (append_nil a).symm ▸ prefix_rfl
    | cons c t =>
      obtain ⟨u, rfl⟩ := (prefix_append_right_inj a).1 ha'
      have hlt := hnext c rfl
      simp only [tokenEstimateMilli_append, tokenEstimateMilli_cons, tokenEstimateMilli_nil] at hlt hest'
      omega

/-! ## Retrying on context overflow -/

def maxContextShrinks : ℕ := 3

structure TagInput where
  tenantId : Int
  userId : Option Int
  text : List Char
  userNote : Option String
  kind : DocKind
  metaJson : String

/-- The error of a tagger call: its message, the text with all causes, and whether it is one of `LlmError`'s
    variants for a backend that is not available. -/
structure TagError where
  message : String
  text : String
  unavailable : Bool
deriving DecidableEq

def isContextOverflow (e : TagError) : Bool :=
  e.text.toList.tails.any ("exceeds the available context".toList.isPrefixOf ·)

/-- `String::truncate`. -/
def truncate (text : List Char) (newLen : ℕ) : Exec (List Char) :=
  if newLen ≤ utf8Len text then strSlice text 0 newLen else .ok text

/-- The text of the next attempt. -/
def shrink (text : List Char) : Exec (List Char) :=
  let currentEst := tokenEstimateMilli text / 1000
  let target := max (currentEst / 2) 1
  truncate text ((walk (fun cost => target ≤ cost / 1000) 0 (charIndices 0 text)).getD (utf8Len text))

section

variable {σ ω : Type}

/-- A call of the tagger in a world: what it was given and what it answered. -/
structure TagCall (σ ω : Type) where
  world : σ
  input : TagInput
  outcome : Except TagError ω

/-- The loop of `tag_with_context_retry`, with `left` shrinks left: the calls it makes and what it returns,
    or `none` if it panics. The tagger may answer differently each time: it is a step of a world of its own. -/
def tagLoop (tag : σ → TagInput → Bool → Except TagError ω × σ) (localOnly : Bool) :
    ℕ → σ → TagInput → List (TagCall σ ω) × Option (Except TagError ω)
  | 0, world, input =>
    let r := (tag world input localOnly).1
    ([⟨world, input, r⟩], some r)
  | left + 1, world, input =>
    match tag world input localOnly with
    | (.error e, world') =>
      if isContextOverflow e then
        match shrink input.text with
        | .ok text =>
          let rest := tagLoop tag localOnly left world' { input with text }
          (⟨world, input, .error e⟩ :: rest.1, rest.2)
        | _ => ([⟨world, input, .error e⟩], none)
      else ([⟨world, input, .error e⟩], some (.error e))
    | (.ok out, _) => ([⟨world, input, .ok out⟩], some (.ok out))

def tagWithContextRetry (tag : σ → TagInput → Bool → Except TagError ω × σ) (world : σ) (input : TagInput)
    (localOnly : Bool) : List (TagCall σ ω) × Option (Except TagError ω) :=
  tagLoop tag localOnly maxContextShrinks world input

/-- The outcome is a context overflow. -/
def Overflows (r : Except TagError ω) : Prop := ∃ e, r = .error e ∧ isContextOverflow e = true

variable (tag : σ → TagInput → Bool → Except TagError ω × σ) (localOnly : Bool)

/-- A call against the call before, which left it its world. -/
structure Shrinks (prev next : TagCall σ ω) : Prop where
  world : next.world = (tag prev.world prev.input localOnly).2
  input : next.input = { prev.input with text := next.input.text }
  isPrefix : next.input.text <+: prev.input.text
  estimate : tokenEstimateMilli next.input.text / 1000 < max 1 (tokenEstimateMilli prev.input.text / 1000 / 2)
  shorter : 1 ≤ tokenEstimateMilli prev.input.text / 1000 → next.input.text.length < prev.input.text.length

/-- The calls of a retried tagging with `left` shrinks, each answered by the tagger: all but the last overflowed, the
    last one's outcome is returned, and it is an overflow only when no shrink is left. -/
structure Retried (left : ℕ) (world : σ) (input : TagInput) (calls : List (TagCall σ ω))
    (outcome : Option (Except TagError ω)) : Prop where
  count : calls.length ≤ left + 1
  first : ∃ call, calls.head? = some call ∧ call.world = world ∧ call.input = input
  answered : ∀ call ∈ calls, call.outcome = (tag call.world call.input localOnly).1
  goesOn : ∀ call ∈ calls.dropLast, Overflows call.outcome
  last : calls.getLast?.map TagCall.outcome = outcome
  stops : calls.length ≤ left → ∀ call ∈ calls.getLast?, ¬ Overflows call.outcome
  shrinks : calls.IsChain (Shrinks tag localOnly)

theorem shrink_spec (text : List Char) : ∃ a b, text = a ++ b ∧ shrink text = .ok a ∧
    tokenEstimateMilli a / 1000 < max (tokenEstimateMilli text / 1000 / 2) 1 := by
  obtain ⟨a, b, rfl, hcut, ha, -⟩ := walk_spec
    (fun cost => max (tokenEstimateMilli text / 1000 / 2) 1 ≤ cost / 1000) text 0 0
  refine ⟨a, b, rfl, ?_, ?_⟩
  · have hle : utf8Len a ≤ utf8Len (a ++ b) := by simp [utf8Len_append]
    rw [zero_add, zero_add] at hcut
    rw [shrink, hcut, truncate, if_pos hle, strSlice_head]
  · rcases ha with rfl | ha
    · exact Nat.lt_of_lt_of_le Nat.zero_lt_one (le_max_right _ _)
    · exact Nat.lt_of_not_le (zero_add (tokenEstimateMilli a) ▸ of_decide_eq_false ha)

variable {tag localOnly} {r : Except TagError ω} {world world' : σ} {input : TagInput} {left : ℕ}

theorem shrinks_of_shrink {a b : List Char} {r' : Except TagError ω}
    (hworld : (tag world input localOnly).2 = world') (htext : input.text = a ++ b)
    (hest : tokenEstimateMilli a / 1000 < max (tokenEstimateMilli input.text / 1000 / 2) 1) :
    Shrinks tag localOnly ⟨world, input, r⟩ ⟨world', { input with text := a }, r'⟩ where
  world := hworld.symm
  input := rfl
  isPrefix := ⟨b, htext.symm⟩
  estimate := by rwa [max_comm]
  shorter h := by
    rw [htext, length_append]
    rcases eq_nil_or_concat b with rfl | ⟨_, _, rfl⟩
    · -- the whole text was kept: then its estimate is below half of itself
      rw [htext, append_nil] at h hest
      omega
    · simp

theorem Retried.single (hr : r = (tag world input localOnly).1) (h : 1 ≤ left → ¬ Overflows r) :
    Retried tag localOnly left world input [⟨world, input, r⟩] (some r) where
  count := by simp
  first := ⟨_, rfl, rfl, rfl⟩
  answered := forall_mem_singleton.2 hr
  goesOn := by simp
  last := rfl
  stops hleft call hcall := by
    cases hcall
    exact h hleft
  shrinks := .singleton _

theorem Retried.cons {next : TagInput} {calls : List (TagCall σ ω)} {outcome : Option (Except TagError ω)}
    (hr : r = (tag world input localOnly).1) (hov : Overflows r)
    (hs : ∀ r', Shrinks tag localOnly ⟨world, input, r⟩ ⟨world', next, r'⟩)
    (h : Retried tag localOnly left world' next calls outcome) :
    Retried tag localOnly (left + 1) world input (⟨world, input, r⟩ :: calls) outcome := by
  obtain ⟨⟨w, i, r'⟩, hhead, rfl, rfl⟩ := h.first
  obtain ⟨calls, rfl⟩ := head?_eq_some_iff.1 hhead
  exact {
    count := Nat.succ_le_succ h.count
    first := ⟨_, rfl, rfl, rfl⟩
    answered := forall_mem_cons.2 ⟨hr, h.answered⟩
    goesOn := forall_mem_cons.2 ⟨hov, h.goesOn⟩
    last := h.last
    stops := fun hleft => h.stops (Nat.le_of_succ_le_succ hleft)
    shrinks := .cons_cons (hs r') h.shrinks }

variable (tag localOnly)

theorem tagLoop_retried (left : ℕ) (world : σ) (input : TagInput) :
    Retried tag localOnly left world input (tagLoop tag localOnly left world input).1
      (tagLoop tag localOnly left world input).2 := by
  induction left generalizing world input with
  | zero => exact .single rfl fun h => absurd h (by decide)
  | succ left ih =>
    rw [tagLoop]
    split
    next e world' htag =>
      have hr : .error e = (tag world input localOnly).1 := by rw [htag]
      split
      next he =>
        obtain ⟨a, b, htext, hshrink, hest⟩ := shrink_spec input.text
        rw [hshrink]
        have hworld : (tag world input localOnly).2 = world' := by rw [htag]
        exact .cons hr ⟨e, rfl, he⟩ (fun _ => shrinks_of_shrink hworld htext hest) (ih world' _)
      next he =>
        refine .single hr fun _ hov => he ?_
        obtain ⟨e', h, he'⟩ := hov
        cases h
        exact he'
    next out _ htag => exact .single (by rw [htag]) fun _ hov => nomatch hov

/-- No cut of the loop is inside a character: it returns what the tagger answered to its last call. -/
theorem tagWithContextRetry_returns (tag : σ → TagInput → Bool → Except TagError ω × σ) (world : σ)
    (input : TagInput) (localOnly : Bool) :
    ∃ call, (tagWithContextRetry tag world input localOnly).1.getLast? = some call ∧
      (tagWithContextRetry tag world input localOnly).2 = some (tag call.world call.input localOnly).1 := by
  have h := tagLoop_retried tag localOnly maxContextShrinks world input
  unfold tagWithContextRetry
  generalize tagLoop tag localOnly maxContextShrinks world input = made at h
  obtain ⟨calls, outcome⟩ := made
  rcases eq_nil_or_concat calls with rfl | ⟨before, call, rfl⟩
  · obtain ⟨_, hhead, _⟩ := h.first
    cases hhead
  · refine ⟨call, by simp, ?_⟩
    rw [← h.answered call (by simp)]
    simpa using h.last.symm

/-- At most four calls of the tagger are made, the first with the text as given and each further one with a shorter
    prefix of the last; the first outcome that is not a context overflow is returned as it is. -/
theorem tagWithContextRetry_calls (tag : σ → TagInput → Bool → Except TagError ω × σ) (world : σ)
    (input : TagInput) (localOnly : Bool) :
    Retried tag localOnly maxContextShrinks world input (tagWithContextRetry tag world input localOnly).1
      (tagWithContextRetry tag world input localOnly).2 :=
  tagLoop_retried tag localOnly maxContextShrinks world input

end

end Tagsmaxxing.TaggerText
