import Mathlib.Data.String.Basic

/-! # Text measured in UTF-8 bytes

A text is its list of characters; positions in it are byte offsets of its UTF-8 encoding. A
position is a *character boundary* when it is the encoded length of a prefix of the text
(`isBoundary_iff`). No two neighbouring boundaries are more than four bytes apart, so from any
position within the text there is a boundary at most three bytes back and one at most three bytes
ahead; this is all that byte-based scans over a text need to know about UTF-8. -/

namespace Utf8

open List

open String (utf8Len utf8Len_nil utf8Len_cons utf8Len_append)

/-- Whether the byte position `n` starts a character or ends the text. -/
def isBoundary : List Char → ℕ → Bool
  | _, 0 => true
  | [], _ + 1 => false
  | c :: cs, n + 1 => decide (c.utf8Size ≤ n + 1) && isBoundary cs (n + 1 - c.utf8Size)

/-- The characters that fit into the first `n` bytes. -/
def takeBytes : List Char → ℕ → List Char
  | [], _ => []
  | c :: cs, n => if c.utf8Size ≤ n then c :: takeBytes cs (n - c.utf8Size) else []

/-- The characters that start at byte `n` or later. -/
def dropBytes : List Char → ℕ → List Char
  | cs, 0 => cs
  | [], _ + 1 => []
  | c :: cs, n + 1 => dropBytes cs (n + 1 - c.utf8Size)

/-- The characters between two byte positions. -/
def slice (text : List Char) (s e : ℕ) : List Char := takeBytes (dropBytes text s) (e - s)

/-! ## Boundaries are prefix lengths -/

@[simp] theorem isBoundary_zero (text : List Char) : isBoundary text 0 = true := by
  cases text <;> rfl

variable {n : ℕ}

theorem isBoundary_cons (c : Char) (cs : List Char) (hn : 0 < n) :
    isBoundary (c :: cs) n = true ↔ c.utf8Size ≤ n ∧ isBoundary cs (n - c.utf8Size) = true := by
  cases n with
  | zero => exact absurd hn (Nat.lt_irrefl 0)
  | succ n => simp [isBoundary]

theorem isBoundary_iff (text : List Char) (n : ℕ) :
    isBoundary text n = true ↔ ∃ a b, text = a ++ b ∧ utf8Len a = n := by
  induction text generalizing n with
  | nil =>
    cases n with
    | zero => exact ⟨fun _ => ⟨[], [], rfl, rfl⟩, fun _ => rfl⟩
    | succ n =>
      refine ⟨fun h => absurd h (by simp [isBoundary]), ?_⟩
      rintro ⟨a, b, hab, hlen⟩
      obtain ⟨rfl, -⟩ := append_eq_nil_iff.1 hab.symm
      cases hlen
  | cons c cs ih =>
    rcases Nat.eq_zero_or_pos n with rfl | hn
    · exact ⟨fun _ => ⟨[], c :: cs, rfl, rfl⟩, fun _ => isBoundary_zero _⟩
    · rw [isBoundary_cons c cs hn, ih]
      constructor
      · rintro ⟨hc, a, b, rfl, hlen⟩
        exact ⟨c :: a, b, rfl, by rw [utf8Len_cons]; omega⟩
      · rintro ⟨a, b, hab, hlen⟩
        cases a with
        | nil =>
          rw [utf8Len_nil] at hlen
          omega
        | cons d a =>
          rw [cons_append, cons.injEq] at hab
          obtain ⟨rfl, rfl⟩ := hab
          rw [utf8Len_cons] at hlen
          exact ⟨by omega, a, b, rfl, by omega⟩

theorem isBoundary_utf8Len (text : List Char) : isBoundary text (utf8Len text) = true :=
  (isBoundary_iff _ _).2 ⟨text, [], by simp, rfl⟩

theorem le_utf8Len_of_isBoundary {text : List Char} (h : isBoundary text n = true) : n ≤ utf8Len text := by
  obtain ⟨a, b, rfl, rfl⟩ := (isBoundary_iff _ _).1 h
  rw [utf8Len_append]
  omega

/-! ## Boundaries are dense -/

/-- A boundary of the rest, moved behind the first character. -/
theorem isBoundary_cons_add (c : Char) {cs : List Char} {b : ℕ} (h : isBoundary cs b = true) :
    isBoundary (c :: cs) (b + c.utf8Size) = true := by
  have hpos := c.utf8Size_pos
  rw [isBoundary_cons c cs (by omega), Nat.add_sub_cancel]
  exact ⟨by omega, h⟩

section

variable (text : List Char) (h : n ≤ utf8Len text)

include text h

/-- A position is at a boundary, or within a character and so close to the boundaries around it. -/
theorem exists_boundaries :
    (∃ b, b ≤ n ∧ n ≤ b + 3 ∧ isBoundary text b = true) ∧ ∃ b, n ≤ b ∧ b ≤ n + 3 ∧ isBoundary text b = true := by
  induction text generalizing n with
  | nil =>
    obtain rfl := Nat.le_zero.1 h
    exact ⟨⟨0, le_refl 0, by omega, rfl⟩, 0, le_refl 0, by omega, rfl⟩
  | cons c cs ih =>
    have hfour := c.utf8Size_le_four
    rw [utf8Len_cons] at h
    by_cases hc : c.utf8Size ≤ n
    · obtain ⟨⟨b, hb₁, hb₂, hb⟩, b', hb₁', hb₂', hb'⟩ := ih (n := n - c.utf8Size) (by omega)
      exact ⟨⟨b + c.utf8Size, by omega, by omega, isBoundary_cons_add c hb⟩,
        b' + c.utf8Size, by omega, by omega, isBoundary_cons_add c hb'⟩
    · refine ⟨⟨0, by omega, by omega, isBoundary_zero _⟩, ?_⟩
      rcases Nat.eq_zero_or_pos n with rfl | hn
      · exact ⟨0, le_refl 0, by omega, isBoundary_zero _⟩
      · -- `n` is inside the first character
        have hfirst := isBoundary_cons_add c (isBoundary_zero cs)
        rw [Nat.zero_add] at hfirst
        exact ⟨c.utf8Size, by omega, by omega, hfirst⟩

theorem exists_boundary_ge :
    ∃ b, n ≤ b ∧ b ≤ n + 3 ∧ isBoundary text b = true := (exists_boundaries text h).2

theorem exists_boundary_le :
    ∃ b, b ≤ n ∧ n ≤ b + 3 ∧ isBoundary text b = true := (exists_boundaries text h).1

end

/-! ## Slices -/

theorem takeBytes_append (a b : List Char) : takeBytes (a ++ b) (utf8Len a) = a := by
  induction a with
  | nil =>
    cases b with
    | nil => rfl
    | cons c cs =>
      have := c.utf8Size_pos
      simp only [nil_append, utf8Len_nil, takeBytes]
      exact if_neg (by omega)
  | cons c cs ih =>
    simp only [cons_append, utf8Len_cons, takeBytes]
    rw [if_pos (Nat.le_add_left _ _), Nat.add_sub_cancel, ih]

theorem dropBytes_append (a b : List Char) : dropBytes (a ++ b) (utf8Len a) = b := by
  induction a with
  | nil => cases b <;> rfl
  | cons c cs ih =>
    have := c.utf8Size_pos
    rw [cons_append, utf8Len_cons]
    obtain ⟨n, hn⟩ : ∃ n, utf8Len cs + c.utf8Size = n + 1 := ⟨utf8Len cs + c.utf8Size - 1, by omega⟩
    rw [hn, dropBytes, ← hn, Nat.add_sub_cancel, ih]

section

variable (cs : List Char) (n : ℕ)

theorem takeBytes_prefix_of : takeBytes cs n <+: cs := by
  induction cs generalizing n with
  | nil => exact prefix_rfl
  | cons c cs ih =>
    rw [takeBytes]
    split
    · exact (prefix_cons_inj c).2 (ih _)
    · exact nil_prefix

theorem utf8Len_takeBytes_le : utf8Len (takeBytes cs n) ≤ n := by
  induction cs generalizing n with
  | nil => exact Nat.zero_le n
  | cons c cs ih =>
    rw [takeBytes]
    split
    · rw [utf8Len_cons]
      exact Nat.add_le_of_le_sub ‹_› (ih _)
    · exact Nat.zero_le n

theorem dropBytes_suffix : dropBytes cs n <:+ cs := by
  induction cs generalizing n with
  | nil => cases n <;> exact suffix_rfl
  | cons c cs ih =>
    cases n with
    | zero => exact suffix_rfl
    | succ n => exact (ih _).trans (suffix_cons c cs)

end

/-- A slice has only characters of the text, boundaries or not. -/
theorem slice_subset (text : List Char) (s e : ℕ) : slice text s e ⊆ text :=
  List.Subset.trans (takeBytes_prefix_of _ _).subset (dropBytes_suffix text s).subset

/-- Between two boundaries, the slice is the middle part of the text. -/
theorem slice_spec {text : List Char} {s e : ℕ} (hs : isBoundary text s = true)
    (he : isBoundary text e = true) (hse : s ≤ e) :
    ∃ a b, text = a ++ slice text s e ++ b ∧ utf8Len a = s ∧ utf8Len (a ++ slice text s e) = e := by
  obtain ⟨a, rest, rfl, rfl⟩ := (isBoundary_iff _ _).1 hs
  obtain ⟨a', b, hab, rfl⟩ := (isBoundary_iff _ _).1 he
  -- the longer prefix extends the shorter one
  obtain ⟨mid, rfl⟩ : ∃ mid, a' = a ++ mid := by
    rcases append_eq_append_iff.1 hab with ⟨m, rfl, -⟩ | ⟨m, rfl, -⟩
    · exact ⟨m, rfl⟩
    · rw [utf8Len_append] at hse
      have hm : m = [] := String.utf8Len_eq_zero.1 (by omega)
      exact ⟨[], by simp [hm]⟩
  rw [append_assoc, append_cancel_left_eq] at hab
  subst hab
  have hslice : slice (a ++ (mid ++ b)) (utf8Len a) (utf8Len (a ++ mid)) = mid := by
    unfold slice
    rw [dropBytes_append, utf8Len_append, Nat.add_sub_cancel_left, takeBytes_append]
  rw [hslice]
  exact ⟨a, b, by rw [append_assoc], rfl, rfl⟩

/-! ## ASCII

An ASCII byte is the encoding of its character, so bytes and characters can be exchanged freely. -/

/-- The character of an ASCII byte. -/
def asciiChar (b : UInt8) : Char := Char.ofNat b.toNat

theorem toNat_ofNat (h : n < 0xd800) : (Char.ofNat n).toNat = n := by
  have hvalid : n.isValidChar := .inl h
  have hchar : Char.ofNat n = Char.ofNatAux n hvalid := dif_pos hvalid
  rw [hchar]
  rfl

theorem utf8EncodeChar_asciiChar {b : UInt8} (h : b < 128) : String.utf8EncodeChar (asciiChar b) = [b] := by
  have hb : b.toNat < 128 := UInt8.lt_iff_toNat_lt.1 h
  have hv : (asciiChar b).val.toNat = b.toNat := toNat_ofNat (by omega)
  simp [String.utf8EncodeChar, hv, Nat.le_of_lt_succ hb]

theorem toUTF8_ofList_asciiChar {bytes : List UInt8} (h : ∀ b ∈ bytes, b < 128) :
    (String.ofList (bytes.map asciiChar)).toUTF8.data.toList = bytes := by
  rw [String.toUTF8, String.toByteArray_ofList, utf8Encode, data_toByteArray, flatMap_map,
    toList_toArray]
  induction bytes with
  | nil => rfl
  | cons b bytes ih =>
    rw [flatMap_cons, utf8EncodeChar_asciiChar (h b mem_cons_self),
      ih fun c hc => h c (mem_cons_of_mem _ hc)]
    rfl

end Utf8
