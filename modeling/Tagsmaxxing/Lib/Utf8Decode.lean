import Tagsmaxxing.Lib.Utf8

/-! # Decoding bytes as UTF-8

The strict decoder stops at the first sequence that is not UTF-8 and says where; the lossy one puts the
replacement character in its place. Both take the bytes apart in the same way, and neither invents a
character: what a strict decoder accepts is the encoding of its result (`encode_of_decode`), and a lossy one
yields a NUL only where there is a zero byte. -/

theorem Except.map_eq_ok_iff {ε α β : Type} {x : Except ε α} {f : α → β} {b : β} :
    x.map f = .ok b ↔ ∃ a, x = .ok a ∧ f a = b := by
  cases x with
  | error e | ok a => simp [Except.map]

namespace Utf8

open List

/-- The encoding of a text. -/
def encode (text : List Char) : List UInt8 := text.flatMap String.utf8EncodeChar

@[simp] theorem encode_nil : encode [] = [] := rfl

@[simp] theorem encode_cons (c : Char) (text : List Char) :
    encode (c :: text) = String.utf8EncodeChar c ++ encode text := flatMap_cons

/-- The character that bytes start with. -/
def decodeFirst (bytes : List UInt8) : Option Char := bytes.toByteArray.utf8DecodeChar? 0

/-- The bytes that may follow the first one of a longer sequence, and how many more come after that. -/
def continuation (b : UInt8) : Option (UInt8 × UInt8 × ℕ) :=
  if 0xc2 ≤ b ∧ b ≤ 0xdf then some (0x80, 0xbf, 0)
  else if b = 0xe0 then some (0xa0, 0xbf, 1)
  else if b = 0xed then some (0x80, 0x9f, 1)
  else if 0xe1 ≤ b ∧ b ≤ 0xef then some (0x80, 0xbf, 1)
  else if b = 0xf0 then some (0x90, 0xbf, 2)
  else if 0xf1 ≤ b ∧ b ≤ 0xf3 then some (0x80, 0xbf, 2)
  else if b = 0xf4 then some (0x80, 0x8f, 2)
  else none

/-- How much of a sequence that is not UTF-8 could have started a character, at least its first byte. -/
def invalidLen (b : UInt8) (rest : List UInt8) : ℕ :=
  match continuation b, rest with
  | some (low, high, more), c :: rest =>
      if low ≤ c ∧ c ≤ high then 2 + ((rest.take more).takeWhile fun d => 0x80 ≤ d && d ≤ 0xbf).length else 1
  | _, _ => 1

/-- Where a text stops being UTF-8, and how many bytes are wrong there; `none` if the bytes end inside a
    character. -/
structure Error where
  validUpTo : ℕ
  errorLen : Option ℕ
deriving DecidableEq

def errorAt (i : ℕ) (b : UInt8) (rest : List UInt8) : Error where
  validUpTo := i
  errorLen :=
    if (continuation b).isSome ∧ invalidLen b rest = rest.length + 1 then none else some (invalidLen b rest)

/-- The strict decoder at the `i`-th byte, with the number of bytes that belong to the last character. -/
def decodeFrom : ℕ → ℕ → List UInt8 → Except Error (List Char)
  | _, _, [] => .ok []
  | i, skip + 1, _ :: rest => decodeFrom (i + 1) skip rest
  | i, 0, b :: rest =>
      match decodeFirst (b :: rest) with
      | some c => (decodeFrom (i + 1) (c.utf8Size - 1) rest).map (c :: ·)
      | none => .error (errorAt i b rest)

def decode (bytes : List UInt8) : Except Error (List Char) := decodeFrom 0 0 bytes

/-- The lossy decoder, with the number of bytes that belong to what came last. -/
def decodeLossyFrom : ℕ → List UInt8 → List Char
  | _, [] => []
  | skip + 1, _ :: rest => decodeLossyFrom skip rest
  | 0, b :: rest =>
      match decodeFirst (b :: rest) with
      | some c => c :: decodeLossyFrom (c.utf8Size - 1) rest
      | none => '�' :: decodeLossyFrom (invalidLen b rest - 1) rest

def decodeLossy (bytes : List UInt8) : List Char := decodeLossyFrom 0 bytes

/-! ## The first character -/

theorem decodeFirst_encode_append (c : Char) (rest : List UInt8) :
    decodeFirst (String.utf8EncodeChar c ++ rest) = some c := by
  rw [decodeFirst, toByteArray_append]
  exact ByteArray.utf8DecodeChar?_utf8EncodeChar_append

theorem encode_append_of_decodeFirst {b : UInt8} {rest : List UInt8} {c : Char} (h : decodeFirst (b :: rest) = some c) :
    b :: rest = String.utf8EncodeChar c ++ rest.drop (c.utf8Size - 1) := by
  obtain ⟨tail, htail⟩ := ByteArray.exists_of_utf8DecodeChar?_eq_some h
  have hbytes : b :: rest = String.utf8EncodeChar c ++ tail.data.toList := by
    have hdata := congrArg (fun b => b.data.toList) htail
    simpa using hdata
  have hdrop : (b :: rest).drop c.utf8Size = tail.data.toList := by
    rw [hbytes, ← String.length_utf8EncodeChar, drop_left]
  rw [← Nat.sub_add_cancel c.utf8Size_pos, drop_succ_cons] at hdrop
  rw [hdrop]
  exact hbytes

theorem zero_mem_utf8EncodeChar (c : Char) : 0 ∈ String.utf8EncodeChar c ↔ c = '\x00' := by
  have hbyte (n : ℕ) : 0 = UInt8.ofNat n ↔ n % 256 = 0 := by
    rw [← UInt8.toNat_inj, UInt8.toNat_ofNat']
    exact eq_comm
  have hnul : c = '\x00' ↔ c.val.toNat = 0 := by
    rw [Char.ext_iff, ← UInt32.toNat_inj]
    rfl
  rw [hnul]
  unfold String.utf8EncodeChar
  dsimp only
  split_ifs
  all_goals
    simp only [mem_cons, not_mem_nil, or_false, hbyte]
    omega

theorem zero_mem_encode (text : List Char) : 0 ∈ encode text ↔ '\x00' ∈ text := by
  rw [encode, mem_flatMap]
  constructor
  · rintro ⟨c, hc, hzero⟩
    rwa [← (zero_mem_utf8EncodeChar c).1 hzero]
  · intro h
    exact ⟨_, h, (zero_mem_utf8EncodeChar _).2 rfl⟩

/-! ## The decoders -/

variable {bytes : List UInt8} {text : List Char} {skip : ℕ}

theorem encode_of_decodeFrom {i : ℕ} (h : decodeFrom i skip bytes = .ok text) : bytes.drop skip = encode text := by
  induction bytes generalizing i skip text with
  | nil =>
    rw [decodeFrom] at h
    cases h
    rw [drop_nil, encode_nil]
  | cons b rest ih =>
    cases skip with
    | succ skip => exact ih h
    | zero =>
      rw [decodeFrom] at h
      split at h
      next c hc =>
        obtain ⟨tail, htail, rfl⟩ := Except.map_eq_ok_iff.1 h
        rw [drop_zero, encode_cons, ← ih htail]
        exact encode_append_of_decodeFirst hc
      · cases h

/-- What the strict decoder accepts is the encoding of its result. -/
theorem encode_of_decode (h : decode bytes = .ok text) : bytes = encode text := encode_of_decodeFrom h

/-- The bytes that belong to the last character are passed over. -/
theorem decodeFrom_append (i : ℕ) (skipped rest : List UInt8) :
    decodeFrom i skipped.length (skipped ++ rest) = decodeFrom (i + skipped.length) 0 rest := by
  induction skipped generalizing i with
  | nil => rfl
  | cons b skipped ih =>
    rw [cons_append, length_cons, decodeFrom, ih, Nat.add_right_comm, Nat.add_assoc]

theorem decodeFrom_encode (i : ℕ) (text : List Char) : decodeFrom i 0 (encode text) = .ok text := by
  induction text generalizing i with
  | nil => rfl
  | cons c text ih =>
    obtain ⟨b, bytes, hbytes⟩ := exists_cons_of_length_pos
      (show 0 < (String.utf8EncodeChar c).length by rw [String.length_utf8EncodeChar]; exact c.utf8Size_pos)
    have hfirst := decodeFirst_encode_append c (encode text)
    have hsize : c.utf8Size - 1 = bytes.length := by
      rw [← String.length_utf8EncodeChar, hbytes, length_cons, Nat.add_sub_cancel]
    rw [hbytes, cons_append] at hfirst
    rw [encode_cons, hbytes, cons_append, decodeFrom, hfirst]
    dsimp only
    rw [hsize, decodeFrom_append, ih]
    rfl

theorem decode_encode (text : List Char) : decode (encode text) = .ok text := decodeFrom_encode 0 text

theorem decodeLossy_ascii (h : ∀ b ∈ bytes, b < 128) : decodeLossy bytes = bytes.map asciiChar := by
  induction bytes with
  | nil => rfl
  | cons b rest ih =>
    obtain ⟨hb, hrest⟩ := forall_mem_cons.1 h
    have hsize := String.length_utf8EncodeChar (asciiChar b)
    have hfirst := decodeFirst_encode_append (asciiChar b) rest
    rw [utf8EncodeChar_asciiChar hb] at hsize hfirst
    rw [singleton_append] at hfirst
    rw [decodeLossy, decodeLossyFrom, hfirst, map_cons, ← ih hrest]
    dsimp only
    rw [← hsize]
    rfl

theorem zero_mem_of_decodeLossyFrom (h : '\x00' ∈ decodeLossyFrom skip bytes) : 0 ∈ bytes := by
  induction bytes generalizing skip with
  | nil =>
    rw [decodeLossyFrom] at h
    cases h
  | cons b rest ih =>
    cases skip with
    | succ skip => exact mem_cons_of_mem _ (ih h)
    | zero =>
      rw [decodeLossyFrom] at h
      split at h
      next c hc =>
        rcases mem_cons.1 h with rfl | h
        · rw [encode_append_of_decodeFirst hc]
          exact mem_append_left _ ((zero_mem_utf8EncodeChar _).2 rfl)
        · exact mem_cons_of_mem _ (ih h)
      · rcases mem_cons.1 h with h | h
        · exact absurd h (by decide)
        · exact mem_cons_of_mem _ (ih h)

theorem zero_mem_of_decodeLossy (h : '\x00' ∈ decodeLossy bytes) : 0 ∈ bytes :=
  zero_mem_of_decodeLossyFrom h

-- a stray byte, a sequence cut short by a letter, and one cut short by the end
example : decodeLossy [0xff, 0xe2, 0x82, 0x41, 0xc3] = ['�', '�', 'A', '�'] := by decide +kernel

end Utf8
