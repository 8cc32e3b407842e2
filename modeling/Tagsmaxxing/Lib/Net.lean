import Mathlib.Data.Nat.Bitwise

/-! # IP addresses (`std::net`)

Addresses of both families, the classification methods of the standard library, and its address
parser. An address is its octets (IPv4) or segments (IPv6) in the code, and a number in the
specification: `InNet` says that a number lies in a CIDR block, and each classification method comes
with the block it tests for. -/

namespace Net

/-! ## Addresses -/

/-- `Ipv4Addr`, by octets. -/
structure Ipv4Addr where
  a : UInt8
  b : UInt8
  c : UInt8
  d : UInt8
deriving DecidableEq, Repr

/-- `Ipv6Addr`, by segments. -/
structure Ipv6Addr where
  s0 : UInt16
  s1 : UInt16
  s2 : UInt16
  s3 : UInt16
  s4 : UInt16
  s5 : UInt16
  s6 : UInt16
  s7 : UInt16
deriving DecidableEq, Repr

inductive IpAddr
  | v4 (ip : Ipv4Addr)
  | v6 (ip : Ipv6Addr)
deriving DecidableEq, Repr

structure SocketAddr where
  ip : IpAddr
  port : UInt16
deriving DecidableEq, Repr

def Ipv4Addr.toNat (x : Ipv4Addr) : ℕ :=
  x.a.toNat * 2 ^ 24 + x.b.toNat * 2 ^ 16 + x.c.toNat * 2 ^ 8 + x.d.toNat

def Ipv6Addr.toNat (x : Ipv6Addr) : ℕ :=
  x.s0.toNat * 2 ^ 112 + x.s1.toNat * 2 ^ 96 + x.s2.toNat * 2 ^ 80 + x.s3.toNat * 2 ^ 64 +
    x.s4.toNat * 2 ^ 48 + x.s5.toNat * 2 ^ 32 + x.s6.toNat * 2 ^ 16 + x.s7.toNat

/-- `n` is in the block `net/len` of `width`-bit addresses. -/
def InNet (width net len n : ℕ) : Prop := n / 2 ^ (width - len) = net / 2 ^ (width - len)

/-! ## Classification -/

namespace Ipv4Addr

def isLoopback (x : Ipv4Addr) : Bool := x.a == 127

def isPrivate (x : Ipv4Addr) : Bool :=
  x.a == 10 || (x.a == 172 && decide (16 ≤ x.b) && decide (x.b ≤ 31)) || (x.a == 192 && x.b == 168)

def isLinkLocal (x : Ipv4Addr) : Bool := x.a == 169 && x.b == 254

def isUnspecified (x : Ipv4Addr) : Bool := x == ⟨0, 0, 0, 0⟩

def isBroadcast (x : Ipv4Addr) : Bool := x == ⟨255, 255, 255, 255⟩

end Ipv4Addr

namespace Ipv6Addr

def isLoopback (x : Ipv6Addr) : Bool := x == ⟨0, 0, 0, 0, 0, 0, 0, 1⟩

def isUnspecified (x : Ipv6Addr) : Bool := x == ⟨0, 0, 0, 0, 0, 0, 0, 0⟩

/-- The last four octets of an address in `::ffff:0:0/96`. -/
def toIpv4Mapped (x : Ipv6Addr) : Option Ipv4Addr :=
  if x.s0 = 0 ∧ x.s1 = 0 ∧ x.s2 = 0 ∧ x.s3 = 0 ∧ x.s4 = 0 ∧ x.s5 = 0xffff then
    some ⟨(x.s6 >>> 8).toUInt8, x.s6.toUInt8, (x.s7 >>> 8).toUInt8, x.s7.toUInt8⟩
  else none

end Ipv6Addr

/-! ## The blocks the methods test for -/

namespace Ipv4Addr

variable (x : Ipv4Addr)

theorem octets_lt : x.a.toNat < 256 ∧ x.b.toNat < 256 ∧ x.c.toNat < 256 ∧ x.d.toNat < 256 :=
  ⟨x.a.toNat_lt, x.b.toNat_lt, x.c.toNat_lt, x.d.toNat_lt⟩

theorem eq_iff (y : Ipv4Addr) : x = y ↔ x.a.toNat = y.a.toNat ∧ x.b.toNat = y.b.toNat ∧
    x.c.toNat = y.c.toNat ∧ x.d.toNat = y.d.toNat := by
  cases x
  cases y
  simp [UInt8.toNat_inj]

theorem isLoopback_iff : x.isLoopback = true ↔ InNet 32 (127 * 2 ^ 24) 8 x.toNat := by
  have h := x.octets_lt
  simp only [isLoopback, beq_iff_eq, ← UInt8.toNat_inj, UInt8.reduceToNat, InNet, toNat]
  omega

theorem isPrivate_iff : x.isPrivate = true ↔ InNet 32 (10 * 2 ^ 24) 8 x.toNat ∨
    InNet 32 (172 * 2 ^ 24 + 16 * 2 ^ 16) 12 x.toNat ∨
    InNet 32 (192 * 2 ^ 24 + 168 * 2 ^ 16) 16 x.toNat := by
  have h := x.octets_lt
  simp only [isPrivate, Bool.or_eq_true, Bool.and_eq_true, beq_iff_eq, decide_eq_true_eq,
    ← UInt8.toNat_inj, UInt8.le_iff_toNat_le, UInt8.reduceToNat, InNet, toNat]
  omega

theorem isLinkLocal_iff :
    x.isLinkLocal = true ↔ InNet 32 (169 * 2 ^ 24 + 254 * 2 ^ 16) 16 x.toNat := by
  have h := x.octets_lt
  simp only [isLinkLocal, Bool.and_eq_true, beq_iff_eq, ← UInt8.toNat_inj, UInt8.reduceToNat, InNet, toNat]
  omega

theorem isUnspecified_iff : x.isUnspecified = true ↔ x.toNat = 0 := by
  have h := x.octets_lt
  simp only [isUnspecified, beq_iff_eq, eq_iff, UInt8.reduceToNat, toNat]
  omega

theorem isBroadcast_iff : x.isBroadcast = true ↔ x.toNat = 2 ^ 32 - 1 := by
  have h := x.octets_lt
  simp only [isBroadcast, beq_iff_eq, eq_iff, UInt8.reduceToNat, toNat]
  omega

end Ipv4Addr

namespace Ipv6Addr

variable (x : Ipv6Addr)

theorem segments_lt : x.s0.toNat < 65536 ∧ x.s1.toNat < 65536 ∧ x.s2.toNat < 65536 ∧
    x.s3.toNat < 65536 ∧ x.s4.toNat < 65536 ∧ x.s5.toNat < 65536 ∧ x.s6.toNat < 65536 ∧
    x.s7.toNat < 65536 :=
  ⟨x.s0.toNat_lt, x.s1.toNat_lt, x.s2.toNat_lt, x.s3.toNat_lt, x.s4.toNat_lt, x.s5.toNat_lt,
    x.s6.toNat_lt, x.s7.toNat_lt⟩

theorem eq_iff (y : Ipv6Addr) : x = y ↔ x.s0.toNat = y.s0.toNat ∧ x.s1.toNat = y.s1.toNat ∧
    x.s2.toNat = y.s2.toNat ∧ x.s3.toNat = y.s3.toNat ∧ x.s4.toNat = y.s4.toNat ∧
    x.s5.toNat = y.s5.toNat ∧ x.s6.toNat = y.s6.toNat ∧ x.s7.toNat = y.s7.toNat := by
  cases x
  cases y
  simp [UInt16.toNat_inj]

theorem isLoopback_iff : x.isLoopback = true ↔ x.toNat = 1 := by
  have h := x.segments_lt
  simp only [isLoopback, beq_iff_eq, eq_iff, UInt16.reduceToNat, toNat]
  omega

theorem isUnspecified_iff : x.isUnspecified = true ↔ x.toNat = 0 := by
  have h := x.segments_lt
  simp only [isUnspecified, beq_iff_eq, eq_iff, UInt16.reduceToNat, toNat]
  omega

/-- The mapped addresses are the block `::ffff:0:0/96`, and stand for their low 32 bits. -/
theorem toIpv4Mapped_cases :
    (∃ v, x.toIpv4Mapped = some v ∧ InNet 128 (0xffff * 2 ^ 32) 96 x.toNat ∧
      v.toNat = x.toNat % 2 ^ 32) ∨
    (x.toIpv4Mapped = none ∧ ¬ InNet 128 (0xffff * 2 ^ 32) 96 x.toNat) := by
  have h := x.segments_lt
  unfold toIpv4Mapped
  simp only [← UInt16.toNat_inj, UInt16.reduceToNat]
  split
  next hm =>
    refine Or.inl ⟨_, rfl, ?_, ?_⟩
    · simp only [InNet, toNat]
      omega
    · simp only [Ipv4Addr.toNat, toNat, UInt16.toNat_toUInt8, UInt16.toNat_shiftRight,
        UInt16.reduceToNat, Nat.shiftRight_eq_div_pow, Nat.reduceMod, Nat.reducePow]
      omega
  next hm =>
    refine Or.inr ⟨rfl, ?_⟩
    simp only [InNet, toNat]
    omega

end Ipv6Addr

/-- Testing the top bits of a word with a mask is a division. -/
theorem and_shiftLeft_eq_iff (x k m v : ℕ) :
    x &&& (m <<< k) = v <<< k ↔ (x / 2 ^ k) &&& m = v := by
  have h : x &&& (m <<< k) = ((x >>> k) &&& m) <<< k := by
    apply Nat.eq_of_testBit_eq
    intro i
    by_cases hi : k ≤ i
    · simp [hi]
    · simp [hi]
  rw [h, Nat.shiftRight_eq_div_pow]
  constructor
  · intro heq
    have := congrArg (· >>> k) heq
    simpa using this
  · rintro rfl
    rfl

/-! ## The parser (`std::net::parser`)

Each reader consumes a prefix of the input and returns what is left, or nothing at all (the standard
library's `read_atomically`). -/

/-- `char::to_digit` for radix 10 and 16. -/
def toDigit (radix : ℕ) (c : Char) : Option ℕ :=
  let n := c.toNat
  let v :=
    if 48 ≤ n ∧ n ≤ 57 then n - 48
    else if 97 ≤ n ∧ n ≤ 102 then n - 87
    else if 65 ≤ n ∧ n ≤ 70 then n - 55
    else radix
  if v < radix then some v else none

/-- The digit loop of `read_number`: the value, the number of digits, and the rest. -/
def readDigits (radix maxDigits : ℕ) : ℕ → ℕ → List Char → Option (ℕ × ℕ × List Char)
  | result, count, [] => some (result, count, [])
  | result, count, c :: cs =>
      match toDigit radix c with
      | none => some (result, count, c :: cs)
      | some d =>
          if maxDigits < count + 1 then none
          else readDigits radix maxDigits (result * radix + d) (count + 1) cs

/-- `Parser::read_number`; `bound` is one more than the largest value of the target type. -/
def readNumber (radix maxDigits : ℕ) (allowZeroPrefix : Bool) (bound : ℕ) (input : List Char) :
    Option (ℕ × List Char) :=
  match readDigits radix maxDigits 0 0 input with
  | none => none
  | some (result, count, rest) =>
      if count = 0 then none
      else if !allowZeroPrefix && input.head? == some '0' && decide (1 < count) then none
      else if result < bound then some (result, rest) else none

/-- `Parser::read_separator`: the separator stands before every element but the first. -/
def readSeparator {α : Type} (sep : Char) (index : ℕ) (inner : List Char → Option (α × List Char))
    (input : List Char) : Option (α × List Char) :=
  if 0 < index then
    match input with
    | [] => none
    | c :: cs => if c = sep then inner cs else none
  else inner input

/-- `Parser::read_ipv4_addr`. -/
def readIpv4Addr (input : List Char) : Option (Ipv4Addr × List Char) :=
  let octet (i : ℕ) := readSeparator '.' i (readNumber 10 3 false 256)
  match octet 0 input with
  | none => none
  | some (a, input) => match octet 1 input with
    | none => none
    | some (b, input) => match octet 2 input with
      | none => none
      | some (c, input) => match octet 3 input with
        | none => none
        | some (d, input) =>
            some (⟨UInt8.ofNat a, UInt8.ofNat b, UInt8.ofNat c, UInt8.ofNat d⟩, input)

/-- `read_groups`, with `slots` groups left to read from index `i` on: the groups, whether they end
    in an embedded IPv4 address, and the rest. -/
def readGroups : ℕ → ℕ → List Char → List UInt16 × Bool × List Char
  | 0, _, input => ([], false, input)
  | slots + 1, i, input =>
      match if 1 ≤ slots then readSeparator ':' i readIpv4Addr input else none with
      | some (v4, rest) =>
          ([UInt16.ofNat (v4.a.toNat * 256 + v4.b.toNat), UInt16.ofNat (v4.c.toNat * 256 + v4.d.toNat)], true, rest)
      | none =>
          match readSeparator ':' i (readNumber 16 4 true 65536) input with
          | none => ([], false, input)
          | some (g, rest) =>
              let (gs, v4, rest) := readGroups slots (i + 1) rest
              (UInt16.ofNat g :: gs, v4, rest)

/-- Eight segments as an address. -/
def ofSegments : List UInt16 → Option Ipv6Addr
  | [a, b, c, d, e, f, g, h] => some ⟨a, b, c, d, e, f, g, h⟩
  | _ => none

/-- `Parser::read_ipv6_addr`. -/
def readIpv6Addr (input : List Char) : Option (Ipv6Addr × List Char) :=
  let (head, headIpv4, rest) := readGroups 8 0 input
  if head.length = 8 then (ofSegments head).map fun x => (x, rest)
  else if headIpv4 then none
  else
    match rest with
    | ':' :: ':' :: rest =>
        -- the `::` stands for at least one group of zeroes
        let (tail, _, rest) := readGroups (8 - (head.length + 1)) 0 rest
        (ofSegments (head ++ List.replicate (8 - head.length - tail.length) 0 ++ tail)).map
          fun x => (x, rest)
    | _ => none

/-- `str::parse::<IpAddr>`: the whole input must be consumed. -/
def parseIpAddr (s : String) : Option IpAddr :=
  match readIpv4Addr s.toList with
  | some (ip, rest) => if rest.isEmpty then some (.v4 ip) else none
  | none =>
      match readIpv6Addr s.toList with
      | some (ip, rest) => if rest.isEmpty then some (.v6 ip) else none
      | none => none

example : parseIpAddr "::ffff:127.0.0.1" = some (.v6 ⟨0, 0, 0, 0, 0, 0xffff, 0x7f00, 1⟩) := by
  decide +kernel

example : parseIpAddr "127.0.0.01" = none := by decide +kernel

end Net
