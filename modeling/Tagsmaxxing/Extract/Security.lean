import Tagsmaxxing.Lib.Net

/-! # Internal hosts and addresses (`security.rs`)

`is_internal_ip` normalises IPv4-mapped IPv6 addresses and then asks the standard library's
classification methods; the IPv6 unique-local and link-local tests are masks on the first segment.
`Internal` is what the guard is for, stated by CIDR block and without any normalisation;
`isInternalIp_iff` says the guard is exact. -/

namespace Tagsmaxxing.Security

open Net

/-! ## The code -/

def isIpv6UniqueLocal (ip : Ipv6Addr) : Bool := ip.s0 &&& 0xfe00 == 0xfc00

def isIpv6LinkLocal (ip : Ipv6Addr) : Bool := ip.s0 &&& 0xffc0 == 0xfe80

def isInternalIp (ip : IpAddr) : Bool :=
  let ip := match ip with
    | .v6 v6 => ((v6.toIpv4Mapped).map IpAddr.v4).getD (.v6 v6)
    | .v4 v4 => .v4 v4
  match ip with
  | .v4 v4 => v4.isLoopback || v4.isPrivate || v4.isLinkLocal || v4.isUnspecified || v4.isBroadcast
  | .v6 v6 => v6.isLoopback || v6.isUnspecified || isIpv6UniqueLocal v6 || isIpv6LinkLocal v6

/-- `is_internal_host`. `toLowercase` is the standard library's `str::to_lowercase`. -/
def isInternalHost (toLowercase : String → String) (host : String) : Bool :=
  match parseIpAddr host with
  | some ip => isInternalIp ip
  | none =>
      let lower := (toLowercase host).toList
      let endsWith (suffix : String) : Bool := suffix.toList.isSuffixOf lower
      lower == "localhost".toList || endsWith ".local" || endsWith ".internal" ||
        endsWith ".localhost"

/-! ## What it is for -/

/-- Loopback, private, link-local, unspecified and broadcast IPv4 addresses, as numbers. -/
def InternalV4 (n : ℕ) : Prop :=
  InNet 32 (127 * 2 ^ 24) 8 n ∨
  InNet 32 (10 * 2 ^ 24) 8 n ∨
  InNet 32 (172 * 2 ^ 24 + 16 * 2 ^ 16) 12 n ∨
  InNet 32 (192 * 2 ^ 24 + 168 * 2 ^ 16) 16 n ∨
  InNet 32 (169 * 2 ^ 24 + 254 * 2 ^ 16) 16 n ∨
  n = 0 ∨ n = 2 ^ 32 - 1

/-- Loopback (`::1`), unspecified (`::`), unique-local (`fc00::/7`) and link-local (`fe80::/10`) IPv6
    addresses, and the IPv4-mapped forms (`::ffff:0:0/96`) of internal IPv4 addresses. -/
def InternalV6 (n : ℕ) : Prop :=
  n = 1 ∨ n = 0 ∨
  InNet 128 (0xfc00 * 2 ^ 112) 7 n ∨
  InNet 128 (0xfe80 * 2 ^ 112) 10 n ∨
  (InNet 128 (0xffff * 2 ^ 32) 96 n ∧ InternalV4 (n % 2 ^ 32))

/-- The addresses a fetch must never connect to. -/
def Internal : IpAddr → Prop
  | .v4 ip => InternalV4 ip.toNat
  | .v6 ip => InternalV6 ip.toNat

/-! ## The guard is exact -/

theorem v4_iff (v4 : Ipv4Addr) :
    (v4.isLoopback || v4.isPrivate || v4.isLinkLocal || v4.isUnspecified || v4.isBroadcast) = true ↔
      InternalV4 v4.toNat := by
  simp only [Bool.or_eq_true, Ipv4Addr.isLoopback_iff, Ipv4Addr.isPrivate_iff,
    Ipv4Addr.isLinkLocal_iff, Ipv4Addr.isUnspecified_iff, Ipv4Addr.isBroadcast_iff, InternalV4,
    or_assoc]

theorem isIpv6UniqueLocal_iff (v6 : Ipv6Addr) :
    isIpv6UniqueLocal v6 = true ↔ InNet 128 (0xfc00 * 2 ^ 112) 7 v6.toNat := by
  have h := v6.segments_lt
  have hmask : v6.s0.toNat &&& 0xfe00 = 0xfc00 ↔ v6.s0.toNat / 2 ^ 9 = 126 := by
    have := and_shiftLeft_eq_iff v6.s0.toNat 9 (2 ^ 7 - 1) 126
    rwa [Nat.and_two_pow_sub_one_eq_mod, Nat.mod_eq_of_lt (by omega)] at this
  simp only [isIpv6UniqueLocal, beq_iff_eq, ← UInt16.toNat_inj, UInt16.toNat_and,
    UInt16.reduceToNat, hmask, InNet, Ipv6Addr.toNat]
  omega

theorem isIpv6LinkLocal_iff (v6 : Ipv6Addr) :
    isIpv6LinkLocal v6 = true ↔ InNet 128 (0xfe80 * 2 ^ 112) 10 v6.toNat := by
  have h := v6.segments_lt
  have hmask : v6.s0.toNat &&& 0xffc0 = 0xfe80 ↔ v6.s0.toNat / 2 ^ 6 = 1018 := by
    have := and_shiftLeft_eq_iff v6.s0.toNat 6 (2 ^ 10 - 1) 1018
    rwa [Nat.and_two_pow_sub_one_eq_mod, Nat.mod_eq_of_lt (by omega)] at this
  simp only [isIpv6LinkLocal, beq_iff_eq, ← UInt16.toNat_inj, UInt16.toNat_and,
    UInt16.reduceToNat, hmask, InNet, Ipv6Addr.toNat]
  omega

/-- **The address guard.** `is_internal_ip` accepts exactly the internal addresses. -/
theorem isInternalIp_iff (ip : IpAddr) : isInternalIp ip = true ↔ Internal ip := by
  cases ip with
  | v4 v4 => exact v4_iff v4
  | v6 v6 =>
    rcases v6.toIpv4Mapped_cases with ⟨v4, hmap, hnet, hv4⟩ | ⟨hmap, hnet⟩
    · -- a mapped address is in none of the IPv6 blocks
      simp only [isInternalIp, hmap, Option.map_some, Option.getD_some, v4_iff, hv4, Internal, InternalV6]
      refine ⟨fun h => .inr (.inr (.inr (.inr ⟨hnet, h⟩))), ?_⟩
      simp only [InNet] at hnet ⊢
      rintro (h | h | h | h | ⟨-, h⟩)
      · omega
      · omega
      · omega
      · omega
      · exact h
    · simp only [isInternalIp, hmap, Option.map_none, Option.getD_none, Bool.or_eq_true,
        Ipv6Addr.isLoopback_iff, Ipv6Addr.isUnspecified_iff, isIpv6UniqueLocal_iff,
        isIpv6LinkLocal_iff, Internal, InternalV6, hnet, false_and, or_false, or_assoc]

end Tagsmaxxing.Security
