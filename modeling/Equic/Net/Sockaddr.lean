import Mathlib.Data.List.Basic

/-!
# Addresses

`struct in_addr`, the socket addresses that lsquic reports for a peer, and `inet_ntoa`.

An IPv4 address is kept as its four octets in network byte order. That is also the memory
image of a `__be32`, so two `__be32` keys are equal exactly when their `InAddr` are.
-/

namespace Equic.Net

/-! ## §1 IPv4 addresses -/

/-- `struct in_addr`: the octets of an IPv4 address in network byte order. -/
@[ext] structure InAddr where
  o1 : UInt8
  o2 : UInt8
  o3 : UInt8
  o4 : UInt8
  deriving DecidableEq, Repr

/-- The memory image of the address. -/
def InAddr.bytes (a : InAddr) : List UInt8 := [a.o1, a.o2, a.o3, a.o4]

/-- Two addresses share their first three octets. -/
def InAddr.SameNet24 (a b : InAddr) : Prop := a.o1 = b.o1 ∧ a.o2 = b.o2 ∧ a.o3 = b.o3

instance (a b : InAddr) : Decidable (a.SameNet24 b) :=
  inferInstanceAs (Decidable (_ ∧ _ ∧ _))

theorem InAddr.SameNet24.symm {a b : InAddr} (h : a.SameNet24 b) : b.SameNet24 a :=
  ⟨h.1.symm, h.2.1.symm, h.2.2.symm⟩

theorem InAddr.SameNet24.trans {a b c : InAddr} (h : a.SameNet24 b) (h' : b.SameNet24 c) :
    a.SameNet24 c :=
  ⟨h.1.trans h'.1, h.2.1.trans h'.2.1, h.2.2.trans h'.2.2⟩

/-- Inside one /24 network the last octet identifies the address. -/
theorem InAddr.SameNet24.eq_iff {a b : InAddr} (h : a.SameNet24 b) : a = b ↔ a.o4 = b.o4 := by
  obtain ⟨h₁, h₂, h₃⟩ := h
  simp [InAddr.ext_iff, h₁, h₂, h₃]

/-! ## §2 Socket addresses -/

/-- `struct sockaddr_in`, the family field being fixed by the type. -/
structure SockaddrIn where
  sinPort : UInt16
  sinAddr : InAddr
  deriving DecidableEq, Repr

/-- `struct sockaddr_in6`, the family field being fixed by the type. -/
structure SockaddrIn6 where
  sin6Port : UInt16
  sin6Flowinfo : UInt32
  sin6Addr : Vector UInt8 16
  sin6ScopeId : UInt32
  deriving DecidableEq, Repr

/-- What a `const struct sockaddr *` points at. -/
inductive Sockaddr where
  | inet (sin : SockaddrIn)
  | inet6 (sin6 : SockaddrIn6)
  deriving DecidableEq, Repr

/-- A 16-bit value in network byte order. -/
def be16 (v : UInt16) : List UInt8 := [(v >>> 8).toUInt8, v.toUInt8]

/-- A 32-bit value in network byte order. -/
def be32 (v : UInt32) : List UInt8 :=
  [(v >>> 24).toUInt8, (v >>> 16).toUInt8, (v >>> 8).toUInt8, v.toUInt8]

/-- The memory image of a socket address (`AF_INET` is 2, `AF_INET6` is 10; the family and
    the scope id are stored in the host's little-endian order). -/
def Sockaddr.bytes : Sockaddr → List UInt8
  | .inet sin => [2, 0] ++ be16 sin.sinPort ++ sin.sinAddr.bytes ++ List.replicate 8 0
  | .inet6 sin6 =>
    [10, 0] ++ be16 sin6.sin6Port ++ be32 sin6.sin6Flowinfo ++ sin6.sin6Addr.toList ++
      (be32 sin6.sin6ScopeId).reverse

/-- `((struct sockaddr_in *) sa)->sin_addr`: the bytes at offset 4, whatever the family. -/
def Sockaddr.sinAddr (sa : Sockaddr) : InAddr :=
  ⟨sa.bytes.getD 4 0, sa.bytes.getD 5 0, sa.bytes.getD 6 0, sa.bytes.getD 7 0⟩

@[simp] theorem Sockaddr.sinAddr_inet (sin : SockaddrIn) :
    (Sockaddr.inet sin).sinAddr = sin.sinAddr := rfl

/-! ## §3 `inet_ntoa` -/

/-- The decimal digits of one octet. -/
def octetDigits (o : UInt8) : List Char := Nat.toDigits 10 o.toNat

/-- `inet_ntoa`: dotted-decimal text, without the terminating NUL. -/
def inetNtoa (a : InAddr) : List Char :=
  octetDigits a.o1 ++ '.' :: octetDigits a.o2 ++ '.' :: octetDigits a.o3 ++ '.' :: octetDigits a.o4

theorem octetDigits_isDigit {o : UInt8} {c : Char} (h : c ∈ octetDigits o) : c.isDigit = true :=
  Nat.isDigit_of_mem_toDigits (by omega) (by omega) h

theorem octetDigits_length_le (o : UInt8) : (octetDigits o).length ≤ 3 := by
  have := o.toNat_lt
  exact (Nat.length_toDigits_le_iff (by omega) (by omega)).mpr (by omega)

theorem inetNtoa_length_le (a : InAddr) : (inetNtoa a).length ≤ 15 := by
  have h₁ := octetDigits_length_le a.o1
  have h₂ := octetDigits_length_le a.o2
  have h₃ := octetDigits_length_le a.o3
  have h₄ := octetDigits_length_le a.o4
  simp only [inetNtoa, List.length_append, List.length_cons]
  omega

/-- Reading the digits back gives the octet. -/
theorem ofDigitChars_octetDigits (o : UInt8) :
    Nat.ofDigitChars 10 (octetDigits o) 0 = o.toNat :=
  Nat.ofDigitChars_ten_toDigits

/-- The text ends in a dot and the digits of the last octet, after a non-empty prefix. -/
theorem inetNtoa_eq_append (a : InAddr) :
    ∃ p, p ≠ [] ∧ inetNtoa a = p ++ '.' :: octetDigits a.o4 := by
  refine ⟨octetDigits a.o1 ++ '.' :: octetDigits a.o2 ++ '.' :: octetDigits a.o3, ?_, ?_⟩
  · simp
  · simp [inetNtoa]

end Equic.Net
