import Fishnet.Library.DottedQuad
import Fishnet.Net.IntCodec

/-!
# `InetAddress`: the text of an address

An `InetAddress` is a union of `sockaddr_in` and `sockaddr_in6`, which have the family at offset `0`
and the port at offset `2`. The address is at offset `4` of the first and at offset `8` of the
second. It is modelled by its bytes, because reader and writer get at them through pointers.

The writer puts the four bytes of an IPv4 address where they belong. The reader, `sockets::toIp`,
hands `inet_ntop` the address of the *port*. So the text has the two bytes of the port first, and
then the first two of the address.

## IPv6

The texts of IPv6 addresses are given by two functions. A text with a colon is taken for one of
them.

## Main results

* `InetAddress.ipText_iff`: which endpoints have the text they should have, and which have the same.
-/

namespace Fishnet

open List

/-- `inet_ntop` and `inet_pton` for `AF_INET6`. -/
structure Inet6Text where
  ntop : Bytes → List Char
  pton : List Char → Option Bytes
  length_pton : ∀ {t q}, pton t = some q → q.length = 16

namespace Sockets

def AF_INET : ℕ := 2

def AF_INET6 : ℕ := 10

def INET_ADDRSTRLEN : ℕ := 16

def INET6_ADDRSTRLEN : ℕ := 46

/-- `addr->sa_family`. -/
def saFamily (addr : Bytes) : ℕ := ofLeBytes (window addr 0 2)

/-- `addr4->sin_port`, and `addr6->sin6_port`. -/
def sinPort (addr : Bytes) : BitVec 16 := BitVec.ofNat 16 (ofLeBytes (window addr 2 4))

/-- What `inet_ntop` leaves in an empty buffer of `size` bytes. -/
def inetNtop (size : ℕ) (text : List Char) : List Char :=
  if text.length < size then text else []

/-- What `snprintf` leaves in a buffer of `size` bytes. -/
def snprintf (size : ℕ) (text : List Char) : List Char := text.take (size - 1)

variable (text6 : Inet6Text)

/-- The text in `buf`, which was empty. Note the pointer to `sin_port`. -/
def toIp (size : ℕ) (addr : Bytes) : Checked (List Char) :=
  if saFamily addr = AF_INET then do
    assert (size ≥ INET_ADDRSTRLEN)
    return inetNtop size (dotted (window addr 2 6))
  else if saFamily addr = AF_INET6 then do
    assert (size ≥ INET6_ADDRSTRLEN)
    return inetNtop size (text6.ntop (window addr 8 24))
  else return []

def toIpPort (size : ℕ) (addr : Bytes) : Checked (List Char) :=
  if saFamily addr = AF_INET6 then do
    let ip ← toIp text6 (size - 1) addr
    let buf := '[' :: ip
    let port := networkToHost16 (sinPort addr)
    assert (size > buf.length)
    return buf ++ snprintf (size - buf.length) (']' :: ':' :: Nat.toDigits 10 port.toNat)
  else do
    let buf ← toIp text6 size addr
    let port := networkToHost16 (sinPort addr)
    assert (size > buf.length)
    return buf ++ snprintf (size - buf.length) (':' :: Nat.toDigits 10 port.toNat)

/-- `fromIpPort` for one of the families, with the offset of the address and the result of
`inet_pton`. The second component is what is logged. -/
def fromIpPort (family : ℕ) (offset : ℕ) (address : Option Bytes) (port : BitVec 16)
    (addr : Bytes) : Bytes × List String :=
  let addr := writeAt addr 0 (leBytes 2 family)
  let addr := writeAt addr 2 (leBytes 2 (hostToNetwork16 (port.setWidth 32)).toNat)
  match address with
  | some q => (writeAt addr offset q, [])
  | none => (addr, ["sockets::fromIpPort"])

/-- `fromIpPort(ip, port, struct sockaddr_in*)`. -/
def fromIpPort4 (ip : List Char) : BitVec 16 → Bytes → Bytes × List String :=
  fromIpPort AF_INET 4 (parseDotted ip)

/-- `fromIpPort(ip, port, struct sockaddr_in6*)`. -/
def fromIpPort6 (ip : List Char) : BitVec 16 → Bytes → Bytes × List String :=
  fromIpPort AF_INET6 8 (text6.pton ip)

theorem length_fromIpPort {family offset : ℕ} {address : Option Bytes} {port : BitVec 16}
    {addr : Bytes} (hlength : addr.length = 28)
    (haddress : ∀ q, address = some q → offset + q.length ≤ 28) :
    (fromIpPort family offset address port addr).1.length = 28 := by
  have hfamily : (writeAt addr 0 (leBytes 2 family)).length = 28 := by
    rw [length_writeAt (by simp [hlength]), hlength]
  have hport : (writeAt (writeAt addr 0 (leBytes 2 family)) 2
      (leBytes 2 (hostToNetwork16 (port.setWidth 32)).toNat)).length = 28 := by
    rw [length_writeAt (by simp [hfamily]), hfamily]
  cases address with
  | none => exact hport
  | some q =>
    have hq := haddress q rfl
    rw [← hport]
    exact length_writeAt (by rw [hport]; exact hq)

theorem length_fromIpPort4 {ip : List Char} {port : BitVec 16} {addr : Bytes}
    (h : addr.length = 28) : (fromIpPort4 ip port addr).1.length = 28 :=
  length_fromIpPort h fun q hq ↦ by
    rw [(dotted_of_parseDotted hq).1]
    norm_num

theorem length_fromIpPort6 {ip : List Char} {port : BitVec 16} {addr : Bytes}
    (h : addr.length = 28) : (fromIpPort6 text6 ip port addr).1.length = 28 :=
  length_fromIpPort h fun q hq ↦ by
    rw [text6.length_pton hq]
    norm_num

end Sockets

/-- `class InetAddress`. -/
structure InetAddress where
  bytes : Bytes
  length_bytes : bytes.length = 28

namespace InetAddress

open Sockets

variable (text6 : Inet6Text)

/-- The bytes after `memZero` of the first `n`. -/
def zeroed (memory : InetAddress) (n : ℕ) : Bytes :=
  writeAt memory.bytes 0 (replicate n 0)

theorem length_zeroed (memory : InetAddress) {n : ℕ} (h : n ≤ 28) :
    (memory.zeroed n).length = 28 := by
  rw [zeroed, length_writeAt, memory.length_bytes]
  rw [length_replicate, memory.length_bytes]
  omega

/-- `InetAddress(ip, portArg, ipv6)`, in a place that holds arbitrary bytes, and what is logged. -/
def ofIp (memory : InetAddress) (ip : List Char) (portArg : BitVec 16) (ipv6 : Bool) :
    InetAddress × List String :=
  if ipv6 || ip.contains ':' then
    (⟨(fromIpPort6 text6 ip portArg (memory.zeroed 28)).1,
      length_fromIpPort6 text6 (memory.length_zeroed (by norm_num))⟩,
      (fromIpPort6 text6 ip portArg (memory.zeroed 28)).2)
  else
    (⟨(fromIpPort4 ip portArg (memory.zeroed 16)).1,
      length_fromIpPort4 (memory.length_zeroed (by norm_num))⟩,
      (fromIpPort4 ip portArg (memory.zeroed 16)).2)

def family (a : InetAddress) : ℕ := saFamily a.bytes

def portNetEndian (a : InetAddress) : BitVec 16 := sinPort a.bytes

def port (a : InetAddress) : BitVec 16 := networkToHost16 a.portNetEndian

def toIp (a : InetAddress) : Checked (List Char) := Sockets.toIp text6 64 a.bytes

def toIpPort (a : InetAddress) : Checked (List Char) := Sockets.toIpPort text6 64 a.bytes

/-! ## The bytes of an IPv4 endpoint -/

section Endpoint

variable {text6} {memory memory' : InetAddress} {ip ip' : List Char} {q q' : Bytes}
  {portArg portArg' : BitVec 16}

/-- `InetAddress(ip, port)`. -/
def endpoint (text6 : Inet6Text) (memory : InetAddress) (ip : List Char) (portArg : BitVec 16) :
    InetAddress :=
  (ofIp text6 memory ip portArg false).1

theorem leBytes_hostToNetwork16 (port : BitVec 16) :
    leBytes 2 (hostToNetwork16 (port.setWidth 32)).toNat = beBytes 2 port.toNat := by
  have hport : (port.setWidth 32).setWidth 16 = port := by
    apply BitVec.eq_of_toNat_eq
    have hlt := port.isLt
    simp only [BitVec.toNat_setWidth]
    omega
  rw [hostToNetwork16, hport, htobe16, leBytes_swapWord (by norm_num)]

section

variable (h : parseDotted ip = some q)
include h

theorem bytes_endpoint :
    (endpoint text6 memory ip portArg).bytes =
      leBytes 2 AF_INET ++ beBytes 2 portArg.toNat ++ q ++
        (replicate 8 0 ++ memory.bytes.drop 16) := by
  obtain ⟨hlength, htext⟩ := dotted_of_parseDotted h
  have hcolon : ip.contains ':' = false := by
    rw [← htext, contains_eq_mem, decide_eq_false_iff_not]
    exact notMem_dotted (by decide) (by decide)
  obtain ⟨rest, hrest⟩ : ∃ rest, replicate 8 0 ++ memory.bytes.drop 16 = rest := ⟨_, rfl⟩
  have hzeroed : memory.zeroed 16 = [] ++ [0, 0] ++ ([0, 0] ++ [0, 0, 0, 0] ++ rest) := by
    rw [zeroed, writeAt, ← hrest]
    rfl
  -- the three fields are written one after the other
  have hfamily : writeAt (memory.zeroed 16) 0 (leBytes 2 AF_INET) =
      leBytes 2 AF_INET ++ [0, 0] ++ ([0, 0, 0, 0] ++ rest) := by
    rw [hzeroed, writeAt_append (i := 0) _ rfl (by simp)]
    simp
  have hport : writeAt (leBytes 2 AF_INET ++ [0, 0] ++ ([0, 0, 0, 0] ++ rest)) 2
      (beBytes 2 portArg.toNat) =
        leBytes 2 AF_INET ++ beBytes 2 portArg.toNat ++ [0, 0, 0, 0] ++ rest := by
    rw [writeAt_append (i := 2) _ (by simp) (by simp), ← append_assoc]
  simp only [endpoint, ofIp, hcolon, Bool.or_self, Bool.false_eq_true, if_false, fromIpPort4,
    fromIpPort, h, leBytes_hostToNetwork16, hfamily, hport, hrest]
  exact writeAt_append _ (by simp) (by simp [hlength])

theorem saFamily_endpoint :
    saFamily (endpoint text6 memory ip portArg).bytes = AF_INET := by
  rw [bytes_endpoint h, saFamily, append_assoc, append_assoc,
    ← nil_append (leBytes 2 AF_INET), window_append (i := 0) (j := 2) _ rfl (by simp)]
  rfl

theorem port_endpoint :
    networkToHost16 (sinPort (endpoint text6 memory ip portArg).bytes) = portArg := by
  rw [bytes_endpoint h, sinPort, append_assoc _ q,
    window_append (i := 2) (j := 4) _ (by simp) (by simp)]
  exact swapWord_ofLeBytes (by norm_num) portArg

end

/-- The four bytes from the port on: the port, and half of the address. -/
def shown (portArg : BitVec 16) (q : Bytes) : Bytes :=
  beBytes 2 portArg.toNat ++ q.take 2

theorem length_shown (portArg : BitVec 16) (hq : q.length = 4) : (shown portArg q).length = 4 := by
  simp [shown, hq]

theorem shown_inj : shown portArg q = shown portArg' q' ↔
    portArg = portArg' ∧ q.take 2 = q'.take 2 := by
  unfold shown
  constructor
  · intro h
    obtain ⟨hport, hq⟩ := append_inj h (by simp)
    rw [beBytes_inj portArg.isLt portArg'.isLt] at hport
    exact ⟨BitVec.eq_of_toNat_eq hport, hq⟩
  · rintro ⟨rfl, hq⟩
    rw [hq]

/-- The bytes shown are those of the address if both halves of it are the port. -/
theorem shown_eq_iff :
    shown portArg q = q ↔ q = beBytes 2 portArg.toNat ++ beBytes 2 portArg.toNat := by
  unfold shown
  constructor
  · intro h
    have hhalf := congrArg (List.take 2) h
    rw [take_left' (by simp)] at hhalf
    rw [← hhalf] at h
    exact h.symm
  · intro h
    rw [h, take_left' (by simp)]

section

variable (h : parseDotted ip = some q)
include h

theorem window_endpoint :
    window (endpoint text6 memory ip portArg).bytes 2 6 = shown portArg q := by
  obtain ⟨hlength, -⟩ := dotted_of_parseDotted h
  have hsplit (rest : Bytes) : leBytes 2 AF_INET ++ beBytes 2 portArg.toNat ++ q ++ rest =
      leBytes 2 AF_INET ++ shown portArg q ++ (q.drop 2 ++ rest) := by
    simp only [shown, append_assoc]
    rw [← append_assoc (q.take 2), take_append_drop]
  rw [bytes_endpoint h, hsplit]
  exact window_append _ (by simp) (by simp [length_shown portArg hlength])

theorem toIp_endpoint :
    (endpoint text6 memory ip portArg).toIp text6 = .ok (dotted (shown portArg q)) := by
  have hshort := length_dotted_le (q := shown portArg q)
  rw [length_shown portArg (dotted_of_parseDotted h).1] at hshort
  rw [toIp, Sockets.toIp, if_pos (saFamily_endpoint h), window_endpoint h,
    assert_bind_of (by decide), inetNtop, if_pos (by omega)]
  rfl

theorem toIpPort_endpoint :
    (endpoint text6 memory ip portArg).toIpPort text6 =
      .ok (dotted (shown portArg q) ++ ':' :: Nat.toDigits 10 portArg.toNat) := by
  have hshort := length_dotted_le (q := shown portArg q)
  rw [length_shown portArg (dotted_of_parseDotted h).1] at hshort
  have hip : Sockets.toIp text6 64 (endpoint text6 memory ip portArg).bytes =
      .ok (dotted (shown portArg q)) := toIp_endpoint h
  have hdigits : (Nat.toDigits 10 portArg.toNat).length ≤ 5 := by
    rw [Nat.length_toDigits_le_iff (by norm_num) (by norm_num)]
    exact portArg.isLt.trans (by norm_num)
  have hfamily : ¬saFamily (endpoint text6 memory ip portArg).bytes = AF_INET6 := by
    rw [saFamily_endpoint h]
    decide
  rw [toIpPort, Sockets.toIpPort, if_neg hfamily, hip, ok_bind, port_endpoint h,
    assert_bind_of (by omega), snprintf, take_of_length_le]
  · rfl
  · rw [length_cons]
    omega

end

/-- A system without IPv6. -/
def noInet6 : Inet6Text := ⟨fun _ ↦ [], fun _ ↦ none, nofun⟩

def blank : InetAddress := ⟨replicate 28 0, rfl⟩

/-! ## Main result -/

/-- **IPv4 texts.** An endpoint has the text it should have exactly if its address repeats the two
bytes of its port. Two endpoints have the same text exactly if their ports are equal and their
addresses agree in the first two bytes. -/
theorem ipText_iff (text6 : Inet6Text) :
    (∀ memory ip q portArg, parseDotted ip = some q →
      ((endpoint text6 memory ip portArg).toIp text6 = .ok ip ∧
        (endpoint text6 memory ip portArg).toIpPort text6 =
          .ok (ip ++ ':' :: Nat.toDigits 10 portArg.toNat) ∧
        (endpoint text6 memory ip portArg).port = portArg ↔
          q = beBytes 2 portArg.toNat ++ beBytes 2 portArg.toNat)) ∧
    ∀ memory ip q portArg memory' ip' q' portArg', parseDotted ip = some q →
      parseDotted ip' = some q' →
      ((endpoint text6 memory ip portArg).toIpPort text6 =
          (endpoint text6 memory' ip' portArg').toIpPort text6 ↔
        portArg = portArg' ∧ q.take 2 = q'.take 2) := by
  constructor
  · intro memory ip q portArg h
    obtain ⟨hlength, htext⟩ := dotted_of_parseDotted h
    have hport : (endpoint text6 memory ip portArg).port = portArg := port_endpoint h
    rw [toIp_endpoint h, toIpPort_endpoint h, ← shown_eq_iff]
    constructor
    · rintro ⟨hip, -, -⟩
      rw [Except.ok.injEq, ← htext, dotted_inj (length_shown portArg hlength) hlength] at hip
      exact hip
    · intro hshown
      rw [hshown, htext]
      exact ⟨rfl, rfl, hport⟩
  · intro memory ip q portArg memory' ip' q' portArg' h h'
    have hlength := length_shown portArg (dotted_of_parseDotted h).1
    have hlength' := length_shown portArg' (dotted_of_parseDotted h').1
    have hcolon : ':' ∉ dotted (shown portArg q) := notMem_dotted (by decide) (by decide)
    have hdigits : ':' ∉ Nat.toDigits 10 portArg.toNat := notMem_toDigits (by decide) _
    rw [toIpPort_endpoint h, toIpPort_endpoint h', Except.ok.injEq,
      append_cons_inj_of_notMem hcolon hdigits, dotted_inj hlength hlength', shown_inj]
    constructor
    · rintro ⟨hshown, -⟩
      exact hshown
    · rintro ⟨rfl, hq⟩
      exact ⟨⟨rfl, hq⟩, rfl, rfl⟩

/-- The bytes of `8080` are `31` and `144`. -/
theorem ipText_repeated_port :
    (endpoint noInet6 blank "31.144.31.144".toList 8080).toIp noInet6 =
      .ok "31.144.31.144".toList :=
  (((ipText_iff noInet6).1 blank "31.144.31.144".toList [31, 144, 31, 144] 8080
    (by decide +kernel)).2 (by decide +kernel)).1

/-- Port `80` of `192.168.0.1` and of `192.168.0.2` have the same text, which is neither's. -/
theorem ipText_wrong :
    (endpoint noInet6 blank "192.168.0.1".toList 80).toIp noInet6 = .ok "0.80.192.168".toList ∧
      (endpoint noInet6 blank "192.168.0.1".toList 80).toIpPort noInet6 =
        .ok "0.80.192.168:80".toList ∧
      (endpoint noInet6 blank "192.168.0.2".toList 80).toIpPort noInet6 =
        .ok "0.80.192.168:80".toList := by
  decide +kernel

end Endpoint

end InetAddress

end Fishnet
