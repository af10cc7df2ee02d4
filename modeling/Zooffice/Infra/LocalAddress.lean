import Mathlib.Data.List.Basic
import Zooffice.Common.Effect
import Zooffice.Infra.Model.LocalAddress
/-!
# Which address of the server is found

The flags of `getFirstNonLoopbackAddress` say which family is preferred,
and leave addresses of the other family out altogether. So an address is
found exactly when there is none at all, or one that no flag leaves out.
-/


namespace Zooffice

namespace NetworkUtil

variable {preferIpv4 preferIPv6 : Bool} {interfaces : List NetworkInterface}

/-- The addresses that may be found: those of the interfaces that are up,
but for loopback addresses. -/
def upAddresses (interfaces : List NetworkInterface) : List InetAddress :=
  ((interfaces.filter NetworkInterface.isUp).flatMap NetworkInterface.inetAddresses).filter
    fun addr => !addr.isLoopbackAddress

/-- The addresses that may be found have one of the family. -/
def HasFamily (interfaces : List NetworkInterface) (family : AddressFamily) : Prop :=
  ∃ addr ∈ upAddresses interfaces, addr.family = family

/-- The family is preferred. -/
def Prefers (preferIpv4 preferIPv6 : Bool) : AddressFamily → Prop
  | .inet4 => preferIpv4 = true
  | .inet6 => preferIPv6 = true

/-- The flags leave out the other family. -/
def accepts (preferIpv4 preferIPv6 : Bool) (addr : InetAddress) : Bool :=
  match addr.family with
  | .inet4 => !preferIPv6
  | .inet6 => !preferIpv4

/-! ## The loops -/

theorem firstOfInterface_eq_find? (addrs : List InetAddress) :
    firstOfInterface preferIpv4 preferIPv6 addrs =
      (addrs.filter fun addr => !addr.isLoopbackAddress).find? (accepts preferIpv4 preferIPv6) := by
  induction addrs with
  | nil => rfl
  | cons addr addrs ih =>
      rw [firstOfInterface, ih]
      cases hloopback : addr.isLoopbackAddress
      · rw [if_pos rfl, List.filter_cons_of_pos (by rw [hloopback]; rfl), List.find?_cons, accepts]
        cases addr.family <;> cases preferIpv4 <;> cases preferIPv6 <;> rfl
      · rw [if_neg (by decide), List.filter_cons_of_neg (by rw [hloopback]; decide)]

theorem upAddresses_cons_of_down {i : NetworkInterface} (h : i.isUp = false) :
    upAddresses (i :: interfaces) = upAddresses interfaces := by
  rw [upAddresses, List.filter_cons_of_neg (by rw [h]; decide), upAddresses]

theorem upAddresses_cons_of_up {i : NetworkInterface} (h : i.isUp = true) :
    upAddresses (i :: interfaces) =
      (i.inetAddresses.filter fun addr => !addr.isLoopbackAddress) ++ upAddresses interfaces := by
  rw [upAddresses, List.filter_cons_of_pos h, List.flatMap_cons, List.filter_append, upAddresses]

/-- **The two loops find the first address** that no flag leaves out. -/
theorem firstOfInterfaces_eq_find? (interfaces : List NetworkInterface) :
    firstOfInterfaces preferIpv4 preferIPv6 interfaces =
      (upAddresses interfaces).find? (accepts preferIpv4 preferIPv6) := by
  induction interfaces with
  | nil => rfl
  | cons i interfaces ih =>
      rw [firstOfInterfaces, firstOfInterface_eq_find?, ih]
      cases hup : i.isUp
      · rw [if_pos rfl, upAddresses_cons_of_down hup]
      · rw [if_neg (by decide), upAddresses_cons_of_up hup, List.find?_append]
        generalize (i.inetAddresses.filter _).find? _ = found
        cases found <;> rfl

/-- What a machine with these interfaces answers. -/
def Lists (network : LocalNetwork) (interfaces : List NetworkInterface) : Prop :=
  network.networkInterfaces = .ok (enumeration interfaces)

theorem getFirstNonLoopbackAddress_eq {network : LocalNetwork} (h : Lists network interfaces) :
    getFirstNonLoopbackAddress network preferIpv4 preferIPv6 =
      if interfaces = [] then .error ⟨.nullPointer, none⟩
      else .ok ((upAddresses interfaces).find? (accepts preferIpv4 preferIPv6)) := by
  rw [getFirstNonLoopbackAddress, h, enumeration]
  split
  · rfl
  · exact congrArg Except.ok (firstOfInterfaces_eq_find? interfaces)

/-- An address is found whenever there is one, and one of a preferred family
whenever there is one of it. -/
def FindsAddress (interfaces : List NetworkInterface) (preferIpv4 preferIPv6 : Bool) : Prop :=
  ∀ network, Lists network interfaces →
    (upAddresses interfaces ≠ [] → ∃ addr ∈ upAddresses interfaces,
      getFirstNonLoopbackAddress network preferIpv4 preferIPv6 = .ok (some addr)) ∧
    ∀ family, Prefers preferIpv4 preferIPv6 family → HasFamily interfaces family →
      ∃ addr ∈ upAddresses interfaces, Prefers preferIpv4 preferIPv6 addr.family ∧
        getFirstNonLoopbackAddress network preferIpv4 preferIPv6 = .ok (some addr)

/-- No address is found for the local host. -/
def FallsBack (network : LocalNetwork) : Prop :=
  (∃ found, localHost network = .ok found ∧ ∀ addr ∈ found, addr.isLoopbackAddress = true) ∧
    getLocalInetAddress network "www.google.com".toList 80 = .ok none

/-- That happens only on a machine without an address. -/
def FallsBackOnlyAlone (interfaces : List NetworkInterface) : Prop :=
  ∀ network, Lists network interfaces → FallsBack network → upAddresses interfaces = []

/-- The address is that of the local host, or else that of a socket or an
interface. -/
def IsFound (network : LocalNetwork) (addr : InetAddress) : Prop :=
  localHost network = .ok (some addr) ∧ addr.isLoopbackAddress = false ∨
    (∃ found, localHost network = .ok found ∧ ∀ addr ∈ found, addr.isLoopbackAddress = true) ∧
      getLocalInetAddress network "www.google.com".toList 80 = .ok (some addr)

theorem getLocalHostAddressByConnecting_eq_ok_iff {network : LocalNetwork} {byConnecting : Text}
    {port : Nat} {text : Text} :
    getLocalHostAddressByConnecting network byConnecting port = .ok text ↔
      (∃ addr, getLocalInetAddress network byConnecting port = .ok (some addr) ∧
        addr.hostAddress = text) ∨
      getLocalInetAddress network byConnecting port = .ok none ∧ text = "127.0.0.1".toList := by
  rw [getLocalHostAddressByConnecting]
  rcases getLocalInetAddress network byConnecting port with e | _ | addr
  · simp [Except.bind]
  · simp [Except.bind, eq_comm]
  · simp [Except.bind]

/-- **What `getLocalHostAddress` answers** is the text of the address that is
found, or that of the machine to itself when it falls back. -/
theorem getLocalHostAddress_eq_ok_iff {network : LocalNetwork} {text : Text} :
    getLocalHostAddress network = .ok text ↔
      (∃ addr, IsFound network addr ∧ addr.hostAddress = text) ∨
        FallsBack network ∧ text = "127.0.0.1".toList := by
  have hlast (hloopback : ∃ found, localHost network = .ok found ∧
      ∀ addr ∈ found, addr.isLoopbackAddress = true) (addr : InetAddress) :
      IsFound network addr ↔
        getLocalInetAddress network "www.google.com".toList 80 = .ok (some addr) := by
    obtain ⟨found, hfound, hall⟩ := hloopback
    refine ⟨?_, fun h => .inr ⟨⟨found, hfound, hall⟩, h⟩⟩
    rintro (⟨hlocal, hnot⟩ | ⟨-, h⟩)
    · rw [hfound, Except.ok.injEq] at hlocal
      rw [hall addr hlocal] at hnot
      cases hnot
    · exact h
  rcases hlocal : localHost network with e | _ | addr
  · simp [getLocalHostAddress, IsFound, FallsBack, hlocal, Except.bind]
  · simp only [hlast ⟨none, hlocal, nofun⟩, FallsBack, getLocalHostAddress, hlocal, Except.bind]
    rw [getLocalHostAddressByConnecting_eq_ok_iff]
    simp
  · cases hloopback : addr.isLoopbackAddress
    · simp [getLocalHostAddress, IsFound, FallsBack, hlocal, Except.bind, hloopback]
    · have hall : ∀ a ∈ some addr, a.isLoopbackAddress = true := by
        rintro a ⟨⟩
        exact hloopback
      simp only [hlast ⟨some addr, hlocal, hall⟩, FallsBack, getLocalHostAddress, hlocal,
        Except.bind, hloopback, Bool.true_eq_false, if_false]
      rw [getLocalHostAddressByConnecting_eq_ok_iff]
      simp [hloopback]

/-! ## When an address is found -/

/-- A network that only answers which interfaces there are. -/
def offline (interfaces : List NetworkInterface) : LocalNetwork :=
  ⟨.error ⟨.other "UnknownHostException", none⟩,
    fun _ _ => .error ⟨.other "UnknownHostException", none⟩, .ok (enumeration interfaces)⟩

theorem lists_offline (interfaces : List NetworkInterface) :
    Lists (offline interfaces) interfaces := rfl

/-- The address that is found is the first that no flag leaves out. -/
theorem getFirstNonLoopbackAddress_eq_some_iff {network : LocalNetwork}
    (h : Lists network interfaces) {addr : InetAddress} :
    getFirstNonLoopbackAddress network preferIpv4 preferIPv6 = .ok (some addr) ↔
      (upAddresses interfaces).find? (accepts preferIpv4 preferIPv6) = some addr := by
  rw [getFirstNonLoopbackAddress_eq h]
  split
  · next hnil =>
      subst hnil
      exact iff_of_false (fun h => by cases h) (fun h => by cases h)
  · exact ⟨fun h => Except.ok.inj h, fun h => congrArg _ h⟩

theorem prefers_of_accepts {addr : InetAddress} (h : accepts preferIpv4 preferIPv6 addr = true)
    {family : AddressFamily} (hfamily : Prefers preferIpv4 preferIPv6 family) :
    Prefers preferIpv4 preferIPv6 addr.family := by
  unfold accepts at h
  cases hinet : addr.family with
  | inet4 =>
      -- IPv6 is not preferred, so the preferred family is IPv4
      rw [hinet] at h
      cases family with
      | inet4 => exact hfamily
      | inet6 => exact absurd hfamily (by simpa [Prefers] using h)
  | inet6 =>
      rw [hinet] at h
      cases family with
      | inet4 => exact absurd hfamily (by simpa [Prefers] using h)
      | inet6 => exact hfamily

/-- **An address is found** unless the flags leave out all there are. -/
theorem findsAddress_iff : FindsAddress interfaces preferIpv4 preferIPv6 ↔
    upAddresses interfaces = [] ∨
      ∃ addr ∈ upAddresses interfaces, accepts preferIpv4 preferIPv6 addr = true := by
  constructor
  · intro h
    by_cases hnil : upAddresses interfaces = []
    · exact Or.inl hnil
    · obtain ⟨addr, hmem, hfound⟩ := (h _ (lists_offline interfaces)).1 hnil
      rw [getFirstNonLoopbackAddress_eq_some_iff (lists_offline interfaces)] at hfound
      exact Or.inr ⟨addr, hmem, List.find?_some hfound⟩
  · intro h network hlists
    simp only [getFirstNonLoopbackAddress_eq_some_iff hlists]
    rcases h with hnil | ⟨addr, hmem, haccepts⟩
    · refine ⟨fun hne => absurd hnil hne, fun family _ ⟨addr, hmem, _⟩ => ?_⟩
      rw [hnil] at hmem
      exact absurd hmem List.not_mem_nil
    · obtain ⟨found, hfound⟩ := Option.isSome_iff_exists.1
        (List.find?_isSome.2 ⟨addr, hmem, haccepts⟩)
      have hfoundMem := List.mem_of_find?_eq_some hfound
      exact ⟨fun _ => ⟨found, hfoundMem, hfound⟩, fun family hfamily _ =>
        ⟨found, hfoundMem, prefers_of_accepts (List.find?_some hfound) hfamily, hfound⟩⟩

/-! ## When there is no way but `127.0.0.1` -/

/-- The last way to an address is that over the interfaces. -/
theorem getFirstNonLoopbackAddress_of_fallsBack {network : LocalNetwork}
    (hlists : Lists network interfaces) (h : FallsBack network) (hne : interfaces ≠ []) :
    getFirstNonLoopbackAddress network true false = .ok none := by
  have hnone := h.2
  have hfirst : getFirstNonLoopbackAddress network true false = _ :=
    getFirstNonLoopbackAddress_eq hlists
  rw [if_neg hne] at hfirst
  rw [getLocalInetAddress] at hnone
  obtain ⟨found, -, hnone⟩ := except_bind_eq_ok.1 hnone
  cases found with
  | some addr => cases hnone
  | none =>
      obtain ⟨found, -, hnone⟩ := except_bind_eq_ok.1 hnone
      cases found with
      | some addr => cases hnone
      | none =>
          rw [hfirst] at hnone ⊢
          exact hnone

theorem fallsBack_offline (hne : interfaces ≠ [])
    (hnone : (upAddresses interfaces).find? (accepts true false) = none) :
    FallsBack (offline interfaces) := by
  refine ⟨⟨none, rfl, fun addr h => by cases h⟩, ?_⟩
  have hfirst : getFirstNonLoopbackAddress (offline interfaces) true false = .ok none := by
    rw [getFirstNonLoopbackAddress_eq (lists_offline interfaces), if_neg hne, hnone]
  have hsocket : ∀ host port, getAddressWithSocket (offline interfaces) host port = .ok none :=
    fun _ _ => rfl
  simp only [getLocalInetAddress, hsocket, hfirst, Except.bind]

theorem accepts_true_false_iff :
    (∃ addr ∈ upAddresses interfaces, accepts true false addr = true) ↔
      HasFamily interfaces .inet4 := by
  refine exists_congr fun addr => and_congr_right fun _ => ?_
  unfold accepts
  cases addr.family <;> decide

theorem fallsBackOnlyAlone_iff : FallsBackOnlyAlone interfaces ↔
    upAddresses interfaces = [] ∨ HasFamily interfaces .inet4 := by
  rw [← accepts_true_false_iff]
  constructor
  · intro h
    by_cases hnil : upAddresses interfaces = []
    · exact Or.inl hnil
    · right
      by_contra hnone
      have hne : interfaces ≠ [] := fun hempty => hnil (by rw [hempty]; rfl)
      refine hnil (h (offline interfaces) rfl (fallsBack_offline hne ?_))
      rw [List.find?_eq_none]
      exact fun addr hmem haccepts => hnone ⟨addr, hmem, haccepts⟩
  · rintro (hnil | ⟨addr, hmem, haccepts⟩) network hlists hback
    · exact hnil
    · have hne : interfaces ≠ [] := by
        rintro rfl
        exact absurd hmem List.not_mem_nil
      have hfirst := getFirstNonLoopbackAddress_of_fallsBack hlists hback hne
      rw [getFirstNonLoopbackAddress_eq hlists, if_neg hne, Except.ok.injEq,
        List.find?_eq_none] at hfirst
      exact absurd haccepts (hfirst addr hmem)

/-- **The flags are preferences**, and `127.0.0.1` is the last resort, exactly
when the machine has no address at all, or one of IPv4 and no flag leaves
out both families or the one there is. -/
theorem findsAddress_and_fallsBack_iff (interfaces : List NetworkInterface)
    (preferIpv4 preferIPv6 : Bool) :
    FindsAddress interfaces preferIpv4 preferIPv6 ∧ FallsBackOnlyAlone interfaces ↔
      upAddresses interfaces = [] ∨ HasFamily interfaces .inet4 ∧
        (preferIPv6 = true → preferIpv4 = false ∧ HasFamily interfaces .inet6) := by
  rw [findsAddress_iff, fallsBackOnlyAlone_iff, ← or_and_left, and_comm]
  refine or_congr_right (and_congr_right fun hinet4 => ?_)
  constructor
  · rintro ⟨addr, hmem, haccepts⟩ rfl
    unfold accepts at haccepts
    cases hfamily : addr.family with
    | inet4 =>
        rw [hfamily] at haccepts
        cases haccepts
    | inet6 =>
        rw [hfamily] at haccepts
        exact ⟨by simpa using haccepts, addr, hmem, hfamily⟩
  · intro h
    cases hprefer : preferIPv6 with
    | false =>
        obtain ⟨addr, hmem, hfamily⟩ := hinet4
        exact ⟨addr, hmem, by rw [accepts, hfamily]; rfl⟩
    | true =>
        obtain ⟨hprefer4, addr, hmem, hfamily⟩ := h hprefer
        exact ⟨addr, hmem, by rw [accepts, hfamily, hprefer4]; rfl⟩

/-- **A machine with IPv6 only** is said to be at `127.0.0.1`. -/
theorem not_findsAddress_inet6 :
    ¬ (FindsAddress [⟨true, [⟨.inet6, false, "fd00:0:0:0:0:0:0:1".toList⟩]⟩] true false ∧
      FallsBackOnlyAlone [⟨true, [⟨.inet6, false, "fd00:0:0:0:0:0:0:1".toList⟩]⟩]) := by
  rintro ⟨hfinds, -⟩
  rcases findsAddress_iff.1 hfinds with hnil | ⟨addr, hmem, haccepts⟩
  · exact absurd hnil (by decide)
  · -- the only address there is
    have haddr := List.mem_singleton.1 hmem
    rw [haddr] at haccepts
    exact absurd haccepts (by decide)

end NetworkUtil

end Zooffice
