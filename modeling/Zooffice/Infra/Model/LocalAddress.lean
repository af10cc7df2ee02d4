import Zooffice.Java.Text
import Zooffice.Java.Throwable
/-!
# The address of the server

`NetworkUtil` looks for the address of the machine it runs on: that of the
local host, that of a socket to a known server, and that of a network
interface. What the network answers is a parameter.
-/


namespace Zooffice

/-- `Inet4Address` and `Inet6Address`. -/
inductive AddressFamily where
  | inet4
  | inet6
  deriving DecidableEq, Repr

/-- An `InetAddress`. -/
structure InetAddress where
  family : AddressFamily
  isLoopbackAddress : Bool
  hostAddress : Text
  deriving DecidableEq, Repr

/-- A `NetworkInterface`. -/
structure NetworkInterface where
  isUp : Bool
  inetAddresses : List InetAddress
  deriving DecidableEq, Repr

/-- What the network answers: `InetAddress.getLocalHost`, the local address
of a socket that is connected to a host and port, and
`NetworkInterface.getNetworkInterfaces`, which may be null. -/
structure LocalNetwork where
  localHost : Except Throwable InetAddress
  connect : Text → Nat → Except Throwable InetAddress
  networkInterfaces : Except Throwable (Option (List NetworkInterface))

namespace NetworkUtil

/-- `NetworkInterface.getNetworkInterfaces` of a machine with these: it is
null when there is none. -/
def enumeration (interfaces : List NetworkInterface) : Option (List NetworkInterface) :=
  if interfaces = [] then none else some interfaces

/-- The loop over the addresses of an interface. -/
def firstOfInterface (preferIpv4 preferIPv6 : Bool) : List InetAddress → Option InetAddress
  | [] => none
  | addr :: en2 =>
      if addr.isLoopbackAddress = false then
        match addr.family with
        | .inet4 => if preferIPv6 then firstOfInterface preferIpv4 preferIPv6 en2 else some addr
        | .inet6 => if preferIpv4 then firstOfInterface preferIpv4 preferIPv6 en2 else some addr
      else firstOfInterface preferIpv4 preferIPv6 en2

/-- The loop over the interfaces. -/
def firstOfInterfaces (preferIpv4 preferIPv6 : Bool) : List NetworkInterface → Option InetAddress
  | [] => none
  | i :: en =>
      if i.isUp = false then firstOfInterfaces preferIpv4 preferIPv6 en
      else
        match firstOfInterface preferIpv4 preferIPv6 i.inetAddresses with
        | some addr => some addr
        | none => firstOfInterfaces preferIpv4 preferIPv6 en

/-- `getFirstNonLoopbackAddress`. -/
def getFirstNonLoopbackAddress (network : LocalNetwork) (preferIpv4 preferIPv6 : Bool) :
    Except Throwable (Option InetAddress) :=
  network.networkInterfaces.bind fun en =>
    match en with
    | none => .error ⟨.nullPointer, none⟩
    | some en => .ok (firstOfInterfaces preferIpv4 preferIPv6 en)

/-- `getAddressWithSocket`: nothing when it throws an exception. -/
def getAddressWithSocket (network : LocalNetwork) (byConnecting : Text) (port : Nat) :
    Except Throwable (Option InetAddress) :=
  match network.connect byConnecting port with
  | .ok addr => .ok (some addr)
  | .error e => if e.isException then .ok none else .error e

/-- The class of a `SocketException`. -/
def socketException : ThrowableClass := .other "SocketException"

/-- `getLocalInetAddress`. -/
def getLocalInetAddress (network : LocalNetwork) (byConnecting : Text) (port : Nat) :
    Except Throwable (Option InetAddress) :=
  (getAddressWithSocket network byConnecting port).bind fun addr =>
    match addr with
    | some addr => .ok (some addr)
    | none =>
        (getAddressWithSocket network "www.baidu.com".toList 80).bind fun addr =>
          match addr with
          | some addr => .ok (some addr)
          | none =>
              match getFirstNonLoopbackAddress network true false with
              | .ok addr => .ok addr
              | .error e => if e.cls = socketException then .ok none else .error e

/-- `getLocalHostAddress(byConnecting, port)`. -/
def getLocalHostAddressByConnecting (network : LocalNetwork) (byConnecting : Text) (port : Nat) :
    Except Throwable Text :=
  (getLocalInetAddress network byConnecting port).bind fun addr =>
    match addr with
    | some addr => .ok addr.hostAddress
    | none => .ok "127.0.0.1".toList

/-- `getLocalHost`, where an exception is logged. -/
def localHost (network : LocalNetwork) : Except Throwable (Option InetAddress) :=
  match network.localHost with
  | .ok addr => .ok (some addr)
  | .error e => if e.isException then .ok none else .error e

/-- `getLocalHostAddress()`. -/
def getLocalHostAddress (network : LocalNetwork) : Except Throwable Text :=
  (localHost network).bind fun addr =>
    match addr with
    | some addr =>
        if addr.isLoopbackAddress = false then .ok addr.hostAddress
        else getLocalHostAddressByConnecting network "www.google.com".toList 80
    | none => getLocalHostAddressByConnecting network "www.google.com".toList 80

end NetworkUtil

end Zooffice
