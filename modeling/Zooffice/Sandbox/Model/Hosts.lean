import Zooffice.Java.Split
import Zooffice.Sandbox.Model.SecurityManager
/-!
# The hosts of the security manager

Which hosts `ZoofficeSecurityManager` lets connect: they are made from
`ngrinder.etc.hosts` and `ngrinder.console.ip` when it is constructed, and
a connection is allowed to exactly the strings of the list.
-/


namespace Zooffice

namespace ZoofficeSecurityManager

/-- What the loop of `initAccessOfHosts` adds for one piece of the list. -/
def addressesOf (hosts : Text) : List Text :=
  match split hosts ':' with
  | first :: second :: rest => [first, (second :: rest).getLast (List.cons_ne_nil second rest)]
  | _ => [hosts]

/-- `allowedHost`, as `initAccessOfHosts` fills it. -/
def initAccessOfHosts (etcHosts consoleIP : Text) : List Text :=
  (split etcHosts ',').flatMap addressesOf ++ [consoleIP]

/-- `netWorkAccessAllowed`. -/
def netWorkAccessAllowed (allowedHost : List Text) (host : Option Text) : Except Throwable Unit :=
  if host.any fun h => allowedHost.contains h then .ok ()
  else .error ⟨.security, some ("NetWork access on " ++ textOrNull host ++
    " is not allowed. Please add " ++ textOrNull host ++ " on the target host setting.")⟩

/-- `checkConnect`. The port is not looked at. -/
def checkConnect (allowedHost : List Text) (host : Option Text) (_port : Int) :
    Except Throwable Unit :=
  netWorkAccessAllowed allowedHost host

end ZoofficeSecurityManager

end Zooffice
