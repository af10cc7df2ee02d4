import Zooffice.Common.Effect
import Zooffice.Java.Checksum
import Zooffice.Java.Text
import Zooffice.Java.Throwable
/-!
# The check of a clustered controller

Each controller of a cluster runs `ClusterConfigurationVerifier` when it
starts: it compares the checksum of its `system.conf` with what it finds
in the cache `controller_home`, which the controllers share, and asks for
CUBRID. A step is one controller that starts; the cache stays when it has
failed.
-/


namespace Zooffice

/-- The `system.conf` of a home. -/
inductive ConfFile where
  | absent
  | directory
  | file (content : List UInt8)
  deriving DecidableEq, Repr

/-- What `verifyCluster` reads of a controller's configuration: the mode,
the file with its path, and the property `database` of `database.conf`;
and `String.toLowerCase` of its default locale. -/
structure Controller where
  isCluster : Bool
  isTestMode : Bool
  systemPath : String
  system : ConfFile
  database : Option String
  toLowerCase : String → String

/-- The entries of the cache `controller_home`. The value is null where the
entry has none, or has gone when it is looked up. -/
abbrev ControllerHome : Type := List (String × Option String)

/-- `PropertiesWrapper.getProperty` with a default. -/
def getProperty (value : Option String) (default : String) : String :=
  match value with
  | some v => if isBlank (some v) then trim default else trim v
  | none => trim default

namespace ClusterConfigurationVerifier

/-- `FileUtils.checksumCRC32` of the file. -/
def checksum (c : Controller) : Except Throwable Nat :=
  match c.system with
  | .file content => .ok (checksumCRC32 content)
  | .directory => .error ⟨.illegalArgument, some "Checksums can't be computed on directories"⟩
  | .absent => .error ⟨.other "FileNotFoundException", some c.systemPath⟩

/-- The loop of `checkExHome` over the entries of the cache. -/
def checkEntries (homeFileStamp : String) : ControllerHome → Except Throwable Unit
  | [] => .ok ()
  | (_, none) :: entries => checkEntries homeFileStamp entries
  | (_, some value) :: entries => do
      checkState (homeFileStamp == value)
        (some ("Controller's \x7bNGRINDER_HOME\x7d conflict with other controller, " ++
          "Please check if you use same ngrinder home folder" ++
          " for each clustered controller !"))
      checkEntries homeFileStamp entries

/-- `checkExHome`. -/
def checkExHome (c : Controller) : Eff ControllerHome Throwable Unit := do
  Eff.ofExcept (checkArgument (c.system != .absent)
    (some ("File does not exist: " ++ c.systemPath)))
  let stamp ← Eff.ofExcept (checksum c)
  let cache ← Eff.get
  Eff.ofExcept (checkEntries (toString stamp) cache)

/-- The database of the controller, in lower case. -/
def usedDB (c : Controller) : String := c.toLowerCase (getProperty c.database "NONE")

/-- `checkUsedDB`. -/
def checkUsedDB (c : Controller) : Except Throwable Unit :=
  checkState ("cubrid" == usedDB c)
    (some (usedDB c ++ " is unable to be used in cluster mode and Please use CUBRID !"))

/-- `verifyCluster`. -/
def verifyCluster (c : Controller) : Eff ControllerHome Throwable Unit :=
  if c.isCluster && !c.isTestMode then do
    checkExHome c
    Eff.ofExcept (checkUsedDB c)
  else pure ()

end ClusterConfigurationVerifier

open ClusterConfigurationVerifier

/-- The shared cache, and the controllers that have completed the check. -/
structure ControllerCluster where
  cache : ControllerHome
  verified : List Controller

namespace ControllerCluster

/-- A controller starts. -/
def startUp (s : ControllerCluster) (c : Controller) : Option ControllerCluster :=
  let done := (verifyCluster c).run s.cache
  some
    { cache := done.2
      verified := match done.1 with
        | .ok _ => c :: s.verified
        | .error _ => s.verified }

end ControllerCluster

end Zooffice
