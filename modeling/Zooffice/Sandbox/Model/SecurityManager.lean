import Zooffice.Common.Path
import Zooffice.Sandbox.Model.Normalize
/-!
# The security manager

What `ZoofficeSecurityManager` decides about writing and deleting files, on
a Unix system: the directories that it allows are made from the system
properties when it is constructed, and a file name is let pass when its
normalization begins with the text of one of them.
-/


namespace Zooffice

/-- A name that the class takes for an absolute Unix path: it begins with
one separator, the one of Unix. -/
def IsAbsolute (path : Text) : Prop :=
  ∃ rest, path = '/' :: rest ∧ ∀ c, rest.head? = some c → isSeparator c = false

/-- The system properties that the directories are made from: `user.dir`,
`java.io.tmpdir`, and `python.path`, `python.home` and `python.cachedir`,
which may be missing or empty. The directories are absolute. -/
structure SystemProperties where
  userDir : Text
  tmpDir : Text
  pythonPath : Option Text
  pythonHome : Option Text
  pythonCache : Option Text
  userDir_absolute : IsAbsolute userDir
  tmpDir_absolute : IsAbsolute tmpDir
  pythonPath_absolute : ∀ d, pythonPath = some d → d ≠ [] → IsAbsolute d
  pythonHome_absolute : ∀ d, pythonHome = some d → d ≠ [] → IsAbsolute d
  pythonCache_absolute : ∀ d, pythonCache = some d → d ≠ [] → IsAbsolute d

/-- `new File(path).getAbsolutePath()` for a path that begins with `/`: a
slash that follows another goes, and so does one at the end. -/
def absolutePath (path : Text) : Text :=
  if Path.names '/' path = [] then ['/'] else Path.rooted '/' (Path.names '/' path)

/-- `String.substring(0, endIndex)`. -/
def substringTo (text : Text) (endIndex : Int) : Except Throwable Text :=
  if endIndex < 0 ∨ text.length < endIndex then .error outOfBounds
  else .ok (text.take endIndex.toNat)

/-- How a reference to a string is written in a message. -/
def textOrNull : Option Text → String
  | none => "null"
  | some text => String.ofList text

/-- The fields of a `ZoofficeSecurityManager` that the checks of writing
and deleting read. -/
structure ZoofficeSecurityManager where
  workDirectory : Option Text
  writeAllowedDirectory : List (Option Text)
  deleteAllowedDirectory : List (Option Text)

namespace ZoofficeSecurityManager

/-- The name under the work directory, when it is relative. -/
def inWorkingDirectory (filename workingDirectory : Option Text) : Option Text :=
  match filename, workingDirectory with
  | some f, some w => if getPrefixLength (some f) = 0 then some (w ++ '/' :: f) else some f
  | f, _ => f

/-- `normalize`. -/
def normalize (filename workingDirectory : Option Text) : Except Throwable (Option Text) :=
  doNormalize (inWorkingDirectory filename workingDirectory) systemSeparator true

/-! ## The directories -/

/-- `isNotEmpty`. -/
def isNotEmpty : Option Text → Bool
  | none => false
  | some str => str.length != 0

/-- `logDirectory`, given the work directory. -/
def logDirectory : Option Text → Except Throwable Text
  | none => .ok "log".toList
  | some workDirectory =>
      if workDirectory.isEmpty then .ok "log".toList
      else
        (substringTo workDirectory (lastIndexOf workDirectory '/')).bind fun parent =>
          (substringTo parent (lastIndexOf workDirectory '/')).bind fun parent =>
            .ok (parent ++ '/' :: "log".toList)

/-- The directories of the list that are added only when not empty. -/
def addIfNotEmpty (dir : Option Text) : List (Option Text) := if isNotEmpty dir then [dir] else []

/-- The lists as `initAccessOfDirectories` fills them, in its order. -/
def withDirectories (p : SystemProperties) (workDirectory : Option Text) (logDirectory : Text) :
    ZoofficeSecurityManager where
  workDirectory := workDirectory
  writeAllowedDirectory :=
    addIfNotEmpty p.pythonCache ++ addIfNotEmpty p.pythonHome ++ addIfNotEmpty p.pythonPath ++
      addIfNotEmpty p.pythonCache ++ [workDirectory, some logDirectory, some p.tmpDir]
  deleteAllowedDirectory := [workDirectory]

/-- `initAccessOfDirectories`. -/
def initAccessOfDirectories (p : SystemProperties) : Except Throwable ZoofficeSecurityManager :=
  (normalize (some (absolutePath p.userDir)) none).bind fun workDirectory =>
    (logDirectory workDirectory).bind fun logDirectory =>
      .ok (withDirectories p workDirectory logDirectory)

/-! ## The checks -/

/-- The loop over the directories: `filePath != null &&
filePath.startsWith(dir)` of one of them. -/
def startsWithAny (filePath : Option Text) : List (Option Text) → Except Throwable Bool
  | [] => .ok false
  | dir :: dirs =>
      match filePath, dir with
      | none, _ => startsWithAny none dirs
      | some _, none => .error ⟨.nullPointer, none⟩
      | some path, some d => if d.isPrefixOf path then .ok true else startsWithAny (some path) dirs

/-- What the checks of writing and deleting do alike, with the word for
the kind of access in the message. -/
def fileAccessAllowed (access : String) (dirs : List (Option Text))
    (workDirectory file : Option Text) : Except Throwable Unit :=
  (normalize file workDirectory).bind fun filePath =>
    (startsWithAny filePath dirs).bind fun found =>
      if found then .ok ()
      else .error ⟨.security, some ("File " ++ access ++ " access on " ++ textOrNull file ++ "(" ++
        textOrNull filePath ++ ") is not allowed.")⟩

/-- `file.contains("log/test_") || file.contains("log\\test_")`. -/
def hasLogMarker (file : Text) : Bool :=
  decide ("log/test_".toList <:+: file) || decide ("log\\test_".toList <:+: file)

/-- `fileAccessWriteAllowed`. -/
def fileAccessWriteAllowed (m : ZoofficeSecurityManager) (file : Option Text) :
    Except Throwable Unit :=
  if file.any hasLogMarker then .ok ()
  else fileAccessAllowed "write" m.writeAllowedDirectory m.workDirectory file

/-- `fileAccessDeleteAllowed`. -/
def fileAccessDeleteAllowed (m : ZoofficeSecurityManager) (file : Option Text) :
    Except Throwable Unit :=
  fileAccessAllowed "delete" m.deleteAllowedDirectory m.workDirectory file

/-- `checkRead(String)`, and the one with a context that it does not read. -/
def checkRead (file : Option Text) : Except Throwable Unit :=
  if file.any fun f => decide ("database.conf".toList <:+: f) then
    .error ⟨.security, some "File Read access on database.conf is not allowed."⟩
  else .ok ()

/-- `checkWrite`. -/
def checkWrite (m : ZoofficeSecurityManager) (file : Option Text) : Except Throwable Unit :=
  m.fileAccessWriteAllowed file

/-- `checkDelete`. -/
def checkDelete (m : ZoofficeSecurityManager) (file : Option Text) : Except Throwable Unit :=
  m.fileAccessDeleteAllowed file

end ZoofficeSecurityManager

end Zooffice
