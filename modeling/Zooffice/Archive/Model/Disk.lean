import Zooffice.Common.Effect
import Zooffice.Common.Path
import Zooffice.Java.Text
import Zooffice.Java.Throwable
/-!
# The disk

What is on the disk, by the names on the way from the root, and the
operations of `java.io` that the archive utilities use, on a Unix system
without links. A path is followed name by name: every directory on the way
has to be there.
-/


namespace Zooffice

/-- The bytes of a file. -/
abbrev Content : Type := List UInt8

/-- A directory, or a regular file and what is in it. -/
inductive DiskItem where
  | directory
  | file (content : Content)
  deriving DecidableEq, Repr

/-- What is at each location. -/
abbrev Disk : Type := List Text → Option DiskItem

namespace Disk

/-- The disk with another item at the location. -/
def put (d : Disk) (location : List Text) (item : DiskItem) : Disk :=
  fun p => if p = location then some item else d p

@[simp] theorem put_self (d : Disk) (location : List Text) (item : DiskItem) :
    d.put location item location = some item := if_pos rfl

theorem put_of_ne (d : Disk) {p location : List Text} (item : DiskItem) (h : p ≠ location) :
    d.put location item p = d p := if_neg h

/-- The location that the names lead to from a location, or nothing when
what is on the way is not a directory. -/
def locate (d : Disk) : List Text → List Text → Option (List Text)
  | location, [] => some location
  | location, n :: ns =>
      if d location = some .directory then d.locate (Path.enter '.' location n) ns else none

/-- What is missing on the way from a location that is there is created,
up to a file in the way. -/
def mkdirs (d : Disk) : List Text → List Text → Disk
  | _, [] => d
  | location, n :: ns =>
      let next := Path.enter '.' location n
      match d next with
      | none => mkdirs (d.put next .directory) next ns
      | some .directory => mkdirs d next ns
      | some (.file _) => d

end Disk

/-- What runs on the disk. -/
abbrev DiskEff (α : Type) : Type := Eff Disk Throwable α

/-- What `java.io` throws. -/
def ioException (message : String) : Throwable := ⟨.other "IOException", some message⟩

/-- A `java.io.File`: the location of a directory, and the names of the
rest of the path. -/
structure TargetFile where
  directory : List Text
  names : List Text
  deriving DecidableEq, Repr

namespace TargetFile

/-- `exists`. -/
def fileExists (f : TargetFile) (d : Disk) : Bool :=
  match d.locate f.directory f.names with
  | none => false
  | some p => (d p).isSome

/-- `isDirectory`. -/
def isDirectory (f : TargetFile) (d : Disk) : Bool :=
  match d.locate f.directory f.names with
  | none => false
  | some p => d p = some .directory

/-- `getCanonicalFile`: `.` and `..` are taken by the names alone. -/
def getCanonicalFile (f : TargetFile) : List Text := Path.resolve '.' f.directory f.names

/-- `getParentFile`. The root has none. -/
def getParentFile (f : TargetFile) : Option TargetFile :=
  if f.names ≠ [] then some ⟨f.directory, f.names.dropLast⟩
  else if f.directory ≠ [] then some ⟨f.directory.dropLast, []⟩
  else none

/-- The location that is opened to write the file: that of a regular file,
or a free one in a directory. -/
def opens (f : TargetFile) (d : Disk) : Except Throwable (List Text) :=
  match d.locate f.directory f.names with
  | none => .error (ioException "No such file or directory")
  | some p =>
      match d p with
      | some .directory => .error (ioException "Is a directory")
      | some (.file _) => .ok p
      | none =>
          if d p.dropLast = some .directory then .ok p
          else .error (ioException "No such file or directory")

/-- `createNewFile`: what is there stays as it is. -/
def createNewFile (f : TargetFile) : DiskEff PUnit := do
  let d ← Eff.get
  if f.fileExists d then return ⟨⟩
  let p ← Eff.ofExcept (f.opens d)
  Eff.modify fun d => d.put p (.file [])

/-- `new FileOutputStream(file)`, and what is then written to it. -/
def write (f : TargetFile) (content : Content) : DiskEff PUnit := do
  let d ← Eff.get
  let p ← Eff.ofExcept (f.opens d)
  Eff.modify fun d => d.put p (.file content)

/-- `mkdirs`: what is missing on the way to the canonical file is created,
unless the file is there. It answers whether the last directory is new. -/
def mkdirs (f : TargetFile) : DiskEff Bool := do
  let d ← Eff.get
  if f.fileExists d then return false
  let made := d.mkdirs [] f.getCanonicalFile
  Eff.modify fun _ => made
  return d f.getCanonicalFile = none ∧ made f.getCanonicalFile = some .directory

end TargetFile

end Zooffice
