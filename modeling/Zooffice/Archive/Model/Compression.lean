import Zooffice.Archive.Model.Disk
import Zooffice.Common.LabelledTree
/-!
# Zipping and unzipping

`CompressionUtil.zip` and `CompressionUtil.unzip`, on a Unix system. The
archive streams carry the names and the bytes of the entries, so an
archive is the list of its entries: the character set that the names are
written in is one in which they are read back. A file or directory that is
zipped is a tree, whose children stand in the order in which `listFiles`
gives them.
-/


namespace Zooffice

/-- A name that a file can have: it is not empty, not `.` or `..`, and has
no separator. -/
abbrev FileName (n : Text) : Prop := Path.Proper '/' '.' n

/-- What a file or directory on the disk holds. -/
abbrev FileTree : Type := LabelledTree Text Content

/-- A `java.io.File`: the names on the way from the root, and what is
there. -/
structure SourceFile where
  names : List Text
  tree : FileTree

/-- A file or directory that has a parent directory, and is the top of a
tree whose siblings have distinct names. -/
structure Source where
  parent : List Text
  name : Text
  tree : FileTree
  name_legal : FileName name
  tree_distinct : tree.Distinct fun n => FileName n

/-- The `java.io.File` of it. -/
def Source.file (src : Source) : SourceFile := ⟨src.parent ++ [src.name], src.tree⟩

@[simp] theorem Source.names_file (src : Source) : src.file.names = src.parent ++ [src.name] := rfl

@[simp] theorem Source.tree_file (src : Source) : src.file.tree = src.tree := rfl

/-- An entry of an archive. -/
structure ZipEntry where
  name : Text
  content : Content
  deriving DecidableEq, Repr

namespace ZipEntry

/-- `ZipEntry.isDirectory`. -/
def isDirectory (e : ZipEntry) : Bool := e.name.getLast? = some '/'

end ZipEntry

namespace CompressionUtil

/-! ## Zipping -/

/-- `getAbsolutePath`. -/
def absolutePathOf (names : List Text) : Text := Path.text '/' names false

/-- `String.substring(beginIndex)`. -/
def substringFrom (text : Text) (beginIndex : Nat) : Except Throwable Text :=
  if text.length < beginIndex then .error ⟨.indexOutOfBounds, none⟩
  else .ok (text.drop beginIndex)

/-- `toPath`, where `File.separatorChar` is `/` already. -/
def toPath (root : List Text) (dir : SourceFile) : Except Throwable Text :=
  (substringFrom (absolutePathOf dir.names) (absolutePathOf root).length).bind fun path =>
    let path := if path.head? = some '/' then path.drop 1 else path
    .ok (if dir.tree.isNode ∧ path.getLast? ≠ some '/' then path ++ ['/'] else path)

/-- `listFiles`. -/
def listFiles (f : SourceFile) : List SourceFile :=
  match f.tree with
  | .leaf _ => []
  | .node children => children.map fun c => ⟨f.names ++ [c.1], c.2⟩

/-- What the loop does with the files of a directory, from the bottom of
the stack to its top: a directory is pushed, a file put at the bottom. -/
def stackChildren (stack fs : List SourceFile) : List SourceFile :=
  fs.foldl (fun stack f => if f.tree.isNode then stack ++ [f] else f :: stack) stack

/-- What the loop throws in the model when its bound on the number of
rounds is used up. No run does. -/
def outOfRounds : Throwable := ⟨.error "out of rounds", none⟩

/-- `while (!stack.isEmpty())`: the entries that are written, the top of
the stack being at the end of the list. The first argument bounds the
rounds. -/
def zipLoop (root : List Text) : Nat → List SourceFile → Except Throwable (List ZipEntry)
  | 0, _ => .error outOfRounds
  | fuel + 1, stack =>
      match stack.getLast? with
      | none => .ok []
      | some f =>
          (toPath root f).bind fun name =>
            match f.tree with
            | .node _ => zipLoop root fuel (stackChildren stack.dropLast (listFiles f))
            | .leaf content =>
                (zipLoop root fuel stack.dropLast).bind fun entries =>
                  .ok (⟨name, content⟩ :: entries)

/-- The root of the names, and the stack that the loop starts with. -/
def startOf (src : SourceFile) (includeSrc : Bool) : List Text × List SourceFile :=
  if src.tree.isNode ∧ includeSrc = false then (src.names, listFiles src)
  else (src.names.dropLast, [src])

/-- `zip(src, os, charsetName, includeSrc)`, for a `src` that has a parent
directory: what it writes to the stream. -/
def zip (src : SourceFile) (includeSrc : Bool) : Except Throwable (List ZipEntry) :=
  let start := startOf src includeSrc
  zipLoop start.1 (src.tree.size + 1) start.2

/-! ## Unzipping -/

/-- `new File(destDir, name)`. -/
def targetOf (destDir : List Text) (name : Text) : TargetFile :=
  ⟨destDir, Path.names '/' name⟩

/-- What `unzip` does with an entry. -/
def unzipEntry (destDir : List Text) (entry : ZipEntry) : DiskEff PUnit :=
  let target := targetOf destDir entry.name
  if entry.isDirectory then do
    let _ ← target.mkdirs
    return ⟨⟩
  else do
    target.createNewFile
    target.write entry.content

/-- The loop over the entries. -/
def unzipLoop (destDir : List Text) : List ZipEntry → DiskEff PUnit
  | [] => pure ⟨⟩
  | entry :: rest => do
      unzipEntry destDir entry
      unzipLoop destDir rest

/-- `unzip(is, destDir, charsetName)`: an exception is thrown on as a
`ZoofficeRuntimeException`. -/
def unzip (entries : List ZipEntry) (destDir : List Text) : DiskEff PUnit :=
  Eff.tryCatch (unzipLoop destDir entries) fun e =>
    Eff.throw (if e.isException then ⟨.zoofficeRuntime, e.message⟩ else e)

end CompressionUtil

end Zooffice
