import Zooffice.Archive.Model.Compression
/-!
# Zipping into a directory

`CompressionUtil.zip(src, destDir, charsetName, includeSrc)`: the archive
is a file in the directory, named after the source. It is opened before
the source is read, and what is read is what the disk has at that moment.
The order of `listFiles` and the bytes that the stream of the archive puts
in its file are parameters.
-/


namespace Zooffice

/-- Whether it is a regular file. -/
def DiskItem.isRegular : DiskItem → Bool
  | directory => false
  | file _ => true

/-- `listFiles`: the names of what is in a directory, in an order that
depends on that and not on what the files hold. -/
structure Listing where
  names : Disk → List Text → List Text
  congr : ∀ (d d' : Disk) (f : List Text),
    (∀ n, (d (f ++ [n])).map DiskItem.isRegular = (d' (f ++ [n])).map DiskItem.isRegular) →
      names d f = names d' f

/-- What the file of an archive holds: once the stream has been given these
entries, and once it has been closed behind them. -/
structure ArchiveStream where
  written : List ZipEntry → Content
  closed : List ZipEntry → Content

/-- A call of `zip`: the source by its parent and its name, the directory
of the archive, what `listFiles` answers, and the stream. -/
structure ZipCall where
  parent : List Text
  name : Text
  destDir : TargetFile
  includeSrc : Bool
  listing : Listing
  stream : ArchiveStream

/-- Where the source is. -/
def ZipCall.src (q : ZipCall) : List Text := q.parent ++ [q.name]

namespace CompressionUtil

/-- The name of the archive: a file loses the extension of its name, the
dot of which is not the first letter. -/
def archiveName (isDirectory : Bool) (fileName : Text) : Text :=
  let pos := lastIndexOf fileName '.'
  (if isDirectory = false ∧ 0 < pos then fileName.take pos.toNat else fileName) ++ ".zip".toList

/-- `zippedFile`. -/
def zippedFileOf (q : ZipCall) (d : Disk) : TargetFile :=
  ⟨q.destDir.directory, q.destDir.names ++ [archiveName (d q.src = some .directory) q.name]⟩

/-- `new FileOutputStream(file)`: where the file is, which is empty then. -/
def openFile (f : TargetFile) : DiskEff (List Text) := do
  let d ← Eff.get
  let p ← Eff.ofExcept (f.opens d)
  Eff.modify fun d => d.put p (.file [])
  return p

/-- What the stream puts in its file at `p`. -/
def flush (p : List Text) (content : Content) : DiskEff PUnit :=
  Eff.modify fun d => d.put p (.file content)

/-- A file on the disk, as far as `toPath` looks at it. -/
def fileOn (d : Disk) (f : List Text) : SourceFile :=
  ⟨f, if d f = some .directory then .node [] else .leaf []⟩

/-- The files of a directory. -/
def childrenOn (q : ZipCall) (d : Disk) (f : List Text) : List (List Text) :=
  (q.listing.names d f).map fun n => f ++ [n]

/-- What the loop does with the files of a directory. -/
def stackChildrenOn (d : Disk) (stack fs : List (List Text)) : List (List Text) :=
  fs.foldl (fun stack f => if d f = some .directory then stack ++ [f] else f :: stack) stack

/-- The root of the names, and the stack that the loop starts with. -/
def startOn (q : ZipCall) (d : Disk) : List Text × List (List Text) :=
  if d q.src = some .directory ∧ q.includeSrc = false then (q.src, childrenOn q d q.src)
  else (q.parent, [q.src])

/-- The loop, over the disk: the entries that the archive has, behind those
it has already. A file is read as a whole before its entry is written. The
first number bounds the rounds, `p` is where the archive is. -/
def zipFiles (q : ZipCall) (p root : List Text) :
    Nat → List (List Text) → List ZipEntry → DiskEff (List ZipEntry)
  | 0, _, _ => Eff.throw outOfRounds
  | rounds + 1, stack, entries =>
      match stack.getLast? with
      | none => return entries
      | some f => do
          let d ← Eff.get
          let name ← Eff.ofExcept (toPath root (fileOn d f))
          match d f with
          | some .directory =>
              zipFiles q p root rounds (stackChildrenOn d stack.dropLast (childrenOn q d f)) entries
          | some (.file content) => do
              flush p (q.stream.written (entries ++ [⟨name, content⟩]))
              zipFiles q p root rounds stack.dropLast (entries ++ [⟨name, content⟩])
          | none => Eff.throw (ioException "No such file or directory")

/-- The rest of `zip`, when the archive has been opened at `p`. -/
def zipTo (rounds : Nat) (q : ZipCall) (p : List Text) : DiskEff PUnit := do
  let d ← Eff.get
  let entries ← zipFiles q p (startOn q d).1 rounds (startOn q d).2 []
  flush p (q.stream.closed entries)

/-- `zip(src, destDir, charsetName, includeSrc)`, for at most so many
rounds of the loop. -/
def zipInto (rounds : Nat) (q : ZipCall) : DiskEff PUnit := do
  let d ← Eff.get
  (zippedFileOf q d).createNewFile
  let p ← openFile (zippedFileOf q d)
  zipTo rounds q p

end CompressionUtil

end Zooffice
