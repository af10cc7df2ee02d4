import Zooffice.Archive.Model.Compression
/-!
# Extracting tar and jar archives

`CompressionUtil.untar` and `CompressionUtil.unjar`, on a Unix system. The
archive streams carry the names and the bytes of the entries. What the
methods set on a file after it is written (its permissions and times) is
left out.
-/


namespace Zooffice

/-- An entry of a tar archive. -/
structure TarEntry where
  name : Text
  /-- Whether the link flag is `LF_DIR`. -/
  linkFlagDirectory : Bool
  content : Content
  deriving DecidableEq, Repr

/-- `TarArchiveEntry.isDirectory`. -/
def TarEntry.isDirectory (e : TarEntry) : Bool :=
  e.linkFlagDirectory ∨ e.name.getLast? = some '/'

/-- What a `JarInputStream` gives: the entries, and the manifest if the
archive begins with one. -/
structure JarArchive where
  entries : List ZipEntry
  manifest : Option Content
  deriving DecidableEq, Repr

namespace CompressionUtil

/-- `if (!file.exists()) { file.mkdirs(); }`. -/
def mkdirsIfMissing (f : TargetFile) : DiskEff PUnit := do
  let d ← Eff.get
  if f.fileExists d then return ⟨⟩
  let _ ← f.mkdirs
  return ⟨⟩

/-- What a method call on `null` throws. -/
def nullPointer : Throwable := ⟨.nullPointer, none⟩

/-! ## Tar archives -/

/-- What `untar` throws when it cannot make a directory. -/
def couldntCreate (f : TargetFile) : Throwable :=
  let path := String.ofList (absolutePathOf (f.directory ++ f.names))
  ⟨.other "IllegalStateException", some ("Couldn't create directory " ++ path ++ ".")⟩

/-- What `untar` does with a directory. -/
def untarDirectory (outputFile : TargetFile) : DiskEff PUnit := do
  let d ← Eff.get
  if outputFile.fileExists d then return ⟨⟩
  let made ← outputFile.mkdirs
  if made then return ⟨⟩
  Eff.throw (couldntCreate outputFile)

/-- What `untar` does with a regular file. -/
def untarFile (outputFile : TargetFile) (content : Content) : DiskEff PUnit :=
  match outputFile.getParentFile with
  | none => Eff.throw nullPointer
  | some parentFile => do
      mkdirsIfMissing parentFile
      outputFile.write content

/-- What `untar` does with an entry. -/
def untarEntry (outputDir : List Text) (entry : TarEntry) : DiskEff PUnit :=
  let outputFile := targetOf outputDir entry.name
  if entry.isDirectory then untarDirectory outputFile else untarFile outputFile entry.content

/-- The loop over the entries. -/
def untarLoop (outputDir : List Text) : List TarEntry → DiskEff (List TargetFile)
  | [] => pure []
  | entry :: rest => do
      untarEntry outputDir entry
      let untaredFiles ← untarLoop outputDir rest
      return targetOf outputDir entry.name :: untaredFiles

/-- `untar(inFile, outputDir)`: the files of the entries. An exception is
thrown on as a `ZoofficeRuntimeException`. -/
def untar (entries : List TarEntry) (outputDir : List Text) : DiskEff (List TargetFile) :=
  Eff.tryCatch (untarLoop outputDir entries) fun e =>
    Eff.throw (if e.isException then ⟨.zoofficeRuntime, some "Error while untar file"⟩ else e)

/-! ## Jar archives -/

/-- What stands before the loop of `unjar`. -/
def unjarDestination (dest : List Text) : DiskEff PUnit := do
  mkdirsIfMissing ⟨dest, []⟩
  let d ← Eff.get
  if TargetFile.isDirectory ⟨dest, []⟩ d then return ⟨⟩
  Eff.throw (ioException "Destination must be a directory.")

/-- The name of an entry without a `/` at its end, and then without one at
its beginning. `charAt` throws when there is no letter. -/
def unjarFileName (name : Text) : Except Throwable Text :=
  match name.getLast? with
  | none => .error ⟨.indexOutOfBounds, none⟩
  | some c =>
      let fileName := if c = '/' then name.dropLast else name
      match fileName.head? with
      | none => .error ⟨.indexOutOfBounds, none⟩
      | some c => .ok (if c = '/' then fileName.drop 1 else fileName)

/-- What `unjar` does with a regular file. -/
def unjarFile (file : TargetFile) (content : Content) : DiskEff PUnit :=
  match file.getParentFile with
  | none => file.write content
  | some parent => do
      mkdirsIfMissing parent
      file.write content

/-- What `unjar` does with an entry. -/
def unjarEntry (dest : List Text) (entry : ZipEntry) : DiskEff PUnit := do
  let fileName ← Eff.ofExcept (unjarFileName entry.name)
  let file := targetOf dest fileName
  if entry.isDirectory then
    let _ ← file.mkdirs
    return ⟨⟩
  unjarFile file entry.content

/-- The loop over the entries. -/
def unjarLoop (dest : List Text) : List ZipEntry → DiskEff PUnit
  | [] => pure ⟨⟩
  | entry :: rest => do
      unjarEntry dest entry
      unjarLoop dest rest

/-- Where the manifest goes. -/
def manifestName : Text := "META-INF/MANIFEST.MF".toList

/-- What `unjar` does with the manifest. -/
def unjarManifest (dest : List Text) (mf : Content) : DiskEff PUnit :=
  let file := targetOf dest manifestName
  match file.getParentFile with
  | none => Eff.throw nullPointer
  | some parent => do
      mkdirsIfMissing parent
      file.write mf

/-- `unjar(jarFile, destDir)`. -/
def unjar (jar : JarArchive) (dest : List Text) : DiskEff PUnit := do
  unjarDestination dest
  unjarLoop dest jar.entries
  match jar.manifest with
  | none => return ⟨⟩
  | some mf => unjarManifest dest mf

end CompressionUtil

end Zooffice
