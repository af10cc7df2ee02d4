import Zooffice.Archive.Model.Compression
/-!
# The home directory

`Home.copyFrom` copies the files of a template directory into the home.
`FileUtils` is that of commons-io, without the times of the files.
-/


namespace Zooffice

open CompressionUtil

namespace FileUtils

/-- A path in a message. -/
def quoted (path : List Text) : String := "'" ++ String.ofList (absolutePathOf path) ++ "'"

/-- What stands before the copying: the directory of the destination is made
if it is missing. -/
def makeParent (destFile : TargetFile) : DiskEff PUnit :=
  match destFile.getParentFile with
  | none => pure ⟨⟩
  | some parentFile => do
      let d ← Eff.get
      if parentFile.fileExists d then return ⟨⟩
      let made ← parentFile.mkdirs
      if made then return ⟨⟩
      Eff.throw (ioException ("Destination " ++ quoted (destFile.directory ++ destFile.names) ++
        " directory cannot be created"))

/-- `copyFile(srcFile, destFile)`. -/
def copyFile (srcFile : List Text) (destFile : TargetFile) : DiskEff PUnit := do
  let d ← Eff.get
  match d srcFile with
  | none => Eff.throw (ioException ("Source " ++ quoted srcFile ++ " does not exist"))
  | some .directory =>
      Eff.throw (ioException ("Source " ++ quoted srcFile ++ " exists but is a directory"))
  | some (.file content) =>
      if srcFile = destFile.getCanonicalFile then
        Eff.throw (ioException ("Source " ++ quoted srcFile ++ " and destination " ++
          quoted (destFile.directory ++ destFile.names) ++ " are the same"))
      else
        makeParent destFile
        destFile.write content

/-- `copyFileToDirectory(srcFile, destDir)`, for a file of this name. -/
def copyFileToDirectory (srcFile : List Text) (name : Text) (destDir : TargetFile) :
    DiskEff PUnit := do
  let d ← Eff.get
  if destDir.fileExists d ∧ destDir.isDirectory d = false then
    Eff.throw ⟨.illegalArgument, some ("Destination " ++
      quoted (destDir.directory ++ destDir.names) ++ " is not a directory")⟩
  else copyFile srcFile ⟨destDir.directory, destDir.names ++ [name]⟩

end FileUtils

/-- A home, by the location of its directory. -/
structure Home where
  directory : List Text
  legal : ∀ n ∈ directory, FileName n

namespace Home

/-- Where the copies go that do not replace a file. -/
def orgConf : Text := "org_conf".toList

/-- What is done with a file of the template. -/
def copyOne (home : Home) (source : List Text) (name : Text) : DiskEff PUnit := do
  let d ← Eff.get
  if TargetFile.fileExists ⟨home.directory, [name]⟩ d = false then
    FileUtils.copyFileToDirectory (source ++ [name]) name ⟨home.directory, []⟩
  else
    let _ ← TargetFile.mkdirs ⟨home.directory, [orgConf]⟩
    FileUtils.copyFile (source ++ [name]) ⟨home.directory, [orgConf] ++ [name]⟩

/-- The loop over the files. -/
def copyAll (home : Home) (source : List Text) (names : List Text) : DiskEff PUnit :=
  Eff.forEach (copyOne home source) names

/-- `copyFrom(from, overwrite)`, when `from.listFiles()` gives the files of
these names: it is null for what is not a directory. -/
def copyFrom (home : Home) (source : List Text) (names : List Text) (_overwrite : Bool) :
    DiskEff PUnit := do
  let d ← Eff.get
  if d source = some .directory then
    Eff.tryCatch (copyAll home source names) fun e =>
      Eff.throw (if e.cls = .other "IOException" then
        ⟨.zoofficeRuntime, some ("Fail to copy files from " ++
          String.ofList (absolutePathOf source))⟩ else e)
  else Eff.throw ⟨.nullPointer, none⟩

/-- `makeSubPath`. -/
def makeSubPath (home : Home) (subPathName : Text) : DiskEff PUnit := do
  let d ← Eff.get
  if TargetFile.fileExists ⟨home.directory, [subPathName]⟩ d then return ⟨⟩
  Eff.modify fun d => if d home.directory = some .directory then
    d.put (home.directory ++ [subPathName]) .directory else d

/-- `Config.copyDefaultConfigurationFiles`: the files are copied when the
server starts. -/
def copyDefaultConfigurationFiles (home : Home) (template : List Text) (names : List Text) :
    DiskEff PUnit := do
  copyFrom home template names false
  makeSubPath home "plugins".toList

end Home

end Zooffice
