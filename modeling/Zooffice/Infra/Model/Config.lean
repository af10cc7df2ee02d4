import Zooffice.Archive.Model.Disk
import Zooffice.Java.Properties
/-!
# The settings of the server

`Config` reads `system.conf` of the home and lets `system-ex.conf` of the
extended home overrule it. An administrator edits the first on a page
(`SystemConfigService`). The detector of encodings is a library, and the
charsets are the platform's: both are parameters.
-/


namespace Zooffice

/-- `CharsetDetector.detect`, as the name and the confidence of its best
match, and the charsets. -/
structure Charsets where
  detect : Content → Option (Text × Nat)
  isSupported : Text → Bool
  decode : Text → Content → Text

/-- A platform on which all texts are of ASCII, of which the detector is not
sure, so that the default encoding is taken. -/
def asciiCharsets : Charsets where
  detect _ := some ("UTF-8".toList, 15)
  isSupported _ := true
  decode _ data := data.map fun byte => Char.ofNat byte.toNat

/-- `String.getBytes("UTF-8")`. -/
def utf8Bytes (text : Text) : Content := (String.ofList text).toUTF8.data.toList

namespace EncodingUtil

/-- `MINIMAL_CONFIDENCE_LEVEL`. -/
def minimalConfidenceLevel : Nat := 70

/-- `detectEncoding`. -/
def detectEncoding (charsets : Charsets) (data : Content) (defaultEncoding : Text) :
    Except Throwable Text :=
  match charsets.detect data with
  | none => .error ⟨.nullPointer, none⟩
  | some (estimatedEncoding, confidence) =>
      let isReliable := charsets.isSupported estimatedEncoding ∧
        minimalConfidenceLevel ≤ confidence
      .ok (if isReliable then estimatedEncoding else defaultEncoding)

/-- `getAutoDecodedString`. -/
def getAutoDecodedString (charsets : Charsets) (data : Content) (defaultEncoding : Text) :
    Except Throwable Text := do
  let encoding ← detectEncoding charsets data defaultEncoding
  return charsets.decode encoding data

end EncodingUtil

namespace PropertiesWrapper

/-- `getProperty(key, defaultValue)`. -/
def getProperty (properties : PropertyMap) (key : Text) (defaultValue : String) : String :=
  let value := (properties key).map String.ofList
  trim (if isBlank value then defaultValue else trim (value.getD ""))

end PropertiesWrapper

/-- The files of the two homes that `Config` reads: the path of the home,
its `system.conf`, and the `system-ex.conf` of the extended home, if there
is such a home. -/
structure ConfFiles where
  directory : Text
  systemConf : Option Content
  exHome : Option (Option Content)
  deriving DecidableEq, Repr

namespace Config

/-- `Home.getProperties`, of the file if it is there. -/
def getProperties (charsets : Charsets) (configFile : Option Content) :
    Except Throwable PropertyMap :=
  match configFile with
  | none => .ok PropertyMap.empty
  | some propByte => do
      let propString ← EncodingUtil.getAutoDecodedString charsets propByte "UTF-8".toList
      PropertyMap.load propString

/-- The key under which the path of the home is put. -/
def nGrinderHome : Text := "NGRINDER_HOME".toList

/-- What `system-ex.conf` overrules. -/
def exProperties (charsets : Charsets) (files : ConfFiles) : Except Throwable PropertyMap :=
  match files.exHome with
  | none => .ok PropertyMap.empty
  | some configFile => getProperties charsets configFile

/-- `loadSystemProperties`. -/
def loadSystemProperties (charsets : Charsets) (files : ConfFiles) :
    Except Throwable PropertyMap := do
  let properties ← getProperties charsets files.systemConf
  let exProperties ← exProperties charsets files
  return (properties.put (nGrinderHome, files.directory)).putAll exProperties

/-- `SystemConfigService.saveSystemConfigFile`, when the file can be
written. -/
def saveSystemConfigFile (files : ConfFiles) (content : Text) : ConfFiles :=
  { files with systemConf := some (utf8Bytes content) }

end Config

end Zooffice
