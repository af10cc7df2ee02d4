import Zooffice.Archive.Model.Extract
/-!
# Reading an archive as a jar

What a `JarInputStream` makes of the entries of an archive: a manifest that
comes first is not given as an entry.
-/


namespace Zooffice

namespace CompressionUtil

/-- A letter, whatever its case, next to a letter of the ASCII alphabet:
the dotless and the dotted `i`, the long `s` and the sign for kelvin go
with `i`, `s` and `k`. -/
def foldCase (c : Char) : Char :=
  if c = Char.ofNat 0x130 ∨ c = Char.ofNat 0x131 then 'i'
  else if c = Char.ofNat 0x17F then 's'
  else if c = Char.ofNat 0x212A then 'k'
  else c.toLower

/-- `String.equalsIgnoreCase` with a text of ASCII letters. -/
def equalsIgnoreCase (text ascii : Text) : Bool := text.map foldCase = ascii.map foldCase

/-- The name of the directory of the manifest. -/
def metaInfName : Text := "META-INF/".toList

/-- `JarInputStream`: the directory of the manifest is passed over when it
comes first, and the manifest then taken out. `rewrite` is what
`Manifest.write` makes of what was read. -/
def jarOf (rewrite : Content → Content) (entries : List ZipEntry) : JarArchive :=
  let entries :=
    match entries with
    | [] => []
    | e :: rest => if equalsIgnoreCase e.name metaInfName then rest else e :: rest
  match entries with
  | [] => ⟨[], none⟩
  | e :: rest =>
      if equalsIgnoreCase e.name manifestName then ⟨rest, some (rewrite e.content)⟩
      else ⟨e :: rest, none⟩

end CompressionUtil

end Zooffice
