import Mathlib.Logic.Function.Basic
import Zooffice.Common.Effect
import Zooffice.Java.Throwable
/-!
# The messages of the home

`UserMessageSource`: the property files of the messages directory, one for
each language, are read into one map, which a refresh fills again. The
languages of the Java runtime and what makes a message of a text are
parameters, and so is what is read of a file.
-/


namespace Zooffice

/-- The keys of the map. -/
structure LocaleAndCode where
  locale : String
  code : String
  deriving DecidableEq, Repr

/-- `java.util.Properties`, in the order in which its entries are read:
a key is there once. -/
structure Properties where
  entries : List (String × String)
  nodup : (entries.map Prod.fst).Nodup

/-- The messages directory, if it is there: its files by their names, each
with what reading, decoding and parsing it gives. -/
abbrev MessagesDirectory : Type := Option (String → Option (Except Throwable Properties))

/-- `Locale.getISOLanguages()` and `new MessageFormat(pattern)`. -/
structure MessageLibrary (μ : Type) where
  isoLanguages : List String
  messageFormat : String → Except Throwable μ

/-- `langMessageMap`. -/
abbrev LangMessageMap (μ : Type) : Type := LocaleAndCode → Option μ

namespace UserMessageSource

variable {μ : Type}

/-- The name of the file of a language. -/
def fileName (each : String) : String := "messages_" ++ each ++ ".properties"

/-- `langMessageMap.put`. -/
def put (key : LocaleAndCode) (message : μ) (map : LangMessageMap μ) : LangMessageMap μ :=
  Function.update map key (some message)

/-- The loop over the entries of a file. -/
def putEntries (lib : MessageLibrary μ) (each : String) :
    List (String × String) → Eff (LangMessageMap μ) Throwable PUnit
  | [] => pure ⟨⟩
  | (key, value) :: rest => do
      let message ← Eff.ofExcept (lib.messageFormat value)
      Eff.modify (put ⟨each, key⟩ message)
      putEntries lib each rest

/-- What is done with a file that is there: an exception is logged, and
ends the file. -/
def loadFile (lib : MessageLibrary μ) (each : String) (file : Except Throwable Properties) :
    Eff (LangMessageMap μ) Throwable PUnit :=
  Eff.tryCatch
    (do let prop ← Eff.ofExcept file
        putEntries lib each prop.entries)
    fun e => if e.isException then pure ⟨⟩ else Eff.throw e

/-- What is done for a language. -/
def loadLanguage (lib : MessageLibrary μ) (files : String → Option (Except Throwable Properties))
    (each : String) : Eff (LangMessageMap μ) Throwable PUnit :=
  match files (fileName each) with
  | none => pure ⟨⟩
  | some file => loadFile lib each file

/-- `init`, and `refresh`. -/
def init (lib : MessageLibrary μ) (messagesDirectory : MessagesDirectory) :
    Eff (LangMessageMap μ) Throwable PUnit :=
  match messagesDirectory with
  | none => pure ⟨⟩
  | some files => Eff.forEach (loadLanguage lib files) lib.isoLanguages

/-- `resolveCode(code, locale)`, by the language of the locale. -/
def resolveCode (map : LangMessageMap μ) (code language : String) : Option μ :=
  match map ⟨language, code⟩ with
  | none => map ⟨"en", code⟩
  | some resolved => some resolved

end UserMessageSource

end Zooffice
