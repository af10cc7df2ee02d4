import Mathlib.Logic.Function.Basic
import Zooffice.Infra.Model.Config
/-!
# Announcements

`AnnouncementService.saveAnnouncement` writes `announcement.conf` and has
`Config.loadAnnouncement` read it again, and the watch dog of the file has
it read too when the file has changed. Any number of threads do so at a
time. Only the loading is `synchronized`: the file may be opened, and with
that emptied, and written to while another thread reads it or has it open
for writing, and what a read gives that such a change interrupts is open.
-/


namespace Zooffice

/-- Where a thread is: in `writeStringToFile`, in front of
`loadAnnouncement`, or in it. A read remembers how often the file had been
changed when it began. -/
inductive AnnouncementPc where
  | idle
  | opened (content : Text)
  | changed
  | entered
  | reading (since : Nat)
  | loaded (announcement : Text) (since : Nat)
  deriving DecidableEq, Repr

/-- What a thread does. -/
inductive AnnouncementAction where
  /-- `saveAnnouncement(content)` opens the file. -/
  | save (content : Text)
  /-- `writeStringToFile` has written the content. -/
  | write
  /-- It throws after so many bytes, and nothing is loaded. -/
  | writeFails (written : Nat)
  /-- The watch dog has seen the file change. -/
  | notice
  /-- Somebody changes the file by hand. -/
  | edit (file : Option Content)
  /-- `loadAnnouncement` is entered. -/
  | enter
  | beginRead
  | read (interrupted : Content)
  | readFails
  /-- The field is set, and the monitor left. -/
  | set
  deriving DecidableEq, Repr

/-- The file, how often it has been changed, whether its last change is one
that nobody loads who has seen it, the field of `Config` with the number of
changes at the time of its read, and the threads. -/
structure Announcing (ι : Type) where
  file : Option Content
  changes : Nat
  owed : Bool
  announcement : Option Text
  loadedAt : Nat
  monitor : Option ι
  pc : ι → AnnouncementPc

namespace Announcing

variable {ι : Type} [DecidableEq ι]

/-- Before the file is read for the first time. -/
def start (file : Option Content) : Announcing ι where
  file := file
  changes := 1
  owed := true
  announcement := none
  loadedAt := 0
  monitor := none
  pc _ := .idle

/-- A thread goes on. -/
def move (S : Announcing ι) (i : ι) (pc : AnnouncementPc) : Announcing ι :=
  { S with pc := Function.update S.pc i pc }

/-- The file is changed. -/
def change (S : Announcing ι) (file : Option Content) (owed : Bool) : Announcing ι :=
  { S with file := file, changes := S.changes + 1, owed := owed }

/-- A file that is written to from its beginning. -/
def overwrite (bytes : Content) (file : Option Content) : Option Content :=
  some (bytes ++ (file.getD []).drop bytes.length)

/-- What `readFileToString(sysFile, "UTF-8")` gives, or the empty text for
a file that is not there. -/
def textOf (charsets : Charsets) (file : Option Content) : Text :=
  match file with
  | none => []
  | some data => charsets.decode "UTF-8".toList data

/-- One step. -/
def step (charsets : Charsets) (S : Announcing ι) (a : ι × AnnouncementAction) :
    Option (Announcing ι) :=
  match a.2, S.pc a.1 with
  | .save content, .idle => some ((S.change (some []) false).move a.1 (.opened content))
  | .write, .opened content =>
      some ((S.change (overwrite (utf8Bytes content) S.file) false).move a.1 .changed)
  | .writeFails written, .opened content =>
      some ((S.change (overwrite ((utf8Bytes content).take written) S.file) true).move a.1 .idle)
  | .notice, .idle => some ({ S with owed := false }.move a.1 .changed)
  | .edit file, _ => some (S.change file true)
  | .enter, .changed =>
      if S.monitor = none then some ({ S with monitor := some a.1 }.move a.1 .entered) else none
  | .beginRead, .entered =>
      -- a file that is not there cannot be opened
      some (S.move a.1 (if S.file = none then .loaded [] S.changes else .reading S.changes))
  | .read interrupted, .reading since =>
      let text := if S.changes = since then textOf charsets S.file
        else textOf charsets (some interrupted)
      some (S.move a.1 (.loaded text since))
  | .readFails, .reading since => some (S.move a.1 (.loaded [] since))
  | .set, .loaded announcement since =>
      some ({ S with announcement := some announcement, loadedAt := since, monitor := none }.move
        a.1 .idle)
  | _, _ => none

end Announcing

end Zooffice
