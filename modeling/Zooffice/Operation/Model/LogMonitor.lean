import Zooffice.Java.Text
/-!
# The log monitor

`LogMonitorController`: a tailer hands over the lines of the log file, one
after the other, and the controller keeps the latest of them as one text.
A request gets that text and two numbers that tell its versions apart. The
numbers count lines, so they stay far below the end of a `long`.
-/


namespace Zooffice

/-- The fields of the controller that the tailer changes. -/
structure LogMonitorController where
  stringBuffer : Text
  count : Nat
  modification : Nat
  deriving DecidableEq, Repr

/-- What `getLastLog` answers. -/
structure LastLog where
  index : Nat
  modification : Nat
  log : Text
  deriving DecidableEq, Repr

namespace LogMonitorController

/-- `LOGGER_BUFFER_SIZE`. -/
def loggerBufferSize : Nat := 10000

/-- A controller without any line. -/
def init : LogMonitorController := ⟨[], 0, 0⟩

/-- What stands between two lines. -/
def lineBreak : Text := "<br>".toList

/-- A line that would make the text longer than 5000 begins another one. -/
def rollOver (c : LogMonitorController) (line : Text) : LogMonitorController :=
  if 5000 < utf16Length c.stringBuffer + utf16Length line then ⟨[], c.count + 1, 0⟩ else c

/-- `handle(line)` of the listener. -/
def handle (c : LogMonitorController) (line : Text) : LogMonitorController :=
  let c := c.rollOver line
  let modification := c.modification + 1
  let stringBuffer :=
    if 0 < utf16Length c.stringBuffer then c.stringBuffer ++ lineBreak else c.stringBuffer
  ⟨stringBuffer ++ replaceLetter line '\n' lineBreak, c.count, modification⟩

/-- The lines that the tailer hands over, in their order. -/
def handleAll (c : LogMonitorController) (lines : List Text) : LogMonitorController :=
  lines.foldl handle c

/-- `getLastLog`. -/
def getLastLog (c : LogMonitorController) : LastLog := ⟨c.count, c.modification, c.stringBuffer⟩

end LogMonitorController

end Zooffice
