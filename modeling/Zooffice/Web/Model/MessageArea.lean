import Zooffice.Java.Text
/-!
# The message area

`messages.ftl`: a page shows a message in an area that is there once, and
a timer takes it away. The effects of jQuery that the script uses are those
of the version that comes with it: the fades of an element wait for each
other, and one that has nothing to do is over at once.
-/


namespace Zooffice

/-- The colours of messages. -/
inductive Colour where
  | success
  | info
  | block
  deriving DecidableEq, Repr

/-- The class of a colour. -/
def Colour.className : Colour → Text
  | success => "alert-success".toList
  | info => "alert-info".toList
  | block => "alert-block".toList

/-- A fade, which takes a tenth of a second. -/
inductive Fade where
  | fadeIn
  | fadeOut
  deriving DecidableEq, Repr

/-- The element `messageDiv` with its fades, and the timers of the page. A
timer has a number, and takes a colour away. -/
structure MessageArea where
  className : List Text
  html : Text
  displayed : Bool
  running : Option Fade
  waiting : List Fade
  timers : List (ℕ × Colour)
  nextTimer : ℕ
  msgTimeout : Option ℕ
  deriving DecidableEq, Repr

/-- What happens on the page. -/
inductive PageEvent where
  | showSuccessMsg (message : Text)
  | showInformation (message : Text)
  | showWarning (message : Text)
  | hideMsg
  | timeout (timer : ℕ)
  | fadeEnds
  deriving DecidableEq, Repr

namespace MessageArea

/-- The area of a new page. -/
def init : MessageArea :=
  ⟨["alert".toList, "messageDiv".toList], [], false, none, [], [], 1, none⟩

/-! ## What jQuery does -/

/-- `hide`, without a duration: fades go on. -/
def hide (s : MessageArea) : MessageArea := { s with displayed := false }

/-- `addClass`. -/
def addClass (s : MessageArea) (c : Text) : MessageArea :=
  if c ∈ s.className then s else { s with className := s.className ++ [c] }

/-- `removeClass`. -/
def removeClass (s : MessageArea) (c : Text) : MessageArea :=
  { s with className := s.className.erase c }

/-- The next of the fades that has something to do is started. One that
fades in displays the element first. -/
def dequeue (s : MessageArea) : List Fade → MessageArea
  | [] => { s with running := none, waiting := [] }
  | .fadeIn :: rest =>
      if s.displayed then s.dequeue rest
      else { s with displayed := true, running := some .fadeIn, waiting := rest }
  | .fadeOut :: rest =>
      if s.displayed then { s with running := some .fadeOut, waiting := rest }
      else s.dequeue rest

/-- `fadeIn` or `fadeOut`: it waits for the fade that is running. -/
def fade (s : MessageArea) (f : Fade) : MessageArea :=
  match s.running with
  | some _ => { s with waiting := s.waiting ++ [f] }
  | none => s.dequeue (s.waiting ++ [f])

/-- The fade that is running is over. -/
def fadeEnds (s : MessageArea) : MessageArea :=
  match s.running with
  | none => s
  | some .fadeIn => s.dequeue s.waiting
  | some .fadeOut => s.hide.dequeue s.waiting

/-! ## The script -/

/-- `clearTimeout(msgTimeout)`. -/
def clearTimeout (s : MessageArea) : MessageArea :=
  { s with timers := s.timers.filter fun t => some t.1 ≠ s.msgTimeout }

/-- `msgTimeout = setTimeout(..)`. -/
def setTimeout (s : MessageArea) (color : Colour) : MessageArea :=
  { s with
    timers := s.timers ++ [(s.nextTimer, color)]
    nextTimer := s.nextTimer + 1
    msgTimeout := some s.nextTimer }

/-- `showMsg`. -/
def showMsg (s : MessageArea) (color : Colour) (message : Text) : MessageArea :=
  let s := s.hide.addClass color.className
  let s := { s with html := message }
  ((s.fade .fadeIn).clearTimeout).setTimeout color

/-- The function of a timer, when its time has come. -/
def timeout (s : MessageArea) (timer : ℕ) : MessageArea :=
  match s.timers.find? fun t => t.1 = timer with
  | none => s
  | some t =>
      let s := { s with timers := s.timers.erase t }
      (s.fade .fadeOut).removeClass t.2.className

/-- `hideMsg`. -/
def hideMsg (s : MessageArea) : MessageArea :=
  if s.displayed then
    let s := s.clearTimeout.fade .fadeOut
    ((s.removeClass Colour.success.className).removeClass Colour.info.className).removeClass
      Colour.block.className
  else s

/-- The page after an event. -/
def handle (s : MessageArea) : PageEvent → MessageArea
  | .showSuccessMsg message => s.showMsg .success message
  | .showInformation message => s.showMsg .info message
  | .showWarning message => s.showMsg .block message
  | .hideMsg => s.hideMsg
  | .timeout timer => s.timeout timer
  | .fadeEnds => s.fadeEnds

/-- The page after the events, in their order. -/
def handleAll (s : MessageArea) (events : List PageEvent) : MessageArea := events.foldl handle s

end MessageArea

end Zooffice
