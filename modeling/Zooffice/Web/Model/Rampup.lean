import Zooffice.Js.Number
/-!
# The ramp-up chart

`rampup.js`: the fields of the form hold whole numbers, and the chart shows
how many processes run at which time. Every result of arithmetic goes
through `fl`, which is `Js.toDouble` in a browser.
-/


namespace Zooffice

/-- What `drawRampup` hands over to the plot. -/
structure RampPlot where
  data : List (ℚ × ℚ)
  internalTime : ℚ
  maxY : ℚ
  deriving DecidableEq, Repr

/-- The form, whether its ramp-up fields can be written, and the plot. -/
structure RampPage where
  processes : ℤ
  processIncrement : ℤ
  initProcesses : ℤ
  processIncrementInterval : ℤ
  initSleepTime : ℤ
  rampupChecked : Bool
  readonly : Bool
  plotObj : Option RampPlot
  deriving DecidableEq, Repr

/-- Where the loop is: the time, the processes and the points so far. -/
structure RampCursor where
  curX : ℚ
  curY : ℚ
  seriesArray : List (ℚ × ℚ)
  deriving DecidableEq, Repr

namespace Rampup

/-- `disableRampup`. -/
def disableRampup (page : RampPage) : RampPage := { page with initProcesses := 0, readonly := true }

/-- `enableRampup`. -/
def enableRampup (page : RampPage) : RampPage := { page with readonly := false }

variable (fl : ℚ → ℚ)

/-- The two points of a level, from just behind `curX` to an interval
later. -/
def pushLevel (internalTime : ℚ) (cursor : RampCursor) : RampCursor :=
  let start := (fl (cursor.curX + fl (1 / 100)), cursor.curY)
  let curX := fl (cursor.curX + internalTime)
  { cursor with curX, seriesArray := cursor.seriesArray ++ [start, (curX, cursor.curY)] }

/-- More processes, but not more than there are. -/
def increase (processes processInc : ℚ) (cursor : RampCursor) : RampCursor :=
  let curY := fl (cursor.curY + processInc)
  { cursor with curY := if processes < curY then processes else curY }

/-- `steps`: dividing by zero comes up for zero only, and gives no number. -/
def stepCount (processes initialProcesses processInc : ℚ) : Option ℚ :=
  if processInc = 0 then none
  else
    let steps := fl (fl (processes - initialProcesses) / processInc)
    some (if steps = 0 then 1 else steps)

/-- The series with ramp-up. -/
def rampSeries (processes initialProcesses processInc internalTime initialSleepTime : ℚ) :
    List (ℚ × ℚ) :=
  let rest := if 0 < initialSleepTime then [(0, 0), (initialSleepTime, 0)] else []
  let start := pushLevel fl internalTime ⟨initialSleepTime, initialProcesses, rest⟩
  let steps := Js.loopSteps 1 (stepCount fl processes initialProcesses processInc)
  (steps.foldl (fun cursor _ => pushLevel fl internalTime (increase fl processes processInc cursor))
    start).seriesArray

/-- The series without. -/
def flatSeries (processes initialProcesses processInc internalTime : ℚ) : List (ℚ × ℚ) :=
  let steps := Js.loopSteps 0 (stepCount fl processes initialProcesses processInc)
  (steps.foldl (fun cursor _ => pushLevel fl internalTime cursor) ⟨0, processes, []⟩).seriesArray

/-- `updateRampupChart`. -/
def updateRampupChart (page : RampPage) : RampPage :=
  let processes := fl page.processes
  let processInc := fl page.processIncrement
  let initialProcesses := fl page.initProcesses
  let internalTime := fl page.processIncrementInterval
  if processes < initialProcesses then { page with initProcesses := 1 }
  else if initialProcesses < processes ∧ processInc = 0 then { page with processIncrement := 1 }
  else
    let initialSleepTime := fl page.initSleepTime
    let maxY := fl (Js.parseIntNumber (fl (fl (processes / 5) + 1)) * 5)
    if page.rampupChecked then
      let seriesArray :=
        rampSeries fl processes initialProcesses processInc internalTime initialSleepTime
      { enableRampup page with plotObj := some ⟨seriesArray, internalTime, maxY⟩ }
    else
      let seriesArray := flatSeries fl processes initialProcesses processInc internalTime
      let page := disableRampup page
      match page.plotObj with
      | some plotObj => { page with plotObj := some { plotObj with data := seriesArray } }
      | none => { page with plotObj := some ⟨seriesArray, internalTime, maxY⟩ }

end Rampup

end Zooffice
