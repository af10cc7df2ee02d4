import Zooffice.Js.Number
/-!
# The charts

`drawChart.js`: the labels of the time axis, the largest value of the data
and the two functions that draw a chart. A series is an array of numbers
and nulls. What draws is `jqplot`, of which `Axis.ticks` is what its
`LinearAxisRenderer` makes of an axis that has both ends and the number of
its ticks.
-/


namespace Zooffice

/-- An array of numbers and nulls. -/
abbrev Series : Type := List (Option ℚ)

/-- The data of a chart: an array, or a text that is evaluated to one. -/
inductive ChartData
  | array (values : Series)
  | text (source : Text)

/-- The data of a chart with several lines: arrays, or texts that are
evaluated to arrays. -/
inductive MultiChartData
  | arrays (values : List Series)
  | texts (sources : List Text)

/-- An axis of a plot. -/
structure Axis where
  min : ℚ
  max : ℚ
  numberTicks : ℕ
  formatter : ℚ → Text

/-- What is handed over to `jqplot`. -/
structure Plot where
  values : List Series
  xaxis : Axis
  yaxis : Axis

/-- The ticks of an axis: the ends are apart by a whole number of
intervals. -/
def Axis.ticks (axis : Axis) : List ℚ :=
  let range := Js.toDouble (axis.max - axis.min)
  let tickInterval := Js.toDouble (range / (axis.numberTicks - 1 : ℕ))
  (List.range axis.numberTicks).map fun (i : ℕ) =>
    Js.toDouble (axis.min + Js.toDouble (i * tickInterval))

namespace DrawChart

/-- `formatTimeForXaxis`. -/
def formatTimeForXaxis (timeInSecond : ℤ) : Text :=
  let timeInSecond := if timeInSecond < 0 then 0 else timeInSecond
  let hour := Js.parseIntNumber (Js.toDouble ((timeInSecond.tmod (60 * 60 * 24) : ℤ) / 3600))
  let min := Js.parseIntNumber (Js.toDouble ((timeInSecond.tmod 3600 : ℤ) / 60))
  let sec := Js.parseIntNumber (timeInSecond.tmod 60 : ℤ)
  let secText := if sec < 10 then '0' :: integerText sec else integerText sec
  let display := integerText min ++ [':'] ++ secText
  let display := if min < 10 then '0' :: display else display
  if 0 < hour then integerText hour ++ [':'] ++ display else display

/-- The number that a value is compared as. -/
def toNumber (value : Option ℚ) : ℚ := value.getD 0

variable (eval : Text → Series)

/-- `preparedData`. -/
def preparedData (data : ChartData) : List Series :=
  match data with
  | .array values => [values]
  | .text source => [eval source]

/-- `getMaxValue`, which is undefined where the data is. -/
def getMaxValue (data : Option ChartData) : Option (Option ℚ) :=
  data.map fun data =>
    (preparedData eval data).foldl
      (fun ymax series => series.foldl
        (fun ymax value =>
          if value ≠ none ∧ toNumber ymax < toNumber value then value else ymax) ymax)
      (some 0)

/-- `getMultiPlotMaxValue`, which leaves the nulls to the comparison. -/
def getMultiPlotMaxValue (data : List Series) : Option ℚ :=
  data.foldl
    (fun ymax series => series.foldl
      (fun ymax value => if toNumber ymax < toNumber value then value else ymax) ymax)
    (some 0)

/-- The formatter of the time axis. -/
def timeFormatter (interval value : ℚ) : Text :=
  formatTimeForXaxis (Js.parseIntNumber (Js.toDouble (Js.toDouble (value - 1) * interval)))

/-- An interval that is missing, zero or no number is one second. -/
def defaultInterval (interval : Option ℚ) : ℚ :=
  match interval with
  | none => 1
  | some interval => if interval = 0 then 1 else interval

/-- `drawChart`. -/
def drawChart (data : Option ChartData) (formatYaxis : Option (ℚ → Text))
    (interval : Option ℚ) : Option Plot := do
  let source ← data
  let values := preparedData eval source
  let dataCnt := (values.headD []).length
  if dataCnt = 0 then none
  else
    let ymax ← getMaxValue eval data
    let ymax := if toNumber ymax < 5 then 5 else toNumber ymax
    let ymax := Js.toDouble (Js.parseIntNumber (Js.toDouble (Js.toDouble (ymax / 5) + 1)) * 6)
    some
      { values
        xaxis := ⟨1, dataCnt, 10, timeFormatter (defaultInterval interval)⟩
        yaxis := ⟨0, ymax, 7, formatYaxis.getD Js.toFixed0⟩ }

/-- The arrays of a chart with several lines. -/
def preparedMultiData (data : MultiChartData) : List Series :=
  match data with
  | .arrays values => values
  | .texts sources => sources.map eval

/-- `drawMultiPlotChart`. -/
def drawMultiPlotChart (data : Option MultiChartData) (interval : Option ℚ) : Option Plot := do
  let values := preparedMultiData eval (← data)
  if values.length = 0 then none
  else
    let dataCnt := (values.getLastD []).length
    if dataCnt = 0 then none
    else
      let ymax := getMultiPlotMaxValue values
      let ymax := if toNumber ymax < 5 then 5 else toNumber ymax
      let ymax := Js.toDouble (Js.parseIntNumber (Js.toDouble (Js.toDouble (ymax / 5) + 1)) * 6)
      some
        { values
          xaxis := ⟨1, dataCnt, 10, timeFormatter (defaultInterval interval)⟩
          yaxis := ⟨0, ymax, 7, Js.toFixed0⟩ }

end DrawChart

end Zooffice
