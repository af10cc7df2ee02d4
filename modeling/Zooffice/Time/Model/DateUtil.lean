import Zooffice.Java.Integers
/-!
# Durations and time zones

`DateUtil`: a length of time in milliseconds and its text, and the map of
the time zones with their labels. The time zones of the Java runtime are a
parameter.
-/


namespace Zooffice

/-- What the code asks of a `java.util.TimeZone`: the name and the offset
in milliseconds. -/
structure TimeZone where
  displayName : Text
  rawOffset : Int32
  deriving DecidableEq, Repr

/-- `TimeZone.getAvailableIDs()` and `TimeZone.getTimeZone(id)`. -/
structure TimeZones where
  availableIDs : List Text
  timeZone : Text → TimeZone

namespace DateUtil

def constant10 : Int32 := 10
def constant24 : Int32 := 24
def constant60 : Int32 := 60
def constant1000 : Int32 := 1000

/-- A second in milliseconds. -/
def ss : Int32 := constant1000

/-- A minute. -/
def mi : Int32 := ss * constant60

/-- An hour. -/
def hh : Int32 := mi * constant60

/-- A day. -/
def dd : Int32 := hh * constant24

/-! ## Durations -/

/-- `x < CONSTANT_10 ? "0" + x : "" + x`. -/
def field (x : Int64) : Text :=
  if x < constant10.toInt64 then '0' :: integerText x.toInt else integerText x.toInt

/-- `ms2Time`. -/
def ms2Time (ms : Int64) : Text :=
  let day := ms / dd.toInt64
  let hour := (ms - day * dd.toInt64) / hh.toInt64
  let minute := (ms - day * dd.toInt64 - hour * hh.toInt64) / mi.toInt64
  let second := (ms - day * dd.toInt64 - hour * hh.toInt64 - minute * mi.toInt64) / ss.toInt64
  let strDay := field day
  let strHour := field hour
  let strMinute := field minute
  let strSecond := field second
  let strDay := if strDay = ['0', '0'] then [] else strDay ++ [':']
  strDay ++ strHour ++ [':'] ++ strMinute ++ [':'] ++ strSecond

/-- `timeToMs`: only the last product is one of `long`s. -/
def timeToMs (day hour min sec : Int32) : Int64 :=
  constant1000.toInt64 *
    (((day * constant24 + hour) * constant60 + min) * constant60 + sec).toInt64

/-! ## Time zones -/

/-- The `%02d` of `String.format`: the sign counts, and comes first. -/
def format02d (n : Int) : Text :=
  if n < 0 then '-' :: decimal n.natAbs else padded n.natAbs

/-- The `%+d` of `String.format`. -/
def formatSigned (n : Int) : Text :=
  if n < 0 then '-' :: decimal n.natAbs else '+' :: decimal n.natAbs

/-- The hours of an offset, which are what the label has for it. -/
def offsetHour (offset : Int32) : Int32 :=
  let offsetSecond := offset / constant1000
  offsetSecond / (constant60 * constant60)

/-- The minutes of an offset. -/
def offsetMinutes (offset : Int32) : Int32 :=
  let offsetSecond := offset / constant1000
  (offsetSecond % (constant60 * constant60)) / constant60

/-- `String.format("(GMT%+d:%02d) %s", hour, minutes, id)`. -/
def label (offset : Int32) (id : Text) : Text :=
  ['(', 'G', 'M', 'T'] ++ formatSigned (offsetHour offset).toInt ++ [':'] ++
    format02d (offsetMinutes offset).toInt ++ [')', ' '] ++ id

/-- `LinkedHashMap`, in the order in which the keys came. -/
abbrev TimezoneIDMap : Type := List (Text × Text)

/-- `LinkedHashMap.put`: a key that is there keeps its place. -/
def put (name value : Text) : TimezoneIDMap → TimezoneIDMap
  | [] => [(name, value)]
  | entry :: map =>
      if entry.1 = name then (name, value) :: map else entry :: put name value map

/-- `LinkedHashMap.get`. -/
def get (map : TimezoneIDMap) (name : Text) : Option Text :=
  (map.find? fun entry => entry.1 = name).map Prod.snd

/-- The body of the loop over the ids. -/
def putZone (zones : TimeZones) (map : TimezoneIDMap) (id : Text) : TimezoneIDMap :=
  let zone := zones.timeZone id
  put zone.displayName (label zone.rawOffset id) map

/-- `getFilteredTimeZoneMap`; the map is made once. -/
def getFilteredTimeZoneMap (zones : TimeZones) (timezoneIDMap : Option TimezoneIDMap) :
    TimezoneIDMap :=
  match timezoneIDMap with
  | none => zones.availableIDs.foldl (putZone zones) []
  | some map => map

end DateUtil

end Zooffice
