import Mathlib.Data.List.Sort
import Zooffice.Common.Occurrence
import Zooffice.Js.Escape
/-!
# Cookies

`addCookie` and `getCookie` of `utils.js`, over a browser that keeps the
cookies of the site: what it stores for the text that is assigned to
`document.cookie`, and the text that it gives back. Of the browser the
text of a date and the rule for which paths belong to a page are
parameters. No cookie expires while it is looked at, so what an expiry
says is not kept.
-/


namespace Zooffice

/-- **A page of the site**, by the path of its address. -/
structure Page where
  path : Text
  absolute : path.head? = some '/'

/-- The path up to its last slash, without the slash unless it is the
first one. -/
def Page.directory (page : Page) : Text :=
  let directory := (page.path.rdropWhile (· ≠ '/')).dropLast
  if directory = [] then ['/'] else directory

structure Cookie where
  name : Text
  value : Text
  path : Text
  deriving DecidableEq, Repr

/-- A cookie is replaced by one of the same name and path. -/
def Cookie.key (c : Cookie) : Text × Text := (c.name, c.path)

/-- **What a browser does in its own way.** A path that belongs to a page is
one that the page's begins with; the root and the page's directory do. -/
structure Browser where
  toGMTString : Option ℚ → Text
  not_mem_toGMTString : ∀ time, ';' ∉ toGMTString time
  pathMatches : Page → Text → Bool
  root_matches : ∀ page, pathMatches page ['/'] = true
  directory_matches : ∀ page, pathMatches page page.directory = true
  prefix_of_matches : ∀ page path, pathMatches page path = true → path <+: page.path

/-- The cookies, the oldest first. -/
abbrev CookieJar : Type := List Cookie

/-! ## `document.cookie` -/

def isCookieBlank (c : Char) : Bool := c == ' ' || c == '\t'

def trimBlanks (text : Text) : Text := (text.dropWhile isCookieBlank).rdropWhile isCookieBlank

/-- The parts of a text on the two sides of its first `=`. -/
def nameAndValue (text : Text) : Text × Text :=
  (trimBlanks (text.takeWhile (· ≠ '=')), trimBlanks ((text.dropWhile (· ≠ '=')).drop 1))

/-- The path that the last attribute of this name gives, or the directory of the
page. -/
def pathAttribute (page : Page) (attributes : List Text) : Text :=
  let paths := (attributes.map nameAndValue).filter fun a => a.1.map Char.toLower = "path".toList
  match paths.getLast? with
  | some (_, '/' :: rest) => '/' :: rest
  | _ => page.directory

/-- The cookie that an assigned text is. -/
def parseCookie (page : Page) (text : Text) : Option Cookie :=
  match text.splitOn ';' with
  | [] => none
  | pair :: attributes =>
      if '=' ∈ pair then
        some ⟨(nameAndValue pair).1, (nameAndValue pair).2, pathAttribute page attributes⟩
      else none

namespace CookieJar

/-- A cookie takes the place of the one with its name and path. -/
def put (jar : CookieJar) (c : Cookie) : CookieJar :=
  if jar.any fun d => d.key = c.key then jar.map fun d => if d.key = c.key then c else d
  else jar ++ [c]

/-- `document.cookie = text` on a page. -/
def assign (jar : CookieJar) (page : Page) (text : Text) : CookieJar :=
  match parseCookie page text with
  | some c => jar.put c
  | none => jar

/-- The cookies of a page, those with longer paths first. -/
def listed (b : Browser) (page : Page) (jar : CookieJar) : CookieJar :=
  (jar.filter fun c => b.pathMatches page c.path).insertionSort
    fun c d => d.path.length ≤ c.path.length

/-- `document.cookie` on a page. -/
def documentCookie (b : Browser) (page : Page) (jar : CookieJar) : Text :=
  "; ".toList.intercalate ((jar.listed b page).map fun c => c.name ++ '=' :: c.value)

end CookieJar

/-! ## `utils.js` -/

/-- A number of hours. -/
inductive Hours where
  | number (hours : ℚ)
  | infinity
  | negInfinity
  | notANumber
  deriving DecidableEq

namespace Hours

/-- `objHours > 0` -/
def positive : Hours → Bool
  | number hours => decide (0 < hours)
  | infinity => true
  | negInfinity => false
  | notANumber => false

/-- `date.getTime() + objHours * 3600 * 1000`, which is a time only if it is
finite. -/
def endTime (now : ℚ) : Hours → Option ℚ
  | number hours => some (now + hours * 3600 * 1000)
  | _ => none

end Hours

/-- The text that `addCookie` assigns. -/
def addCookieText (b : Browser) (now : ℚ) (objName : Text) (objValue : Js.Units)
    (objHours : Hours) : Text :=
  let str := objName ++ '=' :: Js.escape objValue
  if objHours.positive then
    str ++ "; path=/; expires=".toList ++ b.toGMTString (objHours.endTime now)
  else str

def addCookie (b : Browser) (page : Page) (now : ℚ) (objName : Text) (objValue : Js.Units)
    (objHours : Hours) (jar : CookieJar) : CookieJar :=
  jar.assign page (addCookieText b now objName objValue objHours)

/-- The loop over the pieces of `document.cookie`. The second piece of one
without a `=` is `undefined`. -/
def findCookie (objName : Text) : List Text → Js.Units
  | [] => []
  | s :: arrStr =>
      let temp := s.splitOn '='
      if temp[0]? = some objName then Js.unescape (temp[1]?.getD "undefined".toList)
      else findCookie objName arrStr

def getCookie (b : Browser) (page : Page) (objName : Text) (jar : CookieJar) : Js.Units :=
  findCookie objName (Js.split "; ".toList (jar.documentCookie b page))

/-- A call of `addCookie`: where, when and with what. -/
structure AddCookie where
  page : Page
  now : ℚ
  name : Text
  value : Js.Units
  hours : Hours

/-- The cookies after the calls, from none on. -/
def cookiesAfter (b : Browser) (calls : List AddCookie) : CookieJar :=
  calls.foldl (fun jar c => addCookie b c.page c.now c.name c.value c.hours jar) []

end Zooffice
