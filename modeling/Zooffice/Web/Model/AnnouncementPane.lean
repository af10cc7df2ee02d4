import Mathlib.Logic.Function.Basic
import Zooffice.Web.Model.Cookie
/-!
# The announcement on the pages

Every page shows the announcement in a pane that a click hides or shows
again. `navigator.ftl` keeps the choice in the cookie `announcement_hide`,
which the server reads when it renders a page (`BaseController`). The user
may have any number of tabs open, on any pages.
-/


namespace Zooffice

/-- The text that `cookie` of `utils.js` assigns. The days of its expiry
have been counted to `today`. -/
def cookieText (b : Browser) (name : Text) (value : Js.Units) (today : Option ℚ) : Text :=
  name ++ '=' :: Js.escape value ++ "; path=/; expires=".toList ++ b.toGMTString today ++ [';']

/-- `cookie(name, value, expiredays)` on a page. -/
def cookie (b : Browser) (page : Page) (name : Text) (value : Js.Units) (today : Option ℚ)
    (jar : CookieJar) : CookieJar :=
  jar.assign page (cookieText b name value today)

/-- What a request for a page brings of a cookie: the first one of the
name. -/
def cookieValue (b : Browser) (page : Page) (name : Text) (jar : CookieJar) : Option Text :=
  ((jar.listed b page).find? fun c => c.name = name).map Cookie.value

/-- The cookie that the choice is in. -/
def announcementHide : Text := "announcement_hide".toList

/-- `BaseController.announcement(annoucnementHide)`: the texts that Spring
takes for `true`, of which the pages write the first. -/
def servedHidden (b : Browser) (page : Page) (jar : CookieJar) : Bool :=
  match cookieValue b page announcementHide jar with
  | some value => ["true", "on", "yes", "1"].any fun accepted => value = accepted.toList
  | none => false

/-- The pane of a tab. While it slides up it is not `:hidden` yet. -/
inductive Pane where
  | shown
  | slidingUp
  | hidden
  deriving DecidableEq, Repr

inductive PaneIcon where
  | plus
  | minus
  deriving DecidableEq, Repr

/-- A tab, as far as the announcement goes. -/
structure AnnouncementTab where
  page : Page
  pane : Pane
  icon : PaneIcon

/-- What happens in a tab. -/
inductive TabAction where
  /-- A page is loaded. -/
  | load (page : Page)
  /-- The link is clicked, at a time. -/
  | click (today : Option ℚ)
  /-- The pane has slid up. -/
  | settle
  /-- A cookie of another name is put, by a page or by the server. -/
  | other (c : Cookie)

/-- The link is clicked. -/
def TabAction.isClick : TabAction → Bool
  | .click _ => true
  | _ => false

/-- The cookies, and the tabs that are open. -/
structure Tabs (ι : Type) where
  jar : CookieJar
  tab : ι → Option AnnouncementTab

namespace Tabs

variable {ι : Type}

/-- No cookie, and no tab. -/
def start : Tabs ι := ⟨[], fun _ => none⟩

variable [DecidableEq ι]

/-- A tab is changed. -/
def setTab (S : Tabs ι) (i : ι) (t : AnnouncementTab) : Tabs ι :=
  { S with tab := Function.update S.tab i (some t) }

/-- How the server renders the pane. -/
def rendered (page : Page) (hide : Bool) : AnnouncementTab :=
  if hide then ⟨page, .hidden, .plus⟩ else ⟨page, .shown, .minus⟩

/-- The handler of the link. -/
def click (b : Browser) (today : Option ℚ) (S : Tabs ι) (i : ι) (t : AnnouncementTab) : Tabs ι :=
  if t.pane = .hidden then
    { S with
      jar := cookie b t.page announcementHide (Js.units "false".toList) today S.jar }.setTab i
        ⟨t.page, .shown, .minus⟩
  else
    { S with jar := cookie b t.page announcementHide (Js.units "true".toList) today S.jar }.setTab i
      ⟨t.page, .slidingUp, .plus⟩

/-- One step. -/
def step (b : Browser) (S : Tabs ι) (a : ι × TabAction) : Option (Tabs ι) :=
  match a.2, S.tab a.1 with
  | .load page, _ => some (S.setTab a.1 (rendered page (servedHidden b page S.jar)))
  | .click today, some t => some (click b today S a.1 t)
  | .settle, some t =>
      if t.pane = .slidingUp then some (S.setTab a.1 { t with pane := .hidden }) else none
  | .other c, _ =>
      if c.name = announcementHide then none else some { S with jar := S.jar.put c }
  | _, _ => none

end Tabs

end Zooffice
