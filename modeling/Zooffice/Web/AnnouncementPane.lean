import Zooffice.Common.Run
import Zooffice.Web.Cookies
import Zooffice.Web.Model.AnnouncementPane
/-!
# Hiding the announcement in one tab

`cookie` always writes for the root of the site, so there is never more
than one cookie of a name that only it writes, and a request for any page
brings it. The pages hence show the announcement as the last click, in
whatever tab, has left it, and the icon of every tab fits its pane. All of
this is within the six days in which the cookie has not expired.
-/


namespace Zooffice

variable {b : Browser} {page : Page} {jar : CookieJar} {name : Text} {value : Js.Units}

/-- An empty attribute, as behind a semicolon at the end, gives no path. -/
theorem pathAttribute_concat_nil (page : Page) (attributes : List Text) :
    pathAttribute page (attributes ++ [[]]) = pathAttribute page attributes := by
  have hnone : ([[]].map nameAndValue).filter
      (fun a => decide (a.1.map Char.toLower = "path".toList)) = [] := by decide
  rw [pathAttribute, List.map_append, List.filter_append, hnone, List.append_nil]
  rfl

/-- **What `cookie` stores**: the name and the escaped value, for the root
of the site. -/
theorem cookie_eq_put (hname : CookieName name) (today : Option ℚ) :
    cookie b page name value today jar = jar.put ⟨name, Js.escape value, ['/']⟩ := by
  obtain ⟨-, hsemicolon, hblank⟩ := not_mem_escape value
  have htext : cookieText b name value today =
      [';'].intercalate [name ++ '=' :: Js.escape value, " path=/".toList,
        " expires=".toList ++ b.toGMTString today, []] := by
    simp [cookieText, List.intercalate_cons_cons]
  have hattributes : ∀ a ∈ [" path=/".toList, " expires=".toList ++ b.toGMTString today, []],
      ';' ∉ a := by
    rw [List.forall_mem_cons, List.forall_mem_cons, List.forall_mem_singleton, List.mem_append,
      not_or]
    exact ⟨by decide, ⟨by decide, b.not_mem_toGMTString _⟩, by decide⟩
  have hpath : pathAttribute page
      [" path=/".toList, " expires=".toList ++ b.toGMTString today, []] = ['/'] :=
    (pathAttribute_concat_nil page _).trans (pathAttribute_expires page _)
  rw [cookie, CookieJar.assign, htext, parseCookie_intercalate hname hsemicolon hblank hattributes,
    hpath]

/-- All cookies of the name are for the root, with this value. -/
def OnlyAtRoot (name value : Text) (jar : CookieJar) : Prop :=
  ∀ c ∈ jar, c.name = name → c = ⟨name, value, ['/']⟩

/-- A cookie for the root replaces whatever there was of its name there. -/
theorem onlyAtRoot_put {old new : Text} (h : OnlyAtRoot name old jar) :
    OnlyAtRoot name new (jar.put ⟨name, new, ['/']⟩) := by
  intro c hc hcname
  rcases mem_put.1 hc with rfl | ⟨hc, hkey⟩
  · rfl
  · rw [h c hc hcname] at hkey
    exact absurd rfl hkey

theorem onlyAtRoot_put_of_ne {v : Text} {c : Cookie} (h : OnlyAtRoot name v jar)
    (hc : c.name ≠ name) : OnlyAtRoot name v (jar.put c) := by
  intro d hd hdname
  rcases mem_put.1 hd with rfl | ⟨hd, -⟩
  · exact absurd hdname hc
  · exact h d hd hdname

/-- **A request for any page brings the one cookie of the name.** -/
theorem cookieValue_of_onlyAtRoot {v : Text} (h : OnlyAtRoot name v jar)
    (hmem : (⟨name, v, ['/']⟩ : Cookie) ∈ jar) (page : Page) :
    cookieValue b page name jar = some v := by
  have hfirst : (jar.listed b page).find? (fun c => c.name = name) = some ⟨name, v, ['/']⟩ :=
    find?_listed hmem rfl (b.root_matches page) fun d hd hname _ hne => absurd (h d hd hname) hne
  rw [cookieValue, hfirst, Option.map_some]

/-- And none if there is none. -/
theorem cookieValue_of_forall_ne (h : ∀ c ∈ jar, c.name ≠ name) (page : Page) :
    cookieValue b page name jar = none := by
  have hnone : (jar.listed b page).find? (fun c => c.name = name) = none := by
    rw [List.find?_eq_none]
    intro c hc
    rw [CookieJar.listed, List.mem_insertionSort, List.mem_filter] at hc
    simpa using h c hc.1
  rw [cookieValue, hnone, Option.map_none]

/-- The icon says whether the pane is there. -/
def AnnouncementTab.Fits (t : AnnouncementTab) : Prop := t.icon = .plus ↔ t.pane ≠ .shown

namespace Tabs

variable {ι : Type} {S S' : Tabs ι} {i j : ι} {hide : Option Bool}

/-- What the jar keeps: nothing before the first click. -/
def Keeps (hide : Option Bool) (jar : CookieJar) : Prop :=
  match hide with
  | none => ∀ c ∈ jar, c.name ≠ announcementHide
  | some hide =>
      OnlyAtRoot announcementHide (toString hide).toList jar ∧
        (⟨announcementHide, (toString hide).toList, ['/']⟩ : Cookie) ∈ jar

/-- **The server renders every page as the cookie says.** -/
theorem servedHidden_of_keeps (h : Keeps hide jar) (page : Page) :
    servedHidden b page jar = hide.getD false := by
  cases hide with
  | none => rw [servedHidden, cookieValue_of_forall_ne h]; rfl
  | some hide =>
      rw [servedHidden, cookieValue_of_onlyAtRoot h.1 h.2]
      cases hide with
      | false => decide
      | true => decide

theorem keeps_put_of_ne {c : Cookie} (h : Keeps hide jar) (hc : c.name ≠ announcementHide) :
    Keeps hide (jar.put c) := by
  cases hide with
  | none =>
      intro d hd
      rcases mem_put.1 hd with rfl | ⟨hd, -⟩
      · exact hc
      · exact h d hd
  | some hide =>
      refine ⟨onlyAtRoot_put_of_ne h.1 hc, mem_put.2 (.inr ⟨h.2, fun hkey => hc ?_⟩)⟩
      exact (congrArg Prod.fst hkey).symm

/-- What a click writes is what the cookie says from then on. -/
theorem keeps_cookie (h : Keeps hide jar) (page : Page) (today : Option ℚ) (hide' : Bool) :
    Keeps (some hide')
      (cookie b page announcementHide (Js.units (toString hide').toList) today jar) := by
  have hescape : Js.escape (Js.units (toString hide').toList) = (toString hide').toList := by
    cases hide' <;> decide
  rw [cookie_eq_put (by decide), hescape]
  refine ⟨?_, mem_put.2 (.inl rfl)⟩
  cases hide with
  | none =>
      intro c hc hname
      rcases mem_put.1 hc with rfl | ⟨hc, -⟩
      · rfl
      · exact absurd hname (h c hc)
  | some hide => exact onlyAtRoot_put h.1

variable [DecidableEq ι]

/-- The icons of all tabs fit. -/
def Fit (S : Tabs ι) : Prop := ∀ i t, S.tab i = some t → t.Fits

theorem fit_of_update {t : AnnouncementTab} (hS : Fit S) (ht : t.Fits)
    (h : S'.tab = Function.update S.tab i (some t)) : Fit S' := by
  intro j u hu
  rw [h] at hu
  by_cases hji : j = i
  · subst hji
    rw [Function.update_self] at hu
    exact Option.some.inj hu ▸ ht
  · rw [Function.update_of_ne hji] at hu
    exact hS j u hu

/-- The pane behind a click. -/
theorem click_eq (today : Option ℚ) (S : Tabs ι) (i : ι) (t : AnnouncementTab) :
    ∃ t' hide', t'.Fits ∧ (hide' = true ↔ t'.pane ≠ .shown) ∧
      (click b today S i t).tab = Function.update S.tab i (some t') ∧
      (click b today S i t).jar =
        cookie b t.page announcementHide (Js.units (toString hide').toList) today S.jar := by
  rw [click]
  split
  · exact ⟨⟨t.page, .shown, .minus⟩, false, by simp [AnnouncementTab.Fits], by simp, rfl, rfl⟩
  · exact ⟨⟨t.page, .slidingUp, .plus⟩, true, by simp [AnnouncementTab.Fits], by simp, rfl, rfl⟩

/-- **What a step does to the cookie.** Only a click changes what it says,
to what becomes of the pane. -/
theorem keeps_of_step {a : ι × TabAction} (h : step b S a = some S') (hkeeps : Keeps hide S.jar)
    (hfit : Fit S) :
    Fit S' ∧ (a.2.isClick = false → Keeps hide S'.jar) ∧
      (a.2.isClick = true → ∃ t hide', S'.tab a.1 = some t ∧ (hide' = true ↔ t.pane ≠ .shown) ∧
        Keeps (some hide') S'.jar) := by
  obtain ⟨i, action⟩ := a
  unfold step at h
  dsimp only at h ⊢
  split at h
  · next page =>
      obtain rfl := Option.some.inj h
      refine ⟨fit_of_update hfit ?_ rfl, fun _ => hkeeps, nofun⟩
      rw [rendered]
      split
      all_goals simp [AnnouncementTab.Fits]
  · next today t ht =>
      obtain rfl := Option.some.inj h
      obtain ⟨t', hide', ht', hhide, htab, hjar⟩ := click_eq (b := b) today S i t
      refine ⟨fit_of_update hfit ht' htab, nofun, fun _ => ⟨t', hide', ?_, hhide, ?_⟩⟩
      · rw [htab, Function.update_self]
      · exact hjar ▸ keeps_cookie hkeeps _ _ _
  · next t ht =>
      split at h
      · next hpane =>
          obtain rfl := Option.some.inj h
          refine ⟨fit_of_update hfit ?_ rfl, fun _ => hkeeps, nofun⟩
          have hfits := hfit i t ht
          rw [AnnouncementTab.Fits, hpane] at hfits
          simpa [AnnouncementTab.Fits] using hfits
      · cases h
  · next c =>
      split at h
      · cases h
      · next hc =>
          obtain rfl := Option.some.inj h
          exact ⟨hfit, fun _ => keeps_put_of_ne hkeeps hc, nofun⟩
  · cases h

/-- What every reached state satisfies. -/
theorem fit_of_perform {steps : List (ι × TabAction)} (h : perform (step b) S steps = some S')
    (hfit : Fit S) (hkeeps : Keeps hide S.jar) : Fit S' ∧ ∃ hide', Keeps hide' S'.jar := by
  refine perform_invariant_of_step (I := fun S => Fit S ∧ ∃ hide, Keeps hide S.jar) ?_
    ⟨hfit, hide, hkeeps⟩ h
  rintro S a S' ⟨hfit, hide, hkeeps⟩ hstep
  obtain ⟨hfit', hother, hclick⟩ := keeps_of_step hstep hkeeps hfit
  refine ⟨hfit', ?_⟩
  by_cases hc : a.2.isClick = true
  · obtain ⟨t, hide', -, -, hkeeps'⟩ := hclick hc
    exact ⟨some hide', hkeeps'⟩
  · exact ⟨hide, hother (Bool.eq_false_iff.2 hc)⟩

/-- And what the cookie says stays as long as nobody clicks. -/
theorem keeps_of_perform {steps : List (ι × TabAction)} (h : perform (step b) S steps = some S')
    (hfit : Fit S) (hkeeps : Keeps hide S.jar) (hno : ∀ a ∈ steps, a.2.isClick = false) :
    Fit S' ∧ Keeps hide S'.jar := by
  refine perform_invariant (I := fun S => Fit S ∧ Keeps hide S.jar)
    (G := fun _ a => a.2.isClick = false) ?_ ⟨hfit, hkeeps⟩
    (along_of_forall (fun a ha _ => hno a ha) S) h
  rintro S a S' ⟨hfit, hkeeps⟩ hc hstep
  obtain ⟨hfit', hother, -⟩ := keeps_of_step hstep hkeeps hfit
  exact ⟨hfit', hother hc⟩

omit [DecidableEq ι] in
theorem fit_start : Fit (start : Tabs ι) := nofun

omit [DecidableEq ι] in
theorem keeps_start : Keeps none (start : Tabs ι).jar := fun _ hc => absurd hc List.not_mem_nil

/-- A page that is not below the one of the user's data. -/
def startPage : Page := ⟨"/".toList, by decide⟩

/-- The user's data are loaded in one tab. -/
def oneTab : Tabs Bool :=
  (step usualBrowser start (false, .load profilePage)).getD start

/-- The announcement is hidden there. -/
def afterHiding : Tabs Bool := (step usualBrowser oneTab (false, .click none)).getD start

/-- And the start page is loaded in another one. -/
def afterLoading : Tabs Bool :=
  (step usualBrowser afterHiding (true, .load startPage)).getD start

end Tabs

end Zooffice
