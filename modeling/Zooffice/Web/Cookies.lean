import Mathlib.Data.List.MinMax
import Zooffice.Common.Find
import Zooffice.Web.Model.Cookie
/-!
# Which cookie is read back

A call of `addCookie` stores a cookie of its name and its path, and that
is what the calls leave: of every name and path the last call
(`mem_cookiesAfter`). `getCookie` gives the value of the longest path that
the page belongs to (`getCookie_of_longest`). The path of a call is the
root if it comes with hours, and the directory of its page if it does not;
so the last call for a name may be hidden by an earlier one
(`getsLast_iff`).
-/


namespace Zooffice

variable {b : Browser} {jar : CookieJar} {c : Cookie} {page : Page}

/-! ## What a call stores -/

/-- A name without the marks that a cookie is divided by. -/
def CookieName (name : Text) : Prop := ∀ ch ∈ name, ch ≠ '=' ∧ ch ≠ ';' ∧ isCookieBlank ch = false

instance (name : Text) : Decidable (CookieName name) := List.decidableBAll _ name

/-- The path of the cookie that a call stores. -/
def AddCookie.path (call : AddCookie) : Text :=
  if call.hours.positive then ['/'] else call.page.directory

/-- The cookie that a call stores. -/
def AddCookie.cookie (call : AddCookie) : Cookie := ⟨call.name, Js.escape call.value, call.path⟩

theorem trimBlanks_eq_self {text : Text} (h : ∀ ch ∈ text, isCookieBlank ch = false) :
    trimBlanks text = text := by
  have hfront : text.dropWhile isCookieBlank = text := by
    cases text with
    | nil => rfl
    | cons ch text =>
        rw [List.dropWhile_cons_of_neg (by rw [h ch List.mem_cons_self]; decide)]
  have hback : text.rdropWhile isCookieBlank = text :=
    List.rdropWhile_eq_self_iff.2 fun hne hblank => by
      rw [h _ (List.getLast_mem hne)] at hblank
      cases hblank
  rw [trimBlanks, hfront, hback]

/-- **The first `=` divides.** -/
theorem nameAndValue_append {name value : Text} (h : '=' ∉ name) :
    nameAndValue (name ++ '=' :: value) = (trimBlanks name, trimBlanks value) := by
  have hname : ∀ ch ∈ name, decide (ch ≠ '=') = true := fun ch hch =>
    decide_eq_true fun heq => h (heq ▸ hch)
  rw [nameAndValue, List.takeWhile_append_of_pos hname, List.dropWhile_append_of_pos hname,
    List.takeWhile_cons_of_neg (by decide), List.dropWhile_cons_of_neg (by decide),
    List.append_nil, List.drop_one, List.tail_cons]

theorem not_mem_escape (s : Js.Units) :
    '=' ∉ Js.escape s ∧ ';' ∉ Js.escape s ∧ ∀ ch ∈ Js.escape s, isCookieBlank ch = false := by
  refine ⟨Js.not_mem_escape (by decide) (by decide), Js.not_mem_escape (by decide) (by decide),
    fun ch hch => ?_⟩
  have hblank : ch ≠ ' ' ∧ ch ≠ '\t' :=
    ⟨fun heq => Js.not_mem_escape (by decide) (by decide) (heq ▸ hch),
      fun heq => Js.not_mem_escape (by decide) (by decide) (heq ▸ hch)⟩
  simp [isCookieBlank, hblank.1, hblank.2]

/-- The attributes that come with hours give the root as the path. -/
theorem pathAttribute_expires (page : Page) (time : Text) :
    pathAttribute page [" path=/".toList, " expires=".toList ++ time] = ['/'] := by
  have hpath : nameAndValue " path=/".toList = ("path".toList, ['/']) := by decide
  have hfirst : '=' ∉ " expires".toList := by decide
  have hexpires : nameAndValue (" expires=".toList ++ time) = ("expires".toList, trimBlanks time) :=
    nameAndValue_append hfirst
  have hlower : decide ("path".toList.map Char.toLower = "path".toList) = true := by decide
  have hlower' : ¬ decide ("expires".toList.map Char.toLower = "path".toList) = true := by
    decide
  rw [pathAttribute, List.map_cons, List.map_cons, List.map_nil, hpath, hexpires,
    List.filter_cons_of_pos (by exact hlower), List.filter_cons_of_neg (by exact hlower'),
    List.filter_nil]
  rfl

/-- **A name, a value and attributes** are read from the text that they are
joined to. -/
theorem parseCookie_intercalate {name value : Text} {attributes : List Text}
    (hname : CookieName name) (hsemicolon : ';' ∉ value)
    (hblank : ∀ ch ∈ value, isCookieBlank ch = false)
    (hattributes : ∀ a ∈ attributes, ';' ∉ a) :
    parseCookie page ([';'].intercalate ((name ++ '=' :: value) :: attributes)) =
      some ⟨name, value, pathAttribute page attributes⟩ := by
  have hpair : nameAndValue (name ++ '=' :: value) = (name, value) := by
    rw [nameAndValue_append fun hmem => (hname _ hmem).1 rfl,
      trimBlanks_eq_self fun ch hch => (hname ch hch).2.2, trimBlanks_eq_self hblank]
  have hpieces : ∀ piece ∈ (name ++ '=' :: value) :: attributes, ';' ∉ piece := by
    rw [List.forall_mem_cons]
    refine ⟨?_, hattributes⟩
    simp only [List.mem_append, List.mem_cons, not_or]
    exact ⟨fun hch => (hname _ hch).2.1 rfl, by decide, hsemicolon⟩
  have hmem : '=' ∈ name ++ '=' :: value := List.mem_append_right _ List.mem_cons_self
  rw [parseCookie, List.splitOn_intercalate ';' hpieces (List.cons_ne_nil _ _)]
  simp only [if_pos hmem, hpair]

/-- **What `addCookie` assigns is the cookie of the call.** -/
theorem parseCookie_addCookieText {call : AddCookie} (hname : CookieName call.name) :
    parseCookie call.page (addCookieText b call.now call.name call.value call.hours) =
      some call.cookie := by
  obtain ⟨-, hsemicolon, hblank⟩ := not_mem_escape call.value
  rw [AddCookie.cookie, AddCookie.path, addCookieText]
  by_cases hpos : call.hours.positive = true
  · have htext : call.name ++ '=' :: Js.escape call.value ++
        ("; path=/; expires=".toList ++ b.toGMTString (call.hours.endTime call.now)) =
        [';'].intercalate [call.name ++ '=' :: Js.escape call.value, " path=/".toList,
          " expires=".toList ++ b.toGMTString (call.hours.endTime call.now)] := by
      simp [List.intercalate_cons_cons]
    have hattributes : ∀ a ∈ [" path=/".toList,
        " expires=".toList ++ b.toGMTString (call.hours.endTime call.now)], ';' ∉ a := by
      rw [List.forall_mem_cons, List.forall_mem_singleton, List.mem_append, not_or]
      exact ⟨by decide, by decide, b.not_mem_toGMTString _⟩
    rw [if_pos hpos, if_pos hpos, List.append_assoc, htext,
      parseCookie_intercalate hname hsemicolon hblank hattributes, pathAttribute_expires]
  · have htext : parseCookie call.page _ = _ := parseCookie_intercalate hname hsemicolon hblank
      fun a hmem => absurd hmem List.not_mem_nil
    rw [List.intercalate_singleton] at htext
    rw [if_neg hpos, if_neg hpos, htext]
    rfl

/-! ## What the calls leave -/

/-- A cookie takes the place of those of its name and path. -/
theorem mem_put {d : Cookie} : d ∈ jar.put c ↔ d = c ∨ d ∈ jar ∧ d.key ≠ c.key := by
  rw [CookieJar.put]
  split
  · next hany =>
      obtain ⟨e, he, hkey⟩ := List.any_eq_true.1 hany
      rw [List.mem_map]
      constructor
      · rintro ⟨e', he', rfl⟩
        by_cases hkey' : e'.key = c.key
        · exact Or.inl (if_pos hkey')
        · rw [if_neg hkey']
          exact Or.inr ⟨he', hkey'⟩
      · rintro (rfl | ⟨hd, hkey'⟩)
        · exact ⟨e, he, if_pos (of_decide_eq_true hkey)⟩
        · exact ⟨d, hd, if_neg hkey'⟩
  · next hany =>
      rw [List.mem_append, List.mem_singleton, or_comm]
      refine or_congr_right ⟨fun hd => ⟨hd, fun hkey => hany ?_⟩, And.left⟩
      exact List.any_eq_true.2 ⟨d, hd, decide_eq_true hkey⟩

/-- The last call that stores a cookie of this name and path. -/
def lastFor (key : Text × Text) (calls : List AddCookie) : Option AddCookie :=
  calls.reverse.find? fun call => call.cookie.key = key

theorem lastFor_concat {key : Text × Text} {calls : List AddCookie} {call : AddCookie} :
    lastFor key (calls ++ [call]) =
      if call.cookie.key = key then some call else lastFor key calls := by
  rw [lastFor, List.reverse_append, List.reverse_singleton, List.singleton_append]
  split
  · next hkey => exact List.find?_cons_of_pos (decide_eq_true hkey)
  · next hkey => exact List.find?_cons_of_neg (by simpa using hkey)

theorem key_of_lastFor {key : Text × Text} {calls : List AddCookie} {call : AddCookie}
    (h : lastFor key calls = some call) : call ∈ calls ∧ call.cookie.key = key := by
  have hkey := List.find?_some h
  exact ⟨List.mem_reverse.1 (List.mem_of_find?_eq_some h), of_decide_eq_true hkey⟩

/-- **Of every name and path there is the cookie of the last call.** -/
theorem mem_cookiesAfter {calls : List AddCookie} (hnames : ∀ call ∈ calls, CookieName call.name) :
    c ∈ cookiesAfter b calls ↔ (lastFor c.key calls).map AddCookie.cookie = some c := by
  induction calls using List.reverseRecOn with
  | nil => exact iff_of_false List.not_mem_nil (by simp [lastFor])
  | append_singleton calls call ih =>
      have hassign : cookiesAfter b (calls ++ [call]) = (cookiesAfter b calls).put call.cookie := by
        rw [cookiesAfter, List.foldl_append, List.foldl_cons, List.foldl_nil, addCookie,
          CookieJar.assign, parseCookie_addCookieText (hnames call (by simp))]
        rfl
      rw [hassign, mem_put, ih fun call' hcall' => hnames call' (by simp [hcall']), lastFor_concat]
      by_cases hkey : call.cookie.key = c.key
      · rw [if_pos hkey, Option.map_some, Option.some_inj]
        exact ⟨fun h => h.elim Eq.symm fun h => absurd hkey.symm h.2, fun h => Or.inl h.symm⟩
      · rw [if_neg hkey]
        exact ⟨fun h => h.elim (fun h => absurd (by rw [h]) hkey) And.left,
          fun h => Or.inr ⟨h, fun heq => hkey heq.symm⟩⟩

/-! ## What is read -/

/-- **The longest path is listed first.** -/
theorem find?_listed {name : Text} (hc : c ∈ jar) (hname : c.name = name)
    (hpath : b.pathMatches page c.path = true)
    (h : ∀ d ∈ jar, d.name = name → b.pathMatches page d.path = true → d ≠ c →
      d.path.length < c.path.length) :
    (jar.listed b page).find? (fun d => d.name = name) = some c := by
  have hmem : ∀ d, d ∈ jar.listed b page ↔ d ∈ jar ∧ b.pathMatches page d.path = true := by
    intro d
    rw [CookieJar.listed, List.mem_insertionSort, List.mem_filter]
  have : Std.Total fun c d : Cookie => d.path.length ≤ c.path.length := ⟨fun c d => le_total _ _⟩
  have : IsTrans Cookie fun c d => d.path.length ≤ c.path.length :=
    ⟨fun c d e hcd hde => hde.trans hcd⟩
  refine find?_of_pairwise (List.pairwise_insertionSort _ _) ((hmem c).2 ⟨hc, hpath⟩)
    (decide_eq_true hname) fun d hd hdname hne => ?_
  have hd' := (hmem d).1 hd
  exact not_le.2 (h d hd'.1 (of_decide_eq_true hdname) hd'.2 hne)

/-- A cookie that can be told from the others in `document.cookie`. -/
def Cookie.Separable (c : Cookie) : Prop :=
  '=' ∉ c.name ∧ '=' ∉ c.value ∧ ';' ∉ c.name ++ '=' :: c.value

theorem separable_cookie {call : AddCookie} (hname : CookieName call.name) :
    call.cookie.Separable := by
  obtain ⟨heq, hsemicolon, -⟩ := not_mem_escape call.value
  refine ⟨fun hmem => (hname _ hmem).1 rfl, heq, ?_⟩
  simp only [List.mem_append, List.mem_cons, not_or]
  exact ⟨fun hch => (hname _ hch).2.1 rfl, by decide, hsemicolon⟩

/-- The loop takes the value of the first cookie of the name. -/
theorem findCookie_map {name : Text} {listed : List Cookie} (hsep : ∀ d ∈ listed, d.Separable)
    (h : listed.find? (fun d => d.name = name) = some c) :
    findCookie name (listed.map fun d => d.name ++ '=' :: d.value) = Js.unescape c.value := by
  induction listed with
  | nil => cases h
  | cons d listed ih =>
      obtain ⟨hname, hvalue, -⟩ := hsep d List.mem_cons_self
      have hpieces : ∀ piece ∈ [d.name, d.value], '=' ∉ piece := by simpa using ⟨hname, hvalue⟩
      have htemp := List.splitOn_intercalate '=' hpieces (List.cons_ne_nil _ _)
      rw [List.intercalate_cons_cons, List.intercalate_singleton, List.append_assoc,
        List.singleton_append] at htemp
      rw [List.map_cons, findCookie, htemp]
      by_cases heq : d.name = name
      · rw [List.find?_cons_of_pos (by simpa using heq), Option.some_inj] at h
        rw [← h, ← heq]
        exact if_pos rfl
      · rw [List.find?_cons_of_neg (by simpa using heq)] at h
        exact (if_neg (by simpa using heq)).trans
          (ih (fun d' hd' => hsep d' (List.mem_cons_of_mem _ hd')) h)

/-- **The pieces are the cookies again**, and the first of the name is
taken. -/
theorem getCookie_of_find? {name : Text} (hsep : ∀ d ∈ jar, d.Separable)
    (h : (jar.listed b page).find? (fun d => d.name = name) = some c) :
    getCookie b page name jar = Js.unescape c.value := by
  have hlisted : ∀ d ∈ jar.listed b page, d.Separable := by
    intro d hd
    rw [CookieJar.listed, List.mem_insertionSort, List.mem_filter] at hd
    exact hsep d hd.1
  have hne : ((jar.listed b page).map fun d => d.name ++ '=' :: d.value) ≠ [] := by
    intro hnil
    rw [List.map_eq_nil_iff.1 hnil] at h
    cases h
  have hsplit : Js.split "; ".toList (jar.documentCookie b page) =
      (jar.listed b page).map fun d => d.name ++ '=' :: d.value := by
    refine Js.split_intercalate hne fun piece hpiece => ?_
    obtain ⟨d, hd, rfl⟩ := List.mem_map.1 hpiece
    exact (hlisted d hd).2.2
  rw [getCookie, hsplit, findCookie_map hlisted h]

/-- **The value of the last call for the longest path is read**: of the
paths that belong to the page and for which there is a call of the
name. -/
theorem getCookie_of_longest {calls : List AddCookie} {call : AddCookie}
    (hnames : ∀ call ∈ calls, CookieName call.name)
    (hlast : lastFor call.cookie.key calls = some call)
    (hpath : b.pathMatches page call.path = true)
    (hlongest : ∀ d ∈ calls, d.name = call.name → b.pathMatches page d.path = true →
      d.path.length ≤ call.path.length) :
    getCookie b page call.name (cookiesAfter b calls) = call.value := by
  have hmem : ∀ d ∈ cookiesAfter b calls, ∃ d' ∈ calls, d'.cookie = d := by
    intro d hd
    rw [mem_cookiesAfter hnames, Option.map_eq_some_iff] at hd
    obtain ⟨d', hd', rfl⟩ := hd
    exact ⟨d', (key_of_lastFor hd').1, rfl⟩
  have hcookie : call.cookie ∈ cookiesAfter b calls := by
    rw [mem_cookiesAfter hnames, hlast, Option.map_some]
  have hfirst : ((cookiesAfter b calls).listed b page).find? (fun d => d.name = call.name) =
      some call.cookie := by
    refine find?_listed hcookie rfl hpath fun d hd hname hmatches hne => ?_
    obtain ⟨d', hd', rfl⟩ := hmem d hd
    refine lt_of_le_of_ne (hlongest d' hd' hname hmatches) fun hlength => hne ?_
    -- of two beginnings of one path that are as long as each other there is only one
    have hpaths : d'.path = call.path :=
      List.IsPrefix.eq_of_length (List.prefix_of_prefix_length_le
        (b.prefix_of_matches _ _ hmatches) (b.prefix_of_matches _ _ hpath) hlength.le) hlength
    have hkey : d'.cookie.key = call.cookie.key := by
      rw [Cookie.key, Cookie.key]
      exact Prod.ext hname hpaths
    rw [mem_cookiesAfter hnames, hkey, hlast, Option.map_some, Option.some_inj] at hd
    exact hd.symm
  have hsep : ∀ d ∈ cookiesAfter b calls, d.Separable := by
    intro d hd
    obtain ⟨d', hd', rfl⟩ := hmem d hd
    exact separable_cookie (hnames d' hd')
  rw [getCookie_of_find? hsep hfirst, AddCookie.cookie, Js.unescape_escape]

/-! ## Whether it is the last call's -/

/-- The earlier call hides the last one on its page: its path is longer
and belongs to the page as well. -/
def Hides (b : Browser) (last earlier : AddCookie) : Prop :=
  earlier.name = last.name ∧ b.pathMatches last.page earlier.path = true ∧
    last.path.length < earlier.path.length

instance (last earlier : AddCookie) : Decidable (Hides b last earlier) :=
  inferInstanceAs (Decidable (_ ∧ _))

/-- The last of the earlier calls with the longest path that hide the last
one. -/
def hiddenBy (b : Browser) (last : AddCookie) (earlier : List AddCookie) : Option AddCookie :=
  let hidden := earlier.filter fun call => Hides b last call
  hidden.reverse.find? fun call => hidden.all fun d => d.path.length ≤ call.path.length

variable {before after : List AddCookie} {last : AddCookie}

theorem not_hides_of_hiddenBy (h : hiddenBy b last before = none) :
    ∀ call ∈ before, ¬ Hides b last call := by
  intro call hcall hhides
  have hmem : call ∈ before.filter fun call => Hides b last call :=
    List.mem_filter.2 ⟨hcall, decide_eq_true hhides⟩
  rw [hiddenBy, List.find?_eq_none] at h
  generalize (before.filter fun call => Hides b last call) = hidden at h hmem
  -- one of them has the longest path
  rcases hmax : hidden.argmax fun d => d.path.length with _ | m
  · rw [List.argmax_eq_none.1 hmax] at hmem
    exact absurd hmem List.not_mem_nil
  · refine h m (List.mem_reverse.2 (List.argmax_mem hmax)) (List.all_eq_true.2 fun d hd => ?_)
    exact decide_eq_true (List.le_of_mem_argmax (f := fun d : AddCookie => d.path.length) hd hmax)

/-- **The call that hides the last one** is the last of its name and path,
and no path that belongs to the page is longer. -/
theorem spec_of_hiddenBy {call : AddCookie} (h : hiddenBy b last before = some call) :
    Hides b last call ∧ lastFor call.cookie.key before = some call ∧
      ∀ d ∈ before, Hides b last d → d.path.length ≤ call.path.length := by
  rw [hiddenBy, ← List.filter_reverse, List.find?_filter] at h
  have hfound := List.find?_some h
  rw [decide_eq_true_eq, decide_eq_true_eq, List.all_eq_true] at hfound
  have hlongest : ∀ d ∈ before, Hides b last d → d.path.length ≤ call.path.length :=
    fun d hd hhides => of_decide_eq_true
      (hfound.2 d (List.mem_filter.2 ⟨hd, decide_eq_true hhides⟩))
  refine ⟨hfound.1, find?_of_imp h (decide_eq_true rfl) fun d hd hkey => ?_, hlongest⟩
  -- one of the same name and path hides the last call as well
  have hkey' : d.cookie.key = call.cookie.key := of_decide_eq_true hkey
  have hname : d.name = call.name := congrArg Prod.fst hkey'
  have hpath : d.path = call.path := congrArg Prod.snd hkey'
  have hhides : Hides b last d := by
    rw [Hides, hname, hpath]
    exact hfound.1
  rw [decide_eq_true_eq, decide_eq_true_eq, List.all_eq_true]
  refine ⟨hhides, fun d' hd' => decide_eq_true ?_⟩
  rw [List.mem_filter] at hd'
  have hle := hlongest d' hd'.1 (of_decide_eq_true hd'.2)
  rwa [← hpath] at hle

theorem lastFor_append {key : Text × Text} {calls : List AddCookie}
    (h : ∀ call ∈ after, call.name ≠ key.1) : lastFor key (calls ++ after) = lastFor key calls := by
  have hnone : after.reverse.find? (fun call => call.cookie.key = key) = none := by
    rw [List.find?_eq_none]
    intro call hcall hkey
    exact h call (List.mem_reverse.1 hcall) (congrArg Prod.fst (of_decide_eq_true hkey))
  rw [lastFor, List.reverse_append, List.find?_append, hnone, Option.none_or, ← lastFor]

theorem path_matches (call : AddCookie) : b.pathMatches call.page call.path = true := by
  rw [AddCookie.path]
  split
  · exact b.root_matches _
  · exact b.directory_matches _

/-- **What is read on the page of the last call**: the value of the call that
hides it, and its own if there is none. -/
theorem getCookie_eq (hnames : ∀ call ∈ before ++ last :: after, CookieName call.name)
    (hafter : ∀ call ∈ after, call.name ≠ last.name) :
    getCookie b last.page last.name (cookiesAfter b (before ++ last :: after)) =
      ((hiddenBy b last before).getD last).value := by
  have hsplit : before ++ last :: after = before ++ [last] ++ after := by simp
  have hcases : ∀ d ∈ before ++ last :: after, d.name = last.name → d ∈ before ∨ d = last := by
    intro d hd hname
    rw [List.mem_append, List.mem_cons] at hd
    exact hd.imp_right fun hd => hd.resolve_right fun hd => hafter d hd hname
  cases hhidden : hiddenBy b last before with
  | none =>
      rw [Option.getD_none]
      refine getCookie_of_longest hnames ?_ (path_matches last) fun d hd hname hmatches => ?_
      · rw [hsplit, lastFor_append hafter, lastFor_concat, if_pos rfl]
      · rcases hcases d hd hname with hd | rfl
        · by_contra hlt
          exact not_hides_of_hiddenBy hhidden d hd ⟨hname, hmatches, not_le.1 hlt⟩
        · exact le_rfl
  | some call =>
      obtain ⟨⟨hname, hmatches, hlt⟩, hlast, hlongest⟩ := spec_of_hiddenBy hhidden
      have hkey : last.cookie.key ≠ call.cookie.key := fun hkey =>
        absurd (congrArg (fun key => key.2.length) hkey) hlt.ne
      rw [Option.getD_some, ← hname]
      refine getCookie_of_longest hnames ?_ hmatches fun d hd hname' hmatches' => ?_
      · have hafter' : ∀ d ∈ after, d.name ≠ call.cookie.key.1 := by
          intro d hd heq
          exact hafter d hd (heq.trans hname)
        rw [hsplit, lastFor_append hafter', lastFor_concat, if_neg hkey, hlast]
      · rw [hname] at hname'
        rcases hcases d hd hname' with hd | rfl
        · by_cases hle : d.path.length ≤ last.path.length
          · exact hle.trans hlt.le
          · exact hlongest d hd ⟨hname', hmatches', not_le.1 hle⟩
        · exact hlt.le

/-- The page of the last call for a name reads its value, and calls for
other names change nothing about that. -/
def GetsLast (b : Browser) (before : List AddCookie) (last : AddCookie) (after : List AddCookie) :
    Prop :=
  let calls := before ++ last :: after
  getCookie b last.page last.name (cookiesAfter b calls) = last.value ∧
    getCookie b last.page last.name (cookiesAfter b calls) =
      getCookie b last.page last.name
        (cookiesAfter b (calls.filter fun call => call.name = last.name))

/-- **The value of the last call is read exactly when no earlier one hides
it**, or the one that does has the same value. -/
theorem getsLast_iff (hnames : ∀ call ∈ before ++ last :: after, CookieName call.name)
    (hafter : ∀ call ∈ after, call.name ≠ last.name) :
    GetsLast b before last after ↔
      ∀ call, hiddenBy b last before = some call → call.value = last.value := by
  have hothers : (before ++ last :: after).filter (fun call => call.name = last.name) =
      (before.filter fun call => call.name = last.name) ++ last :: [] := by
    have hnil : (after.filter fun call => call.name = last.name) = [] :=
      List.filter_eq_nil_iff.2 fun call hcall => by simpa using hafter call hcall
    rw [List.filter_append, List.filter_cons_of_pos (by simp), hnil]
  have hsame : hiddenBy b last (before.filter fun call => call.name = last.name) =
      hiddenBy b last before := by
    have hfilter : ((before.filter fun call => call.name = last.name).filter fun call =>
        Hides b last call) = before.filter fun call => Hides b last call := by
      rw [List.filter_filter]
      refine List.filter_congr fun call _ => ?_
      rw [Bool.and_eq_left_iff_imp]
      exact fun hhides => decide_eq_true (of_decide_eq_true hhides).1
    rw [hiddenBy, hiddenBy, hfilter]
  have hown : getCookie b last.page last.name (cookiesAfter b
      ((before.filter fun call => call.name = last.name) ++ last :: [])) = _ :=
    getCookie_eq (fun call hcall => hnames call (List.mem_of_mem_filter (hothers ▸ hcall)))
      fun call hcall => absurd hcall List.not_mem_nil
  rw [GetsLast, hothers, hown, hsame, getCookie_eq hnames hafter, and_iff_left rfl]
  cases hiddenBy b last before with
  | none => exact iff_of_true rfl fun call h => by cases h
  | some call => exact ⟨fun h call' hcall' => Option.some.inj hcall' ▸ h, fun h => h call rfl⟩

/-! ## A browser -/

/-- A path belongs to the page that it is the path of, and to all pages
below the directory that it is the path of. -/
def belongs (page : Page) (path : Text) : Bool :=
  path = page.path || path.isPrefixOf page.path &&
    (path.getLast? = some '/' || page.path[path.length]? = some '/')

/-- Up to its last slash a path is the directory and the slash. -/
theorem rdropWhile_path (page : Page) : ∃ directory rest, page.path = directory ++ '/' :: rest ∧
    page.path.rdropWhile (· ≠ '/') = directory ++ ['/'] := by
  obtain ⟨rest, hrest⟩ := List.rdropWhile_prefix (fun ch => decide (ch ≠ '/')) page.path
  have hne : page.path.rdropWhile (· ≠ '/') ≠ [] := by
    intro hnil
    rw [List.rdropWhile_eq_nil_iff] at hnil
    exact absurd (hnil '/' (List.mem_of_head? page.absolute)) (by decide)
  have hlast := List.rdropWhile_last_not (fun ch => decide (ch ≠ '/')) page.path hne
  rw [decide_eq_true_eq, not_not] at hlast
  have hconcat := List.dropLast_append_getLast hne
  rw [hlast] at hconcat
  refine ⟨_, rest, ?_, hconcat.symm⟩
  rw [← List.singleton_append, ← List.append_assoc, hconcat, hrest]

/-- The browser shows all times as one. -/
def usualBrowser : Browser where
  toGMTString _ := "Thu, 01 Jan 1970 01:00:00 GMT".toList
  not_mem_toGMTString _ := by decide
  pathMatches := belongs
  root_matches page := by
    obtain ⟨rest, hrest⟩ := List.head?_eq_some_iff.1 page.absolute
    simp [belongs, hrest]
  directory_matches page := by
    obtain ⟨directory, rest, hpath, hdrop⟩ := rdropWhile_path page
    rw [Page.directory, hdrop, List.dropLast_concat]
    split
    · obtain ⟨rest, hrest⟩ := List.head?_eq_some_iff.1 page.absolute
      simp [belongs, hrest]
    · simp [belongs, hpath]
  prefix_of_matches page path h := by
    rw [belongs, Bool.or_eq_true, Bool.and_eq_true, decide_eq_true_eq,
      List.isPrefixOf_iff_prefix] at h
    rcases h with rfl | h
    · exact List.prefix_rfl
    · exact h.1

/-- The page that the user's own data are on. -/
def profilePage : Page := ⟨"/user/profile".toList, by decide⟩

/-- The language, set for the session and for hours. -/
def setLanguage (language : Text) (hours : ℚ) : AddCookie :=
  ⟨profilePage, 0, "lang".toList, Js.units language, .number hours⟩

/-- The language for hours, and then one for the session. -/
theorem getsLast_session : GetsLast usualBrowser [setLanguage ['e'] 1] (setLanguage ['k'] 0) [] ↔
    ∀ call, hiddenBy usualBrowser (setLanguage ['k'] 0) [setLanguage ['e'] 1] = some call →
      call.value = (setLanguage ['k'] 0).value :=
  getsLast_iff (by decide) (fun call hcall => absurd hcall List.not_mem_nil)

/-- **The language for hours is not seen** where one for the session is
there. -/
theorem not_getsLast_hours :
    ¬ GetsLast usualBrowser [setLanguage ['e'] 0] (setLanguage ['k'] 1) [] := by
  rintro ⟨hget, -⟩
  rw [getCookie_eq (by decide) fun call hcall => absurd hcall List.not_mem_nil] at hget
  exact absurd hget (by decide)

end Zooffice
