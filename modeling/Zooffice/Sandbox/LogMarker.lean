import Zooffice.Sandbox.Confinement
/-!
# The exemption for the logs of a test

`checkWrite` lets every name pass that contains `log/test_`, before it
normalizes it. The marker says nothing about where the name leads: a `..`
behind it may leave the directory again. The name leads below a `log`
directory's `test_` entry exactly when such a pair of names stands in it,
nothing remains between the two, and what follows never leads above them.
-/


namespace Zooffice

open Zooffice.Path

variable {workDirectory : Option Text} {file : Text}

/-- The names from the root that a file name goes over: a relative name
comes behind those of the work directory. -/
def namesFromRoot (workDirectory : Option Text) (file : Text) : List Text :=
  if file.head?.any isSeparator then names '/' (unixText file)
  else names '/' (unixText (workDirectory.getD [])) ++ names '/' (unixText file)

theorem resolve_namesFromRoot (workDirectory : Option Text) (file : Text) :
    resolve '.' [] (namesFromRoot workDirectory file) = resolution workDirectory file := by
  unfold namesFromRoot resolution lexical
  split
  · rfl
  · rw [resolve_append]

/-- The name ends in `log`. -/
def EndsInLog (n : Text) : Prop := "log".toList <:+ n

/-- The name begins with `test_`. -/
def BeginsWithTest (n : Text) : Prop := "test_".toList <+: n

/-- The path that the file name leads to has a name that ends in `log` and
right behind it one that begins with `test_`. -/
def LeadsToTestLog (workDirectory : Option Text) (file : Text) : Prop :=
  ∃ above n m below, resolution workDirectory file = above ++ n :: m :: below ∧
    EndsInLog n ∧ BeginsWithTest m

/-- Two such names stand in the file name, from the first to the second
the path comes back to where it was, and behind the second it never leads
above it. -/
def StaysBelowMarker (workDirectory : Option Text) (file : Text) : Prop :=
  ∃ before n between m behind,
    namesFromRoot workDirectory file = before ++ n :: (between ++ m :: behind) ∧
      EndsInLog n ∧ BeginsWithTest m ∧ walk '.' [] between = some [] ∧
        (walk '.' [] behind).isSome

theorem enter_of_endsInLog {n : Text} (h : EndsInLog n) (st : List Text) :
    enter '.' st n = st ++ [n] := by
  obtain ⟨l, rfl⟩ := h
  have hlen : ∀ d : Text, d.length < 3 → l ++ "log".toList ≠ d := by
    rintro d hd rfl
    rw [List.length_append] at hd
    have hlog : "log".toList.length = 3 := rfl
    omega
  rw [enter, if_neg (not_or.2 ⟨hlen [] (by decide), hlen ['.'] (by decide)⟩),
    if_neg (hlen ['.', '.'] (by decide))]

theorem enter_of_beginsWithTest {m : Text} (h : BeginsWithTest m) (st : List Text) :
    enter '.' st m = st ++ [m] := by
  obtain ⟨l, rfl⟩ := h
  have hhead : ∀ d : Text, d.head? ≠ some 't' → "test_".toList ++ l ≠ d := by
    rintro d hd rfl
    exact hd rfl
  rw [enter, if_neg (not_or.2 ⟨hhead [] (by decide), hhead ['.'] (by decide)⟩),
    if_neg (hhead ['.', '.'] (by decide))]

/-- **Where the marker comes through.** -/
theorem leadsToTestLog_iff :
    LeadsToTestLog workDirectory file ↔ StaysBelowMarker workDirectory file := by
  unfold LeadsToTestLog StaysBelowMarker
  rw [← resolve_namesFromRoot]
  constructor
  · rintro ⟨above, n, m, below, hpath, hn, hm⟩
    -- the first name stands in the path, and the second in what follows it
    obtain ⟨before, rest, hbefore, -, hrest⟩ := exists_split_of_resolve hpath
    have hresolve : resolve '.' [] rest = [] ++ m :: below := resolve_of_walk hrest
    obtain ⟨between, behind, rfl, hbetween, hbehind⟩ := exists_split_of_resolve hresolve
    refine ⟨before, n, between, m, behind, hbefore, hn, hm, ?_, by rw [hbehind]; rfl⟩
    rw [walk_append] at hrest
    cases hwalk : walk '.' [] between with
    | none =>
        rw [hwalk] at hrest
        exact absurd hrest (by simp)
    | some st => rw [← hbetween, resolve_of_walk hwalk]
  · rintro ⟨before, n, between, m, behind, hnames, hn, hm, hbetween, hbehind⟩
    obtain ⟨below, hbelow⟩ := Option.isSome_iff_exists.1 hbehind
    refine ⟨resolve '.' [] before, n, m, below, ?_, hn, hm⟩
    have hback := resolve_append_of_walk hbetween (resolve '.' [] before ++ [n])
    have hdown := resolve_append_of_walk hbelow (resolve '.' [] before ++ [n] ++ [m])
    rw [List.append_nil] at hback hdown
    rw [hnames, resolve_append, resolve_cons, enter_of_endsInLog hn, resolve_append, hback,
      resolve_cons, enter_of_beginsWithTest hm, hdown]
    simp

/-- **The exemption lets pass whatever has the marker, and the name leads
to the log of a test exactly when it stays below the marker.** -/
theorem exempt_leadsToTestLog_iff (m : ZoofficeSecurityManager) (file : Text)
    (h : ZoofficeSecurityManager.hasLogMarker file = true) :
    m.checkWrite (some file) = .ok () ∧
      (LeadsToTestLog m.workDirectory file ↔ StaysBelowMarker m.workDirectory file) := by
  refine ⟨?_, leadsToTestLog_iff⟩
  rw [ZoofficeSecurityManager.checkWrite, ZoofficeSecurityManager.fileAccessWriteAllowed,
    Option.any_some, h, if_pos rfl]

/-- The manager of an agent that runs in `/work`. -/
def workManager : ZoofficeSecurityManager where
  workDirectory := some "/work".toList
  writeAllowedDirectory := [some "/work".toList, some "/log".toList, some "/tmp".toList]
  deleteAllowedDirectory := [some "/work".toList]

theorem exempt_leadsToTestLog_iff_testLog :
    workManager.checkWrite (some "log/test_1/a".toList) = .ok () ∧
      (LeadsToTestLog workManager.workDirectory "log/test_1/a".toList ↔
        StaysBelowMarker workManager.workDirectory "log/test_1/a".toList) :=
  exempt_leadsToTestLog_iff workManager "log/test_1/a".toList (by decide)

/-- **Behind the marker a name may lead anywhere**: this one to
`/etc/passwd`, where an agent that runs in `/work` may write then. -/
theorem not_leadsToTestLog_etcPasswd :
    ZoofficeSecurityManager.initAccessOfDirectories workProperties = .ok workManager ∧
      ZoofficeSecurityManager.hasLogMarker "log/test_1/../../../etc/passwd".toList = true ∧
      workManager.checkWrite (some "log/test_1/../../../etc/passwd".toList) = .ok () ∧
      ¬LeadsToTestLog workManager.workDirectory "log/test_1/../../../etc/passwd".toList := by
  refine ⟨rfl, by decide, by decide, ?_⟩
  rintro ⟨above, n, m, below, hpath, hn, -⟩
  have hetc : resolution workManager.workDirectory "log/test_1/../../../etc/passwd".toList =
      ["etc".toList, "passwd".toList] := by decide
  rw [hetc] at hpath
  -- of the two names that are left, the first would have to end in `log`
  rcases above with _ | ⟨a, _ | ⟨b, above⟩⟩
  · obtain rfl : "etc".toList = n := (List.cons.inj hpath).1
    exact absurd hn (by unfold EndsInLog; decide)
  · simp at hpath
  · simp at hpath

end Zooffice
