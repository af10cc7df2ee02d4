import Zooffice.Common.Run
import Zooffice.Infra.Model.ClusterConfigurationVerifier
import Zooffice.Java.Number
/-!
# Whether the controllers of a cluster use one home

A controller compares its checksum with the values of the shared cache and
puts none there. A value that the cache already has would keep all of them
to one checksum; without one every check of the home passes, and the
controllers agree exactly when the files they bring do.
-/


namespace Zooffice

open ClusterConfigurationVerifier ControllerCluster

variable {c c' : Controller} {cache : ControllerHome}

/-- The controller is one that `verifyCluster` looks at. -/
def Controller.isVerified (c : Controller) : Bool := c.isCluster && !c.isTestMode

/-- The controller brings what the check asks of it alone: a file, and the
database of a cluster. -/
def Controller.CanStart (c : Controller) : Prop :=
  c.isVerified = true ∧ (∃ content, c.system = .file content) ∧ usedDB c = "cubrid"

/-- The cache has a value to compare with. -/
def HasValue (cache : ControllerHome) : Prop := ∃ e ∈ cache, e.2 ≠ none

/-! ## One check -/

/-- The decimal text of a checksum tells which it is. -/
theorem stamp_inj {m n : Nat} (h : toString m = toString n) : m = n := by
  rw [← ofDigitChars_toString m, h, ofDigitChars_toString n]

/-- **The loop passes when every value is the stamp.** -/
theorem checkEntries_eq_ok {stamp : String} :
    checkEntries stamp cache = .ok () ↔ ∀ e ∈ cache, ∀ value, e.2 = some value → value = stamp := by
  induction cache with
  | nil => simp [checkEntries]
  | cons e entries ih =>
      obtain ⟨key, value⟩ := e
      cases value with
      | none => simp [checkEntries, ih]
      | some value =>
          have hhead : checkEntries stamp ((key, some value) :: entries) = .ok () ↔
              stamp = value ∧ checkEntries stamp entries = .ok () := by
            refine except_bind_eq_ok.trans ⟨?_, ?_⟩
            · rintro ⟨⟨⟩, hstate, hrest⟩
              exact ⟨eq_of_beq (checkState_eq_ok.1 hstate), hrest⟩
            · rintro ⟨rfl, hrest⟩
              exact ⟨(), checkState_eq_ok.2 (beq_self_eq_true _), hrest⟩
          rw [hhead, ih]
          simp [eq_comm]

/-- **A check changes nothing**: no stamp is put into the cache. -/
theorem cache_of_verifyCluster (c : Controller) (cache : ControllerHome) :
    ((verifyCluster c).run cache).2 = cache := by
  have hkeeps : Eff.Keeps Eq (verifyCluster c) := by
    unfold verifyCluster
    split
    · refine Eff.keeps_bind ?_ fun _ => Eff.keeps_ofExcept _
      refine Eff.keeps_bind (Eff.keeps_ofExcept _) fun _ => ?_
      refine Eff.keeps_bind (Eff.keeps_ofExcept _) fun _ => ?_
      exact Eff.keeps_bind Eff.keeps_get fun _ => Eff.keeps_ofExcept _
    · exact Eff.keeps_pure _
  exact (hkeeps cache).symm

/-- The check of a clustered controller completes. -/
def Completes (cache : ControllerHome) (c : Controller) : Prop :=
  ((verifyCluster c).run cache).1 = .ok ()

/-- The checks one after the other. -/
theorem completes_iff_checks (hc : c.isVerified = true) :
    Completes cache c ↔
      ∃ content, c.system = .file content ∧
        checkEntries (toString (checksumCRC32 content)) cache = .ok () ∧
        checkUsedDB c = .ok () := by
  have hif : (c.isCluster && !c.isTestMode) = true := hc
  rw [Completes, verifyCluster, if_pos hif]
  cases hsystem : c.system with
  | absent => simp [checkExHome, Eff.run_bind, hsystem, checkArgument]
  | directory => simp [checkExHome, Eff.run_bind, hsystem, checkArgument, checksum]
  | file content =>
      have hexists : (ConfFile.file content != .absent) = true := rfl
      simp only [checkExHome, Eff.run_bind, Eff.run_ofExcept, Eff.run_get, hsystem, checkArgument,
        checksum, hexists, if_true, ConfFile.file.injEq, exists_eq_left']
      rcases checkEntries (toString (checksumCRC32 content)) cache with e | ⟨⟩ <;> simp

/-- **When the check of a controller completes**: it can start, and every
value of the cache is its stamp. -/
theorem completes_iff (hc : c.isVerified = true) :
    Completes cache c ↔
      c.CanStart ∧ ∃ n, checksum c = .ok n ∧
        ∀ e ∈ cache, ∀ value, e.2 = some value → value = toString n := by
  rw [completes_iff_checks hc]
  constructor
  · rintro ⟨content, hsystem, hentries, hdb⟩
    have hcubrid : usedDB c = "cubrid" := (eq_of_beq (checkState_eq_ok.1 hdb)).symm
    exact ⟨⟨hc, ⟨content, hsystem⟩, hcubrid⟩, checksumCRC32 content, by rw [checksum, hsystem],
      checkEntries_eq_ok.1 hentries⟩
  · rintro ⟨⟨-, ⟨content, hsystem⟩, hcubrid⟩, n, hn, hentries⟩
    rw [checksum, hsystem, Except.ok.injEq] at hn
    subst hn
    exact ⟨content, hsystem, checkEntries_eq_ok.2 hentries,
      checkState_eq_ok.2 (beq_iff_eq.2 hcubrid.symm)⟩

/-- Against a cache without a value every controller completes that can
start. -/
theorem completes_of_canStart (hvalue : ¬HasValue cache) (h : c.CanStart) : Completes cache c := by
  obtain ⟨hc, ⟨content, hsystem⟩, hcubrid⟩ := h
  refine (completes_iff hc).2 ⟨⟨hc, ⟨content, hsystem⟩, hcubrid⟩, checksumCRC32 content, ?_, ?_⟩
  · rw [checksum, hsystem]
  · intro e he value hv
    exact absurd ⟨e, he, by simp [hv]⟩ hvalue

/-- A value keeps two that complete to one checksum. -/
theorem checksum_eq_of_completes (hvalue : HasValue cache) (hc : c.isVerified = true)
    (hc' : c'.isVerified = true) (h : Completes cache c) (h' : Completes cache c') :
    checksum c = checksum c' := by
  obtain ⟨e, he, hne⟩ := hvalue
  obtain ⟨value, hv⟩ := Option.ne_none_iff_exists'.1 hne
  obtain ⟨-, n, hn, hall⟩ := (completes_iff hc).1 h
  obtain ⟨-, n', hn', hall'⟩ := (completes_iff hc').1 h'
  have hstamp : toString n = toString n' := (hall e he value hv).symm.trans (hall' e he value hv)
  rw [hn, hn', stamp_inj hstamp]

/-! ## The cluster -/

namespace ControllerCluster

variable {s s' : ControllerCluster} {cs : List Controller}

/-- What is asked of a cluster: the controllers that have completed the
check have one checksum. -/
def UsesOneHome (s : ControllerCluster) : Prop :=
  ∀ c ∈ s.verified, ∀ c' ∈ s.verified, c.isVerified = true → c'.isVerified = true →
    checksum c = checksum c'

/-- A start leaves the cache, and adds the controller when it completes. -/
theorem startUp_eq_some (h : startUp s c = some s') :
    s'.cache = s.cache ∧ ∀ d, d ∈ s'.verified ↔ (d = c ∧ Completes s.cache c) ∨ d ∈ s.verified := by
  obtain rfl := Option.some.inj h
  refine ⟨cache_of_verifyCluster c s.cache, fun d => ?_⟩
  dsimp only [Completes]
  rcases ((verifyCluster c).run s.cache).1 with e | ⟨⟩ <;> simp

/-- **After a run those have completed that complete against the cache it
started with**, in whatever order they started. -/
theorem verified_of_perform (h : perform startUp s cs = some s') :
    s'.cache = s.cache ∧
      ∀ d, d ∈ s'.verified ↔ (d ∈ cs ∧ Completes s.cache d) ∨ d ∈ s.verified := by
  -- on the starts, for every cluster the run may begin with
  induction cs generalizing s with
  | nil =>
      rw [perform_nil, Option.some.injEq] at h
      subst h
      simp
  | cons c cs ih =>
      obtain ⟨s₁, hstart, hrest⟩ := perform_cons_eq_some.1 h
      obtain ⟨hcache, hverified⟩ := startUp_eq_some hstart
      obtain ⟨hcache', hverified'⟩ := ih hrest
      refine ⟨hcache'.trans hcache, fun d => ?_⟩
      rw [hverified', hverified, hcache, List.mem_cons]
      constructor
      · rintro (⟨hd, hdone⟩ | ⟨rfl, hdone⟩ | hd)
        · exact .inl ⟨.inr hd, hdone⟩
        · exact .inl ⟨.inl rfl, hdone⟩
        · exact .inr hd
      · rintro (⟨rfl | hd, hdone⟩ | hd)
        · exact .inr (.inl ⟨rfl, hdone⟩)
        · exact .inl ⟨hd, hdone⟩
        · exact .inr (.inr hd)

/-- Every run there is. -/
theorem exists_perform (s : ControllerCluster) (cs : List Controller) :
    ∃ s', perform startUp s cs = some s' := by
  induction cs generalizing s with
  | nil => exact ⟨s, rfl⟩
  | cons c cs ih =>
      obtain ⟨s', hs'⟩ := ih ((startUp s c).get rfl)
      exact ⟨s', perform_cons_eq_some.2 ⟨_, (Option.some_get _).symm, hs'⟩⟩

/-- The condition under which they agree: the cache has a value from the
start, or the controllers that can start bring files of one checksum. -/
def BringsOneHome (cache : ControllerHome) (cs : List Controller) : Prop :=
  HasValue cache ∨ ∀ c ∈ cs, ∀ c' ∈ cs, c.CanStart → c'.CanStart → checksum c = checksum c'

/-- **The controllers that have started agree, at every time of a run,
exactly when the cache has a value or their files agree.** -/
theorem usesOneHome_iff (cache : ControllerHome) (cs : List Controller) :
    (∀ started s, started <+: cs → perform startUp ⟨cache, []⟩ started = some s →
      UsesOneHome s) ↔ BringsOneHome cache cs := by
  constructor
  · intro h
    by_cases hvalue : HasValue cache
    · exact .inl hvalue
    · refine .inr fun c hc c' hc' hcan hcan' => ?_
      obtain ⟨s, hs⟩ := exists_perform ⟨cache, []⟩ cs
      have hdone : ∀ d ∈ cs, d.CanStart → d ∈ s.verified := fun d hd hcan =>
        ((verified_of_perform hs).2 d).2 (.inl ⟨hd, completes_of_canStart hvalue hcan⟩)
      exact h cs s List.prefix_rfl hs c (hdone c hc hcan) c' (hdone c' hc' hcan') hcan.1 hcan'.1
  · rintro hone started s hpre hs c hc c' hc' hcluster hcluster'
    have hdone : ∀ d ∈ s.verified, d ∈ cs ∧ Completes cache d := by
      intro d hd
      rcases ((verified_of_perform hs).2 d).1 hd with ⟨hmem, hdone⟩ | hnil
      · exact ⟨hpre.subset hmem, hdone⟩
      · exact absurd hnil List.not_mem_nil
    obtain ⟨hmem, hc⟩ := hdone c hc
    obtain ⟨hmem', hc'⟩ := hdone c' hc'
    rcases hone with hvalue | hfiles
    · exact checksum_eq_of_completes hvalue hcluster hcluster' hc hc'
    · exact hfiles c hmem c' hmem' ((completes_iff hcluster).1 hc).1
        ((completes_iff hcluster').1 hc').1

/-- A controller on CUBRID with this content in its `system.conf`. -/
def clustered (content : List UInt8) : Controller where
  isCluster := true
  isTestMode := false
  systemPath := "/root/.zooffice/system.conf"
  system := .file content
  database := some "CUBRID"
  toLowerCase s := String.ofList (s.toList.map Char.toLower)

/-- **Two controllers with different files both complete.** -/
theorem not_usesOneHome_twoHomes :
    ¬∀ started s, started <+: [clustered [1], clustered [2]] →
      perform startUp ⟨[], []⟩ started = some s → UsesOneHome s := by
  intro h
  have hone := h _ ⟨[], [clustered [2], clustered [1]]⟩ List.prefix_rfl rfl
  have hsame := hone (clustered [2]) (by simp) (clustered [1]) (by simp) rfl rfl
  exact absurd hsame (by decide +kernel)

end ControllerCluster

end Zooffice
