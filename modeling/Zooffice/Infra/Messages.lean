import Mathlib.Data.List.Induction
import Zooffice.Infra.Model.UserMessageSource
/-!
# What a refresh leaves of earlier messages

A refresh puts the messages of the files there are, and takes none away
(`run_init`). So the map has, for each key, the message of the latest load
that had one (`messagesAfter_eq_findSome?`), and a code resolves as the
files there are say exactly when nothing that is left from before shows
through.
-/


namespace Zooffice

namespace UserMessageSource

variable {μ : Type} {lib : MessageLibrary μ} {dir : MessagesDirectory} {map : LangMessageMap μ}
  {each language code : String}

/-! ## The files there are -/

/-- The file of a language, if it is one that is looked for. -/
def currentFile (lib : MessageLibrary μ) (dir : MessagesDirectory) (language : String) :
    Option (Except Throwable Properties) :=
  if language ∈ lib.isoLanguages then dir.bind fun files => files (fileName language) else none

/-- The message that entries have for a code. -/
def messageIn (lib : MessageLibrary μ) (entries : List (String × String)) (code : String) :
    Option μ :=
  (entries.lookup code).bind fun value => (lib.messageFormat value).toOption

/-- The message of the file of a language. -/
def current (lib : MessageLibrary μ) (dir : MessagesDirectory) (language code : String) :
    Option μ :=
  (currentFile lib dir language).bind fun file =>
    file.toOption.bind fun prop => messageIn lib prop.entries code

/-- What a code should resolve to: the message of the language, and else
the English one. -/
def expected (lib : MessageLibrary μ) (dir : MessagesDirectory) (code language : String) :
    Option μ :=
  (current lib dir language code).or (current lib dir "en" code)

/-- The file loads without an exception. -/
def Loads (lib : MessageLibrary μ) (file : Except Throwable Properties) : Prop :=
  ∃ prop, file = .ok prop ∧ ∀ e ∈ prop.entries, ∃ message, lib.messageFormat e.2 = .ok message

/-- All files load. -/
def AllLoad (lib : MessageLibrary μ) (dir : MessagesDirectory) : Prop :=
  ∀ language file, currentFile lib dir language = some file → Loads lib file

/-! ## One load -/

/-- The map with the messages of a language put over those it has. -/
def overlay (each : String) (messages : String → Option μ) (map : LangMessageMap μ) :
    LangMessageMap μ :=
  fun k => if k.locale = each then (messages k.code).or (map k) else map k

theorem overlay_apply_self (messages : String → Option μ) :
    overlay each messages map ⟨each, code⟩ = (messages code).or (map ⟨each, code⟩) := if_pos rfl

theorem overlay_apply_of_ne (messages : String → Option μ) (h : language ≠ each) :
    overlay each messages map ⟨language, code⟩ = map ⟨language, code⟩ := if_neg h

theorem overlay_none : overlay each (fun _ => none) map = map := by
  funext k
  rw [overlay, Option.none_or, ite_self]

/-- An entry is put over the map before the entries behind it are. -/
theorem overlay_put {key value : String} {message : μ} {rest : List (String × String)}
    (hkey : key ∉ rest.map Prod.fst) (hmessage : lib.messageFormat value = .ok message) :
    overlay each (messageIn lib rest) (put ⟨each, key⟩ message map) =
      overlay each (messageIn lib ((key, value) :: rest)) map := by
  funext k
  obtain ⟨locale, c⟩ := k
  by_cases hlocale : locale = each
  · rw [hlocale, overlay_apply_self, overlay_apply_self, messageIn, messageIn]
    by_cases hc : c = key
    · -- behind it the key is not there again
      have hlookup : rest.lookup key = none := by
        rw [List.lookup_eq_none_iff]
        intro e he
        refine bne_iff_ne.2 fun heq => hkey ?_
        rw [heq]
        exact List.mem_map_of_mem (f := Prod.fst) he
      rw [hc, hlookup, List.lookup_cons_self, put, Function.update_self, Option.bind_none,
        Option.none_or, Option.bind_some, hmessage]
      rfl
    · have hne : (⟨each, c⟩ : LocaleAndCode) ≠ ⟨each, key⟩ :=
        fun heq => hc (LocaleAndCode.mk.inj heq).2
      rw [put, Function.update_of_ne hne, List.lookup_cons, beq_eq_false_iff_ne.2 hc]
  · have hne : (⟨locale, c⟩ : LocaleAndCode) ≠ ⟨each, key⟩ :=
      fun heq => hlocale (LocaleAndCode.mk.inj heq).1
    rw [overlay_apply_of_ne _ hlocale, overlay_apply_of_ne _ hlocale, put,
      Function.update_of_ne hne]

/-- The entries of a file are put over what is there. -/
theorem run_putEntries {entries : List (String × String)} (hnodup : (entries.map Prod.fst).Nodup)
    (hformats : ∀ e ∈ entries, ∃ message, lib.messageFormat e.2 = .ok message) :
    (putEntries lib each entries).run map = (.ok ⟨⟩, overlay each (messageIn lib entries) map) := by
  induction entries generalizing map with
  | nil => exact Prod.ext rfl overlay_none.symm
  | cons e rest ih =>
      obtain ⟨key, value⟩ := e
      obtain ⟨hkey, hrest⟩ := List.nodup_cons.1 hnodup
      obtain ⟨message, hmessage⟩ := hformats _ List.mem_cons_self
      rw [putEntries, hmessage, Eff.run_ofExcept_bind]
      dsimp only
      rw [Eff.run_modify_bind, ih hrest fun e he => hformats e (List.mem_cons_of_mem _ he),
        overlay_put hkey hmessage]

/-- What a language leaves, when its file loads. -/
theorem run_loadLanguage {files : String → Option (Except Throwable Properties)}
    (heach : each ∈ lib.isoLanguages) (hload : AllLoad lib (some files)) :
    (loadLanguage lib files each).run map =
      (.ok ⟨⟩, overlay each (current lib (some files) each) map) := by
  have hfile : currentFile lib (some files) each = files (fileName each) := if_pos heach
  have hcurrent : current lib (some files) each = fun c =>
      (files (fileName each)).bind fun file =>
        file.toOption.bind fun prop => messageIn lib prop.entries c := by
    funext c
    rw [current, hfile]
  rw [loadLanguage, hcurrent]
  cases hthere : files (fileName each) with
  | none => exact Prod.ext rfl overlay_none.symm
  | some file =>
      obtain ⟨prop, rfl, hformats⟩ := hload each file (hfile.trans hthere)
      show (loadFile lib each (.ok prop)).run map = _
      rw [loadFile, Eff.run_tryCatch, Eff.run_ofExcept_bind]
      dsimp only
      rw [run_putEntries prop.nodup hformats]
      rfl

/-- Languages that are loaded one after the other: what is put over what is
there already is not put there twice. -/
theorem run_forEach_loadLanguage {files : String → Option (Except Throwable Properties)}
    (hload : AllLoad lib (some files)) {languages : List String}
    (hsub : ∀ each ∈ languages, each ∈ lib.isoLanguages) :
    (Eff.forEach (loadLanguage lib files) languages).run map = (.ok ⟨⟩, fun k =>
      if k.locale ∈ languages then (current lib (some files) k.locale k.code).or (map k)
      else map k) := by
  induction languages generalizing map with
  | nil => rfl
  | cons each rest ih =>
      have hfirst : (loadLanguage lib files each).run map =
          (.ok ⟨⟩, overlay each (current lib (some files) each) map) :=
        run_loadLanguage (hsub each List.mem_cons_self) hload
      rw [Eff.forEach, Eff.run_bind_of_ok hfirst,
        ih fun l hl => hsub l (List.mem_cons_of_mem _ hl)]
      refine Prod.ext rfl (funext fun k => ?_)
      obtain ⟨locale, c⟩ := k
      dsimp only
      by_cases hlocale : locale = each
      · rw [hlocale, overlay_apply_self, if_pos List.mem_cons_self, ← Option.or_assoc,
          Option.or_self, ite_self]
      · rw [overlay_apply_of_ne _ hlocale]
        simp only [List.mem_cons, hlocale, false_or]

/-- **A load puts the messages there are over those of before**, and takes
none away. -/
theorem run_init (hload : AllLoad lib dir) :
    (init lib dir).run map =
      (.ok ⟨⟩, fun k => (current lib dir k.locale k.code).or (map k)) := by
  cases dir with
  | none =>
      refine Prod.ext rfl (funext fun k => ?_)
      show map k = (current lib none k.locale k.code).or (map k)
      rw [current, currentFile, Option.bind_none, ite_self, Option.bind_none, Option.none_or]
  | some files =>
      rw [init, run_forEach_loadLanguage hload fun _ h => h]
      refine Prod.ext rfl (funext fun k => ?_)
      dsimp only
      by_cases hiso : k.locale ∈ lib.isoLanguages
      · rw [if_pos hiso]
      · rw [if_neg hiso, current, currentFile, if_neg hiso, Option.bind_none, Option.none_or]

/-! ## Load after load -/

/-- The map after loads of these contents of the directory, whether they
returned or not. -/
def messagesAfter (lib : MessageLibrary μ) (loads : List MessagesDirectory) : LangMessageMap μ :=
  loads.foldl (fun map dir => ((init lib dir).run map).2) fun _ => none

theorem messagesAfter_concat (loads : List MessagesDirectory) (hload : AllLoad lib dir)
    (k : LocaleAndCode) :
    messagesAfter lib (loads ++ [dir]) k =
      (current lib dir k.locale k.code).or (messagesAfter lib loads k) := by
  rw [messagesAfter, List.foldl_concat, run_init hload]
  rfl

/-- **What the map has is the message of the latest load that had one.** -/
theorem messagesAfter_eq_findSome? {loads : List MessagesDirectory}
    (hload : ∀ dir ∈ loads, AllLoad lib dir) (k : LocaleAndCode) :
    messagesAfter lib loads k =
      loads.reverse.findSome? fun dir => current lib dir k.locale k.code := by
  induction loads using List.reverseRecOn with
  | nil => rfl
  | append_singleton loads dir ih =>
      rw [messagesAfter_concat _ (hload dir (by simp)),
        ih fun d hd => hload d (List.mem_append_left _ hd), List.reverse_concat,
        List.findSome?_cons]
      cases current lib dir k.locale k.code <;> rfl

/-- Of what the map has from before a load, nothing shows when the code is
asked for: the load has the code for the language; or there is nothing for
the language from before, and nothing in English or the load has that; or
what there is for the language is the English message of the load. -/
def NothingStale (lib : MessageLibrary μ) (dir : MessagesDirectory) (map : LangMessageMap μ)
    (code language : String) : Prop :=
  current lib dir language code ≠ none ∨
    map ⟨language, code⟩ = none ∧ (current lib dir "en" code ≠ none ∨ map ⟨"en", code⟩ = none) ∨
    map ⟨language, code⟩ ≠ none ∧ map ⟨language, code⟩ = current lib dir "en" code

/-- **After a load a code resolves as the files there are say exactly when
nothing from before shows.** -/
theorem resolveCode_eq_expected_iff (lib : MessageLibrary μ) (earlier : List MessagesDirectory)
    (dir : MessagesDirectory) (hload : AllLoad lib dir) (code language : String) :
    resolveCode (messagesAfter lib (earlier ++ [dir])) code language =
        expected lib dir code language ↔
      NothingStale lib dir (messagesAfter lib earlier) code language := by
  rw [resolveCode, messagesAfter_concat _ hload, messagesAfter_concat _ hload, expected,
    NothingStale]
  dsimp only
  cases current lib dir language code with
  | some message => simp
  | none =>
      -- the file of the language does not have the code
      cases messagesAfter lib earlier ⟨language, code⟩ with
      | some stale => simp [eq_comm]
      | none =>
          cases current lib dir "en" code with
          | some message => simp
          | none => simp

/-- Messages that are their texts, in English only. -/
def englishTexts : MessageLibrary String := ⟨["en"], .ok⟩

/-- A directory with an English file and no other. -/
def onlyEnglish (prop : Properties) : MessagesDirectory :=
  some fun name => if name = "messages_en.properties" then some (.ok prop) else none

def greeting (text : String) : Properties := ⟨[("greeting", text)], by simp⟩

def noEntries : Properties := ⟨[], List.nodup_nil⟩

theorem allLoad_onlyEnglish (prop : Properties) : AllLoad englishTexts (onlyEnglish prop) := by
  intro language file hfile
  rw [currentFile, onlyEnglish, Option.bind_some] at hfile
  split at hfile
  · dsimp only at hfile
    split at hfile
    · exact ⟨prop, (Option.some.inj hfile).symm, fun e _ => ⟨e.2, rfl⟩⟩
    · cases hfile
  · cases hfile

/-- A changed text comes out after the refresh. -/
theorem resolveCode_eq_expected_changed :
    resolveCode
        (messagesAfter englishTexts
          ([onlyEnglish (greeting "Hello")] ++ [onlyEnglish (greeting "Hi")]))
        "greeting" "en" =
      expected englishTexts (onlyEnglish (greeting "Hi")) "greeting" "en" :=
  (resolveCode_eq_expected_iff englishTexts [onlyEnglish (greeting "Hello")]
    (onlyEnglish (greeting "Hi")) (allLoad_onlyEnglish _) "greeting" "en").2 (.inl (by decide))

/-- **A removed entry is still there** after the refresh. -/
theorem resolveCode_ne_expected_removed :
    AllLoad englishTexts (onlyEnglish noEntries) ∧
      resolveCode
          (messagesAfter englishTexts
            ([onlyEnglish (greeting "Hello")] ++ [onlyEnglish noEntries]))
          "greeting" "en" = some "Hello" ∧
      expected englishTexts (onlyEnglish noEntries) "greeting" "en" = none :=
  ⟨allLoad_onlyEnglish _, by decide, by decide⟩

end UserMessageSource

end Zooffice
