import Zooffice.Sandbox.Model.Hosts
/-!
# Which hosts are let through

The hosts are documented as a list of entries `name:address`, `:address`
and `address`. The two splits read such a list back, with one thing too
many: `:address` has an empty piece before the colon, and so has the empty
list, and that piece is added too. The empty host is therefore let
through although no entry names it.
-/


namespace Zooffice

/-- A name or an address: a text with neither a comma nor a colon. -/
structure HostName where
  text : Text
  ne_nil : text ≠ []
  comma_not_mem : ',' ∉ text
  colon_not_mem : ':' ∉ text

/-- An entry of the list, in one of the documented forms. -/
inductive HostEntry where
  /-- `name:address` -/
  | nameAndAddress (name address : HostName)
  /-- `:address` -/
  | colonAddress (address : HostName)
  /-- `address` -/
  | address (address : HostName)

namespace HostEntry

/-- How the entry is written. -/
def text : HostEntry → Text
  | nameAndAddress name a => name.text ++ ':' :: a.text
  | colonAddress a => ':' :: a.text
  | address a => a.text

/-- The names and addresses of the entry. -/
def hosts : HostEntry → List Text
  | nameAndAddress name a => [name.text, a.text]
  | colonAddress a => [a.text]
  | address a => [a.text]

/-- The entry is written with nothing before the colon. -/
def isColonAddress : HostEntry → Bool
  | colonAddress _ => true
  | _ => false

/-- What `etcHosts` is for a list of entries. -/
def etcHosts (entries : List HostEntry) : Text := [','].intercalate (entries.map text)

theorem comma_not_mem_text (e : HostEntry) : ',' ∉ e.text := by
  cases e with
  | nameAndAddress name a =>
      simp [text, name.comma_not_mem, a.comma_not_mem]
  | colonAddress a => simp [text, a.comma_not_mem]
  | address a => exact a.comma_not_mem

theorem text_ne_nil (e : HostEntry) : e.text ≠ [] := by
  cases e with
  | nameAndAddress name a => simp [text]
  | colonAddress a => simp [text]
  | address a => exact a.ne_nil

/-- No name and no address is empty. -/
theorem ne_nil_of_mem_hosts {e : HostEntry} {host : Text} (h : host ∈ e.hosts) : host ≠ [] := by
  cases e with
  | nameAndAddress name a =>
      rcases List.mem_pair.1 h with rfl | rfl
      · exact name.ne_nil
      · exact a.ne_nil
  | colonAddress a => exact List.mem_singleton.1 h ▸ a.ne_nil
  | address a => exact List.mem_singleton.1 h ▸ a.ne_nil

end HostEntry

namespace ZoofficeSecurityManager

open HostEntry

/-- A colon with an address behind it is where the entry is split. -/
theorem split_colon {before : Text} (hbefore : ':' ∉ before) (address : HostName) :
    split (before ++ ':' :: address.text) ':' = [before, address.text] := by
  have hjoin : before ++ ':' :: address.text = [':'].intercalate [before, address.text] := by
    simp [List.intercalate_cons_cons]
  have hmem : ∀ piece ∈ [before, address.text], ':' ∉ piece := by
    rintro piece hpiece
    rcases List.mem_pair.1 hpiece with rfl | rfl
    · exact hbefore
    · exact address.colon_not_mem
  rw [hjoin]
  exact split_intercalate (List.cons_ne_nil _ _) hmem address.ne_nil

/-- **What the loop adds for an entry**: its name and address, and the
empty text for an entry that begins with the colon. -/
theorem addressesOf_text (e : HostEntry) :
    addressesOf e.text = if e.isColonAddress then [] :: e.hosts else e.hosts := by
  cases e with
  | nameAndAddress name a =>
      have hsplit := split_colon name.colon_not_mem a
      rw [addressesOf, text, hsplit]
      rfl
  | colonAddress a =>
      have hsplit := split_colon List.not_mem_nil a
      rw [List.nil_append] at hsplit
      rw [addressesOf, text, hsplit]
      rfl
  | address a =>
      rw [addressesOf, text, split_of_not_mem a.colon_not_mem]
      rfl

/-- **The hosts that are allowed**: those of the entries and the console,
and the empty text when an entry begins with the colon or there is none. -/
theorem mem_initAccessOfHosts {entries : List HostEntry} {consoleIP host : Text} :
    host ∈ initAccessOfHosts (etcHosts entries) consoleIP ↔
      (host = consoleIP ∨ ∃ e ∈ entries, host ∈ e.hosts) ∨
        (host = [] ∧ (entries = [] ∨ ∃ e ∈ entries, e.isColonAddress)) := by
  rw [initAccessOfHosts, List.mem_append, List.mem_singleton]
  by_cases hentries : entries = []
  · subst hentries
    have haddresses : addressesOf [] = [[]] := by rw [addressesOf, split_nil]
    simp [etcHosts, haddresses, or_comm]
  · have hmem : ∀ piece ∈ entries.map text, ',' ∉ piece := by
      intro piece hpiece
      obtain ⟨e, -, rfl⟩ := List.mem_map.1 hpiece
      exact e.comma_not_mem_text
    have hlast : ∀ hne : entries.map text ≠ [], (entries.map text).getLast hne ≠ [] := by
      intro hne
      obtain ⟨e, -, he⟩ := List.mem_map.1 (List.getLast_mem hne)
      rw [← he]
      exact e.text_ne_nil
    have hne : entries.map text ≠ [] := by simpa using hentries
    rw [etcHosts, split_intercalate hne hmem (hlast hne), List.flatMap_map, List.mem_flatMap]
    simp only [addressesOf_text]
    constructor
    · rintro (⟨e, he, hhost⟩ | hhost)
      · split at hhost
        · next hcolon =>
            rcases List.mem_cons.1 hhost with rfl | hhost
            · exact .inr ⟨rfl, .inr ⟨e, he, hcolon⟩⟩
            · exact .inl (.inr ⟨e, he, hhost⟩)
        · exact .inl (.inr ⟨e, he, hhost⟩)
      · exact .inl (.inl hhost)
    · rintro ((hhost | ⟨e, he, hhost⟩) | ⟨rfl, hnone | ⟨e, he, hcolon⟩⟩)
      · exact .inr hhost
      · refine .inl ⟨e, he, ?_⟩
        split
        · exact List.mem_cons_of_mem _ hhost
        · exact hhost
      · exact absurd hnone hentries
      · refine .inl ⟨e, he, ?_⟩
        rw [if_pos hcolon]
        exact List.mem_cons_self

theorem checkConnect_eq_ok {allowedHost : List Text} {host : Text} {port : Int} :
    checkConnect allowedHost (some host) port = .ok () ↔ host ∈ allowedHost := by
  rw [checkConnect, netWorkAccessAllowed, Option.any_some]
  split
  · next hallowed => exact iff_of_true rfl (List.contains_iff_mem.1 hallowed)
  · next hnot => exact iff_of_false (by simp) fun h => hnot (List.contains_iff_mem.2 h)

/-- What is asked of the check: the hosts that are let through are the
console and the names and addresses of the entries. -/
def AdmitsEntries (entries : List HostEntry) (consoleIP host : Text) (port : Int) : Prop :=
  checkConnect (initAccessOfHosts (etcHosts entries) consoleIP) (some host) port = .ok () ↔
    host = consoleIP ∨ ∃ e ∈ entries, host ∈ e.hosts

/-- **The check admits the documented hosts and no other, but for the empty
host**, which passes when there is no entry or one begins with the colon. -/
theorem admitsEntries_iff (entries : List HostEntry) (consoleIP host : Text) (port : Int) :
    AdmitsEntries entries consoleIP host port ↔
      ¬(host = [] ∧ consoleIP ≠ [] ∧ (entries = [] ∨ ∃ e ∈ entries, e.isColonAddress)) := by
  rw [AdmitsEntries, checkConnect_eq_ok, mem_initAccessOfHosts, or_iff_left_iff_imp]
  constructor
  · rintro h ⟨rfl, hconsole, hcolon⟩
    rcases h ⟨rfl, hcolon⟩ with hconsole' | ⟨e, -, he⟩
    · exact hconsole hconsole'.symm
    · exact ne_nil_of_mem_hosts he rfl
  · rintro h ⟨rfl, hcolon⟩
    exact .inl (Classical.byContradiction fun hconsole =>
      h ⟨rfl, fun heq => hconsole heq.symm, hcolon⟩)

/-- **Without an entry the empty host is let through.** -/
theorem not_admitsEntries_empty : ¬AdmitsEntries [] "127.0.0.1".toList [] 80 := by
  intro h
  rcases h.1 (by decide) with hconsole | ⟨e, he, -⟩
  · exact absurd hconsole (by decide)
  · exact absurd he List.not_mem_nil

end ZoofficeSecurityManager

end Zooffice
