import Mathlib.Data.List.Infix
/-!
# Path names

A path is a text in which one letter separates names. Two ways of writing
a list of names down are used: `rooted` puts the separator before every
name, `terminated` after every name. Reading a path back drops the empty
names (`names`), and taking the names one after the other from a directory
gives the directory they lead to, the names `[]` and `[dot]` staying where
they are and `[dot, dot]` leaving the last directory. `resolve` stays at
the root when there is nothing to leave, `walk` gives up there.

There are two main results. A name of the directory that a path leads to
stands in the path, and what follows it there stays below it
(`exists_split_of_resolve`). And about a test on texts: a path that the
text of a directory begins with is that of an ancestor, or its last name
is a proper beginning of one of the directory's names (`Extends`).
-/


namespace Zooffice

namespace Path

variable {α : Type*}

/-- The names, with the separator before each. -/
def rooted (sep : α) (ns : List (List α)) : List α := ns.flatMap fun n => sep :: n

/-- The names, with the separator after each. -/
def terminated (sep : α) (ns : List (List α)) : List α := ns.flatMap fun n => n ++ [sep]

@[simp] theorem rooted_nil (sep : α) : rooted sep [] = [] := rfl

@[simp] theorem rooted_cons (sep : α) (n : List α) (ns : List (List α)) :
    rooted sep (n :: ns) = sep :: (n ++ rooted sep ns) := rfl

@[simp] theorem rooted_append (sep : α) (ns ms : List (List α)) :
    rooted sep (ns ++ ms) = rooted sep ns ++ rooted sep ms := List.flatMap_append

@[simp] theorem terminated_nil (sep : α) : terminated sep [] = [] := rfl

@[simp] theorem terminated_cons (sep : α) (n : List α) (ns : List (List α)) :
    terminated sep (n :: ns) = n ++ sep :: terminated sep ns := by
  simp [terminated]

@[simp] theorem terminated_append (sep : α) (ns ms : List (List α)) :
    terminated sep (ns ++ ms) = terminated sep ns ++ terminated sep ms := List.flatMap_append

/-- The two ways differ by where the odd separator stands. -/
theorem cons_terminated (sep : α) (ns : List (List α)) :
    sep :: terminated sep ns = rooted sep ns ++ [sep] := by
  induction ns with
  | nil => rfl
  | cons n ns ih => rw [terminated_cons, rooted_cons, ih]; simp

/-- A separator between the names is one before each but the first. -/
theorem cons_intercalate {sep : α} {ns : List (List α)} (h : ns ≠ []) :
    sep :: [sep].intercalate ns = rooted sep ns := by
  induction ns with
  | nil => exact absurd rfl h
  | cons n ns ih =>
      by_cases hns : ns = []
      · rw [hns, List.intercalate_singleton, rooted_cons, rooted_nil, List.append_nil]
      · rw [List.intercalate_cons_of_ne_nil hns, rooted_cons, ← ih hns, List.append_assoc]
        rfl

/-- The text of a directory, given by its names: the root is the
separator alone, and any other may have one more at its end. -/
def text (sep : α) (ns : List (List α)) (closed : Bool) : List α :=
  if ns = [] ∨ closed = true then sep :: terminated sep ns else rooted sep ns

/-- A text that begins with the text of a directory, up to its last name:
that name is a proper beginning of the name that stands in its place. -/
def Extends (sep : α) (d : List α) (ns : List (List α)) : Prop :=
  ∃ init q n rest, d = rooted sep (init ++ [q]) ∧ ns = init ++ n :: rest ∧ q <+: n ∧ q ≠ n

/-- A directory whose text goes on inside a name begins with that text. -/
theorem Extends.isPrefix_text {sep : α} {d : List α} {ns : List (List α)}
    (h : Extends sep d ns) (closed : Bool) : d <+: text sep ns closed := by
  obtain ⟨init, q, n, rest, rfl, rfl, ⟨r, rfl⟩, -⟩ := h
  have hrooted : rooted sep (init ++ [q]) <+: rooted sep (init ++ (q ++ r) :: rest) := by
    refine ⟨r ++ rooted sep rest, ?_⟩
    simp
  unfold text
  split
  · rw [cons_terminated]
    exact hrooted.trans (List.prefix_append _ _)
  · exact hrooted

/-- The text of a directory begins with its first name, and goes on as the
text of the other names does. -/
theorem text_cons_isPrefix (sep : α) (n : List α) (ns : List (List α)) (closed : Bool) :
    text sep (n :: ns) closed <+: sep :: (n ++ text sep ns closed) := by
  rw [text, text]
  by_cases hclosed : closed = true
  · simp [hclosed]
  · by_cases hns : ns = []
    · simp [hclosed, hns]
    · simp [hclosed, hns]

theorem text_eq_cons (sep : α) (ns : List (List α)) (closed : Bool) :
    ∃ rest, text sep ns closed = sep :: rest := by
  unfold text
  split
  · exact ⟨_, rfl⟩
  · rename_i h
    rw [not_or] at h
    obtain ⟨n, ns, rfl⟩ := List.exists_cons_of_ne_nil h.1
    exact ⟨_, rooted_cons sep n ns⟩

variable [DecidableEq α]

/-- The names of a path, without the empty ones. -/
def names (sep : α) (path : List α) : List (List α) :=
  (path.splitOn sep).filter fun n => n ≠ []

@[simp] theorem names_nil (sep : α) : names sep [] = [] := by
  simp [names]

/-- A separator ends the name before it. -/
theorem names_append_cons (sep : α) (p q : List α) :
    names sep (p ++ sep :: q) = names sep p ++ names sep q := by
  rw [names, List.splitOn_append_cons_self, List.filter_append]
  rfl

@[simp] theorem names_cons_self (sep : α) (p : List α) : names sep (sep :: p) = names sep p := by
  have h := names_append_cons sep [] p
  rwa [List.nil_append, names_nil, List.nil_append] at h

/-- A text without a separator is one name, or none. -/
theorem names_of_not_mem {sep : α} {n : List α} (h : sep ∉ n) :
    names sep n = if n = [] then [] else [n] := by
  rw [names, List.splitOn_eq_singleton h]
  by_cases hn : n = [] <;> simp [hn]

/-- A text that begins with a letter has a name that does. -/
theorem names_cons_of_ne {sep c : α} (h : c ≠ sep) (p : List α) :
    ∃ n ns, names sep (c :: p) = (c :: n) :: ns := by
  rw [names, List.splitOn_cons_eq_if_modifyHead, if_neg (by simpa using h)]
  cases hsplit : p.splitOn sep with
  | nil => exact absurd hsplit (List.splitOn_ne_nil sep p)
  | cons n ns => exact ⟨n, _, by rw [List.modifyHead_cons, List.filter_cons_of_pos (by simp)]⟩

/-- Splitting leaves no separator in a name. -/
theorem not_mem_of_mem_splitOn {sep : α} {p n : List α} (h : n ∈ p.splitOn sep) : sep ∉ n := by
  induction hp : p.length using Nat.strong_induction_on generalizing p with
  | _ k ih =>
    -- the induction is on the length: a separator cuts the text in two shorter ones
    by_cases hmem : sep ∈ p
    · obtain ⟨a, b, rfl⟩ := List.append_of_mem hmem
      rw [List.splitOn_append_cons_self, List.mem_append] at h
      simp only [List.length_append, List.length_cons] at hp
      rcases h with h | h
      · exact ih a.length (by omega) h rfl
      · exact ih b.length (by omega) h rfl
    · rw [List.splitOn_eq_singleton hmem, List.mem_singleton] at h
      rwa [h]

theorem not_mem_of_mem_names {sep : α} {p n : List α} (h : n ∈ names sep p) : sep ∉ n :=
  not_mem_of_mem_splitOn (List.mem_filter.1 h).1

/-- The names that a text is split into, with a separator behind each, are
the text with one separator more. -/
theorem terminated_splitOn (sep : α) (p : List α) :
    terminated sep (p.splitOn sep) = p ++ [sep] := by
  induction p with
  | nil => simp
  | cons c p ih =>
      rw [List.splitOn_cons_eq_if_modifyHead]
      by_cases hc : c = sep
      · simp [hc, ih]
      · rw [if_neg (by simpa using hc)]
        cases hsplit : p.splitOn sep with
        | nil => exact absurd hsplit (List.splitOn_ne_nil sep p)
        | cons n ns =>
            rw [hsplit, terminated_cons] at ih
            rw [List.modifyHead_cons, terminated_cons, List.cons_append, ih]
            rfl

/-- The letters of a name are letters of the text. -/
theorem mem_of_mem_names {sep c : α} {p n : List α} (h : n ∈ names sep p) (hc : c ∈ n) : c ∈ p := by
  have hmem : c ∈ terminated sep (p.splitOn sep) :=
    List.mem_flatMap.2 ⟨n, (List.mem_filter.1 h).1, List.mem_append_left _ hc⟩
  rw [terminated_splitOn, List.mem_append, List.mem_singleton] at hmem
  refine hmem.resolve_right fun heq => ?_
  exact not_mem_of_mem_names h (heq ▸ hc)

/-- Reading back names that were written with the separator after each
drops the empty ones. -/
theorem names_terminated {sep : α} {ns : List (List α)} (h : ∀ n ∈ ns, sep ∉ n) :
    names sep (terminated sep ns) = ns.filter fun n => n ≠ [] := by
  induction ns with
  | nil => simp
  | cons n ns ih =>
      rw [terminated_cons, names_append_cons, ih fun m hm => h m (List.mem_cons_of_mem _ hm),
        names_of_not_mem (h n List.mem_cons_self)]
      by_cases hn : n = [] <;> simp [hn]

/-- Reading back names that were written with the separator before each. -/
theorem names_rooted {sep : α} {ns : List (List α)} (hne : ∀ n ∈ ns, n ≠ [])
    (h : ∀ n ∈ ns, sep ∉ n) : names sep (rooted sep ns) = ns := by
  have hterminated := names_terminated h
  rw [← names_cons_self, cons_terminated, names_append_cons, names_nil, List.append_nil]
    at hterminated
  rw [hterminated, List.filter_eq_self.2]
  intro n hn
  simpa using hne n hn

/-- A name is a part of the path. -/
theorem isInfix_of_mem_names {sep : α} {p n : List α} (h : n ∈ names sep p) : n <:+: p := by
  obtain ⟨as, bs, hsplit⟩ := List.append_of_mem (List.mem_filter.1 h).1
  have hterminated := terminated_splitOn sep p
  rw [hsplit, terminated_append, terminated_cons] at hterminated
  -- the separator behind the last name is the one that is no part of the path
  rcases List.eq_nil_or_concat' (terminated sep bs) with hnil | ⟨rest, c, hrest⟩
  · rw [hnil, ← List.append_assoc] at hterminated
    exact ⟨terminated sep as, [], by rw [List.append_nil, (List.append_inj' hterminated rfl).1]⟩
  · have hcut : (terminated sep as ++ n ++ sep :: rest) ++ [c] = p ++ [sep] := by
      rw [← hterminated, hrest]
      simp
    exact ⟨terminated sep as, sep :: rest, (List.append_inj' hcut rfl).1⟩

/-! ## Where the names lead -/

/-- The directory that a name leads to. -/
def enter (dot : α) (st : List (List α)) (n : List α) : List (List α) :=
  if n = [] ∨ n = [dot] then st else if n = [dot, dot] then st.dropLast else st ++ [n]

/-- The directory that the names lead to, one after the other. Above the
root is the root. -/
def resolve (dot : α) (st ns : List (List α)) : List (List α) := ns.foldl (enter dot) st

/-- The same, but for names that lead above the root there is none. -/
def walk (dot : α) : List (List α) → List (List α) → Option (List (List α))
  | st, [] => some st
  | st, n :: ns =>
      if n = [dot, dot] ∧ st = [] then none else walk dot (enter dot st n) ns

@[simp] theorem resolve_nil (dot : α) (st : List (List α)) : resolve dot st [] = st := rfl

@[simp] theorem resolve_cons (dot : α) (st : List (List α)) (n : List α) (ns : List (List α)) :
    resolve dot st (n :: ns) = resolve dot (enter dot st n) ns := rfl

theorem resolve_append (dot : α) (st ns ms : List (List α)) :
    resolve dot st (ns ++ ms) = resolve dot (resolve dot st ns) ms := List.foldl_append

/-- Names that do not lead above the root lead to the same directory
either way. -/
theorem resolve_of_walk {dot : α} {st ns r : List (List α)} (h : walk dot st ns = some r) :
    resolve dot st ns = r := by
  induction ns generalizing st with
  | nil => simpa [walk] using h
  | cons n ns ih =>
      rw [walk] at h
      split at h
      · exact absurd h (by simp)
      · exact ih h

/-- Names that stay where they are can be left out. -/
theorem walk_filter (dot : α) (keep : List α → Bool)
    (hkeep : ∀ n, keep n = false → n = [] ∨ n = [dot]) (st ns : List (List α)) :
    walk dot st (ns.filter keep) = walk dot st ns := by
  induction ns generalizing st with
  | nil => rfl
  | cons n ns ih =>
      cases hn : keep n with
      | true => rw [List.filter_cons_of_pos hn, walk, walk, ih]
      | false =>
          -- a name that is left out leads nowhere, and is not the one that may give up
          have hstay := hkeep n hn
          have hdots : n ≠ [dot, dot] := by
            rcases hstay with rfl | rfl <;> simp
          rw [List.filter_cons_of_neg (by simp [hn]), ih, walk, if_neg (fun h => hdots h.1), enter,
            if_pos hstay]

/-- A name that is a directory's own: it is neither empty nor made of
dots, and has no separator. -/
structure Proper (sep dot : α) (n : List α) : Prop where
  ne_nil : n ≠ []
  ne_dot : n ≠ [dot]
  ne_dots : n ≠ [dot, dot]
  not_mem : sep ∉ n

theorem enter_of_proper {sep dot : α} {n : List α} (h : Proper sep dot n) (st : List (List α)) :
    enter dot st n = st ++ [n] := by
  rw [enter, if_neg (by simp [h.ne_nil, h.ne_dot]), if_neg h.ne_dots]

/-- Proper names are entered one after the other. -/
theorem resolve_of_proper {sep dot : α} {ns : List (List α)} (h : ∀ n ∈ ns, Proper sep dot n)
    (st : List (List α)) : resolve dot st ns = st ++ ns := by
  induction ns generalizing st with
  | nil => exact (List.append_nil st).symm
  | cons n ns ih =>
      rw [resolve_cons, enter_of_proper (h n List.mem_cons_self),
        ih fun m hm => h m (List.mem_cons_of_mem _ hm), List.append_assoc, List.singleton_append]

/-- Proper names never lead up. -/
theorem walk_of_proper {sep dot : α} {ns : List (List α)} (h : ∀ n ∈ ns, Proper sep dot n)
    (st : List (List α)) : walk dot st ns = some (st ++ ns) := by
  induction ns generalizing st with
  | nil => rw [walk, List.append_nil]
  | cons n ns ih =>
      have hn := h n List.mem_cons_self
      rw [walk, if_neg (fun hup => hn.ne_dots hup.1), enter_of_proper hn,
        ih fun m hm => h m (List.mem_cons_of_mem _ hm), List.append_assoc, List.singleton_append]

/-- The names of a directory are read back from its text. -/
theorem names_text {sep dot : α} {ns : List (List α)} (h : ∀ n ∈ ns, Proper sep dot n)
    (closed : Bool) : names sep (text sep ns closed) = ns := by
  have hne : ∀ n ∈ ns, n ≠ [] := fun n hn => (h n hn).ne_nil
  have hsep : ∀ n ∈ ns, sep ∉ n := fun n hn => (h n hn).not_mem
  unfold text
  split
  · rw [names_cons_self, names_terminated hsep, List.filter_eq_self.2 (by simpa using hne)]
  · exact names_rooted hne hsep

/-- Entering keeps every name proper. -/
theorem proper_of_mem_enter {sep dot : α} {st : List (List α)} {n m : List α}
    (hst : ∀ m ∈ st, Proper sep dot m) (hn : sep ∉ n) (hm : m ∈ enter dot st n) :
    Proper sep dot m := by
  unfold enter at hm
  split at hm
  · exact hst m hm
  · rename_i h
    split at hm
    · exact hst m (List.dropLast_subset _ hm)
    · rename_i h'
      rcases List.mem_append.1 hm with hm | hm
      · exact hst m hm
      · rw [List.mem_singleton] at hm
        subst hm
        exact ⟨fun h0 => h (.inl h0), fun h0 => h (.inr h0), h', hn⟩

/-- A path leads to a directory with proper names only. -/
theorem proper_of_mem_resolve {sep dot : α} {st ns : List (List α)}
    (hst : ∀ m ∈ st, Proper sep dot m) (hns : ∀ n ∈ ns, sep ∉ n) :
    ∀ m ∈ resolve dot st ns, Proper sep dot m := by
  induction ns generalizing st with
  | nil => exact hst
  | cons n ns ih =>
      refine ih (fun m hm => ?_) fun m hm => hns m (List.mem_cons_of_mem _ hm)
      exact proper_of_mem_enter hst (hns n List.mem_cons_self) hm

theorem proper_of_mem_walk {sep dot : α} {st ns r : List (List α)}
    (hst : ∀ m ∈ st, Proper sep dot m) (hns : ∀ n ∈ ns, sep ∉ n)
    (h : walk dot st ns = some r) : ∀ m ∈ r, Proper sep dot m := by
  rw [← resolve_of_walk h]
  exact proper_of_mem_resolve hst hns

theorem mem_of_mem_resolve {dot : α} {st ns : List (List α)} {m : List α}
    (h : m ∈ resolve dot st ns) : m ∈ st ∨ m ∈ ns := by
  induction ns generalizing st with
  | nil => exact .inl h
  | cons n ns ih =>
      rcases ih h with hm | hm
      · unfold enter at hm
        split at hm
        · exact .inl hm
        · split at hm
          · exact .inl (List.dropLast_subset _ hm)
          · rcases List.mem_append.1 hm with hm | hm
            · exact .inl hm
            · exact .inr (List.mem_singleton.1 hm ▸ List.mem_cons_self)
      · exact .inr (List.mem_cons_of_mem _ hm)

/-- A path leads to names that it has, or that were there before. -/
theorem mem_of_mem_walk {dot : α} {st ns r : List (List α)} (h : walk dot st ns = some r) :
    ∀ m ∈ r, m ∈ st ∨ m ∈ ns := by
  rw [← resolve_of_walk h]
  exact fun m hm => mem_of_mem_resolve hm

omit [DecidableEq α] in
/-- The letters of a directory's text are separators and the letters of
its names. -/
theorem mem_text {sep c : α} {ns : List (List α)} {closed : Bool} (h : c ∈ text sep ns closed) :
    c = sep ∨ ∃ n ∈ ns, c ∈ n := by
  unfold text at h
  split at h
  · rw [List.mem_cons] at h
    rcases h with h | h
    · exact .inl h
    · obtain ⟨n, hn, h⟩ := List.mem_flatMap.1 h
      rw [List.mem_append, List.mem_singleton] at h
      exact h.symm.imp_right fun h => ⟨n, hn, h⟩
  · obtain ⟨n, hn, h⟩ := List.mem_flatMap.1 h
    rw [List.mem_cons] at h
    exact h.imp_right fun h => ⟨n, hn, h⟩

/-! ## Names that come through

A name is in the directory a path leads to exactly when it stands in the
path and what follows it never leads out of the directory it makes. -/

/-- A walk goes on from where its first part has led. -/
theorem walk_append (dot : α) (st ns ms : List (List α)) :
    walk dot st (ns ++ ms) = (walk dot st ns).bind fun r => walk dot r ms := by
  induction ns generalizing st with
  | nil => rfl
  | cons n ns ih =>
      rw [List.cons_append, walk, walk]
      split
      · rfl
      · exact ih _

/-- A walk that does not lead above its start leads to the same names
below any other directory. -/
theorem resolve_append_of_walk {dot : α} {st ns r : List (List α)} (h : walk dot st ns = some r)
    (base : List (List α)) : resolve dot (base ++ st) ns = base ++ r := by
  induction ns generalizing st with
  | nil =>
      rw [walk, Option.some.injEq] at h
      rw [resolve_nil, h]
  | cons n ns ih =>
      rw [walk] at h
      split at h
      · exact absurd h (by simp)
      · next hup =>
          have henter : enter dot (base ++ st) n = base ++ enter dot st n := by
            unfold enter
            split
            · rfl
            · split
              · next hdots =>
                  rw [List.dropLast_append_of_ne_nil fun hst => hup ⟨hdots, hst⟩]
              · rw [List.append_assoc]
          rw [resolve_cons, henter, ih h]

/-- **A name of the directory that a path leads to stands in the path**,
before it the names that lead to its parent, behind it names that stay
below it. The induction is on the path from its end. -/
theorem exists_split_of_resolve {dot : α} {ns as bs : List (List α)} {n : List α}
    (h : resolve dot [] ns = as ++ n :: bs) :
    ∃ ns₁ ns₂, ns = ns₁ ++ n :: ns₂ ∧ resolve dot [] ns₁ = as ∧ walk dot [] ns₂ = some bs := by
  induction ns using List.reverseRecOn generalizing bs with
  | nil => exact absurd h (by simp)
  | append_singleton ns k ih =>
      rw [resolve_append, resolve_cons, resolve_nil] at h
      -- what a shorter path comes to, with one name more behind it
      have hlonger : ∀ {bs'}, resolve dot [] ns = as ++ n :: bs' →
          walk dot bs' [k] = some bs → ∃ ns₁ ns₂, ns ++ [k] = ns₁ ++ n :: ns₂ ∧
            resolve dot [] ns₁ = as ∧ walk dot [] ns₂ = some bs := by
        intro bs' hns hk
        obtain ⟨ns₁, ns₂, rfl, has, hbs⟩ := ih hns
        exact ⟨ns₁, ns₂ ++ [k], by simp, has, by rw [walk_append, hbs]; exact hk⟩
      unfold enter at h
      split at h
      · next hstay =>
          refine hlonger h ?_
          have hdots : k ≠ [dot, dot] := by
            rcases hstay with rfl | rfl <;> simp
          rw [walk, if_neg (fun hup => hdots hup.1), walk, enter, if_pos hstay]
      · next hmove =>
          split at h
          · next hdots =>
              -- `..` took away a name that stood behind `n`
              obtain ⟨last, hlast⟩ : ∃ last, resolve dot [] ns = as ++ n :: (bs ++ [last]) := by
                rcases List.eq_nil_or_concat' (resolve dot [] ns) with hnil | ⟨init, last, hinit⟩
                · rw [hnil] at h
                  exact absurd h (by simp)
                · rw [hinit, List.dropLast_concat] at h
                  exact ⟨last, by rw [hinit, h]; simp⟩
              refine hlonger hlast ?_
              rw [walk, if_neg (by simp), walk, enter, if_neg hmove, if_pos hdots,
                List.dropLast_concat]
          · next hdots =>
              rcases List.eq_nil_or_concat' bs with rfl | ⟨bs, last, rfl⟩
              · -- the name is the last one
                obtain ⟨has, hk⟩ := List.append_inj' h rfl
                exact ⟨ns, [], by rw [List.singleton_inj.1 hk], has, rfl⟩
              · have hcut : resolve dot [] ns ++ [k] = (as ++ n :: bs) ++ [last] := by simpa using h
                obtain ⟨hns, hk⟩ := List.append_inj' hcut rfl
                refine hlonger hns ?_
                rw [walk, if_neg (fun hup => hdots hup.1), walk, enter, if_neg hmove,
                  if_neg hdots, List.singleton_inj.1 hk]

/-! ## What a beginning of the text means -/

/-- **A beginning of a directory's text is an ancestor, or stops inside a
name.** The induction is on the names of the directory, `st` being what
the names before have led to. -/
theorem resolve_isPrefix_or_extends {sep dot : α} {ns : List (List α)} {closed : Bool}
    {d : List α} (hns : ∀ n ∈ ns, Proper sep dot n) (hd : sep :: d <+: text sep ns closed)
    (st : List (List α)) :
    resolve dot st (names sep (sep :: d)) <+: st ++ ns ∨ Extends sep (sep :: d) ns := by
  induction ns generalizing d st with
  | nil =>
      have hnil : d = [] := by simpa [text] using hd
      simp [hnil]
  | cons n ns ih =>
      have hn := hns n List.mem_cons_self
      have hdn : d <+: n ++ text sep ns closed :=
        (List.prefix_cons_inj sep).1 (hd.trans (text_cons_isPrefix sep n ns closed))
      rcases List.prefix_or_prefix_of_prefix hdn (List.prefix_append _ _) with hle | ⟨r, rfl⟩
      · -- the text ends within the first name
        by_cases heq : d = n
        · -- with the whole name it is an ancestor
          refine .inl ?_
          rw [names_cons_self, heq, names_of_not_mem hn.not_mem, if_neg hn.ne_nil, resolve_cons,
            resolve_nil, enter_of_proper hn]
          exact (List.prefix_append_right_inj st).2 ⟨ns, rfl⟩
        · -- with less it stops inside that name
          exact .inr ⟨[], d, n, ns, by simp, rfl, hle, heq⟩
      · -- it goes on behind it, with a separator
        have hr : r <+: text sep ns closed := (List.prefix_append_right_inj n).1 hdn
        rcases r with _ | ⟨c, r⟩
        · refine .inl ?_
          rw [List.append_nil, names_cons_self, names_of_not_mem hn.not_mem, if_neg hn.ne_nil,
            resolve_cons, resolve_nil, enter_of_proper hn]
          exact (List.prefix_append_right_inj st).2 ⟨ns, rfl⟩
        · obtain ⟨rest, hrest⟩ := text_eq_cons sep ns closed
          obtain rfl : c = sep := by
            rw [hrest, List.cons_prefix_cons] at hr
            exact hr.1
          have hnames : names c (c :: (n ++ c :: r)) = n :: names c (c :: r) := by
            rw [names_cons_self, names_append_cons, names_of_not_mem hn.not_mem,
              if_neg hn.ne_nil, names_cons_self]
            rfl
          rw [hnames, resolve_cons, enter_of_proper hn]
          rcases ih (fun m hm => hns m (List.mem_cons_of_mem _ hm)) hr (st ++ [n]) with h | h
          · refine .inl ?_
            rwa [List.append_assoc] at h
          · obtain ⟨init, q, m, rest, hd', rfl, hq⟩ := h
            refine .inr ⟨n :: init, q, m, rest, ?_, rfl, hq⟩
            rw [hd']
            simp

end Path

end Zooffice
