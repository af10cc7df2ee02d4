import Mathlib.Data.List.Perm.Basic
import Zooffice.Archive.Model.Compression
/-!
# What is in the archive

The loop of `zip` ends, and writes one entry for each regular file: the
order is that of its stack, so the entries are given up to their order
(`zip_perm`). No entry stands for a directory, and no two have the same
name.
-/


namespace Zooffice

open Zooffice.Path

namespace CompressionUtil

/-- The name of a file in the archive, from its names below the root. -/
def relativeName (ns : List Text) : Text := (rooted '/' ns).drop 1

/-- The entry of a regular file, given by its names from the root of the
archive. -/
def entryOf (l : List Text × Content) : ZipEntry := ⟨relativeName l.1, l.2⟩

/-- The regular files of a tree, by their names below the root of the
archive. -/
def regularFiles (src : Source) (includeSrc : Bool) : List (List Text × Content) :=
  src.tree.leaves (if src.tree.isNode ∧ includeSrc = false then [] else [src.name])

/-- The file is at the root or below it, by file names, and so is what it
has. -/
structure Below (root : List Text) (f : SourceFile) (ns : List Text) : Prop where
  names : f.names = root ++ ns
  legal : ∀ n ∈ ns, FileName n
  tree : f.tree.Distinct fun n => FileName n

variable {root ns : List Text} {f : SourceFile}

/-! ## Names -/

theorem relativeName_cons (n : Text) (ns : List Text) :
    relativeName (n :: ns) = n ++ rooted '/' ns := rfl

/-- The name leads back to the names. -/
theorem names_relativeName (hne : ns ≠ []) (h : ∀ n ∈ ns, FileName n) :
    names '/' (relativeName ns) = ns := by
  obtain ⟨n, ns, rfl⟩ := List.exists_cons_of_ne_nil hne
  have hrooted := names_rooted (fun m hm => (h m hm).ne_nil) (fun m hm => (h m hm).not_mem)
  rwa [rooted_cons, names_cons_self, ← relativeName_cons] at hrooted

/-- The name has a separator between the names. -/
theorem relativeName_eq_intercalate (hne : ns ≠ []) :
    relativeName ns = (['/'] : Text).intercalate ns := by
  rw [relativeName, ← cons_intercalate hne]
  rfl

/-- It does not begin with one. -/
theorem head?_relativeName (hne : ns ≠ []) (h : ∀ n ∈ ns, FileName n) :
    (relativeName ns).head? ≠ some '/' := by
  obtain ⟨n, ns, rfl⟩ := List.exists_cons_of_ne_nil hne
  have hn := h n List.mem_cons_self
  obtain ⟨c, n, rfl⟩ := List.exists_cons_of_ne_nil hn.ne_nil
  intro heq
  exact hn.not_mem (by rw [← Option.some.inj heq]; exact List.mem_cons_self)

/-- A name ends in a letter. -/
theorem getLast?_relativeName (hne : ns ≠ []) (h : ∀ n ∈ ns, FileName n) :
    (relativeName ns).getLast? ≠ some '/' := by
  obtain ⟨init, n, rfl⟩ := (List.eq_nil_or_concat' ns).resolve_left hne
  have hn := h n (by simp)
  obtain ⟨n, c, rfl⟩ := (List.eq_nil_or_concat' n).resolve_left hn.ne_nil
  have hc : c ≠ '/' := fun heq => hn.not_mem (by simp [heq])
  obtain ⟨front, hfront⟩ : ∃ front, relativeName (init ++ [n ++ [c]]) = front ++ [c] := by
    rcases init with _ | ⟨m, init⟩
    · exact ⟨n, by simp [relativeName]⟩
    · exact ⟨m ++ (rooted '/' init ++ '/' :: n), by simp [relativeName]⟩
  rw [hfront, List.getLast?_concat]
  exact fun heq => hc (Option.some.inj heq)

theorem absolutePathOf_of_ne_nil (hne : ns ≠ []) : absolutePathOf ns = rooted '/' ns := by
  rw [absolutePathOf, text, if_neg (by simp [hne])]

/-- What is left of the path behind that of the root. -/
theorem drop_absolutePathOf (root : List Text) (hne : ns ≠ []) :
    (absolutePathOf root).length ≤ (absolutePathOf (root ++ ns)).length ∧
      ((absolutePathOf (root ++ ns)).drop (absolutePathOf root).length = relativeName ns ∨
        (absolutePathOf (root ++ ns)).drop (absolutePathOf root).length =
          '/' :: relativeName ns) := by
  obtain ⟨n, ns, rfl⟩ := List.exists_cons_of_ne_nil hne
  by_cases hroot : root = []
  · subst hroot
    rw [List.nil_append, absolutePathOf_of_ne_nil hne]
    exact ⟨by simp [absolutePathOf, text], .inl rfl⟩
  · rw [absolutePathOf_of_ne_nil hroot, absolutePathOf_of_ne_nil (by simp), rooted_append]
    refine ⟨by simp, .inr ?_⟩
    rw [List.drop_left]
    rfl

/-- **`toPath` gives the name below the root**, for a regular file. -/
theorem toPath_eq (hf : Below root f ns) (hne : ns ≠ []) :
    ∃ name, toPath root f = .ok name ∧ (f.tree.isNode = false → name = relativeName ns) := by
  obtain ⟨hle, hdrop⟩ := drop_absolutePathOf root hne
  rw [← hf.names] at hle hdrop
  have hhead := head?_relativeName hne hf.legal
  -- a separator that is left in front of the name is dropped
  have hpath : (if ((absolutePathOf f.names).drop (absolutePathOf root).length).head? = some '/'
      then ((absolutePathOf f.names).drop (absolutePathOf root).length).drop 1
      else (absolutePathOf f.names).drop (absolutePathOf root).length) = relativeName ns := by
    rcases hdrop with h | h
    · rw [h, if_neg hhead]
    · rw [h, List.head?_cons, if_pos rfl]
      rfl
  have hsubstring : substringFrom (absolutePathOf f.names) (absolutePathOf root).length =
      .ok ((absolutePathOf f.names).drop (absolutePathOf root).length) := by
    rw [substringFrom, if_neg (by omega)]
  rw [toPath, hsubstring]
  refine ⟨_, rfl, fun hleaf => ?_⟩
  rw [hpath, if_neg (by simp [hleaf])]

/-! ## The loop -/

theorem stackChildren_perm (stack fs : List SourceFile) :
    (stackChildren stack fs).Perm (stack ++ fs) := by
  induction fs generalizing stack with
  | nil => rw [List.append_nil]; rfl
  | cons f fs ih =>
      rw [stackChildren, List.foldl_cons]
      refine (ih _).trans ?_
      split
      · rw [List.append_assoc, List.singleton_append]
      · exact List.perm_middle.symm

/-- What the stack holds is below the root. -/
def AllBelow (root : List Text) (stack : List SourceFile) : Prop :=
  ∀ f ∈ stack, ∃ ns, ns ≠ [] ∧ Below root f ns

/-- What a directory has is below the root when the directory is. -/
theorem allBelow_listFiles (hf : Below root f ns) : AllBelow root (listFiles f) := by
  intro g hg
  cases htree : f.tree with
  | leaf content => simp [listFiles, htree] at hg
  | node children =>
      rw [listFiles, htree] at hg
      obtain ⟨c, hc, rfl⟩ := List.mem_map.1 hg
      have hdistinct := hf.tree
      rw [htree, LabelledTree.Distinct] at hdistinct
      obtain ⟨hlabel, hchild⟩ := LabelledTree.distinct_of_mem hdistinct hc
      refine ⟨ns ++ [c.1], by simp, ?_, ?_, hchild⟩
      · rw [hf.names, List.append_assoc]
      · intro n hn
        rcases List.mem_append.1 hn with hn | hn
        · exact hf.legal n hn
        · rw [List.mem_singleton] at hn
          rwa [hn]

/-- The regular files below what a stack holds, by their names below the
root. -/
def filesBelow (root : List Text) (stack : List SourceFile) : List (List Text × Content) :=
  stack.flatMap fun f => f.tree.leaves (f.names.drop root.length)

theorem filesBelow_append (root : List Text) (stack fs : List SourceFile) :
    filesBelow root (stack ++ fs) = filesBelow root stack ++ filesBelow root fs :=
  List.flatMap_append

/-- A directory has the regular files that what it has has. -/
theorem filesBelow_listFiles {children : List (Text × FileTree)} (hf : Below root f ns)
    (htree : f.tree = .node children) :
    filesBelow root (listFiles f) = f.tree.leaves (f.names.drop root.length) := by
  rw [htree, LabelledTree.leaves, LabelledTree.leavesOfAll_eq_flatMap, listFiles, htree,
    filesBelow, List.flatMap_map, hf.names, List.drop_left]
  simp only [List.append_assoc, List.drop_left]

/-- What a directory has is smaller than the directory. -/
theorem size_listFiles_lt (f : SourceFile) :
    ((listFiles f).map fun f => f.tree.size).sum < f.tree.size := by
  cases htree : f.tree with
  | leaf content =>
      rw [listFiles, htree]
      exact LabelledTree.size_pos _
  | node children =>
      rw [LabelledTree.size, LabelledTree.sizeOfAll_eq_sum, listFiles, htree, List.map_map]
      exact Nat.lt_succ_self _

/-- **The loop writes an entry for each regular file below what the stack
holds.** The induction is on the bound, which the sizes of the trees on the
stack stay below. -/
theorem zipLoop_perm {fuel : Nat} {stack : List SourceFile} (hstack : AllBelow root stack)
    (hfuel : (stack.map fun f => f.tree.size).sum < fuel) :
    ∃ ls : List (List Text × Content), zipLoop root fuel stack = .ok (ls.map entryOf) ∧
      ls.Perm (filesBelow root stack) := by
  induction fuel generalizing stack with
  | zero => omega
  | succ fuel ih =>
      rcases List.eq_nil_or_concat' stack with rfl | ⟨stack, f, rfl⟩
      · exact ⟨[], rfl, List.Perm.refl _⟩
      · obtain ⟨ns, hne, hf⟩ := hstack f (by simp)
        have hstack' : AllBelow root stack := fun g hg => hstack g (List.mem_append_left _ hg)
        obtain ⟨name, hname, hleaf⟩ := toPath_eq hf hne
        have hpos := f.tree.size_pos
        rw [List.map_append, List.sum_append, List.map_singleton, List.sum_singleton] at hfuel
        rw [zipLoop, List.getLast?_concat, List.dropLast_concat, filesBelow_append]
        dsimp only
        rw [hname]
        cases htree : f.tree with
        | leaf content =>
            -- a regular file: its entry is written, the rest of the stack follows
            have hself : filesBelow root [f] = [(ns, content)] := by
              rw [filesBelow, List.flatMap_singleton, htree, LabelledTree.leaves, hf.names,
                List.drop_left]
            obtain ⟨ls, hloop, hperm⟩ := ih hstack' (by omega)
            refine ⟨(ns, content) :: ls, ?_, ?_⟩
            · simp only [Except.bind, hloop, List.map_cons, entryOf,
                hleaf (by rw [htree]; rfl)]
            · rw [hself]
              exact (hperm.cons _).trans (List.perm_append_singleton _ _).symm
        | node children =>
            -- a directory: what it has takes its place on the stack
            have hperm' := stackChildren_perm stack (listFiles f)
            have hsize : ((stackChildren stack (listFiles f)).map fun f => f.tree.size).sum <
                fuel := by
              have hchildren := size_listFiles_lt f
              rw [(hperm'.map _).sum_nat, List.map_append, List.sum_append]
              omega
            have hchildren : AllBelow root (stackChildren stack (listFiles f)) := by
              intro g hg
              rcases List.mem_append.1 (hperm'.subset hg) with hg | hg
              · exact hstack' g hg
              · exact allBelow_listFiles hf g hg
            have hself : filesBelow root [f] = filesBelow root (listFiles f) := by
              rw [filesBelow_listFiles hf htree, filesBelow, List.flatMap_singleton]
            obtain ⟨ls, hloop, hperm⟩ := ih hchildren hsize
            refine ⟨ls, ?_, hperm.trans ?_⟩
            · simp only [Except.bind, hloop]
            · rw [hself, ← filesBelow_append]
              exact hperm'.flatMap_right _

/-- More rounds do not change what the loop has written. -/
theorem zipLoop_of_le {fuel fuel' : Nat} {stack : List SourceFile} {ls : List ZipEntry}
    (hle : fuel ≤ fuel') (h : zipLoop root fuel stack = .ok ls) :
    zipLoop root fuel' stack = .ok ls := by
  induction fuel generalizing fuel' stack ls with
  | zero => cases h
  | succ fuel ih =>
      obtain ⟨fuel', rfl⟩ : ∃ k, fuel' = k + 1 := ⟨fuel' - 1, by omega⟩
      have hle' : fuel ≤ fuel' := by omega
      rw [zipLoop] at h ⊢
      cases hlast : stack.getLast? with
      | none => rwa [hlast] at h
      | some f =>
          rw [hlast] at h
          dsimp only at h ⊢
          obtain ⟨name, hname, h⟩ := except_bind_eq_ok.1 h
          refine except_bind_eq_ok.2 ⟨name, hname, ?_⟩
          cases htree : f.tree with
          | leaf content =>
              rw [htree] at h
              obtain ⟨ls', hloop, hls⟩ := except_bind_eq_ok.1 h
              exact except_bind_eq_ok.2 ⟨ls', ih hle' hloop, hls⟩
          | node children =>
              rw [htree] at h
              exact ih hle' h

/-- **The archive has one entry for each regular file, and no other.** -/
theorem zip_perm (src : Source) (includeSrc : Bool) :
    ∃ ls : List (List Text × Content), zip src.file includeSrc = .ok (ls.map entryOf) ∧
      ls.Perm (regularFiles src includeSrc) := by
  rw [zip, startOf, regularFiles, Source.names_file, Source.tree_file, List.dropLast_concat]
  have hroot : Below (src.parent ++ [src.name]) src.file [] :=
    ⟨(List.append_nil _).symm, by simp, src.tree_distinct⟩
  have hparent : Below src.parent src.file [src.name] :=
    ⟨rfl, by simpa using src.name_legal, src.tree_distinct⟩
  by_cases hfiles : src.tree.isNode ∧ includeSrc = false
  · -- the files of the directory are the first on the stack
    rw [if_pos hfiles, if_pos hfiles]
    cases htree : src.tree with
    | leaf content => exact absurd hfiles.1 (by simp [htree, LabelledTree.isNode])
    | node children =>
        have hsize := size_listFiles_lt src.file
        rw [Source.tree_file, htree] at hsize
        obtain ⟨ls, hloop, hperm⟩ :=
          zipLoop_perm (allBelow_listFiles hroot) (Nat.lt_succ_of_lt hsize)
        rw [filesBelow_listFiles hroot htree, hroot.names, List.drop_left, Source.tree_file, htree]
          at hperm
        exact ⟨ls, hloop, hperm⟩
  · -- the file itself is
    rw [if_neg hfiles, if_neg hfiles]
    have hstack : AllBelow src.parent [src.file] := by
      intro f hf
      rw [List.mem_singleton] at hf
      exact ⟨[src.name], by simp, hf ▸ hparent⟩
    obtain ⟨ls, hloop, hperm⟩ :=
      zipLoop_perm hstack (show _ < src.tree.size + 1 by simp)
    rw [filesBelow, List.flatMap_singleton, Source.names_file, List.drop_left] at hperm
    exact ⟨ls, hloop, hperm⟩

/-- The names of a regular file are file names, and there is one. -/
theorem legal_of_mem_regularFiles {src : Source} {includeSrc : Bool} {l : List Text × Content}
    (h : l ∈ regularFiles src includeSrc) : l.1 ≠ [] ∧ ∀ n ∈ l.1, FileName n := by
  unfold regularFiles at h
  by_cases hfiles : src.tree.isNode ∧ includeSrc = false
  · rw [if_pos hfiles] at h
    have hdistinct := src.tree_distinct
    cases htree : src.tree with
    | leaf content => exact absurd hfiles.1 (by simp [htree, LabelledTree.isNode])
    | node children =>
        rw [htree, LabelledTree.leaves] at h
        rw [htree, LabelledTree.Distinct] at hdistinct
        obtain ⟨n, r, -, heq, hlegal⟩ := LabelledTree.way_of_mem_leavesOfAll hdistinct h
        rw [heq]
        exact ⟨by simp, hlegal⟩
  · rw [if_neg hfiles] at h
    obtain ⟨r, heq, hlegal⟩ := LabelledTree.way_of_mem_leaves src.tree_distinct h
    rw [heq]
    refine ⟨by simp, fun n hn => ?_⟩
    rcases List.mem_append.1 hn with hn | hn
    · rw [List.mem_singleton] at hn
      rw [hn]
      exact src.name_legal
    · exact hlegal n hn

/-- No two regular files have the same name in the archive. -/
theorem nodup_relativeName (src : Source) (includeSrc : Bool) :
    ((regularFiles src includeSrc).map fun l => relativeName l.1).Nodup := by
  have hways : ((regularFiles src includeSrc).map Prod.fst).Nodup :=
    LabelledTree.nodup_leaves src.tree_distinct _
  refine List.Nodup.of_map (names '/') ?_
  rw [List.map_map]
  refine (congrArg List.Nodup (List.map_congr_left fun l hl => ?_)).mpr hways
  obtain ⟨hne, hlegal⟩ := legal_of_mem_regularFiles hl
  exact names_relativeName hne hlegal

/-- **`zip` ends, and writes one entry for each regular file.** The entry
has the names of the file below the root, with a separator between them,
and its bytes. No two entries have the same name, and no name begins with
a separator. -/
theorem zip_writes_regularFiles (src : Source) (includeSrc : Bool) :
    ∃ entries, zip src.file includeSrc = .ok entries ∧
      entries.Perm ((regularFiles src includeSrc).map fun l =>
        ⟨(['/'] : Text).intercalate l.1, l.2⟩) ∧
      (entries.map ZipEntry.name).Nodup ∧ ∀ e ∈ entries, e.name.head? ≠ some '/' := by
  obtain ⟨ls, hzip, hperm⟩ := zip_perm src includeSrc
  refine ⟨_, hzip, ?_, ?_, ?_⟩
  · have hentry : (regularFiles src includeSrc).map entryOf =
        (regularFiles src includeSrc).map fun l => ⟨(['/'] : Text).intercalate l.1, l.2⟩ :=
      List.map_congr_left fun l hl => by
        rw [entryOf, relativeName_eq_intercalate (legal_of_mem_regularFiles hl).1]
    rw [← hentry]
    exact hperm.map entryOf
  · rw [List.map_map]
    exact (hperm.map _).nodup_iff.2 (nodup_relativeName src includeSrc)
  · intro e he
    obtain ⟨l, hl, rfl⟩ := List.mem_map.1 he
    obtain ⟨hne, hlegal⟩ := legal_of_mem_regularFiles (hperm.subset hl)
    exact head?_relativeName hne hlegal

end CompressionUtil

end Zooffice
