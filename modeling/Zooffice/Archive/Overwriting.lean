import Zooffice.Archive.Disk
import Zooffice.Archive.Model.ZipFile
import Zooffice.Archive.Zip
/-!
# Whether zipping leaves the source as it is

The archive is opened, and so emptied, before anything is read. It is the
one file that a call of `zip` changes (`sameBut_zipInto`). So the source
keeps what it has exactly when the archive is not a file of the source:
not the source itself, as for a `.zip` that is zipped into its own
directory, and no file below it.

Over the disk the loop does what it does over the tree that the disk has
(`run_zipFiles`), so it ends, whether it reads its own archive or not.
-/


namespace Zooffice

namespace CompressionUtil

variable {q : ZipCall} {d d' : Disk} {p root f : List Text}

/-! ## What a call changes -/

/-- The disks have the same but at the location. -/
def SameBut (p : List Text) (d d' : Disk) : Prop := ∀ l, l ≠ p → d' l = d l

instance (p : List Text) : Std.Refl (SameBut p) := ⟨fun _ _ _ => rfl⟩

instance (p : List Text) : IsTrans Disk (SameBut p) :=
  ⟨fun _ _ _ h h' l hl => (h' l hl).trans (h l hl)⟩

theorem keeps_flush (p : List Text) (content : Content) : Eff.Keeps (SameBut p) (flush p content) :=
  fun d _ hl => d.put_of_ne _ hl

/-- The loop writes its archive, and nothing else. -/
theorem keeps_zipFiles (q : ZipCall) (p root : List Text) (rounds : Nat)
    (stack : List (List Text)) (entries : List ZipEntry) :
    Eff.Keeps (SameBut p) (zipFiles q p root rounds stack entries) := by
  induction rounds generalizing stack entries with
  | zero => exact Eff.keeps_throw _
  | succ rounds ih =>
      rw [zipFiles]
      split
      · exact Eff.keeps_pure _
      · refine Eff.keeps_bind Eff.keeps_get fun d => ?_
        refine Eff.keeps_bind (Eff.keeps_ofExcept _) fun name => ?_
        split
        · exact ih _ _
        · exact Eff.keeps_bind (keeps_flush p _) fun _ => ih _ _
        · exact Eff.keeps_throw _

theorem keeps_zipTo (q : ZipCall) (p : List Text) (rounds : Nat) :
    Eff.Keeps (SameBut p) (zipTo rounds q p) :=
  Eff.keeps_bind Eff.keeps_get fun _ =>
    Eff.keeps_bind (keeps_zipFiles q p _ rounds _ _) fun _ => keeps_flush p _

theorem run_openFile {z : TargetFile} (h : z.opens d = .ok p) :
    (openFile z).run d = (.ok p, d.put p (.file [])) := by
  rw [openFile, Eff.run_get_bind, h]
  rfl

theorem run_openFile_of_error {z : TargetFile} {e : Throwable} (h : z.opens d = .error e) :
    (openFile z).run d = (.error e, d) := by
  rw [openFile, Eff.run_get_bind, h]
  rfl

/-- **A call goes on with its archive emptied**, where it can be opened. -/
theorem run_zipInto (hd : d.WellFormed) (rounds : Nat) (h : (zippedFileOf q d).opens d = .ok p) :
    (zipInto rounds q).run d = (zipTo rounds q p).run (d.put p (.file [])) := by
  obtain ⟨d', hcreate, hagain, hput⟩ := TargetFile.exists_run_createNewFile hd h
  rw [zipInto, Eff.run_get_bind, Eff.run_bind_of_ok hcreate,
    Eff.run_bind_of_ok (run_openFile hagain), hput]

theorem run_zipInto_of_error {e : Throwable} (rounds : Nat)
    (h : (zippedFileOf q d).opens d = .error e) : (zipInto rounds q).run d = (.error e, d) := by
  rw [zipInto, Eff.run_get_bind]
  exact TargetFile.run_createNewFile_bind_of_error h
    (Eff.run_bind_of_error (run_openFile_of_error h))

/-- **A call changes nothing but what it opens.** -/
theorem sameBut_zipInto (hd : d.WellFormed) (rounds : Nat) (q : ZipCall) {l : List Text}
    (hl : (zippedFileOf q d).opens d ≠ .ok l) : ((zipInto rounds q).run d).2 l = d l := by
  cases h : (zippedFileOf q d).opens d with
  | error e => rw [run_zipInto_of_error rounds h]
  | ok p =>
      have hne : l ≠ p := fun heq => hl (heq ▸ h)
      rw [run_zipInto hd rounds h, keeps_zipTo q p rounds _ l hne, d.put_of_ne _ hne]

/-! ## The loop over the disk -/

/-- The disk has the tree at the location, up to what is in the file at
`p`, and lists the children of each directory as they stand in it. -/
inductive Holds (listing : Listing) (d : Disk) (p : List Text) : List Text → FileTree → Prop
  | leaf {f : List Text} {content : Content} :
      (f ≠ p → d f = some (.file content)) → (f = p → ∃ c, d f = some (.file c)) →
      Holds listing d p f (.leaf content)
  | node {f : List Text} {children : List (Text × FileTree)} :
      d f = some .directory → listing.names d f = children.map Prod.fst →
      (∀ c ∈ children, Holds listing d p (f ++ [c.1]) c.2) →
      Holds listing d p f (.node children)

/-- What the archive holds does not matter. -/
theorem Holds.put {listing : Listing} {t : FileTree} (h : Holds listing d p f t) {c : Content}
    (hp : d p = some (.file c)) (content : Content) :
    Holds listing (d.put p (.file content)) p f t := by
  induction h with
  | leaf hother hsame =>
      refine .leaf (fun hne => ?_) fun heq => ⟨content, ?_⟩
      · rw [d.put_of_ne _ hne, hother hne]
      · rw [heq, d.put_self]
  | @node f children hdir hnames _ ih =>
      have hne : f ≠ p := by
        rintro rfl
        rw [hp] at hdir
        cases hdir
      refine .node (by rw [d.put_of_ne _ hne, hdir]) ?_ ih
      rw [← hnames]
      refine listing.congr _ _ f fun n => ?_
      by_cases hn : f ++ [n] = p
      · rw [hn, d.put_self, hp]
        rfl
      · rw [d.put_of_ne _ hn]

/-- It tells a directory from a file. -/
theorem Holds.isDirectory_iff {listing : Listing} {t : FileTree} (h : Holds listing d p f t) :
    d f = some .directory ↔ t.isNode = true := by
  cases h with
  | leaf hother hsame =>
      refine iff_of_false (fun hdir => ?_) (by simp [LabelledTree.isNode])
      by_cases hf : f = p
      · obtain ⟨c, hc⟩ := hsame hf
        rw [hc] at hdir
        cases hdir
      · rw [hother hf] at hdir
        cases hdir
  | node hdir => exact iff_of_true hdir rfl

/-- The names that `toPath` gives are those of the tree. -/
theorem toPath_fileOn {listing : Listing} {g : SourceFile}
    (h : Holds listing d p g.names g.tree) : toPath root (fileOn d g.names) = toPath root g := by
  have hnode : (fileOn d g.names).tree.isNode = g.tree.isNode := by
    rw [fileOn]
    split
    next hdir => exact (h.isDirectory_iff.1 hdir).symm
    next hfile => exact (Bool.eq_false_iff.2 fun htree => hfile (h.isDirectory_iff.2 htree)).symm
  rw [toPath, toPath, hnode]
  rfl

/-- The stack of the loop over the disk is that of the loop over the tree. -/
theorem stackChildrenOn_map {listing : Listing} {stack fs : List SourceFile}
    (hfs : ∀ g ∈ fs, Holds listing d p g.names g.tree) :
    stackChildrenOn d (stack.map SourceFile.names) (fs.map SourceFile.names) =
      (stackChildren stack fs).map SourceFile.names := by
  induction fs generalizing stack with
  | nil => rfl
  | cons g fs ih =>
      have hg := (hfs g List.mem_cons_self).isDirectory_iff
      have hrest : ∀ h ∈ fs, Holds listing d p h.names h.tree :=
        fun h hh => hfs h (List.mem_cons_of_mem _ hh)
      rw [List.map_cons, stackChildrenOn, List.foldl_cons, stackChildren, List.foldl_cons]
      by_cases hnode : g.tree.isNode = true
      · rw [if_pos (hg.2 hnode), if_pos hnode, ← List.map_singleton, ← List.map_append]
        exact ih hrest
      · rw [if_neg (mt hg.1 hnode), if_neg hnode, ← List.map_cons]
        exact ih hrest

theorem Holds.listFiles {listing : Listing} {g : SourceFile}
    (h : Holds listing d p g.names g.tree) :
    ∀ c ∈ listFiles g, Holds listing d p c.names c.tree := by
  obtain ⟨names, tree⟩ := g
  intro c hc
  cases h with
  | leaf => exact absurd hc (by simp [CompressionUtil.listFiles])
  | node _ _ hchildren =>
      obtain ⟨child, hchild, rfl⟩ := List.mem_map.1 hc
      exact hchildren child hchild

/-- What a file has is below it. -/
theorem prefix_of_mem_listFiles {g c : SourceFile} (hc : c ∈ listFiles g) :
    g.names <+: c.names := by
  rw [listFiles] at hc
  split at hc
  · exact absurd hc (by simp)
  · obtain ⟨child, -, rfl⟩ := List.mem_map.1 hc
    exact List.prefix_append _ _

/-- The files of a directory on the disk are those of its tree. -/
theorem childrenOn_eq {g : SourceFile} (h : Holds q.listing d p g.names g.tree)
    (hnode : g.tree.isNode = true) :
    childrenOn q d g.names = (listFiles g).map SourceFile.names := by
  obtain ⟨names, tree⟩ := g
  cases h with
  | leaf => exact absurd hnode (by simp [LabelledTree.isNode])
  | node _ hnames _ =>
      rw [childrenOn, hnames, listFiles, List.map_map, List.map_map]
      rfl

/-- What is read of a regular file: the archive itself is read as it is at
the moment. -/
theorem Holds.exists_read {listing : Listing} {content c : Content}
    (h : Holds listing d p f (.leaf content)) (hp : d p = some (.file c)) :
    ∃ read, d f = some (.file read) ∧ (f ≠ p → read = content) := by
  cases h with
  | leaf hother hself =>
      by_cases hf : f = p
      · exact ⟨c, hf ▸ hp, fun hne => absurd hf hne⟩
      · exact ⟨content, hother hf, fun _ => rfl⟩

/-- A round with a directory on top. -/
theorem run_zipFiles_directory {rounds : Nat} {stack : List (List Text)} {entries : List ZipEntry}
    {name : Text} (hname : toPath root (fileOn d f) = .ok name) (hdir : d f = some .directory) :
    (zipFiles q p root (rounds + 1) (stack ++ [f]) entries).run d =
      (zipFiles q p root rounds (stackChildrenOn d stack (childrenOn q d f)) entries).run d := by
  rw [zipFiles, List.getLast?_concat, List.dropLast_concat]
  dsimp only
  rw [Eff.run_get_bind, hname, Eff.run_ofExcept_bind]
  dsimp only
  rw [hdir]

/-- A round with a regular file on top. -/
theorem run_zipFiles_file {rounds : Nat} {stack : List (List Text)} {entries : List ZipEntry}
    {name : Text} {content : Content} (hname : toPath root (fileOn d f) = .ok name)
    (hfile : d f = some (.file content)) :
    (zipFiles q p root (rounds + 1) (stack ++ [f]) entries).run d =
      (zipFiles q p root rounds stack (entries ++ [⟨name, content⟩])).run
        (d.put p (.file (q.stream.written (entries ++ [⟨name, content⟩])))) := by
  rw [zipFiles, List.getLast?_concat, List.dropLast_concat]
  dsimp only
  rw [Eff.run_get_bind, hname, Eff.run_ofExcept_bind]
  dsimp only
  rw [hfile]
  rfl

/-- **The loop over the disk does what the loop over its tree does**, with
the file at `p` for its archive. The entries are the same when none of the
files is that archive or has it below. -/
theorem run_zipFiles {rounds : Nat} {stack : List SourceFile} {ls : List ZipEntry}
    (entries : List ZipEntry) (hp : ∃ c, d p = some (.file c))
    (hstack : ∀ g ∈ stack, Holds q.listing d p g.names g.tree)
    (hloop : zipLoop root rounds stack = .ok ls) :
    ∃ es d', (zipFiles q p root rounds (stack.map SourceFile.names) entries).run d =
        (.ok (entries ++ es), d') ∧
      ((∀ g ∈ stack, ¬ g.names <+: p) → es = ls) := by
  induction rounds generalizing stack entries ls d with
  | zero => cases hloop
  | succ rounds ih =>
      rcases List.eq_nil_or_concat' stack with rfl | ⟨stack, g, rfl⟩
      · exact ⟨[], d, by rw [List.append_nil]; rfl, fun _ => Except.ok.inj hloop⟩
      · have hg := hstack g (by simp)
        have hrest : ∀ h ∈ stack, Holds q.listing d p h.names h.tree :=
          fun h hh => hstack h (List.mem_append_left _ hh)
        rw [zipLoop, List.getLast?_concat, List.dropLast_concat] at hloop
        dsimp only at hloop
        obtain ⟨name, hname, hloop⟩ := except_bind_eq_ok.1 hloop
        rw [← toPath_fileOn hg] at hname
        rw [List.map_append, List.map_singleton]
        obtain ⟨c, hc⟩ := hp
        cases htree : g.tree with
        | leaf content =>
            rw [htree] at hg hloop
            obtain ⟨ls', hloop, hls⟩ := except_bind_eq_ok.1 hloop
            obtain ⟨read, hread, hsame⟩ := hg.exists_read hc
            rw [run_zipFiles_file hname hread]
            obtain ⟨es, d', hrun, hes⟩ := ih _ ⟨_, d.put_self p _⟩
              (fun h hh => (hrest h hh).put hc _) hloop
            refine ⟨⟨name, read⟩ :: es, d', ?_, fun hout => ?_⟩
            · rw [hrun, List.append_assoc]
              rfl
            · have hgp : g.names ≠ p := fun heq => hout g (by simp) (heq ▸ List.prefix_refl _)
              rw [hsame hgp, hes fun h hh => hout h (List.mem_append_left _ hh)]
              exact Except.ok.inj hls
        | node children =>
            have hdir := hg.isDirectory_iff.2 (by rw [htree]; rfl)
            have hchildren := hg.listFiles
            rw [htree] at hloop
            rw [run_zipFiles_directory hname hdir, childrenOn_eq hg (by rw [htree]; rfl),
              stackChildrenOn_map hchildren]
            have hperm := stackChildren_perm stack (listFiles g)
            obtain ⟨es, d', hrun, hes⟩ := ih entries ⟨c, hc⟩
              (fun h hh => (List.mem_append.1 (hperm.subset hh)).elim (hrest h) (hchildren h)) hloop
            refine ⟨es, d', hrun, fun hout => hes fun h hh => ?_⟩
            rcases List.mem_append.1 (hperm.subset hh) with hh | hh
            · exact hout h (List.mem_append_left _ hh)
            · -- what is below a file that is not above the archive is not above it
              exact fun hpre => hout g (by simp) ((prefix_of_mem_listFiles hh).trans hpre)

/-! ## A whole call -/

/-- The disk has the tree at the location. -/
def Has (listing : Listing) (d : Disk) (f : List Text) (t : FileTree) : Prop :=
  ∀ p, Holds listing d p f t

/-- The loop over the disk starts as the loop over the tree does. -/
theorem startOn_eq {src : Source} (hsrc : q.src = src.file.names) (hparent : q.parent = src.parent)
    (h : Holds q.listing d p src.file.names src.tree) :
    startOn q d = ((startOf src.file q.includeSrc).1,
      (startOf src.file q.includeSrc).2.map SourceFile.names) := by
  have hdir := h.isDirectory_iff
  rw [startOn, startOf, Source.tree_file, hsrc]
  by_cases hfiles : src.tree.isNode = true ∧ q.includeSrc = false
  · rw [if_pos ⟨hdir.2 hfiles.1, hfiles.2⟩, if_pos hfiles]
    exact congrArg _ (childrenOn_eq (g := src.file) h hfiles.1)
  · rw [if_neg fun hd => hfiles ⟨hdir.1 hd.1, hd.2⟩, if_neg hfiles, hparent, Source.names_file,
      List.dropLast_concat]
    rfl

/-- What the loop over the tree starts with. -/
theorem of_mem_startOf {src : Source} {includeSrc : Bool} {g : SourceFile}
    (hg : g ∈ (startOf src.file includeSrc).2) :
    g = src.file ∨ g ∈ listFiles src.file := by
  rw [startOf] at hg
  split at hg
  · exact .inr hg
  · exact .inl (List.mem_singleton.1 hg)

/-- **What follows the opening of the archive returns**, and leaves in it
what the stream puts there. That is the archive of the tree, when the
archive is not a file of the tree. -/
theorem run_zipTo {src : Source} {rounds : Nat} (hsrc : q.src = src.file.names)
    (hparent : q.parent = src.parent) (hrounds : src.tree.size < rounds)
    (hp : ∃ c, d p = some (.file c)) (h : Holds q.listing d p src.file.names src.tree) :
    ∃ es d', (zipTo rounds q p).run d = (.ok ⟨⟩, d') ∧
      d' p = some (.file (q.stream.closed es)) ∧
      (¬ src.file.names <+: p → zip src.file q.includeSrc = .ok es) := by
  obtain ⟨ls, hzip, -⟩ := zip_perm src q.includeSrc
  have hloop := zipLoop_of_le hrounds hzip
  have hstack : ∀ g ∈ (startOf src.file q.includeSrc).2, Holds q.listing d p g.names g.tree := by
    intro g hg
    rcases of_mem_startOf hg with rfl | hg
    · exact h
    · exact Holds.listFiles (g := src.file) h g hg
  obtain ⟨es, d', hrun, hes⟩ := run_zipFiles (q := q) [] hp hstack hloop
  refine ⟨es, d'.put p (.file (q.stream.closed es)), ?_, Disk.put_self _ _ _, fun hout => ?_⟩
  · rw [zipTo, Eff.run_get_bind, startOn_eq hsrc hparent h]
    exact Eff.run_bind_of_ok hrun
  · rw [hzip, hes fun g hg hpre => hout ?_]
    rcases of_mem_startOf hg with rfl | hg
    · exact hpre
    · exact (prefix_of_mem_listFiles hg).trans hpre

end CompressionUtil

/-- A file or directory with a parent, and the disk that has it. -/
structure StoredSource where
  src : Source
  disk : Disk
  listing : Listing
  wellFormed : disk.WellFormed
  has : CompressionUtil.Has listing disk src.file.names src.tree

namespace StoredSource

open CompressionUtil

variable {s : StoredSource} {destDir : TargetFile} {includeSrc : Bool} {stream : ArchiveStream}

/-- The call that zips it into a directory. -/
def call (s : StoredSource) (destDir : TargetFile) (includeSrc : Bool) (stream : ArchiveStream) :
    ZipCall :=
  ⟨s.src.parent, s.src.name, destDir, includeSrc, s.listing, stream⟩

/-- The file of its archive. -/
def zippedFile (s : StoredSource) (destDir : TargetFile) : TargetFile :=
  ⟨destDir.directory,
    destDir.names ++ [archiveName (s.disk s.src.file.names = some .directory) s.src.name]⟩

theorem zippedFileOf_call : zippedFileOf (s.call destDir includeSrc stream) s.disk =
    s.zippedFile destDir := rfl

/-- Every regular file at the location, or below it, has what it had. -/
def KeepsFiles (l : List Text) (d d' : Disk) : Prop :=
  ∀ f content, l <+: f → d f = some (.file content) → d' f = some (.file content)

/-- Zipping it leaves it and every file below it as they are, whatever
bytes the stream puts in the archive. -/
def Survives (s : StoredSource) (destDir : TargetFile) (includeSrc : Bool) : Prop :=
  ∀ stream rounds, s.src.tree.size < rounds →
    KeepsFiles s.src.file.names s.disk
      ((zipInto rounds (s.call destDir includeSrc stream)).run s.disk).2

/-- The path of the archive leads to a regular file that is the source or
below it. -/
def HasArchive (s : StoredSource) (destDir : TargetFile) : Prop :=
  ∃ p content,
    s.disk.locate (s.zippedFile destDir).directory (s.zippedFile destDir).names = some p ∧
      s.src.file.names <+: p ∧ s.disk p = some (.file content)

/-- **A file of the source that the archive is opened in has what the
stream puts there in the end.** -/
theorem run_zipInto_of_file (includeSrc : Bool) (stream : ArchiveStream) {p : List Text}
    {content : Content} {rounds : Nat} (hrounds : s.src.tree.size < rounds)
    (hopens : (s.zippedFile destDir).opens s.disk = .ok p)
    (hp : s.disk p = some (.file content)) :
    ∃ es, ((zipInto rounds (s.call destDir includeSrc stream)).run s.disk).2 p =
      some (.file (stream.closed es)) := by
  obtain ⟨es, d', hrun, hclosed, -⟩ :=
    run_zipTo (q := s.call destDir includeSrc stream) rfl rfl hrounds ⟨[], Disk.put_self _ _ _⟩
      ((s.has p).put hp [])
  refine ⟨es, ?_⟩
  rw [run_zipInto s.wellFormed rounds (by rw [zippedFileOf_call]; exact hopens), hrun]
  exact hclosed

/-- **Zipping leaves the source as it is exactly when the archive is not
one of its files.** -/
theorem survives_iff (s : StoredSource) (destDir : TargetFile) (includeSrc : Bool) :
    s.Survives destDir includeSrc ↔ ¬ s.HasArchive destDir := by
  refine ⟨?_, fun hnot stream rounds _ f content hf hfile => ?_⟩
  · rintro hsurvives ⟨p, content, hlocate, hpre, hp⟩
    have hopens : (s.zippedFile destDir).opens s.disk = .ok p := by
      rw [TargetFile.opens, hlocate]
      dsimp only
      rw [hp]
    -- a stream that closes the archive with one byte more than was in the file
    obtain ⟨es, hclosed⟩ := run_zipInto_of_file includeSrc
      ⟨fun _ => [], fun _ => 0 :: content⟩ (Nat.lt_succ_self _) hopens hp
    have hkept := hsurvives ⟨fun _ => [], fun _ => 0 :: content⟩ _ (Nat.lt_succ_self _) p content
      hpre hp
    rw [hclosed, Option.some.injEq, DiskItem.file.injEq] at hkept
    exact List.cons_ne_self 0 content hkept
  · rw [sameBut_zipInto s.wellFormed rounds, hfile]
    intro hopens
    exact hnot ⟨f, content, (TargetFile.of_opens s.wellFormed hopens).1, hf, hfile⟩

/-- The disk of a file `data.zip` of three bytes, in a directory `work`. -/
def workDisk : Disk := fun p =>
  if p = [] ∨ p = ["work".toList] then some .directory
  else if p = ["work".toList, "data.zip".toList] then some (.file [1, 2, 3])
  else none

theorem wellFormed_workDisk : workDisk.WellFormed := by
  refine ⟨rfl, fun p hp => ?_⟩
  by_cases hdir : p = [] ∨ p = ["work".toList]
  · rcases hdir with rfl | rfl <;> decide
  · by_cases hfile : p = ["work".toList, "data.zip".toList]
    · rw [hfile]
      decide
    · exact absurd (by rw [workDisk, if_neg hdir, if_neg hfile]) hp

/-- That file as a source. -/
def dataZip : StoredSource where
  src :=
    { parent := ["work".toList]
      name := "data.zip".toList
      tree := .leaf [1, 2, 3]
      name_legal := ⟨by decide, by decide, by decide, by decide⟩
      tree_distinct := trivial }
  disk := workDisk
  listing := ⟨fun _ _ => [], fun _ _ _ _ => rfl⟩
  wellFormed := wellFormed_workDisk
  has := fun _ => .leaf (fun _ => by decide) fun _ => ⟨[1, 2, 3], by decide⟩

/-- **It does not survive**: zipped into its own directory it is its own
archive, with a stream that stores what it is given and ends with the four
bytes of an end record. -/
theorem not_survives_dataZip : ¬ dataZip.Survives ⟨["work".toList], []⟩ true := by
  intro hsurvives
  have hkept := hsurvives
    ⟨fun es => es.flatMap ZipEntry.content, fun es => es.flatMap ZipEntry.content ++ [80, 75, 5, 6]⟩
    2 (by decide) ["work".toList, "data.zip".toList] [1, 2, 3] (List.prefix_refl _) (by decide)
  exact absurd hkept (by decide)

end StoredSource

end Zooffice
