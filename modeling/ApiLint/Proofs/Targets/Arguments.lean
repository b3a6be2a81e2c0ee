import ApiLint.Proofs.Glob.Expansion
import ApiLint.Proofs.Targets.Search

/-! The files that arguments stand for. A name stands for itself, and a pattern for the files that it finds
(`StandsFor`). The files of a run are those of its arguments, each once, and come in the order of the
first argument that stands for them (`Expands`). Only a pattern that finds a name that is too long stops
the run (`Overreaches`). A named file is kept, and one whose name looks like a pattern as well if its
parts stand for themselves (`expand_names`); a name with brackets may be lost (`expand_loses`). -/
namespace ApiLint.Targets

variable {edition : Glob.Edition} {disk : Disk} {argument name : Text}
  {arguments files : List Text} {failure : Failure}

/-- A pattern finds a name. -/
structure Finds (edition : Glob.Edition) (disk : Disk) (argument name : Text) : Prop where
  pattern : Glob.isPattern argument = true
  found : ∃ names, Glob.expand edition disk argument = .ok names ∧ name ∈ names

/-- A name stands for itself, whether or not it leads to anything, and a pattern for the files that it
finds. -/
inductive StandsFor (edition : Glob.Edition) (disk : Disk) : Text → Text → Prop
  | name {name : Text} (h : Glob.isPattern name = false) : StandsFor edition disk name name
  | found {argument name : Text} {content : List UInt8} (h : Finds edition disk argument name)
      (hfile : disk.find (.ofText name) = .ok (.file content)) : StandsFor edition disk argument name

/-- A pattern finds a name that is too long for the system. -/
structure Overreaches (edition : Glob.Edition) (disk : Disk) (argument name : Text) : Prop extends
    Finds edition disk argument name where
  long : disk.find (.ofText name) = .error .nameTooLong

/-- One file comes before another: the first argument that stands for either of them stands for it, and
if it stands for both, the file has the smaller name. -/
def ComesBefore (edition : Glob.Edition) (disk : Disk) (arguments : List Text) (s t : Text) : Prop :=
  ∃ before argument after, arguments = before ++ argument :: after ∧
    (∀ other ∈ before, ¬StandsFor edition disk other s ∧ ¬StandsFor edition disk other t) ∧
    StandsFor edition disk argument s ∧ (StandsFor edition disk argument t → s.codes < t.codes)

/-- The files that some arguments stand for, each once and in order. -/
structure Expands (edition : Glob.Edition) (disk : Disk) (arguments files : List Text) : Prop where
  nodup : files.Nodup
  mem : ∀ name, name ∈ files ↔ ∃ argument ∈ arguments, StandsFor edition disk argument name
  ordered : files.Pairwise (ComesBefore edition disk arguments)

/-! ### One argument -/

theorem standsFor_of_not_isPattern (h : Glob.isPattern argument = false) :
    StandsFor edition disk argument name ↔ name = argument := by
  constructor
  · intro hstands
    cases hstands with
    | name _ => rfl
    | found hfinds _ => exact absurd (h.symm.trans hfinds.pattern) Bool.false_ne_true
  · rintro rfl
    exact .name h

theorem ofArgument_of_not_isPattern (h : Glob.isPattern argument = false) :
    ofArgument edition disk argument = .ok [argument] := by
  rw [ofArgument, h]
  rfl

/-- The names of files among those that a pattern finds, in order. -/
theorem ofArgument_of_expand {names : List Text} (h : Glob.isPattern argument = true)
    (hnames : Glob.expand edition disk argument = .ok names) : ofArgument edition disk argument =
      names.filterM (fun name => Failure.ofFile disk.isFile (.ofText name)) >>= fun files =>
        pure (Text.sorted files) := by
  rw [ofArgument, h, hnames]
  rfl

/-- A pattern that finds nothing but files gives what it finds in order. -/
theorem ofArgument_eq {names row : List Text} (h : Glob.isPattern argument = true)
    (hnames : Glob.expand edition disk argument = .ok names)
    (hfiles : names.filterM (fun name => Failure.ofFile disk.isFile (.ofText name)) = .ok names)
    (hperm : names.Perm row) (hrow : row.Pairwise fun s t => s.codes ≤ t.codes) :
    ofArgument edition disk argument = .ok row := by
  rw [ofArgument_of_expand h hnames, hfiles]
  exact congrArg Except.ok (Text.sorted_eq hperm hrow)

section Pattern
variable {names : List Text} (hpattern : Glob.isPattern argument = true)
  (hnames : Glob.expand edition disk argument = .ok names)
include hpattern hnames

theorem finds_iff : Finds edition disk argument name ↔ name ∈ names := by
  constructor
  · intro h
    obtain ⟨names', hnames', hmem⟩ := h.found
    exact Except.ok.inj (hnames'.symm.trans hnames) ▸ hmem
  · exact fun hmem => ⟨hpattern, names, hnames, hmem⟩

theorem standsFor_iff : StandsFor edition disk argument name ↔
    name ∈ names ∧ ∃ content, disk.find (.ofText name) = .ok (.file content) := by
  constructor
  · intro h
    cases h with
    | name h => exact absurd (h.symm.trans hpattern) Bool.false_ne_true
    | found h hfile => exact ⟨(finds_iff hpattern hnames).mp h, _, hfile⟩
  · intro hgiven
    obtain ⟨hmem, content, hfile⟩ := hgiven
    exact .found ((finds_iff hpattern hnames).mpr hmem) hfile

theorem overreaches_iff : Overreaches edition disk argument name ↔
    name ∈ names ∧ disk.find (.ofText name) = .error .nameTooLong := by
  constructor
  · exact fun h => ⟨(finds_iff hpattern hnames).mp h.toFinds, h.long⟩
  · exact fun h => ⟨(finds_iff hpattern hnames).mpr h.1, h.2⟩

end Pattern

section Argument
variable (hroot : disk.root.IsNamed) (hargument : FileFault.ofName? argument = none)

/-- The files that one argument stands for, in order. -/
structure Lists (edition : Glob.Edition) (disk : Disk) (argument : Text) (files : List Text) : Prop where
  mem : ∀ name, name ∈ files ↔ StandsFor edition disk argument name
  ordered : files.Pairwise fun s t => s.codes ≤ t.codes

theorem not_overreaches (h : Glob.isPattern argument = false) (name : Text) :
    ¬Overreaches edition disk argument name :=
  fun hover => absurd (h.symm.trans hover.pattern) Bool.false_ne_true

include hroot hargument

theorem exists_ofArgument (h : ∀ name, ¬Overreaches edition disk argument name) :
    ∃ files, ofArgument edition disk argument = .ok files := by
  by_cases hpattern : Glob.isPattern argument = true
  · obtain ⟨names, hnames⟩ := Glob.exists_expand hroot hargument
    rw [ofArgument_of_expand hpattern hnames]
    refine ⟨_, Except.bind_eq_ok.mpr ⟨_, Except.filterM_eq_ok.mpr ⟨fun name hname => ?_, rfl⟩, rfl⟩⟩
    refine exists_ofFile_isFile.mpr fun hlong => h name ?_
    exact (overreaches_iff hpattern hnames).mpr ⟨hname, hlong⟩
  · exact ⟨_, ofArgument_of_not_isPattern (Bool.eq_false_iff.mpr hpattern)⟩

/-- An argument that is expanded finds no name that is too long, and lists what it stands for. -/
theorem lists_of_ofArgument (h : ofArgument edition disk argument = .ok files) :
    (∀ name, ¬Overreaches edition disk argument name) ∧ Lists edition disk argument files := by
  by_cases hpattern : Glob.isPattern argument = true
  · obtain ⟨names, hnames⟩ := Glob.exists_expand hroot hargument
    rw [ofArgument_of_expand hpattern hnames] at h
    obtain ⟨kept, hkept, h⟩ := Except.bind_eq_ok.mp h
    obtain rfl := Except.ok.inj h
    obtain ⟨hall, rfl⟩ := Except.filterM_eq_ok.mp hkept
    refine ⟨fun name hover => ?_, fun name => ?_, Text.sorted_pairwise _⟩
    · obtain ⟨hmem, hlong⟩ := (overreaches_iff hpattern hnames).mp hover
      exact exists_ofFile_isFile.mp (hall name hmem) hlong
    · have hholds : (Failure.ofFile disk.isFile (.ofText name)).holds id = true ↔
          Failure.ofFile disk.isFile (.ofText name) = .ok true := by
        cases Failure.ofFile disk.isFile (.ofText name) <;> simp [Except.holds]
      rw [(Text.sorted_perm _).mem_iff, List.mem_filter, hholds, ofFile_isFile_eq_true,
        standsFor_iff hpattern hnames]
  · have hplain := Bool.eq_false_iff.mpr hpattern
    rw [ofArgument_of_not_isPattern hplain] at h
    obtain rfl := Except.ok.inj h
    refine ⟨not_overreaches hplain, fun name => ?_, List.pairwise_singleton _ _⟩
    rw [standsFor_of_not_isPattern hplain, List.mem_singleton]

/-- Expanding an argument fails only by a name that is too long. -/
theorem overreaches_of_ofArgument (h : ofArgument edition disk argument = .error failure) :
    ∃ name, Overreaches edition disk argument name ∧
      failure = .file .nameTooLong (Path.ofText name).text := by
  by_cases hpattern : Glob.isPattern argument = true
  · obtain ⟨names, hnames⟩ := Glob.exists_expand hroot hargument
    rw [ofArgument_of_expand hpattern hnames, Except.bind_eq_error, Except.filterM_eq_error] at h
    obtain ⟨before, name, after, rfl, -, hname⟩ | ⟨kept, -, h⟩ := h
    · obtain ⟨hlong, rfl⟩ := ofFile_isFile_eq_error.mp hname
      refine ⟨name, (overreaches_iff hpattern hnames).mpr ⟨?_, hlong⟩, rfl⟩
      exact List.mem_append_right _ List.mem_cons_self
    · cases h
  · rw [ofArgument_of_not_isPattern (Bool.eq_false_iff.mpr hpattern)] at h
    cases h

end Argument

/-! ### All arguments -/

/-- The rows of several arguments, each file once, hold the files that the arguments stand for. -/
theorem expands_unique {rows : List (List Text)}
    (h : List.Forall₂ (Lists edition disk) arguments rows) :
    Expands edition disk arguments (Text.unique rows.flatten) := by
  refine ⟨Text.unique_nodup _, fun name => ?_, ?_⟩
  · rw [Text.mem_unique, List.mem_flatten]
    constructor
    · intro hgiven
      obtain ⟨row, hrow, hname⟩ := hgiven
      obtain ⟨argument, hargument, hlists⟩ := List.exists_mem_of_forall₂ h hrow
      exact ⟨argument, hargument, (hlists.mem name).mp hname⟩
    · intro hgiven
      obtain ⟨argument, hargument, hstands⟩ := hgiven
      obtain ⟨row, hrow, hlists⟩ := List.exists_mem_of_forall₂ h.flip hargument
      exact ⟨row, hrow, (Lists.mem hlists name).mpr hstands⟩
  · induction h with
    | nil => exact List.Pairwise.nil
    | @cons argument row arguments rows hlists _ ih =>
      have hfirst : ∀ s t, s ∈ row → (t ∈ row → s.codes < t.codes) →
          ComesBefore edition disk (argument :: arguments) s t := fun s t hs ht =>
        ⟨[], argument, arguments, rfl, List.forall_mem_nil _, (hlists.mem s).mp hs,
          fun hstands => ht ((hlists.mem t).mpr hstands)⟩
      rw [List.flatten_cons, Text.unique_append]
      refine List.pairwise_append.mpr ⟨?_, ?_, fun s hs t ht => ?_⟩
      · -- In the row of one argument the order is that of the names, and no name comes twice.
        have hordered := hlists.ordered.sublist (Text.unique_sublist row)
        refine ((Text.unique_nodup row).and hordered).imp_of_mem fun {s t} hs _ hst => ?_
        exact hfirst s t (Text.mem_unique.mp hs) fun _ =>
          lt_of_le_of_ne hst.2 fun heq => hst.1 (Text.codes_injective heq)
      · refine (ih.sublist List.filter_sublist).imp_of_mem fun {s t} hs ht hst => ?_
        have hnew : ∀ name ∈ (Text.unique rows.flatten).filter (· ∉ row),
            ¬StandsFor edition disk argument name := fun name hname hstands =>
          of_decide_eq_true (List.mem_filter.mp hname).2 ((hlists.mem name).mpr hstands)
        obtain ⟨before, other, after, rfl, hbefore, hother⟩ := hst
        exact ⟨argument :: before, other, after, rfl,
          List.forall_mem_cons.mpr ⟨⟨hnew s hs, hnew t ht⟩, hbefore⟩, hother⟩
      · have hnew : t ∉ row := of_decide_eq_true (List.mem_filter.mp ht).2
        exact hfirst s t (Text.mem_unique.mp hs) fun hmem => absurd hmem hnew

section Arguments
variable (hroot : disk.root.IsNamed)
  (harguments : ∀ argument ∈ arguments, FileFault.ofName? argument = none)
include hroot harguments

theorem exists_expand (h : ∀ argument ∈ arguments, ∀ name, ¬Overreaches edition disk argument name) :
    ∃ files, expand disk arguments edition = .ok files := by
  have hrow : ∀ argument ∈ arguments, ∃ files, ofArgument edition disk argument = .ok files ∧ True :=
    fun argument hargument =>
      (exists_ofArgument hroot (harguments argument hargument) (h argument hargument)).imp
        fun files hfiles => ⟨hfiles, trivial⟩
  obtain ⟨rows, hrows, -⟩ := Except.exists_mapM_eq_ok hrow
  exact ⟨_, Except.bind_eq_ok.mpr ⟨rows, hrows, rfl⟩⟩

/-- Arguments that are expanded list what they stand for. -/
theorem expands_of_expand (h : expand disk arguments edition = .ok files) :
    (∀ argument ∈ arguments, ∀ name, ¬Overreaches edition disk argument name) ∧
      Expands edition disk arguments files := by
  obtain ⟨rows, hrows, h⟩ := Except.bind_eq_ok.mp h
  obtain rfl := Except.ok.inj h
  have hrow := Except.mapM_eq_ok.mp hrows
  constructor
  · intro argument hargument
    obtain ⟨row, -, hrow⟩ := List.exists_mem_of_forall₂ hrow.flip hargument
    exact (lists_of_ofArgument hroot (harguments argument hargument) hrow).1
  · exact expands_unique (((List.forall₂_and_left arguments rows).mpr ⟨harguments, hrow⟩).imp
      fun argument row h => (lists_of_ofArgument hroot h.1 h.2).2)

theorem overreaches_of_expand (h : expand disk arguments edition = .error failure) :
    ∃ argument ∈ arguments, ∃ name, Overreaches edition disk argument name ∧
      failure = .file .nameTooLong (Path.ofText name).text := by
  obtain h | ⟨rows, -, h⟩ := Except.bind_eq_error.mp h
  · obtain ⟨before, argument, after, rfl, -, h⟩ := Except.mapM_eq_error.mp h
    have hargument : argument ∈ before ++ argument :: after :=
      List.mem_append_right _ List.mem_cons_self
    exact ⟨argument, hargument,
      overreaches_of_ofArgument hroot (harguments argument hargument) h⟩
  · cases h

end Arguments

/-- A file whose own name is an argument: no pattern, or a pattern that the name fits part by part. -/
theorem standsFor_self {content : List UInt8} (hroot : disk.root.IsNamed)
    (hargument : FileFault.ofName? argument = none) (hown : Glob.IsOwn argument)
    (hfile : disk.find (.ofText argument) = .ok (.file content)) :
    StandsFor edition disk argument argument := by
  by_cases hpattern : Glob.isPattern argument = true
  · obtain ⟨names, hnames⟩ := Glob.exists_expand hroot hargument
    exact .found ⟨hpattern, names, hnames, Glob.mem_expand_self hown hfile hnames⟩ hfile
  · exact .name (Bool.eq_false_iff.mpr hpattern)

/-- **The files of some arguments**, each once, come in the order of the first argument that stands for
them, and no name is lost that is no pattern or that stands for itself. Only a name that a pattern finds
and that is too long stops the run. All of this holds in either edition of the patterns. -/
theorem expand_names (hroot : disk.root.IsNamed)
    (harguments : ∀ argument ∈ arguments, FileFault.ofName? argument = none) :
    ((∃ files, expand disk arguments edition = .ok files) ↔
      ∀ argument ∈ arguments, ∀ name, ¬Overreaches edition disk argument name) ∧
    (∀ failure, expand disk arguments edition = .error failure → ∃ argument ∈ arguments, ∃ name,
      Overreaches edition disk argument name ∧ failure = .file .nameTooLong (Path.ofText name).text) ∧
    ∀ files, expand disk arguments edition = .ok files → Expands edition disk arguments files ∧
      ∀ argument ∈ arguments, Glob.isPattern argument = false ∨
        (Glob.IsOwn argument ∧ ∃ content, disk.find (.ofText argument) = .ok (.file content)) →
          argument ∈ files := by
  refine ⟨⟨fun hgiven => ?_, exists_expand hroot harguments⟩,
    fun failure => overreaches_of_expand hroot harguments, fun files h => ?_⟩
  · obtain ⟨files, h⟩ := hgiven
    exact (expands_of_expand hroot harguments h).1
  · obtain ⟨-, hexpands⟩ := expands_of_expand hroot harguments h
    refine ⟨hexpands, fun argument hargument hkept => ?_⟩
    refine (hexpands.mem argument).mpr ⟨argument, hargument, ?_⟩
    obtain hplain | ⟨hown, content, hfile⟩ := hkept
    · exact .name hplain
    · exact standsFor_self hroot (harguments argument hargument) hown hfile

/-- The entries of a directory in which the name of one file looks like a pattern. -/
def starred : List (Text × Tree) :=
  [("b.yaml", .file []), ("?.yaml", .file []), ("a.yaml", .file []), ("c.txt", .file [])]

theorem isNamed_starred : (diskOf starred).root.IsNamed := by
  refine .directory (by decide) (by decide) ?_
  simp only [List.forall_mem_singleton]
  refine .directory (by decide) (by decide) ?_
  simp [starred, Tree.IsNamed.file]

/-- A missing file, a file, a pattern that is the name of a file, and one that finds all of them. -/
def starredNames : List Text := ["gone", "d/b.yaml", "d/?.yaml", "d/*"]

/-- A name that leads nowhere is kept, and one that looks like a pattern is found by it. -/
theorem expand_names_sample : ∃ files, expand (diskOf starred) starredNames .strict = .ok files ∧
    files = [.ofString "gone", .ofString "d/b.yaml", .ofString "d/?.yaml", .ofString "d/a.yaml",
      .ofString "d/c.txt"] ∧
    Expands .strict (diskOf starred) starredNames files ∧ Text.ofString "d/?.yaml" ∈ files := by
  have hsign : ofArgument .strict (diskOf starred) "d/?.yaml" =
      .ok ["d/?.yaml", "d/a.yaml", "d/b.yaml"] :=
    @ofArgument_eq .strict _ _ ["d/b.yaml", "d/?.yaml", "d/a.yaml"] _ (by decide)
      (Except.eq_ok_of_holds (by decide +kernel)) (Except.eq_ok_of_holds (by decide +kernel))
      (by decide +kernel) (by decide +kernel)
  have hrun : ofArgument .strict (diskOf starred) "d/*" =
      .ok ["d/?.yaml", "d/a.yaml", "d/b.yaml", "d/c.txt"] :=
    @ofArgument_eq .strict _ _ ["d/b.yaml", "d/?.yaml", "d/a.yaml", "d/c.txt"] _ (by decide)
      (Except.eq_ok_of_holds (by decide +kernel)) (Except.eq_ok_of_holds (by decide +kernel))
      (by decide +kernel) (by decide +kernel)
  have hrows : starredNames.mapM (ofArgument .strict (diskOf starred)) = .ok [["gone"], ["d/b.yaml"],
      ["d/?.yaml", "d/a.yaml", "d/b.yaml"], ["d/?.yaml", "d/a.yaml", "d/b.yaml", "d/c.txt"]] :=
    Except.mapM_eq_ok.mpr (.cons (ofArgument_of_not_isPattern (by decide))
      (.cons (ofArgument_of_not_isPattern (by decide)) (.cons hsign (.cons hrun .nil))))
  have hfiles : expand (diskOf starred) starredNames .strict = .ok [.ofString "gone",
      .ofString "d/b.yaml", .ofString "d/?.yaml", .ofString "d/a.yaml", .ofString "d/c.txt"] := by
    rw [expand, hrows]
    exact congrArg Except.ok (by decide +kernel)
  have hdirectory : Glob.IsSpelled "d" := .part (by decide) (by decide)
  have hown : Glob.IsOwn "d/?.yaml" :=
    .of_not_mem (.inside hdirectory (by decide) (by decide)) (by decide) (by decide) (by decide)
  have hknown : ∀ argument ∈ starredNames, FileFault.ofName? argument = none := by decide
  obtain ⟨-, -, hkept⟩ := expand_names isNamed_starred hknown
  obtain ⟨hexpands, hnamed⟩ := hkept _ hfiles
  exact ⟨_, hfiles, rfl, hexpands,
    hnamed _ (by decide) (.inr ⟨hown, [], by rfl⟩)⟩

/-- A disk with a file in whose name brackets stand around a digit. -/
def bracketed : Disk := ⟨.directory [("a[1].yaml", .file [])], ⟨1, []⟩⟩

/-- Once more out of the directory and into it. -/
theorem winding_succ (count : Nat) : (windingRoot (count + 1)).text =
    (windingRoot count).text ++ Glob.slash :: Text.ofString ".." ++
      Glob.slash :: Text.ofString "d" := by
  have hjoined : ∀ n, (windingRoot n).text = Text.joined "/" (windingRoot n).parts := fun n => by
    rw [Path.text, if_neg fun h => List.cons_ne_nil _ _ h.2]
    rfl
  have hparts : (windingRoot (count + 1)).parts =
      (windingRoot count).parts ++ [Text.ofString ".."] ++ [Text.ofString "d"] := by
    simp [windingRoot, List.replicate_succ']
  rw [hjoined, hjoined, hparts, Text.joined_append_singleton, Text.joined_append_singleton]
  · exact List.cons_ne_nil _ _
  · exact List.append_ne_nil_of_right_ne_nil _ (List.cons_ne_nil _ _)

/-- The text of a winding name is one of parts, leads where the name leads, and is no pattern. -/
theorem winding_text (count : Nat) : Glob.IsSpelled (windingRoot count).text ∧
    Path.ofText (windingRoot count).text = windingRoot count ∧
      Glob.isPattern (windingRoot count).text = false := by
  induction count with
  | zero => exact ⟨.part (by decide) (by decide), by decide, by decide⟩
  | succ count ih =>
    obtain ⟨hspelled, hpath, hpattern⟩ := ih
    have hdots : Glob.IsSpelled ((windingRoot count).text ++ Glob.slash :: Text.ofString "..") :=
      .inside hspelled (by decide) (by decide)
    rw [winding_succ]
    refine ⟨.inside hdots (by decide) (by decide), ?_, ?_⟩
    · rw [Glob.ofText_inside hdots (by decide) (by decide),
        Glob.ofText_inside hspelled (by decide) (by decide), hpath, windingRoot, windingRoot,
        List.replicate_succ', List.flatten_append]
      simp [Glob.added]
    · rw [Glob.isPattern, List.any_append, List.any_append, ← Glob.isPattern, hpattern]
      rfl

section Winding
variable {count : Nat} (hroot : (diskOf shallow).find (windingRoot count) = .ok (.directory shallow))

theorem isPattern_winding (count : Nat) :
    Glob.isPattern ((windingRoot count).text ++ Glob.slash :: Text.ofString "*.yaml") = true := by
  rw [Glob.isPattern, List.any_append]
  exact Bool.or_true _

include hroot

/-- A pattern behind a winding name finds what is in the directory that the name leads to. -/
theorem mem_expand_winding {names : List Text} (h : Glob.expand edition (diskOf shallow)
      ((windingRoot count).text ++ Glob.slash :: Text.ofString "*.yaml") = .ok names) :
    (windingRoot count).text ++ Glob.slash :: Text.ofString "a.yaml" ∈ names := by
  obtain ⟨hspelled, hpath, hpattern⟩ := winding_text count
  have hlisting : Glob.listing (diskOf shallow) (windingRoot count).text =
      .ok (.directory shallow) := by
    have hgiven : (windingRoot count).text.isEmpty = false :=
      List.isEmpty_eq_false_iff.mpr hspelled.ne_nil
    have hshort := (Disk.find_eq_ok.mp hroot).2.1
    refine (Glob.listing_of_find ?_).1
    rw [hgiven, if_neg Bool.false_ne_true]
    exact Glob.find_eq_ok.mpr ⟨hpath.symm ▸ hroot, hspelled.ne_nil, hshort, fun _ => rfl⟩
  rw [Glob.expand, Glob.expandFrom_inside (Glob.splitLast_inside hspelled (by decide))
    (isPattern_winding count) hspelled.ne_nil, Glob.directoriesOf, hpattern,
    if_neg Bool.false_ne_true] at h
  obtain ⟨directories, hdirectories, h⟩ := Except.bind_eq_ok.mp h
  obtain rfl := Except.ok.inj hdirectories
  rw [← Glob.joined_inside hspelled]
  refine Glob.mem_foundIn (List.mem_singleton_self _) (fun there hthere => ?_) h
  rw [Glob.matchesIn, if_neg (by decide), if_pos (by decide), hlisting] at hthere
  rw [← Except.ok.inj hthere]
  decide

/-- The name of a file behind the winding name is too long, though the directory's own is not. -/
theorem find_winding_long (hlong : nameLimit ≤
      (Text.bytes ((windingRoot count).join ⟨0, [Text.ofString "a.yaml"]⟩).text).length) :
    (diskOf shallow).find
        (.ofText ((windingRoot count).text ++ Glob.slash :: Text.ofString "a.yaml")) =
      .error .nameTooLong := by
  obtain ⟨hspelled, hpath, -⟩ := winding_text count
  have hbelow : Path.ofText ((windingRoot count).text ++ Glob.slash :: Text.ofString "a.yaml") =
      (windingRoot count).join ⟨0, [Text.ofString "a.yaml"]⟩ := by
    rw [Glob.ofText_inside hspelled (by decide) (by decide), hpath]
    rfl
  rw [hbelow, Disk.find_below hroot isNamed_shallow
    (.down (by decide) (by decide) rfl (.here _)) (List.cons_ne_nil _ _), if_pos hlong]

end Winding

/-- **A named file is lost** when brackets in its name make it a pattern that does not find it, and a
pattern that finds a name that is too long stops the run. -/
theorem expand_loses :
    (∃ content, bracketed.find (.ofText "a[1].yaml") = .ok (.file content) ∧
      ∀ edition, expand bracketed ["a[1].yaml"] edition = .ok []) ∧
    ∀ edition files, expand (diskOf shallow)
      [(windingRoot 818).text ++ Glob.slash :: Text.ofString "*.yaml"] edition ≠ .ok files := by
  refine ⟨⟨[], by rfl, fun edition => ?_⟩, fun edition files h => ?_⟩
  · cases edition <;> exact Except.eq_ok_of_holds (by decide +kernel)
  have hroot : (diskOf shallow).root.IsNamed := by
    refine .directory (by decide) (by decide) ?_
    simp [isNamed_shallow]
  have hknown : FileFault.ofName?
      ((windingRoot 818).text ++ Glob.slash :: Text.ofString "*.yaml") = none := by
    decide +kernel
  have hlong : nameLimit ≤
      (Text.bytes ((windingRoot 818).join ⟨0, [Text.ofString "a.yaml"]⟩).text).length := by
    decide +kernel
  obtain ⟨names, hnames⟩ := Glob.exists_expand hroot hknown
  have hfinds : Finds edition (diskOf shallow) _ _ :=
    ⟨isPattern_winding 818, names, hnames, mem_expand_winding (find_windingRoot _) hnames⟩
  exact (expands_of_expand hroot (List.forall_mem_singleton.mpr hknown) h).1 _
    (List.mem_singleton_self _) _ ⟨hfinds, find_winding_long (find_windingRoot _) hlong⟩

end ApiLint.Targets
