import ApiLint.Proofs.Config.Loading
import ApiLint.Proofs.Tree
import Mathlib.Algebra.Order.BigOperators.Group.List
import Mathlib.Algebra.Order.Group.Nat

/-! Which file the search for a configuration comes to. The candidates have an order: those of the
directory where the search starts, then those of the one around it, and so on (`searched_eq`). The
first of them that is a file and not passed over decides, whatever else there is on the disk
(`firstOf_congr`), and only a file of others that has no section is passed over
(`ofFile_eq_ok_none`). Only a name that is too long ends the search before (`discover_decides`). -/
namespace ApiLint.Config

variable {disk disk' : Disk} {start : Option Path} {directory p q : Path} {v key : Value}

/-! ### The order of the candidates -/

theorem upwards_child (directory : Path) (part : Text) :
    upwards (directory.child part) = directory.child part :: upwards directory := by
  have hlength : (directory.child part).parts.length = directory.parts.length + 1 := by
    simp [Path.child]
  rw [upwards, upwards, hlength, List.range_succ, List.reverse_append, List.reverse_singleton,
    List.singleton_append, List.map_cons]
  congr 1
  · rw [← hlength, List.take_length]
  · refine List.map_congr_left fun n hn => congrArg (Path.mk directory.slashes) ?_
    rw [List.mem_reverse, List.mem_range] at hn
    exact List.take_append_of_le_length (Nat.le_of_lt_succ hn)

/-- A directory is the first one of all, or it stands in another one. -/
theorem exists_child (directory : Path) :
    directory.parts = [] ∨ ∃ around part, directory = Path.child around part := by
  obtain ⟨slashes, parts⟩ := directory
  obtain rfl | ⟨front, last, rfl⟩ := List.eq_nil_or_concat' parts
  · exact .inl rfl
  · exact .inr ⟨⟨slashes, front⟩, last, rfl⟩

/-- After a directory come those from its parent on; the last one is its own parent. -/
theorem upwards_eq (directory : Path) :
    upwards directory =
      directory :: if directory.parent = directory then [] else upwards directory.parent := by
  obtain hroot | ⟨around, part, rfl⟩ := exists_child directory
  · have hparent : directory.parent = directory := by
      rw [Path.parent, hroot, List.dropLast_nil, ← hroot]
    rw [if_pos hparent, upwards, hroot]
    exact congrArg ([·]) (congrArg (Path.mk directory.slashes) hroot.symm)
  · have hne : around ≠ around.child part := by
      intro h
      simpa [Path.child] using congrArg (fun d => d.parts.length) h
    rw [upwards_child, Path.parent_child, if_neg hne]

theorem searched_eq (directory : Path) :
    searched directory = candidates.map directory.child ++
      if directory.parent = directory then [] else searched directory.parent := by
  rw [searched, upwards_eq, List.flatMap_cons]
  split <;> rfl

theorem mem_searched : p ∈ searched directory ↔
    ∃ n ≤ directory.parts.length, ∃ name ∈ candidates,
      p = { directory with parts := directory.parts.take n ++ [name] } := by
  simp only [searched, upwards, List.mem_flatMap, List.mem_map, List.mem_reverse, List.mem_range,
    Nat.lt_succ_iff, Path.child]
  constructor
  · rintro ⟨_, ⟨n, hn, rfl⟩, name, hname, rfl⟩
    exact ⟨n, hn, name, hname, rfl⟩
  · rintro ⟨n, hn, name, hname, rfl⟩
    exact ⟨_, ⟨n, hn, rfl⟩, name, hname, rfl⟩

/-! ### What is passed over -/

/-- A mapping that has nothing under a key, or null. -/
def Lacks (v key : Value) : Prop :=
  ∃ entries, v.opened = .map entries ∧ (Entries.find? key entries).getD .null = .null

/-- A file of others that can be read and has no section for a configuration. -/
inductive Sectionless (disk : Disk) (p : Path) : Prop
  /-- The description of a package is no mapping. -/
  | value {v : Value} (hname : p.name = "package.json") (hread : readJson disk p = .ok v)
      (hvalue : ∀ entries, v ≠ .map entries)
  /-- The description of a package has no section. -/
  | package {entries : Entries} (hname : p.name = "package.json")
      (hread : readJson disk p = .ok (.map entries)) (hlacks : Lacks (.map entries) sectionKey)
  /-- The description of a project has no tools. -/
  | toolless {table : Value} (hname : p.name = "pyproject.toml")
      (hread : readToml disk p = .ok table) (htool : table.get? "tool" = none)
  /-- The description of a project has other tools. -/
  | tools {table tools : Value} (hname : p.name = "pyproject.toml")
      (hread : readToml disk p = .ok table) (htool : table.get? "tool" = some tools)
      (hlacks : Lacks tools sectionKey)

/-- A section counts as missing if its key is missing or null. -/
theorem sectionOf_eq_ok_none (hkey : key.isKey = true) :
    sectionOf v key = .ok none ↔ Lacks v key := by
  have hfilter : ∀ found : Option Value,
      found.filter (fun v => !v.same .null) = none ↔ found.getD .null = .null := by
    intro found
    cases found with
    | none => simp only [Option.filter_none, Option.getD_none]
    | some w => simp [Option.filter_some, Value.same_null]
  rw [sectionOf, Value.lookup, Lacks]
  cases hopened : v.opened with
  | map entries => simp [hkey, hfilter]
  | _ => simp

theorem wholeFile_ne_none (v : Value) : wholeFile v ≠ none := by
  rw [wholeFile.eq_def]
  split <;> exact Option.some_ne_none _

/-- **Only a file of others without a section is passed over.** -/
theorem ofFile_eq_ok_none : ofFile disk p = .ok none ↔ Sectionless disk p := by
  constructor
  · intro h
    rw [ofFile] at h
    split at h
    · next hname =>
      obtain ⟨v, hread, h⟩ := Except.bind_eq_ok.mp h
      split at h
      · exact .package hname hread ((sectionOf_eq_ok_none rfl).mp h)
      · next hvalue => exact .value hname hread hvalue
    · split at h
      · next hname =>
        obtain ⟨table, hread, h⟩ := Except.bind_eq_ok.mp h
        have hlacks := (sectionOf_eq_ok_none rfl).mp h
        cases htool : table.get? "tool" with
        | none => exact .toolless hname hread htool
        | some tools =>
          rw [htool, Option.getD_some] at hlacks
          exact .tools hname hread htool hlacks
      · split at h
        · obtain ⟨table, -, h⟩ := Except.bind_eq_ok.mp h
          cases h
        · split at h
          · obtain ⟨v, -, h⟩ := Except.bind_eq_ok.mp h
            exact absurd (Except.ok.inj h) (wholeFile_ne_none v)
          · obtain ⟨v, -, h⟩ := Except.bind_eq_ok.mp h
            exact absurd (Except.ok.inj h) (wholeFile_ne_none v)
  · intro h
    have hapart : (Text.ofString "pyproject.toml") ≠ "package.json" := by decide
    cases h with
    | @value v hname hread hvalue =>
      rw [ofFile, if_pos hname, hread]
      cases v <;> first | rfl | exact absurd rfl (hvalue _)
    | package hname hread hlacks =>
      rw [ofFile, if_pos hname, hread]
      exact (sectionOf_eq_ok_none rfl).mpr hlacks
    | toolless hname hread htool =>
      rw [ofFile, if_neg (hname ▸ hapart), if_pos hname, hread]
      show sectionOf _ _ = _
      rw [htool]
      rfl
    | tools hname hread htool hlacks =>
      rw [ofFile, if_neg (hname ▸ hapart), if_pos hname, hread]
      show sectionOf _ _ = _
      rw [htool]
      exact (sectionOf_eq_ok_none rfl).mpr hlacks

/-! ### Names that are too long -/

/-- A directory from which on no candidate has a name that is too long: its own have none, and none of
the directories on the way has one. -/
structure Fits (directory : Path) : Prop where
  parts : ∀ part ∈ directory.parts, (Text.bytes part).length ≤ partLimit
  names : ∀ name ∈ candidates, (Text.bytes (directory.child name).text).length < nameLimit

/-- The candidates further up have shorter names. -/
theorem length_bytes_text_le {n : Nat} (name : Text) :
    (Text.bytes (Path.text ⟨directory.slashes, directory.parts.take n ++ [name]⟩)).length ≤
      (Text.bytes (directory.child name).text).length := by
  have hup := Path.length_bytes_text (p := ⟨directory.slashes, directory.parts.take n ++ [name]⟩)
    (List.append_ne_nil_of_right_ne_nil _ (List.cons_ne_nil name []))
  have hown := Path.length_bytes_text (p := directory.child name)
    (List.append_ne_nil_of_right_ne_nil _ (List.cons_ne_nil name []))
  have hsum : ((directory.parts.take n).map fun t => (Text.bytes t).length + 1).sum ≤
      (directory.parts.map fun t => (Text.bytes t).length + 1).sum :=
    ((List.take_sublist n directory.parts).map _).sum_le_sum fun _ _ => Nat.zero_le _
  simp only [Path.child, List.map_append, List.sum_append] at hup hown ⊢
  omega

/-- No candidate has too long a name when the candidates in the directory itself fit: those further up
are shorter. -/
theorem Fits.isFile_ne (h : Fits directory) (habsolute : directory.isAbsolute = true)
    (hp : p ∈ searched directory) : disk.isFile p ≠ .error .nameTooLong := by
  obtain ⟨n, -, name, hname, rfl⟩ := mem_searched.mp hp
  have hcandidates : ∀ name ∈ candidates, (Text.bytes name).length ≤ partLimit := by decide
  intro hfile
  obtain hlong | ⟨part, hpart, hlong⟩ := Disk.long_of_isFile hfile
  · exact absurd (h.names name hname) (Nat.not_lt.mpr (hlong.trans (length_bytes_text_le name)))
  · have hfull : disk.fullParts ⟨directory.slashes, directory.parts.take n ++ [name]⟩ =
        directory.parts.take n ++ [name] := Disk.fullParts_of_isAbsolute habsolute
    rw [hfull] at hpart
    obtain hpart | hpart := List.mem_append.mp hpart
    · exact absurd hlong (Nat.not_lt.mpr (h.parts part (List.mem_of_mem_take hpart)))
    · obtain rfl := List.mem_singleton.mp hpart
      exact absurd hlong (Nat.not_lt.mpr (hcandidates _ hname))

/-! ### Where the search comes to -/

section Row
variable {paths : List Path}

/-- The search along a row of candidates comes to one: those before it are passed over. -/
def Reaches (disk : Disk) (paths : List Path) (p : Path) : Prop :=
  ∃ before after, paths = before ++ p :: after ∧ ∀ q ∈ before, Skipped disk q

theorem Reaches.head (paths : List Path) : Reaches disk (p :: paths) p :=
  ⟨[], paths, rfl, List.forall_mem_nil _⟩

theorem Reaches.cons (hq : Skipped disk q) (h : Reaches disk paths p) :
    Reaches disk (q :: paths) p := by
  obtain ⟨before, after, rfl, hskipped⟩ := h
  exact ⟨q :: before, after, rfl, List.forall_mem_cons.mpr ⟨hq, hskipped⟩⟩

theorem Reaches.mem (h : Reaches disk paths p) : p ∈ paths := by
  obtain ⟨before, after, rfl, -⟩ := h
  exact List.mem_append_right before List.mem_cons_self

/-- Unless all candidates are passed over, the search comes to one that is not. -/
theorem exists_reached (h : ¬∀ p ∈ paths, Skipped disk p) :
    ∃ p, Reaches disk paths p ∧ ¬Skipped disk p := by
  induction paths with
  | nil => exact absurd (List.forall_mem_nil _) h
  | cons q paths ih =>
    by_cases hq : Skipped disk q
    · have hrest : ¬∀ p ∈ paths, Skipped disk p :=
        fun hall => h (List.forall_mem_cons.mpr ⟨hq, hall⟩)
      obtain ⟨p, hreaches, hp⟩ := ih hrest
      exact ⟨p, hreaches.cons hq, hp⟩
    · exact ⟨q, .head paths, hq⟩

theorem firstOf_of_skipped (h : ∀ p ∈ paths, Skipped disk p) : firstOf disk paths = .ok none := by
  have happend : firstOf disk (paths ++ []) = firstOf disk [] := firstOf_append h
  rwa [List.append_nil] at happend

/-- A candidate with a name that is too long ends the search. -/
theorem Reaches.firstOf_eq_error (h : Reaches disk paths p)
    (hfile : disk.isFile p = .error .nameTooLong) :
    firstOf disk paths = .error (.file .nameTooLong p.text) := by
  obtain ⟨before, after, rfl, hskipped⟩ := h
  rw [firstOf_append hskipped, firstOf, Failure.ofFile, hfile]
  rfl

theorem ofFile_congr (h : disk'.read p = disk.read p) : ofFile disk' p = ofFile disk p := by
  simp only [ofFile, readJson, readToml, readYaml, Document.readText, Failure.ofFile, h]

/-- **What the search does not come to does not matter**: where another disk has the same files under
the names that it comes to, the search along the row ends as before. -/
theorem firstOf_congr (h : ∀ p, Reaches disk paths p → disk.SameFile disk' p) :
    firstOf disk' paths = firstOf disk paths := by
  induction paths with
  | nil => rfl
  | cons p paths ih =>
    have hp := h p (.head paths)
    rw [firstOf, firstOf, Failure.ofFile, Failure.ofFile, hp.isFile]
    cases hfile : disk.isFile p with
    | error fault => rfl
    | ok there =>
      cases there with
      | false => exact ih fun q hq => h q (hq.cons (.inl hfile))
      | true =>
        show (ofFile disk' p >>= _) = (ofFile disk p >>= _)
        rw [ofFile_congr (hp.read hfile)]
        cases hcontent : ofFile disk p with
        | error e => rfl
        | ok found =>
          cases found with
          | some v => rfl
          | none => exact ih fun q hq => h q (hq.cons (.inr ⟨hfile, hcontent⟩))

end Row

/-! ### The search -/

/-- Another tree matters only under the names that the search comes to. -/
theorem discover_congr (hstart : disk.canonical (start.getD ⟨0, []⟩) = .ok directory) {root : Tree}
    (h : ∀ p, Reaches disk (searched directory) p → disk.SameFile { disk with root } p) :
    discover { disk with root } start = discover disk start := by
  have hstart' : Disk.canonical { disk with root } (start.getD ⟨0, []⟩) = .ok directory := hstart
  rw [discover_eq hstart, discover_eq hstart', firstOf_congr h]

/-- The candidates have full names without pairs of dots. -/
theorem searched_plain (hstart : disk.canonical q = .ok directory) (hp : p ∈ searched directory) :
    p.slashes = 1 ∧ Text.ofString ".." ∉ p.parts := by
  have hcandidates : Text.ofString ".." ∉ candidates := by decide
  obtain ⟨hslashes, hclean⟩ := Disk.canonical_plain hstart
  obtain ⟨n, -, name, hname, rfl⟩ := mem_searched.mp hp
  refine ⟨hslashes, fun hdots => ?_⟩
  obtain hdots | hdots := List.mem_append.mp hdots
  · exact hclean (List.mem_of_mem_take hdots)
  · exact hcandidates (List.mem_singleton.mp hdots ▸ hname)

/-- A new file that is no candidate changes nothing. -/
theorem discover_write (hstart : disk.canonical (start.getD ⟨0, []⟩) = .ok directory) {around : Path}
    {name : Text} (hfull : around.slashes = 1) (haround : Text.ofString ".." ∉ around.parts)
    (hname : name ≠ "..") (haccepts : disk.Accepts (around.child name))
    (hother : around.child name ∉ searched directory) (content : List UInt8) :
    discover (disk.write (around.child name) content) start = discover disk start := by
  refine discover_congr hstart fun p hp => ?_
  obtain ⟨hslashes, hdots⟩ := searched_plain hstart hp.mem
  refine Disk.sameFile_write (Path.isAbsolute_of_slashes hfull) haround hname haccepts content
    (Path.isAbsolute_of_slashes hslashes) hdots fun hparts => ?_
  have heq : p = around.child name := by
    obtain ⟨slashes, parts⟩ := p
    obtain rfl := hparts
    obtain rfl := hslashes
    rw [Path.child, hfull]
  exact hother (heq ▸ hp.mem)

/-- How the search for a configuration goes from a directory on. -/
structure Searches (disk : Disk) (start : Option Path) (directory : Path) : Prop where
  /-- The candidates of a directory come first, and then those from its parent on, up to the directory
  that is its own parent. -/
  order : ∀ d, searched d = candidates.map d.child ++ if d.parent = d then [] else searched d.parent
  /-- A file is passed over when it belongs to others and has no section. -/
  passes : ∀ p, ofFile disk p = .ok none ↔ Sectionless disk p
  /-- The nearest file decides: what it says is found, with its name, or why it cannot be read. -/
  decides : ∀ p, Nearest disk start p →
    discover disk start = (ofFile disk p).map (Option.map (p, ·))
  /-- Where all candidates are passed over nothing is found. -/
  nothing : (∀ p ∈ searched directory, Skipped disk p) → discover disk start = .ok none
  /-- There is a nearest file, or all candidates are passed over, or the search ends at a name that is
  too long. -/
  ends : (∃ p, Nearest disk start p) ∨ (∀ p ∈ searched directory, Skipped disk p) ∨
    ∃ p, Reaches disk (searched directory) p ∧ disk.isFile p = .error .nameTooLong ∧
      discover disk start = .error (.file .nameTooLong p.text)
  /-- No name is too long unless that of the directory nearly is. -/
  fits : Fits directory → ∀ p ∈ searched directory, disk.isFile p ≠ .error .nameTooLong
  /-- Nothing matters but the files under the names that the search comes to. -/
  frame : ∀ root, (∀ p, Reaches disk (searched directory) p → disk.SameFile { disk with root } p) →
    discover { disk with root } start = discover disk start
  /-- A file that is added under the name of no candidate changes nothing. -/
  writes : ∀ (around : Path) (name : Text) (content : List UInt8), around.slashes = 1 →
    Text.ofString ".." ∉ around.parts → name ≠ ".." → disk.Accepts (around.child name) →
    around.child name ∉ searched directory →
    discover (disk.write (around.child name) content) start = discover disk start

/-- **The nearest configuration is found.** The search goes through the candidates in their order and
comes to an end: the first one that is a file and not passed over decides, or nothing is found, or a
name is too long for the system. No other file matters. -/
theorem discover_decides (hstart : disk.canonical (start.getD ⟨0, []⟩) = .ok directory) :
    Searches disk start directory where
  order := searched_eq
  passes _ := ofFile_eq_ok_none
  decides _ h := h.discover_eq
  nothing h := by rw [discover_eq hstart, firstOf_of_skipped h]
  ends := by
    by_cases hall : ∀ p ∈ searched directory, Skipped disk p
    · exact .inr (.inl hall)
    · obtain ⟨p, hreaches, hp⟩ := exists_reached hall
      cases hfile : disk.isFile p with
      | error fault =>
        obtain rfl := Disk.eq_nameTooLong_of_isFile hfile
        exact .inr (.inr ⟨p, hreaches, hfile,
          (discover_eq hstart).trans (hreaches.firstOf_eq_error hfile)⟩)
      | ok there =>
        cases there with
        | false => exact absurd (.inl hfile) hp
        | true =>
          obtain ⟨before, after, hsearched, hskipped⟩ := hreaches
          exact .inl ⟨p, hstart, hsearched, hskipped, hfile,
            fun hcontent => hp (.inr ⟨hfile, hcontent⟩)⟩
  fits h _ hp := h.isFile_ne (Path.isAbsolute_of_slashes (Disk.canonical_plain hstart).1) hp
  frame _ h := discover_congr hstart h
  writes _ _ content hfull haround hname haccepts hother :=
    discover_write hstart hfull haround hname haccepts hother content

/-- A directory that is empty, and around it a package of others and a configuration. -/
def nestedDisk : Disk :=
  ⟨.directory [("a", .directory []), ("package.json", .file (Text.bytes "[]")),
    (".pvarc.json", .file (Text.bytes "\x7b\x7d"))], ⟨1, ["a"]⟩⟩

/-- The configuration is not in the directory itself, but further up, behind a package of others. -/
theorem discover_decides_sample :
    nestedDisk.canonical ⟨0, []⟩ = .ok ⟨1, ["a"]⟩ ∧
      discover nestedDisk none = .ok (some (⟨1, [".pvarc.json"]⟩, .map [])) := by
  have hstart : nestedDisk.canonical ⟨0, []⟩ = .ok ⟨1, ["a"]⟩ := rfl
  have hskipped : ∀ q ∈ candidates.map (Path.child ⟨1, ["a"]⟩) ++
      [⟨1, ["package.json"]⟩, ⟨1, [".pvarc"]⟩], Skipped nestedDisk q := by
    have hinside : ∀ q ∈ candidates.map (Path.child ⟨1, ["a"]⟩), nestedDisk.isFile q = .ok false := by
      decide
    refine List.forall_mem_append.mpr ⟨fun q hq => .inl (hinside q hq), ?_⟩
    exact List.forall_mem_cons.mpr ⟨.inr ⟨rfl, rfl⟩,
      List.forall_mem_singleton.mpr (.inl rfl)⟩
  have hcontent : ofFile nestedDisk ⟨1, [".pvarc.json"]⟩ = .ok (some (.map [])) := rfl
  have hnearest : Nearest nestedDisk none ⟨1, [".pvarc.json"]⟩ :=
    .intro hstart rfl hskipped rfl (by rw [hcontent]; exact nofun)
  have hsearches : Searches nestedDisk none ⟨1, ["a"]⟩ := discover_decides hstart
  refine ⟨hstart, ?_⟩
  rw [hsearches.decides _ hnearest, hcontent]
  rfl

/-- A directory with a name of 256 letters. -/
def longDirectory : Path := ⟨1, [List.replicate 256 'a']⟩

/-- A disk without that directory, and with a configuration next to where it would be. -/
def hiddenDisk : Disk := lonelyDisk ".pvarc" (Text.bytes "\x7b\x7d")

set_option maxRecDepth 4000 in
/-- **A name that is too long hides a configuration**: only one candidate is a file, and it says
something, and still the search ends at one that is not there. -/
theorem discover_stumbles :
    hiddenDisk.canonical longDirectory = .ok longDirectory ∧
      (∀ q ∈ searched longDirectory, hiddenDisk.isFile q = .ok true ↔ q = ⟨1, [".pvarc"]⟩) ∧
      (∃ v, ofFile hiddenDisk ⟨1, [".pvarc"]⟩ = .ok (some v)) ∧
      discover hiddenDisk (some longDirectory) =
        .error (.file .nameTooLong (longDirectory.child "package.json").text) := by
  have hstart : hiddenDisk.canonical longDirectory = .ok longDirectory := by decide
  have hlong : hiddenDisk.isFile (longDirectory.child "package.json") = .error .nameTooLong := by
    decide
  have hholds : (ofFile hiddenDisk ⟨1, [".pvarc"]⟩).holds Option.isSome = true := by decide
  obtain ⟨found, hcontent, hsome⟩ := Except.exists_of_holds hholds
  obtain ⟨v, rfl⟩ := Option.isSome_iff_exists.mp hsome
  have hdiscover : discover hiddenDisk (some longDirectory) =
      firstOf hiddenDisk (searched longDirectory) := discover_eq hstart
  refine ⟨hstart, by decide, ⟨v, hcontent⟩, ?_⟩
  rw [hdiscover]
  exact (Reaches.head _).firstOf_eq_error hlong

end ApiLint.Config
