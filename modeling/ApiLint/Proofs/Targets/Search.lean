import ApiLint.Proofs.Targets.Below
import ApiLint.Proofs.Targets.Selection

/-! The search of a directory. It comes to a file exactly when the file leads there through directories
that are not ignored and whose names the system can list (`mem_within`, by induction on the row of parts),
and to none twice (`nodup_within`, by induction on the tree). -/
namespace ApiLint.Targets

variable {start : Text} {es : List (Text × Tree)} {t : Tree} {parts : List Text}

/-! ### The files that are wanted -/

/-- A row of parts leads to a file, and through no ignored directory. -/
structure IsOutside (t : Tree) (parts : List Text) : Prop where
  file : ∃ content, t.Leads parts (.file content)
  outside : ∀ directory ∈ parts.dropLast, directory ∉ ignoredDirectories

/-- A row of parts leads to a file that can be linted, and through no ignored directory. -/
structure IsWanted (t : Tree) (parts : List Text) : Prop extends IsOutside t parts where
  suffix : ∃ front stem extension, parts = front ++ [stem ++ extension] ∧ stem ≠ [] ∧
    extension ∈ suffixes

/-- The system can list the directory at the end of a row of parts, and so all those on the way. `start`
is the name of the directory that the row starts from, with a slash at its end. -/
def IsListable (start : Text) (directories : List Text) : Prop :=
  directories ≠ [] → (Text.bytes (start ++ Text.joined "/" directories)).length < nameLimit

/-! ### What the search comes to -/

/-- The files of a directory, without those further below. -/
theorem mem_filesHere : parts ∈ filesHere es ↔ ∃ name content, (name, .file content) ∈ es ∧
    parts = [name] := by
  rw [filesHere, List.mem_filterMap]
  constructor
  · intro hgiven
    obtain ⟨⟨name, t⟩, hmem, h⟩ := hgiven
    cases t with
    | file content => exact ⟨name, content, hmem, (Option.some.inj h).symm⟩
    | directory inner => cases h
  · intro hgiven
    obtain ⟨name, content, hmem, rfl⟩ := hgiven
    exact ⟨(name, .file content), hmem, rfl⟩

/-- A file below comes from a directory that is not passed over. -/
theorem mem_below : parts ∈ below start es ↔ ∃ name t rest, (name, t) ∈ es ∧
    isPassedOver start name = false ∧ parts = name :: rest ∧ rest ∈ within (start ++ name ++ "/") t := by
  induction es with
  | nil =>
    refine iff_of_false nofun ?_
    intro hgiven
    obtain ⟨name, t, rest, h, -⟩ := hgiven
    cases h
  | cons e es ih =>
    obtain ⟨name, t⟩ := e
    rw [below, List.mem_append, ih]
    constructor
    · intro hgiven
      obtain h | ⟨name', t', rest, hmem, hrest⟩ := hgiven
      · obtain ⟨rest, hrest, rfl⟩ := List.mem_map.mp h
        split at hrest
        · cases hrest
        · next hpassed =>
          exact ⟨name, t, rest, List.mem_cons_self, Bool.eq_false_iff.mpr hpassed, rfl, hrest⟩
      · exact ⟨name', t', rest, List.mem_cons_of_mem _ hmem, hrest⟩
    · intro hgiven
      obtain ⟨name', t', rest, hmem, hpassed, rfl, hrest⟩ := hgiven
      obtain heq | hmem := List.mem_cons.mp hmem
      · cases heq
        rw [hpassed, if_neg Bool.false_ne_true]
        exact .inl (List.mem_map_of_mem hrest)
      · exact .inr ⟨name', t', rest, hmem, hpassed, rfl, hrest⟩

theorem nil_not_mem_within : [] ∉ within start t := by
  cases t with
  | file content => exact List.not_mem_nil
  | directory es =>
    rw [within, List.mem_append, mem_filesHere, mem_below]
    intro hgiven
    obtain ⟨name, content, -, h⟩ | ⟨name, t, rest, -, -, h, -⟩ := hgiven <;> cases h

/-- A file in a directory or below it, by the first part of its name. -/
theorem cons_mem_within {name : Text} {rest : List Text} :
    name :: rest ∈ within start (.directory es) ↔
      (∃ content, (name, .file content) ∈ es ∧ rest = []) ∨
        ∃ t, (name, t) ∈ es ∧ isPassedOver start name = false ∧
          rest ∈ within (start ++ name ++ "/") t := by
  rw [within, List.mem_append, mem_filesHere, mem_below]
  refine or_congr ?_ ?_
  · constructor
    · intro hgiven
      obtain ⟨_, content, hmem, heq⟩ := hgiven
      obtain ⟨rfl, rfl⟩ := List.cons.inj heq
      exact ⟨content, hmem, rfl⟩
    · intro hgiven
      obtain ⟨content, hmem, rfl⟩ := hgiven
      exact ⟨name, content, hmem, rfl⟩
  · constructor
    · intro hgiven
      obtain ⟨_, t, _, hmem, hpassed, heq, hrest⟩ := hgiven
      obtain ⟨rfl, rfl⟩ := List.cons.inj heq
      exact ⟨t, hmem, hpassed, hrest⟩
    · intro hgiven
      obtain ⟨t, hmem, hpassed, hrest⟩ := hgiven
      exact ⟨name, t, rest, hmem, hpassed, rfl, hrest⟩

theorem isPassedOver_eq_false {name : Text} : isPassedOver start name = false ↔
    name ∉ ignoredDirectories ∧ (Text.bytes (start ++ name)).length < nameLimit := by
  simp [isPassedOver]

theorem bytes_append (s t : Text) : Text.bytes (s ++ t) = Text.bytes s ++ Text.bytes t :=
  List.flatMap_append

/-- A directory further below can be listed only if the one it is in can be. -/
theorem isListable_cons {name : Text} {directories : List Text} :
    IsListable start (name :: directories) ↔
      (Text.bytes (start ++ name)).length < nameLimit ∧
        IsListable (start ++ name ++ "/") directories := by
  cases directories with
  | nil =>
    rw [IsListable, Text.joined, List.intercalate_singleton]
    exact ⟨fun h => ⟨h (List.cons_ne_nil _ _), fun hne => absurd rfl hne⟩, fun h _ => h.1⟩
  | cons next directories =>
    have hjoined : start ++ Text.joined "/" (name :: next :: directories) =
        start ++ name ++ "/" ++ Text.joined "/" (next :: directories) := by
      rw [Text.joined, List.intercalate_cons_cons]
      simp only [List.append_assoc]
      rfl
    rw [IsListable, IsListable, hjoined]
    constructor
    · intro h
      have hlength := h (List.cons_ne_nil _ _)
      refine ⟨?_, fun _ => hlength⟩
      rw [bytes_append, bytes_append, List.length_append, List.length_append] at hlength
      omega
    · exact fun h _ => h.2 (List.cons_ne_nil _ _)

/-- **The search comes to the files that are outside of ignored directories**, if the system can list the
directories around them. -/
theorem mem_within (hnamed : t.IsNamed) : parts ∈ within start t ↔
    parts ≠ [] ∧ IsOutside t parts ∧ IsListable start parts.dropLast := by
  induction parts generalizing start t with
  | nil => exact iff_of_false nil_not_mem_within fun h => h.1 rfl
  | cons name rest ih =>
    cases t with
    | file content =>
      refine iff_of_false List.not_mem_nil fun h => ?_
      obtain ⟨content', h⟩ := h.2.1.file
      cases h
    | directory es =>
      have htrees : ∀ e ∈ es, e.2.IsNamed := by
        cases hnamed with
        | directory _ _ htrees => exact htrees
      rw [cons_mem_within]
      constructor
      · intro hgiven
        obtain ⟨content, hmem, rfl⟩ | ⟨t, hmem, hpassed, hrest⟩ := hgiven
        · exact ⟨List.cons_ne_nil _ _,
            ⟨⟨content, hnamed.leads_cons.mpr ⟨_, hmem, .here _⟩⟩, nofun⟩, fun h => absurd rfl h⟩
        · obtain ⟨hne, ⟨⟨content, hleads⟩, houtside⟩, hlistable⟩ := (ih (htrees _ hmem)).mp hrest
          obtain ⟨hignored, hlength⟩ := isPassedOver_eq_false.mp hpassed
          refine ⟨List.cons_ne_nil _ _,
            ⟨⟨content, hnamed.leads_cons.mpr ⟨_, hmem, hleads⟩⟩, ?_⟩, ?_⟩
          · rw [List.dropLast_cons_of_ne_nil hne]
            exact List.forall_mem_cons.mpr ⟨hignored, houtside⟩
          · rw [List.dropLast_cons_of_ne_nil hne]
            exact isListable_cons.mpr ⟨hlength, hlistable⟩
      · intro hgiven
        obtain ⟨-, ⟨⟨content, hleads⟩, houtside⟩, hlistable⟩ := hgiven
        obtain ⟨t, hmem, hleads⟩ := hnamed.leads_cons.mp hleads
        by_cases hne : rest = []
        · obtain rfl := hne
          cases hleads
          exact .inl ⟨_, hmem, rfl⟩
        · rw [List.dropLast_cons_of_ne_nil hne] at houtside hlistable
          obtain ⟨hignored, houtside⟩ := List.forall_mem_cons.mp houtside
          obtain ⟨hlength, hlistable⟩ := isListable_cons.mp hlistable
          exact .inr ⟨t, hmem, isPassedOver_eq_false.mpr ⟨hignored, hlength⟩,
            (ih (htrees _ hmem)).mpr ⟨hne, ⟨⟨content, hleads⟩, houtside⟩, hlistable⟩⟩

/-! ### No file twice -/

/-- Names in a directory differ, and so do the rows for its files. -/
theorem nodup_filesHere (hdistinct : (es.map Prod.fst).Nodup) : (filesHere es).Nodup := by
  induction es with
  | nil => exact List.nodup_nil
  | cons e es ih =>
    obtain ⟨name, t⟩ := e
    obtain ⟨hname, hes⟩ := List.nodup_cons.mp hdistinct
    cases t with
    | directory inner => exact ih hes
    | file content =>
      refine List.nodup_cons.mpr ⟨fun hmem => ?_, ih hes⟩
      obtain ⟨name', content', hmem, heq⟩ := mem_filesHere.mp hmem
      cases heq
      exact hname (List.mem_map.mpr ⟨_, hmem, rfl⟩)

/-- Rows from different directories differ in their first part. -/
theorem nodup_below (hdistinct : (es.map Prod.fst).Nodup)
    (htrees : ∀ e ∈ es, ∀ start, (within start e.2).Nodup) : (below start es).Nodup := by
  induction es with
  | nil => exact List.nodup_nil
  | cons e es ih =>
    obtain ⟨name, t⟩ := e
    obtain ⟨hname, hes⟩ := List.nodup_cons.mp hdistinct
    obtain ⟨ht, hlater⟩ := List.forall_mem_cons.mp htrees
    refine List.nodup_append.mpr ⟨?_, ih hes hlater, ?_⟩
    · refine List.Nodup.map (fun _ _ h => (List.cons.inj h).2) ?_
      split
      · exact List.nodup_nil
      · exact ht _
    · intro parts hparts other hother heq
      obtain rfl := heq
      obtain ⟨rest, -, rfl⟩ := List.mem_map.mp hparts
      obtain ⟨name', t', rest', hmem, -, heq, -⟩ := mem_below.mp hother
      cases heq
      exact hname (List.mem_map.mpr ⟨_, hmem, rfl⟩)

/-- **The search comes to no file twice.** -/
theorem nodup_within (hnamed : t.IsNamed) (start : Text) : (within start t).Nodup := by
  induction hnamed generalizing start with
  | file content => exact List.nodup_nil
  | @directory es hdistinct hnames _ ih =>
    refine List.nodup_append.mpr ⟨nodup_filesHere hdistinct, nodup_below hdistinct ih, ?_⟩
    intro parts hhere other hbelow heq
    obtain rfl := heq
    obtain ⟨name, content, -, rfl⟩ := mem_filesHere.mp hhere
    obtain ⟨name', t, rest, -, -, heq, hrest⟩ := mem_below.mp hbelow
    cases heq
    exact nil_not_mem_within hrest

/-! ### What is found -/

section Found
variable {disk : Disk} {root : Path} {listing : Listing} {files : List Text}

/-- A name below a directory is short enough for the system. -/
def Fits (root : Path) (parts : List Text) : Prop :=
  (Text.bytes (root.join ⟨0, parts⟩).text).length < nameLimit

/-- A name has one of the suffixes exactly when it ends in it and has something in front. -/
theorem suffix_mem_iff : (⟨0, parts⟩ : Path).suffix ∈ suffixes ↔
    ∃ front stem extension, parts = front ++ [stem ++ extension] ∧ stem ≠ [] ∧
      extension ∈ suffixes := by
  have hsuffixes : ∀ extension ∈ suffixes, ∃ rest, extension = .char '.' :: rest ∧ rest ≠ [] ∧
      CodePoint.char '.' ∉ rest := by
    simp only [suffixes, List.forall_mem_cons]
    exact ⟨⟨_, rfl, by decide, by decide⟩, ⟨_, rfl, by decide, by decide⟩,
      ⟨_, rfl, by decide, by decide⟩, List.forall_mem_nil _⟩
  constructor
  · intro h
    have hne : (⟨0, parts⟩ : Path).suffix ≠ [] := by
      obtain ⟨rest, heq, -⟩ := hsuffixes _ h
      rw [heq]
      exact List.cons_ne_nil _ _
    obtain ⟨stem, hstem, hname⟩ := Path.exists_name_eq hne
    have hparts : parts ≠ [] := by
      rintro rfl
      exact hstem (List.append_eq_nil_iff.mp hname.symm).1
    refine ⟨parts.dropLast, stem, _, ?_, hstem, h⟩
    rw [← hname, Path.name, List.getLast?_eq_some_getLast hparts, Option.getD_some,
      List.dropLast_concat_getLast]
  · intro hgiven
    obtain ⟨front, stem, extension, rfl, hstem, hextension⟩ := hgiven
    obtain ⟨rest, rfl, hrest, hdot⟩ := hsuffixes _ hextension
    have hname : (⟨0, front ++ [stem ++ .char '.' :: rest]⟩ : Path).name =
        stem ++ .char '.' :: rest := by
      simp [Path.name]
    rw [Path.suffix_of_name hname hstem hrest hdot]
    exact hextension

theorem IsWanted.ne_nil (h : IsWanted t parts) : parts ≠ [] := by
  obtain ⟨front, stem, extension, rfl, -⟩ := h.suffix
  exact List.append_ne_nil_of_right_ne_nil _ (List.cons_ne_nil _ _)

theorem mem_searched (hnamed : t.IsNamed) : parts ∈ searched root t ↔
    parts ≠ [] ∧ IsOutside t parts ∧ IsListable (front root) parts.dropLast :=
  mem_within hnamed

section Names
variable (hfind : disk.find root = .ok t) (hnamed : t.IsNamed)
include hnamed

theorem ofText_outside (hne : parts ≠ []) (houtside : IsOutside t parts) :
    Path.ofText (Text.joined "/" parts) = ⟨0, parts⟩ := by
  obtain ⟨content, hleads⟩ := houtside.file
  exact Path.ofText_joined hne (hnamed.names_of_leads hleads)

theorem nodup_names : ((searched root t).map (Text.joined "/")).Nodup := by
  refine List.Nodup.map_on (fun p hp q hq heq => ?_) (nodup_within hnamed (front root))
  obtain ⟨hp, houtside, -⟩ := (mem_searched hnamed).mp hp
  obtain ⟨hq, houtside', -⟩ := (mem_searched hnamed).mp hq
  have hpath := congrArg Path.ofText heq
  rw [ofText_outside hnamed hp houtside, ofText_outside hnamed hq houtside'] at hpath
  exact congrArg Path.parts hpath

include hfind

/-- A file that a search may come to can be linted exactly if its suffix says so and its whole name is
short enough. -/
theorem isLintable_outside (hne : parts ≠ []) (houtside : IsOutside t parts) :
    IsLintable disk root (Text.joined "/" parts) ↔ IsWanted t parts ∧ Fits root parts := by
  obtain ⟨content, hleads⟩ := houtside.file
  rw [IsLintable, ofText_outside hnamed hne houtside, suffix_mem_iff,
    Disk.find_below hfind hnamed hleads hne]
  by_cases hfits : Fits root parts
  · rw [if_neg (Nat.not_le.mpr hfits)]
    exact ⟨fun hgiven => ⟨⟨houtside, hgiven.1⟩, hfits⟩, fun hgiven => ⟨hgiven.1.suffix, content, rfl⟩⟩
  · rw [if_pos (Nat.not_lt.mp hfits)]
    refine iff_of_false (fun hgiven => ?_) fun hgiven => hfits hgiven.2
    obtain ⟨-, content', heq⟩ := hgiven
    cases heq

theorem isRefused_outside (hne : parts ≠ []) (houtside : IsOutside t parts) :
    IsRefused disk root (Text.joined "/" parts) ↔ IsWanted t parts ∧ ¬Fits root parts := by
  obtain ⟨content, hleads⟩ := houtside.file
  rw [IsRefused, ofText_outside hnamed hne houtside, suffix_mem_iff,
    Disk.find_below hfind hnamed hleads hne]
  by_cases hfits : Fits root parts
  · rw [if_neg (Nat.not_le.mpr hfits)]
    refine iff_of_false (fun hgiven => ?_) fun hgiven => hgiven.2 hfits
    cases hgiven.2
  · rw [if_pos (Nat.not_lt.mp hfits)]
    exact ⟨fun hgiven => ⟨⟨houtside, hgiven.1⟩, hfits⟩, fun hgiven => ⟨hgiven.1.suffix, rfl⟩⟩

end Names

/-- What a search is to find below a directory: the files that are wanted, if the system can list the
directories around them. -/
structure IsFound (root : Path) (t : Tree) (files : List Text) : Prop where
  mem : ∀ name, name ∈ files ↔ ∃ parts, IsWanted t parts ∧
    IsListable (front root) parts.dropLast ∧ name = Text.joined "/" parts
  strict : files.Pairwise fun s t => s.codes < t.codes
  fits : ∀ parts, IsWanted t parts → IsListable (front root) parts.dropLast → Fits root parts

theorem IsFound.unique {files' : List Text} (h : IsFound root t files) (h' : IsFound root t files') :
    files = files' :=
  Text.eq_of_strict h.strict h'.strict fun name => (h.mem name).trans (h'.mem name).symm

section Settled
variable (hlisting : listing.files? = none) (hfind : disk.find root = .ok t) (hnamed : t.IsNamed)
include hlisting hfind

theorem discover_eq_select_searched : discover disk listing root =
    select disk root ((searched root t).map (Text.joined "/")) := by
  refine discover_eq_select (.inr ⟨hlisting, ?_⟩)
  rw [candidates, hfind]

include hnamed

/-- What is found are the wanted files in directories that the system can list, in strict order. -/
theorem isFound_of_discover (h : discover disk listing root = .ok files) :
    IsFound root t files := by
  rw [discover_eq_select_searched hlisting hfind] at h
  obtain ⟨hnone, hselects⟩ := selects_of_select h
  have hfits : ∀ parts, IsWanted t parts → IsListable (front root) parts.dropLast →
      Fits root parts := by
    intro parts hwanted hlistable
    have hparts := (mem_searched hnamed).mpr ⟨hwanted.ne_nil, hwanted.toIsOutside, hlistable⟩
    exact not_not.mp fun hlong => hnone _ (List.mem_map_of_mem hparts)
      ((isRefused_outside hfind hnamed hwanted.ne_nil hwanted.toIsOutside).mpr ⟨hwanted, hlong⟩)
  refine ⟨fun name => ?_, ?_, hfits⟩
  · rw [hselects.mem, List.mem_map]
    constructor
    · intro hgiven
      obtain ⟨⟨parts, hparts, rfl⟩, hlintable⟩ := hgiven
      obtain ⟨hne, houtside, hlistable⟩ := (mem_searched hnamed).mp hparts
      exact ⟨parts, ((isLintable_outside hfind hnamed hne houtside).mp hlintable).1, hlistable, rfl⟩
    · intro hgiven
      obtain ⟨parts, hwanted, hlistable, rfl⟩ := hgiven
      have hparts := (mem_searched hnamed).mpr ⟨hwanted.ne_nil, hwanted.toIsOutside, hlistable⟩
      exact ⟨⟨parts, hparts, rfl⟩, (isLintable_outside hfind hnamed hwanted.ne_nil
        hwanted.toIsOutside).mpr ⟨hwanted, hfits parts hwanted hlistable⟩⟩
  · exact hselects.strict.mpr fun name _ =>
      List.nodup_iff_count_le_one.mp (nodup_names hnamed) name

/-- A search comes to its end if no file that is wanted has a name that is too long. -/
theorem exists_discover (h : ∀ parts, IsWanted t parts → IsListable (front root) parts.dropLast →
    Fits root parts) : ∃ files, discover disk listing root = .ok files := by
  rw [discover_eq_select_searched hlisting hfind]
  have hnone : ∀ name ∈ (searched root t).map (Text.joined "/"), ¬IsRefused disk root name := by
    intro name hname hrefused
    obtain ⟨parts, hparts, rfl⟩ := List.mem_map.mp hname
    obtain ⟨hne, houtside, hlistable⟩ := (mem_searched hnamed).mp hparts
    obtain ⟨hwanted, hlong⟩ := (isRefused_outside hfind hnamed hne houtside).mp hrefused
    exact hlong (h parts hwanted hlistable)
  obtain ⟨files, hselect, -⟩ := exists_select hnone
  exact ⟨files, hselect⟩

theorem discover_eq_ok_iff : discover disk listing root = .ok files ↔ IsFound root t files := by
  refine ⟨isFound_of_discover hlisting hfind hnamed, fun hfound => ?_⟩
  obtain ⟨files', hfiles'⟩ := exists_discover hlisting hfind hnamed hfound.fits
  rw [hfiles', (isFound_of_discover hlisting hfind hnamed hfiles').unique hfound]

/-- A search stops only at a file that is wanted and has a name that is too long. -/
theorem exists_of_discover_eq_error {failure : Failure}
    (h : discover disk listing root = .error failure) :
    ∃ parts, IsWanted t parts ∧ IsListable (front root) parts.dropLast ∧ ¬Fits root parts ∧
      failure = .file .nameTooLong (root.join ⟨0, parts⟩).text := by
  rw [discover_eq_select_searched hlisting hfind, select_eq_error] at h
  obtain ⟨before, name, after, hnames, -, hrefused, rfl⟩ := h
  have hname : name ∈ (searched root t).map (Text.joined "/") :=
    hnames ▸ List.mem_append_right before List.mem_cons_self
  obtain ⟨parts, hparts, rfl⟩ := List.mem_map.mp hname
  obtain ⟨hne, houtside, hlistable⟩ := (mem_searched hnamed).mp hparts
  obtain ⟨hwanted, hlong⟩ := (isRefused_outside hfind hnamed hne houtside).mp hrefused
  exact ⟨parts, hwanted, hlistable, hlong, by rw [refusal, ofText_outside hnamed hne houtside]⟩

end Settled

/-- The name in front of what is found is hardly longer than the parts of the directory, with a slash
each. -/
theorem length_bytes_front_le (root : Path) : (Text.bytes (front root)).length ≤
    root.slashes + (root.parts.map fun t => (Text.bytes t).length + 1).sum + 2 := by
  have htext : (Text.bytes root.text).length ≤
      root.slashes + (root.parts.map fun t => (Text.bytes t).length + 1).sum + 1 := by
    by_cases hparts : root.parts = []
    · have hslash : (Text.pointBytes (.char '/')).length = 1 := by decide
      have hdot : (Text.bytes (Text.ofString ".")).length = 1 := by decide
      rw [Path.text, hparts]
      split
      · rw [hdot]
        omega
      · rw [Text.joined, List.intercalate_nil, List.append_nil, Text.bytes, List.length_flatMap,
          List.map_replicate, hslash, List.sum_replicate_nat]
        omega
    · have hlength := Path.length_bytes_text hparts
      omega
  have hslash : (Text.bytes (Text.ofString "/")).length = 1 := by decide
  rw [front]
  split
  · omega
  · rw [bytes_append, List.length_append, hslash]
    omega

/-- The directories around a file can be listed if its name is not too long. -/
theorem IsWanted.isListable (h : IsWanted t parts) (hfits : Fits root parts) :
    IsListable (front root) parts.dropLast := by
  obtain ⟨directories, stem, extension, rfl, -, hextension⟩ := h.suffix
  rw [List.dropLast_concat]
  intro hne
  have hlast : 0 < (Text.bytes (stem ++ extension)).length := by
    have hsuffixes : ∀ extension ∈ suffixes, 0 < (Text.bytes extension).length := by decide
    have hless := hsuffixes extension hextension
    rw [bytes_append, List.length_append]
    omega
  have hname : (Text.bytes (root.join ⟨0, directories ++ [stem ++ extension]⟩).text).length + 1 =
      root.slashes + ((root.parts ++ (directories ++ [stem ++ extension])).map fun t =>
        (Text.bytes t).length + 1).sum :=
    Path.length_bytes_text (p := ⟨root.slashes, root.parts ++ (directories ++ [stem ++ extension])⟩)
      (List.append_ne_nil_of_right_ne_nil _ (List.append_ne_nil_of_left_ne_nil hne _))
  have hdirectories := Text.length_bytes_joined hne
  have hfront := length_bytes_front_le root
  rw [Fits] at hfits
  rw [bytes_append, List.length_append]
  simp only [List.map_append, List.sum_append, List.map_cons, List.map_nil, List.sum_cons,
    List.sum_nil] at hname
  omega

end Found

/-! ### What does not change it -/

/-- A change that the search does not see: the entries of a directory are listed in another order, or an
ignored directory is gone with all that is in it. Both ways round, one that is there may come into being
and may hold anything else. -/
inductive Change : Tree → Tree → Prop
  | order {es es' : List (Text × Tree)} (hdistinct : (es.map Prod.fst).Nodup) (h : es.Perm es') :
      Change (.directory es) (.directory es')
  | ignored (before after : List (Text × Tree)) {name : Text} (h : name ∈ ignoredDirectories)
      (inner : List (Text × Tree)) :
      Change (.directory (before ++ (name, .directory inner) :: after))
        (.directory (before ++ after))
  | inside (before after : List (Text × Tree)) (name : Text) {t t' : Tree} (h : Change t t') :
      Change (.directory (before ++ (name, t) :: after))
        (.directory (before ++ (name, t') :: after))

theorem lookup_perm {es' : List (Text × Tree)} (hdistinct : (es.map Prod.fst).Nodup)
    (h : es.Perm es') (name : Text) : es.lookup name = es'.lookup name := by
  have hdistinct' : (es'.map Prod.fst).Nodup := (h.map Prod.fst).nodup_iff.mp hdistinct
  refine Option.ext fun t => ?_
  constructor
  · exact fun hlookup => Tree.lookup_of_mem hdistinct' (h.mem_iff.mp (Tree.mem_of_lookup hlookup))
  · exact fun hlookup => Tree.lookup_of_mem hdistinct (h.mem_iff.mpr (Tree.mem_of_lookup hlookup))

/-- A change leaves the files where they are that no ignored name leads to. -/
theorem Change.leads {t' : Tree} (h : Change t t')
    (hparts : ∀ part ∈ parts, part ∉ ignoredDirectories) (content : List UInt8) :
    t.Leads parts (.file content) ↔ t'.Leads parts (.file content) := by
  induction h generalizing parts with
  | order hdistinct hperm =>
    cases parts with
    | nil => exact iff_of_false nofun nofun
    | cons name rest => rw [Tree.leads_cons, Tree.leads_cons, lookup_perm hdistinct hperm]
  | @ignored before after name hname inner =>
    cases parts with
    | nil => exact iff_of_false nofun nofun
    | cons part rest =>
      have hne : (part == name) = false :=
        beq_eq_false_iff_ne.mpr fun heq => hparts part List.mem_cons_self (heq ▸ hname)
      have hlookup : (before ++ (name, Tree.directory inner) :: after).lookup part =
          (before ++ after).lookup part := by
        rw [List.lookup_append, List.lookup_append, List.lookup_cons]
        simp only [hne]
      rw [Tree.leads_cons, Tree.leads_cons, hlookup]
  | @inside before after name t t' _ ih =>
    cases parts with
    | nil => exact iff_of_false nofun nofun
    | cons part rest =>
      have hrest := ih (List.forall_mem_cons.mp hparts).2
      rw [Tree.leads_cons, Tree.leads_cons, List.lookup_append, List.lookup_append,
        List.lookup_cons, List.lookup_cons]
      cases before.lookup part with
      | some u => exact Iff.rfl
      | none =>
        cases part == name with
        | true => simpa using fun _ _ => hrest
        | false => exact Iff.rfl

/-- A change that the search does not see leaves the same files wanted. -/
theorem Change.isWanted {t' : Tree} (h : Change t t') : IsWanted t parts ↔ IsWanted t' parts := by
  -- No ignored name ends in one of the suffixes, so the last part is none either.
  have hlast : (∃ front stem extension, parts = front ++ [stem ++ extension] ∧ stem ≠ [] ∧
      extension ∈ suffixes) → (∀ directory ∈ parts.dropLast, directory ∉ ignoredDirectories) →
      ∀ part ∈ parts, part ∉ ignoredDirectories := by
    intro hsuffix houtside part hpart hignored
    obtain ⟨front, stem, extension, rfl, -, hextension⟩ := hsuffix
    rw [List.dropLast_concat] at houtside
    obtain hpart | hpart := List.mem_append.mp hpart
    · exact houtside part hpart hignored
    · have hnone : ∀ name ∈ ignoredDirectories, ∀ extension ∈ suffixes,
          ¬extension <:+ name := by decide +kernel
      rw [List.mem_singleton.mp hpart] at hignored
      exact hnone _ hignored _ hextension (List.suffix_append stem extension)
  constructor
  · intro hgiven
    obtain ⟨⟨⟨content, hleads⟩, houtside⟩, hsuffix⟩ := hgiven
    exact ⟨⟨⟨content, (h.leads (hlast hsuffix houtside) content).mp hleads⟩, houtside⟩, hsuffix⟩
  · intro hgiven
    obtain ⟨⟨⟨content, hleads⟩, houtside⟩, hsuffix⟩ := hgiven
    exact ⟨⟨⟨content, (h.leads (hlast hsuffix houtside) content).mpr hleads⟩, houtside⟩, hsuffix⟩

/-- What no change touches, no row of changes touches. -/
theorem isWanted_of_changes {t' : Tree} (h : Relation.EqvGen Change t t') :
    IsWanted t parts ↔ IsWanted t' parts := by
  induction h with
  | rel _ _ h => exact h.isWanted
  | refl _ => exact Iff.rfl
  | symm _ _ _ ih => exact ih.symm
  | trans _ _ _ _ _ ih ih' => exact ih.trans ih'

theorem isFound_of_changes {t' : Tree} {root : Path} {files : List Text}
    (h : Relation.EqvGen Change t t') : IsFound root t files ↔ IsFound root t' files := by
  have hwanted : ∀ parts, IsWanted t parts ↔ IsWanted t' parts := fun _ => isWanted_of_changes h
  constructor
  · intro hfound
    exact ⟨by simpa only [hwanted] using hfound.mem, hfound.strict,
      by simpa only [hwanted] using hfound.fits⟩
  · intro hfound
    exact ⟨by simpa only [hwanted] using hfound.mem, hfound.strict,
      by simpa only [hwanted] using hfound.fits⟩

/-! ### The search as a whole -/

/-- The search of a directory whose tree is `t` does its work. -/
structure Searches (disk : Disk) (listing : Listing) (root : Path) (t : Tree) : Prop where
  /-- If no file that is wanted has a name that is too long, those and no others are found, in strict
  order. -/
  exact : (∀ parts, IsWanted t parts → Fits root parts) →
    ∃ files, discover disk listing root = .ok files ∧
      (files.Pairwise fun s t => s.codes < t.codes) ∧
        ∀ name, name ∈ files ↔ ∃ parts, IsWanted t parts ∧ name = Text.joined "/" parts
  settles : ∀ files, discover disk listing root = .ok files ↔ IsFound root t files
  stops : ∀ failure, discover disk listing root = .error failure →
    ∃ parts, IsWanted t parts ∧ IsListable (front root) parts.dropLast ∧ ¬Fits root parts ∧
      failure = .file .nameTooLong (root.join ⟨0, parts⟩).text
  /-- Neither the order of entries nor what is in ignored directories makes a difference. -/
  steady : ∀ disk' t', disk'.find root = .ok t' → t'.IsNamed → Relation.EqvGen Change t t' →
    ∀ files, discover disk' listing root = .ok files ↔ discover disk listing root = .ok files

/-- **The search finds what is there.** Without version control the files of a directory that can be
linted and are in no ignored directory are found, each once and in order, whatever the order of the
entries and whatever is in ignored directories. What stops the search is a file of these whose name is too
long, and what it misses are files in directories whose names are too long. -/
theorem discover_searches {disk : Disk} {listing : Listing} {root : Path}
    (hlisting : listing.files? = none) (hfind : disk.find root = .ok t) (hnamed : t.IsNamed) :
    Searches disk listing root t where
  exact := by
    intro hfits
    obtain ⟨files, hfiles⟩ :=
      exists_discover hlisting hfind hnamed fun parts hwanted _ => hfits parts hwanted
    have hfound := isFound_of_discover hlisting hfind hnamed hfiles
    refine ⟨files, hfiles, hfound.strict, fun name => (hfound.mem name).trans ?_⟩
    constructor
    · intro hgiven
      obtain ⟨parts, hwanted, -, hname⟩ := hgiven
      exact ⟨parts, hwanted, hname⟩
    · intro hgiven
      obtain ⟨parts, hwanted, hname⟩ := hgiven
      exact ⟨parts, hwanted, hwanted.isListable (hfits parts hwanted), hname⟩
  settles _ := discover_eq_ok_iff hlisting hfind hnamed
  stops _ := exists_of_discover_eq_error hlisting hfind hnamed
  steady disk' t' hfind' hnamed' hchanges files := by
    rw [discover_eq_ok_iff hlisting hfind' hnamed', discover_eq_ok_iff hlisting hfind hnamed,
      isFound_of_changes hchanges]

/-- A directory with a file of its own, one further below, and one that is ignored. -/
def workTree : Tree :=
  .directory [("sub", .directory [("b.yml", .file []), ("notes.txt", .file [])]),
    ("a.yaml", .file []), ("dist", .directory [("c.json", .file [])])]

theorem isNamed_workTree : workTree.IsNamed := by
  refine .directory (by decide) (by decide) ?_
  simp only [List.forall_mem_cons]
  refine ⟨.directory (by decide) (by decide) ?_, .file _, .directory (by decide) (by decide) ?_,
    List.forall_mem_nil _⟩
  all_goals
    simp only [List.forall_mem_cons]
    simp [Tree.IsNamed.file]

def workDisk : Disk :=
  ⟨.directory [("work", workTree)], ⟨1, []⟩⟩

/-- The files that the search of the sample comes to. -/
def workFiles : List (List Text) :=
  [["a.yaml"], ["sub", "b.yml"], ["sub", "notes.txt"]]

/-- A file of its own and one further below are found, and one in an ignored directory is not. -/
theorem discover_searches_workTree : ∃ files,
    discover workDisk .unavailable ⟨1, ["work"]⟩ = .ok files ∧
      Text.ofString "sub/b.yml" ∈ files ∧ Text.ofString "dist/c.json" ∉ files := by
  have hsearches : Searches workDisk .unavailable ⟨1, ["work"]⟩ workTree :=
    discover_searches rfl rfl isNamed_workTree
  have hall : searched ⟨1, ["work"]⟩ workTree = workFiles := by decide
  have hmem : ∀ parts, IsWanted workTree parts → IsListable (front ⟨1, ["work"]⟩) parts.dropLast →
      parts ∈ workFiles := fun parts hwanted hlistable =>
    hall ▸ (mem_searched isNamed_workTree).mpr ⟨hwanted.ne_nil, hwanted.toIsOutside, hlistable⟩
  cases h : discover workDisk .unavailable ⟨1, ["work"]⟩ with
  | error failure =>
    obtain ⟨parts, hwanted, hlistable, hlong, -⟩ := hsearches.stops failure h
    have hfits : ∀ parts ∈ workFiles, Fits ⟨1, ["work"]⟩ parts := by
      unfold Fits
      decide
    exact absurd (hfits parts (hmem parts hwanted hlistable)) hlong
  | ok files =>
    have hfound := (hsearches.settles files).mp h
    refine ⟨files, rfl, (hfound.mem _).mpr ⟨["sub", "b.yml"], ⟨⟨⟨[], ?_⟩, by decide⟩,
      [Text.ofString "sub"], "b", ".yml", by decide, by decide, by decide⟩,
      fun _ => by decide, by decide⟩, fun hignored => ?_⟩
    · exact .down (by decide) (by decide) rfl (.down (by decide) (by decide) rfl (.here _))
    · obtain ⟨parts, hwanted, hlistable, hname⟩ := (hfound.mem _).mp hignored
      have hnone : ∀ parts ∈ workFiles, Text.ofString "dist/c.json" ≠ Text.joined "/" parts := by
        decide
      exact hnone parts (hmem parts hwanted hlistable) hname

/-- A relative name of a directory that goes out of it and into it again. -/
def windingRoot (count : Nat) : Path :=
  ⟨0, Text.ofString "d" :: (List.replicate count [Text.ofString "..", Text.ofString "d"]).flatten⟩

/-- A disk with a directory of the name `d`. -/
def diskOf (es : List (Text × Tree)) : Disk :=
  ⟨.directory [("d", .directory es)], ⟨1, []⟩⟩

theorem walk_windingRoot (es : List (Text × Tree)) (count : Nat) :
    Tree.walk [] (diskOf es).root (windingRoot count).parts = .ok (.directory es) := by
  have hrest : Tree.walk [(diskOf es).root] (.directory es)
      (List.replicate count [Text.ofString "..", Text.ofString "d"]).flatten =
        .ok (.directory es) := by
    induction count with
    | zero => rfl
    | succ count ih =>
      rw [List.replicate_succ, List.flatten_cons]
      exact ih
  exact hrest

/-- The entries of a directory with a file in it. -/
def shallow : List (Text × Tree) := [("a.yaml", .file [])]

/-- The entries of a directory with the file one further below. -/
def deep : List (Text × Tree) := [("subs", .directory shallow)]

theorem isNamed_shallow : (Tree.directory shallow).IsNamed := by
  refine .directory (by decide) (by decide) ?_
  simp [shallow, Tree.IsNamed.file]

theorem isNamed_deep : (Tree.directory deep).IsNamed := by
  refine .directory (by decide) (by decide) ?_
  simp [deep, isNamed_shallow]

theorem isWanted_shallow : IsWanted (.directory shallow) [Text.ofString "a.yaml"] where
  file := ⟨[], .down (by decide) (by decide) rfl (.here _)⟩
  outside := nofun
  suffix := ⟨[], "a", ".yaml", by decide, by decide, by decide⟩

theorem isWanted_deep :
    IsWanted (.directory deep) [Text.ofString "subs", Text.ofString "a.yaml"] where
  file := ⟨[], .down (by decide) (by decide) rfl (.down (by decide) (by decide) rfl (.here _))⟩
  outside := by decide
  suffix := ⟨[Text.ofString "subs"], "a", ".yaml", by decide, by decide, by decide⟩

theorem find_windingRoot (es : List (Text × Tree)) :
    (diskOf es).find (windingRoot 818) = .ok (.directory es) := by
  have hknown : FileFault.ofName? (windingRoot 818).text = none := by decide +kernel
  have hlength : (Text.bytes (windingRoot 818).text).length < nameLimit := by decide +kernel
  exact Disk.find_eq_ok.mpr ⟨hknown, hlength, walk_windingRoot es 818⟩

/-- **A name that is too long stops the search, and a directory whose name is too long is missed**, when
the name of the directory that is searched has 4091 bytes. -/
theorem discover_misses :
    (∃ es, IsWanted (.directory es) [Text.ofString "a.yaml"] ∧
      (diskOf es).find (windingRoot 818) = .ok (.directory es) ∧
      ∀ files, discover (diskOf es) .unavailable (windingRoot 818) ≠ .ok files) ∧
    ∃ es, IsWanted (.directory es) [Text.ofString "subs", Text.ofString "a.yaml"] ∧
      (diskOf es).find (windingRoot 818) = .ok (.directory es) ∧
      discover (diskOf es) .unavailable (windingRoot 818) = .ok [] := by
  refine ⟨⟨shallow, isWanted_shallow, find_windingRoot _, fun files h => ?_⟩,
    ⟨deep, isWanted_deep, find_windingRoot _, ?_⟩⟩
  · have hfound := isFound_of_discover rfl (find_windingRoot _) isNamed_shallow h
    have hlong : nameLimit ≤
        (Text.bytes ((windingRoot 818).join ⟨0, [Text.ofString "a.yaml"]⟩).text).length := by
      decide +kernel
    exact absurd (hfound.fits _ isWanted_shallow fun hne => absurd rfl hne) (Nat.not_lt.mpr hlong)
  · have hnone : searched (windingRoot 818) (.directory deep) = [] := by decide +kernel
    have hmissed : ∀ parts, IsWanted (.directory deep) parts →
        ¬IsListable (front (windingRoot 818)) parts.dropLast := by
      intro parts hwanted hlistable
      have hparts := (mem_searched isNamed_deep).mpr
        ⟨hwanted.ne_nil, hwanted.toIsOutside, hlistable⟩
      rw [hnone] at hparts
      cases hparts
    refine (discover_eq_ok_iff rfl (find_windingRoot _) isNamed_deep).mpr
      ⟨fun name => iff_of_false List.not_mem_nil fun hgiven => ?_, List.Pairwise.nil,
        fun parts hwanted hlistable => absurd hlistable (hmissed parts hwanted)⟩
    obtain ⟨parts, hwanted, hlistable, -⟩ := hgiven
    exact hmissed parts hwanted hlistable

end ApiLint.Targets
