import ApiLint.Proofs.Targets.Search
import ApiLint.Proofs.Targets.Spelling

/-! What is found through a listing of a tree. Names that are not printed as they are are lost on the way,
since nothing is done about their spelling, and all others are found (`discover_printed`). So a listing of all
files of a tree and a search of the tree come to the same files exactly if every file that can be linted has
a name that is printed as it is (`listing_recovers`). -/
namespace ApiLint.Targets

variable {disk : Disk} {root : Path} {t : Tree} {names : List Text} {name : Text}

/-- Through a listing the names are found that are printed as they are. -/
theorem discover_printed (hne : ∀ name ∈ names, name ≠ [])
    (hknown : ∀ name ∈ names, FileFault.ofName? name = none) :
    discover disk (.answered 0 (printed names)) root = select disk root (names.filter isVerbatim) := by
  have hdropped : ∀ name ∈ names, isVerbatim name = false →
      isLintable disk root (spelled name) = .ok false := by
    intro name _ hquoted
    rw [isLintable, if_neg]
    rw [List.contains_iff_mem]
    exact suffix_spelled hquoted
  rw [discover_eq_select (.inl (files?_printed hne)), select, select,
    Except.filterM_map_filter (fun name hname => spelled_of_isVerbatim (hknown name hname)) hdropped]

/-- Names are a listing of a tree: all files that can be linted and are in no ignored directory, each once,
and maybe others in no ignored directory. Where no directory is ignored they may be those of all files. -/
structure IsListing (t : Tree) (names : List Text) : Prop where
  outside : ∀ name ∈ names, ∃ parts, parts ≠ [] ∧ IsOutside t parts ∧ name = Text.joined "/" parts
  wanted : ∀ parts, IsWanted t parts → Text.joined "/" parts ∈ names
  nodup : names.Nodup

/-- What is found through a listing, next to what a search finds. -/
structure Agrees (disk : Disk) (root : Path) (t : Tree) (names : List Text) : Prop where
  /-- Only a name that is printed as it is and is too long stops the run over a listing. -/
  answers : (∃ found, discover disk (.answered 0 (printed names)) root = .ok found) ↔
    ∀ parts, IsWanted t parts → isVerbatim (Text.joined "/" parts) = true → Fits root parts
  /-- What a search finds is found, if its name is printed as it is. -/
  found : ∀ found walked, discover disk (.answered 0 (printed names)) root = .ok found →
    discover disk .unavailable root = .ok walked → found = walked.filter isVerbatim
  /-- If no name is too long, both find the same exactly if all names are printed as they are. -/
  same : (∀ parts, IsWanted t parts → Fits root parts) →
    ∃ found walked, discover disk (.answered 0 (printed names)) root = .ok found ∧
      discover disk .unavailable root = .ok walked ∧
      (found = walked ↔ ∀ parts, IsWanted t parts → isVerbatim (Text.joined "/" parts) = true)

section Tree
variable (hfind : disk.find root = .ok t) (hnamed : t.IsNamed) (hlisting : IsListing t names)
include hnamed hlisting

theorem IsListing.ne_nil (hname : name ∈ names) : name ≠ [] := by
  obtain ⟨parts, hne, houtside, rfl⟩ := hlisting.outside name hname
  intro hempty
  have hpath := ofText_outside hnamed hne houtside
  rw [hempty] at hpath
  exact hne (congrArg Path.parts hpath).symm

theorem IsListing.known (hname : name ∈ names) : FileFault.ofName? name = none := by
  obtain ⟨parts, -, ⟨⟨content, hleads⟩, -⟩, rfl⟩ := hlisting.outside name hname
  rw [Text.ofName?_eq_none]
  intro p hp
  obtain rfl | ⟨part, hpart, hp⟩ := Text.mem_joined hp
  · rfl
  · exact Text.ofName?_eq_none.mp (hnamed.names_of_leads hleads part hpart).known p hp

theorem IsListing.discover_eq : discover disk (.answered 0 (printed names)) root =
    select disk root (names.filter isVerbatim) :=
  discover_printed (fun _ => hlisting.ne_nil hnamed) fun _ => hlisting.known hnamed

include hfind

theorem IsListing.isLintable_iff (hname : name ∈ names) : IsLintable disk root name ↔
    ∃ parts, IsWanted t parts ∧ Fits root parts ∧ name = Text.joined "/" parts := by
  constructor
  · intro hlintable
    obtain ⟨parts, hne, houtside, rfl⟩ := hlisting.outside name hname
    obtain ⟨hwanted, hfits⟩ := (isLintable_outside hfind hnamed hne houtside).mp hlintable
    exact ⟨parts, hwanted, hfits, rfl⟩
  · intro hgiven
    obtain ⟨parts, hwanted, hfits, rfl⟩ := hgiven
    exact (isLintable_outside hfind hnamed hwanted.ne_nil hwanted.toIsOutside).mpr ⟨hwanted, hfits⟩

/-- Version control's answer can be used unless a name that is printed as it is, is too long. -/
theorem IsListing.answers : (∃ found, discover disk (.answered 0 (printed names)) root = .ok found) ↔
    ∀ parts, IsWanted t parts → isVerbatim (Text.joined "/" parts) = true → Fits root parts := by
  rw [hlisting.discover_eq hnamed]
  constructor
  · intro hgiven parts hwanted hverbatim
    obtain ⟨found, hfound⟩ := hgiven
    have hkept := List.mem_filter.mpr ⟨hlisting.wanted parts hwanted, hverbatim⟩
    by_contra hlong
    exact (selects_of_select hfound).1 _ hkept
      ((isRefused_outside hfind hnamed hwanted.ne_nil hwanted.toIsOutside).mpr ⟨hwanted, hlong⟩)
  · intro hfits
    have hnone : ∀ name ∈ names.filter isVerbatim, ¬IsRefused disk root name := by
      intro name hname hrefused
      obtain ⟨hname, hverbatim⟩ := List.mem_filter.mp hname
      obtain ⟨parts, hne, houtside, rfl⟩ := hlisting.outside name hname
      obtain ⟨hwanted, hlong⟩ := (isRefused_outside hfind hnamed hne houtside).mp hrefused
      exact hlong (hfits parts hwanted hverbatim)
    obtain ⟨found, hfound, -⟩ := exists_select hnone
    exact ⟨found, hfound⟩

/-- Of the files that walking finds, the listing gives those that are printed as they are. -/
theorem IsListing.found {found walked : List Text}
    (hfound : discover disk (.answered 0 (printed names)) root = .ok found)
    (hwalked : discover disk .unavailable root = .ok walked) :
    found = walked.filter isVerbatim := by
  have hsearch := isFound_of_discover rfl hfind hnamed hwalked
  rw [hlisting.discover_eq hnamed] at hfound
  have hselects := (selects_of_select hfound).2
  have hstrict : found.Pairwise fun s t => s.codes < t.codes :=
    hselects.strict.mpr fun name _ =>
      List.nodup_iff_count_le_one.mp (hlisting.nodup.filter _) name
  refine Text.eq_of_strict hstrict (hsearch.strict.filter _) fun name => ?_
  rw [hselects.mem, List.mem_filter, List.mem_filter, hsearch.mem]
  constructor
  · intro hgiven
    obtain ⟨⟨hname, hverbatim⟩, hlintable⟩ := hgiven
    obtain ⟨parts, hwanted, hfits, rfl⟩ := (hlisting.isLintable_iff hfind hnamed hname).mp hlintable
    exact ⟨⟨parts, hwanted, hwanted.isListable hfits, rfl⟩, hverbatim⟩
  · intro hgiven
    obtain ⟨⟨parts, hwanted, hlistable, rfl⟩, hverbatim⟩ := hgiven
    have hname := hlisting.wanted parts hwanted
    exact ⟨⟨hname, hverbatim⟩, (hlisting.isLintable_iff hfind hnamed hname).mpr
      ⟨parts, hwanted, hsearch.fits parts hwanted hlistable, rfl⟩⟩

/-- Both find the same exactly if every name is printed as it is. -/
theorem IsListing.same (hfits : ∀ parts, IsWanted t parts → Fits root parts) :
    ∃ found walked, discover disk (.answered 0 (printed names)) root = .ok found ∧
      discover disk .unavailable root = .ok walked ∧
      (found = walked ↔ ∀ parts, IsWanted t parts → isVerbatim (Text.joined "/" parts) = true) := by
  obtain ⟨found, hfound⟩ :=
    (hlisting.answers hfind hnamed).mpr fun parts hwanted _ => hfits parts hwanted
  obtain ⟨walked, hwalked⟩ : ∃ walked, discover disk .unavailable root = .ok walked :=
    exists_discover rfl hfind hnamed fun parts hwanted _ => hfits parts hwanted
  refine ⟨found, walked, hfound, hwalked, ?_⟩
  have hsearch := isFound_of_discover rfl hfind hnamed hwalked
  rw [hlisting.found hfind hnamed hfound hwalked, List.filter_eq_self]
  constructor
  · intro hall parts hwanted
    exact hall _ ((hsearch.mem _).mpr ⟨parts, hwanted, hwanted.isListable (hfits parts hwanted), rfl⟩)
  · intro hall name hname
    obtain ⟨parts, hwanted, -, rfl⟩ := (hsearch.mem name).mp hname
    exact hall parts hwanted

end Tree

/-- **Names that are printed as they are are recovered, and no others.** The names in a listing come back as
they are printed, and so as they are exactly if each of them is printed as it is. Of the files of a tree
those are found through its listing that a search of the tree finds and whose names are printed as they are;
so both find the same exactly if this holds of all files that can be linted. -/
theorem listing_recovers (hnames : ∀ name ∈ names, name ≠ [] ∧ FileFault.ofName? name = none) :
    (Listing.answered 0 (printed names)).files? = some (names.map spelled) ∧
    ((Listing.answered 0 (printed names)).files? = some names ↔
      ∀ name ∈ names, isVerbatim name = true) ∧
    ∀ disk root t, disk.find root = .ok t → t.IsNamed → IsListing t names →
      Agrees disk root t names := by
  have hfiles := files?_printed fun name hname => (hnames name hname).1
  refine ⟨hfiles, ?_, fun disk root t hfind hnamed hlisting => ?_⟩
  · have hmap : names.map spelled = names ↔ ∀ name ∈ names, spelled name = name := by
      simpa using List.map_inj_left (f := spelled) (g := id) (l := names)
    rw [hfiles, Option.some.injEq, hmap]
    exact forall₂_congr fun name hname => spelled_eq_self_iff (hnames name hname).2
  · exact
      { answers := hlisting.answers hfind hnamed
        found := fun _ _ => hlisting.found hfind hnamed
        same := hlisting.same hfind hnamed }

/-! ### A directory of files -/

/-- A directory with files of some names. -/
def flatTree (names : List Text) : Tree :=
  .directory (names.map fun name => (name, .file []))

def flatDisk (names : List Text) : Disk :=
  ⟨flatTree names, ⟨1, []⟩⟩

section Flat
variable (hnodup : names.Nodup) (hnames : ∀ name ∈ names, IsName name)
include hnodup hnames

theorem isNamed_flatTree : (flatTree names).IsNamed := by
  refine .directory ?_ (List.forall_mem_map.mpr hnames) ?_
  · rw [List.map_map]
    exact hnodup.map fun _ _ h => h
  · exact List.forall_mem_map.mpr fun _ _ => .file []

/-- In a directory with files only, none of them is in an ignored directory. -/
theorem isOutside_flatTree {parts : List Text} :
    IsOutside (flatTree names) parts ↔ ∃ name ∈ names, parts = [name] := by
  have hnamed := isNamed_flatTree hnodup hnames
  constructor
  · intro houtside
    obtain ⟨content, hleads⟩ := houtside.file
    cases parts with
    | nil => cases hleads
    | cons name rest =>
      obtain ⟨u, hmem, hleads⟩ := hnamed.leads_cons.mp hleads
      obtain ⟨other, hother, heq⟩ := List.mem_map.mp hmem
      cases heq
      cases hleads
      exact ⟨name, hother, rfl⟩
  · intro hgiven
    obtain ⟨name, hname, rfl⟩ := hgiven
    exact ⟨⟨[], hnamed.leads_cons.mpr ⟨_, List.mem_map_of_mem hname, .here _⟩⟩, nofun⟩

theorem isWanted_flatTree (hname : name ∈ names) (hsuffix : (⟨0, [name]⟩ : Path).suffix ∈ suffixes) :
    IsWanted (flatTree names) [name] where
  toIsOutside := (isOutside_flatTree hnodup hnames).mpr ⟨name, hname, rfl⟩
  suffix := suffix_mem_iff.mp hsuffix

theorem fits_flatTree (hshort : ∀ name ∈ names, Fits root [name]) {parts : List Text}
    (hwanted : IsWanted (flatTree names) parts) : Fits root parts := by
  obtain ⟨name, hname, rfl⟩ := (isOutside_flatTree hnodup hnames).mp hwanted.toIsOutside
  exact hshort name hname

theorem isListing_flatTree : IsListing (flatTree names) names where
  outside name hname := ⟨[name], List.cons_ne_nil _ _,
    (isOutside_flatTree hnodup hnames).mpr ⟨name, hname, rfl⟩, List.intercalate_singleton.symm⟩
  wanted parts hwanted := by
    obtain ⟨name, hname, rfl⟩ := (isOutside_flatTree hnodup hnames).mp hwanted.toIsOutside
    rw [Text.joined, List.intercalate_singleton]
    exact hname
  nodup := hnodup

end Flat

/-- Names of which the second is not printed as it is. -/
def accented : List Text := ["a.yaml", "é.yaml"]

/-- A name that is printed between quotes is found by walking, and not in the listing. -/
theorem listing_recovers_sample : (Listing.answered 0 (printed accented)).files? ≠ some accented ∧
    IsListing (flatTree accented) accented ∧ ∃ found walked,
    discover (flatDisk accented) (.answered 0 (printed accented)) ⟨1, []⟩ = .ok found ∧
      discover (flatDisk accented) .unavailable ⟨1, []⟩ = .ok walked ∧
      Text.ofString "a.yaml" ∈ found ∧ Text.ofString "é.yaml" ∈ walked ∧
      found = walked.filter isVerbatim := by
  have hnodup : accented.Nodup := by decide
  have hnames : ∀ name ∈ accented, IsName name := by decide
  have hnamed := isNamed_flatTree hnodup hnames
  have hlisting := isListing_flatTree hnodup hnames
  have hknown : ∀ name ∈ accented, name ≠ [] ∧ FileFault.ofName? name = none := fun _ hname =>
    ⟨hlisting.ne_nil hnamed hname, hlisting.known hnamed hname⟩
  obtain ⟨-, hrecovered, heach⟩ := listing_recovers hknown
  have hquoted : (Listing.answered 0 (printed accented)).files? ≠ some accented := fun hfiles =>
    absurd (hrecovered.mp hfiles) (by decide)
  have hagrees : Agrees (flatDisk accented) ⟨1, []⟩ (flatTree accented) accented :=
    heach _ _ _ rfl hnamed hlisting
  have hshort : ∀ name ∈ accented, Fits ⟨1, []⟩ [name] := by
    unfold Fits
    decide
  have hsuffixes : ∀ name ∈ accented, (⟨0, [name]⟩ : Path).suffix ∈ suffixes := by decide
  obtain ⟨found, walked, hfound, hwalked, -⟩ :=
    hagrees.same fun _ => fits_flatTree hnodup hnames hshort
  have hsearch := isFound_of_discover rfl rfl hnamed hwalked
  have hmem : ∀ name ∈ accented, name ∈ walked := by
    intro name hname
    have hwanted := isWanted_flatTree hnodup hnames hname (hsuffixes name hname)
    exact (hsearch.mem name).mpr ⟨[name], hwanted, hwanted.isListable (hshort name hname),
      List.intercalate_singleton.symm⟩
  have heq := hagrees.found found walked hfound hwalked
  refine ⟨hquoted, hlisting, found, walked, hfound, hwalked, ?_, hmem _ (by decide), heq⟩
  rw [heq, List.mem_filter]
  exact ⟨hmem _ (by decide), by decide⟩

/-- A name that is not printed as it is, alone. -/
def lonely : List Text := ["é.yaml"]

/-- **A name that is not printed as it is is lost**: the only file of a directory is found by a search of it,
and not through the listing of it. -/
theorem listing_loses :
    printed lonely = "\"\\303\\251.yaml\"\n" ∧ IsListing (flatTree lonely) lonely ∧
      (Listing.answered 0 (printed lonely)).files? ≠ some lonely ∧
      discover (flatDisk lonely) (.answered 0 (printed lonely)) ⟨1, []⟩ = .ok [] ∧
      discover (flatDisk lonely) .unavailable ⟨1, []⟩ = .ok lonely := by
  have hnodup : lonely.Nodup := List.nodup_singleton _
  have hnames : ∀ name ∈ lonely, IsName name := by decide
  have hlisting := isListing_flatTree hnodup hnames
  have hlost : lonely.filter isVerbatim = [] := by decide
  have hkept : (searched ⟨1, []⟩ (flatTree lonely)).map (Text.joined "/") = lonely := by decide
  refine ⟨by decide, hlisting, ?_, ?_, ?_⟩
  · rw [files?_printed fun _ => hlisting.ne_nil (isNamed_flatTree hnodup hnames)]
    decide
  · rw [hlisting.discover_eq (isNamed_flatTree hnodup hnames), hlost]
    exact congrArg Except.ok List.mergeSort_nil
  · rw [discover_eq_select_searched (t := flatTree lonely) rfl rfl, hkept]
    exact congrArg Except.ok (List.mergeSort_singleton _)

end ApiLint.Targets
