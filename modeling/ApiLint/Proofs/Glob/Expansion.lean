import ApiLint.Proofs.Glob.Names

/-! What a pattern finds, in either edition. Names that the system hears of are looked for to the end
(`exists_expand`, by induction on the fuel), and a pattern finds what stands under its own text when each
of its parts stands for itself (`mem_expand_self`, by induction on the parts); a part without brackets
does (`isMatch_self`). -/
namespace ApiLint

namespace Tree

variable {t u : Tree} {parts : List Text}

/-- What a walk comes to has names of its own if all around has. -/
theorem IsNamed.walk {above : List Tree} (habove : ∀ v ∈ above, v.IsNamed) (ht : t.IsNamed)
    (h : walk above t parts = .ok u) : u.IsNamed := by
  induction parts generalizing above t with
  | nil => exact Except.ok.inj h ▸ ht
  | cons part parts ih =>
    cases ht with
    | file content => cases h
    | @directory es hdistinct hnames htrees =>
      simp only [Tree.walk] at h
      split at h
      · split at h
        · exact ih (List.forall_mem_nil _) (.directory hdistinct hnames htrees) h
        · exact ih (List.forall_mem_cons.mp habove).2 (List.forall_mem_cons.mp habove).1 h
      · split at h
        · cases h
        · split at h
          · cases h
          · next hlookup =>
            exact ih (List.forall_mem_cons.mpr ⟨.directory hdistinct hnames htrees, habove⟩)
              (htrees _ (mem_of_lookup hlookup)) h

/-- Whatever stops a walk, the system has a word for it. -/
theorem description?_of_walk {above : List Tree} {fault : FileFault}
    (h : Tree.walk above t parts = .error fault) : fault.description?.isSome = true := by
  induction parts generalizing above t with
  | nil => cases h
  | cons part parts ih =>
    cases t with
    | file content =>
      obtain rfl := Except.error.inj h
      rfl
    | directory es =>
      simp only [Tree.walk] at h
      split at h
      · split at h <;> exact ih h
      · split at h
        · obtain rfl := Except.error.inj h
          rfl
        · split at h
          · obtain rfl := Except.error.inj h
            rfl
          · exact ih h

end Tree

namespace Glob

variable {edition : Edition} {disk : Disk} {directory part name : Text} {t u : Tree}
  {es : List (Text × Tree)} {directoriesOnly : Bool}

/-! ### A part that stands for itself -/

theorem anyRest_of_suffix {test : Text → Bool} {s t : Text} (hsuffix : s <:+ t)
    (h : test s = true) : anyRest test t = true := by
  induction t with
  | nil =>
    obtain rfl := List.suffix_nil.mp hsuffix
    exact h
  | cons c t ih =>
    rw [anyRest, Bool.or_eq_true]
    obtain rfl | hsuffix := List.suffix_cons_iff.mp hsuffix
    · exact .inl h
    · exact .inr (ih hsuffix)

/-- **A part without brackets stands for itself.** -/
theorem isMatch_self (h : .char '[' ∉ part) : isMatch part part = true := by
  have hfits : ∀ fuel (t : Text), .char '[' ∉ t → t.length < fuel →
      fits (pieces fuel t) t = true := by
    intro fuel
    induction fuel with
    | zero => exact fun t _ hfuel => absurd hfuel (Nat.not_lt_zero _)
    | succ fuel ih =>
      intro t hbracket hfuel
      cases t with
      | nil => rfl
      | cons c rest =>
        obtain ⟨hc, hrest⟩ := List.ne_and_not_mem_of_not_mem_cons hbracket
        have hfuel : rest.length < fuel := Nat.lt_of_succ_lt_succ hfuel
        rw [pieces]
        split
        · -- A star takes itself and the stars behind it.
          have hsuffix := List.dropWhile_suffix (· = CodePoint.char '*') (l := rest)
          exact anyRest_of_suffix (hsuffix.trans (List.suffix_cons c rest))
            (ih _ (fun hmem => hrest (hsuffix.subset hmem))
              (Nat.lt_of_le_of_lt hsuffix.length_le hfuel))
        · split
          · exact ih rest hrest hfuel
          · rw [if_neg (Ne.symm hc), fits, Piece.allows, decide_eq_true rfl, Bool.true_and]
            · exact ih rest hrest hfuel
            · intro hmany
              cases hmany
  exact hfits _ part h (Nat.lt_succ_self _)

/-! ### What a part stands for in a directory -/

theorem mem_names (h : (name, t) ∈ u.entries) (hdirectory : directoriesOnly = true → t.isDirectory = true) :
    name ∈ names directoriesOnly u := by
  refine List.mem_map.mpr ⟨(name, t), List.mem_filter.mpr ⟨h, ?_⟩, rfl⟩
  cases directoriesOnly with
  | false => rfl
  | true => exact hdirectory rfl

/-- The names of the entries are found, unless they are hidden. -/
theorem mem_belowEntries (h : (name, t) ∈ es) (hhidden : isHidden name = false)
    (hdirectory : directoriesOnly = true → t.isDirectory = true) :
    name ∈ belowEntries directoriesOnly directory es := by
  induction es with
  | nil => cases h
  | cons e es ih =>
    obtain ⟨first, v⟩ := e
    rw [belowEntries, List.mem_append]
    obtain heq | h := List.mem_cons.mp h
    · obtain ⟨rfl, rfl⟩ := Prod.mk.inj heq
      have hkept : (isHidden name || (directoriesOnly && !t.isDirectory)) = false := by
        cases directoriesOnly with
        | false => rw [hhidden]; rfl
        | true => rw [hhidden, hdirectory rfl]; rfl
      rw [hkept, if_neg Bool.false_ne_true]
      exact .inl List.mem_cons_self
    · exact .inr (ih h)

theorem mem_below (h : (name, t) ∈ u.entries) (hhidden : isHidden name = false)
    (hshort : (Text.bytes directory).length < nameLimit)
    (hdirectory : directoriesOnly = true → t.isDirectory = true) :
    name ∈ below directoriesOnly directory u := by
  cases u with
  | file content => cases h
  | directory es =>
    rw [below, if_neg (Nat.not_le.mpr hshort)]
    exact mem_belowEntries h hhidden hdirectory

/-- A directory that is found can be listed, and so its name is short enough. -/
theorem listing_of_find (h : find disk (if directory.isEmpty then "." else directory) = .ok t) :
    listing disk directory = .ok t ∧ (Text.bytes directory).length < nameLimit := by
  refine ⟨by rw [listing, h], ?_⟩
  split at h
  · next hempty =>
    rw [List.isEmpty_iff.mp hempty]
    decide
  · exact (find_eq_ok.mp h).2.2.1

/-- A part finds what stands under its own text, if it stands for itself. -/
theorem mem_matchesIn_self {around : List Tree} {found : List Text} (hne : part ≠ [])
    (hself : isPattern part = true → isMatch part part = true)
    (hu : find disk (if directory.isEmpty then "." else directory) = .ok u)
    (hwalk : Tree.walk around u (added part) = .ok t)
    (ht : find disk (lookedAt directory part) = .ok t)
    (hdirectory : directoriesOnly = true → t.isDirectory = true)
    (h : matchesIn edition disk directoriesOnly directory part = .ok found) : part ∈ found := by
  obtain ⟨hlisting, hshort⟩ := listing_of_find hu
  have hentry : part ≠ "." → part ≠ ".." → (part, t) ∈ u.entries := by
    intro hdot hdots
    rw [added, if_neg hdot] at hwalk
    exact Tree.exists_entry_of_walk hdots hwalk
  rw [matchesIn] at h
  split at h
  · next heverywhere =>
    subst heverywhere
    obtain ⟨t', ht', rfl⟩ := Except.map_eq_ok.mp h
    obtain rfl := Except.ok.inj (hlisting.symm.trans ht')
    exact List.mem_append_right _
      (mem_below (hentry (by decide) (by decide)) rfl hshort hdirectory)
  · split at h
    · next hpattern =>
      obtain ⟨t', ht', rfl⟩ := Except.map_eq_ok.mp h
      obtain rfl := Except.ok.inj (hlisting.symm.trans ht')
      have hdot : part ≠ "." := fun heq => absurd (heq ▸ hpattern) (by decide)
      have hdots : part ≠ ".." := fun heq => absurd (heq ▸ hpattern) (by decide)
      refine List.mem_filter.mpr ⟨mem_names (hentry hdot hdots) hdirectory, ?_⟩
      rw [hself hpattern, Bool.and_true]
      cases isHidden part <;> rfl
    · rw [List.isEmpty_eq_false_iff.mpr hne, if_neg Bool.false_ne_true] at h
      obtain rfl := Except.ok.inj h
      rw [leads_of_find ht, if_pos rfl]
      exact List.mem_singleton_self part

/-! ### A pattern that finds what has its own name -/

/-- The names that the last part of a pattern stands for in some directories. -/
def foundIn (edition : Edition) (disk : Disk) (directoriesOnly : Bool) (part : Text)
    (directories : List Text) : Except FileFault (List Text) := do
  let found ← directories.mapM fun d => do
    return (← matchesIn edition disk directoriesOnly d part).map (joined d)
  return found.flatten

/-- The directories that the directory part of a pattern stands for. -/
def directoriesOf (edition : Edition) (disk : Disk) (fuel : Nat) (directory : Text) :
    Except FileFault (List Text) :=
  if isPattern directory then expandFrom edition disk fuel true directory else .ok [directory]

theorem mem_directoriesOf_self {fuel : Nat} {directories : List Text}
    (hself : isPattern directory = true → ∀ found,
      expandFrom edition disk fuel true directory = .ok found → directory ∈ found)
    (h : directoriesOf edition disk fuel directory = .ok directories) : directory ∈ directories := by
  rw [directoriesOf] at h
  split at h
  · next hpattern => exact hself hpattern directories h
  · obtain rfl := Except.ok.inj h
    exact List.mem_singleton_self directory

/-- A pattern with a directory part is expanded in the directories that this part stands for. -/
theorem expandFrom_inside {fuel : Nat} {pattern : Text}
    (hsplit : splitLast pattern = (directory, part)) (hpattern : isPattern pattern = true)
    (hne : directory ≠ []) : expandFrom edition disk (fuel + 1) directoriesOnly pattern =
      directoriesOf edition disk fuel directory >>= foundIn edition disk directoriesOnly part := by
  rw [expandFrom, hsplit, directoriesOf]
  simp only [hpattern, Bool.not_true, Bool.false_eq_true, if_false,
    List.isEmpty_eq_false_iff.mpr hne]
  split <;> rfl

/-- What is found in a directory is found in directories among which it is. -/
theorem mem_foundIn {directories found : List Text} (hdirectory : directory ∈ directories)
    (hpart : ∀ there, matchesIn edition disk directoriesOnly directory part = .ok there →
      name ∈ there)
    (h : foundIn edition disk directoriesOnly part directories = .ok found) :
    joined directory name ∈ found := by
  obtain ⟨rows, hrows, h⟩ := Except.bind_eq_ok.mp h
  obtain rfl := Except.ok.inj h
  obtain ⟨row, hrow, hfound⟩ :=
    List.exists_mem_of_forall₂ (Except.mapM_eq_ok.mp hrows).flip hdirectory
  obtain ⟨there, hthere, h⟩ := Except.bind_eq_ok.mp hfound
  obtain rfl := Except.ok.inj h
  exact List.mem_flatten.mpr ⟨_, hrow, List.mem_map_of_mem (hpart there hthere)⟩

/-- A name that its own pattern finds: its parts stand for themselves, with single slashes between them,
it does not end in a dot that asks for a directory, and the system takes it as it is written. -/
structure IsOwn (name : Text) : Prop where
  spelled : IsSpelled name
  outside : goesInside name = false
  short : (Text.bytes name).length < nameLimit
  parts : ∀ part ∈ Text.pieces slash name, isPattern part = true → isMatch part part = true

/-- What is no pattern stands for itself, if it leads anywhere. -/
theorem expandFrom_of_not_isPattern {fuel : Nat} (h : isPattern name = false) :
    expandFrom edition disk (fuel + 1) directoriesOnly name =
      .ok (if (if (splitLast name).2.isEmpty then isDirectory disk (splitLast name).1
        else leads disk name) then [name] else []) := by
  rw [expandFrom]
  simp only [h, Bool.not_false, if_true]
  rfl

/-- A name that is no pattern is found if it leads anywhere. -/
theorem mem_expandFrom_of_not_isPattern {fuel : Nat} {found : List Text} (hspelled : IsSpelled name)
    (hpattern : isPattern name = false) (ht : find disk name = .ok t)
    (h : expandFrom edition disk (fuel + 1) directoriesOnly name = .ok found) : name ∈ found := by
  have hpart : (splitLast name).2.isEmpty = false := by
    cases hspelled with
    | part hslash hne =>
      rw [splitLast_part hslash]
      exact List.isEmpty_eq_false_iff.mpr hne
    | rooted hslash hne =>
      rw [splitLast_rooted hslash]
      exact List.isEmpty_eq_false_iff.mpr hne
    | inside hdirectory hslash hne =>
      rw [splitLast_inside hdirectory hslash]
      exact List.isEmpty_eq_false_iff.mpr hne
  rw [expandFrom_of_not_isPattern hpattern, hpart, if_neg Bool.false_ne_true,
    if_pos (leads_of_find ht)] at h
  obtain rfl := Except.ok.inj h
  exact List.mem_singleton_self name

/-- A name without brackets is found by its own pattern. -/
theorem IsOwn.of_not_mem (hspelled : IsSpelled name) (houtside : goesInside name = false)
    (hshort : (Text.bytes name).length < nameLimit) (hbracket : .char '[' ∉ name) : IsOwn name where
  spelled := hspelled
  outside := houtside
  short := hshort
  parts := by
    intro part hpart _
    refine isMatch_self fun hmem => hbracket ?_
    rw [← Text.intercalate_pieces slash name]
    exact Text.mem_joined_of_mem hpart hmem

/-- By induction on the parts of the name: the directory is among those that its own pattern finds, and
the last part is found in it. -/
theorem mem_expandFrom_self {fuel : Nat} {found : List Text} (hspelled : IsSpelled name)
    (hparts : ∀ part ∈ Text.pieces slash name, isPattern part = true → isMatch part part = true)
    (hfuel : name.length ≤ fuel) (ht : find disk name = .ok t)
    (hdirectory : directoriesOnly = true → t.isDirectory = true)
    (h : expandFrom edition disk (fuel + 1) directoriesOnly name = .ok found) : name ∈ found := by
  by_cases hpattern : isPattern name = true
  swap
  · exact mem_expandFrom_of_not_isPattern hspelled (Bool.eq_false_iff.mpr hpattern) ht h
  induction hspelled generalizing fuel directoriesOnly t found with
  | @part part hslash hne =>
    obtain ⟨around, u, hu, -, hwalk⟩ := exists_find_part hslash hne ht
    rw [Text.pieces_of_not_mem hslash] at hparts
    rw [expandFrom, splitLast_part hslash] at h
    simp only [hpattern, Bool.not_true, Bool.false_eq_true, if_false, List.isEmpty_nil, if_true] at h
    exact mem_matchesIn_self hne (hparts part (List.mem_singleton_self part)) hu hwalk ht
      hdirectory h
  | @rooted part hslash hne =>
    obtain ⟨around, u, hu, -, hwalk⟩ := exists_find_rooted hslash hne ht
    rw [expandFrom_inside (splitLast_rooted hslash) hpattern (List.cons_ne_nil _ _)] at h
    refine mem_foundIn (List.mem_singleton_self [slash]) (fun there hthere => ?_) h
    refine mem_matchesIn_self hne (hparts part ?_) hu hwalk ?_ hdirectory hthere
    · rw [Text.pieces, if_pos rfl, Text.pieces_of_not_mem hslash]
      exact List.mem_cons_of_mem _ (List.mem_singleton_self part)
    · rw [lookedAt, List.isEmpty_eq_false_iff.mpr hne]
      exact ht
  | @inside directory part hspelled hslash hne ih =>
    obtain ⟨around, u, hu, hu', hwalk⟩ := exists_find_inside hspelled hslash hne ht
    have hgiven : directory.isEmpty = false := List.isEmpty_eq_false_iff.mpr hspelled.ne_nil
    rw [pieces_inside hslash, List.forall_mem_append] at hparts
    rw [expandFrom_inside (splitLast_inside hspelled hslash) hpattern hspelled.ne_nil] at h
    obtain ⟨directories, hdirectories, h⟩ := Except.bind_eq_ok.mp h
    rw [← joined_inside hspelled]
    refine mem_foundIn (mem_directoriesOf_self (fun hinner found hfound => ?_) hdirectories)
      (fun there hthere => ?_) h
    · -- The directory has at least one code point less, and so there is fuel for it.
      rw [List.length_append, List.length_cons] at hfuel
      obtain ⟨fuel, rfl⟩ : ∃ n, fuel = n + 1 := Nat.exists_eq_succ_of_ne_zero (by omega)
      exact ih hparts.1 (by omega) hu (fun _ => hu') hfound hinner
    · refine mem_matchesIn_self hne (hparts.2 part (List.mem_singleton_self part)) ?_ hwalk ?_
        hdirectory hthere
      · rw [hgiven, if_neg Bool.false_ne_true]
        exact hu
      · rw [lookedAt, List.isEmpty_eq_false_iff.mpr hne, hgiven, joined_inside hspelled]
        exact ht

/-- **A pattern finds what has its own name**, if its parts stand for themselves. -/
theorem mem_expand_self {content : List UInt8} {found : List Text} (hown : IsOwn name)
    (hfile : disk.find (.ofText name) = .ok (.file content))
    (h : expand edition disk name = .ok found) : name ∈ found := by
  have hfound : find disk name = .ok (.file content) :=
    find_eq_ok.mpr ⟨hfile, hown.spelled.ne_nil, hown.short,
      fun hinside => absurd (hown.outside.symm.trans hinside) Bool.false_ne_true⟩
  exact mem_expandFrom_self hown.spelled hown.parts le_rfl hfound
    (fun hgiven => absurd hgiven Bool.false_ne_true) h

/-! ### Names that the system hears of -/

section Known
variable {pattern : Text} {found : List Text}

theorem known_append {s t : Text} : FileFault.ofName? (s ++ t) = none ↔
    FileFault.ofName? s = none ∧ FileFault.ofName? t = none := by
  simp only [Text.ofName?_eq_none, List.forall_mem_append]

theorem known_of_subset {s t : Text} (hsubset : s ⊆ t) (h : FileFault.ofName? t = none) :
    FileFault.ofName? s = none :=
  Text.ofName?_eq_none.mpr fun c hc => Text.ofName?_eq_none.mp h c (hsubset hc)

theorem known_joined (hdirectory : FileFault.ofName? directory = none)
    (hname : FileFault.ofName? name = none) : FileFault.ofName? (joined directory name) = none := by
  rw [joined]
  split
  · exact known_append.mpr ⟨hdirectory, hname⟩
  · exact known_append.mpr ⟨known_append.mpr ⟨hdirectory, by decide⟩, hname⟩

/-- Both halves of a pattern are names that the system hears of. -/
theorem known_splitLast (h : FileFault.ofName? pattern = none) :
    FileFault.ofName? (splitLast pattern).1 = none ∧
      FileFault.ofName? (splitLast pattern).2 = none := by
  constructor
  · refine known_of_subset ?_ h
    rw [splitLast]
    dsimp only
    split
    · exact List.take_subset _ _
    · intro c hc
      have hdropped := (List.dropWhile_suffix isSlash).subset (List.mem_reverse.mp hc)
      exact List.take_subset _ _ (List.mem_reverse.mp hdropped)
  · refine known_of_subset (fun c hc => ?_) h
    exact List.mem_reverse.mp ((List.takeWhile_prefix _).subset (List.mem_reverse.mp hc))

/-- A name is still heard of when its dots and doubled slashes are left out. -/
theorem known_ofText (h : FileFault.ofName? name = none) :
    FileFault.ofName? (Path.ofText name).text = none := by
  rw [Path.text]
  split
  · decide
  · refine known_append.mpr ⟨?_, Text.ofName?_eq_none.mpr fun c hc => ?_⟩
    · rw [Text.ofName?_eq_none]
      exact fun c hc => (List.mem_replicate.mp hc).2 ▸ rfl
    · obtain rfl | ⟨part, hpart, hc⟩ := Text.mem_joined hc
      · rfl
      · have hmem := Text.mem_joined_of_mem (List.mem_filter.mp hpart).1 hc
        exact Text.ofName?_eq_none.mp h c ((Text.intercalate_pieces slash name) ▸ hmem)

theorem known_names (ht : t.IsNamed) (h : name ∈ names directoriesOnly t) :
    FileFault.ofName? name = none := by
  obtain ⟨e, he, rfl⟩ := List.mem_map.mp h
  cases ht with
  | file content => cases he
  | directory _ hnames _ => exact (hnames e (List.mem_filter.mp he).1).known

/-- What is found below entries is one of them, or is found below one of them. -/
theorem exists_of_mem_belowEntries (h : name ∈ belowEntries directoriesOnly directory es) :
    ∃ e ∈ es, name = e.1 ∨
      ∃ inner ∈ below directoriesOnly (lookedAt directory e.1) e.2, name = joined e.1 inner := by
  induction es with
  | nil => cases h
  | cons e es ih =>
    obtain ⟨first, v⟩ := e
    rw [belowEntries, List.mem_append] at h
    obtain h | h := h
    · refine ⟨(first, v), List.mem_cons_self, ?_⟩
      split at h
      · cases h
      · obtain rfl | h := List.mem_cons.mp h
        · exact .inl rfl
        · obtain ⟨inner, hinner, rfl⟩ := List.mem_map.mp h
          exact .inr ⟨inner, hinner, rfl⟩
    · obtain ⟨e, he, hname⟩ := ih h
      exact ⟨e, List.mem_cons_of_mem _ he, hname⟩

theorem known_below (ht : t.IsNamed) (h : name ∈ below directoriesOnly directory t) :
    FileFault.ofName? name = none := by
  induction ht generalizing directory name with
  | file content => cases h
  | directory _ hnames _ ih =>
    rw [below] at h
    obtain ⟨-, h⟩ := List.mem_ite_nil_left.mp h
    obtain ⟨e, he, rfl | ⟨inner, hinner, rfl⟩⟩ := exists_of_mem_belowEntries h
    · exact (hnames e he).known
    · exact known_joined (hnames e he).known (ih e he hinner)

/-- Whatever keeps a name from leading anywhere, the system has a word for it. -/
theorem description?_of_find {fault : FileFault} (hname : FileFault.ofName? name = none)
    (h : find disk name = .error fault) : fault.description?.isSome = true := by
  obtain h | ⟨t, -, h⟩ := Except.bind_eq_error.mp h
  · rw [Disk.find, known_ofText hname] at h
    dsimp only at h
    split at h
    · obtain rfl := Except.error.inj h
      rfl
    · exact Tree.description?_of_walk h
  · split at h
    · obtain rfl := Except.error.inj h
      rfl
    · split at h
      · obtain rfl := Except.error.inj h
        rfl
      · split at h
        · obtain rfl := Except.error.inj h
          rfl
        · cases h

variable (hroot : disk.root.IsNamed)
include hroot

/-- A directory that the system hears of can be listed; where there is none, the list is empty. -/
theorem exists_listing (h : FileFault.ofName? directory = none) :
    ∃ t, listing disk directory = .ok t ∧ t.IsNamed := by
  have hname : FileFault.ofName? (if directory.isEmpty then "." else directory) = none := by
    split
    · decide
    · exact h
  rw [listing]
  cases hfind : find disk (if directory.isEmpty then "." else directory) with
  | ok t =>
    obtain ⟨-, -, hwalk⟩ := Disk.find_eq_ok.mp (find_eq_ok.mp hfind).1
    exact ⟨t, rfl, hroot.walk (List.forall_mem_nil _) hwalk⟩
  | error fault =>
    exact ⟨.directory [], if_pos (description?_of_find hname hfind),
      .directory List.nodup_nil (List.forall_mem_nil _) (List.forall_mem_nil _)⟩

/-- One part of a pattern is looked for to the end in one directory. -/
theorem exists_matchesIn (hdirectory : FileFault.ofName? directory = none)
    (hpart : FileFault.ofName? part = none) :
    ∃ found, matchesIn edition disk directoriesOnly directory part = .ok found ∧
      ∀ name ∈ found, FileFault.ofName? name = none := by
  have hempty : FileFault.ofName? [] = none := rfl
  obtain ⟨t, ht, hnamed⟩ := exists_listing hroot hdirectory
  rw [matchesIn, ht]
  split
  · refine ⟨_, rfl, List.forall_mem_append.mpr ⟨fun name hname => ?_, fun name => known_below hnamed⟩⟩
    rw [List.mem_singleton.mp (List.mem_ite_nil_right.mp hname).2]
    exact hempty
  · split
    · exact ⟨_, rfl, fun name hname => known_names hnamed (List.mem_filter.mp hname).1⟩
    · split
      · refine ⟨_, rfl, fun name hname => ?_⟩
        rw [List.mem_singleton.mp (List.mem_ite_nil_right.mp hname).2]
        exact hempty
      · refine ⟨_, rfl, fun name hname => ?_⟩
        rw [List.mem_singleton.mp (List.mem_ite_nil_right.mp hname).2]
        exact hpart

/-- The same in several directories, one after the other. -/
theorem exists_foundIn {directories : List Text} (hpart : FileFault.ofName? part = none)
    (hdirectories : ∀ d ∈ directories, FileFault.ofName? d = none) :
    ∃ found, foundIn edition disk directoriesOnly part directories = .ok found ∧
      ∀ name ∈ found, FileFault.ofName? name = none := by
  have hrow : ∀ d ∈ directories, ∃ row,
      (do return (← matchesIn edition disk directoriesOnly d part).map (joined d)) = .ok row ∧
        ∀ name ∈ row, FileFault.ofName? name = none := by
    intro d hd
    obtain ⟨there, hthere, hknown⟩ := exists_matchesIn hroot (hdirectories d hd) hpart
    refine ⟨there.map (joined d), Except.bind_eq_ok.mpr ⟨there, hthere, rfl⟩, fun name hname => ?_⟩
    obtain ⟨inner, hinner, rfl⟩ := List.mem_map.mp hname
    exact known_joined (hdirectories d hd) (hknown inner hinner)
  obtain ⟨rows, hrows, hknown⟩ := Except.exists_mapM_eq_ok hrow
  refine ⟨rows.flatten, Except.bind_eq_ok.mpr ⟨rows, hrows, rfl⟩, fun name hname => ?_⟩
  obtain ⟨row, hrow, hname⟩ := List.mem_flatten.mp hname
  exact hknown row hrow name hname

/-- **Names that the system hears of are looked for to the end**, and lead to such names. -/
theorem exists_expandFrom {fuel : Nat} (h : FileFault.ofName? pattern = none) :
    ∃ found, expandFrom edition disk fuel directoriesOnly pattern = .ok found ∧
      ∀ name ∈ found, FileFault.ofName? name = none := by
  induction fuel generalizing directoriesOnly pattern with
  | zero => exact ⟨[], rfl, List.forall_mem_nil _⟩
  | succ fuel ih =>
    obtain ⟨hdirectory, hpart⟩ := known_splitLast h
    by_cases hpattern : isPattern pattern = true
    · by_cases hempty : (splitLast pattern).1 = []
      · rw [expandFrom]
        simp only [hpattern, hempty, Bool.not_true, Bool.false_eq_true, if_false, List.isEmpty_nil,
          if_true]
        exact exists_matchesIn hroot rfl hpart
      · rw [expandFrom_inside rfl hpattern hempty]
        have hdirectories : ∃ directories,
            directoriesOf edition disk fuel (splitLast pattern).1 = .ok directories ∧
              ∀ d ∈ directories, FileFault.ofName? d = none := by
          rw [directoriesOf]
          split
          · exact ih hdirectory
          · exact ⟨_, rfl, List.forall_mem_singleton.mpr hdirectory⟩
        obtain ⟨directories, hdirectories, hknown⟩ := hdirectories
        obtain ⟨found, hfound, hothers⟩ := exists_foundIn hroot hpart hknown
        exact ⟨found, Except.bind_eq_ok.mpr ⟨directories, hdirectories, hfound⟩, hothers⟩
    · rw [expandFrom_of_not_isPattern (Bool.eq_false_iff.mpr hpattern)]
      refine ⟨_, rfl, fun name hname => ?_⟩
      rw [List.mem_singleton.mp (List.mem_ite_nil_right.mp hname).2]
      exact h

theorem exists_expand (h : FileFault.ofName? pattern = none) :
    ∃ found, expand edition disk pattern = .ok found :=
  (exists_expandFrom hroot h).imp fun _ hfound => hfound.1

end Known

end Glob

end ApiLint
