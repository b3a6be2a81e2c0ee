import ApiLint.Proofs.Except
import ApiLint.Proofs.Path
import ApiLint.Tree

/-! What names lead to. A name that leads somewhere leads there as well when pairs of dots are taken
back beforehand (`leads_collapse`). A file that is written where a directory accepts one can be read
there (`read_write`), other files stay as they are (`sameFile_write`), and when it is deleted again the
disk is as it was (`delete_write`). -/
namespace ApiLint

namespace Tree

/-! ### The entries of a directory -/

section Entries
variable {name : Text} {es : List (Text × Tree)} {t u : Tree}

theorem lookup_putEntry : (putEntry name t es).lookup name = some t := by
  induction es with
  | nil => simp [putEntry]
  | cons e es ih =>
    obtain ⟨n, v⟩ := e
    by_cases hn : n = name
    · simp [putEntry, hn]
    · rw [putEntry, if_neg hn, List.lookup_cons]
      simp only [beq_eq_false_iff_ne.mpr (Ne.symm hn)]
      exact ih

theorem lookup_putEntry_of_ne {other : Text} (h : other ≠ name) :
    (putEntry name t es).lookup other = es.lookup other := by
  have hother : (other == name) = false := beq_eq_false_iff_ne.mpr h
  induction es with
  | nil => simp only [putEntry, List.lookup_cons, hother, List.lookup_nil]
  | cons e es ih =>
    obtain ⟨n, v⟩ := e
    rw [putEntry]
    split
    · next hn => simp only [hn, List.lookup_cons, hother]
    · simp only [List.lookup_cons, ih]

/-- A file is added below a directory by adding it to the part that leads there. -/
theorem add_below (content : List UInt8) {parts : List Text} {last : Text}
    (h : es.lookup name = some t) :
    (directory es).add content (name :: (parts ++ [last])) =
      directory (putEntry name (t.add content (parts ++ [last])) es) := by
  rw [Tree.add, get?, entries, h]
  rfl

end Entries

/-! ### Names without pairs of dots -/

/-- A row of parts leads downwards from a directory, part by part. -/
inductive Leads : Tree → List Text → Tree → Prop
  | here (t : Tree) : Leads t [] t
  | down {es : List (Text × Tree)} {part : Text} {parts : List Text} {t u : Tree}
      (hpart : part ≠ "..") (hlimit : (Text.bytes part).length ≤ partLimit)
      (hlookup : es.lookup part = some t) (h : Leads t parts u) :
      Leads (directory es) (part :: parts) u

namespace Leads

variable {t u v : Tree} {ps qs : List Text} {name : Text} {es : List (Text × Tree)}

theorem append (h : Leads t ps u) (h' : Leads u qs v) : Leads t (ps ++ qs) v := by
  induction h with
  | here _ => exact h'
  | down hpart hlimit hlookup _ ih => exact .down hpart hlimit hlookup (ih h')

/-- Where a row of parts leads, it goes on from there. -/
theorem walk_append (h : Leads t ps u) (above : List Tree) :
    ∃ around, ∀ rest, walk above t (ps ++ rest) = walk around u rest := by
  induction h generalizing above with
  | here _ => exact ⟨above, fun _ => rfl⟩
  | @down es part parts t u hpart hlimit hlookup _ ih =>
    obtain ⟨around, haround⟩ := ih (directory es :: above)
    refine ⟨around, fun rest => ?_⟩
    simp only [List.cons_append, walk, if_neg hpart, if_neg (Nat.not_lt.mpr hlimit), hlookup]
    exact haround rest

/-- What stands at the end of a row of parts is what the row leads to. -/
theorem walk_eq (h : Leads t ps u) (above : List Tree) : walk above t ps = .ok u := by
  obtain ⟨around, haround⟩ := h.walk_append above
  have hwalk := haround []
  simpa only [List.append_nil, walk] using hwalk

/-- Only what is not in a directory is missing behind it. -/
theorem of_missing (h : Leads t ps (directory es)) (hname : name ≠ "..") {above : List Tree}
    (hmissing : walk above t (ps ++ [name]) = .error .missing) :
    es.lookup name = none ∧ (Text.bytes name).length ≤ partLimit := by
  obtain ⟨around, haround⟩ := h.walk_append above
  simp only [haround, walk, if_neg hname] at hmissing
  split at hmissing
  · cases hmissing
  · next hlimit =>
    split at hmissing
    · next hnone => exact ⟨hnone, Nat.not_lt.mp hlimit⟩
    · cases hmissing

/-- A file that was added is there. -/
theorem add (content : List UInt8) (h : Leads t ps (directory es)) (hname : name ≠ "..")
    (hlimit : (Text.bytes name).length ≤ partLimit) :
    Leads (t.add content (ps ++ [name])) (ps ++ [name]) (file content) := by
  generalize hdirectory : directory es = u at h
  induction h with
  | here _ => exact .down hname hlimit lookup_putEntry (.here _)
  | down hpart hlimit hlookup _ ih =>
    refine .down hpart hlimit lookup_putEntry ?_
    rw [get?, entries, hlookup]
    exact ih hdirectory

end Leads

/-! ### What a search for files sees -/

section Seen
variable {t u : Tree} {ps qs : List Text} {name : Text} {es : List (Text × Tree)}

/-- Only a part that is too long makes a walk say so. -/
theorem exists_long_of_walk {above : List Tree} (h : walk above t qs = .error .nameTooLong) :
    ∃ part ∈ qs, partLimit < (Text.bytes part).length := by
  induction qs generalizing above t with
  | nil => cases h
  | cons part qs ih =>
    have hstep : partLimit < (Text.bytes part).length ∨
        ∃ around u, walk around u qs = .error .nameTooLong := by
      cases t with
      | file content => cases h
      | directory es =>
        simp only [walk] at h
        split at h
        · split at h <;> exact .inr ⟨_, _, h⟩
        · split at h
          · next hlong => exact .inl hlong
          · split at h
            · cases h
            · exact .inr ⟨_, _, h⟩
    obtain hlong | ⟨around, u, hrest⟩ := hstep
    · exact ⟨part, List.mem_cons_self, hlong⟩
    · obtain ⟨long, hmem, hlong⟩ := ih hrest
      exact ⟨long, List.mem_cons_of_mem _ hmem, hlong⟩

/-- Without pairs of dots the directories around do not matter. -/
theorem walk_above (hdots : Text.ofString ".." ∉ qs) (above around : List Tree) :
    walk above t qs = walk around t qs := by
  induction qs generalizing above around t with
  | nil => rfl
  | cons part qs ih =>
    obtain ⟨hpart, hqs⟩ := List.ne_and_not_mem_of_not_mem_cons hdots
    cases t with
    | file content => rfl
    | directory es =>
      simp only [walk, if_neg (Ne.symm hpart)]
      cases es.lookup part with
      | none => rfl
      | some t =>
        dsimp only
        rw [ih hqs (directory es :: above) (directory es :: around)]

/-- What a search for files sees of a name: the bytes of a file, or none, or that the name is too
long. -/
def seen : Except FileFault Tree → Except FileFault (Option (List UInt8))
  | .ok (file content) => .ok (some content)
  | .error .nameTooLong => .error .nameTooLong
  | _ => .ok none

/-- A file is seen only where the name leads to one: faults that stand for absence are not mistaken for
it. -/
theorem seen_eq_some {x : Except FileFault Tree} {content : List UInt8} :
    seen x = .ok (some content) ↔ x = .ok (file content) := by
  constructor
  · intro h
    rw [seen.eq_def] at h
    split at h
    · obtain rfl := Option.some.inj (Except.ok.inj h)
      rfl
    · cases h
    · cases h
  · rintro rfl
    rfl

/-- A new entry is seen by a walk to its own name alone. -/
theorem seen_walk_putEntry (content : List UInt8) (hnew : es.lookup name = none)
    (hdots : Text.ofString ".." ∉ qs) (hother : qs ≠ [name]) (above around : List Tree) :
    seen (walk above (directory (putEntry name (file content) es)) qs) =
      seen (walk around (directory es) qs) := by
  cases qs with
  | nil => rfl
  | cons part qs =>
    obtain ⟨hpart, hqs⟩ := List.ne_and_not_mem_of_not_mem_cons hdots
    simp only [walk, if_neg (Ne.symm hpart)]
    by_cases hname : part = name
    · subst hname
      rw [lookup_putEntry, hnew]
      dsimp only
      cases qs with
      | nil => exact absurd rfl hother
      | cons next qs => split <;> rfl
    · rw [lookup_putEntry_of_ne hname]
      cases es.lookup part with
      | none => rfl
      | some t =>
        dsimp only
        rw [walk_above hqs]

/-- A walk that turns off where a file was added, or goes on behind it, sees what it saw. -/
theorem Leads.seen_add (content : List UInt8) (h : Leads t ps (directory es))
    (hnew : es.lookup name = none) (hdots : Text.ofString ".." ∉ qs) (hother : qs ≠ ps ++ [name])
    (above around : List Tree) :
    seen (walk above (t.add content (ps ++ [name])) qs) = seen (walk around t qs) := by
  generalize hdirectory : directory es = u at h
  induction h generalizing qs above around with
  | here _ =>
    obtain rfl := hdirectory
    exact seen_walk_putEntry content hnew hdots hother above around
  | @down es' part parts t u _ _ hlookup _ ih =>
    rw [List.cons_append, add_below content hlookup]
    cases qs with
    | nil => rfl
    | cons next qs =>
      obtain ⟨hnext, hqs⟩ := List.ne_and_not_mem_of_not_mem_cons hdots
      simp only [walk, if_neg (Ne.symm hnext)]
      by_cases hpart : next = part
      · subst hpart
        rw [lookup_putEntry, hlookup]
        dsimp only
        split
        · rfl
        · exact ih hqs (fun heq => hother (congrArg _ heq)) _ _ hdirectory
      · rw [lookup_putEntry_of_ne hpart]
        cases es'.lookup next with
        | none => rfl
        | some t =>
          dsimp only
          rw [walk_above hqs]

end Seen

/-! ### Names with pairs of dots -/

/-- Where a walk from a tree stands: the parts that lead there, the last one first, and the
directories around it, the nearest one first. -/
inductive Stands (root : Tree) : List Text → List Tree → Tree → Prop
  | root : Stands root [] [] root
  | down {done : List Text} {above : List Tree} {es : List (Text × Tree)} {part : Text} {t : Tree}
      (h : Stands root done above (directory es)) (hpart : part ≠ "..")
      (hlimit : (Text.bytes part).length ≤ partLimit) (hlookup : es.lookup part = some t) :
      Stands root (part :: done) (directory es :: above) t

namespace Stands

variable {root here t : Tree} {done parts : List Text} {above : List Tree}

theorem leads (h : Stands root done above here) : Leads root done.reverse here := by
  induction h with
  | root => exact .here _
  | down _ hpart hlimit hlookup ih =>
    rw [List.reverse_cons]
    exact ih.append (.down hpart hlimit hlookup (.here _))

/-- A walk that comes to its end stands where its parts lead without pairs of dots. -/
theorem walk (h : Stands root done above here) (hwalk : Tree.walk above here parts = .ok t) :
    ∃ around, Stands root (parts.foldl (fun (done : List Text) (part : Text) =>
      if part = ".." then done.tail else part :: done) done) around t := by
  induction parts generalizing done above here with
  | nil =>
    obtain rfl := Except.ok.inj hwalk
    exact ⟨above, h⟩
  | cons part parts ih =>
    rw [List.foldl_cons]
    cases here with
    | file content => cases hwalk
    | directory es =>
      simp only [Tree.walk] at hwalk
      split at hwalk
      · next hdots =>
        rw [if_pos hdots]
        cases h with
        | root => exact ih .root hwalk
        | down h _ _ _ => exact ih h hwalk
      · next hpart =>
        rw [if_neg hpart]
        split at hwalk
        · cases hwalk
        · next hlimit =>
          split at hwalk
          · cases hwalk
          · next hlookup => exact ih (.down h hpart (Nat.not_lt.mp hlimit) hlookup) hwalk

end Stands

/-- **Pairs of dots can be taken back beforehand**: what a row of parts leads to, it leads to without
them. -/
theorem leads_collapse {root t : Tree} {parts : List Text} (h : walk [] root parts = .ok t) :
    Leads root (Path.collapse parts) t := by
  obtain ⟨around, hstands⟩ := Stands.root.walk h
  exact hstands.leads

end Tree

/-! ### Files on a disk -/

namespace Disk

variable {disk : Disk} {p directory : Path} {name : Text}

/-- A file of a name can be made: its directory is there and has nothing of the name, and the system
takes the name. -/
structure Accepts (disk : Disk) (p : Path) : Prop where
  directory : disk.isDirectory p.parent = true
  fresh : disk.find p = .error .missing

/-- A name that the system takes leads where its parts lead. -/
theorem find_eq_ok {t : Tree} : disk.find p = .ok t ↔ FileFault.ofName? p.text = none ∧
    (Text.bytes p.text).length < nameLimit ∧
      Tree.walk [] disk.root (disk.fullParts p) = .ok t := by
  rw [find]
  cases FileFault.ofName? p.text with
  | some fault =>
    constructor
    · exact nofun
    · exact fun h => nomatch h.1
  | none =>
    dsimp only
    split
    · next hlong =>
      constructor
      · exact nofun
      · exact fun h => absurd h.2.1 (Nat.not_lt.mpr hlong)
    · next hlength => exact ⟨fun h => ⟨rfl, Nat.not_le.mp hlength, h⟩, fun h => h.2.2⟩

/-! What a search for files asks of a name: whether it is that of a file, and then its bytes. -/

/-- Two disks have the same file under a name, or none, or both refuse the name. -/
structure SameFile (disk disk' : Disk) (p : Path) : Prop where
  isFile : disk'.isFile p = disk.isFile p
  read : disk.isFile p = .ok true → disk'.read p = disk.read p

theorem isFile_eq_seen (disk : Disk) (p : Path) :
    disk.isFile p = (Tree.seen (disk.find p)).map Option.isSome := by
  rw [isFile]
  cases disk.find p with
  | ok t => cases t <;> rfl
  | error fault => cases fault <;> rfl

theorem SameFile.of_seen {disk' : Disk}
    (h : Tree.seen (disk'.find p) = Tree.seen (disk.find p)) : SameFile disk disk' p := by
  refine ⟨by rw [isFile_eq_seen, isFile_eq_seen, h], fun hfile => ?_⟩
  rw [isFile_eq_seen] at hfile
  obtain ⟨found, hseen, hfound⟩ := Except.map_eq_ok.mp hfile
  obtain ⟨content, rfl⟩ := Option.isSome_iff_exists.mp hfound
  rw [Disk.read, Disk.read, Tree.seen_eq_some.mp hseen, Tree.seen_eq_some.mp (h.trans hseen)]

theorem eq_nameTooLong_of_isFile {fault : FileFault} (h : disk.isFile p = .error fault) :
    fault = .nameTooLong := by
  rw [isFile] at h
  split at h
  · cases h
  · exact (Except.error.inj h).symm
  · cases h

theorem ofName?_ne_nameTooLong (name : Text) : FileFault.ofName? name ≠ some .nameTooLong := by
  rw [FileFault.ofName?]
  split
  · exact nofun
  · split <;> exact nofun

/-- A name is refused when it has too many bytes or a part of it has. -/
theorem long_of_isFile (h : disk.isFile p = .error .nameTooLong) :
    nameLimit ≤ (Text.bytes p.text).length ∨
      ∃ part ∈ disk.fullParts p, partLimit < (Text.bytes part).length := by
  have hfind : disk.find p = .error .nameTooLong := by
    rw [isFile] at h
    split at h
    · cases h
    · assumption
    · cases h
  rw [find] at hfind
  split at hfind
  · next fault hname =>
    obtain rfl := Except.error.inj hfind
    exact absurd hname (ofName?_ne_nameTooLong _)
  · split at hfind
    · next hlong => exact .inl hlong
    · exact .inr (Tree.exists_long_of_walk hfind)

theorem fullParts_of_isAbsolute (hp : p.isAbsolute = true) : disk.fullParts p = p.parts := by
  rw [fullParts, Path.join, if_pos hp]

theorem fullParts_child (hdirectory : directory.isAbsolute = true) :
    disk.fullParts (directory.child name) = directory.parts ++ [name] :=
  fullParts_of_isAbsolute hdirectory

theorem leads_of_isDirectory (hp : p.isAbsolute = true) (hdots : Text.ofString ".." ∉ p.parts)
    (h : disk.isDirectory p = true) : ∃ es, Tree.Leads disk.root p.parts (.directory es) := by
  rw [isDirectory] at h
  split at h
  · next t hfind =>
    have hleads := Tree.leads_collapse (find_eq_ok.mp hfind).2.2
    rw [fullParts_of_isAbsolute hp, Path.collapse_of_not_mem hdots] at hleads
    cases t with
    | file _ => cases h
    | directory es => exact ⟨es, hleads⟩
  · cases h

/-- What is meant by a name is a full name without pairs of dots. -/
theorem canonical_plain (h : disk.canonical p = .ok directory) :
    directory.slashes = 1 ∧ Text.ofString ".." ∉ directory.parts := by
  rw [canonical] at h
  split at h
  · cases h
  · obtain rfl := Except.ok.inj h
    exact ⟨rfl, Path.dots_not_mem_collapse _⟩

/-- A name under which nothing is found is one that can be looked up. -/
theorem find_of_missing (h : disk.find p = .error .missing) (disk' : Disk) :
    disk'.find p = Tree.walk [] disk'.root (disk'.fullParts p) := by
  rw [find] at h ⊢
  cases hname : FileFault.ofName? p.text with
  | some fault =>
    rw [hname] at h
    obtain rfl := Except.error.inj h
    rw [FileFault.ofName?] at hname
    split at hname
    · cases hname
    · split at hname <;> cases hname
  | none =>
    rw [hname] at h
    dsimp only at h ⊢
    split at h
    · cases h
    · next hlength => rw [if_neg hlength]

/-! A directory with an absolute name without pairs of dots, and a new file in it. -/

section Accepted
variable (hdirectory : directory.isAbsolute = true) (hdots : Text.ofString ".." ∉ directory.parts)
  (hname : name ≠ "..") (h : disk.Accepts (directory.child name)) (content : List UInt8)
include hdirectory hdots hname h

theorem Accepts.leads : ∃ es, Tree.Leads disk.root directory.parts (.directory es) ∧
    es.lookup name = none ∧ (Text.bytes name).length ≤ partLimit := by
  obtain ⟨es, hes⟩ := leads_of_isDirectory hdirectory hdots (Path.parent_child .. ▸ h.directory)
  have hmissing := h.fresh
  rw [find_of_missing h.fresh, fullParts_child hdirectory] at hmissing
  exact ⟨es, hes, hes.of_missing hname hmissing⟩

/-- **A file under another name is not touched.** -/
theorem sameFile_write (hp : p.isAbsolute = true) (hclean : Text.ofString ".." ∉ p.parts)
    (hother : p.parts ≠ directory.parts ++ [name]) :
    SameFile disk (disk.write (directory.child name) content) p := by
  obtain ⟨es, hes, hnew, -⟩ := h.leads hdirectory hdots hname
  refine .of_seen ?_
  rw [find, find]
  split
  · rfl
  · split
    · rfl
    · rw [write, fullParts_child hdirectory, fullParts_of_isAbsolute hp,
        fullParts_of_isAbsolute hp]
      exact hes.seen_add content hnew hclean hother [] []

end Accepted

end Disk

end ApiLint
