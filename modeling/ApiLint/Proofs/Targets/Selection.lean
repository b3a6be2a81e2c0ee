import ApiLint.Proofs.Except
import ApiLint.Proofs.Text.Order
import ApiLint.Proofs.Tree
import ApiLint.Targets

/-! Which of the names that were found are taken. A name is taken when it says that it can be linted and
a file stands there (`IsLintable`); only a name that is too long stops the selection (`IsRefused`). What
is taken stands in order, as often as it was found (`exists_select`). -/
namespace ApiLint.Targets

variable {disk : Disk} {root : Path} {name : Text} {names files : List Text} {failure : Failure}

/-- A name is that of a file that can be linted. -/
def IsLintable (disk : Disk) (root : Path) (name : Text) : Prop :=
  (Path.ofText name).suffix ∈ suffixes ∧
    ∃ content, disk.find (root.join (.ofText name)) = .ok (.file content)

/-- A name could be that of a file that can be linted, but is too long for the system. -/
def IsRefused (disk : Disk) (root : Path) (name : Text) : Prop :=
  (Path.ofText name).suffix ∈ suffixes ∧
    disk.find (root.join (.ofText name)) = .error .nameTooLong

def refusal (root : Path) (name : Text) : Failure :=
  .file .nameTooLong (root.join (.ofText name)).text

theorem ofFile_isFile_eq_true {p : Path} : Failure.ofFile disk.isFile p = .ok true ↔
    ∃ content, disk.find p = .ok (.file content) := by
  rw [Failure.ofFile, Except.mapError_ok_iff, Disk.isFile]
  split
  · next content hfind => simp [hfind]
  · next hfind => simp [hfind]
  · next hfile _ =>
    simp only [Except.ok.injEq, Bool.false_eq_true, false_iff]
    exact fun hgiven => hgiven.elim fun content hfind => hfile content hfind

theorem ofFile_isFile_eq_error {p : Path} : Failure.ofFile disk.isFile p = .error failure ↔
    disk.find p = .error .nameTooLong ∧ failure = .file .nameTooLong p.text := by
  rw [Failure.ofFile, Disk.isFile]
  split
  · next hfind => simp [hfind, Except.mapError]
  · next hfind => simp [hfind, Except.mapError, eq_comm]
  · next hlong =>
    constructor
    · intro h
      cases h
    · exact fun hgiven => absurd hgiven.1 hlong

theorem exists_ofFile_isFile {p : Path} : (∃ b, Failure.ofFile disk.isFile p = .ok b) ↔
    disk.find p ≠ .error .nameTooLong := by
  cases h : Failure.ofFile disk.isFile p with
  | ok b =>
    refine iff_of_true ⟨b, rfl⟩ fun hlong => ?_
    cases (ofFile_isFile_eq_error.mpr ⟨hlong, rfl⟩).symm.trans h
  | error failure =>
    refine iff_of_false (fun hgiven => ?_) (not_not_intro (ofFile_isFile_eq_error.mp h).1)
    obtain ⟨b, hb⟩ := hgiven
    cases hb

theorem isLintable_eq_true :
    isLintable disk root name = .ok true ↔ IsLintable disk root name := by
  simp only [isLintable, IsLintable, List.contains_iff_mem]
  split
  · next hsuffix => rw [ofFile_isFile_eq_true, and_iff_right hsuffix]
  · next hsuffix => simp [hsuffix]

theorem isLintable_eq_error :
    isLintable disk root name = .error failure ↔
      IsRefused disk root name ∧ failure = refusal root name := by
  simp only [isLintable, IsRefused, List.contains_iff_mem, refusal]
  split
  · next hsuffix => rw [ofFile_isFile_eq_error, and_iff_right hsuffix]
  · next hsuffix => simp [hsuffix]

theorem exists_isLintable : (∃ b, isLintable disk root name = .ok b) ↔ ¬IsRefused disk root name := by
  cases h : isLintable disk root name with
  | ok b =>
    refine iff_of_true ⟨b, rfl⟩ fun hrefused => ?_
    cases (isLintable_eq_error.mpr ⟨hrefused, rfl⟩).symm.trans h
  | error failure =>
    exact iff_of_false (fun hgiven => hgiven.elim nofun) (not_not_intro (isLintable_eq_error.mp h).1)

/-- The names of files that can be linted among some names, in order. -/
def select (disk : Disk) (root : Path) (names : List Text) : Except Failure (List Text) :=
  (names.filterM (isLintable disk root)).map Text.sorted

/-- Listed or walked, the names are selected in one way. -/
theorem discover_eq_select {listing : Listing}
    (h : listing.files? = some names ∨
      listing.files? = none ∧ candidates disk root = .ok names) :
    discover disk listing root = select disk root names := by
  have hbind : discover disk listing root =
      names.filterM (isLintable disk root) >>= fun files => pure (Text.sorted files) := by
    rw [discover]
    obtain h | ⟨h, hcandidates⟩ := h
    · rw [h]
      rfl
    · rw [h, hcandidates]
      rfl
  rw [hbind, select]
  cases names.filterM (isLintable disk root) <;> rfl

/-- A row of names of files that can be linted: those among some names, each as often as there, in
order. -/
structure Selects (disk : Disk) (root : Path) (names files : List Text) : Prop where
  mem : ∀ name, name ∈ files ↔ name ∈ names ∧ IsLintable disk root name
  count : ∀ name, IsLintable disk root name → files.count name = names.count name
  ordered : files.Pairwise fun s t => s.codes ≤ t.codes
  strict : (files.Pairwise fun s t => s.codes < t.codes) ↔
    ∀ name, IsLintable disk root name → names.count name ≤ 1

/-- The selection are the names that can be linted, in order, each as often as it is given. -/
theorem selects_sorted_filter :
    Selects disk root names
      (Text.sorted (names.filter fun name => (isLintable disk root name).holds id)) := by
  have hholds : ∀ name, (isLintable disk root name).holds id = true ↔
      IsLintable disk root name := by
    intro name
    rw [← isLintable_eq_true]
    cases isLintable disk root name <;> simp [Except.holds]
  have hcount : ∀ name, IsLintable disk root name →
      (names.filter fun name => (isLintable disk root name).holds id).count name =
        names.count name :=
    fun name hname => List.count_filter (a := name)
      (p := fun name => (isLintable disk root name).holds id) ((hholds name).mpr hname)
  refine ⟨fun name => ?_, fun name hname => ?_, Text.sorted_pairwise _, ?_⟩
  · rw [(Text.sorted_perm _).mem_iff, List.mem_filter, hholds]
  · rw [(Text.sorted_perm _).count_eq, hcount name hname]
  · rw [Text.sorted_strict_iff, List.nodup_iff_count_le_one]
    refine forall_congr' fun name => ?_
    by_cases hname : IsLintable disk root name
    · rw [hcount name hname]
      exact (imp_iff_right hname).symm
    · have hnot : name ∉ names.filter fun name => (isLintable disk root name).holds id :=
        fun hmem => hname ((hholds name).mp (List.mem_filter.mp hmem).2)
      rw [List.count_eq_zero_of_not_mem hnot]
      exact iff_of_true (Nat.zero_le 1) fun h => absurd h hname

/-- A selection comes to its end unless a name is refused. -/
theorem exists_select (h : ∀ name ∈ names, ¬IsRefused disk root name) :
    ∃ files, select disk root names = .ok files ∧ Selects disk root names files :=
  ⟨_, Except.map_eq_ok.mpr ⟨_, Except.filterM_eq_ok.mpr
    ⟨fun name hname => exists_isLintable.mpr (h name hname), rfl⟩, rfl⟩, selects_sorted_filter⟩

theorem selects_of_select (h : select disk root names = .ok files) :
    (∀ name ∈ names, ¬IsRefused disk root name) ∧ Selects disk root names files := by
  obtain ⟨kept, hkept, rfl⟩ := Except.map_eq_ok.mp h
  obtain ⟨hnames, rfl⟩ := Except.filterM_eq_ok.mp hkept
  exact ⟨fun name hname => exists_isLintable.mp (hnames name hname), selects_sorted_filter⟩

/-- The first name that is refused is what a selection fails with. -/
theorem select_eq_error : select disk root names = .error failure ↔
    ∃ before name after, names = before ++ name :: after ∧
      (∀ other ∈ before, ¬IsRefused disk root other) ∧ IsRefused disk root name ∧
        failure = refusal root name := by
  rw [select, Except.map_eq_error, Except.filterM_eq_error]
  simp only [exists_isLintable, isLintable_eq_error]

end ApiLint.Targets
