import Mathlib.Data.List.Forall2

/-! What a computation that may fail has done when it gave a result: each of its parts gave one. A
row of results stands in relation to the row that they come from. -/
namespace List

variable {α β : Type} {R : α → β → Prop} {xs : List α} {ys : List β}

theorem exists_getElem?_of_forall₂ (h : Forall₂ R xs ys) {i : Nat} {y : β}
    (hy : ys[i]? = some y) : ∃ x, xs[i]? = some x ∧ R x y := by
  induction h generalizing i with
  | nil => cases hy
  | @cons x z xs ys hxz _ ih =>
    cases i with
    | zero => exact ⟨x, rfl, Option.some.inj hy ▸ hxz⟩
    | succ i => exact ih hy

theorem exists_mem_of_forall₂ (h : Forall₂ R xs ys) {y : β} (hy : y ∈ ys) : ∃ x ∈ xs, R x y := by
  obtain ⟨i, hi⟩ := mem_iff_getElem?.mp hy
  obtain ⟨x, hx, hR⟩ := exists_getElem?_of_forall₂ h hi
  exact ⟨x, mem_of_getElem? hx, hR⟩

theorem exists_append_of_forall₂ {xs' : List α} (h : Forall₂ R (xs ++ xs') ys) :
    ∃ as bs, ys = as ++ bs ∧ Forall₂ R xs as ∧ Forall₂ R xs' bs := by
  refine ⟨ys.take xs.length, ys.drop xs.length, (ys.take_append_drop _).symm, ?_, ?_⟩
  · simpa using forall₂_take xs.length h
  · simpa using forall₂_drop xs.length h

end List

namespace Except

variable {ε ε' α β : Type}

theorem bind_eq_ok {x : Except ε α} {f : α → Except ε β} {b : β} :
    x >>= f = .ok b ↔ ∃ a, x = .ok a ∧ f a = .ok b := by
  cases x with
  | error e => simp only [bind, Except.bind, reduceCtorEq, false_and, exists_false]
  | ok a => simp only [bind, Except.bind, Except.ok.injEq, exists_eq_left']

theorem bind_eq_error {x : Except ε α} {f : α → Except ε β} {e : ε} :
    x >>= f = .error e ↔ x = .error e ∨ ∃ a, x = .ok a ∧ f a = .error e := by
  cases x with
  | error e => simp only [bind, Except.bind, Except.error.injEq, reduceCtorEq, false_and,
      exists_false, or_false]
  | ok a => simp only [bind, Except.bind, Except.ok.injEq, reduceCtorEq, false_or, exists_eq_left']

theorem map_eq_ok {x : Except ε α} {f : α → β} {b : β} :
    x.map f = .ok b ↔ ∃ a, x = .ok a ∧ f a = b := by
  cases x with
  | error e => simp only [Except.map, reduceCtorEq, false_and, exists_false]
  | ok a => simp only [Except.map, Except.ok.injEq, exists_eq_left']

theorem map_eq_error {x : Except ε α} {f : α → β} {e : ε} : x.map f = .error e ↔ x = .error e := by
  cases x with
  | error e' => simp only [Except.map, Except.error.injEq]
  | ok a => simp only [Except.map, reduceCtorEq]

/-- Another failure makes no result. -/
theorem mapError_ok_iff {f : ε → ε'} {x : Except ε α} {a : α} :
    x.mapError f = .ok a ↔ x = .ok a := by
  cases x with
  | error e => simp only [Except.mapError, reduceCtorEq]
  | ok a' => simp only [Except.mapError, Except.ok.injEq]

/-- A failure that is another one now was one before. -/
theorem mapError_eq_error {f : ε → ε'} {x : Except ε α} {e' : ε'} :
    x.mapError f = .error e' ↔ ∃ e, x = .error e ∧ f e = e' := by
  cases x with
  | error e => simp only [Except.mapError, Except.error.injEq, exists_eq_left']
  | ok a => simp only [Except.mapError, reduceCtorEq, false_and, exists_false]

theorem exists_of_isSome_toOption {x : Except ε α} (h : x.toOption.isSome = true) :
    ∃ a, x = .ok a := by
  cases x with
  | error e => cases h
  | ok a => exact ⟨a, rfl⟩

/-- Whether a computation has a result, and one that passes a check. -/
def holds (check : α → Bool) : Except ε α → Bool
  | ok a => check a
  | error _ => false

theorem exists_of_holds {check : α → Bool} {x : Except ε α} (h : x.holds check = true) :
    ∃ a, x = .ok a ∧ check a = true := by
  cases x with
  | error e => cases h
  | ok a => exact ⟨a, rfl, h⟩

theorem eq_ok_of_holds [DecidableEq α] {a : α} {x : Except ε α} (h : x.holds (· = a) = true) :
    x = .ok a := by
  obtain ⟨b, hb, heq⟩ := exists_of_holds h
  rw [hb, of_decide_eq_true heq]

/-- Whether a computation fails, and in a way that passes a check. -/
def fails (check : ε → Bool) : Except ε α → Bool
  | ok _ => false
  | error e => check e

theorem exists_of_fails {check : ε → Bool} {x : Except ε α} (h : x.fails check = true) :
    ∃ e, x = .error e ∧ check e = true := by
  cases x with
  | error e => exact ⟨e, rfl, h⟩
  | ok a => cases h

theorem eq_error_of_fails [DecidableEq ε] {e : ε} {x : Except ε α} (h : x.fails (· = e) = true) :
    x = .error e := by
  obtain ⟨e', he, heq⟩ := exists_of_fails h
  rw [he, of_decide_eq_true heq]

/-- A row of computations gives the row of their results. -/
theorem mapM_eq_ok {f : α → Except ε β} {xs : List α} {ys : List β} :
    xs.mapM f = .ok ys ↔ List.Forall₂ (fun x y => f x = .ok y) xs ys := by
  induction xs generalizing ys with
  | nil =>
    rw [List.mapM_nil, List.forall₂_nil_left_iff]
    exact ⟨fun h => (Except.ok.inj h).symm, fun h => h ▸ rfl⟩
  | cons x xs ih =>
    rw [List.mapM_cons, bind_eq_ok, List.forall₂_cons_left_iff]
    constructor
    · intro hgiven
      obtain ⟨y, hy, h⟩ := hgiven
      obtain ⟨ys, hys, h⟩ := bind_eq_ok.mp h
      exact ⟨y, ys, hy, ih.mp hys, (Except.ok.inj h).symm⟩
    · intro hgiven
      obtain ⟨y, ys, hy, hys, rfl⟩ := hgiven
      exact ⟨y, hy, bind_eq_ok.mpr ⟨ys, ih.mpr hys, rfl⟩⟩

/-- A row of computations that all have results has a row of such results. -/
theorem exists_mapM_eq_ok {P : β → Prop} {f : α → Except ε β} {xs : List α}
    (h : ∀ x ∈ xs, ∃ y, f x = .ok y ∧ P y) : ∃ ys, xs.mapM f = .ok ys ∧ ∀ y ∈ ys, P y := by
  induction xs with
  | nil => exact ⟨[], rfl, List.forall_mem_nil _⟩
  | cons x xs ih =>
    obtain ⟨⟨y, hy, hP⟩, hxs⟩ := List.forall_mem_cons.mp h
    obtain ⟨ys, hys, hPs⟩ := ih hxs
    refine ⟨y :: ys, ?_, List.forall_mem_cons.mpr ⟨hP, hPs⟩⟩
    rw [mapM_eq_ok] at hys ⊢
    exact .cons hy hys

/-- A row of computations fails with the first of them that fails. -/
theorem mapM_eq_error {f : α → Except ε β} {xs : List α} {e : ε} :
    xs.mapM f = .error e ↔ ∃ before x after, xs = before ++ x :: after ∧
      (∀ y ∈ before, ∃ b, f y = .ok b) ∧ f x = .error e := by
  induction xs with
  | nil => exact ⟨nofun, fun ⟨before, _, _, h, _⟩ => by cases before <;> cases h⟩
  | cons x xs ih =>
    rw [List.mapM_cons, bind_eq_error]
    constructor
    · rintro (hx | ⟨b, hb, h⟩)
      · exact ⟨[], x, xs, rfl, List.forall_mem_nil _, hx⟩
      · obtain hxs | ⟨bs, -, h⟩ := bind_eq_error.mp h
        · obtain ⟨before, y, after, rfl, hbefore, hy⟩ := ih.mp hxs
          exact ⟨x :: before, y, after, rfl, List.forall_mem_cons.mpr ⟨⟨b, hb⟩, hbefore⟩, hy⟩
        · cases h
    · rintro ⟨before, y, after, heq, hbefore, hy⟩
      cases before with
      | nil =>
        obtain ⟨rfl, rfl⟩ := List.cons.inj heq
        exact .inl hy
      | cons z before =>
        obtain ⟨rfl, rfl⟩ := List.cons.inj heq
        obtain ⟨⟨b, hb⟩, hrest⟩ := List.forall_mem_cons.mp hbefore
        exact .inr ⟨b, hb, bind_eq_error.mpr (.inl (ih.mpr ⟨before, y, after, rfl, hrest, hy⟩))⟩

/-- What is kept of a row are those that pass a check, if every check gives an answer. -/
theorem filterM_eq_ok {f : α → Except ε Bool} {xs ys : List α} :
    xs.filterM f = .ok ys ↔
      (∀ x ∈ xs, ∃ b, f x = .ok b) ∧ ys = xs.filter fun x => (f x).holds id := by
  have haux : ∀ kept zs, xs.filterAuxM f kept = .ok zs ↔ (∀ x ∈ xs, ∃ b, f x = .ok b) ∧
      zs = (xs.filter fun x => (f x).holds id).reverse ++ kept := by
    induction xs with
    | nil =>
      intro kept zs
      simp [List.filterAuxM, pure, Except.pure, eq_comm]
    | cons x xs ih =>
      intro kept zs
      rw [List.filterAuxM, bind_eq_ok, List.forall_mem_cons]
      constructor
      · intro hgiven
        obtain ⟨b, hb, hrest⟩ := hgiven
        obtain ⟨hxs, rfl⟩ := (ih _ _).mp hrest
        refine ⟨⟨⟨b, hb⟩, hxs⟩, ?_⟩
        cases b <;> simp [hb, holds]
      · intro hgiven
        obtain ⟨⟨⟨b, hb⟩, hxs⟩, rfl⟩ := hgiven
        refine ⟨b, hb, (ih _ _).mpr ⟨hxs, ?_⟩⟩
        cases b <;> simp [hb, holds]
  rw [List.filterM, bind_eq_ok]
  constructor
  · intro hgiven
    obtain ⟨kept, hkept, hys⟩ := hgiven
    obtain ⟨hxs, rfl⟩ := (haux [] kept).mp hkept
    refine ⟨hxs, ?_⟩
    rw [← Except.ok.inj hys, List.append_nil, List.reverse_reverse]
  · intro hgiven
    obtain ⟨hxs, rfl⟩ := hgiven
    refine ⟨_, (haux [] _).mpr ⟨hxs, rfl⟩, ?_⟩
    rw [List.append_nil, List.reverse_reverse]
    rfl

/-- The first check that gives no answer is what a row of checks fails with. -/
theorem filterM_eq_error {f : α → Except ε Bool} {xs : List α} {e : ε} :
    xs.filterM f = .error e ↔ ∃ before x after, xs = before ++ x :: after ∧
      (∀ y ∈ before, ∃ b, f y = .ok b) ∧ f x = .error e := by
  have haux : ∀ kept, xs.filterAuxM f kept = .error e ↔ ∃ before x after,
      xs = before ++ x :: after ∧ (∀ y ∈ before, ∃ b, f y = .ok b) ∧ f x = .error e := by
    induction xs with
    | nil =>
      intro kept
      simp [List.filterAuxM, pure, Except.pure]
    | cons x xs ih =>
      intro kept
      rw [List.filterAuxM, bind_eq_error]
      constructor
      · intro hgiven
        obtain hx | ⟨b, hb, hrest⟩ := hgiven
        · exact ⟨[], x, xs, rfl, nofun, hx⟩
        · obtain ⟨before, y, after, rfl, hbefore, hy⟩ := (ih _).mp hrest
          exact ⟨x :: before, y, after, rfl, List.forall_mem_cons.mpr ⟨⟨b, hb⟩, hbefore⟩, hy⟩
      · intro hgiven
        obtain ⟨before, y, after, heq, hbefore, hy⟩ := hgiven
        cases before with
        | nil =>
          obtain ⟨rfl, rfl⟩ := List.cons.inj heq
          exact .inl hy
        | cons z before =>
          obtain ⟨rfl, rfl⟩ := List.cons.inj heq
          obtain ⟨⟨b, hb⟩, hrest⟩ := List.forall_mem_cons.mp hbefore
          exact .inr ⟨b, hb, (ih _).mpr ⟨before, y, after, rfl, hrest, hy⟩⟩
  rw [List.filterM, bind_eq_error, haux]
  exact or_iff_left fun hgiven => by
    obtain ⟨kept, -, hkept⟩ := hgiven
    cases hkept

/-- Where a change leaves what is kept beforehand as it is, and makes all else fail the checks, it makes no
difference to what passes them. -/
theorem filterM_map_filter {f : α → Except ε Bool} {g : α → α} {keep : α → Bool} {xs : List α}
    (hkeep : ∀ x ∈ xs, keep x = true → g x = x)
    (hdrop : ∀ x ∈ xs, keep x = false → f (g x) = .ok false) :
    (xs.map g).filterM f = (xs.filter keep).filterM f := by
  have haux : ∀ kept, (xs.map g).filterAuxM f kept = (xs.filter keep).filterAuxM f kept := by
    induction xs with
    | nil => exact fun _ => rfl
    | cons x xs ih =>
      obtain ⟨hx, hxs⟩ := List.forall_mem_cons.mp hkeep
      obtain ⟨hx', hxs'⟩ := List.forall_mem_cons.mp hdrop
      intro kept
      rw [List.map_cons, List.filterAuxM]
      cases hk : keep x with
      | true =>
        rw [List.filter_cons_of_pos hk, List.filterAuxM, hx hk]
        exact congrArg _ (funext fun b => ih hxs hxs' _)
      | false =>
        rw [List.filter_cons_of_neg (by simp [hk]), hx' hk]
        exact ih hxs hxs' kept
  rw [List.filterM, List.filterM, haux]

/-- A row of checks is passed when each of them is. -/
theorem forM_eq_ok {f : α → Except ε PUnit} {xs : List α} (h : ∀ x ∈ xs, f x = .ok ()) :
    xs.forM f = .ok () := by
  induction xs with
  | nil => rfl
  | cons x xs ih =>
    show (f x >>= fun _ => xs.forM f) = .ok ()
    rw [h x List.mem_cons_self]
    exact ih fun y hy => h y (List.mem_cons_of_mem x hy)

/-- A fold of which no step fails comes to its end. -/
theorem exists_foldlM_eq_ok {f : β → α → Except ε β} {xs : List α}
    (h : ∀ x ∈ xs, ∀ b, ∃ b', f b x = .ok b') (b : β) : ∃ b', xs.foldlM f b = .ok b' := by
  induction xs generalizing b with
  | nil => exact ⟨b, rfl⟩
  | cons x xs ih =>
    obtain ⟨hx, hxs⟩ := List.forall_mem_cons.mp h
    obtain ⟨next, hnext⟩ := hx b
    obtain ⟨b', hb'⟩ := ih hxs next
    exact ⟨b', by rw [List.foldlM_cons, hnext]; exact hb'⟩

/-- What each step of a fold keeps, a fold that comes to its end has kept. -/
theorem foldlM_induction {P : β → Prop} {f : β → α → Except ε β}
    (hstep : ∀ b x b', P b → f b x = .ok b' → P b') {xs : List α} {b b' : β} (hb : P b)
    (h : xs.foldlM f b = .ok b') : P b' := by
  induction xs generalizing b with
  | nil =>
    obtain rfl := Except.ok.inj h
    exact hb
  | cons x xs ih =>
    rw [List.foldlM_cons] at h
    obtain ⟨next, hnext, h⟩ := bind_eq_ok.mp h
    exact ih (hstep b x next hb hnext) h

/-- A computation that fails in certain ways only. -/
def FailsIn (P : ε → Prop) (x : Except ε α) : Prop :=
  ∀ e, x = .error e → P e

namespace FailsIn

variable {P : ε → Prop}

theorem ok (a : α) : FailsIn P (.ok a : Except ε α) := by
  intro e h
  cases h

theorem bind {x : Except ε α} {f : α → Except ε β} (hx : FailsIn P x) (hf : ∀ a, FailsIn P (f a)) :
    FailsIn P (x >>= f) := by
  cases x with
  | error e => exact fun e' h => hx e' (congrArg Except.error (Except.error.inj h))
  | ok a => exact hf a

theorem mapError {x : Except ε' α} {f : ε' → ε} (h : ∀ e, P (f e)) : FailsIn P (x.mapError f) := by
  cases x with
  | error e =>
    intro e' heq
    exact Except.error.inj heq ▸ h e
  | ok a => exact ok a

theorem mapM {f : α → Except ε β} (h : ∀ a, FailsIn P (f a)) (xs : List α) :
    FailsIn P (xs.mapM f) := by
  induction xs with
  | nil => exact ok []
  | cons x xs ih =>
    rw [List.mapM_cons]
    exact (h x).bind fun y => ih.bind fun ys => ok (y :: ys)

theorem filterM {f : α → Except ε Bool} (h : ∀ a, FailsIn P (f a)) (xs : List α) :
    FailsIn P (xs.filterM f) := by
  have hrest : ∀ kept, FailsIn P (xs.filterAuxM f kept) := by
    induction xs with
    | nil => exact ok
    | cons x xs ih => exact fun kept => (h x).bind fun b => ih (cond b (x :: kept) kept)
  exact (hrest []).bind fun kept => ok kept.reverse

end FailsIn

end Except
