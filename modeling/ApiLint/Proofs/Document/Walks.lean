import ApiLint.Proofs.Document.Circles
import ApiLint.Proofs.Document.Parts
import Mathlib.Algebra.BigOperators.Ring.List
import Mathlib.Data.Nat.Cast.Basic

/-! How a walk over a document goes on, turn by turn. What is left of it is a row of tasks: values to look
at, references that have been met, and references that are done when all before them in the row is
(`Stage`). A reference may name a value that is larger than the one it stands in, and so the values that
are left to look at need not become smaller; but each reference makes the walk start on what it names
only once, and the document holds only so many of them. A turn therefore spends of a store that is never
filled up again (`Stage.left`), the walk is at its end after a bounded number of turns, and its answer is
the one that the running walk gives (`walk_ends`). -/
namespace ApiLint.Reference

variable {document v target : Value} {r : Text} {active done expanded : List Text}

/-! ### The turns of a walk -/

/-- What a walk has still to do: to look at a value, to deal with a reference that it has met, or to note
that a reference is done. -/
inductive Task
  | look (v : Value)
  | meet (r : Text)
  | finish (r : Text)

/-- The references that are being followed are those that will be noted as done. -/
def following (tasks : List Task) : List Text :=
  tasks.filterMap fun
    | .finish r => some r
    | _ => none

/-- To look at a value is to meet its own reference and then to look at its parts. -/
def inside (v : Value) : List Task := (own v).map .meet ++ (parts v).map .look

/-- What is left of a walk, the references that are done, and those whose targets the walk has started
on. -/
structure Stage where
  tasks : List Task
  done : List Text
  expanded : List Text

/-- A walk over a document that has not begun. -/
def Stage.start (document : Value) : Stage := ⟨[.look document], [], []⟩

/-- What a turn comes to: the answer of the walk, or another stage of it. -/
inductive Turn
  | stop (answer : Except Failure Bool)
  | go (stage : Stage)

/-- A walk takes the first of its tasks. It stops when it meets a reference that is being followed, when
one cannot be looked up, or when nothing is left. -/
def Stage.turn (document : Value) : Stage → Turn
  | ⟨[], _, _⟩ => .stop (.ok false)
  | ⟨.look v :: rest, done, expanded⟩ => .go ⟨inside v ++ rest, done, expanded⟩
  | ⟨.finish r :: rest, done, expanded⟩ => .go ⟨rest, r :: done, expanded⟩
  | ⟨.meet r :: rest, done, expanded⟩ =>
    if (following rest).contains r then .stop (.ok true)
    else if done.contains r then .go ⟨rest, done, expanded⟩
    else
      match resolve document r with
      | .error e => .stop (.error e)
      | .ok none | .ok (some .null) => .go ⟨rest, r :: done, expanded⟩
      | .ok (some target) => .go ⟨.look target :: .finish r :: rest, done, r :: expanded⟩

/-- How a walk can go on. -/
inductive Move (document : Value) : Stage → Stage → Prop
  | look (v : Value) (rest : List Task) (done expanded : List Text) :
      Move document ⟨.look v :: rest, done, expanded⟩ ⟨inside v ++ rest, done, expanded⟩
  | known {r : Text} {rest : List Task} {done : List Text} (expanded : List Text)
      (hactive : r ∉ following rest) (hdone : r ∈ done) :
      Move document ⟨.meet r :: rest, done, expanded⟩ ⟨rest, done, expanded⟩
  | missing {r : Text} {rest : List Task} {done : List Text} (expanded : List Text)
      (hactive : r ∉ following rest) (hdone : r ∉ done)
      (h : resolve document r = .ok none ∨ resolve document r = .ok (some .null)) :
      Move document ⟨.meet r :: rest, done, expanded⟩ ⟨rest, r :: done, expanded⟩
  | expand {r : Text} {target : Value} {rest : List Task} {done : List Text} (expanded : List Text)
      (hactive : r ∉ following rest) (hdone : r ∉ done)
      (h : resolve document r = .ok (some target)) (hnull : target ≠ .null) :
      Move document ⟨.meet r :: rest, done, expanded⟩
        ⟨.look target :: .finish r :: rest, done, r :: expanded⟩
  | finish (r : Text) (rest : List Task) (done expanded : List Text) :
      Move document ⟨.finish r :: rest, done, expanded⟩ ⟨rest, r :: done, expanded⟩

/-- Each turn makes one of the moves: it looks, meets, skips, expands or notes a reference as done. -/
theorem move_of_turn {stage stage' : Stage} (h : stage.turn document = .go stage') :
    Move document stage stage' := by
  obtain ⟨tasks, done, expanded⟩ := stage
  cases tasks with
  | nil => cases h
  | cons task rest =>
    cases task with
    | look v =>
      cases h
      exact .look v rest done expanded
    | finish r =>
      cases h
      exact .finish r rest done expanded
    | meet r =>
      rw [Stage.turn] at h
      split at h
      · cases h
      next hcontains =>
      have hactive := mt List.contains_iff_mem.mpr hcontains
      split at h
      · next hknown =>
        cases h
        exact .known expanded hactive (List.contains_iff_mem.mp hknown)
      next hknown =>
      have hdone := mt List.contains_iff_mem.mpr hknown
      split at h
      · cases h
      · next hnone =>
        cases h
        exact .missing expanded hactive hdone (.inl hnone)
      · next hnull =>
        cases h
        exact .missing expanded hactive hdone (.inr hnull)
      · next target hnull htarget =>
        cases h
        exact .expand expanded hactive hdone htarget hnull

/-- So many turns lead from one stage of a walk to another. -/
inductive Course (document : Value) : Nat → Stage → Stage → Prop
  | nil (stage : Stage) : Course document 0 stage stage
  | cons {n : Nat} {stage next last : Stage} (h : stage.turn document = .go next)
      (hrest : Course document n next last) : Course document (n + 1) stage last

theorem Course.append {m n : Nat} {first middle last : Stage} (h : Course document m first middle)
    (hrest : Course document n middle last) : ∃ k, Course document k first last := by
  induction h with
  | nil => exact ⟨n, hrest⟩
  | cons hturn _ ih =>
    obtain ⟨k, hk⟩ := ih hrest
    exact ⟨k + 1, .cons hturn hk⟩

/-! ### What is kept, and what is spent -/

/-- A task that can come up in a walk over a document. -/
def Task.Within (document : Value) : Task → Prop
  | .look v => v.IsFinite ∧ (∀ r ∈ held v, r ∈ held document) ∧ nodes v ≤ nodes document
  | .meet r => r ∈ held document
  | .finish _ => True

/-- The references whose targets the walk has started on are different ones that the document holds, and
each of them is being followed or is done. -/
structure Stage.Sound (document : Value) (stage : Stage) : Prop where
  nodup : stage.expanded.Nodup
  held : ∀ r ∈ stage.expanded, r ∈ Reference.held document
  started : ∀ r ∈ stage.expanded, r ∈ following stage.tasks ∨ r ∈ stage.done
  within : ∀ task ∈ stage.tasks, task.Within document

theorem following_append (tasks rest : List Task) :
    following (tasks ++ rest) = following tasks ++ following rest :=
  List.filterMap_append

theorem following_inside (v : Value) : following (inside v) = [] := by
  refine List.filterMap_eq_nil_iff.mpr fun task htask => ?_
  obtain h | h := List.mem_append.mp htask
  all_goals
    obtain ⟨_, -, rfl⟩ := List.mem_map.mp h
    rfl

theorem following_inside_append (v : Value) (rest : List Task) :
    following (inside v ++ rest) = following rest := by
  rw [following_append, following_inside, List.nil_append]

theorem within_inside (h : (Task.look v).Within document) :
    ∀ task ∈ inside v, task.Within document := by
  obtain ⟨hv, hheld, hnodes⟩ := h
  intro task htask
  obtain htask | htask := List.mem_append.mp htask
  · obtain ⟨r, hr, rfl⟩ := List.mem_map.mp htask
    exact hheld r (own_held hv hr)
  · obtain ⟨part, hpart, rfl⟩ := List.mem_map.mp htask
    refine ⟨part_isFinite hv hpart, fun r hr => hheld r (held_part hv hpart r hr), ?_⟩
    have hle : nodes part ≤ ((parts v).map nodes).sum := List.le_sum_of_mem (List.mem_map_of_mem hpart)
    exact hle.trans ((Nat.le_of_lt (nodes_parts hv)).trans hnodes)

namespace Stage

variable {stage stage' : Stage}

theorem sound_start (hdocument : document.IsFinite) : (start document).Sound document where
  nodup := List.nodup_nil
  held := List.forall_mem_nil _
  started := List.forall_mem_nil _
  within := List.forall_mem_singleton.mpr ⟨hdocument, fun _ => id, Nat.le_refl _⟩

/-- A move keeps what is known of a stage: its tasks belong to the document, and no reference is started
on twice. -/
theorem Sound.move (hdocument : document.IsFinite) (h : stage.Sound document)
    (hmove : Move document stage stage') : stage'.Sound document := by
  cases hmove with
  | look v rest done expanded =>
    obtain ⟨hlook, hrest⟩ := List.forall_mem_cons.mp h.within
    refine ⟨h.nodup, h.held, fun r hr => ?_, List.forall_mem_append.mpr ⟨within_inside hlook, hrest⟩⟩
    rw [following_inside_append]
    exact h.started r hr
  | known =>
    exact ⟨h.nodup, h.held, h.started, (List.forall_mem_cons.mp h.within).2⟩
  | missing =>
    refine ⟨h.nodup, h.held, fun s hs => ?_, (List.forall_mem_cons.mp h.within).2⟩
    exact (h.started s hs).imp_right (List.mem_cons_of_mem _)
  | @expand r target rest done expanded hactive hdone htarget =>
    obtain ⟨hr, hrest⟩ := List.forall_mem_cons.mp h.within
    obtain ⟨hfinite, hheld⟩ := held_resolve hdocument htarget
    have hnew : r ∉ expanded := fun hr => (h.started r hr).elim hactive hdone
    refine ⟨List.nodup_cons.mpr ⟨hnew, h.nodup⟩, List.forall_mem_cons.mpr ⟨hr, h.held⟩, ?_, ?_⟩
    · refine List.forall_mem_cons.mpr ⟨.inl List.mem_cons_self, fun s hs => ?_⟩
      exact (h.started s hs).imp_left (List.mem_cons_of_mem r)
    · refine List.forall_mem_cons.mpr ⟨⟨hfinite, hheld, nodes_follow hdocument htarget⟩, ?_⟩
      exact List.forall_mem_cons.mpr ⟨trivial, hrest⟩
  | finish r rest done expanded =>
    refine ⟨h.nodup, h.held, fun s hs => ?_, (List.forall_mem_cons.mp h.within).2⟩
    obtain hfollowing | hs := h.started s hs
    · obtain rfl | hs := List.mem_cons.mp hfollowing
      · exact .inr List.mem_cons_self
      · exact .inl hs
    · exact .inr (List.mem_cons_of_mem r hs)

theorem Sound.length_expanded_le (hdocument : document.IsFinite) (h : stage.Sound document) :
    stage.expanded.length ≤ mappings document :=
  (List.Nodup.subperm h.nodup h.held).length_le.trans (length_held_le hdocument)

end Stage

/-- What a task spends at most before another reference is expanded. -/
def Task.cost : Task → Nat
  | .look v => 2 * nodes v
  | .meet _ | .finish _ => 1

/-- What a row of tasks spends at most before another reference is expanded. -/
def cost (tasks : List Task) : Nat := (tasks.map Task.cost).sum

@[simp] theorem cost_cons (task : Task) (tasks : List Task) :
    cost (task :: tasks) = task.cost + cost tasks := by
  rw [cost, cost, List.map_cons, List.sum_cons]

@[simp] theorem cost_append (tasks rest : List Task) :
    cost (tasks ++ rest) = cost tasks + cost rest := by
  rw [cost, cost, cost, List.map_append, List.sum_append]

theorem cost_inside (hv : v.IsFinite) : cost (inside v) < 2 * nodes v := by
  have hown : cost ((own v).map .meet) = (own v).length := by
    simp [cost, Function.comp_def, Task.cost]
  have hparts : cost ((parts v).map .look) = 2 * ((parts v).map nodes).sum := by
    simp only [cost, List.map_map, Function.comp_def, Task.cost]
    exact List.sum_map_mul_left (parts v) nodes 2
  rw [inside, cost_append, hown, hparts]
  have := length_own_le v
  have := nodes_parts hv
  omega

/-- What is left to be spent: what the tasks cost, and what there is for each reference that can still be
expanded. -/
def Stage.left (document : Value) (stage : Stage) : Nat :=
  (mappings document - stage.expanded.length) * (2 * nodes document + 1) + cost stage.tasks

/-- Each turn spends something. A turn that expands a reference has more to look at after it, but there is
one reference less to be expanded. -/
theorem Stage.Sound.left_lt {stage stage' : Stage} (hdocument : document.IsFinite)
    (h : stage.Sound document) (hmove : Move document stage stage') :
    stage'.left document < stage.left document := by
  have hlength := (h.move hdocument hmove).length_expanded_le hdocument
  cases hmove with
  | look v rest done expanded =>
    have := cost_inside (List.forall_mem_cons.mp h.within).1.1
    simp only [left, cost_append, cost_cons, Task.cost]
    omega
  | known | missing | finish =>
    simp only [left, cost_cons, Task.cost]
    omega
  | @expand r target rest done expanded _ _ htarget =>
    have := nodes_follow hdocument htarget
    obtain ⟨k, hk⟩ : ∃ k, mappings document - expanded.length = k + 1 :=
      ⟨mappings document - (r :: expanded).length, by rw [List.length_cons] at hlength ⊢; omega⟩
    have hk' : mappings document - (r :: expanded).length = k := by rw [List.length_cons]; omega
    simp only [left, cost_cons, Task.cost, hk, hk', Nat.succ_mul]
    omega

/-- After so many turns so much has been spent. -/
theorem Course.sound {n : Nat} {first last : Stage} (hdocument : document.IsFinite)
    (h : first.Sound document) (hcourse : Course document n first last) :
    last.Sound document ∧ n + last.left document ≤ first.left document := by
  induction hcourse with
  | nil => exact ⟨h, (Nat.zero_add _).le⟩
  | cons hturn _ ih =>
    have hmove := move_of_turn hturn
    have hlt := h.left_lt hdocument hmove
    obtain ⟨hlast, hle⟩ := ih (h.move hdocument hmove)
    exact ⟨hlast, by omega⟩

/-- The number of turns that a walk over a document takes at most. -/
def turnLimit (document : Value) : Nat :=
  mappings document * (2 * nodes document + 1) + 2 * nodes document

theorem left_start (document : Value) : (Stage.start document).left document = turnLimit document :=
  rfl

/-! ### The running walk -/

/-- Some walks, one after the other. -/
def Walker.chain (walkers : List Walker) : Walker :=
  walkers.foldr .andThen .skip

theorem Walker.andThen_skip (w : Walker) : w.andThen .skip = w := by
  funext done
  rw [Walker.andThen]
  split
  · next heq => exact heq.symm
  · rfl

variable {expand : Text → Walker} {stuck : Failure}

theorem walkItems_eq (items : List Value) :
    walkItems expand stuck items = .chain (items.map (walkWith expand stuck)) := by
  induction items with
  | nil => rfl
  | cons v items ih =>
    rw [walkItems, ih]
    rfl

/-- The walk over entries is a chain of walks over what they hold, except under the keyword. -/
theorem walkEntries_eq (entries : Entries) :
    walkEntries expand stuck entries =
      .chain ((parts (.map entries)).map (walkWith expand stuck)) := by
  induction entries with
  | nil => rfl
  | cons e entries ih =>
    obtain ⟨k, v⟩ := e
    rw [walkEntries]
    cases hk : k.same keyword with
    | true =>
      have hparts : parts (.map ((k, v) :: entries)) = parts (.map entries) := by
        simp only [parts, Value.opened, List.filter_cons, hk]
        rfl
      rw [hparts, ← ih]
      rfl
    | false =>
      have hparts : parts (.map ((k, v) :: entries)) = v :: parts (.map entries) := by
        simp only [parts, Value.opened, List.filter_cons, hk]
        rfl
      rw [hparts, List.map_cons, ih]
      rfl

/-- A walk over a value follows its own reference and then walks over its parts. -/
theorem walkWith_eq (hv : v.IsFinite) :
    walkWith expand stuck v =
      Walker.andThen (.chain ((own v).map expand)) (.chain ((parts v).map (walkWith expand stuck))) := by
  cases hv with
  | scalar hscalar => cases v <;> first | rfl | cases hscalar
  | list => exact walkItems_eq _
  | tuple | set => rfl
  | @map entries =>
    rw [walkWith, walkEntries_eq]
    congr 1
    show _ = Walker.chain ((local? entries).toList.map expand)
    cases local? entries with
    | none => rfl
    | some r => exact (expand r).andThen_skip.symm

/-- A walker does some tasks: the turns of the walk lead past them with what the walker has noted as
done, or to a stop with its answer. -/
structure Walker.Does (document : Value) (active : List Text) (tasks : List Task) (w : Walker) :
    Prop where
  following : following tasks = []
  turns : ∀ rest done expanded, Reference.following rest = active →
    (∃ n done' expanded', w done = .ok (false, done') ∧
      Course document n ⟨tasks ++ rest, done, expanded⟩ ⟨rest, done', expanded'⟩) ∨
    ∃ n stage answer, (w done).map (·.1) = answer ∧ answer ≠ .ok false ∧
      Course document n ⟨tasks ++ rest, done, expanded⟩ stage ∧ stage.turn document = .stop answer

theorem Walker.andThen_of_ok {w w' : Walker} {done done' : List Text}
    (h : w done = .ok (false, done')) : w.andThen w' done = w' done' := by
  rw [Walker.andThen, h]

theorem Walker.andThen_of_stop {w w' : Walker} {done : List Text}
    (h : (w done).map (·.1) ≠ .ok false) : w.andThen w' done = w done := by
  rw [Walker.andThen]
  split
  · next heq => exact absurd (heq ▸ rfl) h
  · rfl

namespace Walker.Does

variable {w w' : Walker} {tasks tasks' : List Task}

theorem skip : Walker.skip.Does document active [] :=
  ⟨rfl, fun _ done expanded _ => .inl ⟨0, done, expanded, rfl, .nil _⟩⟩

/-- Two walks that do their tasks one after the other do both rows of tasks. -/
theorem andThen (hw : w.Does document active tasks) (hw' : w'.Does document active tasks') :
    (w.andThen w').Does document active (tasks ++ tasks') := by
  refine ⟨by rw [following_append, hw.following, hw'.following]; rfl, ?_⟩
  intro rest done expanded hrest
  have hrest' : Reference.following (tasks' ++ rest) = active := by
    rw [following_append, hw'.following, List.nil_append, hrest]
  rw [List.append_assoc]
  obtain ⟨m, done₁, expanded₁, hok, hcourse⟩ | ⟨m, stage, answer, hanswer, hne, hcourse, hstop⟩ :=
    hw.turns (tasks' ++ rest) done expanded hrest'
  · rw [andThen_of_ok hok]
    obtain ⟨n, done₂, expanded₂, hok₂, hcourse₂⟩ |
        ⟨n, stage, answer, hanswer, hne, hcourse₂, hstop⟩ :=
      hw'.turns rest done₁ expanded₁ hrest
    · obtain ⟨k, hk⟩ := hcourse.append hcourse₂
      exact .inl ⟨k, done₂, expanded₂, hok₂, hk⟩
    · obtain ⟨k, hk⟩ := hcourse.append hcourse₂
      exact .inr ⟨k, stage, answer, hanswer, hne, hk, hstop⟩
  · rw [andThen_of_stop (hanswer ▸ hne)]
    exact .inr ⟨m, stage, answer, hanswer, hne, hcourse, hstop⟩

/-- Walkers that do one task each. -/
theorem chain {α : Type} {f : α → Walker} {g : α → Task} {xs : List α}
    (h : ∀ x ∈ xs, (f x).Does document active [g x]) :
    (Walker.chain (xs.map f)).Does document active (xs.map g) := by
  induction xs with
  | nil => exact skip
  | cons x xs ih =>
    obtain ⟨hx, hxs⟩ := List.forall_mem_cons.mp h
    exact hx.andThen (ih hxs)

/-- A walker that does what is inside a value does the look at the value. -/
theorem look (h : w.Does document active (inside v)) : w.Does document active [.look v] := by
  refine ⟨rfl, fun rest done expanded hrest => ?_⟩
  have hturn : Stage.turn document ⟨.look v :: rest, done, expanded⟩ =
      .go ⟨inside v ++ rest, done, expanded⟩ := rfl
  obtain ⟨n, done', expanded', hok, hcourse⟩ | ⟨n, stage, answer, hanswer, hne, hcourse, hstop⟩ :=
    h.turns rest done expanded hrest
  · exact .inl ⟨n + 1, done', expanded', hok, .cons hturn hcourse⟩
  · exact .inr ⟨n + 1, stage, answer, hanswer, hne, .cons hturn hcourse, hstop⟩

end Walker.Does

/-- A walk over a value does the look at it, if the walks at its references do theirs. -/
theorem does_walkWith (hv : v.IsFinite) (h : ∀ r ∈ refs v, (expand r).Does document active [.meet r]) :
    (walkWith expand stuck v).Does document active [.look v] := by
  revert h
  refine parts_induction hv ?_
  intro v hv ih h
  rw [refs_eq hv, List.forall_mem_append] at h
  rw [walkWith_eq hv]
  refine .look (.andThen (.chain h.1) (.chain fun part hpart => ?_))
  exact ih part hpart fun r hr => h.2 r (List.mem_flatMap.mpr ⟨part, hpart, hr⟩)

variable {rest : List Task} {fuel : Nat}

theorem turn_circle (h : r ∈ following rest) :
    Stage.turn document ⟨.meet r :: rest, done, expanded⟩ = .stop (.ok true) :=
  if_pos (List.contains_iff_mem.mpr h)

theorem turn_known (hactive : r ∉ following rest) (hdone : r ∈ done) :
    Stage.turn document ⟨.meet r :: rest, done, expanded⟩ = .go ⟨rest, done, expanded⟩ := by
  rw [Stage.turn, if_neg (mt List.contains_iff_mem.mp hactive),
    if_pos (List.contains_iff_mem.mpr hdone)]

theorem turn_new (hactive : r ∉ following rest) (hdone : r ∉ done) :
    Stage.turn document ⟨.meet r :: rest, done, expanded⟩ =
      match resolve document r with
      | .error e => .stop (.error e)
      | .ok none | .ok (some .null) => .go ⟨rest, r :: done, expanded⟩
      | .ok (some target) => .go ⟨.look target :: .finish r :: rest, done, r :: expanded⟩ := by
  rw [Stage.turn, if_neg (mt List.contains_iff_mem.mp hactive),
    if_neg (mt List.contains_iff_mem.mp hdone)]

theorem turn_error {e : Failure} (hactive : r ∉ following rest) (hdone : r ∉ done)
    (h : resolve document r = .error e) :
    Stage.turn document ⟨.meet r :: rest, done, expanded⟩ = .stop (.error e) := by
  rw [turn_new hactive hdone, h]

theorem turn_missing (hactive : r ∉ following rest) (hdone : r ∉ done)
    (h : resolve document r = .ok none ∨ resolve document r = .ok (some .null)) :
    Stage.turn document ⟨.meet r :: rest, done, expanded⟩ = .go ⟨rest, r :: done, expanded⟩ := by
  rw [turn_new hactive hdone]
  obtain h | h := h <;> rw [h]

theorem turn_expand (hactive : r ∉ following rest) (hdone : r ∉ done)
    (h : resolve document r = .ok (some target)) (hnull : target ≠ .null) :
    Stage.turn document ⟨.meet r :: rest, done, expanded⟩ =
      .go ⟨.look target :: .finish r :: rest, done, r :: expanded⟩ := by
  rw [turn_new hactive hdone, h]
  cases target <;> first | rfl | exact absurd rfl hnull

theorem pursue_of_error {e : Failure} (hactive : r ∉ active) (hdone : r ∉ done)
    (h : resolve document r = .error e) : pursue document fuel active r done = .error e := by
  rw [pursue, if_neg (mt List.contains_iff_mem.mp hactive),
    if_neg (mt List.contains_iff_mem.mp hdone), h]

theorem pursue_of_null (hactive : r ∉ active) (hdone : r ∉ done)
    (h : resolve document r = .ok (some .null)) :
    pursue document fuel active r done = .ok (false, r :: done) := by
  rw [pursue_of_target hactive hdone h, walk_null]

/-- A walk at a reference does what comes of meeting it, if the walk over what it names does the look at
that. -/
theorem does_pursue
    (h : ∀ target, r ∉ active → resolve document r = .ok (some target) →
      (walk document fuel (r :: active) target).Does document (r :: active) [.look target]) :
    (pursue document fuel active r).Does document active [.meet r] := by
  refine ⟨rfl, fun rest done expanded hrest => ?_⟩
  rw [List.singleton_append]
  by_cases hactive : r ∈ active
  · refine .inr ⟨0, _, .ok true, ?_, nofun, .nil _, turn_circle (hrest ▸ hactive)⟩
    rw [pursue_of_active hactive]
    rfl
  have hfollowing : r ∉ following rest := hrest ▸ hactive
  by_cases hdone : r ∈ done
  · exact .inl ⟨1, done, expanded, pursue_of_done hactive hdone,
      .cons (turn_known hfollowing hdone) (.nil _)⟩
  cases hresolve : resolve document r with
  | error e =>
    refine .inr ⟨0, _, .error e, ?_, nofun, .nil _, turn_error hfollowing hdone hresolve⟩
    rw [pursue_of_error hactive hdone hresolve]
    rfl
  | ok found =>
    cases found with
    | none =>
      exact .inl ⟨1, r :: done, expanded, pursue_of_missing hactive hdone hresolve,
        .cons (turn_missing hfollowing hdone (.inl hresolve)) (.nil _)⟩
    | some target =>
      by_cases hnull : target = .null
      · subst hnull
        exact .inl ⟨1, r :: done, expanded, pursue_of_null hactive hdone hresolve,
          .cons (turn_missing hfollowing hdone (.inr hresolve)) (.nil _)⟩
      -- The look at the target comes first, and then the reference is noted as done.
      have hturn : Stage.turn document ⟨.meet r :: rest, done, expanded⟩ = _ :=
        turn_expand hfollowing hdone hresolve hnull
      have hfollow : following (.finish r :: rest) = r :: active := by
        rw [← hrest]
        rfl
      rw [pursue_of_target hactive hdone hresolve]
      obtain ⟨n, done', expanded', hwalk, hcourse⟩ |
          ⟨n, stage, answer, hanswer, hne, hcourse, hstop⟩ :=
        (h target hactive hresolve).turns (.finish r :: rest) done (r :: expanded) hfollow
      · obtain ⟨k, hk⟩ := (Course.cons hturn hcourse).append (.cons rfl (.nil _))
        rw [hwalk]
        exact .inl ⟨k, r :: done', expanded', rfl, hk⟩
      · refine .inr ⟨n + 1, stage, answer, ?_, hne, .cons hturn hcourse, hstop⟩
        rw [← hanswer]
        split
        · next heq =>
          rw [heq] at hanswer
          exact absurd hanswer.symm hne
        · rfl

/-- The running walk over a value does the look at it. -/
theorem does_walk (hdocument : document.IsFinite) (hv : v.IsFinite)
    (hheld : ∀ r ∈ held v, r ∈ held document) (hchain : Chain document fuel active []) :
    (walk document fuel active v).Does document active [.look v] := by
  induction fuel generalizing active v with
  | zero => exact absurd (hchain.fuel_pos hdocument) (Nat.lt_irrefl 0)
  | succ fuel ih =>
    obtain ⟨stuck, hwalk⟩ := exists_walk_succ document fuel active v
    rw [hwalk]
    refine does_walkWith hv fun r hr => does_pursue fun target hactive htarget => ?_
    obtain ⟨hfinite, hsub⟩ := held_resolve hdocument htarget
    have hr' := hheld r (mem_held_of_mem_refs hv hr)
    refine ih hfinite hsub ⟨List.nodup_cons.mpr ⟨hactive, hchain.nodup⟩,
      List.forall_mem_cons.mpr ⟨hr', hchain.held⟩, ?_, fun _ _ => List.forall_mem_nil _,
      List.forall_mem_nil _⟩
    have := hchain.fuel
    rw [List.length_cons]
    omega

/-- The turns of a walk lead to a stop with the answer of the running walk. -/
theorem exists_stop (hfinite : document.IsFinite) :
    ∃ n stage, Course document n (.start document) stage ∧
      stage.turn document = .stop (isCircular document) := by
  have hchain : Chain document (mappings document + 1) [] [] :=
    ⟨List.nodup_nil, List.forall_mem_nil _, Nat.le_refl _, List.forall_mem_nil _,
      List.forall_mem_nil _⟩
  obtain ⟨n, done, expanded, hwalk, hcourse⟩ | ⟨n, stage, answer, rfl, -, hcourse, hstop⟩ :=
    (does_walk hfinite hfinite (fun _ => id) hchain).turns [] [] [] rfl
  · exact ⟨n, _, hcourse, by rw [isCircular, hwalk]; rfl⟩
  · exact ⟨n, stage, hcourse, hstop⟩

/-- **A walk over a document comes to an end.** However the references of a document overlap and whatever
they lead back to, the walk over it takes a bounded number of turns and starts on what a reference names
only once; and if every reference that is reached can be looked up, its turns lead to a stop with the
truth value that the running walk gives. -/
theorem walk_ends (hfinite : document.IsFinite)
    (hresolves : ∀ r, Reaches document r → ∃ found, resolve document r = .ok found) :
    (∀ n stage, Course document n (.start document) stage →
      n ≤ turnLimit document ∧ stage.expanded.Nodup) ∧
    ∃ n stage circular, Course document n (.start document) stage ∧
      stage.turn document = .stop (.ok circular) ∧ isCircular document = .ok circular := by
  refine ⟨fun n stage hcourse => ?_, ?_⟩
  · obtain ⟨hsound, hspent⟩ := hcourse.sound hfinite (Stage.sound_start hfinite)
    rw [left_start] at hspent
    exact ⟨(Nat.le_add_right n _).trans hspent, hsound.nodup⟩
  · obtain ⟨n, stage, hcourse, hstop⟩ := exists_stop hfinite
    obtain ⟨circular, hcircular, -⟩ := exists_isCircular hfinite hresolves
    exact ⟨n, stage, circular, hcourse, hcircular ▸ hstop, hcircular⟩

/-- In the sample two references lead to each other. -/
theorem walk_ends_sample : sampleDocument.IsFinite ∧
    (∀ r, Reaches sampleDocument r → ∃ found, resolve sampleDocument r = .ok found) ∧
    ∃ n stage, n ≤ turnLimit sampleDocument ∧ Course sampleDocument n (.start sampleDocument) stage ∧
      stage.expanded.Nodup ∧ stage.turn sampleDocument = .stop (.ok true) := by
  have hfinite := sampleDocument_isTree.isFinite
  have hresolves := fun r => exists_resolve_sample (r := r)
  obtain ⟨hbounded, n, stage, circular, hcourse, hstop, hcircular⟩ := walk_ends hfinite hresolves
  have hfound : (isCircular sampleDocument).holds id = true := by decide +kernel
  rw [hcircular] at hfound
  obtain rfl : circular = true := hfound
  obtain ⟨hle, hnodup⟩ := hbounded n stage hcourse
  exact ⟨hfinite, hresolves, n, stage, hle, hcourse, hnodup, hstop⟩

end ApiLint.Reference
