import ApiLint.Document

/-! Equality of values, of nodes and of documents can be decided, so that what a text is read as can be
compared with what it should be. It is finer than `Value.same`, which decides about keys. -/
namespace ApiLint

namespace Value

mutual

/-- Whether two values are equal, part by part and in the same order. -/
def isEqual : Value → Value → Bool
  | null, null => true
  | bool b, bool c => b = c
  | int m, int n => m = n
  | float x, float y => x = y
  | nan a, nan b => a = b
  | str s, str t => s = t
  | bytes bs, bytes cs => bs = cs
  | date d, date e => d = e
  | time t, time u => t = u
  | moment m, moment n => m = n
  | list xs, list ys => areEqual xs ys
  | tuple xs, tuple ys => areEqual xs ys
  | set xs, set ys => areEqual xs ys
  | map es, map fs => haveEqual es fs
  | loop l v, loop m w => l = m && isEqual v w
  | again l, again m => l = m
  | _, _ => false
termination_by structural v => v

def areEqual : List Value → List Value → Bool
  | [], [] => true
  | x :: xs, y :: ys => isEqual x y && areEqual xs ys
  | _, _ => false

def haveEqual : List (Value × Value) → List (Value × Value) → Bool
  | [], [] => true
  | (k, v) :: es, (l, w) :: fs => isEqual k l && isEqual v w && haveEqual es fs
  | _, _ => false

end

mutual

theorem isEqual_self : (v : Value) → v.isEqual v = true
  | null => rfl
  | bool _ | int _ | float _ | nan _ | str _ | bytes _ | date _ | time _ | moment _ | again _ =>
    decide_eq_true rfl
  | list xs | tuple xs | set xs => areEqual_self xs
  | map es => haveEqual_self es
  | loop _ v => by rw [isEqual, isEqual_self v, decide_eq_true rfl, Bool.and_self]

theorem areEqual_self : (xs : List Value) → areEqual xs xs = true
  | [] => rfl
  | x :: xs => by rw [areEqual, isEqual_self x, areEqual_self xs, Bool.and_self]

theorem haveEqual_self : (es : List (Value × Value)) → haveEqual es es = true
  | [] => rfl
  | (k, v) :: es => by
    rw [haveEqual, isEqual_self k, isEqual_self v, haveEqual_self es, Bool.and_self, Bool.and_self]

end

theorem eq_of_isEqual {v w : Value} (h : v.isEqual w = true) : v = w := by
  induction v, w using isEqual.induct (motive_2 := fun es fs => haveEqual es fs = true → es = fs)
    (motive_3 := fun xs ys => areEqual xs ys = true → xs = ys) with
  | _ => simp_all [isEqual, areEqual, haveEqual]

instance : DecidableEq Value := fun v w =>
  decidable_of_iff (v.isEqual w = true) ⟨eq_of_isEqual, fun h => h ▸ isEqual_self v⟩

end Value

deriving instance DecidableEq for Document

namespace Yaml.Node

mutual

/-- Whether two nodes are equal, part by part and with their marks. -/
def isEqual : Node → Node → Bool
  | scalar head text, scalar head' text' => head = head' && text = text'
  | sequence head items, sequence head' items' => head = head' && areEqual items items'
  | mapping head entries, mapping head' entries' => head = head' && haveEqual entries entries'
  | .alias name, .alias name' => name = name'
  | _, _ => false
termination_by structural node => node

def areEqual : List Node → List Node → Bool
  | [], [] => true
  | x :: xs, y :: ys => isEqual x y && areEqual xs ys
  | _, _ => false

def haveEqual : List (Node × Node) → List (Node × Node) → Bool
  | [], [] => true
  | (k, v) :: es, (l, w) :: fs => isEqual k l && isEqual v w && haveEqual es fs
  | _, _ => false

end

mutual

theorem isEqual_self : (node : Node) → node.isEqual node = true
  | scalar _ _ => by rw [isEqual, decide_eq_true rfl, decide_eq_true rfl, Bool.and_self]
  | sequence _ items => by rw [isEqual, decide_eq_true rfl, areEqual_self items, Bool.and_self]
  | mapping _ entries => by rw [isEqual, decide_eq_true rfl, haveEqual_self entries, Bool.and_self]
  | .alias _ => decide_eq_true rfl

theorem areEqual_self : (xs : List Node) → areEqual xs xs = true
  | [] => rfl
  | x :: xs => by rw [areEqual, isEqual_self x, areEqual_self xs, Bool.and_self]

theorem haveEqual_self : (es : List (Node × Node)) → haveEqual es es = true
  | [] => rfl
  | (k, v) :: es => by
    rw [haveEqual, isEqual_self k, isEqual_self v, haveEqual_self es, Bool.and_self, Bool.and_self]

end

theorem eq_of_isEqual {x y : Node} (h : x.isEqual y = true) : x = y := by
  induction x, y using isEqual.induct (motive_2 := fun es fs => haveEqual es fs = true → es = fs)
    (motive_3 := fun xs ys => areEqual xs ys = true → xs = ys) with
  | _ => simp_all [isEqual, areEqual, haveEqual]

instance : DecidableEq Node := fun x y =>
  decidable_of_iff (x.isEqual y = true) ⟨eq_of_isEqual, fun h => h ▸ isEqual_self x⟩

end Yaml.Node

end ApiLint
