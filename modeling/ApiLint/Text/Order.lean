import ApiLint.Text

/-! Rows of texts: in the order of their code points, or each only once. -/
namespace ApiLint.Text

/-- Whether one text comes before another in the order of their code points, or is the same. -/
def atMost : Text → Text → Bool
  | [], _ => true
  | _ :: _, [] => false
  | c :: s, d :: t => c.code < d.code || (c = d && atMost s t)

def sorted (texts : List Text) : List Text :=
  texts.mergeSort atMost

def unique (texts : List Text) : List Text :=
  texts.foldl (fun kept text => if kept.contains text then kept else kept ++ [text]) []

theorem sorted_perm (texts : List Text) : (sorted texts).Perm texts :=
  List.mergeSort_perm texts atMost

/-- A text is kept whenever it comes up. -/
theorem mem_foldl_keep (texts kept : List Text) (text : Text) :
    text ∈ texts.foldl (fun kept t => if kept.contains t then kept else kept ++ [t]) kept ↔
      text ∈ kept ∨ text ∈ texts := by
  induction texts generalizing kept with
  | nil => simp
  | cons t ts ih =>
    rw [List.foldl_cons, ih]
    by_cases h : kept.contains t <;> grind

@[simp] theorem mem_unique {texts : List Text} {text : Text} :
    text ∈ unique texts ↔ text ∈ texts := by
  rw [unique, mem_foldl_keep]
  simp

end ApiLint.Text
