import ApiLint.Json.Writer
import ApiLint.Text.Sha1
import ApiLint.Text.Utf8
import ApiLint.Value.Display

/-! What an engine finds in a document. Two findings at one place with one message are the same
finding, whichever rules reported them; the key of a finding says which are the same. -/
namespace ApiLint

/-- Something that an engine finds: the place, as keys and indices from the root, what is to be
said about it, the rule, and how bad it is. -/
structure Finding where
  path : List Value
  message : Value
  rule : Text
  severity : Value

namespace Finding

/-- The text that tells a finding from others: its place and its message, as JSON. -/
def signature (f : Finding) : String :=
  Json.write (.list [.texts (f.path.map Value.text), f.message])

/-- The key of a finding: the digest of its signature. -/
def key (f : Finding) : String :=
  Text.Sha1.digest (Text.Utf8.encode f.signature.toList)

/-- The findings whose key has not come up before; `seen` are keys that have. -/
def distinctFrom {κ : Type} [BEq κ] (key : Finding → κ) (seen : List κ) :
    List Finding → List Finding
  | [] => []
  | f :: fs =>
    if seen.contains (key f) then distinctFrom key seen fs
    else f :: distinctFrom key (key f :: seen) fs

/-- The findings without those whose key comes up earlier. -/
def distinct {κ : Type} [BEq κ] (key : Finding → κ) (fs : List Finding) : List Finding :=
  distinctFrom key [] fs

theorem distinctFrom_sublist {κ : Type} [BEq κ] (key : Finding → κ) (seen : List κ)
    (fs : List Finding) : (distinctFrom key seen fs).Sublist fs := by
  fun_induction distinctFrom key seen fs with
  | case1 => exact .slnil
  | case2 _ f fs _ ih => exact ih.cons f
  | case3 _ f fs _ ih => exact ih.cons_cons f

end Finding

end ApiLint
