import KubeCompose.Manifest.Basic
import Mathlib.Control.Monad.Basic

/-!
# Documents that are read back

Values can be compared, so whether a document is read back from its own text can be computed.
-/

namespace KubeCompose

namespace Yaml

/-! ### Comparison of values -/

mutual

/-- Whether two values are one. -/
def isSelf : Yaml → Yaml → Bool
  | .null, .null => true
  | .bool a, .bool b => a == b
  | .int a, .int b => a == b
  | .float a, .float b => decide (a = b)
  | .str a, .str b => a == b
  | .seq xs, .seq ys => itemsAreSelf xs ys
  | .map xs, .map ys => entriesAreSelf xs ys
  | .tagged t a, .tagged u b => t == u && isSelf a b
  | _, _ => false

/-- Whether two sequences hold the same values in the same order. -/
def itemsAreSelf : List Yaml → List Yaml → Bool
  | [], [] => true
  | x :: xs, y :: ys => isSelf x y && itemsAreSelf xs ys
  | _, _ => false

/-- Whether two mappings have the same entries in the same order. -/
def entriesAreSelf : List (Yaml × Yaml) → List (Yaml × Yaml) → Bool
  | [], [] => true
  | (k, v) :: xs, (j, u) :: ys => isSelf k j && isSelf v u && entriesAreSelf xs ys
  | _, _ => false

end

mutual

theorem isSelf_iff : (v u : Yaml) → (isSelf v u = true ↔ v = u)
  | .seq xs, u => by
    cases u <;> simp [isSelf, itemsAreSelf_iff xs]
  | .map xs, u => by
    cases u <;> simp [isSelf, entriesAreSelf_iff xs]
  | .tagged t a, u => by
    cases u <;> simp [isSelf, isSelf_iff a]
  | .null, u | .bool _, u | .int _, u | .float _, u | .str _, u => by
    cases u <;> simp [isSelf]

theorem itemsAreSelf_iff : (xs ys : List Yaml) → (itemsAreSelf xs ys = true ↔ xs = ys)
  | [], ys => by cases ys <;> simp [itemsAreSelf]
  | x :: xs, ys => by
    cases ys <;> simp [itemsAreSelf, isSelf_iff x, itemsAreSelf_iff xs]

theorem entriesAreSelf_iff :
    (xs ys : List (Yaml × Yaml)) → (entriesAreSelf xs ys = true ↔ xs = ys)
  | [], ys => by cases ys <;> simp [entriesAreSelf]
  | (k, v) :: xs, ys => by
    cases ys <;>
      simp [entriesAreSelf, isSelf_iff k, isSelf_iff v, entriesAreSelf_iff xs, Prod.ext_iff]

end

instance : DecidableEq Yaml := fun v u => decidable_of_iff (isSelf v u = true) (isSelf_iff v u)

/-! ### Documents that are read from their own text -/

/-- A document that is read from its own text, and nothing else with it. -/
def ReadsBack (document : Yaml) : Prop := Manifest.parseDocuments document.render = .ok [document]

instance (document : Yaml) : Decidable document.ReadsBack :=
  inferInstanceAs (Decidable (Manifest.parseDocuments document.render = .ok [document]))

end Yaml

end KubeCompose
