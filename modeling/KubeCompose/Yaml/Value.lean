import KubeCompose.Number.Binary64
import KubeCompose.OrderedMap

/-!
# Document values

A document is a tree of scalars, sequences and mappings, any of which may carry a local tag.
Mappings keep their entries in order. Two values are the same when they differ at most in the order
of mapping entries and in the sign of zero; keys of a mapping are compared in this way.

Two mappings merge key by key: a key keeps its place in the lower one, and new keys follow in the
order of the upper one. Everything else of the upper value replaces what the lower one has.
-/

namespace KubeCompose

open Number (Binary64)

/-- A document value. -/
inductive Yaml where
  | null
  | bool (value : Bool)
  | int (value : Int)
  | float (value : Binary64)
  | str (value : String)
  | seq (items : List Yaml)
  | map (entries : List (Yaml × Yaml))
  | tagged (tag : String) (value : Yaml)
  deriving Repr, Inhabited

namespace Yaml

mutual

/-- Whether two values are the same document. -/
def same : Yaml → Yaml → Bool
  | .null, .null => true
  | .bool a, .bool b => a == b
  | .int a, .int b => a == b
  | .float a, .float b => a.same b
  | .str a, .str b => a == b
  | .seq xs, .seq ys => sameItems xs ys
  | .map xs, .map ys => xs.length == ys.length && sameEntries xs ys
  | .tagged t a, .tagged u b => t == u && same a b
  | _, _ => false

/-- Whether two sequences hold the same values in order. -/
def sameItems : List Yaml → List Yaml → Bool
  | [], [] => true
  | x :: xs, y :: ys => same x y && sameItems xs ys
  | _, _ => false

/-- Whether each entry of the first mapping is found in the second. -/
def sameEntries : List (Yaml × Yaml) → List (Yaml × Yaml) → Bool
  | [], _ => true
  | (k, v) :: r, ys => ys.any (fun e => same k e.1 && same v e.2) && sameEntries r ys

end

instance : BEq Yaml := ⟨same⟩

/-- A mapping with text keys. -/
def fields (entries : List (String × Yaml)) : Yaml :=
  .map (entries.map fun (k, v) => (.str k, v))

/-- The value below its tags. -/
def untagged : Yaml → Yaml
  | .tagged _ v => untagged v
  | v => v

/-- The text of a value, also of a tagged one. -/
def asText? (v : Yaml) : Option String :=
  match v.untagged with
  | .str s => some s
  | _ => none

/-- The entries of a mapping, also of a tagged one. -/
def asMap? (v : Yaml) : Option (List (Yaml × Yaml)) :=
  match v.untagged with
  | .map es => some es
  | _ => none

/-- The items of a sequence, also of a tagged one. -/
def asSeq? (v : Yaml) : Option (List Yaml) :=
  match v.untagged with
  | .seq xs => some xs
  | _ => none

/-- The value of a text key in a mapping, also in a tagged one. -/
def get? (v : Yaml) (key : String) : Option Yaml :=
  v.asMap?.bind fun es => OrderedMap.find? es (.str key)

/-- The value at a path of text keys. -/
def at? (v : Yaml) : List String → Option Yaml
  | [] => some v
  | key :: path => (v.get? key).bind fun w => w.at? path

/-- Whether a value is null, also below a tag. -/
def isNull (v : Yaml) : Bool :=
  match v.untagged with
  | .null => true
  | _ => false

mutual

/-- Whether the keys of every mapping in a value differ. -/
def keysDiffer : Yaml → Bool
  | .seq items => itemKeysDiffer items
  | .map entries => entryKeysDiffer entries
  | .tagged _ v => keysDiffer v
  | _ => true

/-- Whether the keys differ in every mapping in a list of values. -/
def itemKeysDiffer : List Yaml → Bool
  | [] => true
  | v :: r => keysDiffer v && itemKeysDiffer r

/-- Whether the keys of a mapping with these entries differ, and those in each key and value. -/
def entryKeysDiffer : List (Yaml × Yaml) → Bool
  | [] => true
  | (k, v) :: r =>
    !OrderedMap.contains r k && keysDiffer k && keysDiffer v && entryKeysDiffer r

end

/-! ### One value over another -/

mutual

/-- The value `base` with `overlay` laid over it. -/
def merge (base overlay : Yaml) : Yaml :=
  match overlay with
  | .map upper =>
    match base with
    | .map lower => .map (mergeEntries lower upper)
    | _ => .map upper
  | v => v

/-- The entries `lower` with those of the upper mapping laid over them. -/
def mergeEntries (lower : List (Yaml × Yaml)) : List (Yaml × Yaml) → List (Yaml × Yaml)
  | [] => lower
  | (k, v) :: rest =>
    let lower :=
      match OrderedMap.find? lower k with
      | some w => OrderedMap.insert lower k (merge w v)
      | none => lower ++ [(k, v)]
    mergeEntries lower rest

end

/-! ### Texts that are the same -/

@[simp] theorem same_str (a b : String) : same (.str a) (.str b) = (a == b) := by
  simp [same]

theorem str_beq_iff (a : String) (v : Yaml) : ((Yaml.str a == v) = true) ↔ v = .str a := by
  change same (.str a) v = true ↔ _
  cases v with
  | str b =>
    rw [same_str, beq_iff_eq]
    exact ⟨fun h => by rw [h], fun h => by injection h with h; exact h.symm⟩
  | _ => simp [same]

end Yaml

end KubeCompose
