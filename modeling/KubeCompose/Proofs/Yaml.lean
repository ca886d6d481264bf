import KubeCompose.Manifest.Build
import KubeCompose.Proofs.OrderedMap

/-!
# Reading documents

What is found under a key or at a path of a document that is written out. A look-up in a mapping
with text keys is a look-up of the text in its entries.
-/

namespace KubeCompose.Yaml

open OrderedMap (find? find?_append find?_cons)

/-- The items of the sequence at a path; there are none where no sequence stands. -/
def itemsAt (v : Yaml) (path : List String) : List Yaml := ((v.at? path).bind asSeq?).getD []

/-- The entries of the mapping at a path; there are none where no mapping stands. -/
def entriesAt (v : Yaml) (path : List String) : List (Yaml × Yaml) :=
  ((v.at? path).bind asMap?).getD []

@[simp] theorem at?_nil (v : Yaml) : v.at? [] = some v := by rw [at?]

@[simp] theorem at?_cons (v : Yaml) (key : String) (path : List String) :
    v.at? (key :: path) = (v.get? key).bind fun u => u.at? path := by rw [at?]

@[simp] theorem asMap?_fields (entries : List (String × Yaml)) :
    (fields entries).asMap? = some (entries.map fun e => (.str e.1, e.2)) := by
  simp [fields, asMap?, untagged]

@[simp] theorem asSeq?_seq (items : List Yaml) : (Yaml.seq items).asSeq? = some items := by
  simp [asSeq?, untagged]

@[simp] theorem asText?_str (s : String) : (Yaml.str s).asText? = some s := by
  simp [asText?, untagged]

/-- A key of a mapping with text keys is looked up among the texts. -/
theorem get?_fields (entries : List (String × Yaml)) (key : String) :
    (fields entries).get? key = find? entries key := by
  rw [get?, asMap?_fields, Option.bind_some]
  exact OrderedMap.find?_map Yaml.str same_str entries key

/-- A path is followed in two parts. -/
theorem at?_append (v : Yaml) (path rest : List String) :
    v.at? (path ++ rest) = (v.at? path).bind fun u => u.at? rest := by
  induction path generalizing v with
  | nil => simp
  | cons key path ih =>
    rw [List.cons_append, at?_cons, at?_cons, Option.bind_assoc]
    congr 1
    funext u
    exact ih u

theorem itemsAt_append {v u : Yaml} {path : List String} (h : v.at? path = some u)
    (rest : List String) : v.itemsAt (path ++ rest) = u.itemsAt rest := by
  rw [itemsAt, at?_append, h, Option.bind_some, itemsAt]

theorem find?_listField (key : String) (items : List Yaml) (other : String) :
    find? (listField key items) other =
      if other == key then (if items = [] then none else some (.seq items)) else none := by
  cases items with
  | nil => simp [listField]
  | cons v r => simp [listField, find?_cons]

/-- A list field holds its items, also when it is left out for having none. -/
@[simp] theorem items_listField (items : List Yaml) :
    ((if items = [] then none else some (Yaml.seq items)).bind asSeq?).getD [] = items := by
  split
  · rename_i h
    simp [h]
  · simp

/-! ### Documents that can be written -/

theorem allWritable_iff (items : List Yaml) :
    allWritable items = true ↔ ∀ v ∈ items, isWritable false v = true := by
  induction items with
  | nil => simp [allWritable]
  | cons v r ih => simp [allWritable, ih]

@[simp] theorem isWritable_seq (tagged : Bool) (items : List Yaml) :
    isWritable tagged (.seq items) = true ↔ ∀ v ∈ items, isWritable false v = true := by
  rw [isWritable, allWritable_iff]

/-- A mapping with text keys can be written when its values can. -/
@[simp] theorem isWritable_fields (tagged : Bool) (entries : List (String × Yaml)) :
    isWritable tagged (fields entries) = true ↔ ∀ e ∈ entries, isWritable false e.2 = true := by
  have hStart : lacksStart (entries.map fun e => (Yaml.str e.1, e.2)) = false := by
    match entries with
    | [] => rfl
    | [e] => rfl
    | e :: f :: r => rfl
  have hEntries : ∀ es : List (String × Yaml),
      entriesWritable (es.map fun e => (Yaml.str e.1, e.2)) = true ↔
        ∀ e ∈ es, isWritable false e.2 = true := by
    intro es
    induction es with
    | nil => simp [entriesWritable]
    | cons e r ih => simp [entriesWritable, isWritable, ih]
  change isWritable tagged (.map (entries.map fun e => (Yaml.str e.1, e.2))) = true ↔ _
  rw [isWritable, hStart, ← hEntries]
  simp

@[simp] theorem isWritable_str (tagged : Bool) (s : String) :
    isWritable tagged (.str s) = true := by
  simp [isWritable]

@[simp] theorem isWritable_int (tagged : Bool) (n : Int) : isWritable tagged (.int n) = true := by
  simp [isWritable]

theorem isWritable_listField (key : String) (items : List Yaml) :
    (∀ e ∈ listField key items, isWritable false e.2 = true) ↔
      ∀ v ∈ items, isWritable false v = true := by
  cases items with
  | nil => simp [listField]
  | cons v r => simp [listField]

end KubeCompose.Yaml
