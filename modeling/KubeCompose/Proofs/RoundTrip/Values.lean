import KubeCompose.Proofs.RoundTrip.Nodes
import KubeCompose.Proofs.RoundTrip.Scalars

/-!
# The values of written nodes

A value within the limits of the reader is the value of its node again: its integers fit a machine
word, its floating point numbers are of the format, and its collections do not nest too deep.
-/

namespace KubeCompose.Yaml

open Number (decimalInt)

/-! ### The limits of a reader -/

mutual

/-- Whether a value is within the limits of a reader in which collections nest at most `depth`
deep. -/
def isReadableValue (depth : Nat) : Yaml → Bool
  | .int n => isWord n
  | .float x => x.isCanonical
  | .seq items =>
    match depth with
    | 0 => false
    | depth + 1 => itemsReadable depth items
  | .map entries =>
    match depth with
    | 0 => false
    | depth + 1 => entriesReadable depth entries
  | .tagged _ v => isReadableValue depth v
  | _ => true

/-- Whether all values of a list are within the limits. -/
def itemsReadable (depth : Nat) : List Yaml → Bool
  | [] => true
  | v :: r => isReadableValue depth v && itemsReadable depth r

/-- Whether all keys and values of a mapping are within the limits. -/
def entriesReadable (depth : Nat) : List (Yaml × Yaml) → Bool
  | [] => true
  | (k, v) :: r => isReadableValue depth k && isReadableValue depth v && entriesReadable depth r

end

/-- A value below a tag. -/
def withName : Option String → Yaml → Yaml
  | none, v => v
  | some t, v => .tagged t v

namespace Node

variable {anchors : List (Nat × Node)} {depth left : Nat}

theorem target_run_scalar (props : Properties) (text : String) (plain : Bool) :
    (target anchors (.scalar props text plain)).run left =
      .ok (.scalar props text plain, left) := rfl

theorem target_run_seq (props : Properties) (items : List Node) :
    (target anchors (.seq props items)).run left = .ok (.seq props items, left) := rfl

theorem target_run_map (props : Properties) (entries : List (Node × Node)) :
    (target anchors (.map props entries)).run left = .ok (.map props entries, left) := rfl

/-- The tag of a written node is its local name. -/
theorem localTag?_of_readsTag {t : String} (h : readsTag t = true) :
    localTag? (tagBytes t) = some t := by
  obtain ⟨hNonempty, -, hKeeps⟩ := readsTag_iff.1 h
  exact localTag?_tagBytes hNonempty hKeeps

section Tagged

variable {tag : Option String} (hTag : ∀ t, tag = some t → readsTag t = true)
include hTag

theorem withTag_tagBytes (v : Yaml) : withTag (tag.map tagBytes) v = withName tag v := by
  cases tag with
  | none => rfl
  | some t =>
    rw [withTag, Option.map_some, Option.bind_some, localTag?_of_readsTag (hTag t rfl)]
    rfl

/-- A scalar below its tag is read as without it. -/
theorem scalarValue_tagBytes {text : String} {plain : Bool} {v : Yaml}
    (h : scalarValue none text plain = .ok v) :
    scalarValue (tag.map tagBytes) text plain = .ok (withName tag v) := by
  cases tag with
  | none => exact h
  | some t =>
    rw [Option.map_some, scalarValue, if_pos (isLocal_tagBytes t),
      localTag?_of_readsTag (hTag t rfl)]
    rw [scalarValue] at h
    dsimp only at h ⊢
    rw [h]
    rfl

theorem value_run_scalar {text : String} {plain : Bool} {v : Yaml}
    (hNode : nodeOf tag v = .scalar ⟨none, tag.map tagBytes⟩ text plain)
    (h : scalarValue none text plain = .ok v) :
    ((nodeOf tag v).value anchors depth).run left = .ok (withName tag v, left) := by
  have hValue := scalarValue_tagBytes hTag h
  rw [hNode, value, run_bind_of_ok (target_run_scalar ..)]
  simp only [hValue]
  rfl

end Tagged

theorem scalarValue_plain {text : String} {v : Yaml} (h : ofPlain? text = some v) :
    scalarValue none text true = .ok v := by
  rw [scalarValue]
  simp only [h, if_true]

theorem scalarValue_str (s : String) :
    scalarValue none s (decide (styleOf s = .plain)) = .ok (.str s) := by
  by_cases hStyle : styleOf s = .plain
  · rw [decide_eq_true hStyle]
    exact scalarValue_plain (ofPlain?_of_styleOf hStyle)
  · rw [decide_eq_false hStyle]
    rfl

mutual

/-- A value within the limits is the value of its node. -/
theorem value_nodeOf (tag : Option String) (hTag : ∀ t, tag = some t → readsTag t = true) :
    (v : Yaml) → (depth : Nat) → isWritable tag.isSome v = true → tagsSatisfy readsTag v = true →
      isReadableValue depth v = true →
      ((nodeOf tag v).value anchors depth).run left = .ok (withName tag v, left)
  | .tagged t v, depth, hWritable, hTags, hReadable => by
    simp only [isWritable, Bool.and_eq_true, Bool.not_eq_true', Option.isSome_eq_false_iff,
      Option.isNone_iff_eq_none] at hWritable
    simp only [tagsSatisfy, Bool.and_eq_true] at hTags
    rw [isReadableValue] at hReadable
    obtain ⟨rfl, hWritable⟩ := hWritable
    have hSome : ∀ u, some t = some u → readsTag u = true := fun u hu =>
      Option.some.inj hu ▸ hTags.1
    exact value_nodeOf _ hSome v depth hWritable hTags.2 hReadable
  | .seq _, 0, _, _, hReadable | .map _, 0, _, _, hReadable => by
    simp [isReadableValue] at hReadable
  | .seq items, depth + 1, hWritable, hTags, hReadable => by
    rw [isWritable] at hWritable
    rw [tagsSatisfy] at hTags
    rw [isReadableValue] at hReadable
    rw [nodeOf, value, run_bind_of_ok (target_run_seq ..)]
    refine (run_bind_of_ok (value_itemNodes items depth hWritable hTags hReadable)).trans ?_
    rw [withTag_tagBytes hTag]
    rfl
  | .map entries, depth + 1, hWritable, hTags, hReadable => by
    rw [isWritable, Bool.and_eq_true] at hWritable
    rw [tagsSatisfy] at hTags
    rw [isReadableValue] at hReadable
    rw [nodeOf, value, run_bind_of_ok (target_run_map ..)]
    refine (run_bind_of_ok (value_entryNodes entries depth hWritable.2 hTags hReadable)).trans ?_
    rw [withTag_tagBytes hTag]
    rfl
  | .null, _, _, _, _ => value_run_scalar hTag rfl (scalarValue_plain rfl)
  | .bool b, _, _, _, _ => by cases b <;> exact value_run_scalar hTag rfl (scalarValue_plain rfl)
  | .int n, _, _, _, hReadable => by
    rw [isReadableValue] at hReadable
    refine value_run_scalar hTag rfl (scalarValue_plain ?_)
    simpa [leafLines?] using ofPlain?_decimalInt hReadable
  | .float x, _, _, _, hReadable => by
    rw [isReadableValue] at hReadable
    refine value_run_scalar hTag rfl (scalarValue_plain ?_)
    simpa [leafLines?] using ofPlain?_text hReadable
  | .str s, _, _, _, _ => value_run_scalar hTag rfl (scalarValue_str s)

theorem value_itemNodes : (items : List Yaml) → (depth : Nat) → allWritable items = true →
    itemTagsSatisfy readsTag items = true → itemsReadable depth items = true →
    ((itemNodes items).mapM (value anchors depth)).run left = .ok (items, left)
  | [], _, _, _, _ => rfl
  | v :: r, depth, hWritable, hTags, hReadable => by
    rw [allWritable, Bool.and_eq_true] at hWritable
    rw [itemTagsSatisfy, Bool.and_eq_true] at hTags
    rw [itemsReadable, Bool.and_eq_true] at hReadable
    have hHead := value_nodeOf none (by simp) v depth hWritable.1 hTags.1 hReadable.1
    have hRest := value_itemNodes r depth
      hWritable.2 hTags.2 hReadable.2
    rw [itemNodes, List.mapM_cons, run_bind_of_ok hHead, run_bind_of_ok hRest]
    rfl

theorem value_entryNodes : (entries : List (Yaml × Yaml)) → (depth : Nat) →
    entriesWritable entries = true → entryTagsSatisfy readsTag entries = true →
    entriesReadable depth entries = true →
    ((entryNodes entries).mapM fun (k, v) => do
      return (← value anchors depth k, ← value anchors depth v)).run left = .ok (entries, left)
  | [], _, _, _, _ => rfl
  | (k, v) :: r, depth, hWritable, hTags, hReadable => by
    simp only [entriesWritable, Bool.and_eq_true] at hWritable
    simp only [entryTagsSatisfy, Bool.and_eq_true] at hTags
    simp only [entriesReadable, Bool.and_eq_true] at hReadable
    have hKey := value_nodeOf none (by simp) k depth hWritable.1.1 hTags.1.1 hReadable.1.1
    have hValue := value_nodeOf none (by simp) v depth hWritable.1.2 hTags.1.2 hReadable.1.2
    have hRest := value_entryNodes r depth
      hWritable.2 hTags.2 hReadable.2
    have hEntry : (do return (← value anchors depth (nodeOf none k),
        ← value anchors depth (nodeOf none v)) : Builder (Yaml × Yaml)).run left =
        .ok ((k, v), left) := by
      rw [run_bind_of_ok hKey, run_bind_of_ok hValue]
      rfl
    rw [entryNodes, List.mapM_cons]
    refine (run_bind_of_ok hEntry).trans ?_
    rw [run_bind_of_ok hRest]
    rfl

end

/-- A document within the limits, whose keys differ, is the document of its node. -/
theorem document_nodeOf {v : Yaml} (hWritable : isWritable false v = true)
    (hTags : tagsSatisfy readsTag v = true) (hReadable : isReadableValue depthLimit v = true)
    (hKeys : v.keysDiffer = true) : (nodeOf none v).document = .ok v := by
  have hValue : (nodeOf none v).toYaml = .ok v := by
    rw [toYaml, value_nodeOf none (by simp) v depthLimit hWritable hTags hReadable]
    rfl
  rw [document, hValue]
  change (if v.keysDiffer then _ else _) = _
  rw [if_pos hKeys]
  rfl

end Node

end KubeCompose.Yaml
