import KubeCompose.Compose.Decode
import KubeCompose.Proofs.OrderedMap
import KubeCompose.Proofs.Text

/-!
# Environments

An environment resolves to a map in which each key has the place of its first pair and the value of
its last, with the references and the aliases in that value replaced. A map of texts can be written
as an environment in three forms. Each of them is read as the form it is written in, and all have
the pairs of the map, so that they resolve alike.
-/

namespace KubeCompose.Compose

open OrderedMap (find? keys ofList)
open Text (cutAt?_append)
open Yaml.Decode (anyEntryTag anyTag hasTag textMapShape? textShape? valueShape?)

/-- The ways to write a map of texts as an environment. -/
inductive Form where
  | mapping
  | assignments
  | mappings
  deriving DecidableEq, Repr

namespace Form

/-- The value in which a map of texts is written. -/
def value (form : Form) (entries : OrderedMap String String) : Yaml :=
  match form with
  | .mapping => .map (entries.map fun e => (.str e.1, .str e.2))
  | .assignments => .seq (entries.map fun e => .str (e.1 ++ "=" ++ e.2))
  | .mappings => .seq (entries.map fun e => .map [(.str e.1, .str e.2)])

/-- The environment that is written. -/
def environment (form : Form) (entries : OrderedMap String String) : Environment :=
  match form with
  | .mapping => .map (entries.map fun e => (e.1, .str e.2))
  | .assignments => .list (entries.map fun e => .assignment (e.1 ++ "=" ++ e.2))
  | .mappings => .list (entries.map fun e => .mapping [(e.1, .str e.2)])

variable {entries : OrderedMap String String}

/-! ### Reading -/

theorem anyEntryTag_map (entries : OrderedMap String String) :
    anyEntryTag (entries.map fun e => (.str e.1, .str e.2)) = false := by
  induction entries with
  | nil => rfl
  | cons e r ih =>
    rw [List.map_cons, anyEntryTag, ih]
    rfl

/-- Items without a tag make a sequence without one. -/
theorem anyTag_map {α : Type} {item : α → Yaml} (h : ∀ a, hasTag (item a) = false) (as : List α) :
    anyTag (as.map item) = false := by
  induction as with
  | nil => rfl
  | cons a r ih => rw [List.map_cons, anyTag, h, ih, Bool.or_self]

/-- No form holds a tag. -/
theorem hasTag_value (form : Form) (entries : OrderedMap String String) :
    hasTag (form.value entries) = false := by
  cases form with
  | mapping => exact anyEntryTag_map entries
  | assignments => exact anyTag_map (fun _ => rfl) entries
  | mappings => exact anyTag_map (fun _ => rfl) entries

/-- A list whose items can all be read is read item by item. -/
theorem mapM_map_eq_some {α β γ : Type} {read? : β → Option γ} {item : α → β} {result : α → γ}
    (h : ∀ a, read? (item a) = some (result a)) (as : List α) :
    (as.map item).mapM read? = some (as.map result) := by
  induction as with
  | nil => rfl
  | cons a r ih =>
    rw [List.map_cons, List.mapM_cons, h, ih]
    rfl

/-- A mapping of texts whose keys differ keeps its entries. -/
theorem textMapShape?_mapping (hDistinct : (keys entries).Nodup) :
    textMapShape? (.map (entries.map fun e => (.str e.1, .str e.2))) =
      some (entries.map fun e => (e.1, .str e.2)) := by
  refine Option.map_eq_some_iff.2 ⟨entries.map fun e => (e.1, .str e.2), ?_, ?_⟩
  · apply mapM_map_eq_some
    exact fun _ => rfl
  · rw [OrderedMap.ofList_eq_self_iff, OrderedMap.keys_map]
    · exact hDistinct
    · exact fun _ => rfl

/-- A sequence is an environment in list form when each item has one of the two shapes. -/
theorem environmentListShape?_map {item : String × String → Yaml}
    {result : String × String → EnvironmentItem}
    (h : ∀ e, ((textShape? (item e)).map EnvironmentItem.assignment).or
      ((textMapShape? (item e)).map EnvironmentItem.mapping) = some (result e)) :
    environmentListShape? (.seq (entries.map item)) = some (.list (entries.map result)) := by
  rw [environmentListShape?, mapM_map_eq_some h, Option.map_some]

/-- What has no tag is read by its shape, as a mapping or as a list. -/
theorem decodeEnvironment_of_shape {v : Yaml} {env : Environment} (hTag : hasTag v = false)
    (h : ((textMapShape? v).map Environment.map).or (environmentListShape? v) = some env) :
    decodeEnvironment v = .ok env := by
  unfold decodeEnvironment Yaml.Decode.alternative
  rw [hTag, if_neg Bool.false_ne_true]
  cases hMap : textMapShape? v with
  | some fields =>
    rw [hMap] at h
    simp only [List.findSome?_cons, hMap, Option.map_some]
    exact congrArg Except.ok (Option.some.inj h)
  | none =>
    rw [hMap, Option.map_none, Option.none_or] at h
    simp only [List.findSome?_cons, hMap, Option.map_none, h]

/-- Each form is read as it is written. -/
theorem decodeEnvironment_value (form : Form) (hDistinct : (keys entries).Nodup) :
    decodeEnvironment (form.value entries) = .ok (form.environment entries) := by
  apply decodeEnvironment_of_shape (hasTag_value form entries)
  cases form with
  | mapping =>
    rw [value, textMapShape?_mapping hDistinct]
    rfl
  | assignments => exact environmentListShape?_map fun _ => rfl
  | mappings => exact environmentListShape?_map fun _ => rfl

/-! ### Pairs -/

theorem pairs_assignment {key : String} (h : '=' ∉ key.toList) (value : String) :
    (EnvironmentItem.assignment (key ++ "=" ++ value)).pairs = [(key, value)] := by
  have hText : (key ++ "=" ++ value).toList = key.toList ++ '=' :: value.toList := by simp
  rw [EnvironmentItem.pairs, hText, cutAt?_append value.toList h]
  simp

/-- Items that have one pair each have all the pairs in their order. -/
theorem flatMap_pairs_eq {item : String × String → EnvironmentItem}
    (h : ∀ e ∈ entries, (item e).pairs = [e]) :
    (entries.map item).flatMap (·.pairs) = entries := by
  induction entries with
  | nil => rfl
  | cons e r ih =>
    obtain ⟨he, hr⟩ := List.forall_mem_cons.1 h
    rw [List.map_cons, List.flatMap_cons, he, ih hr, List.singleton_append]

/-- Each form has the pairs of the map. -/
theorem pairs_environment (form : Form) (h : ∀ e ∈ entries, '=' ∉ e.1.toList) :
    (form.environment entries).pairs = entries := by
  cases form with
  | mapping =>
    rw [environment, Environment.pairs, List.map_map]
    exact List.map_id entries
  | assignments =>
    rw [environment, Environment.pairs]
    exact flatMap_pairs_eq fun e he => pairs_assignment (h e he) e.2
  | mappings =>
    rw [environment, Environment.pairs]
    exact flatMap_pairs_eq fun _ _ => rfl

end Form

/-- An environment resolves to the distinct keys of its pairs in the order in which they first
appear, each with the last of its values, in which the references and then the aliases are replaced.
A map of texts whose keys hold no equals sign resolves alike in every form, and each form is read as
it is written. -/
theorem Environment.resolve_last_in_first_place (vars : DotEnv) :
    (∀ env : Environment, keys (env.resolve vars) = (keys env.pairs).eraseDups ∧
      ∀ before key raw after, env.pairs = before ++ (key, raw) :: after → key ∉ keys after →
        find? (env.resolve vars) key = some (Alias.expand (vars.substitute raw))) ∧
      ∀ entries : OrderedMap String String, (∀ e ∈ entries, '=' ∉ e.1.toList) → ∀ form : Form,
        (form.environment entries).resolve vars = (Form.mapping.environment entries).resolve vars ∧
          ((keys entries).Nodup →
            decodeEnvironment (form.value entries) = .ok (form.environment entries)) := by
  refine ⟨?_, ?_⟩
  · intro env
    refine ⟨?_, ?_⟩
    · rw [Environment.resolve, OrderedMap.keys_ofList, OrderedMap.keys_map]
      exact fun _ => rfl
    · intro before key raw after hPairs hLast
      rw [Environment.resolve, hPairs, List.map_append, List.map_cons]
      apply OrderedMap.find?_ofList_of_last
      rw [OrderedMap.keys_map]
      · exact hLast
      · exact fun _ => rfl
  · intro entries hEntries form
    refine ⟨?_, form.decodeEnvironment_value⟩
    rw [Environment.resolve, Environment.resolve, form.pairs_environment hEntries,
      Form.mapping.pairs_environment hEntries]

/-- An environment in which a key is given twice, with an item that gives none. -/
def mixedEnvironment : Environment :=
  .list [.assignment "HOST=none", .assignment "plain", .mapping [("PORT", .int 80)],
    .assignment "HOST=$\x7bDB\x7d:1=2"]

/-- The variables of its project. -/
def mixedVariables : DotEnv := [("DB", "Order_db_ctr")]

theorem Environment.resolve_last_in_first_place_mixedEnvironment :
    mixedEnvironment.pairs =
        [("HOST", "none"), ("PORT", "80")] ++ ("HOST", "$\x7bDB\x7d:1=2") :: [] ∧
      "HOST" ∉ keys ([] : OrderedMap String String) ∧
      keys (mixedEnvironment.resolve mixedVariables) = ["HOST", "PORT"] ∧
      find? (mixedEnvironment.resolve mixedVariables) "HOST" = some "order-db-ctr:1=2" ∧
      (∀ e ∈ [("HOST", "a=b"), ("PORT", "80")], '=' ∉ e.1.toList) ∧
      (keys [("HOST", "a=b"), ("PORT", "80")]).Nodup ∧
      (Form.assignments.environment [("HOST", "a=b"), ("PORT", "80")]).resolve mixedVariables =
        (Form.mapping.environment [("HOST", "a=b"), ("PORT", "80")]).resolve mixedVariables ∧
      decodeEnvironment (Form.assignments.value [("HOST", "a=b"), ("PORT", "80")]) =
        .ok (Form.assignments.environment [("HOST", "a=b"), ("PORT", "80")]) := by
  obtain ⟨hResolved, hForms⟩ := Environment.resolve_last_in_first_place mixedVariables
  obtain ⟨hKeys, hLast⟩ := hResolved mixedEnvironment
  have hPairs : mixedEnvironment.pairs =
      [("HOST", "none"), ("PORT", "80")] ++ ("HOST", "$\x7bDB\x7d:1=2") :: [] := by decide +kernel
  have hNone : "HOST" ∉ keys ([] : OrderedMap String String) := by decide
  have hValue : Alias.expand (mixedVariables.substitute "$\x7bDB\x7d:1=2") =
      "order-db-ctr:1=2" := by decide +kernel
  have hEquals : ∀ e ∈ [("HOST", "a=b"), ("PORT", "80")], '=' ∉ e.1.toList := by decide
  have hDistinct : (keys [("HOST", "a=b"), ("PORT", "80")]).Nodup := by decide
  obtain ⟨hSame, hRead⟩ := hForms [("HOST", "a=b"), ("PORT", "80")] hEquals .assignments
  refine ⟨hPairs, hNone, ?_, ?_, hEquals, hDistinct, hSame, hRead hDistinct⟩
  · rw [hKeys, hPairs]
    decide
  · rw [hLast _ "HOST" _ _ hPairs hNone, hValue]

end KubeCompose.Compose
