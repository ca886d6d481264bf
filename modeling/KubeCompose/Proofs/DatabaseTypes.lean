import KubeCompose.Proofs.Layers
import KubeCompose.Proofs.Text

/-!
# Database types from a variable and from a document

The types of databases are set by a variable, as a text with commas, or by a document, as a sequence
of texts. A list of names in lower case that is not empty gives the same settings both ways. An
empty list does not: a variable with an empty text counts as not set, so that the standard types
stay, where an empty sequence in a document leaves no types.
-/

namespace KubeCompose

open Text (trim lowercase splitOn)
open Yaml (fields)

namespace Settings

/-- The name of a type in lower case, as it can stand between commas. -/
structure IsTypeName (name : String) : Prop where
  nonempty : name ≠ ""
  comma : ',' ∉ name.toList
  trimmed : trim name.toList = name.toList
  lower : lowercase name = name

/-- The standard settings with other types of databases. -/
def ofTypes (types : List String) : Settings := { standard with databaseTypes := types }

/-- The document that sets nothing but the types of databases. -/
def typesDocument (types : List String) : Yaml :=
  fields [("databaseServiceTypes", .seq (types.map .str))]

variable {types : List String} {vars : Variables} {text : String}

/-- Names that are joined by commas are read as themselves. -/
theorem typesOfText_join (hTypes : ∀ t ∈ types, IsTypeName t) (h : types ≠ []) :
    typesOfText (Text.join "," types) = types := by
  have hPieces : splitOn ',' (Text.join "," types).toList = types.map String.toList :=
    Text.splitOn_join (fun t ht => (hTypes t ht).comma) h
  have hRead : ∀ t ∈ types, lowercase (String.ofList (trim t.toList)) = t := by
    intro t ht
    rw [(hTypes t ht).trimmed, String.ofList_toList, (hTypes t ht).lower]
  have hMap : (types.map fun t => lowercase (String.ofList (trim t.toList))) = types :=
    (List.map_congr_left hRead).trans (List.map_id types)
  rw [typesOfText, hPieces, List.map_map, Function.comp_def, hMap, List.filter_eq_self]
  intro t ht
  simpa using (hTypes t ht).nonempty

/-- Variables that set nothing but the types of databases. -/
theorem ofVariables_of_types
    (hOther : ∀ name, name ≠ "DB_SERVICE_TYPES" → vars.value? name = none) :
    ofVariables vars = .ok (ofTypes
      (((vars.value? "DB_SERVICE_TYPES").map typesOfText).getD standard.databaseTypes)) := by
  simp [ofVariables, registryOfVariables, clusterOfVariables, resourcesOfVariables, hOther,
    Variables.flag]
  rfl

theorem value?_of_types (hTypes : ∀ t ∈ types, IsTypeName t)
    (hGiven : vars "DB_SERVICE_TYPES" = some (Text.join "," types)) :
    vars.value? "DB_SERVICE_TYPES" = if types = [] then none else some (Text.join "," types) := by
  rw [Variables.value?, hGiven]
  split
  · rename_i hNil
    rw [hNil]
    rfl
  · rename_i hSome
    have hNonempty : Text.join "," types ≠ "" :=
      Text.join_ne_empty (fun t ht => (hTypes t ht).nonempty) hSome
    simp [Option.filter, hNonempty]

theorem decode_ofTypes (types : List String) :
    decode (ofTypes types).toYaml = .ok (ofTypes types) := by
  have hTypes : Yaml.Decode.list Yaml.Decode.text (.seq (types.map .str)) = .ok types :=
    Content.mapM_text_str types
  have hDecode : decode (ofTypes types).toYaml =
      (Yaml.Decode.list Yaml.Decode.text (.seq (types.map .str))).map ofTypes >>= fun s =>
        (Programs.decode Programs.standard.toYaml).map fun programs =>
          { s with programs := programs } := rfl
  rw [hDecode, hTypes]
  rfl

theorem overlay_typesDocument (types : List String) :
    standard.overlay (typesDocument types) = .ok (ofTypes types) := by
  have hMerge : standard.toYaml.merge (typesDocument types) = (ofTypes types).toYaml := rfl
  rw [typesDocument, fields, overlay, ← fields, ← typesDocument, hMerge, decode_ofTypes]
  rfl

/-- A list of names gives the same limits to every service, whether a variable or a document sets
it, exactly when it is not empty. -/
theorem limitsFor_agree_iff (hTypes : ∀ t ∈ types, IsTypeName t)
    (hGiven : vars "DB_SERVICE_TYPES" = some (Text.join "," types))
    (hOther : ∀ name, name ≠ "DB_SERVICE_TYPES" → vars.value? name = none)
    (hText : Yaml.parse text = .ok (typesDocument types)) :
    ∃ fromVariables fromDocument,
      ofVariables vars = .ok fromVariables ∧ standard.overlayText text = .ok fromDocument ∧
        ((∀ service, fromVariables.limitsFor service = fromDocument.limitsFor service) ↔
          types ≠ []) := by
  have hDocument : standard.overlayText text = .ok (ofTypes types) := by
    rw [overlayText, hText]
    exact overlay_typesDocument types
  refine ⟨_, _, ofVariables_of_types hOther, hDocument, ?_⟩
  rw [value?_of_types hTypes hGiven]
  by_cases hNil : types = []
  · -- The standard types are not set aside by an empty text.
    subst hNil
    refine iff_of_false (fun hAgree => ?_) (fun h => h rfl)
    exact absurd (hAgree "mysql") (by decide)
  · rw [if_neg hNil, Option.map_some, Option.getD_some, typesOfText_join hTypes hNil]
    exact iff_of_true (fun service => rfl) hNil

/-- The variables that give the types of databases as a text. -/
def typesVariables (given : String) : Variables := fun name =>
  if name = "DB_SERVICE_TYPES" then some given else none

theorem value?_typesVariables {given name : String} (h : name ≠ "DB_SERVICE_TYPES") :
    (typesVariables given).value? name = none := by
  rw [Variables.value?, typesVariables, if_neg h]
  rfl

theorem parse_cassandra :
    Yaml.parse "databaseServiceTypes: [mysql, cassandra]\n" =
      .ok (typesDocument ["mysql", "cassandra"]) := by decide +kernel

theorem limitsFor_agree_cassandra :
    (∀ t ∈ ["mysql", "cassandra"], IsTypeName t) ∧
      ∃ fromVariables fromDocument,
        ofVariables (typesVariables "mysql,cassandra") = .ok fromVariables ∧
          standard.overlayText "databaseServiceTypes: [mysql, cassandra]\n" = .ok fromDocument ∧
          ∀ service, fromVariables.limitsFor service = fromDocument.limitsFor service := by
  have hMysql : IsTypeName "mysql" := ⟨by decide, by decide, by decide, by decide⟩
  have hCassandra : IsTypeName "cassandra" := ⟨by decide, by decide, by decide, by decide⟩
  have hTypes : ∀ t ∈ ["mysql", "cassandra"], IsTypeName t := by
    simp [hMysql, hCassandra]
  obtain ⟨fromVariables, fromDocument, hVariables, hDocument, hAgree⟩ :=
    limitsFor_agree_iff hTypes rfl (fun _ => value?_typesVariables) parse_cassandra
  exact ⟨hTypes, fromVariables, fromDocument, hVariables, hDocument, hAgree.2 (by decide)⟩

theorem parse_noTypes :
    Yaml.parse "databaseServiceTypes: []\n" = .ok (typesDocument []) := by decide +kernel

/-- The empty list leaves the standard types where a variable gives it, and no types where a
document does, so that a service with the name of a database has other limits. -/
theorem not_limitsFor_agree_of_nil :
    Text.join "," [] = "" ∧
      ofVariables (typesVariables "") = .ok standard ∧
      standard.overlayText "databaseServiceTypes: []\n" = .ok (ofTypes []) ∧
      standard.limitsFor "mysql" ≠ (ofTypes []).limitsFor "mysql" := by
  have hDocument : standard.overlayText "databaseServiceTypes: []\n" = .ok (ofTypes []) := by
    rw [overlayText, parse_noTypes]
    exact overlay_typesDocument []
  exact ⟨rfl, ofVariables_of_types fun _ => value?_typesVariables, hDocument, by decide⟩

end Settings

end KubeCompose
