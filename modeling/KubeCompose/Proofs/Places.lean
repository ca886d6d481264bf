import KubeCompose.Proofs.Passes
import KubeCompose.Proofs.Repeated
import Mathlib.Data.List.Infix

/-!
# What underscores leave of a document

Underscores give way in the texts and in the keys of the mappings at a few places. Ways into a
document say what becomes of each of its parts: a text at the end of a way to one of these places
gets dashes, the entries of a mapping there get keys with dashes, and a part that is neither at such
a place nor below it keeps all that it has besides its own parts. `dashNames_at_places` says so of
every document and every way.
-/

namespace KubeCompose.Revise

open OrderedMap (find? find?_cons keys)

/-! ### Ways into a document -/

/-- A step down into a document: to the value of a key, or to an item. -/
inductive Branch where
  | key (key : Yaml)
  | item (i : Nat)

/-- The part of a value behind a step. -/
def Branch.part? : Branch → Yaml → Option Yaml
  | .key k, .map entries => find? entries k
  | .item i, .seq items => items[i]?
  | _, _ => none

/-- The part of a value at the end of a way. -/
def follow? : List Branch → Yaml → Option Yaml
  | [], v => some v
  | b :: way, v => (b.part? v).bind (follow? way)

/-- Whether a step is one of those that a step of a path stands for. -/
def Step.leads : Step → Branch → Bool
  | .key name, .key k => Yaml.str name == k
  | .each, .item _ => true
  | _, _ => false

/-- Whether a way is one of those that a path stands for. -/
def leads : List Step → List Branch → Bool
  | [], [] => true
  | s :: path, b :: way => s.leads b && leads path way
  | _, _ => false

/-- What a value has besides its own parts: its kind, the number of its items, its keys in order;
for a scalar, all of it. -/
def outline : Yaml → Yaml
  | .seq items => .seq (items.map fun _ => .null)
  | .map entries => .map (entries.map fun e => (e.1, .null))
  | .tagged tag v => .tagged tag (outline v)
  | v => v

/-! ### A change at a path -/

section Change

variable {path : List Step} {way : List Branch}

theorem outline_updateKey (name : String) (f : Yaml → Yaml) :
    (v : Yaml) → outline (Yaml.updateKey name f v) = outline v
  | .tagged tag v => by
    rw [Yaml.updateKey, Yaml.updateMap, outline, outline, ← outline_updateKey name f v]
    rfl
  | .map entries => by
    rw [Yaml.updateKey, Yaml.updateMap, outline, outline]
    congr 1
    induction entries with
    | nil => rfl
    | cons e entries ih =>
      obtain ⟨k, v⟩ := e
      rw [OrderedMap.modify]
      split
      · rfl
      · rw [List.map_cons, List.map_cons, ih]
  | .null | .bool _ | .int _ | .float _ | .str _ | .seq _ => rfl

/-- A change below a value is not one of its outline. -/
theorem outline_changeAt_cons (f : Yaml → Yaml) (s : Step) (path : List Step) (v : Yaml) :
    outline (changeAt f (s :: path) v) = outline v := by
  cases s with
  | key name => exact outline_updateKey name (changeAt f path) v
  | each =>
    cases v with
    | seq items => simp [changeAt, outline, List.map_map, Function.comp_def]
    | _ => rfl

/-- A key that is not the given text is apart from it. -/
theorem apart_of_str_bne {k : Yaml} {name : String} (h : (Yaml.str name == k) = false) :
    OrderedMap.Apart k (.str name) := by
  intro j hk
  rw [Bool.eq_false_iff]
  intro hName
  obtain rfl := (Yaml.str_beq_iff name j).1 hName
  by_cases hText : ∃ t, k = .str t
  · obtain ⟨t, rfl⟩ := hText
    rw [(Yaml.str_beq_iff t (.str name)).1 hk, Yaml.str_beq_self] at h
    exact Bool.false_ne_true h.symm
  · rw [beq_str_of_ne_str (fun t hEq => hText ⟨t, hEq⟩) name] at hk
    exact Bool.false_ne_true hk

/-- A change below a value is seen behind the steps that lead to it, and behind no others. -/
theorem part?_changeAt (f : Yaml → Yaml) (s : Step) (path : List Step) (b : Branch) (v : Yaml) :
    b.part? (changeAt f (s :: path) v) =
      if s.leads b then (b.part? v).map (changeAt f path) else b.part? v := by
  cases s with
  | key name =>
    rw [changeAt]
    cases b with
    | key k =>
      cases v with
      | map entries =>
        rw [Yaml.updateKey, Yaml.updateMap, Branch.part?, Branch.part?, Step.leads]
        split
        · rename_i hName
          rw [(Yaml.str_beq_iff name k).1 hName, OrderedMap.find?_modify]
        · rename_i hName
          exact OrderedMap.find?_modify_apart (apart_of_str_bne (by simpa using hName)) entries _
      | _ => simp [Yaml.updateKey, Yaml.updateMap, Branch.part?]
    | item i =>
      have hSame : Branch.part? (.item i) (Yaml.updateKey name (changeAt f path) v) =
          Branch.part? (.item i) v := by
        cases v <;> rfl
      rw [hSame]
      rfl
  | each =>
    cases v with
    | seq items =>
      cases b with
      | key k => rfl
      | item i => simp [changeAt, Branch.part?, Step.leads]
    | _ => cases b <;> simp [changeAt, Branch.part?, Step.leads]

/-- At the end of a way that a path stands for, a change at the path is seen. -/
theorem follow?_changeAt (f : Yaml → Yaml) (h : leads path way = true) (v : Yaml) :
    follow? way (changeAt f path v) = (follow? way v).map f := by
  induction path generalizing way v with
  | nil =>
    cases way with
    | nil => rfl
    | cons b way => simp [leads] at h
  | cons s path ih =>
    cases way with
    | nil => simp [leads] at h
    | cons b way =>
      rw [leads, Bool.and_eq_true] at h
      rw [follow?, follow?, part?_changeAt, if_pos h.1]
      cases b.part? v with
      | none => rfl
      | some u => exact ih h.2 u

/-- No step is one of those that two different keys stand for. -/
theorem Step.leads_eq_false {a c : String} {b : Branch} (h : a ≠ c)
    (hLeads : (Step.key a).leads b = true) : (Step.key c).leads b = false := by
  cases b with
  | key k => exact Yaml.apart_str h k hLeads
  | item i => rfl

/-- At the end of a way that a path stands for, a change at a path that parts from it is not
seen. -/
theorem follow?_changeAt_of_parts {q : List Step} (hLeads : leads path way = true)
    (h : partAtKey path q = true) (f : Yaml → Yaml) (v : Yaml) :
    follow? way (changeAt f q v) = follow? way v := by
  induction path generalizing q way v with
  | nil => simp [partAtKey] at h
  | cons s path ih =>
    cases way with
    | nil => simp [leads] at hLeads
    | cons b way =>
      rw [leads, Bool.and_eq_true] at hLeads
      cases q with
      | nil => cases s <;> simp [partAtKey] at h
      | cons r q =>
        rw [follow?, follow?, part?_changeAt]
        -- the steps differ here, or the paths part further down
        have hCases : r.leads b = false ∨ partAtKey path q = true := by
          cases s with
          | key a =>
            cases r with
            | each => simp [partAtKey] at h
            | key c =>
              rw [partAtKey, Bool.or_eq_true, bne_iff_ne] at h
              exact h.imp_left fun hNe => Step.leads_eq_false hNe hLeads.1
          | each =>
            cases r with
            | key c => simp [partAtKey] at h
            | each => exact .inr h
        rcases hCases with hOther | hRest
        · rw [if_neg (Bool.eq_false_iff.1 hOther)]
        · split
          · cases b.part? v with
            | none => rfl
            | some u => exact ih hLeads.2 hRest u
          · rfl

/-- At the end of a way that does not pass what a path stands for, a change at the path leaves the
outline. -/
theorem outline_follow?_changeAt (h : ∀ part, part <+: way → leads path part = false)
    (f : Yaml → Yaml) (v : Yaml) :
    (follow? way (changeAt f path v)).map outline = (follow? way v).map outline := by
  induction path generalizing way v with
  | nil => exact absurd (h [] List.nil_prefix) (by simp [leads])
  | cons s path ih =>
    cases way with
    | nil => simp [follow?, outline_changeAt_cons]
    | cons b way =>
      rw [follow?, follow?, part?_changeAt]
      split
      · rename_i hStep
        have hRest : ∀ part, part <+: way → leads path part = false := by
          intro part hPart
          have hLonger := h (b :: part) (List.cons_prefix_cons.2 ⟨rfl, hPart⟩)
          rwa [leads, hStep, Bool.true_and] at hLonger
        cases b.part? v with
        | none => rfl
        | some u => exact ih hRest u
      · rfl

/-! ### Changes at several paths -/

variable {rules : List (List Step × (Yaml → Yaml))}

theorem follow?_foldl_of_parts (hLeads : leads path way = true)
    (h : ∀ rule ∈ rules, partAtKey path rule.1 = true) (document : Yaml) :
    follow? way (rules.foldl (fun d (p, f) => changeAt f p d) document) = follow? way document := by
  induction rules generalizing document with
  | nil => rfl
  | cons rule rules ih =>
    obtain ⟨hRule, hRules⟩ := List.forall_mem_cons.1 h
    rw [List.foldl_cons, ih hRules]
    exact follow?_changeAt_of_parts hLeads hRule rule.2 document

/-- Of changes at paths that part from one another, that of a path is seen at the end of the ways
that it stands for. -/
theorem follow?_foldl {rule : List Step × (Yaml → Yaml)}
    (hParts : rules.Pairwise fun r s => partAtKey r.1 s.1 = true ∧ partAtKey s.1 r.1 = true)
    (hRule : rule ∈ rules) (hLeads : leads rule.1 way = true) (document : Yaml) :
    follow? way (rules.foldl (fun d (p, f) => changeAt f p d) document) =
      (follow? way document).map rule.2 := by
  induction rules generalizing document with
  | nil => exact absurd hRule List.not_mem_nil
  | cons first rules ih =>
    obtain ⟨hFirst, hRest⟩ := List.pairwise_cons.1 hParts
    rw [List.foldl_cons]
    rcases List.mem_cons.1 hRule with rfl | hMem
    · rw [follow?_foldl_of_parts hLeads fun other hOther => (hFirst other hOther).1]
      exact follow?_changeAt rule.2 hLeads document
    · rw [ih hRest hMem, follow?_changeAt_of_parts hLeads (hFirst rule hMem).2]

theorem outline_follow?_foldl
    (h : ∀ rule ∈ rules, ∀ part, part <+: way → leads rule.1 part = false) (document : Yaml) :
    (follow? way (rules.foldl (fun d (p, f) => changeAt f p d) document)).map outline =
      (follow? way document).map outline := by
  induction rules generalizing document with
  | nil => rfl
  | cons rule rules ih =>
    obtain ⟨hRule, hRules⟩ := List.forall_mem_cons.1 h
    rw [List.foldl_cons, ih hRules]
    exact outline_follow?_changeAt hRule rule.2 document

end Change

/-! ### The map of a list of entries -/

section Entries

variable {m entries : List (Yaml × Yaml)} {key : Yaml}

/-- Whether a value is a text. -/
def isText : Yaml → Bool
  | .str _ => true
  | _ => false

theorem isText_eq_true_iff : isText key = true ↔ ∃ s, key = .str s := by
  cases key <;> simp [isText]

theorem find?_insert_of_bne {s : String} (h : (Yaml.str s == key) = false) (value : Yaml) :
    find? (OrderedMap.insert m key value) (.str s) = find? m (.str s) := by
  induction m with
  | nil => simp [OrderedMap.insert, find?_cons, h]
  | cons e m ih =>
    obtain ⟨k, v⟩ := e
    rw [OrderedMap.insert]
    split
    · rename_i hKey
      rw [find?_cons, find?_cons, apart_of_str_bne h k hKey]
      rfl
    · rw [find?_cons, find?_cons, ih]

/-- A text is given the value of its last entry. -/
theorem find?_ofList_str (entries : List (Yaml × Yaml)) (s : String) :
    find? (OrderedMap.ofList entries) (.str s) = find? entries.reverse (.str s) := by
  induction entries using List.reverseRecOn with
  | nil => rfl
  | append_singleton entries e ih =>
    rw [OrderedMap.ofList_concat, List.reverse_concat, find?_cons]
    split
    · rename_i hKey
      rw [(Yaml.str_beq_iff s e.1).1 hKey, OrderedMap.find?_insert_self _ (Yaml.str_beq_self s)]
    · rename_i hNe
      rw [find?_insert_of_bne (by simpa using hNe), ih]

theorem keys_insert_sublist (m : List (Yaml × Yaml)) (key value : Yaml) :
    (keys (OrderedMap.insert m key value)).Sublist (keys m ++ [key]) := by
  induction m with
  | nil => exact List.Sublist.refl _
  | cons e m ih =>
    rw [OrderedMap.insert]
    split
    · exact List.sublist_append_left _ _
    · exact ih.cons_cons e.1

/-- Each key keeps its first place. -/
theorem keys_ofList_sublist (entries : List (Yaml × Yaml)) :
    (keys (OrderedMap.ofList entries)).Sublist (keys entries) := by
  induction entries using List.reverseRecOn with
  | nil => exact List.Sublist.refl _
  | append_singleton entries e ih =>
    rw [OrderedMap.ofList_concat, keys, keys, List.map_append]
    exact (keys_insert_sublist _ e.1 e.2).trans (ih.append_right [e.1])

/-- An entry with a text is no change of those without. -/
theorem filter_insert_str (m : List (Yaml × Yaml)) (s : String) (value : Yaml) :
    (OrderedMap.insert m (.str s) value).filter (!isText ·.1) = m.filter (!isText ·.1) := by
  induction m with
  | nil => rfl
  | cons e m ih =>
    obtain ⟨k, v⟩ := e
    rw [OrderedMap.insert]
    split
    · rename_i hKey
      rw [(Yaml.str_beq_iff s k).1 hKey]
      rfl
    · rw [List.filter_cons, List.filter_cons, ih]

/-- Entries whose keys are no texts stay as they are when they differ. -/
theorem filter_ofList (h : KeysApart (entries.filter (!isText ·.1))) :
    (OrderedMap.ofList entries).filter (!isText ·.1) = entries.filter (!isText ·.1) := by
  induction entries using List.reverseRecOn with
  | nil => rfl
  | append_singleton entries e ih =>
    obtain ⟨key, value⟩ := e
    rw [List.filter_append, KeysApart, List.pairwise_append] at h
    rw [OrderedMap.ofList_concat, List.filter_append, ← ih h.1]
    cases hText : isText key with
    | true =>
      obtain ⟨s, rfl⟩ := isText_eq_true_iff.1 hText
      rw [filter_insert_str]
      simp [isText]
    | false =>
      have hNew : ∀ d ∈ OrderedMap.ofList entries, (key == d.1) = false := by
        intro d hd
        obtain ⟨c, hc, hKey⟩ := (keysApart_ofList entries).2 d hd
        rw [hKey]
        cases hOld : isText c.1 with
        | true =>
          obtain ⟨t, ht⟩ := isText_eq_true_iff.1 hOld
          rw [ht]
          refine beq_str_of_ne_str (fun s hEq => ?_) t
          exact Bool.eq_false_iff.1 hText (isText_eq_true_iff.2 ⟨s, hEq⟩)
        | false =>
          exact h.2.2 c (List.mem_filter.2 ⟨hc, by simp [hOld]⟩) (key, value) (by simp [hText])
      rw [insert_of_apart hNew, List.filter_append]

end Entries

/-! ### What becomes of labels -/

theorem filter_dashedEntries (entries : List (Yaml × Yaml)) :
    (dashedEntries entries).filter (!isText ·.1) = entries.filter (!isText ·.1) := by
  induction entries with
  | nil => rfl
  | cons e entries ih =>
    obtain ⟨k, v⟩ := e
    rw [dashedEntries, List.map_cons, List.filter_cons, List.filter_cons, ← dashedEntries, ih]
    cases k <;> rfl

/-- The entries of a mapping after dashes have taken the place of the underscores in its keys: each
text is given the value of the last entry that became it. The keys stay in order, and the entries
whose keys are no texts stay as they are. -/
structure DashedEntries (before after : List (Yaml × Yaml)) : Prop where
  apart : KeysApart after
  values : ∀ s, find? after (.str s) = find? (dashedEntries before).reverse (.str s)
  order : (keys after).Sublist (keys (dashedEntries before))
  others : KeysApart before → after.filter (!isText ·.1) = before.filter (!isText ·.1)

theorem dashedEntries_ofList (entries : List (Yaml × Yaml)) :
    DashedEntries entries (OrderedMap.ofList (dashedEntries entries)) where
  apart := (keysApart_ofList _).1
  values := find?_ofList_str _
  order := keys_ofList_sublist _
  others h := by
    rw [filter_ofList, filter_dashedEntries]
    rw [filter_dashedEntries]
    exact h.filter _

/-! ### Places -/

/-- Where pods stand: in the template of a workload, and on their own. -/
def podPlaces : List (List Step) := [[.key "spec", .key "template", .key "spec"], [.key "spec"]]

/-- Where texts get dashes in a pod: its host name, and the values in the environment of its
containers. -/
def podTextPlaces : List (List Step) :=
  [[.key "hostname"],
   [.key "containers", .each, .key "env", .each, .key "value"],
   [.key "initContainers", .each, .key "env", .each, .key "value"]]

/-- Where texts get dashes: in the pods, and in the name of an object. -/
def textPlaces : List (List Step) :=
  [.key "metadata", .key "name"] :: podPlaces.flatMap fun pod => podTextPlaces.map (pod ++ ·)

/-- Where the keys of mappings get dashes: in the selector of a workload and the labels of its
pods. -/
def keyPlaces : List (List Step) :=
  [[.key "spec", .key "selector", .key "matchLabels"],
   [.key "spec", .key "template", .key "metadata", .key "labels"]]

/-- What becomes of the value at a place of a text. -/
structure DashedText (before after : Option Yaml) : Prop where
  text : ∀ s, before = some (.str s) →
    after = some (.str (s.map fun c => if c = '_' then '-' else c))
  other : (∀ s, before ≠ some (.str s)) → after = before

/-- What becomes of the value at a place of a mapping. -/
structure DashedKeys (before after : Option Yaml) : Prop where
  entries : ∀ entries, before = some (.map entries) →
    ∃ entries', after = some (.map entries') ∧ DashedEntries entries entries'
  other : (∀ entries, before ≠ some (.map entries)) → after = before

theorem dashedText_map (before : Option Yaml) : DashedText before (before.map dashText) where
  text s h := by rw [h, Option.map_some, dashText, dashed]
  other h := by
    cases before with
    | none => rfl
    | some v =>
      cases v with
      | str s => exact absurd rfl (h s)
      | _ => rfl

theorem dashedKeys_map (before : Option Yaml) : DashedKeys before (before.map dashKeys) where
  entries entries h := by
    rw [h, Option.map_some, dashKeys_map]
    exact ⟨_, rfl, dashedEntries_ofList entries⟩
  other h := by
    cases before with
    | none => rfl
    | some v =>
      cases v with
      | map entries => exact absurd rfl (h entries)
      | _ => rfl

theorem parts_dashRules : dashRules.Pairwise fun r s =>
    partAtKey r.1 s.1 = true ∧ partAtKey s.1 r.1 = true := by
  decide +kernel

/-- The rules are the changes at the places. -/
theorem dashRules_perm :
    dashRules.Perm
      (textPlaces.map (fun place => (place, dashText)) ++
        keyPlaces.map fun place => (place, dashKeys)) := by
  have hRest : (keyPlaces.map (fun place => (place, dashKeys)) ++
      textPlaces.tail.map fun place => (place, dashText)).Perm
        (textPlaces.tail.map (fun place => (place, dashText)) ++
          keyPlaces.map fun place => (place, dashKeys)) := List.perm_append_comm
  exact hRest.cons ([.key "metadata", .key "name"], dashText)

theorem mem_dashRules_iff {path : List Step} {f : Yaml → Yaml} :
    (path, f) ∈ dashRules ↔
      path ∈ textPlaces ∧ dashText = f ∨ path ∈ keyPlaces ∧ dashKeys = f := by
  simp [dashRules_perm.mem_iff]

/-- Where underscores give way in a document, and what stays. -/
theorem dashNames_at_places (document : Yaml) (way : List Branch) :
    ((∃ place ∈ textPlaces, leads place way = true) →
        DashedText (follow? way document) (follow? way (dashNames document))) ∧
      ((∃ place ∈ keyPlaces, leads place way = true) →
        DashedKeys (follow? way document) (follow? way (dashNames document))) ∧
      ((∀ place ∈ textPlaces ++ keyPlaces, ∀ part, part <+: way → leads place part = false) →
        (follow? way (dashNames document)).map outline = (follow? way document).map outline) := by
  refine ⟨?_, ?_, ?_⟩
  · rintro ⟨place, hPlace, hLeads⟩
    have hRule : (place, dashText) ∈ dashRules := mem_dashRules_iff.2 (.inl ⟨hPlace, rfl⟩)
    rw [dashNames, follow?_foldl parts_dashRules hRule hLeads]
    exact dashedText_map _
  · rintro ⟨place, hPlace, hLeads⟩
    have hRule : (place, dashKeys) ∈ dashRules := mem_dashRules_iff.2 (.inr ⟨hPlace, rfl⟩)
    rw [dashNames, follow?_foldl parts_dashRules hRule hLeads]
    exact dashedKeys_map _
  · intro hElsewhere
    refine outline_follow?_foldl (fun rule hRule => hElsewhere rule.1 (List.mem_append.2 ?_))
      document
    exact (mem_dashRules_iff.1 hRule).imp And.left And.left

/-! ### A deployment with underscores -/

/-- A deployment with two labels that become one, whose container has an underscore in its name and
one in its environment. -/
def underscoredDeployment : Yaml :=
  .fields
    [("metadata", .fields [("name", .str "web")]),
     ("spec",
      .fields
        [("template",
          .fields
            [("metadata",
              .fields
                [("labels", .fields [("app_name", .str "web"), ("app-name", .str "front")])]),
             ("spec",
              .fields
                [("containers",
                  .seq
                    [.fields
                      [("name", .str "web_app"),
                       ("env",
                        .seq
                          [.fields
                            [("name", .str "DB_HOST"), ("value", .str "orders_db")]])]])])])])]

/-- The way to the labels of its pods. -/
def labelsWay : List Branch :=
  [.key (.str "spec"), .key (.str "template"), .key (.str "metadata"), .key (.str "labels")]

/-- The way to its container. -/
def containerWay : List Branch :=
  [.key (.str "spec"), .key (.str "template"), .key (.str "spec"), .key (.str "containers"),
   .item 0]

/-- The way to the name of this container. -/
def containerNameWay : List Branch := containerWay ++ [.key (.str "name")]

/-- The value in the environment gets a dash, the last of the labels gives its value, and the name
of the container keeps its underscore. -/
theorem dashNames_at_places_underscoredDeployment :
    follow? (containerWay ++ [.key (.str "env"), .item 0, .key (.str "value")])
        (dashNames underscoredDeployment) = some (.str "orders-db") ∧
      (∃ labels, follow? labelsWay (dashNames underscoredDeployment) = some (.map labels) ∧
        find? labels (.str "app-name") = some (.str "front")) ∧
      (follow? containerNameWay (dashNames underscoredDeployment)).map outline =
        some (.str "web_app") := by
  have hValue : follow? (containerWay ++ [.key (.str "env"), .item 0, .key (.str "value")])
      underscoredDeployment = some (.str "orders_db") := by
    decide +kernel
  have hLabels : follow? labelsWay underscoredDeployment =
      some (.map [(.str "app_name", .str "web"), (.str "app-name", .str "front")]) := by
    decide +kernel
  have hName : (follow? containerNameWay underscoredDeployment).map outline =
      some (.str "web_app") := by
    decide +kernel
  have hParts : ∀ place ∈ textPlaces ++ keyPlaces,
      ∀ part ∈ containerNameWay.inits, leads place part = false := by
    decide +kernel
  refine ⟨?_, ?_, ?_⟩
  · have hDashed : "orders_db".map (fun c => if c = '_' then '-' else c) = "orders-db" := by
      decide +kernel
    rw [((dashNames_at_places _ _).1 (by decide +kernel)).text _ hValue, hDashed]
  · obtain ⟨labels, hAfter, hDashed⟩ :=
      ((dashNames_at_places underscoredDeployment labelsWay).2.1 (by decide +kernel)).entries _
        hLabels
    refine ⟨labels, hAfter, ?_⟩
    rw [hDashed.values]
    decide +kernel
  · rw [← hName]
    exact (dashNames_at_places _ _).2.2 fun place hPlace part hPart =>
      hParts place hPlace part ((List.mem_inits part _).2 hPart)

end KubeCompose.Revise
