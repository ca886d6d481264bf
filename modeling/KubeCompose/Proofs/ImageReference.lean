import KubeCompose.Proofs.Image

/-!
# The parts of an image reference

A digest begins at the first at sign. Without one, what stands behind the last colon is a tag,
unless it is empty or a slash stands in it: then the colon belongs to the port of a registry.
`Parts` says so without the search, and `split_eq_iff` that a reference is split into its parts.

The name of a reference and its flattened form have the same kind of what follows them, so that a
reference that was given a new place in a registry is split there at the same place.
-/

namespace KubeCompose.Image

/-- A reference without a tag and a digest: no at sign stands in it, and behind every colon there
is a slash. -/
structure Unmarked (image : List Char) : Prop where
  noAt : '@' ∉ image
  noTag : ∀ name tag, image = name ++ ':' :: tag → '/' ∈ tag

/-- What can stand behind the colon of a tag. -/
structure IsTag (tag : List Char) : Prop where
  nonempty : tag ≠ []
  noSlash : '/' ∉ tag
  noColon : ':' ∉ tag
  noAt : '@' ∉ tag

/-- A reference, its name and what follows the name: the digest or the tag with its mark. -/
inductive Parts : List Char → List Char → List Char → Prop
  | digest {name : List Char} (hName : '@' ∉ name) (digest : List Char) :
    Parts (name ++ '@' :: digest) name ('@' :: digest)
  | tag {name tag : List Char} (hName : '@' ∉ name) (hTag : IsTag tag) :
    Parts (name ++ ':' :: tag) name (':' :: tag)
  | emptyTag {name : List Char} (hName : '@' ∉ name) :
    Parts (name ++ [':']) name (':' :: defaultTag.toList)
  | unmarked {image : List Char} (h : Unmarked image) :
    Parts image image (':' :: defaultTag.toList)

theorem isTag_defaultTag : IsTag defaultTag.toList := by
  refine ⟨?_, ?_, ?_, ?_⟩ <;> decide

section Parts

variable {image name suffix : List Char}

/-- A reference is split into its parts. -/
theorem Parts.split_eq (h : Parts image name suffix) : split image = (name, suffix) := by
  cases h with
  | digest hName digest => rw [split, Text.cutAt?_append digest hName]
  | @tag _ tag hName hTag =>
    have hNone : Text.cutAt? '@' (name ++ ':' :: tag) = none := by
      rw [Text.cutAt?_eq_none_iff]
      simp [hName, hTag.noAt]
    have hSlash : tag.contains '/' = false := by simpa using hTag.noSlash
    rw [split, hNone, Text.cutAtLast?_append name hTag.noColon]
    cases tag with
    | nil => exact absurd rfl hTag.nonempty
    | cons c r => simp only [hSlash, Bool.false_eq_true, if_false]
  | emptyTag hName =>
    have hNone : Text.cutAt? '@' (name ++ [':']) = none := by
      rw [Text.cutAt?_eq_none_iff]
      simp [hName]
    rw [split, hNone, Text.cutAtLast?_append name (by simp)]
  | unmarked h =>
    rw [split, Text.cutAt?_eq_none_iff.2 h.noAt]
    cases hCut : Text.cutAtLast? ':' image with
    | none => rfl
    | some parts =>
      obtain ⟨before, after⟩ := parts
      obtain ⟨hParts, -⟩ := Text.eq_append_of_cutAtLast? hCut
      have hSlash := h.noTag before after hParts
      cases after with
      | nil => simp at hSlash
      | cons c r => simp [hSlash]

/-- A colon that no other stands behind, with a slash behind it, is the mark of no tag. -/
theorem unmarked_of_port {host port : List Char} (hAt : '@' ∉ host ++ ':' :: port)
    (hColon : ':' ∉ port) (hSlash : '/' ∈ port) : Unmarked (host ++ ':' :: port) := by
  refine ⟨hAt, ?_⟩
  intro name tag hParts
  rw [List.append_eq_append_iff] at hParts
  rcases hParts with ⟨between, -, hRest⟩ | ⟨between, -, hRest⟩
  · cases between with
    | nil => exact (List.cons.inj hRest).2 ▸ hSlash
    | cons c r =>
      rw [List.cons_append, List.cons.injEq] at hRest
      exact absurd (hRest.2 ▸ List.mem_append_right r List.mem_cons_self) hColon
  · have hMem : '/' ∈ ':' :: tag := by
      rw [hRest]
      exact List.mem_append_right _ (List.mem_cons_of_mem _ hSlash)
    exact (List.mem_cons.1 hMem).resolve_left (by decide)

/-- Every reference has parts. -/
theorem parts_split (image : List Char) : Parts image (split image).1 (split image).2 := by
  unfold split
  cases hAt : Text.cutAt? '@' image with
  | some parts =>
    obtain ⟨name, digest⟩ := parts
    obtain ⟨rfl, hName⟩ := Text.eq_append_of_cutAt? hAt
    exact .digest hName digest
  | none =>
    have hNone := Text.cutAt?_eq_none_iff.1 hAt
    cases hColon : Text.cutAtLast? ':' image with
    | none =>
      have hNoColon := Text.cutAtLast?_eq_none_iff.1 hColon
      refine .unmarked ⟨hNone, ?_⟩
      rintro name tag rfl
      exact absurd (List.mem_append_right name List.mem_cons_self) hNoColon
    | some parts =>
      obtain ⟨name, tag⟩ := parts
      obtain ⟨rfl, hTag⟩ := Text.eq_append_of_cutAtLast? hColon
      have hName : '@' ∉ name := fun h => hNone (List.mem_append_left _ h)
      cases tag with
      | nil => exact .emptyTag hName
      | cons c r =>
        by_cases hSlash : '/' ∈ c :: r
        · simp only [List.contains_iff_mem, hSlash, if_true]
          exact .unmarked (unmarked_of_port hNone hTag hSlash)
        · simp only [List.contains_iff_mem, hSlash, if_false]
          refine .tag hName ⟨List.cons_ne_nil c r, hSlash, hTag, ?_⟩
          exact fun h => hNone (List.mem_append_right _ (List.mem_cons_of_mem _ h))

/-- What a reference is split into are its parts, and nothing else is. -/
theorem split_eq_iff : split image = (name, suffix) ↔ Parts image name suffix := by
  constructor
  · intro h
    have hParts := parts_split image
    rwa [h] at hParts
  · exact Parts.split_eq

/-- No at sign stands in a name. -/
theorem Parts.at_notMem (h : Parts image name suffix) : '@' ∉ name := by
  cases h with
  | digest hName | tag hName | emptyTag hName => exact hName
  | unmarked h => exact h.noAt

/-- What follows a name is a digest or a tag, with its mark. -/
theorem Parts.suffix_cases (h : Parts image name suffix) :
    (∃ digest, image = name ++ '@' :: digest ∧ suffix = '@' :: digest) ∨
      ∃ tag, IsTag tag ∧ suffix = ':' :: tag := by
  cases h with
  | digest _ digest => exact .inl ⟨digest, rfl, rfl⟩
  | tag _ hTag => exact .inr ⟨_, hTag, rfl⟩
  | emptyTag | unmarked => exact .inr ⟨_, isTag_defaultTag, rfl⟩

/-! ### Flattened names -/

/-- A flattened name is one segment without marks. -/
theorem Parts.of_mem_flatten (h : Parts image name suffix) :
    ∀ c ∈ flatten name, c ≠ '/' ∧ c ≠ '_' ∧ c ≠ ':' ∧ c ≠ '@' := by
  intro c hc
  obtain ⟨d, hd, rfl⟩ := List.mem_map.1 hc
  split
  · decide
  · rename_i hNot
    rw [not_or, not_or] at hNot
    exact ⟨hNot.1, hNot.2.1, hNot.2.2, fun hAt => h.at_notMem (hAt ▸ hd)⟩

/-- The flattened name keeps what follows it. -/
theorem Parts.flatten (h : Parts image name suffix) :
    Parts (flatten name ++ suffix) (flatten name) suffix := by
  have hName : '@' ∉ Image.flatten name := fun hMem => (h.of_mem_flatten '@' hMem).2.2.2 rfl
  rcases h.suffix_cases with ⟨digest, -, rfl⟩ | ⟨tag, hTag, rfl⟩
  · exact .digest hName digest
  · exact .tag hName hTag

end Parts

/-! ### References in a registry -/

section Registry

variable {image registry : String} (hRoot : root registry ≠ "")
  (hNot : ¬ IsUnder (root registry) image)
include hRoot hNot

/-- A reference with known parts gets its new place under the address. -/
theorem Parts.inRegistry {name suffix : List Char} (h : Parts image.toList name suffix) :
    inRegistry image registry =
      root registry ++ "/" ++ String.ofList (Image.flatten name ++ suffix) := by
  rw [← inRegistry_root, inRegistry_of_not_isUnder (getLast?_root registry) hRoot hNot, newPlace,
    h.split_eq]

theorem inRegistry_tagged (h : '@' ∉ image.toList) :
    inRegistry (image ++ ":latest") registry =
      root registry ++ "/" ++ String.ofList (flatten image.toList ++ ':' :: defaultTag.toList) := by
  have hTagged : Parts (image ++ ":latest").toList image.toList (':' :: defaultTag.toList) := by
    rw [String.toList_append]
    exact .tag h isTag_defaultTag
  exact hTagged.inRegistry hRoot (mt (isUnder_append_iff (by decide)).1 hNot)

/-- A reference without a tag and a digest gets the place of the same one with the usual tag. -/
theorem inRegistry_unmarked (h : Unmarked image.toList) :
    inRegistry (image ++ ":latest") registry = inRegistry image registry := by
  rw [inRegistry_tagged hRoot hNot h.noAt, Parts.inRegistry hRoot hNot (.unmarked h)]

/-- A reference with an empty tag gets the place of the same one with the usual tag. -/
theorem inRegistry_emptyTag (h : '@' ∉ image.toList) :
    inRegistry (image ++ ":latest") registry = inRegistry (image ++ ":") registry := by
  have hEmpty : Parts (image ++ ":").toList image.toList (':' :: defaultTag.toList) := by
    rw [String.toList_append]
    exact .emptyTag h
  rw [inRegistry_tagged hRoot hNot h,
    hEmpty.inRegistry hRoot (mt (isUnder_append_iff (by decide)).1 hNot)]

end Registry

/-- An image is split into its parts. It keeps its reference where there is no registry and where it
stands under the address already. Any other image gets a place of one segment under the address:
its flattened name, as long as the name and without separators and marks, and behind it the digest,
or a tag that is not empty; there the new reference is split. An image without a tag, or with an
empty one, gets the place of the same image with the usual tag. A reference in the registry stays
where it is. -/
theorem inRegistry_canonical (image registry : String) :
    (∀ name suffix, split image.toList = (name, suffix) ↔ Parts image.toList name suffix) ∧
    (root registry = "" ∨ IsUnder (root registry) image → inRegistry image registry = image) ∧
    (root registry ≠ "" ∧ ¬ IsUnder (root registry) image →
      (∃ name suffix, split image.toList = (name, suffix) ∧
        inRegistry image registry =
          root registry ++ "/" ++ String.ofList (flatten name ++ suffix) ∧
        (flatten name).length = name.length ∧
        (∀ c ∈ flatten name, c ≠ '/' ∧ c ≠ '_' ∧ c ≠ ':' ∧ c ≠ '@') ∧
        ((∃ digest, image.toList = name ++ '@' :: digest ∧ suffix = '@' :: digest) ∨
          ∃ tag, tag ≠ [] ∧ '/' ∉ tag ∧ suffix = ':' :: tag) ∧
        split (flatten name ++ suffix) = (flatten name, suffix)) ∧
      (Unmarked image.toList →
        inRegistry (image ++ ":latest") registry = inRegistry image registry) ∧
      ('@' ∉ image.toList →
        inRegistry (image ++ ":latest") registry = inRegistry (image ++ ":") registry)) ∧
    inRegistry (inRegistry image registry) registry = inRegistry image registry := by
  refine ⟨fun name suffix => split_eq_iff, ?_, ?_, inRegistry_idem image registry⟩
  · rintro (hRoot | hUnder)
    · exact inRegistry_of_root_eq_empty hRoot image
    · rw [← inRegistry_root]
      exact inRegistry_of_isUnder (getLast?_root registry) hUnder
  · rintro ⟨hRoot, hNot⟩
    refine ⟨?_, inRegistry_unmarked hRoot hNot, inRegistry_emptyTag hRoot hNot⟩
    have hParts := parts_split image.toList
    refine ⟨_, _, rfl, hParts.inRegistry hRoot hNot, List.length_map _, hParts.of_mem_flatten, ?_,
      hParts.flatten.split_eq⟩
    refine hParts.suffix_cases.imp_right ?_
    rintro ⟨tag, hTag, hSuffix⟩
    exact ⟨tag, hTag.nonempty, hTag.noSlash, hSuffix⟩

example : inRegistry "other:5001/team/my_app" "localhost:5000//" =
    "localhost:5000/other-5001-team-my-app:latest" := by decide

end KubeCompose.Image
