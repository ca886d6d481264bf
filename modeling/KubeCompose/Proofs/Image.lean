import KubeCompose.Image
import KubeCompose.Proofs.Text

/-!
# References in a registry

A registry holds an image under its address and a slash. An image that does not stand there gets a
new place of one segment, and what follows the address is never shorter than the reference that was
given; so of two registries with one rest for an image, either both are the same or neither held
the image before.
-/

namespace KubeCompose.Image

open Text (dropTrailing cutAt? cutAtLast?)

/-- A reference stands under an address. -/
def IsUnder (address image : String) : Prop := ∃ rest, image = address ++ "/" ++ rest

/-- An address that does not end in a slash is its own root. -/
theorem registryRoot_eq_self {registry : List Char} (h : registry.getLast? ≠ some '/') :
    registryRoot registry = registry := by
  apply Text.dropTrailing_eq_self
  intro c hc
  have : c ≠ '/' := fun e => h (e ▸ hc)
  simpa using this

theorem isUnder_iff_isPrefix {address image : String} :
    IsUnder address image ↔ address.toList ++ ['/'] <+: image.toList := by
  constructor
  · rintro ⟨rest, rfl⟩
    exact ⟨rest.toList, by simp⟩
  · rintro ⟨rest, hr⟩
    refine ⟨String.ofList rest, ?_⟩
    rw [← String.toList_inj]
    simp [← hr]

instance (address image : String) : Decidable (IsUnder address image) :=
  decidable_of_iff _ isUnder_iff_isPrefix.symm

/-- The test for a reference that the registry holds is the test for one under its address. -/
theorem isPrefixOf_iff_isUnder {registry image : String} (h : registry.toList.getLast? ≠ some '/') :
    (registryRoot registry.toList ++ ['/']).isPrefixOf image.toList = true ↔
      IsUnder registry image := by
  rw [registryRoot_eq_self h, List.isPrefixOf_iff_prefix, isUnder_iff_isPrefix]

/-- Behind a reference can be put what holds no slash; it stands under the same addresses then. -/
theorem isUnder_append_iff {address image tail : String} (h : '/' ∉ tail.toList) :
    IsUnder address (image ++ tail) ↔ IsUnder address image := by
  rw [isUnder_iff_isPrefix, isUnder_iff_isPrefix, String.toList_append]
  constructor
  · rintro ⟨rest, hr⟩
    rcases List.append_eq_append_iff.1 hr with ⟨between, hImage, -⟩ | ⟨between, hAddress, hTail⟩
    · exact ⟨between, hImage.symm⟩
    · cases between with
      | nil => exact ⟨[], by rw [List.append_nil, hAddress, List.append_nil]⟩
      | cons c r =>
        -- the slash behind the address would be the last character of `c :: r`, a part of `tail`
        have hLast := congrArg List.getLast? hAddress
        rw [List.getLast?_concat, List.getLast?_append,
          List.getLast?_eq_some_getLast (List.cons_ne_nil c r), Option.some_or,
          Option.some.injEq] at hLast
        have hMem : '/' ∈ c :: r := hLast ▸ List.getLast_mem (List.cons_ne_nil c r)
        exact absurd (hTail ▸ List.mem_append_left rest hMem) h
  · intro hPrefix
    exact hPrefix.trans (List.prefix_append _ _)

/-- Nothing of a reference is lost when it is split. -/
theorem length_le_split (image : List Char) :
    image.length ≤ (split image).1.length + (split image).2.length := by
  unfold split
  split
  · rename_i name digest h
    simp [(Text.eq_append_of_cutAt? h).1]
  · split
    · rename_i name h
      have := (Text.eq_append_of_cutAtLast? h).1
      simp [this]
    · rename_i name tag _ h
      have := (Text.eq_append_of_cutAtLast? h).1
      split <;> simp [this]
    · simp

/-- The rest of a reference that gets a new place in a registry. -/
def newPlace (image : String) : String :=
  String.ofList (flatten (split image.toList).1 ++ (split image.toList).2)

theorem length_le_newPlace (image : String) :
    image.toList.length ≤ (newPlace image).toList.length := by
  have := length_le_split image.toList
  simpa [newPlace, flatten] using this

section Address

variable {registry image : String} (hEnd : registry.toList.getLast? ≠ some '/')
  (hNonempty : registry ≠ "")
include hEnd

/-- A reference that the registry holds stays as it is. -/
theorem inRegistry_of_isUnder (h : IsUnder registry image) :
    inRegistry image registry = image := by
  have := (isPrefixOf_iff_isUnder hEnd).2 h
  simp [inRegistry, this]

include hNonempty

/-- Any other reference gets its new place under the address. -/
theorem inRegistry_of_not_isUnder (h : ¬ IsUnder registry image) :
    inRegistry image registry = registry ++ "/" ++ newPlace image := by
  have hPrefix : ¬ (registryRoot registry.toList ++ ['/']).isPrefixOf image.toList = true :=
    mt (isPrefixOf_iff_isUnder hEnd).1 h
  have hRoot := registryRoot_eq_self hEnd
  rw [hRoot] at hPrefix
  have hFull : registry.toList ≠ [] := by simpa [String.toList_eq_nil_iff] using hNonempty
  rw [← String.toList_inj]
  simp [inRegistry, hRoot, hPrefix, hFull, newPlace]

/-- In a registry every reference stands under the address. -/
theorem isUnder_inRegistry (image : String) : IsUnder registry (inRegistry image registry) := by
  by_cases h : IsUnder registry image
  · rwa [inRegistry_of_isUnder hEnd h]
  · exact ⟨newPlace image, inRegistry_of_not_isUnder hEnd hNonempty h⟩

end Address

/-- The address of a registry without the slashes at its end. -/
def root (registry : String) : String := String.ofList (registryRoot registry.toList)

@[simp] theorem toList_root (registry : String) :
    (root registry).toList = registryRoot registry.toList := by simp [root]

theorem root_eq_empty_iff {registry : String} :
    root registry = "" ↔ registryRoot registry.toList = [] := by
  rw [root, String.ofList_eq_empty_iff]

theorem getLast?_root (registry : String) : (root registry).toList.getLast? ≠ some '/' := by
  intro h
  rw [toList_root, registryRoot] at h
  simpa using Text.getLast?_dropTrailing h

/-- The slashes at the end of an address play no part. -/
theorem inRegistry_root (image registry : String) :
    inRegistry image (root registry) = inRegistry image registry := by
  have hRoot : registryRoot (root registry).toList = registryRoot registry.toList := by
    rw [registryRoot_eq_self (getLast?_root registry), toList_root]
  rw [inRegistry, inRegistry, hRoot]

/-- Without an address an image keeps its reference. -/
theorem inRegistry_of_root_eq_empty {registry : String} (h : root registry = "") (image : String) :
    inRegistry image registry = image := by
  rw [inRegistry]
  simp [root_eq_empty_iff.1 h]

theorem isUnder_root {registry : String} (h : root registry ≠ "") (image : String) :
    IsUnder (root registry) (inRegistry image registry) := by
  rw [← inRegistry_root]
  exact isUnder_inRegistry (getLast?_root registry) h image

/-- A reference in a registry stays there. -/
theorem inRegistry_idem (image registry : String) :
    inRegistry (inRegistry image registry) registry = inRegistry image registry := by
  by_cases h : root registry = ""
  · rw [inRegistry_of_root_eq_empty h, inRegistry_of_root_eq_empty h]
  · rw [← inRegistry_root (inRegistry image registry)]
    exact inRegistry_of_isUnder (getLast?_root registry) (isUnder_root h image)

/-- A reference that one registry holds and another does not has no rest in common in the two: what
it gets in the second is at least as long as the reference with its first address. -/
theorem no_common_rest {a b image rest : String} (ha : a.toList.getLast? ≠ some '/')
    (hb : b.toList.getLast? ≠ some '/') (hb' : b ≠ "") (hUnder : IsUnder a image)
    (hNot : ¬ IsUnder b image) (hA : inRegistry image a = a ++ "/" ++ rest)
    (hB : inRegistry image b = b ++ "/" ++ rest) : False := by
  rw [inRegistry_of_isUnder ha hUnder] at hA
  rw [inRegistry_of_not_isUnder hb hb' hNot, String.append_right_inj] at hB
  have hLong := length_le_newPlace image
  rw [hB, hA] at hLong
  simp only [String.toList_append, List.length_append] at hLong
  have : "/".toList.length = 1 := rfl
  omega

/-- Two registries have one rest for an image exactly when they are the same or neither of them
held the image before. -/
theorem common_rest_iff {a b image : String} (ha : a.toList.getLast? ≠ some '/') (ha' : a ≠ "")
    (hb : b.toList.getLast? ≠ some '/') (hb' : b ≠ "") :
    (∃ rest, inRegistry image a = a ++ "/" ++ rest ∧ inRegistry image b = b ++ "/" ++ rest) ↔
      a = b ∨ (¬ IsUnder a image ∧ ¬ IsUnder b image) := by
  constructor
  · rintro ⟨rest, hA, hB⟩
    by_cases hUnderA : IsUnder a image <;> by_cases hUnderB : IsUnder b image
    · left
      rw [inRegistry_of_isUnder ha hUnderA] at hA
      rw [inRegistry_of_isUnder hb hUnderB, hA, String.append_assoc, String.append_assoc,
        String.append_left_inj] at hB
      exact hB
    · exact (no_common_rest ha hb hb' hUnderA hUnderB hA hB).elim
    · exact (no_common_rest hb ha ha' hUnderB hUnderA hB hA).elim
    · exact .inr ⟨hUnderA, hUnderB⟩
  · rintro (rfl | ⟨hUnderA, hUnderB⟩)
    · obtain ⟨rest, h⟩ := isUnder_inRegistry ha ha' image
      exact ⟨rest, h, h⟩
    · exact ⟨newPlace image, inRegistry_of_not_isUnder ha ha' hUnderA,
        inRegistry_of_not_isUnder hb hb' hUnderB⟩

end KubeCompose.Image
