import KubeCompose.Text.Blank
import KubeCompose.Text.Fields

/-!
# Image references

A reference is a name with a tag behind a colon or a digest behind an at sign. In a registry every
image has a name of one segment: the separators of its name become dashes.
-/

namespace KubeCompose.Image

open Text (cutAt? cutAtLast? dropTrailing)

/-- The tag of a reference that gives none. -/
def defaultTag : String := "latest"

/-- A reference as its name and what follows it: the digest or the tag with its mark. -/
def split (image : List Char) : List Char × List Char :=
  match cutAt? '@' image with
  | some (name, digest) => (name, '@' :: digest)
  | none =>
    match cutAtLast? ':' image with
    | some (name, []) => (name, ':' :: defaultTag.toList)
    | some (name, tag) =>
      if tag.contains '/' then (image, ':' :: defaultTag.toList) else (name, ':' :: tag)
    | none => (image, ':' :: defaultTag.toList)

/-- A name as one segment. -/
def flatten (name : List Char) : List Char :=
  name.map fun c => if c = '/' ∨ c = '_' ∨ c = ':' then '-' else c

/-- A registry without the slashes at its end. -/
def registryRoot (registry : List Char) : List Char := dropTrailing (· == '/') registry

/-- The reference under which a registry holds an image; one that the registry holds already stays
as it is. -/
def inRegistry (image registry : String) : String :=
  let root := registryRoot registry.toList
  let cs := image.toList
  if root.isEmpty || (root ++ ['/']).isPrefixOf cs then image
  else
    let (name, suffix) := split cs
    String.ofList (root ++ '/' :: flatten name ++ suffix)

end KubeCompose.Image
