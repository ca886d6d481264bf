import KubeCompose.FileTree.Error
import KubeCompose.FileTree.Path
import KubeCompose.OrderedMap

/-!
# File trees

A tree maps locations to entries. A location is the list of names on the way from the root, so that
two paths are of one file exactly when they lead to one location; symbolic links are followed on the
way there. The root is a directory and is not in the map.
-/

namespace KubeCompose

/-- The names on the way from the root. -/
abbrev Location := List String

/-- What stands at a location. -/
inductive Entry where
  | directory
  | file (content : ByteArray) (executable : Bool)
  | link (target : String)
  deriving BEq

/-- The entries below the root. -/
abbrev FileTree := OrderedMap Location Entry

/-- Where a path leads: to an entry, or to a free name in a directory. -/
inductive Place where
  | present (location : Location) (entry : Entry)
  | absent (location : Location)

namespace FileTree

/-- What stands at a location. -/
def look? (t : FileTree) (location : Location) : Option Entry :=
  if location = [] then some .directory else OrderedMap.find? t location

/-- Puts an entry at a location. -/
def put (t : FileTree) (location : Location) (entry : Entry) : FileTree :=
  OrderedMap.insert t location entry

/-- Takes away what stands at a location. -/
def remove (t : FileTree) (location : Location) : FileTree := OrderedMap.erase t location

/-- The names in a directory with their entries. -/
def children (t : FileTree) (location : Location) : List (String × Entry) :=
  t.filterMap fun (l, entry) =>
    match l.getLast? with
    | some name => if l.dropLast = location then some (name, entry) else none
    | none => none

/-- How many links may be followed on one way. -/
def linkLimit : Nat := 40

/-- Follows the pieces of a path from a location. A link at the very end is followed when `last`
holds. -/
def walk (t : FileTree) (last : Bool) (links : Nat) (here : Location) :
    List String → Except FileError Place
  | [] =>
    match t.look? here with
    | some entry => .ok (.present here entry)
    | none => .error .notFound
  | piece :: rest =>
    match t.look? here with
    | some .directory =>
      if Path.isIdle piece then walk t last links here rest
      else if piece = ".." then walk t last links here.dropLast rest
      else if Path.pieceLimit < piece.utf8ByteSize then .error .nameTooLong
      else
        let next := here ++ [piece]
        match t.look? next with
        | none => if rest.all (· == "") then .ok (.absent next) else .error .notFound
        | some (.link target) =>
          if rest.isEmpty && !last then .ok (.present next (.link target))
          else
            match links with
            | 0 => .error .tooManyLinks
            | n + 1 =>
              let start := if Path.isAbsolute target then [] else here
              walk t last n start (Path.pieces target ++ rest)
        | some _ => walk t last links next rest
    | _ => .error .notDirectory
termination_by pieces => (links, pieces.length)

theorem look?_put (t : FileTree) (l other : Location) (entry : Entry) :
    (t.put l entry).look? other =
      if other = [] then some .directory else if other = l then some entry else t.look? other := by
  by_cases h : other = []
  · simp [look?, h]
  · simp [look?, put, h, OrderedMap.find?_insert]

theorem look?_remove (t : FileTree) (l other : Location) :
    (t.remove l).look? other =
      if other = [] then some .directory else if other = l then none else t.look? other := by
  by_cases h : other = []
  · simp [look?, h]
  · simp [look?, remove, h, OrderedMap.find?_erase]

end FileTree

end KubeCompose
