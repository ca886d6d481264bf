import KubeCompose.Engine.Basic

/-!
# An engine for rehearsals

It keeps the calls it is given and the images it has, and fails where it is told to.
-/

namespace KubeCompose

/-- The calls so far, the images that are there and the calls that are to fail, each by the first
of its words and its subject. -/
structure Rehearsal where
  calls : List EngineCall
  images : List String
  failures : List (String × String)
  isFile : String → Bool

namespace Rehearsal

/-- The words of a call as `name` in an error. -/
def operationName : EngineCall → String
  | .build .. => "Build"
  | .push _ => "Push"
  | .tag .. => "Tag"
  | .pull _ => "Pull"
  | .inspect _ => "Inspect"
  | .login .. => "Login"
  | .logout _ => "Logout"

/-- Whether a call is to fail. -/
def fails (r : Rehearsal) (c : EngineCall) : Bool :=
  r.failures.any fun (operation, subject) =>
    c.words.head? == some operation && subject == c.subject

/-- The images that have been pushed. -/
def pushed (r : Rehearsal) : List String :=
  r.calls.filterMap fun c =>
    match c with
    | .push image => some image
    | _ => none

/-- The answer to a call. What is built or pulled is there afterwards. -/
def call (c : EngineCall) (r : Rehearsal) : Except ToolError Bool × Rehearsal :=
  let r := { r with calls := r.calls ++ [c] }
  if r.fails c then
    let command := "mock " ++ operationName c ++ " " ++ c.subject
    (.error (.failed command (some 1) "injected failure"), r)
  else
    match c with
    | .build image _ _ => (.ok true, { r with images := image :: r.images })
    | .pull image => (.ok true, { r with images := image :: r.images })
    | .inspect image => (.ok (r.images.contains image), r)
    | _ => (.ok true, r)

/-- The engine of rehearsals. -/
def engine : Engine Rehearsal := ⟨call, fun path r => r.isFile path⟩

end Rehearsal

end KubeCompose
