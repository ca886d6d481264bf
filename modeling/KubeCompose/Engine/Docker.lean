import KubeCompose.Engine.Basic

/-!
# The docker command line

Each call of the engine is one call of the program. The password is what the program reads and
stands on no command line.
-/

namespace KubeCompose.Docker

/-- The call of the program for a call of the engine. -/
def invocation (program : String) : EngineCall → Invocation
  | .build image dockerfile context => .of program ["build", "-t", image, "-f", dockerfile, context]
  | .push image => .of program ["push", image]
  | .tag source target => .of program ["tag", source, target]
  | .pull image => .of program ["pull", image]
  | .inspect image => .of program ["image", "inspect", image]
  | .login registry user password =>
    { program := program
      arguments := ["login", registry, "--username", user, "--password-stdin"]
      directory := none
      input := some password }
  | .logout registry => .of program ["logout", registry]

/-- What the end of the program means. An image that cannot be inspected is not there. -/
def answer (call : EngineCall) : Except ToolError ToolOutput → Except ToolError Bool
  | .ok _ => .ok true
  | .error e =>
    match call, e with
    | .inspect _, .failed .. => .ok false
    | _, e => .error e

/-- The engine that calls the program. -/
def engine {σ : Type} (launch : Launcher σ) (isFile : String → σ → Bool) (limit : Limit)
    (program : String) : Engine σ where
  call c s :=
    let (result, s) := launch.run limit (invocation program c) s
    (answer c result, s)
  isFile := isFile

end KubeCompose.Docker
