import KubeCompose.Tool.Invocation

/-!
# Container engines

An engine builds, names, fetches and sends images. It answers a call in a state of the world and
says what the world is afterwards, so that an answer may depend on all that was done before.
-/

namespace KubeCompose

/-- What is asked of an engine. -/
inductive EngineCall where
  | build (image dockerfile context : String)
  | push (image : String)
  | tag (source target : String)
  | pull (image : String)
  | inspect (image : String)
  | login (registry user password : String)
  | logout (registry : String)
  deriving DecidableEq, Repr

namespace EngineCall

/-- The words by which a call is remembered; the password is not among them. -/
def words : EngineCall → List String
  | .build image dockerfile context => ["build", image, dockerfile, context]
  | .push image => ["push", image]
  | .tag source target => ["tag", source, target]
  | .pull image => ["pull", image]
  | .inspect image => ["inspect", image]
  | .login registry user _ => ["login", registry, user]
  | .logout registry => ["logout", registry]

/-- What a call is about: an image, or a registry. -/
def subject : EngineCall → String
  | .build image _ _ => image
  | .push image => image
  | .tag _ target => target
  | .pull image => image
  | .inspect image => image
  | .login registry _ _ => registry
  | .logout registry => registry

end EngineCall

/-- An engine in a world with states `σ`. The answer to `inspect` is whether the image is there; any
other call that succeeds answers `true`. -/
structure Engine (σ : Type) where
  call : EngineCall → σ → Except ToolError Bool × σ
  isFile : String → σ → Bool

end KubeCompose
