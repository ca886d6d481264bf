import KubeCompose.Push

/-!
# The protocol between a push and its engine

A push talks to an engine whose answers may depend on all that was asked before. An engine that
records the calls it gets and the answers it gives behaves as it did, so the record of a push tells
what any engine is asked: a login where there are credentials, a block of calls for each service in
order, and a logout exactly behind a login that succeeded. `push_session` says so of every run, and
of each block how it decides what is reported of its service.
-/

namespace KubeCompose

open Compose (Project Service)

/-- A call with its answer. -/
structure Exchange where
  call : EngineCall
  answer : Except ToolError Bool

namespace Engine

variable {σ : Type}

/-- The engine with a record of what it was asked and what it answered. -/
def recorded (e : Engine σ) : Engine (σ × List Exchange) where
  call c s :=
    let (answer, next) := e.call c s.1
    (answer, next, s.2 ++ [⟨c, answer⟩])
  isFile path s := e.isFile path s.1

/-- The state in which an engine is after calls. -/
def after (e : Engine σ) (s : σ) (block : List Exchange) : σ :=
  block.foldl (fun s x => (e.call x.call s).2) s

@[simp] theorem after_nil (e : Engine σ) (s : σ) : e.after s [] = s := rfl

@[simp] theorem after_cons (e : Engine σ) (s : σ) (x : Exchange) (block : List Exchange) :
    e.after s (x :: block) = e.after (e.call x.call s).2 block := rfl

theorem after_append (e : Engine σ) (s : σ) (before later : List Exchange) :
    e.after s (before ++ later) = e.after (e.after s before) later := List.foldl_append

end Engine

/-! ### What may be said to an engine -/

/-- The exchanges of calls made in turn, each only when the one before it succeeded. -/
inductive InTurn : List EngineCall → List Exchange → Prop
  | done : InTurn [] []
  | failed (c : EngineCall) (rest : List EngineCall) (cause : ToolError) :
      InTurn (c :: rest) [⟨c, .error cause⟩]
  | succeeded {c : EngineCall} {rest : List EngineCall} {block : List Exchange} (answer : Bool) :
      InTurn rest block → InTurn (c :: rest) (⟨c, .ok answer⟩ :: block)

/-- What is to be done for a service. -/
inductive PushTask where
  | skip (reason : SkipReason)
  | build (dockerfile context : String)
  | rename (image : String)

/-- A build section has precedence over an image. An image that the registry holds already is left
alone. -/
def PushOptions.taskOf (o : PushOptions) (p : Project) (s : Service) : PushTask :=
  match s.build with
  | some b =>
    if o.skipBuild then .skip .buildSkipped
    else
      let context := Path.child p.directory b.context
      .build (Path.child context b.dockerfile) context
  | none =>
    match s.image.filter (· != "") with
    | some image => if o.holds image then .skip .alreadyThere else .rename image
    | none => .skip .nothingToPush

/-- The exchanges about one service, whose image is pushed as `target`; `isFile` says which
Dockerfiles are there. -/
inductive Block (target : String) (isFile : String → Bool) : PushTask → List Exchange → Prop
  | skipped (reason : SkipReason) : Block target isFile (.skip reason) []
  | missing {dockerfile : String} (context : String) :
      isFile dockerfile = false → Block target isFile (.build dockerfile context) []
  | built {dockerfile context : String} {block : List Exchange} :
      isFile dockerfile = true →
      InTurn [.build target dockerfile context, .push target] block →
      Block target isFile (.build dockerfile context) block
  | unanswered (image : String) (cause : ToolError) :
      Block target isFile (.rename image) [⟨.inspect image, .error cause⟩]
  | present {image : String} {block : List Exchange} :
      InTurn [.tag image target, .push target] block →
      Block target isFile (.rename image) (⟨.inspect image, .ok true⟩ :: block)
  | fetched {image : String} {block : List Exchange} :
      InTurn [.pull image, .tag image target, .push target] block →
      Block target isFile (.rename image) (⟨.inspect image, .ok false⟩ :: block)

/-- A service whose Dockerfile is looked for and is not there. -/
def PushTask.LacksDockerfile (isFile : String → Bool) (dockerfile : String) : PushTask → Prop
  | .build d _ => d = dockerfile ∧ isFile d = false
  | _ => False

/-- A block and what it means for the report: an image was pushed exactly when the block ends in a
push that succeeded, and something failed exactly when a call of the block did or there is no
Dockerfile. -/
structure Round (target : String) (isFile : String → Bool) (task : PushTask)
    (block : List Exchange) (outcome : PushOutcome) : Prop where
  shape : Block target isFile task block
  pushed_iff : ∀ image, outcome = .pushed image ↔
    image = target ∧ ∃ answer, block.getLast? = some ⟨.push target, .ok answer⟩
  failed_iff : ∀ cause, outcome = .failed cause ↔
    (∃ x ∈ block, x.answer = .error cause) ∨
      ∃ dockerfile, task.LacksDockerfile isFile dockerfile ∧
        cause = .missingDockerfile dockerfile
  skipped_iff : ∀ reason, outcome = .skipped reason ↔ task = .skip reason

/-- The blocks of services in order, from a state of the engine on, and what is reported of them.
Whether a Dockerfile is there is asked in the state before its block. -/
inductive Rounds {σ : Type} (e : Engine σ) (o : PushOptions) (p : Project) :
    σ → List Service → List (List Exchange) → List (String × PushOutcome) → Prop
  | nil (s : σ) : Rounds e o p s [] [] []
  | cons {s : σ} {service : Service} {block : List Exchange} {outcome : PushOutcome}
      {rest : List Service} {blocks : List (List Exchange)}
      {outcomes : List (String × PushOutcome)} :
      Round (o.targetImage service) (fun path => e.isFile path s) (o.taskOf p service) block
        outcome →
      Rounds e o p (e.after s block) rest blocks outcomes →
      Rounds e o p s (service :: rest) (block :: blocks) ((service.name, outcome) :: outcomes)

/-- The exchanges of a push from a state of the engine on, and its result. -/
inductive Session {σ : Type} (e : Engine σ) (o : PushOptions) (p : Project) (s : σ) :
    List Exchange → Except ToolError PushReport → Prop
  | withoutLogin {blocks : List (List Exchange)} {outcomes : List (String × PushOutcome)} :
      o.credentials = none →
      Rounds e o p s (p.services.map (·.2)) blocks outcomes →
      Session e o p s blocks.flatten (.ok ⟨o.registry, outcomes⟩)
  | refused {user password : String} (cause : ToolError) :
      o.credentials = some (user, password) →
      Session e o p s [⟨.login (registryServer o.registry) user password, .error cause⟩]
        (.error cause)
  | loggedIn {user password : String} {blocks : List (List Exchange)}
      {outcomes : List (String × PushOutcome)} (login : Bool) (logout : Except ToolError Bool) :
      o.credentials = some (user, password) →
      Rounds e o p (e.after s [⟨.login (registryServer o.registry) user password, .ok login⟩])
        (p.services.map (·.2)) blocks outcomes →
      Session e o p s
        (⟨.login (registryServer o.registry) user password, .ok login⟩ ::
          (blocks.flatten ++ [⟨.logout (registryServer o.registry), logout⟩]))
        (.ok ⟨o.registry, outcomes⟩)

/-! ### Calls in turn -/

/-- The cause with which a block ends. -/
def failure? (block : List Exchange) : Option ToolError :=
  block.getLast?.bind fun x =>
    match x.answer with
    | .ok _ => none
    | .error cause => some cause

@[simp] theorem failure?_cons_ok (c : EngineCall) (answer : Bool) (block : List Exchange) :
    failure? (⟨c, .ok answer⟩ :: block) = failure? block := by
  cases block with
  | nil => rfl
  | cons y r => simp [failure?, List.getLast?_cons_cons]

/-- In calls made in turn only the last one can fail. -/
theorem InTurn.failure?_eq_some_iff {calls : List EngineCall} {block : List Exchange}
    (h : InTurn calls block) (cause : ToolError) :
    failure? block = some cause ↔ ∃ x ∈ block, x.answer = .error cause := by
  induction h with
  | done => simp [failure?]
  | failed c rest cause' => simp [failure?]
  | @succeeded c rest block answer hRest ih =>
    rw [failure?_cons_ok, ih]
    simp

/-- Calls made in turn end in the last of them exactly when none of them fails. -/
theorem InTurn.failure?_eq_none_iff {calls : List EngineCall} {c : EngineCall}
    {block : List Exchange} (h : InTurn (calls ++ [c]) block) :
    failure? block = none ↔ ∃ answer, block.getLast? = some ⟨c, .ok answer⟩ := by
  induction calls generalizing block with
  | nil =>
    cases h with
    | failed => simp [failure?]
    | succeeded answer hRest =>
      cases hRest
      simp [failure?]
  | cons d rest ih =>
    cases h with
    | failed => simp [failure?]
    | @succeeded _ _ block answer hRest =>
      have hFull : block ≠ [] := by
        intro hNil
        subst hNil
        cases rest <;> cases hRest
      obtain ⟨y, r, rfl⟩ := List.exists_cons_of_ne_nil hFull
      have := ih hRest
      simpa [failure?, List.getLast?_cons_cons] using this

/-- A block of calls made in turn, of which the last one pushes, is a round. -/
theorem round_of_inTurn {target : String} {isFile : String → Bool} {task : PushTask}
    {block : List Exchange} (calls : List EngineCall)
    (shape : Block target isFile task block) (h : InTurn (calls ++ [.push target]) block)
    (hSkip : ∀ reason, task ≠ .skip reason)
    (hFile : ∀ dockerfile, ¬ task.LacksDockerfile isFile dockerfile) :
    Round target isFile task block
      (match failure? block with
       | none => .pushed target
       | some cause => .failed cause) where
  shape := shape
  pushed_iff image := by
    rw [← h.failure?_eq_none_iff]
    cases failure? block with
    | none => simp [eq_comm]
    | some cause => simp
  failed_iff cause := by
    rw [← h.failure?_eq_some_iff]
    have hNone : ¬ ∃ d, task.LacksDockerfile isFile d ∧ cause = .missingDockerfile d :=
      fun ⟨d, hd, _⟩ => hFile d hd
    cases failure? block with
    | none => simp [hNone]
    | some cause' => simp [hNone]
  skipped_iff reason := by
    cases failure? block <;> simp [hSkip reason]

namespace Engine

variable {σ α β : Type}

theorem bind_apply (x : Calls σ α) (f : α → Calls σ β) (s : σ) :
    (x >>= f) s = match x s with
      | (.ok a, s) => f a s
      | (.error cause, s) => (.error cause, s) := by
  change (match x s with | (a, s) => ExceptT.bindCont f a s) = _
  rcases x s with ⟨_ | a, s⟩ <;> rfl

theorem discard_apply (x : Calls σ α) (s : σ) :
    (discard x : Calls σ PUnit) s = ((x s).1.map fun _ => ⟨⟩, (x s).2) := by
  change ((fun _ => PUnit.unit) <$> x) s = _
  rw [map_eq_pure_bind, bind_apply]
  rcases x s with ⟨_ | a, s⟩ <;> rfl

/-- Makes calls in turn, up to the first that fails; `a` is the result when none does. -/
def inTurn (e : Engine σ) (a : α) : List EngineCall → σ → Except ToolError α × σ
  | [], s => (.ok a, s)
  | c :: rest, s =>
    match e.call c s with
    | (.ok _, s) => e.inTurn a rest s
    | (.error cause, s) => (.error cause, s)

/-- The calls that give an image its name in the registry: it is fetched first when it is not there.
-/
def renameCalls (target image : String) (isThere : Bool) : List EngineCall :=
  (if isThere then [] else [.pull image]) ++ [.tag image target]

theorem bind_discard_ask (e : Engine σ) (c : EngineCall) (x : Calls σ α) (s : σ) :
    (discard (e.ask c) >>= fun _ => x) s = match e.call c s with
      | (.ok _, s) => x s
      | (.error cause, s) => (.error cause, s) := by
  have hAsk : e.ask c s = e.call c s := rfl
  rw [bind_apply, discard_apply, hAsk]
  rcases e.call c s with ⟨_ | a, s⟩ <;> rfl

theorem buildAndPush_apply (e : Engine σ) (o : PushOptions) (p : Project) (service : Service)
    (b : Compose.Build) (s : σ) :
    e.buildAndPush o p service b s =
      if e.isFile (Path.child (Path.child p.directory b.context) b.dockerfile) s then
        e.inTurn (o.targetImage service)
          [.build (o.targetImage service)
            (Path.child (Path.child p.directory b.context) b.dockerfile)
            (Path.child p.directory b.context), .push (o.targetImage service)] s
      else
        (.error (.missingDockerfile
          (Path.child (Path.child p.directory b.context) b.dockerfile)), s) := by
  unfold buildAndPush
  rw [bind_apply]
  change (if (!e.isFile _ s) = true then _ else _ : Calls σ String) s = _
  cases e.isFile (Path.child (Path.child p.directory b.context) b.dockerfile) s with
  | false => rfl
  | true =>
    simp only [Bool.not_true, Bool.false_eq_true, if_false, if_true]
    rw [bind_discard_ask]
    simp only [bind_discard_ask]
    rfl

theorem renameAndPush_apply (e : Engine σ) (o : PushOptions) (service : Service) (image : String)
    (s : σ) :
    e.renameAndPush o service image s =
      match e.call (.inspect image) s with
      | (.ok isThere, s) =>
        e.inTurn (o.targetImage service)
          (renameCalls (o.targetImage service) image isThere ++ [.push (o.targetImage service)]) s
      | (.error cause, s) => (.error cause, s) := by
  have hAsk : e.ask (.inspect image) s = e.call (.inspect image) s := rfl
  unfold renameAndPush
  rw [bind_apply, hAsk]
  rcases e.call (.inspect image) s with ⟨cause | isThere, s⟩
  · rfl
  · cases isThere with
    | true =>
      simp only [Bool.not_true, Bool.false_eq_true, if_false, bind_discard_ask]
      rfl
    | false =>
      simp only [Bool.not_false, if_true, bind_discard_ask]
      rfl

/-! ### The record of a block -/

/-- An engine that records answers as it did before, and the record of calls made in turn is a block
of them. -/
theorem recorded_inTurn (e : Engine σ) (a : α) (calls : List EngineCall) (s : σ)
    (history : List Exchange) :
    ∃ block, InTurn calls block ∧
      e.inTurn a calls s =
        (match failure? block with
         | none => .ok a
         | some cause => .error cause, e.after s block) ∧
      e.recorded.inTurn a calls (s, history) =
        ((e.inTurn a calls s).1, (e.inTurn a calls s).2, history ++ block) := by
  induction calls generalizing s history with
  | nil => exact ⟨[], .done, rfl, by simp [inTurn]⟩
  | cons c rest ih =>
    rcases hCall : e.call c s with ⟨cause | answer, next⟩
    · have hRecorded : e.recorded.call c (s, history) =
          (.error cause, next, history ++ [⟨c, .error cause⟩]) := by simp [recorded, hCall]
      refine ⟨[⟨c, .error cause⟩], .failed c rest cause, ?_, ?_⟩
      · simp [inTurn, hCall, failure?]
      · simp [inTurn, hCall, hRecorded]
    · have hRecorded : e.recorded.call c (s, history) =
          (.ok answer, next, history ++ [⟨c, .ok answer⟩]) := by simp [recorded, hCall]
      obtain ⟨block, hTurn, hRun, hRecord⟩ := ih next (history ++ [⟨c, .ok answer⟩])
      refine ⟨⟨c, .ok answer⟩ :: block, .succeeded answer hTurn, ?_, ?_⟩
      · simp only [inTurn, hCall, hRun, failure?_cons_ok, after_cons]
      · simp only [inTurn, hCall, hRecorded, hRecord, List.append_assoc, List.singleton_append]

/-- What becomes of a service, by what is to be done for it. -/
def runTask (e : Engine σ) (target : String) : PushTask → σ → PushOutcome × σ
  | .skip reason, s => (.skipped reason, s)
  | .build dockerfile context, s =>
    if e.isFile dockerfile s then
      outcome (e.inTurn target [.build target dockerfile context, .push target]) s
    else (.failed (.missingDockerfile dockerfile), s)
  | .rename image, s =>
    match e.call (.inspect image) s with
    | (.ok isThere, s) =>
      outcome (e.inTurn target (renameCalls target image isThere ++ [.push target])) s
    | (.error cause, s) => (.failed cause, s)

theorem pushService_eq_runTask (e : Engine σ) (o : PushOptions) (p : Project) (service : Service)
    (s : σ) :
    e.pushService o p service s = e.runTask (o.targetImage service) (o.taskOf p service) s := by
  unfold pushService PushOptions.taskOf
  cases service.build with
  | some b =>
    cases o.skipBuild with
    | true => rfl
    | false =>
      simp only [Bool.false_eq_true, if_false, runTask]
      rw [outcome, buildAndPush_apply]
      cases e.isFile (Path.child (Path.child p.directory b.context) b.dockerfile) s <;> rfl
  | none =>
    simp only
    cases service.image.filter (· != "") with
    | none => rfl
    | some image =>
      simp only
      split
      · rfl
      · rw [outcome, renameAndPush_apply]
        simp only [runTask]
        rcases e.call (.inspect image) s with ⟨cause | _ | _, s⟩ <;> rfl

/-- The record of calls made in turn, seen as an outcome. -/
theorem outcome_recorded_inTurn (e : Engine σ) (target : String) (calls : List EngineCall) (s : σ)
    (history : List Exchange) :
    ∃ block, InTurn calls block ∧
      outcome (e.inTurn target calls) s =
        (match failure? block with
         | none => .pushed target
         | some cause => .failed cause, e.after s block) ∧
      outcome (e.recorded.inTurn target calls) (s, history) =
        ((outcome (e.inTurn target calls) s).1, (outcome (e.inTurn target calls) s).2,
          history ++ block) := by
  obtain ⟨block, hTurn, hRun, hRecord⟩ := e.recorded_inTurn target calls s history
  refine ⟨block, hTurn, ?_, ?_⟩
  · simp only [outcome, hRun]
    cases failure? block <;> rfl
  · simp only [outcome, hRecord, hRun]
    cases failure? block <;> rfl

/-- The record of what is done for a service is a round. -/
def RecordsRound (e : Engine σ) (target : String) (task : PushTask) (s : σ)
    (history : List Exchange) : Prop :=
  ∃ block, Round target (fun path => e.isFile path s) task block (e.runTask target task s).1 ∧
    (e.runTask target task s).2 = e.after s block ∧
    e.recorded.runTask target task (s, history) =
      ((e.runTask target task s).1, (e.runTask target task s).2, history ++ block)

theorem recordsRound_build (e : Engine σ) (target dockerfile context : String) (s : σ)
    (history : List Exchange) :
    e.RecordsRound target (.build dockerfile context) s history := by
  by_cases hFile : e.isFile dockerfile s
  · obtain ⟨block, hTurn, hRun, hRecord⟩ := e.outcome_recorded_inTurn target
      [.build target dockerfile context, .push target] s history
    have hTask : e.runTask target (.build dockerfile context) s =
        outcome (e.inTurn target [.build target dockerfile context, .push target]) s := by
      simp [runTask, hFile]
    have hTaskRecord : e.recorded.runTask target (.build dockerfile context) (s, history) =
        outcome (e.recorded.inTurn target [.build target dockerfile context, .push target])
          (s, history) := by
      have hRecorded : e.recorded.isFile dockerfile (s, history) = true := hFile
      simp [runTask, hRecorded]
    refine ⟨block, ?_, ?_, ?_⟩
    · rw [hTask, hRun]
      refine round_of_inTurn [.build target dockerfile context] (.built hFile hTurn)
        hTurn (by simp) ?_
      rintro d ⟨rfl, hNot⟩
      simp [hFile] at hNot
    · rw [hTask, hRun]
    · rw [hTask, hTaskRecord, hRecord]
  · have hNot : e.isFile dockerfile s = false := by simpa using hFile
    have hTask : e.runTask target (.build dockerfile context) s =
        (.failed (.missingDockerfile dockerfile), s) := by simp [runTask, hNot]
    have hTaskRecord : e.recorded.runTask target (.build dockerfile context) (s, history) =
        (.failed (.missingDockerfile dockerfile), s, history) := by
      have hRecorded : e.recorded.isFile dockerfile (s, history) = false := hNot
      simp [runTask, hRecorded]
    refine ⟨[], ⟨.missing context hNot, ?_, ?_, ?_⟩, ?_, ?_⟩
    · simp [hTask]
    · simp [hTask, PushTask.LacksDockerfile, hNot, eq_comm]
    · simp [hTask]
    · rw [hTask, after_nil]
    · simp [hTask, hTaskRecord]

theorem recordsRound_rename (e : Engine σ) (target image : String) (s : σ)
    (history : List Exchange) : e.RecordsRound target (.rename image) s history := by
  have hLacks : ∀ d, ¬ (PushTask.rename image).LacksDockerfile (fun path => e.isFile path s) d :=
    fun _ h => h
  rcases hCall : e.call (.inspect image) s with ⟨cause | isThere, next⟩
  · have hRecorded : e.recorded.call (.inspect image) (s, history) =
        (.error cause, next, history ++ [⟨.inspect image, .error cause⟩]) := by
      simp [recorded, hCall]
    refine ⟨[⟨.inspect image, .error cause⟩], ?_, ?_, ?_⟩
    · simp only [runTask, hCall]
      exact round_of_inTurn [.inspect image] (.unanswered image cause)
        (.failed (.inspect image) [.push target] cause) (by simp) hLacks
    · simp [runTask, hCall]
    · simp [runTask, hCall, hRecorded]
  · have hRecorded : e.recorded.call (.inspect image) (s, history) =
        (.ok isThere, next, history ++ [⟨.inspect image, .ok isThere⟩]) := by
      simp [recorded, hCall]
    obtain ⟨block, hTurn, hRun, hRecord⟩ := e.outcome_recorded_inTurn target
      (renameCalls target image isThere ++ [.push target]) next
      (history ++ [⟨.inspect image, .ok isThere⟩])
    have hBlock : Block target (fun path => e.isFile path s) (.rename image)
        (⟨.inspect image, .ok isThere⟩ :: block) := by
      cases isThere with
      | true => exact .present hTurn
      | false => exact .fetched hTurn
    refine ⟨⟨.inspect image, .ok isThere⟩ :: block, ?_, ?_, ?_⟩
    · simp only [runTask, hCall, hRun]
      rw [← failure?_cons_ok (.inspect image) isThere block]
      exact round_of_inTurn (.inspect image :: renameCalls target image isThere) hBlock
        (.succeeded isThere hTurn) (by simp) hLacks
    · simp only [runTask, hCall, hRun, after_cons]
    · simp only [runTask, hCall, hRecorded, hRecord, List.append_assoc, List.singleton_append]

theorem recordsRound (e : Engine σ) (target : String) (task : PushTask) (s : σ)
    (history : List Exchange) : e.RecordsRound target task s history := by
  cases task with
  | skip reason =>
    refine ⟨[], ⟨.skipped reason, ?_, ?_, ?_⟩, rfl, by simp [runTask]⟩
    · simp [runTask]
    · simp [runTask, PushTask.LacksDockerfile]
    · simp [runTask]
  | build dockerfile context => exact e.recordsRound_build target dockerfile context s history
  | rename image => exact e.recordsRound_rename target image s history

/-! ### The record of a push -/

/-- The record of services taken in order is one of rounds. -/
theorem recorded_pushServices (e : Engine σ) (o : PushOptions) (p : Project)
    (services : List Service) (s : σ) (history : List Exchange) :
    ∃ blocks, Rounds e o p s services blocks (e.pushServices o p services s).1 ∧
      (e.pushServices o p services s).2 = e.after s blocks.flatten ∧
      e.recorded.pushServices o p services (s, history) =
        ((e.pushServices o p services s).1, (e.pushServices o p services s).2,
          history ++ blocks.flatten) := by
  induction services generalizing s history with
  | nil => exact ⟨[], .nil s, rfl, by simp [pushServices]⟩
  | cons service rest ih =>
    obtain ⟨block, hRound, hAfter, hRecord⟩ :=
      e.recordsRound (o.targetImage service) (o.taskOf p service) s history
    obtain ⟨blocks, hRounds, hEnd, hRecords⟩ := ih (e.after s block) (history ++ block)
    rw [← pushService_eq_runTask] at hRound hAfter hRecord
    rw [← pushService_eq_runTask, hAfter] at hRecord
    refine ⟨block :: blocks, ?_, ?_, ?_⟩
    · simp only [pushServices, hAfter]
      exact .cons hRound hRounds
    · simp only [pushServices, hAfter, hEnd, List.flatten_cons, after_append]
    · simp only [pushServices, hAfter, hRecord, hRecords, List.flatten_cons, List.append_assoc]

/-- A recorded push ends as the push does, and its record is a session: with credentials a login
comes first and, when it succeeds, a logout last, whatever becomes of the services and of the
logout; a login that fails is the only call. -/
theorem push_session (e : Engine σ) (o : PushOptions) (p : Project) (s : σ) :
    ∃ history,
      e.recorded.push o p (s, []) = ((e.push o p s).1, (e.push o p s).2, history) ∧
      Session e o p s history (e.push o p s).1 := by
  cases hUser : o.credentials with
  | none =>
    obtain ⟨blocks, hRounds, -, hRecord⟩ :=
      e.recorded_pushServices o p (p.services.map (·.2)) s []
    refine ⟨blocks.flatten, ?_, ?_⟩
    · simp [push, hUser, hRecord]
    · simpa only [push, hUser] using Session.withoutLogin hUser hRounds
  | some credentials =>
    obtain ⟨user, password⟩ := credentials
    rcases hLogin : e.call (.login (registryServer o.registry) user password) s with
      ⟨cause | answer, next⟩
    · refine ⟨[⟨.login (registryServer o.registry) user password, .error cause⟩], ?_, ?_⟩
      · simp [push, hUser, hLogin, recorded]
      · simpa only [push, hUser, hLogin] using Session.refused cause hUser
    · obtain ⟨blocks, hRounds, hAfter, hRecord⟩ := e.recorded_pushServices o p
        (p.services.map (·.2)) next
        [⟨.login (registryServer o.registry) user password, .ok answer⟩]
      have hNext : e.after s
          [⟨.login (registryServer o.registry) user password, .ok answer⟩] = next := by
        simp [hLogin]
      rcases hLogout : e.call (.logout (registryServer o.registry)) (e.after next blocks.flatten)
        with ⟨logout, last⟩
      refine ⟨⟨.login (registryServer o.registry) user password, .ok answer⟩ ::
        (blocks.flatten ++ [⟨.logout (registryServer o.registry), logout⟩]), ?_, ?_⟩
      · have hRecorded : e.recorded.call (.login (registryServer o.registry) user password)
            (s, []) = (.ok answer, next,
              [⟨.login (registryServer o.registry) user password, .ok answer⟩]) := by
          simp [recorded, hLogin]
        simp only [push, hUser, hLogin, hRecorded, hRecord, hAfter]
        simp [recorded, hLogout]
      · simp only [push, hUser, hLogin]
        exact .loggedIn answer logout hUser (hNext ▸ hRounds)

end Engine

end KubeCompose
