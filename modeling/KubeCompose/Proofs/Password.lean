import KubeCompose.Proofs.Spared

/-!
# Pushes that differ in the password

Two pushes by the docker command line that differ in nothing but the password are compared in worlds
whose programs do not answer to what they read. The password is what the first program reads and
nothing else, so the calls of programs are the same, and so is the result, as long as both logins
take the password they are given, or neither does. A login that ends without having taken its
password is the one case in which the password shows: then nothing else is called.
`push_unseen_password` says so of every project and of all such worlds.
-/

namespace KubeCompose

open Compose (Project Service)

/-! ### Actions in two worlds -/

section Related

variable {σ τ α : Type} {R : σ → τ → Prop}

/-- Whether two actions give the same result in related states and lead to related states. -/
def Related (R : σ → τ → Prop) (f : σ → α × σ) (g : τ → α × τ) : Prop :=
  ∀ s t, R s t → (f s).1 = (g t).1 ∧ R (f s).2 (g t).2

/-- Whether a call is a login. -/
def EngineCall.isLogin : EngineCall → Bool
  | .login .. => true
  | _ => false

namespace Engine

variable {e : Engine σ} {e' : Engine τ}

/-- Engines that cannot be told apart but by a login. -/
structure Alike (e : Engine σ) (e' : Engine τ) (R : σ → τ → Prop) : Prop where
  isFile : ∀ s t, R s t → ∀ path, e.isFile path s = e'.isFile path t
  call : ∀ c : EngineCall, c.isLogin = false → Related R (e.call c) (e'.call c)

theorem Alike.inTurn (h : e.Alike e' R) (a : α) {calls : List EngineCall}
    (hCalls : ∀ c ∈ calls, c.isLogin = false) :
    Related R (e.inTurn a calls) (e'.inTurn a calls) := by
  induction calls with
  | nil => exact fun s t hStates => ⟨rfl, hStates⟩
  | cons c rest ih =>
    obtain ⟨hFirst, hRest⟩ := List.forall_mem_cons.1 hCalls
    intro s t hStates
    obtain ⟨hSame, hNext⟩ := h.call c hFirst s t hStates
    rw [Engine.inTurn, Engine.inTurn]
    rcases hCall : e.call c s with ⟨answer, s₁⟩
    rcases hCall' : e'.call c t with ⟨answer', t₁⟩
    rw [hCall, hCall'] at hSame hNext
    obtain rfl : answer = answer' := hSame
    cases answer with
    | ok _ => exact ih hRest s₁ t₁ hNext
    | error cause => exact ⟨rfl, hNext⟩

theorem related_outcome {calls : Calls σ String} {calls' : Calls τ String}
    (h : Related R calls calls') : Related R (outcome calls) (outcome calls') := by
  intro s t hStates
  obtain ⟨hSame, hNext⟩ := h s t hStates
  rw [outcome, outcome]
  rcases hCalls : calls s with ⟨answer, s₁⟩
  rcases hCalls' : calls' t with ⟨answer', t₁⟩
  rw [hCalls, hCalls'] at hSame hNext
  obtain rfl : answer = answer' := hSame
  cases answer <;> exact ⟨rfl, hNext⟩

theorem Alike.runTask (h : e.Alike e' R) (target : String) (task : PushTask) :
    Related R (e.runTask target task) (e'.runTask target task) := by
  intro s t hStates
  cases task with
  | skip reason => exact ⟨rfl, hStates⟩
  | build dockerfile context =>
    rw [Engine.runTask, Engine.runTask, h.isFile s t hStates]
    split
    · exact related_outcome (h.inTurn target (by simp [EngineCall.isLogin])) s t hStates
    · exact ⟨rfl, hStates⟩
  | rename image =>
    obtain ⟨hSame, hNext⟩ := h.call (.inspect image) rfl s t hStates
    rw [Engine.runTask, Engine.runTask]
    rcases hCall : e.call (.inspect image) s with ⟨answer, s₁⟩
    rcases hCall' : e'.call (.inspect image) t with ⟨answer', t₁⟩
    rw [hCall, hCall'] at hSame hNext
    obtain rfl : answer = answer' := hSame
    cases answer with
    | error cause => exact ⟨rfl, hNext⟩
    | ok isThere =>
      have hCalls : ∀ c ∈ renameCalls target image isThere ++ [.push target],
          c.isLogin = false := by
        cases isThere <;> simp [renameCalls, EngineCall.isLogin]
      exact related_outcome (h.inTurn target hCalls) s₁ t₁ hNext

/-- The credentials are nothing to what is done for the services. -/
theorem Alike.pushServices (h : e.Alike e' R) (o : PushOptions)
    (credentials credentials' : Option (String × String)) (p : Project)
    (services : List Service) :
    Related R (e.pushServices { o with credentials := credentials } p services)
      (e'.pushServices { o with credentials := credentials' } p services) := by
  induction services with
  | nil => exact fun s t hStates => ⟨rfl, hStates⟩
  | cons service rest ih =>
    intro s t hStates
    simp only [Engine.pushServices, pushService_eq_runTask]
    obtain ⟨hOutcome, hNext⟩ := h.runTask (o.targetImage service) (o.taskOf p service) s t hStates
    obtain ⟨hOutcomes, hLast⟩ := ih _ _ hNext
    exact ⟨congrArg₂ _ (congrArg _ hOutcome) hOutcomes, hLast⟩

/-- Pushes whose logins give the same answer and lead to related states have the same result. -/
theorem Alike.push (h : e.Alike e' R) {o : PushOptions} {p : Project}
    {user password password' : String} {s : σ} {t : τ}
    (hAnswer : (e.call (.login (registryServer o.registry) user password) s).1 =
      (e'.call (.login (registryServer o.registry) user password') t).1)
    (hStates : R (e.call (.login (registryServer o.registry) user password) s).2
      (e'.call (.login (registryServer o.registry) user password') t).2) :
    (e.push { o with credentials := some (user, password) } p s).1 =
        (e'.push { o with credentials := some (user, password') } p t).1 ∧
      R (e.push { o with credentials := some (user, password) } p s).2
        (e'.push { o with credentials := some (user, password') } p t).2 := by
  simp only [Engine.push]
  rcases hLogin : e.call (.login (registryServer o.registry) user password) s with ⟨answer, s₁⟩
  rcases hLogin' : e'.call (.login (registryServer o.registry) user password') t with ⟨answer', t₁⟩
  rw [hLogin, hLogin'] at hAnswer hStates
  obtain rfl : answer = answer' := hAnswer
  cases answer with
  | error cause => exact ⟨rfl, hStates⟩
  | ok _ =>
    obtain ⟨hOutcomes, hNext⟩ := h.pushServices o (some (user, password)) (some (user, password')) p
      (p.services.map (·.2)) s₁ t₁ hStates
    obtain ⟨-, hLast⟩ := h.call (.logout (registryServer o.registry)) rfl _ _ hNext
    exact ⟨by simp only [hOutcomes], hLast⟩

end Engine

end Related

/-! ### Calls that differ in what is read -/

namespace Invocation

/-- A call without what the program reads: the program, its arguments and its directory. -/
def withoutInput (i : Invocation) : Invocation := { i with input := none }

variable {i i' : Invocation} (h : i.withoutInput = i'.withoutInput)
include h

theorem program_eq : i.program = i'.program := congrArg (·.program) h

theorem commandLine_eq : i.commandLine = i'.commandLine := by
  change i.withoutInput.commandLine = i'.withoutInput.commandLine
  rw [h]

theorem hasNul_eq : i.hasNul = i'.hasNul := by
  change i.withoutInput.hasNul = i'.withoutInput.hasNul
  rw [h]

end Invocation

open Invocation (withoutInput)

/-- What can be seen of the end of a program: its status and what it wrote. -/
def Finish.seen (f : Finish) : Ending × ByteArray × ByteArray := (f.ending, f.output, f.errors)

/-- Ends that look the same, of programs that were both given their input, or both not, have the
same result. -/
theorem Finish.result_eq {f f' : Finish} {i i' : Invocation} (limit : Limit)
    (hSeen : f.seen = f'.seen) (hCall : i.withoutInput = i'.withoutInput)
    (hReceived : f.received i = f'.received i') : f.result i limit = f'.result i' limit := by
  obtain ⟨ending, output, errors, taken⟩ := f
  obtain ⟨ending', output', errors', taken'⟩ := f'
  obtain ⟨rfl, rfl, rfl⟩ : ending = ending' ∧ output = output' ∧ errors = errors' := by
    simpa [seen] using hSeen
  rw [result, result, hReceived, Invocation.commandLine_eq hCall]

namespace Launcher

variable {σ τ : Type} {launch : Launcher σ} {launch' : Launcher τ} {limit : Limit}
  {i i' : Invocation} {s : σ} {t : τ}

/-- The result of a call that was made, by the end of the program. -/
def resultOf (i : Invocation) (limit : Limit) :
    Except FileError Finish → Except ToolError ToolOutput
  | .ok finish => finish.result i limit
  | .error .notFound => .error (.notFound i.program)
  | .error e => .error (.file e)

theorem run_eq (launch : Launcher σ) (limit : Limit) (i : Invocation) (s : σ) :
    launch.run limit i s =
      if i.hasNul then (.error (.file .nulInCall), s)
      else (resultOf i limit (launch i limit s).1, (launch i limit s).2) := by
  rw [run]
  rcases launch i limit s with ⟨_ | finish, s₁⟩
  · rename_i e
    cases e <;> rfl
  · rfl

/-- Whether a program ends without having been given its input. -/
def LeavesInput (launch : Launcher σ) (limit : Limit) (i : Invocation) (s : σ) : Prop :=
  i.hasNul = false ∧ ∃ f, (launch i limit s).1 = .ok f ∧ f.received i = false

theorem leavesInput_iff {f : Finish} (hNul : i.hasNul = false)
    (hLaunch : (launch i limit s).1 = .ok f) :
    LeavesInput launch limit i s ↔ f.received i = false := by
  constructor
  · rintro ⟨-, f', hLaunch', hReceived⟩
    rwa [Except.ok.inj (hLaunch.symm.trans hLaunch')]
  · exact fun hReceived => ⟨hNul, f, hLaunch, hReceived⟩

/-- Where nothing is to be read, nothing is left. -/
theorem not_leavesInput_of_none (h : i.input = none) : ¬ LeavesInput launch limit i s := by
  rintro ⟨-, f, -, hReceived⟩
  rw [Finish.received, h, decide_eq_false_iff_not] at hReceived
  exact hReceived (Nat.zero_le _)

/-- Calls that differ in what is read have the same result when the programs give the same answer
and both take what they are given, or neither does. -/
theorem fst_run_eq (hCall : i.withoutInput = i'.withoutInput)
    (hAnswer : (launch i limit s).1.map Finish.seen = (launch' i' limit t).1.map Finish.seen)
    (hLeft : LeavesInput launch limit i s ↔ LeavesInput launch' limit i' t) :
    (launch.run limit i s).1 = (launch'.run limit i' t).1 := by
  rw [run_eq, run_eq, Invocation.hasNul_eq hCall]
  cases hNul : i'.hasNul with
  | true => rfl
  | false =>
    simp only [Bool.false_eq_true, if_false]
    rcases hLaunch : (launch i limit s).1 with e | f
    · rcases hLaunch' : (launch' i' limit t).1 with e' | f'
      · rw [hLaunch, hLaunch'] at hAnswer
        obtain rfl : e = e' := by simpa [Except.map] using hAnswer
        cases e <;> simp [resultOf, Invocation.program_eq hCall]
      · simp [hLaunch, hLaunch', Except.map] at hAnswer
    · rcases hLaunch' : (launch' i' limit t).1 with e' | f'
      · simp [hLaunch, hLaunch', Except.map] at hAnswer
      · rw [hLaunch, hLaunch'] at hAnswer
        have hSeen : f.seen = f'.seen := by simpa [Except.map] using hAnswer
        have hReceived : f.received i = f'.received i' := by
          rw [leavesInput_iff ((Invocation.hasNul_eq hCall).trans hNul) hLaunch,
            leavesInput_iff hNul hLaunch', ← Bool.not_eq_true, ← Bool.not_eq_true, not_iff_not]
            at hLeft
          exact Bool.eq_iff_iff.2 hLeft
        exact Finish.result_eq limit hSeen hCall hReceived

/-- The launcher with a record of the calls that it gets. -/
def recorded (launch : Launcher σ) : Launcher (σ × List Invocation) := fun i limit s =>
  ((launch i limit s.1).1, (launch i limit s.1).2, s.2 ++ [i])

end Launcher

/-- Programs of two worlds that answer alike in states that are alike, whatever they read, and do
not make a difference between these states then. -/
structure AnswerAlike {σ τ : Type} (launch : Launcher σ) (launch' : Launcher τ)
    (isFile : String → σ → Bool) (isFile' : String → τ → Bool) (limit : Limit)
    (alike : σ → τ → Prop) : Prop where
  files : ∀ s t, alike s t → ∀ path, isFile path s = isFile' path t
  answers : ∀ s t, alike s t → ∀ i i' : Invocation, i.withoutInput = i'.withoutInput →
    (launch i limit s).1.map Finish.seen = (launch' i' limit t).1.map Finish.seen ∧
      alike (launch i limit s).2 (launch' i' limit t).2

/-! ### Pushes that differ in the password -/

namespace Docker

/-- The login of a push. -/
def loginOf (program : String) (o : PushOptions) (user password : String) : Invocation :=
  invocation program (.login (registryServer o.registry) user password)

/-- A push with credentials by the docker command line: its result, and the calls of the program. -/
def pushAs {σ : Type} (launch : Launcher σ) (isFile : String → σ → Bool) (limit : Limit)
    (program : String) (o : PushOptions) (p : Project) (user password : String) (s : σ) :
    Except ToolError PushReport × List Invocation :=
  let (result, _, calls) :=
    (engine launch.recorded (fun path s => isFile path s.1) limit program).push
      { o with credentials := some (user, password) } p (s, [])
  (result, calls)

/-- Recorded worlds in states that are alike, whose records are the same but for what was read. -/
def SameButRead {σ τ : Type} (alike : σ → τ → Prop) (s : σ × List Invocation)
    (t : τ × List Invocation) : Prop :=
  alike s.1 t.1 ∧ s.2.map withoutInput = t.2.map withoutInput

/-- One state of a recorded world, in which only the given call read anything. -/
def OnlyRead {σ : Type} (login : Invocation) (s t : σ × List Invocation) : Prop :=
  s = t ∧ ∀ i ∈ s.2, i.input ≠ none → i = login

/-- The password is all that is read. -/
theorem input_invocation (program : String) {c : EngineCall} (h : c.isLogin = false) :
    (invocation program c).input = none := by
  cases c with
  | login => simp [EngineCall.isLogin] at h
  | _ => rfl

theorem engine_call {σ : Type} (launch : Launcher σ) (isFile : String → σ → Bool) (limit : Limit)
    (program : String) (c : EngineCall) (s : σ) :
    (engine launch isFile limit program).call c s =
      (answer c (launch.run limit (invocation program c) s).1,
        (launch.run limit (invocation program c) s).2) := rfl

theorem answer_login (registry user password : String) (result : Except ToolError ToolOutput) :
    answer (.login registry user password) result = result.map fun _ => true := by
  rcases result with e | output
  · cases e <;> rfl
  · rfl

section Alike

variable {σ τ : Type} {launch : Launcher σ} {launch' : Launcher τ} {isFile : String → σ → Bool}
  {isFile' : String → τ → Bool} {limit : Limit} {alike : σ → τ → Prop}

/-- A call is one more in the records. -/
theorem sameButRead_run (h : AnswerAlike launch launch' isFile isFile' limit alike)
    {s : σ × List Invocation} {t : τ × List Invocation} (hStates : SameButRead alike s t)
    {i i' : Invocation} (hCall : i.withoutInput = i'.withoutInput) :
    SameButRead alike (launch.recorded.run limit i s).2 (launch'.recorded.run limit i' t).2 := by
  rw [Launcher.run_eq, Launcher.run_eq, Invocation.hasNul_eq hCall]
  split
  · exact hStates
  · refine ⟨(h.answers s.1 t.1 hStates.1 i i' hCall).2, ?_⟩
    rw [Launcher.recorded, Launcher.recorded, List.map_append, List.map_append, hStates.2,
      List.map_singleton, List.map_singleton, hCall]

/-- The engines of the two worlds cannot be told apart but by a login. -/
theorem alike_engine (h : AnswerAlike launch launch' isFile isFile' limit alike)
    (program : String) :
    (engine launch.recorded (fun path s => isFile path s.1) limit program).Alike
      (engine launch'.recorded (fun path t => isFile' path t.1) limit program)
      (SameButRead alike) where
  isFile s t hStates := h.files s.1 t.1 hStates.1
  call c hNoLogin s t hStates := by
    have hNone := input_invocation program hNoLogin
    have hLeft : launch.recorded.LeavesInput limit (invocation program c) s ↔
        launch'.recorded.LeavesInput limit (invocation program c) t :=
      iff_of_false (Launcher.not_leavesInput_of_none hNone)
        (Launcher.not_leavesInput_of_none hNone)
    have hAnswer := (h.answers s.1 t.1 hStates.1 (invocation program c) _ rfl).1
    exact ⟨congrArg (answer c) (Launcher.fst_run_eq rfl hAnswer hLeft),
      sameButRead_run h hStates rfl⟩

/-- Of the calls of an engine that records, none but a login reads. -/
theorem onlyRead_engine (launch : Launcher σ) (isFile : String → σ → Bool) (limit : Limit)
    (program : String) (login : Invocation) :
    (engine launch.recorded (fun path s => isFile path s.1) limit program).Alike
      (engine launch.recorded (fun path s => isFile path s.1) limit program)
      (OnlyRead login) where
  isFile s t hStates path := by rw [hStates.1]
  call c hNoLogin s t hStates := by
    obtain ⟨rfl, hReads⟩ := hStates
    refine ⟨rfl, rfl, ?_⟩
    rw [engine_call, Launcher.run_eq]
    split
    · exact hReads
    · exact List.forall_mem_append.2 ⟨hReads, List.forall_mem_singleton.2
        (absurd (input_invocation program hNoLogin))⟩

/-- The record makes no difference to the result. -/
theorem fst_pushAs (launch : Launcher σ) (isFile : String → σ → Bool) (limit : Limit)
    (program : String) (o : PushOptions) (p : Project) (user password : String) (s : σ) :
    (pushAs launch isFile limit program o p user password s).1 =
      ((engine launch isFile limit program).push
        { o with credentials := some (user, password) } p s).1 := by
  have hCall : ∀ c, Related (fun (s : σ × List Invocation) t => s.1 = t)
      ((engine launch.recorded (fun path s => isFile path s.1) limit program).call c)
      ((engine launch isFile limit program).call c) := by
    rintro c s t rfl
    rw [engine_call, engine_call, Launcher.run_eq, Launcher.run_eq]
    split <;> exact ⟨rfl, rfl⟩
  have hAlike : (engine launch.recorded (fun path s => isFile path s.1) limit program).Alike
      (engine launch isFile limit program) fun s t => s.1 = t :=
    ⟨fun s t hStates path => by rw [← hStates]; rfl, fun c _ => hCall c⟩
  obtain ⟨hAnswer, hStates⟩ :=
    hCall (.login (registryServer o.registry) user password) (s, []) s rfl
  exact (hAlike.push hAnswer hStates).1

/-- In a push only the login reads, and it reads the password. -/
theorem eq_loginOf_of_mem_pushAs (launch : Launcher σ) (isFile : String → σ → Bool) (limit : Limit)
    (program : String) (o : PushOptions) (p : Project) (user password : String) (s : σ) :
    ∀ i ∈ (pushAs launch isFile limit program o p user password s).2,
      i.input ≠ none → i = loginOf program o user password := by
  have hLogin : OnlyRead (loginOf program o user password)
      (launch.recorded.run limit (loginOf program o user password) (s, [])).2
      (launch.recorded.run limit (loginOf program o user password) (s, [])).2 := by
    refine ⟨rfl, ?_⟩
    rw [Launcher.run_eq]
    split
    · exact List.forall_mem_nil _
    · exact List.forall_mem_singleton.2 fun _ => rfl
  have hAlike := onlyRead_engine launch isFile limit program (loginOf program o user password)
  exact (hAlike.push rfl hLogin).2.2

/-- A push whose login leaves its password ends there. -/
theorem pushAs_of_leavesInput {program : String} {o : PushOptions} {user password : String} {s : σ}
    (h : launch.LeavesInput limit (loginOf program o user password) s)
    (isFile : String → σ → Bool) (p : Project) :
    pushAs launch isFile limit program o p user password s =
      (.error (.file .brokenPipe), [loginOf program o user password]) := by
  obtain ⟨hNul, f, hLaunch, hReceived⟩ := h
  have hRun : launch.recorded.run limit (loginOf program o user password) (s, []) =
      (.error (.file .brokenPipe), (launch (loginOf program o user password) limit s).2,
        [loginOf program o user password]) := by
    rw [Launcher.run_eq, hNul, if_neg Bool.false_ne_true, Launcher.recorded, hLaunch,
      Launcher.resultOf, Finish.result, hReceived, if_neg Bool.false_ne_true, List.nil_append]
  have hLogin := engine_call launch.recorded (fun path s => isFile path s.1) limit program
    (.login (registryServer o.registry) user password) (s, [])
  rw [← loginOf, hRun, answer_login] at hLogin
  simp only [pushAs, Engine.push, hLogin, Except.map]

end Alike

/-- Two pushes that differ in nothing but the password, in worlds whose programs answer alike, make
the same calls in the same order but for what is read, and have the same result, when both logins
are given their passwords, or neither is. A push whose login leaves its password ends there. Only
the login reads anything, and that is the password. The result is the one without a record of the
calls. -/
theorem push_unseen_password {σ τ : Type} {launch : Launcher σ} {launch' : Launcher τ}
    {isFile : String → σ → Bool} {isFile' : String → τ → Bool} {limit : Limit}
    {alike : σ → τ → Prop} (h : AnswerAlike launch launch' isFile isFile' limit alike)
    {s : σ} {t : τ} (hStart : alike s t) (program : String) (o : PushOptions) (p : Project)
    (user password password' : String) :
    let login := loginOf program o user password
    let login' := loginOf program o user password'
    let run := pushAs launch isFile limit program o p user password s
    let run' := pushAs launch' isFile' limit program o p user password' t
    run.1 = ((engine launch isFile limit program).push
        { o with credentials := some (user, password) } p s).1 ∧
      ((launch.LeavesInput limit login s ↔ launch'.LeavesInput limit login' t) →
          run.1 = run'.1 ∧ run.2.map withoutInput = run'.2.map withoutInput) ∧
      (launch.LeavesInput limit login s → run = (.error (.file .brokenPipe), [login])) ∧
      ∀ i ∈ run.2, i.input ≠ none → i = login := by
  intro login login' run run'
  refine ⟨fst_pushAs launch isFile limit program o p user password s, fun hLeft => ?_,
    fun hLeaves => pushAs_of_leavesInput hLeaves isFile p,
    eq_loginOf_of_mem_pushAs launch isFile limit program o p user password s⟩
  have hCall : login.withoutInput = login'.withoutInput := rfl
  have hAnswer : (launch.recorded.run limit login (s, [])).1 =
      (launch'.recorded.run limit login' (t, [])).1 :=
    Launcher.fst_run_eq hCall (h.answers s t hStart login login' hCall).1 hLeft
  have hEngines : ((engine launch.recorded (fun path s => isFile path s.1) limit program).call
        (.login (registryServer o.registry) user password) (s, [])).1 =
      ((engine launch'.recorded (fun path t => isFile' path t.1) limit program).call
        (.login (registryServer o.registry) user password') (t, [])).1 := by
    rw [engine_call, engine_call, answer_login, answer_login]
    exact congrArg (Except.map fun _ => true) hAnswer
  have hStates : SameButRead alike (launch.recorded.run limit login (s, [])).2
      (launch'.recorded.run limit login' (t, [])).2 :=
    sameButRead_run h ⟨hStart, rfl⟩ hCall
  obtain ⟨hResult, -, hCalls⟩ := (alike_engine h program).push hEngines hStates
  exact ⟨hResult, hCalls⟩

/-! ### Passwords that are not seen, and one that is -/

/-- Programs that answer by how many calls there were: the third one fails. What they do not read
stays in the pipe. -/
def thirdFails : Launcher Nat := fun _ _ n =>
  (.ok ⟨.exited (if n = 2 then 1 else 0), .empty, "denied".toUTF8, 65536⟩, n + 1)

/-- Programs that succeed without reading anything: what they are given stays in the pipe. -/
def readsNothing : Launcher Unit := fun _ _ s => (.ok ⟨.exited 0, .empty, .empty, 65536⟩, s)

/-- A project with one image. -/
def imageProject : Project :=
  ⟨"docker-compose.yml", [("web", { Service.empty "web" with image := some "nginx" })]⟩

/-- A push to a registry. -/
def toRegistry : PushOptions := ⟨"r.io", "latest", false, none⟩

theorem hasNul_loginOf (password : String) :
    (loginOf "docker" toRegistry "me" password).hasNul = false := by
  change (loginOf "docker" toRegistry "me" "").hasNul = false
  decide +kernel

/-- What is reported when the image cannot be given its name. -/
def unnamedReport : PushReport :=
  ⟨"r.io", [("web", .failed (.failed "docker tag nginx r.io/nginx:latest" (some 1) "denied"))]⟩

/-- The third call fails for either password, and the report says so in the same words. -/
theorem push_unseen_password_thirdFails :
    AnswerAlike thirdFails thirdFails (fun _ _ => true) (fun _ _ => true) 1000 (· = ·) ∧
      ∀ password ∈ ["one", "two"],
        ((engine thirdFails (fun _ _ => true) 1000 "docker").push
          { toRegistry with credentials := some ("me", password) } imageProject 0).1 =
            .ok unnamedReport := by
  have hAlike : AnswerAlike thirdFails thirdFails (fun _ _ => true) (fun _ _ => true) 1000
      (· = ·) := by
    refine ⟨fun _ _ _ _ => rfl, ?_⟩
    rintro s - rfl i i' -
    exact ⟨rfl, rfl⟩
  have hFits : ∀ password : String, password.utf8ByteSize ≤ 65536 →
      ¬ thirdFails.LeavesInput 1000 (loginOf "docker" toRegistry "me" password) 0 := by
    rintro password hShort ⟨-, f, hLaunch, hReceived⟩
    rw [← Except.ok.inj hLaunch, Finish.received, decide_eq_false_iff_not] at hReceived
    exact hReceived hShort
  have hPush := push_unseen_password (s := 0) hAlike rfl "docker" toRegistry imageProject "me"
  have hReport : (pushAs thirdFails (fun _ _ => true) 1000 "docker" toRegistry imageProject "me"
      "one" 0).1 = .ok unnamedReport := by
    decide +kernel
  have hSame := (hPush "one" "two").2.1 (iff_of_false (hFits "one" (by decide))
    (hFits "two" (by decide)))
  refine ⟨hAlike, fun password hPassword => ?_⟩
  rcases List.mem_pair.1 hPassword with rfl | rfl
  · exact (hPush "one" "one").1.symm.trans hReport
  · exact (hPush "two" "two").1.symm.trans (hSame.1.symm.trans hReport)

/-- A password that no pipe holds, of a login that reads nothing, is seen: the push fails. -/
theorem password_seen_of_long :
    AnswerAlike readsNothing readsNothing (fun _ _ => true) (fun _ _ => true) 1000
        (fun _ _ => True) ∧
      (pushAs readsNothing (fun _ _ => true) 1000 "docker" toRegistry imageProject "me" "p" ()).1 ≠
        (pushAs readsNothing (fun _ _ => true) 1000 "docker" toRegistry imageProject "me"
          (String.ofList (List.replicate 65537 'p')) ()).1 := by
  refine ⟨⟨fun _ _ _ _ => rfl, fun _ _ _ _ _ _ => ⟨rfl, trivial⟩⟩, ?_⟩
  have hLong : (String.ofList (List.replicate 65537 'p')).utf8ByteSize = 65537 := by
    rw [Text.utf8ByteSize_ofList, List.length_replicate]
    intro c hc
    rw [List.eq_of_mem_replicate hc]
    rfl
  have hLeaves : readsNothing.LeavesInput 1000 (loginOf "docker" toRegistry "me"
      (String.ofList (List.replicate 65537 'p'))) () := by
    refine ⟨hasNul_loginOf _, _, rfl, ?_⟩
    rw [Finish.received, loginOf, invocation, Option.getD_some, hLong]
    rfl
  rw [pushAs_of_leavesInput hLeaves]
  have hShort : (pushAs readsNothing (fun _ _ => true) 1000 "docker" toRegistry imageProject "me"
      "p" ()).1 = .ok ⟨"r.io", [("web", .pushed "r.io/nginx:latest")]⟩ := by
    decide +kernel
  rw [hShort]
  simp

end Docker

end KubeCompose
