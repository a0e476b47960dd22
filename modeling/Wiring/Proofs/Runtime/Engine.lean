import Wiring.Proofs.Runtime.Standing

/-! # Engines

The operations of a runtime are put together from few: acts on it, scripts that run within it, the
seeding of instances and constructions. An engine carries these out in a monad of its own, and with
them the operations. Where it does so up to a relation to the runtime that is kept when one thing
follows another, it answers every request up to that relation (`Carries.answer`).
-/
namespace Wiring
set_option autoImplicit false

variable {P : Parts} {σ α β : Type} {m : Type → Type} [Monad m]

structure Engine (P : Parts) (σ : Type) (m : Type → Type) where
  act {α : Type} : Run P σ α → m α
  inner {α : Type} : Script P σ α → m α
  seed : Target P → m String
  construct : String → List Value → m (Except Failure (Instance P))
  asking : String → m (Except Failure (Instance P)) → m (Except Failure (Instance P))

namespace Engine

section Operations

variable (engine : Engine P σ m) (setup : Setup P σ)

def lift (act : m α) : ExceptT Failure m α := ExceptT.mk do return .ok (← act)

def outcome (act : ExceptT Failure m α) : ExceptT Failure m (Except Failure α) := lift act.run

def sure (act : Run P σ α) : ExceptT Failure m α := lift (engine.act act)

def resolve (name suffix : String) : ExceptT Failure m String :=
  ExceptT.mk (engine.act (Runtime.resolve setup name suffix).run)

def make (className : String) (args : List Value) : ExceptT Failure m (Instance P) :=
  ExceptT.mk (engine.construct className args)

def register (name : String) (target : Option (Target P)) : m Unit := do
  match target with
  | some target =>
    let className ← engine.seed target
    engine.act (Runtime.changeCurrent (·.register name className))
  | none => engine.act (Runtime.changeCurrent (·.unregister name))

def create (name : String) (args : List Value) : ExceptT Failure m (Instance P) := do
  engine.make (← engine.resolve setup name "") args

def share (name suffix className : String) : ExceptT Failure m (Instance P) := do
  if let some held ← engine.sure (Runtime.shared? className) then return held
  let short ← Name.shorten name suffix
  if let some held ← engine.sure (Runtime.shared? short) then return held
  let made ← engine.make className []
  if let some held ← engine.sure (Runtime.shared? className) then return held
  engine.sure (Runtime.share className made)
  return made

def obtain (name suffix : String) : ExceptT Failure m (Instance P) := do
  let className ← engine.resolve setup name suffix
  ExceptT.mk (engine.asking className (engine.share name suffix className).run)

def enter (context : Context) (body : m α) : m α := do
  engine.act (Runtime.push context)
  let result ← body
  let _ ← engine.act Runtime.pop
  return result

def execute (task : Task P) (args : List String) : ExceptT Failure m Value := do
  let program := setup.task task
  let context ← engine.sure Runtime.current
  let components := program.components (← engine.sure get).world
  let context ← lift (components.foldlM (fun context entry =>
    return context.register entry.1 (← engine.seed entry.2)) context)
  let context ← context.setConfigAll program.settings
  ExceptT.mk (engine.enter context (engine.inner (program.body args).run))

def createTask (name : String) : ExceptT Failure m (Task P) := do
  let held ← engine.create setup name []
  match held.task? with
  | some task => return task
  | none => throw held.notATask

def run (launch : Launch P) (args : List String) : ExceptT Failure m Value := do
  let task ← match launch with
    | .ready task => pure task
    | .named name =>
      let className ← if setup.catalog.contains name then pure name
        else Name.canonicalize name Runtime.programSuffix
      engine.createTask setup className
  engine.execute setup task args

def report (message : String) : ExceptT Failure m Unit := do
  match ← outcome (engine.obtain setup terminalName "") with
  | .ok held =>
    match held.asTerminal with
    | .ok sink => ExceptT.mk (engine.inner (Script.print sink [.string message]).run)
    | .error _ => return
  | .error _ => return

def command (launch : Launch P) (args : List String) : ExceptT Failure m Value := do
  let task ← match launch with
    | .ready task => pure task
    | .named name => engine.createTask setup (← Name.canonicalize name Runtime.commandSuffix)
  let line ← CommandLine.read args
  match ← outcome (engine.execute setup task line.files) with
  | .ok value => return value
  | .error failure =>
    if line.verbosity = .trace then throw failure
    engine.report setup failure.message
    return .null

/-- Answers a request. One for no operation is an act; nothing runs within it. -/
def answer : (request : Request P σ) → m request.Reply
  | .create name args => (engine.create setup name args).run
  | .get name suffix => (engine.obtain setup name suffix).run
  | .register name target => engine.register name target
  | .run launch args => (engine.run setup launch args).run
  | .command launch args => (engine.command setup launch args).run
  | request => engine.act (Runtime.answer setup 1 request)

end Operations

def interpret (answer : (request : Request P σ) → m request.Reply) : Script P σ α → m α
  | .done result => pure result
  | .ask request next => do
    let reply ← answer request
    interpret answer (next reply)

theorem interpret_bind [LawfulMonad m] (answer : (request : Request P σ) → m request.Reply)
    (script : Script P σ α) (next : α → Script P σ β) :
    interpret answer (script >>= next) =
      interpret answer script >>= fun result => interpret answer (next result) := by
  induction script with
  | done result =>
    rw [interpret, pure_bind]
    rfl
  | ask request reply ih =>
    show (answer request >>= fun value => interpret answer (reply value >>= next)) = _
    simp only [interpret, ih, bind_assoc]

end Engine

/-- A relation between what an engine does and what a runtime does. -/
structure Simulation (P : Parts) (σ : Type) (m : Type → Type) [Monad m] where
  rel {α : Type} : m α → Run P σ α → Prop
  done {α : Type} (value : α) : rel (pure value) (pure value)
  step {α β : Type} {first : m α} {plain : Run P σ α} {next : α → m β} {plainNext : α → Run P σ β} :
    rel first plain → (∀ value, rel (next value) (plainNext value)) →
      rel (first >>= next) (plain >>= plainNext)

namespace Simulation

variable {sim : Simulation P σ m}

theorem stepTrial {first : ExceptT Failure m α} {plain : Trial P σ α}
    {next : α → ExceptT Failure m β} {plainNext : α → Trial P σ β}
    (hFirst : sim.rel first.run plain.run)
    (hNext : ∀ value, sim.rel (next value).run (plainNext value).run) :
    sim.rel (first >>= next).run (plain >>= plainNext).run := by
  refine sim.step hFirst fun result => ?_
  cases result with
  | ok value => exact hNext value
  | error failure => exact sim.done _

theorem lift {act : m α} {plain : Run P σ α} (h : sim.rel act plain) :
    sim.rel (Engine.lift act).run (Runtime.sure plain).run := by
  rw [Runtime.sure, ExceptT.run_lift, map_eq_pure_bind]
  exact sim.step h fun value => sim.done _

theorem foldlM {next : β → α → m β} {plainNext : β → α → Run P σ β}
    (h : ∀ value item, sim.rel (next value item) (plainNext value item)) (start : β)
    (items : List α) : sim.rel (items.foldlM next start) (items.foldlM plainNext start) := by
  induction items generalizing start with
  | nil => exact sim.done start
  | cons item rest ih => exact sim.step (h start item) ih

theorem interpret {answer : (request : Request P σ) → m request.Reply}
    {plain : (request : Request P σ) → Run P σ request.Reply}
    (h : ∀ request, sim.rel (answer request) (plain request)) (script : Script P σ α) :
    sim.rel (Engine.interpret answer script) (Runtime.interpret plain script) := by
  induction script with
  | done result => exact sim.done result
  | ask request next ih => exact sim.step (h request) ih

variable {setup : Setup P σ} {engine : Engine P σ m}
variable {inner : {α : Type} → Script P σ α → Run P σ α}

theorem enter {context : Context} {body : m α} {plain : Run P σ α}
    (hPush : sim.rel (engine.act (Runtime.push context)) (Runtime.push context))
    (hBody : sim.rel body plain) (hPop : sim.rel (engine.act Runtime.pop) Runtime.pop) :
    sim.rel (engine.enter context body) (Runtime.enter context plain) :=
  sim.step hPush fun _ => sim.step hBody fun result => sim.step hPop fun _ => sim.done result

theorem execute (hCurrent : sim.rel (engine.act Runtime.current) Runtime.current)
    (hGet : sim.rel (engine.act get) get)
    (hSeed : ∀ target, sim.rel (engine.seed target) (Runtime.seed target))
    (hEnter : ∀ context task args,
      sim.rel (engine.enter context (engine.inner ((setup.task task).body args).run))
        (Runtime.enter context (inner ((setup.task task).body args).run)))
    (task : Task P) (args : List String) :
    sim.rel (engine.execute setup task args).run (Runtime.execute setup inner task args).run := by
  refine stepTrial (lift hCurrent) fun context => ?_
  refine stepTrial (lift hGet) fun runtime => ?_
  refine stepTrial (lift (foldlM (fun context entry => ?_) context _)) fun _ => ?_
  · exact sim.step (hSeed entry.2) fun _ => sim.done _
  · exact stepTrial (sim.done _) fun context => hEnter context task args

/-- The engine does as the runtime does in the parts of the operations. Where scripts are to be of
some kind, these are the scripts of factories and tasks and those that print. -/
structure Carries (sim : Simulation P σ m) (setup : Setup P σ) (engine : Engine P σ m)
    (inner : {α : Type} → Script P σ α → Run P σ α) : Prop where
  act {α : Type} {act : Run P σ α} : Runtime.Sparing act → sim.rel (engine.act act) act
  seed (target : Target P) : sim.rel (engine.seed target) (Runtime.seed target)
  construct (className : String) (args : List Value) :
    sim.rel (engine.construct className args) (Runtime.construct setup inner className args).run
  obtain (name suffix : String) :
    sim.rel (engine.obtain setup name suffix).run (Runtime.obtain setup inner name suffix).run
  enter (context : Context) (task : Task P) (args : List String) :
    sim.rel (engine.enter context (engine.inner ((setup.task task).body args).run))
      (Runtime.enter context (inner ((setup.task task).body args).run))
  print (sink : P.Sink) (words : List Value) :
    sim.rel (engine.inner (Script.print sink words).run) (inner (Script.print sink words).run)

namespace Carries

variable (h : sim.Carries setup engine inner)
include h

theorem register (name : String) (target : Option (Target P)) :
    sim.rel (engine.register name target) (Runtime.register name target) := by
  cases target with
  | none => exact h.act (Runtime.sparing_changeCurrent _)
  | some target =>
    exact sim.step (h.seed target) fun _ => h.act (Runtime.sparing_changeCurrent _)

theorem create (name : String) (args : List Value) :
    sim.rel (engine.create setup name args).run (Runtime.create setup inner name args).run :=
  stepTrial (h.act (Runtime.sparing_resolve setup name "")) fun className =>
    h.construct className args

theorem execute (task : Task P) (args : List String) :
    sim.rel (engine.execute setup task args).run (Runtime.execute setup inner task args).run :=
  Simulation.execute (h.act Runtime.sparing_current) (h.act Runtime.sparing_get) h.seed h.enter
    task args

theorem createTask (name : String) :
    sim.rel (engine.createTask setup name).run (Runtime.createTask setup inner name).run := by
  refine stepTrial (h.create name []) fun held => ?_
  cases held.task? <;> exact sim.done _

theorem run (launch : Launch P) (args : List String) :
    sim.rel (engine.run setup launch args).run (Runtime.run setup inner launch args).run := by
  cases launch with
  | ready task => exact stepTrial (sim.done _) fun task => h.execute task args
  | named name =>
    have hNamed (name : String) := stepTrial (h.createTask name) fun task => h.execute task args
    rw [Engine.run, Runtime.run]
    dsimp only
    split
    · exact stepTrial (sim.done (Except.ok name)) hNamed
    · exact stepTrial (sim.done (Name.canonicalize name Runtime.programSuffix)) hNamed

theorem report (message : String) :
    sim.rel (engine.report setup message).run (Runtime.report setup inner message).run := by
  refine stepTrial (lift (h.obtain terminalName "")) fun result => ?_
  cases result with
  | error failure => exact sim.done _
  | ok held =>
    dsimp only
    cases held.asTerminal with
    | error failure => exact sim.done _
    | ok sink => exact h.print sink _

theorem command (launch : Launch P) (args : List String) :
    sim.rel (engine.command setup launch args).run
      (Runtime.command setup inner launch args).run := by
  have hTask (task : Task P) : sim.rel (do
        let line ← CommandLine.read args
        match ← Engine.outcome (engine.execute setup task line.files) with
        | .ok value => return value
        | .error failure =>
          if line.verbosity = .trace then throw failure
          engine.report setup failure.message
          return .null : ExceptT Failure m Value).run (do
        let line ← CommandLine.read args
        match ← Runtime.outcome (Runtime.execute setup inner task line.files) with
        | .ok value => return value
        | .error failure =>
          if line.verbosity = .trace then throw failure
          Runtime.report setup inner failure.message
          return .null : Trial P σ Value).run := by
    refine stepTrial (sim.done _) fun line => ?_
    refine stepTrial (lift (h.execute task line.files)) fun result => ?_
    cases result with
    | ok value => exact sim.done _
    | error failure =>
      have hReport := stepTrial (h.report failure.message) fun _ => sim.done (.ok Value.null)
      dsimp only
      split
      · exact stepTrial (sim.done _) fun _ => hReport
      · exact hReport
  cases launch with
  | ready task => exact stepTrial (sim.done _) hTask
  | named name =>
    exact stepTrial (sim.done _) fun className => stepTrial (h.createTask className) hTask

end Carries

theorem Carries.answer {fuel : Nat} (h : sim.Carries setup engine (Runtime.perform setup fuel))
    (request : Request P σ)
    (hPush : ∀ context, request = .push context →
      sim.rel (engine.act (Runtime.push context)) (Runtime.push context))
    (hPop : request = .pop → sim.rel (engine.act Runtime.pop) Runtime.pop) :
    sim.rel (engine.answer setup request) (Runtime.answer setup (fuel + 1) request) := by
  cases request with
  | create name args => exact h.create name args
  | get name suffix => exact h.obtain name suffix
  | register name target => exact h.register name target
  | run launch args => exact h.run launch args
  | command launch args => exact h.command launch args
  | push context => exact hPush context rfl
  | pop => exact hPop rfl
  | _ =>
    refine h.act (Runtime.sparing_of_aside ?_ setup 0)
    trivial

/-- The engine does as the runtime does in every act that neither begins nor ends a factory, in
every script, and in what makes and seeds instances. -/
structure Follows (sim : Simulation P σ m) (setup : Setup P σ) (engine : Engine P σ m)
    (inner : {α : Type} → Script P σ α → Run P σ α) : Prop where
  act {α : Type} {act : Run P σ α} : Runtime.Level act → sim.rel (engine.act act) act
  script {α : Type} (script : Script P σ α) : sim.rel (engine.inner script) (inner script)
  seed (target : Target P) : sim.rel (engine.seed target) (Runtime.seed target)
  construct (className : String) (args : List Value) :
    sim.rel (engine.construct className args) (Runtime.construct setup inner className args).run
  asking (className : String) {act : m (Except Failure (Instance P))}
    {plain : Run P σ (Except Failure (Instance P))} :
    sim.rel act plain → sim.rel (engine.asking className act) plain

namespace Follows

section Operations

variable (h : sim.Follows setup engine inner)
include h

theorem shared? (className : String) :
    sim.rel (engine.sure (Runtime.shared? className)).run
      (Runtime.sure (Runtime.shared? className)).run :=
  lift (h.act (Runtime.sparing_shared? className).level)

theorem obtain (name suffix : String) :
    sim.rel (engine.obtain setup name suffix).run
      (Runtime.obtain setup inner name suffix).run := by
  refine stepTrial (h.act (Runtime.sparing_resolve setup name suffix).level) fun className => ?_
  refine h.asking className (stepTrial (h.shared? className) fun found => ?_)
  cases found with
  | some held => exact sim.done _
  | none =>
    refine stepTrial (sim.done _) fun short => stepTrial (h.shared? short) fun found => ?_
    cases found with
    | some held => exact sim.done _
    | none =>
      refine stepTrial (h.construct className []) fun made => ?_
      refine stepTrial (h.shared? className) fun found => ?_
      cases found with
      | some held => exact sim.done _
      | none =>
        have hShare : Runtime.Level (Runtime.share className made : Run P σ Unit) :=
          Runtime.ensures_of_run (fun _ => rfl) fun _ => rfl
        exact stepTrial (lift (h.act hShare)) fun _ => sim.done _

theorem push (context : Context) :
    sim.rel (engine.act (Runtime.push context)) (Runtime.push context) :=
  h.act (Runtime.ensures_of_run (fun _ => rfl) fun _ => rfl)

theorem pop : sim.rel (engine.act Runtime.pop) Runtime.pop :=
  h.act (Runtime.ensures_of_run (fun _ => rfl) fun _ => rfl)

theorem carries : sim.Carries setup engine inner where
  act hSparing := h.act hSparing.level
  seed := h.seed
  construct := h.construct
  obtain := h.obtain
  enter context _ _ := Simulation.enter (h.push context) (h.script _) h.pop
  print _ _ := h.script _

end Operations

theorem answer {fuel : Nat} (h : sim.Follows setup engine (Runtime.perform setup fuel))
    (request : Request P σ) :
    sim.rel (engine.answer setup request) (Runtime.answer setup (fuel + 1) request) :=
  h.carries.answer request (fun context _ => h.push context) fun _ => h.pop

end Follows

end Simulation
end Wiring
