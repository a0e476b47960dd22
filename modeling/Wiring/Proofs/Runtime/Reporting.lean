import Wiring.Proofs.Cli.Tokens
import Wiring.Proofs.Runtime.Launching
import Wiring.Proofs.Runtime.Nesting

/-! # Reporting failures

A command whose command line can be read comes to what its program comes to, unless that is a
failure and no trace is asked for. Then the failure's message is written to the shared terminal, if
there is one, as a line of one word. A line gives a final `$` a meaning of its own, so this is not
always the message as it stands.
-/
namespace Wiring
set_option autoImplicit false

variable {P : Parts} {σ : Type} {setup : Setup P σ}

def wholeLine (text : String) : String :=
  if text.toList.getLast? = some '\n' ∨ text.toList.getLast? = some '\r' then text else text ++ "\n"

namespace Line

theorem format_text (text : String) : format [.string text] = String.ofList (ended text.toList) := by
  have hFirst : addWord [] text.toList = text.toList := rfl
  rw [format, List.map_singleton, List.foldl_cons, List.foldl_nil, ← hFirst]
  rfl

theorem format_text_of_dollar (text : String) : format [.string (text ++ "$")] = text := by
  have hLast : (text ++ "$").toList = text.toList ++ ['$'] := String.toList_append
  rw [format_text, hLast, ended, List.getLast?_concat, List.dropLast_concat]
  exact String.ofList_toList

theorem format_text_of_ne {text : String} (h : text.toList.getLast? ≠ some '$') :
    format [.string text] = wholeLine text := by
  rw [format_text, ended, wholeLine]
  split
  · contradiction
  · rename_i hLast
    rw [if_pos (.inl hLast), String.ofList_toList]
  · rename_i hLast
    rw [if_pos (.inr hLast), String.ofList_toList]
  · rename_i hNewline hReturn
    rw [if_neg (not_or.mpr ⟨hNewline, hReturn⟩), String.ofList_append, String.ofList_toList]

theorem exists_of_getLast?_eq_dollar {text : String} (h : text.toList.getLast? = some '$') :
    ∃ shown, text = shown ++ "$" := by
  obtain ⟨shown, hShown⟩ := List.getLast?_eq_some_iff.mp h
  exact ⟨String.ofList shown, by rw [← String.ofList_toList (s := text), hShown, String.ofList_append]⟩

theorem format_text_eq_wholeLine_iff {text : String} :
    format [.string text] = wholeLine text ↔ text.toList.getLast? ≠ some '$' := by
  refine ⟨fun hWhole hDollar => ?_, format_text_of_ne⟩
  obtain ⟨shown, rfl⟩ := exists_of_getLast?_eq_dollar hDollar
  rw [format_text_of_dollar, wholeLine, hDollar] at hWhole
  have hLength := congrArg String.length hWhole
  simp [Nat.add_assoc] at hLength

end Line

namespace Runtime

/-- A message is reported: it is written as a line to what the terminal's name stands for, and where
that is no terminal or nothing at all it is not. A terminal that refuses the line, or refuses to be
flushed after it, is a failure. -/
inductive Reported (setup : Setup P σ) (inner : {α : Type} → Script P σ α → Run P σ α)
    (message : String) (runtime : Runtime P σ) : Except Failure Unit → Runtime P σ → Prop
  | written {held : Instance P} {obtained : Runtime P σ} {sink : P.Sink} {world : σ} :
    (obtain setup inner terminalName "").run.run runtime = some (.ok held, obtained) →
    held.asTerminal = .ok sink →
    setup.put sink (Line.format [.string message]) obtained.world = (.ok (), world) →
    Reported setup inner message runtime (.ok ()) (obtained.withWorld world)
  | unwritten {held : Instance P} {obtained : Runtime P σ} {sink : P.Sink} {cause : String}
      {world : σ} :
    (obtain setup inner terminalName "").run.run runtime = some (.ok held, obtained) →
    held.asTerminal = .ok sink →
    setup.put sink (Line.format [.string message]) obtained.world = (.error cause, world) →
    Reported setup inner message runtime
      (.error (.io "cannot write to \x7b1\x7d" Component.terminalClass cause))
      (obtained.withWorld world)
  | foreign {held : Instance P} {obtained : Runtime P σ} {failure : Failure} :
    (obtain setup inner terminalName "").run.run runtime = some (.ok held, obtained) →
    held.asTerminal = .error failure → Reported setup inner message runtime (.ok ()) obtained
  | missing {failure : Failure} {obtained : Runtime P σ} :
    (obtain setup inner terminalName "").run.run runtime = some (.error failure, obtained) →
    Reported setup inner message runtime (.ok ()) obtained

/-- A command comes to the value of its program or to its failure if a trace is asked for, else to
nothing, with the failure's message reported. -/
inductive Concluded (setup : Setup P σ) (inner : {α : Type} → Script P σ α → Run P σ α)
    (verbosity : Verbosity) :
    Except Failure Value → Runtime P σ → Except Failure Value → Runtime P σ → Prop
  | succeeded {value : Value} {left : Runtime P σ} :
    Concluded setup inner verbosity (.ok value) left (.ok value) left
  | traced {failure : Failure} {left : Runtime P σ} : verbosity = .trace →
    Concluded setup inner verbosity (.error failure) left (.error failure) left
  | reported {failure : Failure} {left after : Runtime P σ} {result : Except Failure Unit} :
    verbosity ≠ .trace → Reported setup inner failure.message left result after →
    Concluded setup inner verbosity (.error failure) left (result.map fun _ => .null) after

section Commands

variable {inner : {α : Type} → Script P σ α → Run P σ α} {runtime : Runtime P σ} {task : Task P}
  {args : List String} {line : CommandLine}

theorem run_report_iff {message : String} {fuel : Nat} {result : Except Failure Unit}
    {after : Runtime P σ} :
    (report setup (perform setup (fuel + 1)) message).run.run runtime = some (result, after) ↔
      Reported setup (perform setup (fuel + 1)) message runtime result after := by
  rw [report, run_bind_outcome, Option.bind_eq_some_iff]
  constructor
  · rintro ⟨⟨_ | held, obtained⟩, hObtain, hShown⟩
    · cases hShown
      exact .missing hObtain
    · cases hTerminal : held.asTerminal with
      | error failure =>
        simp only [hTerminal] at hShown
        cases hShown
        exact .foreign hObtain hTerminal
      | ok sink =>
        obtain ⟨reply, world, hWrite⟩ : ∃ reply world,
            setup.put sink (Line.format [.string message]) obtained.world = (reply, world) :=
          ⟨_, _, rfl⟩
        simp only [hTerminal] at hShown
        have hPrint := (perform_print hWrite fuel).symm.trans hShown
        cases reply <;> cases hPrint
        · exact .unwritten hObtain hTerminal hWrite
        · exact .written hObtain hTerminal hWrite
  · rintro (⟨hObtain, hTerminal, hWrite⟩ | ⟨hObtain, hTerminal, hWrite⟩ | ⟨hObtain, hForeign⟩ |
      hObtain)
    · refine ⟨_, hObtain, ?_⟩
      simp only [hTerminal]
      exact perform_print hWrite fuel
    · refine ⟨_, hObtain, ?_⟩
      simp only [hTerminal]
      exact perform_print hWrite fuel
    · refine ⟨_, hObtain, ?_⟩
      simp only [hForeign]
      rfl
    · exact ⟨_, hObtain, rfl⟩

def conclude (setup : Setup P σ) (inner : {α : Type} → Script P σ α → Run P σ α)
    (verbosity : Verbosity) : Except Failure Value → Trial P σ Value
  | .ok value => return value
  | .error failure =>
    if verbosity = .trace then throw failure
    else report setup inner failure.message >>= fun _ => return .null

theorem run_conclude_iff {verbosity : Verbosity} {fuel : Nat} {outcome result : Except Failure Value}
    {after : Runtime P σ} :
    (conclude setup (perform setup (fuel + 1)) verbosity outcome).run.run runtime =
        some (result, after) ↔
      Concluded setup (perform setup (fuel + 1)) verbosity outcome runtime result after := by
  cases outcome with
  | ok value =>
    constructor
    · rintro ⟨⟩
      exact .succeeded
    · rintro ⟨⟩
      rfl
  | error failure =>
    by_cases hTrace : verbosity = .trace
    · rw [conclude, if_pos hTrace]
      constructor
      · rintro ⟨⟩
        exact .traced hTrace
      · rintro (_ | _ | ⟨hNoTrace, _⟩)
        · rfl
        · exact absurd hTrace hNoTrace
    · rw [conclude, if_neg hTrace, run_bind_pure, Option.map_eq_some_iff]
      constructor
      · rintro ⟨⟨reply, left⟩, hReport, ⟨⟩⟩
        exact .reported hTrace (run_report_iff.mp hReport)
      · rintro (_ | hTraced | ⟨_, hReported⟩)
        · exact absurd hTraced hTrace
        · exact ⟨_, run_report_iff.mpr hReported, rfl⟩

theorem command_of_read (hRead : CommandLine.read args = .ok line) :
    command setup inner (.ready task) args =
      outcome (execute setup inner task line.files) >>= conclude setup inner line.verbosity := by
  simp only [command, hRead]
  show (outcome (execute setup inner task line.files) >>= _) = _
  refine bind_congr fun reply => ?_
  cases reply with
  | ok value => rfl
  | error failure =>
    rw [conclude]
    dsimp only
    split <;> rfl

theorem run_command_iff {fuel : Nat} (hStack : runtime.stack ≠ [])
    (hRead : CommandLine.read args = .ok line) {result : Except Failure Value}
    {after : Runtime P σ} :
    (command setup (perform setup (fuel + 1)) (.ready task) args).run.run runtime =
        some (result, after) ↔
      ∃ outcome left, Executed setup (perform setup (fuel + 1)) task line.files runtime outcome left ∧
        Concluded setup (perform setup (fuel + 1)) line.verbosity outcome left result after := by
  rw [command_of_read hRead, run_bind_outcome, Option.bind_eq_some_iff]
  constructor
  · rintro ⟨⟨outcome, left⟩, hExecute, hConclude⟩
    exact ⟨outcome, left, (run_execute_iff hStack).mp hExecute, run_conclude_iff.mp hConclude⟩
  · rintro ⟨outcome, left, hExecuted, hConcluded⟩
    exact ⟨(outcome, left), (run_execute_iff hStack).mpr hExecuted, run_conclude_iff.mpr hConcluded⟩

theorem run_command_of_read_eq_error {failure : Failure}
    (hRead : CommandLine.read args = .error failure) :
    (command setup inner (.ready task) args).run.run runtime = some (.error failure, runtime) :=
  run_bind_of_error (run_liftM_of_eq hRead) _

/-- Quiet commands and normal ones are alike. -/
theorem command_congr {others : List String} {other : CommandLine}
    (hRead : CommandLine.read args = .ok line) (hOther : CommandLine.read others = .ok other)
    (hFiles : other.files = line.files) (hTrace : line.verbosity ≠ .trace)
    (hNoTrace : other.verbosity ≠ .trace) :
    command setup inner (.ready task) others = command setup inner (.ready task) args := by
  rw [command_of_read hRead, command_of_read hOther, hFiles]
  refine congrArg _ (funext fun outcome => ?_)
  cases outcome with
  | ok value => rfl
  | error failure => rw [conclude, conclude, if_neg hTrace, if_neg hNoTrace]

variable {outcome result : Except Failure Value} {left after : Runtime P σ}

theorem Executed.stack_eq (hSetup : setup.Balanced) {fuel : Nat}
    (h : Executed setup (perform setup fuel) task args runtime outcome left) :
    left.stack = runtime.stack := by
  cases h with
  | refused => rfl
  | @ran context _ _ _ hBody =>
    rw [← Watched.plain_watch] at hBody
    obtain ⟨_, hBelow⟩ := Law.nesting_watch hSetup fuel (hSetup.task task args)
      ((runtime.seeded (componentsOf setup task runtime)).pushing context) context runtime.stack rfl
    obtain ⟨top, hTop⟩ := hBelow _ (Option.map_eq_some_iff.mpr ⟨_, hBody, rfl⟩)
    exact congrArg List.tail hTop

/-- Looking for the terminal leaves the contexts as they are. -/
def FindsTerminalInPlace (setup : Setup P σ) (inner : {α : Type} → Script P σ α → Run P σ α)
    (runtime : Runtime P σ) : Prop :=
  ∀ found obtained, (obtain setup inner terminalName "").run.run runtime = some (found, obtained) →
    obtained.stack = runtime.stack

theorem Reported.stack_eq {message : String} {result : Except Failure Unit}
    (h : Reported setup inner message runtime result after)
    (hFinds : FindsTerminalInPlace setup inner runtime) : after.stack = runtime.stack := by
  have hObtained : ∃ found obtained, (obtain setup inner terminalName "").run.run runtime =
      some (found, obtained) ∧ after.stack = obtained.stack := by
    cases h with
    | written hObtain => exact ⟨_, _, hObtain, rfl⟩
    | unwritten hObtain => exact ⟨_, _, hObtain, rfl⟩
    | foreign hObtain => exact ⟨_, _, hObtain, rfl⟩
    | missing hObtain => exact ⟨_, _, hObtain, rfl⟩
  obtain ⟨found, obtained, hObtain, hSame⟩ := hObtained
  exact hSame.trans (hFinds found obtained hObtain)

theorem Concluded.stack_eq {verbosity : Verbosity}
    (h : Concluded setup inner verbosity outcome left result after)
    (hFinds : verbosity ≠ .trace → ∀ failure, outcome = .error failure →
      FindsTerminalInPlace setup inner left) :
    after.stack = left.stack := by
  cases h with
  | succeeded => rfl
  | traced => rfl
  | reported hTrace hReported => exact hReported.stack_eq (hFinds hTrace _ rfl)

end Commands

/-- A command whose command line cannot be read fails with that, and nothing else happens. Any other
command executes its program once, and it comes to what the program does and its verbosity say. All
verbosities but traces are alike. If programs and factories are balanced, the stack is in the end as
it was, unless looking for the terminal changes a context. -/
theorem run_command_decided {runtime : Runtime P σ} (hStack : runtime.stack ≠ []) (task : Task P)
    (args : List String) (fuel : Nat) :
    (∀ failure, CommandLine.read args = .error failure → failure.kind = .invalidArgument ∧
      ∀ inner : {α : Type} → Script P σ α → Run P σ α,
        (command setup inner (.ready task) args).run.run runtime = some (.error failure, runtime)) ∧
    ∀ line, CommandLine.read args = .ok line →
      (∀ result after,
        (command setup (perform setup (fuel + 1)) (.ready task) args).run.run runtime =
          some (result, after) ↔
        ∃ outcome left,
          Executed setup (perform setup (fuel + 1)) task line.files runtime outcome left ∧
          Concluded setup (perform setup (fuel + 1)) line.verbosity outcome left result after) ∧
      (line.verbosity ≠ .trace → ∀ others other, CommandLine.read others = .ok other →
        other.files = line.files → other.verbosity ≠ .trace →
        ∀ inner : {α : Type} → Script P σ α → Run P σ α,
          command setup inner (.ready task) others = command setup inner (.ready task) args) ∧
      (setup.Balanced →
        (line.verbosity ≠ .trace → ∀ failure left,
          Executed setup (perform setup (fuel + 1)) task line.files runtime (.error failure) left →
          FindsTerminalInPlace setup (perform setup (fuel + 1)) left) →
        ∀ result after,
          (command setup (perform setup (fuel + 1)) (.ready task) args).run.run runtime =
            some (result, after) →
          after.stack = runtime.stack) := by
  refine ⟨fun failure hRead => ⟨CommandLine.kind_of_read_eq_error hRead, fun inner =>
    run_command_of_read_eq_error hRead⟩, fun line hRead => ⟨fun result after =>
    run_command_iff hStack hRead, fun hTrace others other hOther hFiles hNoTrace inner =>
    command_congr hRead hOther hFiles hTrace hNoTrace, ?_⟩⟩
  intro hSetup hFinds result after hRun
  obtain ⟨outcome, left, hExecuted, hConcluded⟩ := (run_command_iff hStack hRead).mp hRun
  rw [← hExecuted.stack_eq hSetup]
  refine hConcluded.stack_eq fun hTrace failure hFailed => ?_
  subst hFailed
  exact hFinds hTrace failure left hExecuted

def exchangeSetup : Setup ⟨Unit, Empty, Unit⟩ (List String) where
  catalog := .empty
  write _ text written := (.ok (), written ++ [text])
  invoke := nofun
  program _ := {
    body := fun files =>
      throw { kind := .invalidArgument, message := "unknown currency " ++ files.headD "" } }

theorem balanced_exchangeSetup : exchangeSetup.Balanced where
  factory _ _ hFactory := by cases hFactory
  program _ _ := .done _

def exchange : Runtime ⟨Unit, Empty, Unit⟩ (List String) where
  singletons := Table.ofList [(Component.terminalClass, ⟨0, .terminal ()⟩)]
  stack := [{}]
  made := 1
  world := []

theorem run_command_decided_quiet :
    exchange.stack ≠ [] ∧
    CommandLine.read ["-q", "mk"] = .ok { files := ["mk"], verbosity := .quiet } ∧
    exchangeSetup.Balanced ∧
    ∃ after, (command exchangeSetup (perform exchangeSetup 1) (.ready (.program ()))
        ["-q", "mk"]).run.run exchange = some (.ok .null, after) ∧
      after.stack = exchange.stack ∧ after.world = ["unknown currency mk\n"] := by
  have hStack : exchange.stack ≠ [] := List.cons_ne_nil _ _
  have hRead : CommandLine.read ["-q", "mk"] = .ok { files := ["mk"], verbosity := .quiet } := rfl
  refine ⟨hStack, hRead, balanced_exchangeSetup, ?_⟩
  have hDecided := @run_command_decided _ _ exchangeSetup _ hStack (.program ()) ["-q", "mk"] 0
  obtain ⟨hIff, _, hRestored⟩ := hDecided.2 _ hRead
  have hExecuted : Executed exchangeSetup (perform exchangeSetup 1) (.program ()) ["mk"] exchange
      (.error { kind := .invalidArgument, message := "unknown currency mk" }) exchange :=
    (run_execute_iff hStack).mp rfl
  have hReported : Reported exchangeSetup (perform exchangeSetup 1) "unknown currency mk" exchange
      (.ok ()) (exchange.withWorld ["unknown currency mk\n"]) := .written rfl rfl rfl
  have hRun := (hIff _ _).mpr ⟨_, _, hExecuted, .reported nofun hReported⟩
  refine ⟨_, hRun, hRestored balanced_exchangeSetup (fun _ failure left hLeft => ?_) _ _ hRun, rfl⟩
  have hRuns := (run_execute_iff hStack).mpr hExecuted
  cases hRuns.symm.trans ((run_execute_iff hStack).mpr hLeft)
  rintro found obtained ⟨⟩
  rfl

/-- The line of the message is empty, and still the terminal is flushed, which it refuses. -/
example :
    let setup := { exchangeSetup with
      flush := fun _ written => (.error "broken pipe", written)
      program := fun _ => { body := fun _ => throw { kind := .invalidArgument, message := "$" } } }
    (command setup (perform setup 1) (.ready (.program ())) []).run.run exchange =
      some (.error (.io "cannot write to \x7b1\x7d" Component.terminalClass "broken pipe"),
        exchange) := by
  rfl

/-- A failing program's message is written to a working terminal. It is shown whole, on a line of
its own, unless it ends in a `$`: this is dropped, and no newline follows. -/
theorem run_command_shows {runtime left obtained : Runtime P σ} {task : Task P} {args : List String}
    {line : CommandLine} {failure : Failure} {held : Instance P} {sink : P.Sink} {fuel : Nat}
    (hStack : runtime.stack ≠ []) (hRead : CommandLine.read args = .ok line)
    (hTrace : line.verbosity ≠ .trace)
    (hExecuted : Executed setup (perform setup (fuel + 1)) task line.files runtime (.error failure)
      left)
    (hObtain : (obtain setup (perform setup (fuel + 1)) terminalName "").run.run left =
      some (.ok held, obtained))
    (hTerminal : held.asTerminal = .ok sink)
    (hWorks : ∀ text, (setup.put sink text obtained.world).1 = .ok ()) :
    ∃ text, (command setup (perform setup (fuel + 1)) (.ready task) args).run.run runtime =
        some (.ok .null, obtained.withWorld (setup.put sink text obtained.world).2) ∧
      (text = wholeLine failure.message ↔ failure.message.toList.getLast? ≠ some '$') ∧
      ∀ shown, failure.message = shown ++ "$" → text = shown := by
  refine ⟨Line.format [.string failure.message], ?_, Line.format_text_eq_wholeLine_iff, ?_⟩
  · rw [run_command_iff hStack hRead]
    have hWrite : setup.put sink (Line.format [.string failure.message]) obtained.world =
        (.ok (), _) := Prod.ext (hWorks _) rfl
    exact ⟨_, _, hExecuted, .reported hTrace (.written hObtain hTerminal hWrite)⟩
  · intro shown hMessage
    rw [hMessage, Line.format_text_of_dollar]

theorem run_command_shows_currency :
    let failure : Failure := { kind := .invalidArgument, message := "unknown currency US$" }
    let held : Instance ⟨Unit, Empty, Unit⟩ := ⟨0, .terminal ()⟩
    exchange.stack ≠ [] ∧ CommandLine.read ["US$"] = .ok { files := ["US$"] } ∧
    Executed exchangeSetup (perform exchangeSetup 1) (.program ()) ["US$"] exchange (.error failure)
      exchange ∧
    (obtain exchangeSetup (perform exchangeSetup 1) terminalName "").run.run exchange =
      some (.ok held, exchange) ∧
    held.asTerminal = .ok () ∧
    (∀ text, (exchangeSetup.put () text exchange.world).1 = .ok ()) ∧
    ∃ text, (command exchangeSetup (perform exchangeSetup 1) (.ready (.program ()))
        ["US$"]).run.run exchange = some (.ok .null, exchange.withWorld
          (exchangeSetup.put () text exchange.world).2) ∧
      (text = wholeLine failure.message ↔ failure.message.toList.getLast? ≠ some '$') ∧
      text = "unknown currency US" := by
  intro failure held
  have hStack : exchange.stack ≠ [] := List.cons_ne_nil _ _
  have hRead : CommandLine.read ["US$"] = .ok { files := ["US$"] } := rfl
  have hExecuted : Executed exchangeSetup (perform exchangeSetup 1) (.program ()) ["US$"] exchange
      (.error failure) exchange := (run_execute_iff hStack).mp rfl
  have hObtain : (obtain exchangeSetup (perform exchangeSetup 1) terminalName "").run.run exchange =
      some (.ok held, exchange) := rfl
  have hWorks (text : String) : (exchangeSetup.put () text exchange.world).1 = .ok () := by
    rw [Setup.put]
    split <;> rfl
  obtain ⟨text, hRun, hWhole, hShown⟩ :=
    run_command_shows hStack hRead nofun hExecuted hObtain rfl hWorks
  exact ⟨hStack, hRead, hExecuted, hObtain, rfl, hWorks, text, hRun, hWhole, hShown _ rfl⟩

/-- The currency that is asked for loses its `$`. -/
theorem run_command_drops_dollar :
    ∃ failure after, Executed exchangeSetup (perform exchangeSetup 1) (.program ()) ["US$"] exchange
        (.error failure) exchange ∧
      (command exchangeSetup (perform exchangeSetup 1) (.ready (.program ())) ["US$"]).run.run
        exchange = some (.ok .null, after) ∧
      after.world = ["unknown currency US"] ∧ after.world ≠ [wholeLine failure.message] := by
  have hStack : exchange.stack ≠ [] := List.cons_ne_nil _ _
  have hWritten : (exchange.withWorld ["unknown currency US"]).world ≠
      [wholeLine "unknown currency US$"] := by decide
  exact ⟨_, _, (run_execute_iff hStack).mp rfl, rfl, rfl, hWritten⟩

end Runtime
end Wiring
