import Wiring.Proofs.Runtime.Spellings

/-! # Commands by name

A command that is launched by name is constructed under what the canonical form of its name resolves
to, the suffix written out. The short form of that is another than the short form of the name, from
which the suffix is dropped, so that a registration for one of the two is not seen by way of the
other (`command_constructs_iff`). A registration for the canonical form is seen both ways.
-/
namespace Wiring.Runtime
set_option autoImplicit false

variable {P : Parts} {σ : Type} {setup : Setup P σ}

theorem joins_commandSuffix (fresh : Bool) :
    Name.Joins fresh commandSuffix.toList commandSuffix.toList := by
  rw [← Name.joinWords_eq_some_iff]
  cases fresh <;> rfl

theorem isDigit_commandSuffix : ∀ c ∈ commandSuffix.toList, c.isDigit = false := by
  have hAll : commandSuffix.toList.all (fun c => c.isDigit == false) = true := by rfl
  exact fun c hMem => eq_of_beq (List.all_eq_true.mp hAll c hMem)

/-- A command by a name that resolves, and is not in the catalog itself, constructs the class that
its canonical form resolves to. That is the class that the name resolves to if something is
registered for the canonical form, or else if what is registered for the two short forms, with the
canonical form in place of what is not, is the same; and otherwise it is another. -/
theorem command_constructs_iff {runtime : Runtime P σ} {name className : String}
    (hNew : setup.catalog.contains name = false)
    (hResolves : (resolve setup name commandSuffix).run.run' runtime = some (.ok className))
    (fuel : Nat) (args : List String) :
    ∃ long constructed, Name.canonicalize name commandSuffix = .ok long ∧
      (resolve setup long "").run.run' runtime = some (.ok constructed) ∧
      (Calling.answer setup (fuel + 1) (.command (.named name) args) runtime).1 =
        (answer setup (fuel + 1) (.command (.named name) args)).run runtime ∧
      constructed? (Calling.answer setup (fuel + 1) (.command (.named name) args) runtime).2 =
        some constructed ∧
      (constructed = className ↔ runtime.active.registration? long ≠ none ∨
        ∃ short, Name.shorten name commandSuffix = .ok short ∧
          ∃ spelledOut, Name.shorten long "" = .ok spelledOut ∧
            (runtime.active.registration? spelledOut).getD long =
              (runtime.active.registration? short).getD long) := by
  rw [run'_resolve, Option.some.injEq] at hResolves
  have hErases := congrFun
    (Calling.counting_answer setup (fuel + 1) (.command (.named name) args)).1 runtime
  obtain ⟨long, hLong, hForms⟩ := forms_of_resolution hResolves
  have hSelf : Name.canonicalize long "" = .ok long :=
    Name.canonicalize_self joins_commandSuffix hLong
  rcases hForms with hRegistered | ⟨hFree, short, hShort⟩
  · have hCanonical : resolution setup runtime.active long "" = .ok className :=
      resolution_of_registration hSelf hRegistered
    refine ⟨long, className, hLong, by rw [run'_resolve, hCanonical], hErases,
      Calling.constructed?_command _ hLong hCanonical args, fun _ => .inl ?_, fun _ => rfl⟩
    rw [hRegistered]
    exact Option.some_ne_none className
  · obtain ⟨spelledOut, hSpelledOut⟩ := Name.exists_shorten_canonicalize joins_commandSuffix
      isDigit_commandSuffix hLong ⟨short, hShort⟩
    have hCanonical : resolution setup runtime.active long "" =
        .ok (override runtime.active long spelledOut) :=
      resolution_eq_override hSelf hSpelledOut (.inr rfl)
    rw [resolution_eq_override hLong hShort (.inl hNew), Except.ok.injEq] at hResolves
    refine ⟨long, _, hLong, by rw [run'_resolve, hCanonical], hErases,
      Calling.constructed?_command _ hLong hCanonical args, ?_⟩
    rw [← hResolves, override_eq_override_iff]
    simp only [hShort, hSpelledOut, Except.ok.injEq, exists_eq_left']

def commandSetup : Setup ⟨Empty, Empty, Empty⟩ Unit where
  catalog := Table.ofList [
    ("Savoksi\\AsennaKomento", Factory.constant .install),
    ("Oma\\Asenna", Factory.constant ⟨"Oma\\Asenna", .task .update⟩)]
  write := nofun
  invoke := nofun
  program := nofun

theorem command_constructs_iff_canonical :
    ∃ after, (register "Savoksi\\AsennaKomento" (some (.named "Oma\\Asenna"))).run
        { world := () } = some ((), after) ∧
      commandSetup.catalog.contains "asenna" = false ∧
      (resolve commandSetup "asenna" commandSuffix).run.run' after = some (.ok "Oma\\Asenna") ∧
      constructed? (Calling.answer commandSetup 2 (.command (.named "asenna") []) after).2 =
        some "Oma\\Asenna" := by
  obtain ⟨after, hRegister, hStack⟩ :=
    run_register "Savoksi\\AsennaKomento" (.named "Oma\\Asenna") { world := () }
  have hResolves : (resolve commandSetup "asenna" commandSuffix).run.run' after =
      some (.ok "Oma\\Asenna") := by
    rw [run'_resolve, active, hStack]
    rfl
  obtain ⟨long, constructed, hLong, _, _, hConstructed, hSame⟩ :=
    command_constructs_iff (by decide) hResolves 1 []
  have hForm : Name.canonicalize "asenna" commandSuffix = .ok "Savoksi\\AsennaKomento" := by rfl
  cases hForm.symm.trans hLong
  have hRegistered : after.active.registration? "Savoksi\\AsennaKomento" ≠ none := by
    rw [active, hStack]
    exact Option.some_ne_none "Oma\\Asenna"
  refine ⟨after, hRegister, by decide, hResolves, ?_⟩
  rw [hConstructed, hSame.mpr (.inl hRegistered)]

/-- The command is not looked up under the short form of its name. -/
theorem command_misses_short_name :
    commandSetup.catalog.contains "asenna" = false ∧
    ∃ after, (register "asenna" (some (.named "Oma\\Asenna"))).run { world := () } =
        some ((), after) ∧
      (resolve commandSetup "asenna" commandSuffix).run.run' after = some (.ok "Oma\\Asenna") ∧
      constructed? (Calling.answer commandSetup 2 (.command (.named "asenna") []) after).2 =
        some "Savoksi\\AsennaKomento" := by
  obtain ⟨after, hRegister, hStack⟩ :=
    run_register "asenna" (.named "Oma\\Asenna") { world := () }
  have hResolves : (resolve commandSetup "asenna" commandSuffix).run.run' after =
      some (.ok "Oma\\Asenna") := by
    rw [run'_resolve, active, hStack]
    rfl
  have hLong : Name.canonicalize "asenna" commandSuffix = .ok "Savoksi\\AsennaKomento" := by rfl
  have hCanonical : resolution commandSetup after.active "Savoksi\\AsennaKomento" "" =
      .ok "Savoksi\\AsennaKomento" := by
    rw [active, hStack]
    rfl
  exact ⟨by decide, after, hRegister, hResolves,
    Calling.constructed?_command _ hLong hCanonical []⟩

end Wiring.Runtime
