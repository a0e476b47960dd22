import Wiring.Proofs.Runtime.Active

/-! # Resolving names

A name is resolved by what the active context and the catalog hold. Registrations are kept under the
names that they were made under and looked up under two: the canonical form of a name and its short
form. So a registration takes effect for its name if that is one of these forms, and none otherwise.
-/
namespace Wiring.Runtime
set_option autoImplicit false

variable {P : Parts} {σ : Type}

/-- The class name that a name stands for in a context. -/
def resolution (setup : Setup P σ) (context : Context) (name suffix : String) :
    Except Failure String :=
  match Name.canonicalize name suffix with
  | .error failure => .error failure
  | .ok long =>
    match context.registration? long with
    | some className => .ok className
    | none =>
      match Name.shorten name suffix with
      | .error failure => .error failure
      | .ok short =>
        match context.registration? short with
        | some className => .ok className
        | none => .ok (if setup.catalog.contains name then name else long)

theorem run_resolve (setup : Setup P σ) (name suffix : String) (runtime : Runtime P σ) :
    ∃ after, (resolve setup name suffix).run.run runtime =
        some (resolution setup runtime.active name suffix, after) ∧
      (after = runtime ∨ after = runtime.withActive runtime.active) := by
  have hCurrent : (sure current).run.run (runtime.withActive runtime.active) =
      some (.ok runtime.active, runtime.withActive runtime.active) :=
    run_sure (run_current (runtime.withActive runtime.active))
  rw [resolve, resolution]
  cases Name.canonicalize name suffix with
  | error failure => exact ⟨runtime, run_bind_of_error (run_liftM _ _) _, .inl rfl⟩
  | ok long =>
    refine ⟨runtime.withActive runtime.active, ?_, .inr rfl⟩
    rw [run_bind_of_ok (run_liftM _ _), run_bind_of_ok (run_sure (run_current runtime))]
    dsimp only
    cases runtime.active.registration? long with
    | some className => rfl
    | none =>
      dsimp only
      cases Name.shorten name suffix with
      | error failure => exact run_bind_of_error (run_liftM _ _) _
      | ok short =>
        rw [run_bind_of_ok (run_liftM _ _), run_bind_of_ok hCurrent]
        dsimp only
        cases runtime.active.registration? short <;> rfl

theorem run'_resolve (setup : Setup P σ) (name suffix : String) (runtime : Runtime P σ) :
    (resolve setup name suffix).run.run' runtime =
      some (resolution setup runtime.active name suffix) := by
  obtain ⟨after, hRun, _⟩ := run_resolve setup name suffix runtime
  rw [StateT.run'_eq, hRun]
  rfl

/-- A name stands for what something is registered for, for itself or for its canonical form. -/
theorem resolution_cases {setup : Setup P σ} {context : Context} {name suffix className : String}
    (h : resolution setup context name suffix = .ok className) :
    (∃ key, context.registration? key = some className) ∨
      (className = name ∧ setup.catalog.contains name = true) ∨
      Name.canonicalize name suffix = .ok className := by
  rw [resolution] at h
  cases hLong : Name.canonicalize name suffix with
  | error failure => simp [hLong] at h
  | ok long =>
    simp only [hLong] at h
    cases hRegisteredLong : context.registration? long with
    | some target =>
      simp only [hRegisteredLong, Except.ok.injEq] at h
      exact .inl ⟨long, h ▸ hRegisteredLong⟩
    | none =>
      simp only [hRegisteredLong] at h
      cases hShort : Name.shorten name suffix with
      | error failure => simp [hShort] at h
      | ok short =>
        simp only [hShort] at h
        cases hRegisteredShort : context.registration? short with
        | some target =>
          simp only [hRegisteredShort, Except.ok.injEq] at h
          exact .inl ⟨short, h ▸ hRegisteredShort⟩
        | none =>
          simp only [hRegisteredShort, Except.ok.injEq] at h
          split at h
          · rename_i hKnown
            exact .inr (.inl ⟨h.symm, hKnown⟩)
          · exact .inr (.inr (congrArg _ h))

section Registered

variable {setup : Setup P σ} {context : Context} {name suffix long short : String}

theorem exists_resolution_eq_ok (hLong : Name.canonicalize name suffix = .ok long)
    (hShort : Name.shorten name suffix = .ok short) :
    ∃ className, resolution setup context name suffix = .ok className := by
  simp only [resolution, hLong, hShort]
  cases context.registration? long with
  | some className => exact ⟨className, rfl⟩
  | none =>
    cases context.registration? short with
    | some className => exact ⟨className, rfl⟩
    | none => exact ⟨_, rfl⟩

theorem resolution_register (hLong : Name.canonicalize name suffix = .ok long)
    (hShort : Name.shorten name suffix = .ok short) (hFree : context.registration? long = none)
    (className : String) :
    resolution setup (context.register name className) name suffix =
      if name = long ∨ name = short then .ok className
      else resolution setup context name suffix := by
  simp only [resolution, hLong, hShort, Context.registration?_register]
  by_cases hIsLong : name = long
  · simp [hIsLong]
  · by_cases hIsShort : name = short
    · subst hIsShort
      simp [hIsLong, hFree]
    · simp [hIsLong, hIsShort]

end Registered

/-- With nothing registered for its canonical form, a name that is its own canonical or its own
short form resolves to the class that it was registered for. A name of any other spelling resolves
to what it did before. -/
theorem resolve_register (setup : Setup P σ) (runtime : Runtime P σ) (target : Target P)
    {name long short : String} (hLong : Name.canonicalize name "" = .ok long)
    (hShort : Name.shorten name "" = .ok short)
    (hFree : runtime.active.registration? long = none) :
    ∃ after, (register name (some target)).run runtime = some ((), after) ∧
      (name = long ∨ name = short →
        (resolve setup name "").run.run' after = some (.ok target.className)) ∧
      (name ≠ long ∧ name ≠ short → ∃ className,
        (resolve setup name "").run.run' runtime = some (.ok className) ∧
        (resolve setup name "").run.run' after = some (.ok className)) := by
  obtain ⟨after, hRegister, hStack⟩ := run_register name target runtime
  have hActive : after.active = runtime.active.register name target.className := by
    rw [active, hStack, List.headD_cons]
  have hAfter : resolution setup after.active name "" =
      if name = long ∨ name = short then .ok target.className
      else resolution setup runtime.active name "" := by
    rw [hActive, resolution_register hLong hShort hFree]
  refine ⟨after, hRegister, ?_, ?_⟩
  · intro hName
    rw [run'_resolve, hAfter, if_pos hName]
  · rintro ⟨hNotLong, hNotShort⟩
    obtain ⟨className, hBefore⟩ : ∃ className,
        resolution setup runtime.active name "" = .ok className :=
      exists_resolution_eq_ok hLong hShort
    rw [if_neg (not_or_intro hNotLong hNotShort), hBefore] at hAfter
    refine ⟨className, ?_, ?_⟩
    · rw [run'_resolve, hBefore]
    · rw [run'_resolve, hAfter]

def bareSetup : Setup ⟨Empty, Empty, Empty⟩ Unit where
  catalog := .empty
  write := nofun
  invoke := nofun
  program := nofun

theorem resolve_register_short :
    Name.canonicalize "luo-tili" "" = .ok "Savoksi\\LuoTili" ∧
    Name.shorten "luo-tili" "" = .ok "luo-tili" ∧
    ∃ after, (register "luo-tili" (some (.fresh ⟨"Savoksi\\Suomi", .plain⟩))).run { world := () } =
        some ((), after) ∧
      (resolve bareSetup "luo-tili" "").run.run' after = some (.ok "Savoksi\\Suomi") := by
  have hLong : Name.canonicalize "luo-tili" "" = .ok "Savoksi\\LuoTili" := by rfl
  have hShort : Name.shorten "luo-tili" "" = .ok "luo-tili" := by rfl
  obtain ⟨after, hRegister, hResolve, _⟩ :=
    resolve_register bareSetup { world := () } (.fresh ⟨"Savoksi\\Suomi", .plain⟩) hLong hShort rfl
  exact ⟨hLong, hShort, after, hRegister, hResolve (.inr rfl)⟩

/-- The name is neither its canonical form nor its short form, so that its registration is not
found. -/
theorem resolve_register_underscore :
    Name.canonicalize "luo_tili" "" = .ok "Savoksi\\LuoTili" ∧
    Name.shorten "luo_tili" "" = .ok "luo-tili" ∧
    ({ world := () } : Runtime ⟨Empty, Empty, Empty⟩ Unit).active.registration?
      "Savoksi\\LuoTili" = none ∧
    ∃ after, (register "luo_tili" (some (.named "Savoksi\\Suomi"))).run { world := () } =
        some ((), after) ∧
      (resolve bareSetup "luo_tili" "").run.run' after = some (.ok "Savoksi\\LuoTili") ∧
      (resolve bareSetup "luo_tili" "").run.run' after ≠ some (.ok "Savoksi\\Suomi") := by
  obtain ⟨after, hRegister, hStack⟩ :=
    run_register "luo_tili" (.named "Savoksi\\Suomi") { world := () }
  have hResolve : (resolve bareSetup "luo_tili" "").run.run' after =
      some (.ok "Savoksi\\LuoTili") := by
    rw [run'_resolve, active, hStack]
    rfl
  refine ⟨by rfl, by rfl, rfl, after, hRegister, hResolve, ?_⟩
  rw [hResolve]
  intro hSame
  exact absurd (Except.ok.inj (Option.some.inj hSame)) (by decide)

end Wiring.Runtime
