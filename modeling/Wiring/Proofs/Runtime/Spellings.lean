import Wiring.Proofs.Name.Accepted
import Wiring.Proofs.Runtime.Constructed

/-! # Spellings of a name

Names are spelled in many ways: with another separator, with or without the default namespace, with
or without the suffix. Spellings of one canonical form share what is registered for that form, but
each is looked up under a short form of its own (`resolve_eq_resolve_iff`). Without such a form a
name does not even resolve to its canonical form (`resolve_eq_ok_iff`).
-/
namespace Wiring.Runtime
set_option autoImplicit false

variable {P : Parts} {σ : Type} {setup : Setup P σ}

/-- The class registered for a canonical form, else for a short form, else the canonical form. -/
def override (context : Context) (long short : String) : String :=
  ((context.registration? long).or (context.registration? short)).getD long

theorem registration?_empty (name : String) : ({} : Context).registration? name = none := rfl

theorem active_withActive (runtime : Runtime P σ) (context : Context) :
    (runtime.withActive context).active = context := rfl

structure Free (context : Context) (name suffix : String) : Prop where
  long {form : String} : Name.canonicalize name suffix = .ok form →
    context.registration? form = none
  short {form : String} : Name.shorten name suffix = .ok form →
    context.registration? form = none

section Forms

variable {context : Context} {name suffix long short : String}

theorem resolution_of_registration {className : String}
    (hLong : Name.canonicalize name suffix = .ok long)
    (hRegistered : context.registration? long = some className) :
    resolution setup context name suffix = .ok className := by
  simp only [resolution, hLong, hRegistered]

/-- A name that resolves has a canonical form, and a short form unless something is registered for
the canonical one. -/
theorem forms_of_resolution {className : String}
    (h : resolution setup context name suffix = .ok className) :
    ∃ long, Name.canonicalize name suffix = .ok long ∧
      (context.registration? long = some className ∨
        context.registration? long = none ∧ ∃ short, Name.shorten name suffix = .ok short) := by
  rw [resolution] at h
  cases hLong : Name.canonicalize name suffix with
  | error failure =>
    rw [hLong] at h
    cases h
  | ok long =>
    refine ⟨long, rfl, ?_⟩
    cases hRegistered : context.registration? long with
    | some target =>
      simp only [hLong, hRegistered] at h
      exact .inl (congrArg some (Except.ok.inj h))
    | none =>
      refine .inr ⟨rfl, ?_⟩
      cases hShort : Name.shorten name suffix with
      | error failure =>
        simp only [hLong, hRegistered, hShort] at h
        cases h
      | ok short => exact ⟨short, rfl⟩

theorem resolution_eq_override (hLong : Name.canonicalize name suffix = .ok long)
    (hShort : Name.shorten name suffix = .ok short)
    (hDefault : setup.catalog.contains name = false ∨ name = long) :
    resolution setup context name suffix = .ok (override context long short) := by
  have hElse : (if setup.catalog.contains name then name else long) = long := by
    rcases hDefault with hNew | rfl
    · rw [hNew]
      rfl
    · exact ite_self _
  simp only [resolution, override, hLong, hShort, hElse]
  cases context.registration? long with
  | some className => rfl
  | none => cases context.registration? short <;> rfl

theorem resolution_of_free (hLong : Name.canonicalize name suffix = .ok long)
    (hShort : Name.shorten name suffix = .ok short) (hFree : Free context name suffix)
    (hNew : setup.catalog.contains name = false) :
    resolution setup context name suffix = .ok long := by
  rw [resolution_eq_override hLong hShort (.inl hNew), override, hFree.long hLong, hFree.short hShort]
  rfl

theorem override_eq_override_iff (other : String) :
    override context long short = override context long other ↔
      context.registration? long ≠ none ∨
        (context.registration? short).getD long = (context.registration? other).getD long := by
  rw [override, override]
  cases context.registration? long with
  | some className => simp
  | none => simp

end Forms

/-- Two names of one canonical form, none of them in the catalog, resolve to the same class if
something is registered for the canonical form, or if what is registered for their two short forms,
with the canonical form in place of what is not, is the same; otherwise they do not. So they always
resolve alike if their short forms are the same, and only then. -/
theorem resolve_eq_resolve_iff {first second suffix long firstShort secondShort : String}
    (hFirst : Name.canonicalize first suffix = .ok long)
    (hSecond : Name.canonicalize second suffix = .ok long)
    (hFirstShort : Name.shorten first suffix = .ok firstShort)
    (hSecondShort : Name.shorten second suffix = .ok secondShort)
    (hFirstNew : setup.catalog.contains first = false)
    (hSecondNew : setup.catalog.contains second = false) (runtime : Runtime P σ) :
    (∃ firstClass secondClass,
      (resolve setup first suffix).run.run' runtime = some (.ok firstClass) ∧
      (resolve setup second suffix).run.run' runtime = some (.ok secondClass) ∧
      (firstClass = secondClass ↔ runtime.active.registration? long ≠ none ∨
        (runtime.active.registration? firstShort).getD long =
          (runtime.active.registration? secondShort).getD long)) ∧
    ((∀ other : Runtime P σ, (resolve setup first suffix).run.run' other =
        (resolve setup second suffix).run.run' other) ↔ firstShort = secondShort) := by
  have hFirstRun (other : Runtime P σ) : (resolve setup first suffix).run.run' other =
      some (.ok (override other.active long firstShort)) := by
    rw [run'_resolve, resolution_eq_override hFirst hFirstShort (.inl hFirstNew)]
  have hSecondRun (other : Runtime P σ) : (resolve setup second suffix).run.run' other =
      some (.ok (override other.active long secondShort)) := by
    rw [run'_resolve, resolution_eq_override hSecond hSecondShort (.inl hSecondNew)]
  constructor
  · exact ⟨_, _, hFirstRun runtime, hSecondRun runtime, override_eq_override_iff secondShort⟩
  · constructor
    · intro hAlike
      have hSpace : Name.HasNamespace long := Name.hasNamespace_of_canonicalize hFirst
      have hNotLong : firstShort ≠ long := by
        rintro rfl
        exact Name.not_hasNamespace_of_shorten hFirstShort hSpace
      have hNonempty : "" ≠ long := by
        rintro rfl
        exact absurd hSpace (by decide)
      have hApart := hAlike (runtime.withActive (({} : Context).register firstShort ""))
      rw [hFirstRun, hSecondRun, active_withActive] at hApart
      have hSame := (override_eq_override_iff _).mp (Except.ok.inj (Option.some.inj hApart))
      simp only [Context.registration?_register, registration?_empty, hNotLong, if_false, if_true,
        Option.getD_some, ne_eq, not_true_eq_false, false_or] at hSame
      split at hSame
      · assumption
      · exact absurd hSame hNonempty
    · rintro rfl other
      rw [hFirstRun, hSecondRun]

theorem resolve_eq_resolve_iff_joiners :
    let runtime : Runtime ⟨Empty, Empty, Empty⟩ Unit := { world := () }
    Name.canonicalize "luo-tili" "" = .ok "Savoksi\\LuoTili" ∧
    Name.canonicalize "luo_tili" "" = .ok "Savoksi\\LuoTili" ∧
    Name.shorten "luo-tili" "" = .ok "luo-tili" ∧ Name.shorten "luo_tili" "" = .ok "luo-tili" ∧
    bareSetup.catalog.contains "luo-tili" = false ∧
    bareSetup.catalog.contains "luo_tili" = false ∧
    (∃ firstClass secondClass,
      (resolve bareSetup "luo-tili" "").run.run' runtime = some (.ok firstClass) ∧
      (resolve bareSetup "luo_tili" "").run.run' runtime = some (.ok secondClass) ∧
      firstClass = secondClass) ∧
    ∀ other, (resolve bareSetup "luo-tili" "").run.run' other =
      (resolve bareSetup "luo_tili" "").run.run' other := by
  intro runtime
  have hFirst : Name.canonicalize "luo-tili" "" = .ok "Savoksi\\LuoTili" := by rfl
  have hSecond : Name.canonicalize "luo_tili" "" = .ok "Savoksi\\LuoTili" := by rfl
  have hFirstShort : Name.shorten "luo-tili" "" = .ok "luo-tili" := by rfl
  have hSecondShort : Name.shorten "luo_tili" "" = .ok "luo-tili" := by rfl
  have hFirstNew : bareSetup.catalog.contains "luo-tili" = false := rfl
  have hSecondNew : bareSetup.catalog.contains "luo_tili" = false := rfl
  obtain ⟨⟨firstClass, secondClass, hFirstRun, hSecondRun, hSame⟩, hAlike⟩ :=
    resolve_eq_resolve_iff hFirst hSecond hFirstShort hSecondShort hFirstNew hSecondNew runtime
  exact ⟨hFirst, hSecond, hFirstShort, hSecondShort, hFirstNew, hSecondNew,
    ⟨firstClass, secondClass, hFirstRun, hSecondRun, hSame.mpr (.inr rfl)⟩, hAlike.mpr rfl⟩

/-- The name that spells its suffix out has another short form, for which nothing is registered. -/
theorem resolve_spelled_out_suffix :
    Name.canonicalize "asenna" "Komento" = .ok "Savoksi\\AsennaKomento" ∧
    Name.canonicalize "asenna-komento" "Komento" = .ok "Savoksi\\AsennaKomento" ∧
    Name.shorten "asenna" "Komento" = .ok "asenna" ∧
    Name.shorten "asenna-komento" "Komento" = .ok "asenna-komento" ∧
    bareSetup.catalog.contains "asenna" = false ∧
    bareSetup.catalog.contains "asenna-komento" = false ∧
    ∃ after, (register "asenna" (some (.named "Oma\\Asenna"))).run { world := () } =
        some ((), after) ∧
      (resolve bareSetup "asenna" "Komento").run.run' after = some (.ok "Oma\\Asenna") ∧
      (resolve bareSetup "asenna-komento" "Komento").run.run' after =
        some (.ok "Savoksi\\AsennaKomento") ∧
      (resolve bareSetup "asenna" "Komento").run.run' after ≠
        (resolve bareSetup "asenna-komento" "Komento").run.run' after := by
  obtain ⟨after, hRegister, hStack⟩ :=
    run_register "asenna" (.named "Oma\\Asenna") { world := () }
  have hFirst : (resolve bareSetup "asenna" "Komento").run.run' after =
      some (.ok "Oma\\Asenna") := by
    rw [run'_resolve, active, hStack]
    rfl
  have hSecond : (resolve bareSetup "asenna-komento" "Komento").run.run' after =
      some (.ok "Savoksi\\AsennaKomento") := by
    rw [run'_resolve, active, hStack]
    rfl
  refine ⟨by rfl, by rfl, by rfl, by rfl, rfl, rfl, after, hRegister, hFirst, hSecond, ?_⟩
  rw [hFirst, hSecond]
  intro hSame
  exact absurd (Except.ok.inj (Option.some.inj hSame)) (by decide)

/-- A name resolves if it has a canonical form and either something is registered for that or no
word of the name begins with a digit. If nothing is registered for the name, which is not in the
catalog itself, and no word begins with a digit, then it resolves to its canonical form; this is the
class that is created for the name, and made for the name unless an instance is shared. -/
theorem resolve_eq_ok_iff (setup : Setup P σ) (runtime : Runtime P σ) (name suffix : String) :
    ((∃ className, (resolve setup name suffix).run.run' runtime = some (.ok className)) ↔
      ∃ long, Name.canonicalize name suffix = .ok long ∧
        (runtime.active.registration? long ≠ none ∨
          ¬ Name.HasDigitWord false (Name.stem name suffix))) ∧
    ∀ long, Name.canonicalize name suffix = .ok long →
      ¬ Name.HasDigitWord false (Name.stem name suffix) → Free runtime.active name suffix →
      setup.catalog.contains name = false →
      (resolve setup name suffix).run.run' runtime = some (.ok long) ∧
      ∀ fuel, (suffix = "" → ∀ args, constructed?
          (Calling.answer setup (fuel + 1) (.create name args) runtime).2 = some long) ∧
        (runtime.singletons.get? long = none →
          (∀ short, Name.shorten name suffix = .ok short → runtime.singletons.get? short = none) →
          constructed? (Calling.answer setup (fuel + 1) (.get name suffix) runtime).2 =
            some long) := by
  constructor
  · simp only [run'_resolve, Option.some.injEq]
    constructor
    · rintro ⟨className, hResolves⟩
      obtain ⟨long, hLong, hRegistered | ⟨_, hShort⟩⟩ := forms_of_resolution hResolves
      · exact ⟨long, hLong, .inl (hRegistered ▸ Option.some_ne_none className)⟩
      · exact ⟨long, hLong, .inr ((Name.exists_shorten_eq_ok_iff hLong).mp hShort)⟩
    · rintro ⟨long, hLong, hRegistered | hWords⟩
      · obtain ⟨className, hClass⟩ := Option.ne_none_iff_exists'.mp hRegistered
        exact ⟨className, resolution_of_registration hLong hClass⟩
      · obtain ⟨short, hShort⟩ := (Name.exists_shorten_eq_ok_iff hLong).mpr hWords
        exact exists_resolution_eq_ok hLong hShort
  · intro long hLong hWords hFree hNew
    obtain ⟨short, hShort⟩ := (Name.exists_shorten_eq_ok_iff hLong).mpr hWords
    have hResolution : resolution setup runtime.active name suffix = .ok long :=
      resolution_of_free hLong hShort hFree hNew
    refine ⟨by rw [run'_resolve, hResolution], fun fuel => ⟨?_, ?_⟩⟩
    · rintro rfl args
      exact Calling.constructed?_create _ hResolution args
    · intro hNone hShortNone
      exact Calling.constructed?_obtain _ hResolution hShort hNone (hShortNone short hShort)

theorem resolve_eq_ok_iff_suffixed :
    let runtime : Runtime ⟨Empty, Empty, Empty⟩ Unit := { world := () }
    Name.canonicalize "oma:asenna" "Komento" = .ok "Oma\\AsennaKomento" ∧
    ¬ Name.HasDigitWord false (Name.stem "oma:asenna" "Komento") ∧
    Free runtime.active "oma:asenna" "Komento" ∧
    bareSetup.catalog.contains "oma:asenna" = false ∧
    (resolve bareSetup "oma:asenna" "Komento").run.run' runtime =
      some (.ok "Oma\\AsennaKomento") ∧
    constructed? (Calling.answer bareSetup 1 (.get "oma:asenna" "Komento") runtime).2 =
      some "Oma\\AsennaKomento" := by
  intro runtime
  have hLong : Name.canonicalize "oma:asenna" "Komento" = .ok "Oma\\AsennaKomento" := by rfl
  have hWords : ¬ Name.HasDigitWord false (Name.stem "oma:asenna" "Komento") :=
    (Name.exists_shorten_eq_ok_iff hLong).mp ⟨"oma:asenna", by rfl⟩
  have hFree : Free runtime.active "oma:asenna" "Komento" := ⟨fun _ => rfl, fun _ => rfl⟩
  obtain ⟨hResolves, hConstructs⟩ :=
    (resolve_eq_ok_iff bareSetup runtime "oma:asenna" "Komento").2 _ hLong hWords hFree rfl
  exact ⟨hLong, hWords, hFree, rfl, hResolves, (hConstructs 0).2 rfl fun _ _ => rfl⟩

def digitSetup : Setup ⟨Empty, Empty, Empty⟩ Unit where
  catalog := Table.ofList [("Savoksi\\2fa", Factory.constant ⟨"Savoksi\\2fa", .plain⟩)]
  write := nofun
  invoke := nofun
  program := nofun

/-- Neither a name with this canonical form nor that form itself, which the catalog knows, resolves:
there is no short form that a registration could be looked up under. -/
theorem resolve_digit_word :
    let runtime : Runtime ⟨Empty, Empty, Empty⟩ Unit := { world := () }
    digitSetup.catalog.contains "Savoksi\\2fa" = true ∧
    Name.canonicalize "2fa" "" = .ok "Savoksi\\2fa" ∧
    Name.canonicalize "Savoksi\\2fa" "" = .ok "Savoksi\\2fa" ∧
    (resolve digitSetup "2fa" "").run.run' runtime = some (.error (.invalidName "2fa")) ∧
    (resolve digitSetup "Savoksi\\2fa" "").run.run' runtime =
      some (.error (.invalidName "Savoksi\\2fa")) := by
  refine ⟨by decide, by rfl, by rfl, ?_, ?_⟩
  · rw [run'_resolve]
    rfl
  · rw [run'_resolve]
    rfl

end Wiring.Runtime
