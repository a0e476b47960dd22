import Wiring.Proofs.Name.Namespace
import Wiring.Proofs.Runtime.Asking

/-! # One shared instance for each class

Where class names stand within namespaces, what is answered for a class is the instance that was
last seeded or answered for it (`Steady`), whatever factories and programs nest in each other. So
the answers between two seedings are one instance, and a class that was answered once is not made
again for being asked for.
-/
namespace Wiring
set_option autoImplicit false

variable {P : Parts} {σ α : Type}

/-- The instance that an event leaves as the shared one of a class. -/
def Event.shared? (className : String) : Event P → Option (Instance P)
  | .answered name held => if name = className then some held else none
  | .seeded held => if held.className = className then some held else none
  | _ => none

/-- The shared instance of a class after some events, from the one before them. -/
def latest (className : String) (first : Option (Instance P)) (events : List (Event P)) :
    Option (Instance P) :=
  events.foldl (fun last event => (event.shared? className).or last) first

/-- Where an instance of a class is shared, an answer for the class is that instance, and asking for
it is answered at once. -/
def Event.Fits (className : String) (last : Option (Instance P)) (rest : List (Event P)) :
    Event P → Prop
  | .answered name held => name = className → ∀ known ∈ last, held = known
  | .sought name => name = className →
      ∀ known ∈ last, rest.head? = some (.answered className known)
  | _ => True

/-- Each event fits the instance that the events before it leave shared. -/
def Steady (className : String) : Option (Instance P) → List (Event P) → Prop
  | _, [] => True
  | last, event :: rest =>
    event.Fits className last rest ∧ Steady className ((event.shared? className).or last) rest

section Events

variable {className : String} {last : Option (Instance P)} {known held : Instance P}
variable {first second rest : List (Event P)}

theorem latest_append (className : String) (last : Option (Instance P))
    (first second : List (Event P)) :
    latest className last (first ++ second) =
      latest className (latest className last first) second :=
  List.foldl_append

theorem exists_latest (className : String) (known : Instance P) (events : List (Event P)) :
    ∃ held, latest className (some known) events = some held := by
  induction events generalizing known with
  | nil => exact ⟨known, rfl⟩
  | cons event rest ih =>
    cases hShared : event.shared? className with
    | none => simpa [latest, hShared] using ih known
    | some held => simpa [latest, hShared] using ih held

theorem steady_append (hFirst : Steady className last first)
    (hSecond : Steady className (latest className last first) second) :
    Steady className last (first ++ second) := by
  induction first generalizing last with
  | nil => exact hSecond
  | cons event rest ih =>
    rw [List.cons_append]
    refine ⟨?_, ih hFirst.2 hSecond⟩
    have hFits := hFirst.1
    cases event with
    | sought name =>
      intro hClass known hKnown
      have hHead := hFits hClass known hKnown
      rw [List.head?_append, hHead, Option.some_or]
    | _ => exact hFits

theorem steady_of_append (h : Steady className last (first ++ second)) :
    Steady className (latest className last first) second := by
  induction first generalizing last with
  | nil => exact h
  | cons event rest ih => exact ih h.2

/-- With no seeding of the class between, the next answer for it is the instance that is shared. -/
theorem eq_of_steady (h : Steady className (some known) (first ++ .answered className held :: rest))
    (hUnseeded : ∀ seeded, .seeded seeded ∈ first → seeded.className ≠ className) :
    held = known := by
  induction first with
  | nil => exact h.1 rfl known rfl
  | cons event between ih =>
    have hKept : (event.shared? className).or (some known) = some known := by
      cases event with
      | answered name found =>
        rw [Event.shared?]
        split
        · rename_i hClass
          rw [h.1 hClass known rfl, Option.some_or]
        · rfl
      | seeded seeded =>
        have hOther := hUnseeded seeded List.mem_cons_self
        rw [Event.shared?, if_neg hOther, Option.none_or]
      | _ => rfl
    have hRest := h.2
    rw [hKept] at hRest
    exact ih hRest fun seeded hMem => hUnseeded seeded (List.mem_cons_of_mem event hMem)

end Events

/-- Instances are shared only under names within a namespace. -/
def Runtime.SharesInNamespaces (runtime : Runtime P σ) : Prop :=
  ∀ className held, runtime.singletons.get? className = some held → Name.HasNamespace className

/-- Registrations lead to names within a namespace, and so are the class names of instances that
are seeded. -/
structure Moment.InNamespaces (moment : Moment P σ) : Prop where
  registered : ∀ context ∈ moment.runtime.stack, ∀ name className,
    context.registration? name = some className → Name.HasNamespace className
  seeded : ∀ held, moment.event = .seeded held → Name.HasNamespace held.className

theorem hasNamespace_of_resolution {setup : Setup P σ} {context : Context}
    {name suffix className : String}
    (hCatalog : ∀ key ∈ setup.catalog.keys, Name.HasNamespace key)
    (hRegistered : ∀ key target, context.registration? key = some target →
      Name.HasNamespace target)
    (h : Runtime.resolution setup context name suffix = .ok className) :
    Name.HasNamespace className := by
  rcases Runtime.resolution_cases h with ⟨key, hKey⟩ | ⟨rfl, hKnown⟩ | hLong
  · exact hRegistered key className hKey
  · exact hCatalog className ((setup.catalog.contains_iff className).mp hKnown)
  · exact Name.hasNamespace_of_canonicalize hLong

theorem Moment.InNamespaces.active {moment : Moment P σ} (h : moment.InNamespaces)
    (key target : String) (hTarget : moment.runtime.active.registration? key = some target) :
    Name.HasNamespace target := by
  cases hStack : moment.runtime.stack with
  | nil =>
    rw [Runtime.active, hStack] at hTarget
    cases hTarget
  | cons context below =>
    rw [Runtime.active, hStack] at hTarget
    exact h.registered context (hStack ▸ List.mem_cons_self) key target hTarget

/-- What is shared after a run is what its events say, and the events are steady. -/
structure Accounted (before : Runtime P σ) (moments : List (Moment P σ))
    (after : Option (Runtime P σ)) : Prop where
  steady : ∀ className,
    Steady className (before.singletons.get? className) (moments.map (·.event))
  inNamespaces : ∀ runtime ∈ after, runtime.SharesInNamespaces
  shared : ∀ runtime ∈ after, ∀ className, runtime.singletons.get? className =
    latest className (before.singletons.get? className) (moments.map (·.event))

def sharing : Law P σ where
  rel before moments after :=
    before.SharesInNamespaces → (∀ moment ∈ moments, moment.InNamespaces) →
      Accounted before moments after
  refl runtime hStart _ := ⟨fun _ => trivial, by rintro _ ⟨⟩; exact hStart, by rintro _ ⟨⟩ _; rfl⟩
  trans {before between after first second} hFirst hSecond hStart hMoments := by
    obtain ⟨hFirstMoments, hSecondMoments⟩ := List.forall_mem_append.mp hMoments
    have hBefore := hFirst hStart hFirstMoments
    have hBetween := hSecond (hBefore.inNamespaces between rfl) hSecondMoments
    have hShared := hBefore.shared between rfl
    refine ⟨fun className => ?_, hBetween.inNamespaces, fun runtime hAfter className => ?_⟩
    · rw [List.map_append]
      refine steady_append (hBefore.steady className) ?_
      rw [← hShared className]
      exact hBetween.steady className
    · rw [List.map_append, latest_append, ← hShared className]
      exact hBetween.shared runtime hAfter className

section Sharing

open Traced Watched Law

theorem sharing_quiet {act : Run P σ α} (hSame : Runtime.Keeping act) :
    sharing.Obeys (quiet act) := by
  refine obeys_quiet (fun _ _ _ => ⟨fun _ => trivial, nofun, nofun⟩) ?_
  intro runtime value after hRun hStart _
  have hShared : after.singletons = runtime.singletons := hSame runtime value after hRun
  refine ⟨fun _ => trivial, ?_, ?_⟩
  · rintro _ ⟨⟩ className held hHeld
    rw [hShared] at hHeld
    exact hStart className held hHeld
  · rintro _ ⟨⟩ className
    rw [hShared]
    rfl

theorem sharing_note {event : Event P} (hFits : ∀ className last, event.Fits className last [])
    (hShared : ∀ className, event.shared? className = none) :
    (sharing : Law P σ).Obeys (note event) := by
  intro runtime hStart _
  refine ⟨fun className => ⟨hFits className _, trivial⟩, by rintro _ ⟨⟩; exact hStart, ?_⟩
  rintro _ ⟨⟩ className
  show _ = (event.shared? className).or _
  rw [hShared className, Option.none_or]

theorem sharing_plant (held : Instance P) : (sharing : Law P σ).Obeys (plant held) := by
  intro runtime hStart hMoments
  have hName : Name.HasNamespace held.className :=
    (hMoments _ List.mem_cons_self).seeded held rfl
  refine ⟨fun _ => ⟨trivial, trivial⟩, ?_, ?_⟩
  · rintro _ ⟨⟩
    exact Runtime.forall_withShared hStart hName
  · rintro _ ⟨⟩ className
    show _ = (Event.shared? className (.seeded held)).or _
    rw [Event.shared?]
    refine (runtime.get?_withShared held.className className held).trans ?_
    split
    · rw [Option.some_or]
    · rw [Option.none_or]

theorem accounted_of_shared {runtime : Runtime P σ} {className : String} {held : Instance P}
    (hStart : runtime.SharesInNamespaces)
    (h : runtime.singletons.get? className = some held) :
    Accounted runtime [⟨.answered className held, runtime⟩] (some runtime) := by
  refine ⟨fun other => ⟨?_, trivial⟩, by rintro _ ⟨⟩; exact hStart, ?_⟩
  · rintro rfl known hKnown
    rw [h] at hKnown
    exact Option.some.inj hKnown
  · rintro _ ⟨⟩ other
    show _ = (Event.shared? other (.answered className held)).or _
    rw [Event.shared?]
    split
    · rename_i hSame
      rw [← hSame, h, Option.some_or]
    · rw [Option.none_or]

theorem sharing_answered {runtime : Runtime P σ} {className : String} (made : Instance P)
    (hName : Name.HasNamespace className) (hNone : runtime.singletons.get? className = none) :
    sharing.rel runtime [⟨.answered className made, runtime.withShared className made⟩]
      (some (runtime.withShared className made)) := by
  intro hStart _
  refine ⟨fun other => ⟨?_, trivial⟩, ?_, ?_⟩
  · rintro rfl known hKnown
    rw [hNone] at hKnown
    cases hKnown
  · rintro _ ⟨⟩
    exact Runtime.forall_withShared hStart hName
  · rintro _ ⟨⟩ other
    show _ = (Event.shared? other (.answered className made)).or _
    rw [Event.shared?, Runtime.get?_withShared]
    split
    · rw [Option.some_or]
    · rw [Option.none_or]

theorem sharing_sought {runtime : Runtime P σ} {className : String}
    (hNone : runtime.singletons.get? className = none) :
    sharing.rel runtime [⟨.sought className, runtime⟩] (some runtime) := by
  intro hStart _
  refine ⟨fun other => ⟨?_, trivial⟩, by rintro _ ⟨⟩; exact hStart, by rintro _ ⟨⟩ _; rfl⟩
  rintro rfl known hKnown
  rw [hNone] at hKnown
  cases hKnown

theorem sharing_asking {setup : Setup P σ} {inner : {α : Type} → Script P σ α → Watched P σ α}
    (hCatalog : ∀ key ∈ setup.catalog.keys, Name.HasNamespace key) :
    sharing.Asking setup inner where
  shared {runtime className held} hShared hStart _ := by
    have hAnswered := accounted_of_shared hStart hShared
    refine ⟨fun other => ⟨?_, hAnswered.steady other⟩, hAnswered.inNamespaces, hAnswered.shared⟩
    rintro rfl known hKnown
    rw [hShared] at hKnown
    cases hKnown
    rfl
  sharedShort _ _ hShort hShared hStart _ :=
    absurd (hStart _ _ hShared) (Name.not_hasNamespace_of_shorten hShort)
  missing := sharing_sought
  sharedMeanwhile hShared hStart _ := accounted_of_shared hStart hShared
  made {runtime after name suffix className made moments} hFound hNone _ hRel hNoneAfter hStart
      hMoments := by
    have hSought := hMoments ⟨.sought className, runtime⟩ List.mem_cons_self
    have hName : Name.HasNamespace className :=
      hasNamespace_of_resolution hCatalog hSought.active hFound
    have hMade := sharing.trans (sharing_sought hNone) hRel
    exact sharing.trans hMade (sharing_answered made hName hNoneAfter) hStart hMoments

theorem sharing_watch {setup : Setup P σ}
    (hCatalog : ∀ key ∈ setup.catalog.keys, Name.HasNamespace key) (fuel : Nat)
    (script : Script P σ α) : sharing.Obeys (watch setup fuel script) :=
  Asking.obeys_watch (sharing_note (fun _ _ => trivial) fun _ => rfl)
    (fun _ => sharing_note (fun _ _ => trivial) fun _ => rfl) sharing_plant sharing_quiet
    (fun _ => sharing_asking hCatalog) fuel script

end Sharing

/-- Between two seedings of a class every asking for it is answered with one instance. Once one was
answered, a later asking is answered at once. -/
theorem Runtime.events_one_instance {setup : Setup P σ} {runtime : Runtime P σ}
    (hCatalog : ∀ key ∈ setup.catalog.keys, Name.HasNamespace key)
    (hStart : runtime.SharesInNamespaces) {fuel : Nat} {script : Script P σ α}
    (hNames : ∀ moment ∈ history setup fuel script runtime, moment.InNamespaces)
    {className : String} {first : Instance P} {earlier later : List (Event P)}
    (hFirst : events setup fuel script runtime = earlier ++ .answered className first :: later) :
    (∀ between held rest, later = between ++ .answered className held :: rest →
      (∀ seeded, .seeded seeded ∈ between → seeded.className ≠ className) → held = first) ∧
    ∀ between rest, later = between ++ .sought className :: rest →
      ∃ held, rest.head? = some (.answered className held) := by
  have hAccounted := sharing_watch hCatalog fuel script runtime hStart hNames
  have hSteady := hAccounted.steady className
  have hEvents : (Watched.watch setup fuel script runtime).2.map (·.event) =
      earlier ++ .answered className first :: later := hFirst
  rw [hEvents] at hSteady
  have hLater : Steady className (some first) later := by
    have hRest := (steady_of_append hSteady).2
    rwa [Event.shared?, if_pos rfl, Option.some_or] at hRest
  constructor
  · rintro between held rest rfl hUnseeded
    exact eq_of_steady hLater hUnseeded
  · rintro between rest rfl
    have hRest := steady_of_append hLater
    obtain ⟨held, hHeld⟩ := exists_latest className first between
    rw [hHeld] at hRest
    exact ⟨held, hRest.1 rfl held rfl⟩

def hastySetup : Setup ⟨Empty, Empty, Empty⟩ Unit where
  catalog := Table.ofList [("Savoksi\\Kieli", fun _ => do
    Script.sure (Script.perform (.register "oma" (some (.fresh ⟨"Savoksi\\Kieli", .plain⟩))))
    Script.sure (Script.perform (.instantiate ⟨"Savoksi\\Kieli", .plain⟩)))]
  write := nofun
  invoke := nofun
  program := nofun

def askTwice :
    Script ⟨Empty, Empty, Empty⟩ Unit (Except Failure (Instance ⟨Empty, Empty, Empty⟩)) := do
  let _ ← Script.get "kieli" ""
  Script.get "oma" ""

theorem Runtime.events_one_instance_hasty :
    let seeded : Instance ⟨Empty, Empty, Empty⟩ := ⟨0, "Savoksi\\Kieli", .plain⟩
    let later : List (Event ⟨Empty, Empty, Empty⟩) :=
      [.asked, .sought "Savoksi\\Kieli", .answered "Savoksi\\Kieli" seeded]
    (∀ key ∈ hastySetup.catalog.keys, Name.HasNamespace key) ∧
    SharesInNamespaces ({ world := () } : Runtime ⟨Empty, Empty, Empty⟩ Unit) ∧
    (∀ moment ∈ history hastySetup 2 askTwice { world := () }, moment.InNamespaces) ∧
    events hastySetup 2 askTwice { world := () } =
      [.asked, .sought "Savoksi\\Kieli", .started "Savoksi\\Kieli", .asked, .seeded seeded,
        .asked] ++ .answered "Savoksi\\Kieli" seeded :: later ∧
    (∀ between held rest, later = between ++ .answered "Savoksi\\Kieli" held :: rest →
      (∀ other, .seeded other ∈ between → other.className ≠ "Savoksi\\Kieli") → held = seeded) ∧
    ∀ between rest, later = between ++ .sought "Savoksi\\Kieli" :: rest →
      ∃ held, rest.head? = some (.answered "Savoksi\\Kieli" held) := by
  intro seeded later
  have hCatalog : ∀ key ∈ hastySetup.catalog.keys, Name.HasNamespace key := by decide
  have hStart : SharesInNamespaces ({ world := () } : Runtime ⟨Empty, Empty, Empty⟩ Unit) := nofun
  have hEvents : events hastySetup 2 askTwice { world := () } =
      [.asked, .sought "Savoksi\\Kieli", .started "Savoksi\\Kieli", .asked, .seeded seeded,
        .asked] ++ .answered "Savoksi\\Kieli" seeded :: later := rfl
  have hEntries : ∀ moment ∈ history hastySetup 2 askTwice { world := () },
      ∀ context ∈ moment.runtime.stack, ∀ entry ∈ context.registrations.entries,
        Name.HasNamespace entry.2 := by decide
  have hNames : ∀ moment ∈ history hastySetup 2 askTwice { world := () },
      moment.InNamespaces := by
    intro moment hMem
    refine ⟨fun context hContext name className hTarget => ?_, fun held hHeld => ?_⟩
    · exact hEntries moment hMem context hContext _ (Entries.mem_of_get? hTarget)
    · have hEvent : moment.event ∈ events hastySetup 2 askTwice { world := () } :=
        List.mem_map_of_mem hMem
      rw [hEvents, hHeld] at hEvent
      have hSame : held = seeded := by simpa [later] using hEvent
      rw [hSame]
      decide
  exact ⟨hCatalog, hStart, hNames, hEvents, events_one_instance hCatalog hStart hNames hEvents⟩

end Wiring
