import Wiring.Proofs.Runtime.Standing

/-! # What comes of creating a component

In a wired setup each factory requests the classes that its class is wired to, one after the other,
and fails if one of them fails. A chain of requests is as long as factories nest at its last one.
So creating a component ends whatever the wiring is, cyclic or not: it fails with the first request
in depth-first order that nests too deep or asks for a class that is not in the catalog.
-/
namespace Wiring
set_option autoImplicit false

variable {P : Parts} {σ α : Type}

/-- The script creates components of the classes in order, whatever else it asks for aside, fails
with the first that fails and yields an instance otherwise. -/
inductive Script.Creates :
    List String → Script P σ (Except Failure (Instance P)) → Prop
  | yield (held : Instance P) : Creates [] (.done (.ok held))
  | aside {names : List String} (request : Request P σ)
      (next : request.Reply → Script P σ (Except Failure (Instance P))) : request.Aside →
    (∀ reply, Creates names (next reply)) → Creates names (.ask request next)
  | create {names : List String} (name : String) (args : List Value)
      (next : Except Failure (Instance P) → Script P σ (Except Failure (Instance P))) :
    (∀ held, Creates names (next (.ok held))) →
    (∀ failure, next (.error failure) = .done (.error failure)) →
      Creates (name :: names) (.ask (.create name args) next)

/-- Each factory creates components of the classes that its class is wired to. -/
def Setup.Wired (setup : Setup P σ) (wiring : String → List String) : Prop :=
  ∀ className factory, setup.catalog.get? className = some factory →
    ∀ args, Script.Creates (wiring className) (factory args).run

section Chains

variable (wiring : String → List String)

/-- A chain of requests, each made by the factory of the one before. -/
inductive RequestChain : String → List String → Prop
  | single (className : String) : RequestChain className [className]
  | cons {className requested : String} {chain : List String} : requested ∈ wiring className →
    RequestChain requested chain → RequestChain className (className :: chain)

/-- The chains from a class in the order in which their last requests are made, each before those
that go on from it. Factories nest so deep in them as there is room. -/
def requestChains : (room : Nat) → (className : String) → List (List String)
  | 0, className => [[className]]
  | room + 1, className =>
    [className] :: ((wiring className).flatMap (requestChains room)).map (className :: ·)

variable {wiring}

theorem mem_requestChains_iff {room : Nat} {className : String} {chain : List String} :
    chain ∈ requestChains wiring room className ↔
      RequestChain wiring className chain ∧ chain.length ≤ room + 1 := by
  induction room generalizing className chain with
  | zero =>
    constructor
    · intro h
      cases List.mem_singleton.mp h
      exact ⟨.single className, Nat.le_refl 1⟩
    · rintro ⟨h, hLength⟩
      cases h with
      | single => exact List.mem_singleton.mpr rfl
      | cons hRequested hRest =>
        cases hRest <;> simp at hLength
  | succ room ih =>
    rw [requestChains, List.mem_cons, List.mem_map]
    constructor
    · rintro (rfl | ⟨rest, hRest, rfl⟩)
      · exact ⟨.single className, by simp⟩
      · obtain ⟨requested, hRequested, hMem⟩ := List.mem_flatMap.mp hRest
        obtain ⟨hChain, hLength⟩ := ih.mp hMem
        exact ⟨.cons hRequested hChain, Nat.succ_le_succ hLength⟩
    · rintro ⟨h, hLength⟩
      cases h with
      | single => exact .inl rfl
      | cons hRequested hRest =>
        refine .inr ⟨_, List.mem_flatMap.mpr ⟨_, hRequested, ?_⟩, rfl⟩
        exact ih.mpr ⟨hRest, Nat.le_of_succ_le_succ hLength⟩

end Chains

/-- Why the last request of a chain fails by itself, if it does: for want of room, or else for want
of the class. -/
def Setup.fault? (setup : Setup P σ) (room : Nat) (chain : List String) : Option Failure :=
  match chain.getLast? with
  | none => none
  | some className =>
    if room < chain.length then some (.recursionLimit className setup.maxDepth)
    else if setup.catalog.contains className then none
    else some (.unknownComponent className)

def Setup.firstFault? (setup : Setup P σ) (wiring : String → List String) (room : Nat)
    (className : String) : Option Failure :=
  (requestChains wiring room className).findSome? (setup.fault? room)

section Faults

variable {setup : Setup P σ} {wiring : String → List String} {room : Nat} {className : String}

theorem RequestChain.ne_nil {chain : List String} (h : RequestChain wiring className chain) :
    chain ≠ [] := by
  cases h <;> exact List.cons_ne_nil _ _

theorem fault?_cons {chain : List String} (h : chain ≠ []) :
    setup.fault? (room + 1) (className :: chain) = setup.fault? room chain := by
  obtain ⟨next, rest, rfl⟩ := List.exists_cons_of_ne_nil h
  rw [Setup.fault?, Setup.fault?, List.getLast?_cons_cons]
  simp

theorem firstFault?_zero : setup.firstFault? wiring 0 className =
    some (.recursionLimit className setup.maxDepth) := rfl

theorem firstFault?_of_not_contains (h : setup.catalog.contains className = false) :
    setup.firstFault? wiring (room + 1) className = some (.unknownComponent className) := by
  simp [Setup.firstFault?, requestChains, Setup.fault?, h]

theorem findSome?_congr {β γ : Type} {first second : β → Option γ} {items : List β}
    (h : ∀ item ∈ items, first item = second item) :
    items.findSome? first = items.findSome? second := by
  induction items with
  | nil => rfl
  | cons item rest ih =>
    obtain ⟨hItem, hRest⟩ := List.forall_mem_cons.mp h
    rw [List.findSome?_cons, List.findSome?_cons, hItem, ih hRest]

theorem findSome?_flatMap {β γ δ : Type} (found : γ → Option δ) (part : β → List γ)
    (items : List β) :
    (items.flatMap part).findSome? found =
      items.findSome? fun item => (part item).findSome? found := by
  induction items with
  | nil => rfl
  | cons item rest ih =>
    rw [List.flatMap_cons, List.findSome?_append, List.findSome?_cons, ih]
    cases (part item).findSome? found <;> rfl

theorem firstFault?_of_contains (h : setup.catalog.contains className = true) :
    setup.firstFault? wiring (room + 1) className =
      (wiring className).findSome? (setup.firstFault? wiring room) := by
  have hHere : setup.fault? (room + 1) [className] = none := by simp [Setup.fault?, h]
  rw [Setup.firstFault?, requestChains, List.findSome?_cons, hHere, List.findSome?_map,
    findSome?_flatMap]
  refine findSome?_congr fun requested _ => findSome?_congr fun chain hChain => ?_
  exact fault?_cons (mem_requestChains_iff.mp hChain).1.ne_nil

theorem of_firstFault?_eq_none (h : setup.firstFault? wiring room className = none) :
    ∃ below, room = below + 1 ∧ setup.catalog.contains className = true ∧
      ∀ requested ∈ wiring className, setup.firstFault? wiring below requested = none := by
  cases room with
  | zero =>
    rw [firstFault?_zero] at h
    cases h
  | succ room =>
    cases hKnown : setup.catalog.contains className with
    | false =>
      rw [firstFault?_of_not_contains hKnown] at h
      cases h
    | true =>
      rw [firstFault?_of_contains hKnown] at h
      exact ⟨room, rfl, rfl, List.findSome?_eq_none_iff.mp h⟩

theorem firstFault?_eq_none_iff : setup.firstFault? wiring room className = none ↔
    ∀ chain, RequestChain wiring className chain →
      chain.length ≤ room ∧ ∀ other ∈ chain, setup.catalog.contains other = true := by
  constructor
  · intro h chain hChain
    induction hChain generalizing room with
    | single className =>
      obtain ⟨below, rfl, hKnown, _⟩ := of_firstFault?_eq_none h
      exact ⟨by simp, List.forall_mem_singleton.mpr hKnown⟩
    | cons hRequested _ ih =>
      obtain ⟨below, rfl, hKnown, hBelow⟩ := of_firstFault?_eq_none h
      obtain ⟨hLength, hRest⟩ := ih (hBelow _ hRequested)
      exact ⟨Nat.succ_le_succ hLength, List.forall_mem_cons.mpr ⟨hKnown, hRest⟩⟩
  · intro h
    refine List.findSome?_eq_none_iff.mpr fun chain hMem => ?_
    have hChain := (mem_requestChains_iff.mp hMem).1
    obtain ⟨hLength, hKnown⟩ := h chain hChain
    have hContains := hKnown _ (List.getLast_mem hChain.ne_nil)
    rw [Setup.fault?, List.getLast?_eq_some_getLast hChain.ne_nil]
    simp [Nat.not_lt.mpr hLength, hContains]

end Faults

namespace Runtime

/-- Factories nest as deep as before, and names resolve to the same classes. -/
structure Stands (before after : Runtime P σ) : Prop where
  depth : after.depth = before.depth
  registrations : after.active.registrations = before.active.registrations

theorem Stands.refl (runtime : Runtime P σ) : Stands runtime runtime := ⟨rfl, rfl⟩

theorem Stands.trans {before between after : Runtime P σ} (hFirst : Stands before between)
    (hSecond : Stands between after) : Stands before after :=
  ⟨hSecond.depth.trans hFirst.depth, hSecond.registrations.trans hFirst.registrations⟩

/-- What comes of a request is its first fault, an instance if there is none. -/
def Settled (fault : Option Failure) (result : Except Failure (Instance P)) : Prop :=
  match fault with
  | none => ∃ held, result = .ok held
  | some failure => result = .error failure

/-- Classes that stand for themselves, along with all that their chains of requests lead to. -/
def SelfNamed (setup : Setup P σ) (wiring : String → List String) (runtime : Runtime P σ)
    (className : String) : Prop :=
  ∀ chain, RequestChain wiring className chain → ∀ other ∈ chain,
    (resolve setup other "").run.run' runtime = some (.ok other)

variable {setup : Setup P σ} {wiring : String → List String}

theorem SelfNamed.resolution {runtime : Runtime P σ} {className : String}
    (h : SelfNamed setup wiring runtime className) :
    Runtime.resolution setup runtime.active className "" = .ok className := by
  have hSelf := h [className] (.single className) className List.mem_cons_self
  rw [run'_resolve] at hSelf
  exact Option.some.inj hSelf

theorem SelfNamed.of_mem {runtime : Runtime P σ} {className requested : String}
    (h : SelfNamed setup wiring runtime className) (hMem : requested ∈ wiring className) :
    SelfNamed setup wiring runtime requested :=
  fun chain hChain other hOther =>
    h (className :: chain) (.cons hMem hChain) other (List.mem_cons_of_mem className hOther)

theorem SelfNamed.of_registrations {before after : Runtime P σ} {className : String}
    (h : SelfNamed setup wiring before className)
    (hSame : after.active.registrations = before.active.registrations) :
    SelfNamed setup wiring after className := by
  intro chain hChain other hOther
  have hSelf := h chain hChain other hOther
  rw [run'_resolve] at hSelf ⊢
  rw [resolution_congr hSame, Option.some.inj hSelf]

/-- With some room left every request for a class is answered with what its chains come to. -/
def Answers (setup : Setup P σ) (wiring : String → List String) (room : Nat) : Prop :=
  ∀ {fuel : Nat} {runtime : Runtime P σ} {className : String} (args : List Value), room < fuel →
    runtime.depth + room = setup.maxDepth → SelfNamed setup wiring runtime className →
    ∃ result after, (answer setup fuel (.create className args)).run runtime =
        some (result, after) ∧
      Stands runtime after ∧ Settled (setup.firstFault? wiring room className) result

theorem run_interpret_ask {answer : (request : Request P σ) → Run P σ request.Reply}
    {request : Request P σ} {runtime between : Runtime P σ} {reply : request.Reply}
    (h : (answer request).run runtime = some (reply, between))
    (next : request.Reply → Script P σ α) :
    (interpret answer (.ask request next)).run runtime =
      (interpret answer (next reply)).run between := by
  rw [interpret, StateT.run_bind, h]
  rfl

theorem run_interpret_of_creates {room : Nat} (hAnswers : Answers setup wiring room)
    {names : List String} {script : Script P σ (Except Failure (Instance P))}
    (hScript : script.Creates names) {fuel : Nat} (hFuel : room < fuel) {runtime : Runtime P σ}
    (hRoom : runtime.depth + room = setup.maxDepth)
    (hSelf : ∀ name ∈ names, SelfNamed setup wiring runtime name) :
    ∃ result after, (interpret (answer setup fuel) script).run runtime = some (result, after) ∧
      Stands runtime after ∧ Settled (names.findSome? (setup.firstFault? wiring room)) result := by
  obtain ⟨inside, rfl⟩ := Nat.exists_eq_add_one_of_ne_zero (Nat.ne_zero_of_lt hFuel)
  induction hScript generalizing runtime with
  | yield held => exact ⟨.ok held, runtime, rfl, .refl runtime, held, rfl⟩
  | aside request next hAside _ ih =>
    obtain ⟨reply, between, hRun, hSpared, hSame⟩ :=
      run_answer_of_aside hAside setup inside runtime
    have hStands : Stands runtime between := ⟨hSpared.depth, hSame⟩
    have hBetween name (hMem : name ∈ _) :=
      (hSelf name hMem).of_registrations hStands.registrations
    obtain ⟨result, after, hRest, hAfter, hSettled⟩ :=
      ih reply (hStands.depth ▸ hRoom) hBetween
    exact ⟨result, after, (run_interpret_ask hRun next).trans hRest, hStands.trans hAfter, hSettled⟩
  | create name args next _ hError ih =>
    obtain ⟨hHere, hLater⟩ := List.forall_mem_cons.mp hSelf
    obtain ⟨result, between, hRun, hStands, hSettled⟩ := hAnswers args hFuel hRoom hHere
    rw [List.findSome?_cons]
    cases hFault : setup.firstFault? wiring room name with
    | some failure =>
      rw [hFault] at hSettled
      cases hSettled
      refine ⟨_, between, (run_interpret_ask hRun next).trans ?_, hStands, rfl⟩
      rw [hError]
      rfl
    | none =>
      rw [hFault] at hSettled
      obtain ⟨held, rfl⟩ := hSettled
      have hBetween name (hMem : name ∈ _) :=
        (hLater name hMem).of_registrations hStands.registrations
      obtain ⟨result, after, hRest, hAfter, hRestSettled⟩ :=
        ih held (hStands.depth ▸ hRoom) hBetween
      exact ⟨result, after, (run_interpret_ask hRun next).trans hRest, hStands.trans hAfter,
        hRestSettled⟩

theorem run_create {className : String} {runtime : Runtime P σ}
    (inner : {α : Type} → Script P σ α → Run P σ α) (args : List Value)
    (h : resolution setup runtime.active className "" = .ok className) :
    ∃ between, (create setup inner className args).run.run runtime =
        (construct setup inner className args).run.run between ∧ Stands runtime between := by
  obtain ⟨between, hRun, hBetween⟩ := run_resolve setup className "" runtime
  rw [h] at hRun
  refine ⟨between, by rw [create, run_bind_of_ok hRun], ?_⟩
  rcases hBetween with rfl | rfl
  · exact .refl _
  · exact ⟨rfl, rfl⟩

theorem answers (hWired : setup.Wired wiring) (room : Nat) : Answers setup wiring room := by
  induction room with
  | zero =>
    intro fuel runtime className args hFuel hRoom hSelf
    obtain ⟨inside, rfl⟩ := Nat.exists_eq_add_one_of_ne_zero (Nat.ne_zero_of_lt hFuel)
    obtain ⟨between, hCreate, hStands⟩ :=
      run_create (perform setup inside) args hSelf.resolution
    have hFull : setup.maxDepth ≤ between.depth := by
      rw [hStands.depth]
      omega
    exact ⟨_, between, hCreate.trans (run_construct_of_full hFull), hStands, rfl⟩
  | succ room ih =>
    intro fuel runtime className args hFuel hRoom hSelf
    obtain ⟨inside, rfl⟩ := Nat.exists_eq_add_one_of_ne_zero (Nat.ne_zero_of_lt hFuel)
    obtain ⟨between, hCreate, hStands⟩ :=
      run_create (perform setup inside) args hSelf.resolution
    have hSpare : ¬ setup.maxDepth ≤ between.depth := by
      rw [hStands.depth]
      omega
    cases hFactory : setup.catalog.get? className with
    | none =>
      have hUnknown : setup.catalog.contains className = false := by
        rw [Table.contains, hFactory]
        rfl
      refine ⟨_, between, hCreate.trans (run_construct_of_unknown hSpare hFactory), hStands, ?_⟩
      rw [firstFault?_of_not_contains hUnknown]
      rfl
    | some factory =>
      have hKnown : setup.catalog.contains className = true := by
        rw [Table.contains, hFactory]
        rfl
      have hDeeper : between.deeper.depth + room = setup.maxDepth := by
        show between.depth + 1 + room = setup.maxDepth
        rw [hStands.depth]
        omega
      have hNested requested (hMem : requested ∈ wiring className) :
          SelfNamed setup wiring between.deeper requested :=
        (hSelf.of_mem hMem).of_registrations hStands.registrations
      obtain ⟨result, after, hRun, hAfter, hSettled⟩ :=
        run_interpret_of_creates ih (hWired className factory hFactory args)
          (Nat.lt_of_succ_lt_succ hFuel) hDeeper hNested
      refine ⟨result, after.shallower, ?_, ?_, ?_⟩
      · refine hCreate.trans ((run_construct_of_factory hSpare hFactory).trans ?_)
        exact congrArg (Option.map _) hRun
      · refine hStands.trans ⟨?_, hAfter.registrations⟩
        show after.depth - 1 = between.depth
        rw [hAfter.depth]
        exact Nat.add_sub_cancel ..
      · rwa [firstFault?_of_contains hKnown]

theorem perform_create (setup : Setup P σ) (fuel : Nat) (className : String) (args : List Value) :
    perform setup fuel (Script.create className args).run =
      answer setup fuel (.create className args) :=
  bind_pure _

/-- Outside of factories, creating a component ends. It succeeds if every chain of requests from
its class fits the limit and stays in the catalog; otherwise it fails with the first fault. -/
theorem create_ends {runtime : Runtime P σ} {className : String} {fuel : Nat}
    (hWired : setup.Wired wiring) (hOutside : runtime.depth = 0)
    (hSelf : SelfNamed setup wiring runtime className) (hFuel : setup.maxDepth < fuel)
    (args : List Value) :
    ∃ result after, (perform setup fuel (Script.create className args).run).run runtime =
        some (result, after) ∧
      ((∃ held, result = .ok held) ↔ ∀ chain, RequestChain wiring className chain →
        chain.length ≤ setup.maxDepth ∧ ∀ other ∈ chain, setup.catalog.contains other = true) ∧
      ∀ failure, result = .error failure ↔
        (requestChains wiring setup.maxDepth className).findSome? (setup.fault? setup.maxDepth) =
          some failure := by
  have hRoom : runtime.depth + setup.maxDepth = setup.maxDepth := by rw [hOutside, Nat.zero_add]
  obtain ⟨result, after, hRun, _, hSettled⟩ :=
    answers hWired setup.maxDepth args hFuel hRoom hSelf
  rw [← firstFault?_eq_none_iff, ← Setup.firstFault?]
  have hPerform : (perform setup fuel (Script.create className args).run).run runtime =
      some (result, after) :=
    (congrArg (StateT.run · runtime) (perform_create setup fuel className args)).trans hRun
  refine ⟨result, after, hPerform, ?_⟩
  cases hFault : setup.firstFault? wiring setup.maxDepth className with
  | none =>
    rw [hFault] at hSettled
    obtain ⟨held, rfl⟩ := hSettled
    exact ⟨⟨fun _ => rfl, fun _ => ⟨held, rfl⟩⟩, fun failure => ⟨nofun, nofun⟩⟩
  | some failure =>
    rw [hFault] at hSettled
    cases hSettled
    exact ⟨⟨nofun, nofun⟩, fun other => by simp⟩

end Runtime

def Factory.creating (className : String) : List String → Attempt P σ (Instance P)
  | [] => Script.sure (Script.perform (.instantiate ⟨className, .plain⟩))
  | name :: rest => do
    let _ ← Script.create name []
    creating className rest

theorem creates_creating (className : String) (names : List String) :
    Script.Creates names (Factory.creating className names : Attempt P σ (Instance P)).run := by
  induction names with
  | nil => exact .aside (.instantiate _) _ trivial fun held => .yield held
  | cons name rest ih => exact .create name [] _ (fun _ => ih) fun _ => rfl

namespace Runtime

def circularSetup : Setup ⟨Empty, Empty, Empty⟩ Unit where
  catalog := Table.ofList [
    ("App\\Alku", fun _ => Factory.creating "App\\Alku" ["App\\Loppu"]),
    ("App\\Loppu", fun _ => Factory.creating "App\\Loppu" ["App\\Alku"])]
  maxDepth := 3
  write := nofun
  invoke := nofun
  program := nofun

def circularWiring (className : String) : List String :=
  if className = "App\\Alku" then ["App\\Loppu"] else ["App\\Alku"]

theorem circularSetup_wired : circularSetup.Wired circularWiring := by
  intro className factory hFactory args
  have hEntry : (className, factory) ∈ circularSetup.catalog.entries := Entries.mem_of_get? hFactory
  rcases List.mem_cons.mp hEntry with hFirst | hRest
  · cases hFirst
    exact creates_creating _ _
  · cases List.mem_singleton.mp hRest
    exact creates_creating _ _

theorem circularSetup_selfNamed :
    SelfNamed circularSetup circularWiring { world := () } "App\\Alku" := by
  suffices ∀ {className : String} {chain : List String},
      RequestChain circularWiring className chain →
        className = "App\\Alku" ∨ className = "App\\Loppu" →
        ∀ other ∈ chain, other = "App\\Alku" ∨ other = "App\\Loppu" by
    intro chain hChain other hOther
    rcases this hChain (.inl rfl) other hOther with rfl | rfl <;> rfl
  intro className chain hChain
  induction hChain with
  | single className =>
    intro hName other hOther
    rwa [List.mem_singleton.mp hOther]
  | @cons className requested chain hRequested _ ih =>
    intro hName
    refine List.forall_mem_cons.mpr ⟨hName, ih ?_⟩
    rcases hName with rfl | rfl
    · exact .inr (List.mem_singleton.mp hRequested)
    · exact .inl (List.mem_singleton.mp hRequested)

theorem create_ends_circular :
    circularSetup.Wired circularWiring ∧
    SelfNamed circularSetup circularWiring { world := () } "App\\Alku" ∧
    ∃ result after, (perform circularSetup 4 (Script.create "App\\Alku" []).run).run
        { world := () } = some (result, after) ∧
      result = .error (.recursionLimit "App\\Loppu" 3) ∧
      ¬ ∀ chain, RequestChain circularWiring "App\\Alku" chain →
        chain.length ≤ 3 ∧ ∀ other ∈ chain, circularSetup.catalog.contains other = true := by
  obtain ⟨result, after, hRun, hOk, hError⟩ :=
    create_ends circularSetup_wired rfl circularSetup_selfNamed (by decide : 3 < 4) []
  have hFailed : result = .error (.recursionLimit "App\\Loppu" 3) := (hError _).mpr rfl
  refine ⟨circularSetup_wired, circularSetup_selfNamed, result, after, hRun, hFailed, ?_⟩
  intro hFits
  obtain ⟨held, hHeld⟩ := hOk.mpr hFits
  rw [hFailed] at hHeld
  cases hHeld

end Runtime
end Wiring
