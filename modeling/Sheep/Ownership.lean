/-
This file is a library for objects that may each hold a resource, and that are moved,
assigned and destroyed at any time. The books are exact while every live resource is
held by one object or has been left to something else. An operation is balanced if
what its objects held and what it received is, one by one, what it released, what it
gave away, and what its objects hold afterwards. Exact books stay exact, and nothing
is released that is not live, precisely if the operations are balanced.
-/

import Mathlib.Data.List.Dedup
import Mathlib.Logic.Function.Basic
import Sheep.Transitions

namespace Ownership

variable {Name Op Rep Resource : Type}

/-! ### Operations -/

/-- The resources that the named objects hold. A name without an object is `none`. -/
def holdings (held : Rep → Option Resource) (names : List Name) (place : Name → Option Rep) :
    List Resource :=
  names.filterMap fun name => (place name).bind held

/-- What an operation does. -/
structure Effect (Name Rep Resource : Type) where
  place : Name → Option Rep
  /-- A resource that the operation has opened. -/
  opened : Option Resource := none
  /-- A resource that something else has left to the operation. -/
  taken : Option Resource := none
  released : List Resource := []
  /-- A resource that the operation leaves to something else. -/
  given : Option Resource := none

/-- The operations on the objects of a type. They touch nothing but the objects they are called
with, and have no resources but those their objects hold and those they receive. -/
structure Interface (Name Op Rep Resource : Type) [DecidableEq Name] where
  /-- The resource that the destructor releases. -/
  held : Rep → Option Resource
  touched : Op → List Name
  perform : Op → (Name → Option Rep) → Option (Effect Name Rep Resource)
  frame : ∀ {op place effect name}, perform op place = some effect → name ∉ touched op →
    effect.place name = place name
  grounded : ∀ {op place effect resource}, perform op place = some effect →
    resource ∈ effect.released ++ effect.given.toList ++
      holdings held (touched op).dedup effect.place →
    resource ∈ holdings held (touched op).dedup place ++ effect.opened.toList ++
      effect.taken.toList

/-- What the operation had is what it leaves. -/
def Effect.Balanced (held : Rep → Option Resource) (names : List Name)
    (place : Name → Option Rep) (effect : Effect Name Rep Resource) : Prop :=
  (holdings held names place ++ effect.opened.toList ++ effect.taken.toList).Perm
    (effect.released ++ effect.given.toList ++ holdings held names effect.place)

structure State (Name Rep Resource : Type) where
  place : Name → Option Rep
  live : Resource → Bool
  /-- What has been left to something else. -/
  outside : Resource → Bool

inductive Action (Op Resource : Type)
  | call (op : Op)
  /-- Something else releases what has been left to it. -/
  | dispose (resource : Resource)

/-- A resource has been released, and it was live or not. -/
structure Release (Resource : Type) where
  resource : Resource
  hit : Bool
deriving DecidableEq, Repr

/-- Nothing was released that was not live. -/
def Sound (trace : List (Release Resource)) : Prop := ∀ release ∈ trace, release.hit = true

section Steps

variable [DecidableEq Name] [DecidableEq Resource]

/-- Resources are released one after the other. -/
def releases (live : Resource → Bool) : List Resource → List (Release Resource)
  | [] => []
  | resource :: rest =>
      ⟨resource, live resource⟩ :: releases (Function.update live resource false) rest

/-- Only what is not live can be opened, only what has been left to something else be taken. -/
def State.fits (s : State Name Rep Resource) (effect : Effect Name Rep Resource) : Bool :=
  effect.opened.all (fun resource => !s.live resource) && effect.taken.all s.outside

def State.liveAfter (s : State Name Rep Resource) (effect : Effect Name Rep Resource) :
    Resource → Bool :=
  fun resource => s.live resource || decide (effect.opened = some resource)

def State.after (s : State Name Rep Resource) (effect : Effect Name Rep Resource) :
    State Name Rep Resource where
  place := effect.place
  live resource := s.liveAfter effect resource && decide (resource ∉ effect.released)
  outside resource := s.outside resource && decide (effect.taken ≠ some resource) ||
    decide (effect.given = some resource)

def State.dispose (s : State Name Rep Resource) (resource : Resource) : State Name Rep Resource :=
  { s with
    live := Function.update s.live resource false
    outside := Function.update s.outside resource false }

/-- At first there are no objects. -/
def start (outside : Resource → Bool) : State Name Rep Resource where
  place _ := none
  live := outside
  outside := outside

def system (I : Interface Name Op Rep Resource) :
    Transitions.System (State Name Rep Resource) (Action Op Resource) (Release Resource)
  | s, .call op =>
      match I.perform op s.place with
      | none => none
      | some effect =>
          if s.fits effect then
            some (s.after effect, releases (s.liveAfter effect) effect.released)
          else none
  | s, .dispose resource =>
      if s.outside resource then some (s.dispose resource, [⟨resource, s.live resource⟩]) else none

end Steps

/-! ### Exact books -/

section Exact

variable [DecidableEq Name] {I : Interface Name Op Rep Resource}
  {s : State Name Rep Resource} {names : List Name} {name : Name} {resource : Resource}
  {held : Rep → Option Resource} {place : Name → Option Rep}

omit [DecidableEq Name] in
theorem mem_holdings :
    resource ∈ holdings held names place ↔
      ∃ name ∈ names, (place name).bind held = some resource := by
  rw [holdings, List.mem_filterMap]

omit [DecidableEq Name] in
theorem nodup_holdings (distinct : names.Nodup)
    (alone : ∀ {one another resource}, (place one).bind held = some resource →
      (place another).bind held = some resource → one = another) :
    (holdings held names place).Nodup :=
  distinct.filterMap fun _ _ _ one another => alone one another

/-- In a list without doubles, two objects do not hold the same. -/
theorem alone_of_nodup {one another : Name} (nodup : (holdings held names place).Nodup)
    (member : one ∈ names) (member' : another ∈ names)
    (holds : (place one).bind held = some resource)
    (holds' : (place another).bind held = some resource) : one = another := by
  by_contra different
  induction names with
  | nil => cases member
  | cons name names inductionHypothesis =>
    rw [holdings, List.filterMap_cons] at nodup
    have split (first second : Name) (firstHolds : (place first).bind held = some resource)
        (here : first = name) (secondHolds : (place second).bind held = some resource)
        (later : second ∈ names) : False := by
      rw [← here, firstHolds] at nodup
      exact (List.nodup_cons.mp nodup).1 (mem_holdings.mpr ⟨second, later, secondHolds⟩)
    rcases List.mem_cons.mp member with here | later
    · rcases List.mem_cons.mp member' with here' | later'
      · exact different (here.trans here'.symm)
      · exact split one another holds here holds' later'
    · rcases List.mem_cons.mp member' with here' | later'
      · exact split another one holds' here' holds later
      · refine inductionHypothesis ?_ later later'
        cases first : (place name).bind held with
        | none => rwa [first] at nodup
        | some _ =>
          rw [first] at nodup
          exact (List.nodup_cons.mp nodup).2

/-- Every live resource has one holder, or has been left to something else. -/
structure Exact (I : Interface Name Op Rep Resource) (s : State Name Rep Resource) : Prop where
  owned : ∀ {name resource}, (s.place name).bind I.held = some resource →
    s.live resource = true ∧ s.outside resource = false
  alone : ∀ {one another resource}, (s.place one).bind I.held = some resource →
    (s.place another).bind I.held = some resource → one = another
  kept : ∀ {resource}, s.live resource = true → s.outside resource = true ∨
    ∃ name, (s.place name).bind I.held = some resource
  lent : ∀ {resource}, s.outside resource = true → s.live resource = true

theorem exact_start (I : Interface Name Op Rep Resource) (outside : Resource → Bool) :
    Exact I (start outside) where
  owned holds := by cases holds
  alone holds := by cases holds
  kept live := .inl live
  lent live := live

/-- When all objects are gone, nothing is live but what has been left to something else. -/
theorem Exact.live_eq_outside (exact : Exact I s) (gone : ∀ name, s.place name = none) :
    s.live = s.outside := by
  funext resource
  rw [Bool.eq_iff_iff]
  refine ⟨fun live => ?_, exact.lent⟩
  rcases exact.kept live with outside | ⟨name, holds⟩
  · exact outside
  · rw [gone name] at holds
    cases holds

end Exact

/-! ### Balanced operations -/

section Balance

variable [DecidableEq Name] [DecidableEq Resource] {I : Interface Name Op Rep Resource}
  {s next : State Name Rep Resource} {op : Op} {effect : Effect Name Rep Resource}
  {name : Name} {resource : Resource} {events trace : List (Release Resource)}

omit [DecidableEq Name] in
theorem sound_releases_iff {live : Resource → Bool} {resources : List Resource} :
    Sound (releases live resources) ↔
      resources.Nodup ∧ ∀ resource ∈ resources, live resource = true := by
  induction resources generalizing live with
  | nil => exact ⟨fun _ => ⟨List.nodup_nil, fun _ member => by cases member⟩,
      fun _ _ member => by cases member⟩
  | cons first rest inductionHypothesis =>
    have split : Sound (releases live (first :: rest)) ↔ live first = true ∧
        Sound (releases (Function.update live first false) rest) := List.forall_mem_cons
    rw [split, inductionHypothesis, List.nodup_cons, List.forall_mem_cons]
    constructor
    · rintro ⟨hit, distinct, hits⟩
      have absent : first ∉ rest := fun member => by
        have dead := hits first member
        rw [Function.update_self] at dead
        cases dead
      refine ⟨⟨absent, distinct⟩, hit, fun resource member => ?_⟩
      have live := hits resource member
      rwa [Function.update_of_ne (ne_of_mem_of_not_mem member absent)] at live
    · rintro ⟨⟨absent, distinct⟩, hit, hits⟩
      refine ⟨hit, distinct, fun resource member => ?_⟩
      rw [Function.update_of_ne (ne_of_mem_of_not_mem member absent)]
      exact hits resource member

/-- What an operation has: what its objects held, and what it receives. -/
def received (I : Interface Name Op Rep Resource) (s : State Name Rep Resource) (op : Op)
    (effect : Effect Name Rep Resource) : List Resource :=
  holdings I.held (I.touched op).dedup s.place ++ effect.opened.toList ++ effect.taken.toList

/-- What an operation leaves. -/
def remains (I : Interface Name Op Rep Resource) (op : Op) (effect : Effect Name Rep Resource) :
    List Resource :=
  effect.released ++ effect.given.toList ++ holdings I.held (I.touched op).dedup effect.place

omit [DecidableEq Resource] in
theorem mem_received :
    resource ∈ received I s op effect ↔
      (∃ name ∈ I.touched op, (s.place name).bind I.held = some resource) ∨
        effect.opened = some resource ∨ effect.taken = some resource := by
  simp only [received, List.mem_append, mem_holdings, List.mem_dedup, Option.mem_toList,
    or_assoc]

omit [DecidableEq Resource] in
theorem mem_remains :
    resource ∈ remains I op effect ↔
      resource ∈ effect.released ∨ effect.given = some resource ∨
        ∃ name ∈ I.touched op, (effect.place name).bind I.held = some resource := by
  simp only [remains, List.mem_append, mem_holdings, List.mem_dedup, Option.mem_toList,
    or_assoc]

omit [DecidableEq Name] [DecidableEq Resource] in
theorem fits_iff :
    s.fits effect = true ↔ (∀ resource, effect.opened = some resource → s.live resource = false) ∧
      ∀ resource, effect.taken = some resource → s.outside resource = true := by
  simp only [State.fits, Bool.and_eq_true, Option.all_eq_true, Bool.not_eq_true']

section Received

variable (exact : Exact I s) (fits : s.fits effect = true)
include exact fits

omit [DecidableEq Resource] in
/-- An operation has nothing that something outside keeps. -/
theorem outside_of_received (member : resource ∈ received I s op effect)
    (outside : s.outside resource = true) : effect.taken = some resource := by
  rcases mem_received.mp member with ⟨name, _, holds⟩ | opened | taken
  · rw [(exact.owned holds).2] at outside
    cases outside
  · have live := exact.lent outside
    rw [(fits_iff.mp fits).1 resource opened] at live
    cases live
  · exact taken

theorem live_of_received (member : resource ∈ received I s op effect) :
    s.liveAfter effect resource = true := by
  rw [State.liveAfter, Bool.or_eq_true, decide_eq_true_iff]
  rcases mem_received.mp member with ⟨name, _, holds⟩ | opened | taken
  · exact .inl (exact.owned holds).1
  · exact .inr opened
  · exact .inl (exact.lent ((fits_iff.mp fits).2 resource taken))

omit [DecidableEq Resource] in
/-- An operation has nothing that another object holds. -/
theorem not_received_of_untouched (untouched : name ∉ I.touched op)
    (holds : (s.place name).bind I.held = some resource) : resource ∉ received I s op effect := by
  intro member
  rcases mem_received.mp member with ⟨other, touched, holds'⟩ | opened | taken
  · exact untouched (exact.alone holds holds' ▸ touched)
  · have live := (exact.owned holds).1
    rw [(fits_iff.mp fits).1 resource opened] at live
    cases live
  · have outside := (exact.owned holds).2
    rw [(fits_iff.mp fits).2 resource taken] at outside
    cases outside

omit [DecidableEq Resource] in
theorem nodup_received : (received I s op effect).Nodup := by
  have singles (one : Option Resource) : one.toList.Nodup := by
    cases one with
    | none => exact List.nodup_nil
    | some _ => exact List.nodup_singleton _
  have dead : ∀ resource, effect.opened = some resource → s.live resource = false :=
    (fits_iff.mp fits).1
  have outside : ∀ resource, effect.taken = some resource → s.outside resource = true :=
    (fits_iff.mp fits).2
  refine List.nodup_append'.mpr ⟨List.nodup_append'.mpr ⟨nodup_holdings (List.nodup_dedup _)
    exact.alone, singles _, fun resource held opened => ?_⟩, singles _,
    fun resource before taken => ?_⟩
  · obtain ⟨name, _, holds⟩ := mem_holdings.mp held
    have live := (exact.owned holds).1
    rw [dead resource (Option.mem_toList.mp opened)] at live
    cases live
  · have out := outside resource (Option.mem_toList.mp taken)
    rcases List.mem_append.mp before with held | opened
    · obtain ⟨name, _, holds⟩ := mem_holdings.mp held
      rw [(exact.owned holds).2] at out
      cases out
    · have live := exact.lent out
      rw [dead resource (Option.mem_toList.mp opened)] at live
      cases live

end Received

omit [DecidableEq Name] in
theorem live_after_iff : (s.after effect).live resource = true ↔
    s.liveAfter effect resource = true ∧ resource ∉ effect.released := by
  rw [State.after, Bool.and_eq_true, decide_eq_true_iff]

omit [DecidableEq Name] in
theorem outside_after_iff : (s.after effect).outside resource = true ↔
    s.outside resource = true ∧ effect.taken ≠ some resource ∨ effect.given = some resource := by
  rw [State.after, Bool.or_eq_true, Bool.and_eq_true, decide_eq_true_iff, decide_eq_true_iff]

section Balanced

variable (exact : Exact I s) (fits : s.fits effect = true)
  (performed : I.perform op s.place = some effect)
  (balanced : effect.Balanced I.held (I.touched op).dedup s.place)

section Back

include balanced

omit [DecidableEq Resource] in
/-- What is left had been received. -/
theorem mem_received_of_mem_remains (member : resource ∈ remains I op effect) :
    resource ∈ received I s op effect :=
  (show (received I s op effect).Perm (remains I op effect) from balanced).mem_iff.mpr member

include exact fits

omit [DecidableEq Resource] in
theorem nodup_remains : (remains I op effect).Nodup :=
  (show (received I s op effect).Perm (remains I op effect) from balanced).nodup_iff.mp
    (nodup_received exact fits)

omit [DecidableEq Resource] in
/-- What is left is either released, or given away, or held. -/
theorem remains_apart : effect.released.Nodup ∧
    (effect.given = some resource → resource ∉ effect.released) ∧
      ∀ name ∈ I.touched op, (effect.place name).bind I.held = some resource →
        resource ∉ effect.released ∧ effect.given ≠ some resource := by
  obtain ⟨gone, _, heldApart⟩ := List.nodup_append'.mp (nodup_remains exact fits balanced)
  obtain ⟨nodup, _, givenApart⟩ := List.nodup_append'.mp gone
  refine ⟨nodup, fun given released => givenApart released (Option.mem_toList.mpr given),
    fun name touched holds => ?_⟩
  have left : resource ∈ holdings I.held (I.touched op).dedup effect.place :=
    mem_holdings.mpr ⟨name, List.mem_dedup.mpr touched, holds⟩
  exact ⟨fun released => heldApart (List.mem_append_left _ released) left,
    fun given => heldApart (List.mem_append_right _ (Option.mem_toList.mpr given)) left⟩

end Back

include exact fits performed balanced

theorem owned_after (holds : ((s.after effect).place name).bind I.held = some resource) :
    (s.after effect).live resource = true ∧ (s.after effect).outside resource = false := by
  rw [← Bool.not_eq_true, live_after_iff, outside_after_iff]
  by_cases touched : name ∈ I.touched op
  · obtain ⟨unreleased, ungiven⟩ :=
      (remains_apart exact fits balanced).2.2 name touched holds
    have had := mem_received_of_mem_remains balanced
      (mem_remains.mpr (.inr (.inr ⟨name, touched, holds⟩)))
    refine ⟨⟨live_of_received exact fits had, unreleased⟩, ?_⟩
    rintro (⟨outside, kept⟩ | given)
    · exact kept (outside_of_received exact fits had outside)
    · exact ungiven given
  · have before : (s.place name).bind I.held = some resource := by
      rw [← I.frame performed touched]
      exact holds
    have apart : resource ∉ remains I op effect := fun member =>
      not_received_of_untouched exact fits touched before
        (mem_received_of_mem_remains balanced member)
    obtain ⟨live, inside⟩ := exact.owned before
    refine ⟨⟨?_, fun released => apart (mem_remains.mpr (.inl released))⟩, ?_⟩
    · rw [State.liveAfter, live]
      rfl
    · rintro (⟨outside, _⟩ | given)
      · rw [inside] at outside
        cases outside
      · exact apart (mem_remains.mpr (.inr (.inl given)))

theorem alone_after {one another : Name}
    (holds : ((s.after effect).place one).bind I.held = some resource)
    (holds' : ((s.after effect).place another).bind I.held = some resource) : one = another := by
  have mixed {first second : Name} (touched : first ∈ I.touched op)
      (untouched : second ∉ I.touched op)
      (firstHolds : (effect.place first).bind I.held = some resource)
      (secondHolds : (effect.place second).bind I.held = some resource) : False := by
    rw [I.frame performed untouched] at secondHolds
    exact not_received_of_untouched exact fits untouched secondHolds
      (mem_received_of_mem_remains balanced
        (mem_remains.mpr (.inr (.inr ⟨first, touched, firstHolds⟩))))
  by_cases touched : one ∈ I.touched op
  · by_cases touched' : another ∈ I.touched op
    · have nodup := (List.nodup_append'.mp (nodup_remains exact fits balanced)).2.1
      exact alone_of_nodup nodup (List.mem_dedup.mpr touched) (List.mem_dedup.mpr touched')
        holds holds'
    · exact (mixed touched touched' holds holds').elim
  · by_cases touched' : another ∈ I.touched op
    · exact (mixed touched' touched holds' holds).elim
    · have before : (s.place one).bind I.held = some resource := by
        rw [← I.frame performed touched]
        exact holds
      have before' : (s.place another).bind I.held = some resource := by
        rw [← I.frame performed touched']
        exact holds'
      exact exact.alone before before'

omit fits in
theorem kept_after (live : (s.after effect).live resource = true) :
    (s.after effect).outside resource = true ∨
      ∃ name, ((s.after effect).place name).bind I.held = some resource := by
  have perm : (received I s op effect).Perm (remains I op effect) := balanced
  obtain ⟨live, unreleased⟩ := live_after_iff.mp live
  rw [outside_after_iff]
  by_cases had : resource ∈ received I s op effect
  · rcases mem_remains.mp (perm.mem_iff.mp had) with released | given | ⟨name, _, holds⟩
    · exact (unreleased released).elim
    · exact .inl (.inr given)
    · exact .inr ⟨name, holds⟩
  · have unopened : effect.opened ≠ some resource := fun opened =>
      had (mem_received.mpr (.inr (.inl opened)))
    rw [State.liveAfter, decide_eq_false unopened, Bool.or_false] at live
    rcases exact.kept live with outside | ⟨name, holds⟩
    · exact .inl (.inl ⟨outside, fun taken => had (mem_received.mpr (.inr (.inr taken)))⟩)
    · have untouched : name ∉ I.touched op := fun touched =>
        had (mem_received.mpr (.inl ⟨name, touched, holds⟩))
      rw [← I.frame performed untouched] at holds
      exact .inr ⟨name, holds⟩

omit performed in
theorem lent_after (outside : (s.after effect).outside resource = true) :
    (s.after effect).live resource = true := by
  rw [live_after_iff]
  rcases outside_after_iff.mp outside with ⟨outside, untaken⟩ | given
  · refine ⟨?_, fun released => untaken (outside_of_received exact fits
      (mem_received_of_mem_remains balanced (mem_remains.mpr (.inl released)))
      outside)⟩
    rw [State.liveAfter, exact.lent outside]
    rfl
  · exact ⟨live_of_received exact fits (mem_received_of_mem_remains balanced
      (mem_remains.mpr (.inr (.inl given)))), (remains_apart exact fits balanced).2.1 given⟩

/-- A balanced operation keeps the books exact, and releases what is live. -/
theorem exact_of_balanced :
    Exact I (s.after effect) ∧ Sound (releases (s.liveAfter effect) effect.released) := by
  refine ⟨⟨owned_after exact fits performed balanced, alone_after exact fits performed balanced,
    kept_after exact performed balanced, lent_after exact fits balanced⟩,
    sound_releases_iff.mpr ⟨?_, fun resource member => live_of_received exact fits
      (mem_received_of_mem_remains balanced (mem_remains.mpr (.inl member)))⟩⟩
  exact (List.nodup_append'.mp
    (List.nodup_append'.mp (nodup_remains exact fits balanced)).1).1

end Balanced

/-- Only a balanced operation keeps the books exact and releases what is live. -/
theorem balanced_of_exact (exact : Exact I s) (fits : s.fits effect = true)
    (performed : I.perform op s.place = some effect) (exactAfter : Exact I (s.after effect))
    (sound : Sound (releases (s.liveAfter effect) effect.released)) :
    effect.Balanced I.held (I.touched op).dedup s.place := by
  have outsideOfGiven {resource : Resource} (given : resource ∈ effect.given.toList) :
      (s.after effect).outside resource = true :=
    outside_after_iff.mpr (.inr (Option.mem_toList.mp given))
  have nodup : (remains I op effect).Nodup := by
    refine List.nodup_append'.mpr ⟨List.nodup_append'.mpr ⟨(sound_releases_iff.mp sound).1, ?_,
      fun resource released given => ?_⟩, nodup_holdings (List.nodup_dedup _) exactAfter.alone,
      fun resource gone held => ?_⟩
    · cases effect.given with
      | none => exact List.nodup_nil
      | some _ => exact List.nodup_singleton _
    · exact (live_after_iff.mp (exactAfter.lent (outsideOfGiven given))).2 released
    · obtain ⟨name, _, holds⟩ := mem_holdings.mp held
      obtain ⟨live, inside⟩ := exactAfter.owned holds
      rcases List.mem_append.mp gone with released | given
      · exact (live_after_iff.mp live).2 released
      · rw [outsideOfGiven given] at inside
        cases inside
  refine (List.perm_ext_iff_of_nodup (nodup_received exact fits) nodup).mpr fun resource =>
    ⟨fun had => mem_remains.mpr ?_, I.grounded performed⟩
  by_cases released : resource ∈ effect.released
  · exact .inl released
  rcases exactAfter.kept (live_after_iff.mpr ⟨live_of_received exact fits had, released⟩)
    with outside | ⟨name, holds⟩
  · rcases outside_after_iff.mp outside with ⟨outside, untaken⟩ | given
    · exact (untaken (outside_of_received exact fits had outside)).elim
    · exact .inr (.inl given)
  · by_cases touched : name ∈ I.touched op
    · exact .inr (.inr ⟨name, touched, holds⟩)
    · have before : (s.place name).bind I.held = some resource := by
        rw [← I.frame performed touched]
        exact holds
      exact (not_received_of_untouched exact fits touched before had).elim

/-- Something else releases only what has been left to it. -/
theorem exact_dispose (exact : Exact I s) (outside : s.outside resource = true) :
    Exact I (s.dispose resource) := by
  have other {name : Name} {r : Resource} (holds : (s.place name).bind I.held = some r) :
      r ≠ resource := by
    rintro rfl
    rw [(exact.owned holds).2] at outside
    cases outside
  refine ⟨fun {name r} holds => ?_, exact.alone, fun {r} live => ?_, fun {r} out => ?_⟩
  · show Function.update s.live resource false r = true ∧
      Function.update s.outside resource false r = false
    rw [Function.update_of_ne (other holds), Function.update_of_ne (other holds)]
    exact exact.owned holds
  · replace live : Function.update s.live resource false r = true := live
    show Function.update s.outside resource false r = true ∨ _
    by_cases same : r = resource
    · rw [same, Function.update_self] at live
      cases live
    · rw [Function.update_of_ne same] at live ⊢
      exact exact.kept live
  · replace out : Function.update s.outside resource false r = true := out
    show Function.update s.live resource false r = true
    by_cases same : r = resource
    · rw [same, Function.update_self] at out
      cases out
    · rw [Function.update_of_ne same] at out ⊢
      exact exact.lent out

/-! ### Runs -/

/-- The operations that are allowed, for the objects that there are. What is left to something else
may be released there at any time. -/
def Allowed (careful : Op → (Name → Option Rep) → Prop) (s : State Name Rep Resource) :
    Action Op Resource → Prop
  | .call op => careful op s.place
  | .dispose _ => True

/-- Careful operations, in any order, keep the books exact and release only what is live. No other
operation does, wherever it comes. -/
structure KeepsBooks (I : Interface Name Op Rep Resource)
    (careful : Op → (Name → Option Rep) → Prop) : Prop where
  exact : ∀ {outside s trace}, Transitions.ReachesBy (Allowed careful) (system I) (start outside)
    s trace → Exact I s ∧ Sound trace
  /-- Once all objects are gone, everything has been released that was not left to something
  else. -/
  done : ∀ {outside s trace}, Transitions.ReachesBy (Allowed careful) (system I) (start outside)
    s trace → (∀ name, s.place name = none) → s.live = s.outside
  only : ∀ {s action next events}, Exact I s → system I s action = some (next, events) →
    (Exact I next ∧ Sound events ↔ Allowed careful s action)

theorem exact_step_iff (exact : Exact I s) {action : Action Op Resource}
    (step : system I s action = some (next, events)) :
    Exact I next ∧ Sound events ↔ Allowed (fun op place => ∀ effect, I.perform op place =
      some effect → effect.Balanced I.held (I.touched op).dedup place) s action := by
  cases action with
  | call op =>
    rw [system] at step
    split at step
    · cases step
    · rename_i effect performed
      split at step
      · rename_i fits
        cases step
        refine ⟨fun ⟨exactAfter, sound⟩ effect' performed' => ?_, fun balanced =>
          exact_of_balanced exact fits performed (balanced effect performed)⟩
        cases performed.symm.trans performed'
        exact balanced_of_exact exact fits performed exactAfter sound
      · cases step
  | dispose resource =>
    rw [system] at step
    split at step
    · rename_i outside
      cases step
      refine ⟨fun _ => trivial, fun _ => ⟨exact_dispose exact outside, fun release member => ?_⟩⟩
      rw [List.mem_singleton.mp member]
      exact exact.lent outside
    · cases step

/-- It is enough to know which operations are balanced. -/
theorem keepsBooks {careful : Op → (Name → Option Rep) → Prop}
    (balanced : ∀ op place effect, I.perform op place = some effect →
      (effect.Balanced I.held (I.touched op).dedup place ↔ careful op place)) :
    KeepsBooks I careful := by
  have only {s next : State Name Rep Resource} {action : Action Op Resource}
      {events : List (Release Resource)} (exact : Exact I s)
      (step : system I s action = some (next, events)) :
      Exact I next ∧ Sound events ↔ Allowed careful s action := by
    rw [exact_step_iff exact step]
    cases action with
    | dispose _ => rfl
    | call op =>
      rw [system] at step
      split at step
      · cases step
      · rename_i effect performed
        refine ⟨fun all => (balanced op s.place effect performed).mp (all effect performed),
          fun fine effect' performed' => (balanced op s.place effect' performed').mpr fine⟩
  have always {outside : Resource → Bool} {s : State Name Rep Resource}
      {trace : List (Release Resource)} (run : Transitions.ReachesBy (Allowed careful) (system I)
        (start outside) s trace) : Exact I s ∧ Sound trace := by
    refine run.invariant (fun s trace => Exact I s ∧ Sound trace)
      ⟨exact_start I _, fun _ member => by cases member⟩ ?_
    rintro s trace action next events - ⟨exact, sound⟩ allowed step
    obtain ⟨exactAfter, soundAfter⟩ := (only exact step).mpr allowed
    exact ⟨exactAfter, List.forall_mem_append.mpr ⟨sound, soundAfter⟩⟩
  exact ⟨always, fun run gone => (always run).1.live_eq_outside gone, only⟩

/-! ### What is lost -/

/-- A live resource that no object holds, and that has not been left to anything. -/
structure Lost (I : Interface Name Op Rep Resource) (s : State Name Rep Resource)
    (resource : Resource) : Prop where
  live : s.live resource = true
  inside : s.outside resource = false
  unheld : ∀ name, (s.place name).bind I.held ≠ some resource

/-- Lost now and whatever comes, and never released. -/
def LostForever (I : Interface Name Op Rep Resource) (s : State Name Rep Resource)
    (resource : Resource) : Prop :=
  ∀ later trace, Transitions.Reaches (system I) s later trace →
    Lost I later resource ∧ ∀ release ∈ trace, release.resource ≠ resource

omit [DecidableEq Name] in
theorem resource_of_mem_releases {live : Resource → Bool} {resources : List Resource}
    {release : Release Resource} (member : release ∈ releases live resources) :
    release.resource ∈ resources := by
  induction resources generalizing live with
  | nil => cases member
  | cons first rest inductionHypothesis =>
    rcases List.mem_cons.mp member with rfl | later
    · exact List.mem_cons_self
    · exact List.mem_cons_of_mem _ (inductionHypothesis later)

omit [DecidableEq Resource] in
/-- No operation gets at what is lost. -/
theorem Lost.not_received (lost : Lost I s resource) (fits : s.fits effect = true) :
    resource ∉ received I s op effect := by
  intro member
  rcases mem_received.mp member with ⟨name, _, holds⟩ | opened | taken
  · exact lost.unheld name holds
  · have dead := (fits_iff.mp fits).1 resource opened
    rw [lost.live] at dead
    cases dead
  · have outside := (fits_iff.mp fits).2 resource taken
    rw [lost.inside] at outside
    cases outside

/-- What an operation does not get at stays lost. -/
theorem Lost.after (lost : Lost I s resource) (fits : s.fits effect = true)
    (performed : I.perform op s.place = some effect) :
    Lost I (s.after effect) resource ∧ resource ∉ effect.released := by
  have apart : resource ∉ remains I op effect := fun member =>
    lost.not_received fits (I.grounded performed member)
  have unreleased : resource ∉ effect.released := fun released =>
    apart (mem_remains.mpr (.inl released))
  refine ⟨⟨live_after_iff.mpr ⟨?_, unreleased⟩, ?_, fun name holds => ?_⟩, unreleased⟩
  · rw [State.liveAfter, lost.live]
    rfl
  · rw [← Bool.not_eq_true, outside_after_iff]
    rintro (⟨outside, _⟩ | given)
    · rw [lost.inside] at outside
      cases outside
    · exact apart (mem_remains.mpr (.inr (.inl given)))
  · by_cases touched : name ∈ I.touched op
    · exact apart (mem_remains.mpr (.inr (.inr ⟨name, touched, holds⟩)))
    · refine lost.unheld name ?_
      rw [← I.frame performed touched]
      exact holds

theorem Lost.step (lost : Lost I s resource) {action : Action Op Resource}
    (step : system I s action = some (next, events)) :
    Lost I next resource ∧ ∀ release ∈ events, release.resource ≠ resource := by
  cases action with
  | call op =>
    rw [system] at step
    split at step
    · cases step
    · rename_i effect performed
      split at step
      · rename_i fits
        cases step
        obtain ⟨still, unreleased⟩ := lost.after fits performed
        exact ⟨still, fun release member same =>
          unreleased (same ▸ resource_of_mem_releases member)⟩
      · cases step
  | dispose disposed =>
    rw [system] at step
    split at step
    · rename_i outside
      cases step
      have different : resource ≠ disposed := by
        rintro rfl
        rw [lost.inside] at outside
        cases outside
      refine ⟨⟨?_, ?_, lost.unheld⟩, fun release member same => ?_⟩
      · exact (Function.update_of_ne different ..).trans lost.live
      · exact (Function.update_of_ne different ..).trans lost.inside
      · rw [List.mem_singleton.mp member] at same
        exact different same.symm
    · cases step

theorem Lost.forever (lost : Lost I s resource) : LostForever I s resource := by
  intro later trace run
  refine run.invariant (fun s trace => Lost I s resource ∧
    ∀ release ∈ trace, release.resource ≠ resource) ⟨lost, fun _ member => by cases member⟩ ?_
  rintro s trace action next events - ⟨lost, before⟩ step
  obtain ⟨still, unreleased⟩ := lost.step step
  exact ⟨still, List.forall_mem_append.mpr ⟨before, unreleased⟩⟩

/-- What an operation has had and does not leave is lost. -/
theorem lost_of_not_mem_remains (exact : Exact I s) (fits : s.fits effect = true)
    (performed : I.perform op s.place = some effect) (had : resource ∈ received I s op effect)
    (dropped : resource ∉ remains I op effect) : Lost I (s.after effect) resource := by
  refine ⟨live_after_iff.mpr ⟨live_of_received exact fits had, fun released =>
    dropped (mem_remains.mpr (.inl released))⟩, ?_, fun name holds => ?_⟩
  · rw [← Bool.not_eq_true, outside_after_iff]
    rintro (⟨outside, untaken⟩ | given)
    · exact untaken (outside_of_received exact fits had outside)
    · exact dropped (mem_remains.mpr (.inr (.inl given)))
  · by_cases touched : name ∈ I.touched op
    · exact dropped (mem_remains.mpr (.inr (.inr ⟨name, touched, holds⟩)))
    · have before : (s.place name).bind I.held = some resource := by
        rw [← I.frame performed touched]
        exact holds
      exact not_received_of_untouched exact fits touched before had

/-- A call that does not leave what one of its objects held loses that. -/
theorem lostForever_of_call (exact : Exact I s) {name : Name} (touched : name ∈ I.touched op)
    (holds : (s.place name).bind I.held = some resource)
    (dropped : ∀ effect, I.perform op s.place = some effect → resource ∉ remains I op effect)
    (step : system I s (.call op) = some (next, events)) :
    LostForever I next resource := by
  rw [system] at step
  split at step
  · cases step
  · rename_i effect performed
    split at step
    · rename_i fits
      cases step
      exact (lost_of_not_mem_remains exact fits performed
        (mem_received.mpr (.inl ⟨name, touched, holds⟩)) (dropped effect performed)).forever
    · cases step

end Balance

/-! ### Constructors, assignments and destructors -/

section Holdings

variable [DecidableEq Name] {held : Rep → Option Resource} {place : Name → Option Rep}
  {effect : Effect Name Rep Resource} {name other : Name} {resource : Resource}

theorem holdings_one :
    holdings held [name].dedup place = ((place name).bind held).toList := by
  rw [(List.nodup_singleton name).dedup, holdings, List.filterMap_cons]
  cases (place name).bind held <;> rfl

theorem holdings_two (different : name ≠ other) :
    holdings held [name, other].dedup place =
      ((place name).bind held).toList ++ ((place other).bind held).toList := by
  have distinct : [name, other].Nodup :=
    List.nodup_cons.mpr ⟨fun member => different (List.mem_singleton.mp member),
      List.nodup_singleton _⟩
  rw [distinct.dedup, holdings, List.filterMap_cons, List.filterMap_cons]
  cases (place name).bind held <;> cases (place other).bind held <;> rfl

/-- An object that is called with itself counts once. -/
theorem holdings_same :
    holdings held [name, name].dedup place = ((place name).bind held).toList := by
  rw [List.dedup_cons_of_mem List.mem_cons_self, holdings_one]

/-- The books of an operation on one object. -/
theorem balanced_one : effect.Balanced held [name].dedup place ↔
    (((place name).bind held).toList ++ effect.opened.toList ++ effect.taken.toList).Perm
      (effect.released ++ effect.given.toList ++ ((effect.place name).bind held).toList) := by
  rw [Effect.Balanced, holdings_one, holdings_one]

/-- The books of an operation that moves something from one object to another. -/
theorem balanced_two (different : name ≠ other) : effect.Balanced held [name, other].dedup place ↔
    (((place name).bind held).toList ++ ((place other).bind held).toList ++
        effect.opened.toList ++ effect.taken.toList).Perm
      (effect.released ++ effect.given.toList ++ (((effect.place name).bind held).toList ++
        ((effect.place other).bind held).toList)) := by
  rw [Effect.Balanced, holdings_two different, holdings_two different]

theorem balanced_same : effect.Balanced held [name, name].dedup place ↔
    (((place name).bind held).toList ++ effect.opened.toList ++ effect.taken.toList).Perm
      (effect.released ++ effect.given.toList ++ ((effect.place name).bind held).toList) := by
  rw [Effect.Balanced, holdings_same, holdings_same]

omit [DecidableEq Name] in
theorem Effect.Balanced.grounded {names : List Name} (balanced : effect.Balanced held names place)
    (left : resource ∈ effect.released ++ effect.given.toList ++ holdings held names effect.place) :
    resource ∈ holdings held names place ++ effect.opened.toList ++ effect.taken.toList :=
  List.Perm.mem_iff balanced |>.mpr left

end Holdings

section Operations

variable [DecidableEq Name]

/-- An object is constructed where there is none. -/
def construct (place : Name → Option Rep) (name : Name) (object : Rep)
    (opened taken : Option Resource) : Option (Effect Name Rep Resource) :=
  match place name with
  | none =>
      some { place := Function.update place name (some object), opened := opened, taken := taken }
  | some _ => none

/-- An object is constructed from another one. `move` says what becomes of the two. -/
def moveConstruct (place : Name → Option Rep) (name other : Name) (move : Rep → Rep × Rep) :
    Option (Effect Name Rep Resource) :=
  match place name, place other with
  | none, some source =>
      some {
        place := Function.update (Function.update place other (some (move source).2)) name
          (some (move source).1) }
  | _, _ => none

/-- An object is assigned another one, or itself. `assign` says what becomes of the two, and
what is released. The object that is assigned to is written last. -/
def moveAssign (place : Name → Option Rep) (name other : Name)
    (assign : Rep → Rep → (Rep × Rep) × List Resource) : Option (Effect Name Rep Resource) :=
  match place name, place other with
  | some object, some source =>
      let assigned := assign object source
      some {
        place := Function.update (Function.update place other (some assigned.1.2)) name
          (some assigned.1.1)
        released := assigned.2 }
  | _, _ => none

/-- An assignment that does nothing where an object is assigned to itself. -/
def guardedAssign (place : Name → Option Rep) (name other : Name)
    (assign : Rep → Rep → (Rep × Rep) × List Resource) : Option (Effect Name Rep Resource) :=
  if name = other then
    match place name with
    | some _ => some { place := place }
    | none => none
  else moveAssign place name other assign

def destroy (place : Name → Option Rep) (name : Name) (destructor : Rep → List Resource) :
    Option (Effect Name Rep Resource) :=
  match place name with
  | some object =>
      some { place := Function.update place name none, released := destructor object }
  | none => none

variable {held : Rep → Option Resource} {place : Name → Option Rep}
  {effect : Effect Name Rep Resource} {name other untouched : Name} {object : Rep}
  {opened taken : Option Resource} {move : Rep → Rep × Rep}
  {assign : Rep → Rep → (Rep × Rep) × List Resource} {destructor : Rep → List Resource}

theorem construct_frame (performed : construct place name object opened taken = some effect)
    (apart : untouched ∉ [name]) : effect.place untouched = place untouched := by
  rw [construct] at performed
  split at performed
  · cases performed
    exact Function.update_of_ne (List.ne_of_not_mem_cons apart) ..
  · cases performed

theorem construct_balanced (performed : construct place name object opened taken = some effect) :
    effect.Balanced held [name].dedup place ↔
      (opened.toList ++ taken.toList).Perm (held object).toList := by
  rw [construct] at performed
  split at performed
  · rename_i absent
    cases performed
    rw [balanced_one]
    simp [absent]
  · cases performed

theorem update_update_frame {object source : Option Rep} (apart : untouched ∉ [name, other]) :
    Function.update (Function.update place other source) name object untouched =
      place untouched := by
  rw [Function.update_of_ne (List.ne_of_not_mem_cons apart), Function.update_of_ne]
  exact List.ne_of_not_mem_cons (List.not_mem_of_not_mem_cons apart)

theorem moveConstruct_frame
    (performed : moveConstruct place name other move = some effect)
    (apart : untouched ∉ [name, other]) : effect.place untouched = place untouched := by
  rw [moveConstruct] at performed
  split at performed
  · cases performed
    exact update_update_frame apart
  · cases performed

theorem moveConstruct_balanced (moves : ∀ source, held (move source).1 = held source)
    (empties : ∀ source, held (move source).2 = none)
    (performed : moveConstruct place name other move = some effect) :
    effect.Balanced held [name, other].dedup place := by
  rw [moveConstruct] at performed
  split at performed
  · rename_i source absent present
    cases performed
    have different : name ≠ other := by
      rintro rfl
      rw [absent] at present
      cases present
    rw [balanced_two different]
    simp [absent, present, different.symm, moves, empties]
  · cases performed

theorem moveAssign_frame (performed : moveAssign place name other assign = some effect)
    (apart : untouched ∉ [name, other]) : effect.place untouched = place untouched := by
  rw [moveAssign] at performed
  split at performed
  · cases performed
    exact update_update_frame apart
  · cases performed

theorem moveAssign_present (performed : moveAssign place name other assign = some effect) :
    ∃ object source, place name = some object ∧ place other = some source ∧
      effect.released = (assign object source).2 := by
  rw [moveAssign] at performed
  split at performed
  · rename_i object source present present'
    cases performed
    exact ⟨object, source, present, present', rfl⟩
  · cases performed

/-- The books of an assignment of another object. -/
theorem moveAssign_balanced {source : Rep} (different : name ≠ other)
    (present : place name = some object) (present' : place other = some source)
    (performed : moveAssign place name other assign = some effect) :
    effect.Balanced held [name, other].dedup place ↔
      ((held object).toList ++ (held source).toList).Perm ((assign object source).2 ++
        ((held (assign object source).1.1).toList ++
          (held (assign object source).1.2).toList)) := by
  rw [moveAssign, present, present'] at performed
  cases performed
  rw [balanced_two different]
  simp [present, present', different.symm]

/-- The books of an assignment of an object to itself. -/
theorem moveAssign_self_balanced (present : place name = some object)
    (performed : moveAssign place name name assign = some effect) :
    effect.Balanced held [name, name].dedup place ↔
      (held object).toList.Perm ((assign object object).2 ++
        (held (assign object object).1.1).toList) := by
  rw [moveAssign, present] at performed
  cases performed
  rw [balanced_same]
  simp [present]

/-- An assignment only leaves what the two objects held. -/
theorem moveAssign_grounded {resource : Resource}
    (only : ∀ object source, resource ∈ (assign object source).2 ∨
      held (assign object source).1.1 = some resource ∨
      held (assign object source).1.2 = some resource →
        held object = some resource ∨ held source = some resource)
    (performed : moveAssign place name other assign = some effect)
    (left : resource ∈ effect.released ++ effect.given.toList ++
      holdings held [name, other].dedup effect.place) :
    resource ∈ holdings held [name, other].dedup place ++ effect.opened.toList ++
      effect.taken.toList := by
  rw [moveAssign] at performed
  split at performed
  · rename_i object source present present'
    cases performed
    have had : held object = some resource ∨ held source = some resource := by
      refine only object source ?_
      rcases List.mem_append.mp left with gone | after
      · exact .inl (by simpa using gone)
      · obtain ⟨changed, member, holds⟩ := mem_holdings.mp after
        by_cases same : changed = name
        · subst same
          exact .inr (.inl (by simpa using holds))
        · have isOther : changed = other := by
            rcases List.mem_cons.mp (List.mem_dedup.mp member) with here | there
            · exact (same here).elim
            · exact List.mem_singleton.mp there
          subst isOther
          exact .inr (.inr (by simpa [same] using holds))
    refine List.mem_append_left _ (List.mem_append_left _ (mem_holdings.mpr ?_))
    rcases had with holds | holds
    · exact ⟨name, List.mem_dedup.mpr List.mem_cons_self, by rw [present]; exact holds⟩
    · exact ⟨other, List.mem_dedup.mpr (List.mem_cons_of_mem _ List.mem_cons_self),
        by rw [present']; exact holds⟩
  · cases performed

/-- An assignment after which neither object holds something, and that has not released it, does
not leave it. -/
theorem not_left_of_moveAssign {source : Rep} {resource : Resource} (different : name ≠ other)
    (present : place name = some object) (present' : place other = some source)
    (unreleased : resource ∉ (assign object source).2)
    (unheld : held (assign object source).1.1 ≠ some resource)
    (unheld' : held (assign object source).1.2 ≠ some resource)
    (performed : moveAssign place name other assign = some effect) :
    resource ∉ effect.released ++ effect.given.toList ++
      holdings held [name, other].dedup effect.place := by
  rw [moveAssign, present, present'] at performed
  cases performed
  rw [holdings_two different]
  simp [different.symm, unreleased, unheld, unheld']

theorem guardedAssign_frame (performed : guardedAssign place name other assign = some effect)
    (apart : untouched ∉ [name, other]) : effect.place untouched = place untouched := by
  rw [guardedAssign] at performed
  split at performed
  · split at performed
    · cases performed
      rfl
    · cases performed
  · exact moveAssign_frame performed apart

theorem moveAssign_of_guardedAssign (different : name ≠ other)
    (performed : guardedAssign place name other assign = some effect) :
    moveAssign place name other assign = some effect := by
  rwa [guardedAssign, if_neg different] at performed

/-- Either an object is assigned to itself, and nothing changes, or it is an assignment of another
object. -/
theorem guardedAssign_cases (performed : guardedAssign place name other assign = some effect) :
    (name = other ∧ effect.Balanced held [name, other].dedup place) ∨
      (name ≠ other ∧ moveAssign place name other assign = some effect) := by
  rw [guardedAssign] at performed
  split at performed
  · rename_i same
    split at performed
    · cases performed
      refine .inl ⟨same, ?_⟩
      show (_ ++ [] ++ []).Perm ([] ++ [] ++ _)
      rw [List.append_nil, List.append_nil]
      rfl
    · cases performed
  · rename_i different
    exact .inr ⟨different, performed⟩

theorem destroy_frame (performed : destroy place name destructor = some effect)
    (apart : untouched ∉ [name]) : effect.place untouched = place untouched := by
  rw [destroy] at performed
  split at performed
  · cases performed
    exact Function.update_of_ne (List.ne_of_not_mem_cons apart) ..
  · cases performed

theorem destroy_balanced (releases : ∀ object, destructor object = (held object).toList)
    (performed : destroy place name destructor = some effect) :
    effect.Balanced held [name].dedup place := by
  rw [destroy] at performed
  split at performed
  · rename_i object present
    cases performed
    rw [balanced_one]
    simp [present, releases]
  · cases performed

/-- An assignment of another object loses what the object had: nothing releases it, then or later,
and no object holds it any more. -/
def AssignmentsLose [DecidableEq Resource] (I : Interface Name Op Rep Resource)
    (assignment : Name → Name → Op) : Prop :=
  ∀ {s next name other old events}, Exact I s → name ≠ other →
    (s.place name).bind I.held = some old →
    system I s (.call (assignment name other)) = some (next, events) →
      events = [] ∧ LostForever I next old

/-- It is enough that an assignment releases nothing, and takes from the other object what that
one has. -/
theorem assignmentsLose [DecidableEq Resource] {I : Interface Name Op Rep Resource}
    {assignment : Name → Name → Op}
    (touches : ∀ name other, I.touched (assignment name other) = [name, other])
    (performs : ∀ {name other place effect}, name ≠ other →
      I.perform (assignment name other) place = some effect →
        moveAssign place name other assign = some effect)
    (keeps : ∀ object source, (assign object source).2 = [])
    (takes : ∀ object source, I.held (assign object source).1.1 = I.held source)
    (empties : ∀ object source, I.held (assign object source).1.2 = none) :
    AssignmentsLose I assignment := by
  intro s next name other old events exact different holds step
  have dropped : ∀ effect, I.perform (assignment name other) s.place = some effect →
      effect.released = [] ∧ old ∉ remains I (assignment name other) effect := by
    intro effect performed
    obtain ⟨object, source, present, present', released⟩ :=
      moveAssign_present (performs different performed)
    refine ⟨released.trans (keeps object source), ?_⟩
    rw [remains, touches]
    refine not_left_of_moveAssign different present present' ?_ ?_ ?_ (performs different performed)
    · rw [keeps]
      exact List.not_mem_nil
    · rw [takes]
      refine fun holds' => different (exact.alone holds ?_)
      rw [present']
      exact holds'
    · rw [empties]
      exact (Option.some_ne_none old).symm
  refine ⟨?_, lostForever_of_call exact (by rw [touches]; exact List.mem_cons_self) holds
    (fun effect performed => (dropped effect performed).2) step⟩
  rw [system] at step
  split at step
  · cases step
  · rename_i effect performed
    split at step
    · cases step
      rw [(dropped effect performed).1]
      rfl
    · cases step

end Operations

end Ownership
