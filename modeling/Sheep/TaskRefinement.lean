/-
This file proves that coroutines behave like nested calls as long as `co_return` does
not take something away, and shows what happens where it does. Where nested calls have
a stack, coroutines have a chain of frames: each frame holds the handle of the frame
that awaits it, and that one is suspended where it awaits the task of the first.
The chain mirrors the stack at every step, and nothing else is left in the heap.

A `return` of a variable copies it. `co_return` moves from the variable, and where the
variable outlives the coroutine, what is left of it is seen.
-/

import Mathlib.Data.List.Nodup
import Sheep.Task

namespace Sheep

namespace Task

open DirectStyle (Outcome Config Evaluates stackMachine return_)

variable {Name Code Value Exception Request : Type}

/-! ### Frames of a state -/

variable {s next : State Name Code Value Exception Request} {handle other : Handle}
  {frame : Frame Code Value Exception}
  {change : Frame Code Value Exception → Frame Code Value Exception}

theorem modify_self (present : s.frames handle = some frame) :
    (s.modify handle change).frames handle = some (change frame) := by
  show Function.update s.frames handle _ handle = _
  rw [Function.update_self, present]
  rfl

theorem modify_of_ne (apart : other ≠ handle) :
    (s.modify handle change).frames other = s.frames other :=
  Function.update_of_ne apart _ _

theorem destroy_of_ne (apart : other ≠ handle) :
    (s.destroy handle).frames other = s.frames other :=
  Function.update_of_ne apart _ _

/-- A coroutine that is resumed goes on where it is suspended. -/
theorem resume_of_awaitResume {type : ValueType Value}
    {after : State Name Code Value Exception Request} {code : Code}
    (present : s.frames handle = some frame)
    (found : s.awaitResume type frame.point = some (code, after)) (waker : Waker) :
    s.resume type handle waker =
      ({ after.modify handle (Frame.setPoint .running) with control := .running handle code },
        [.resumed handle waker]) := by
  unfold State.resume
  rw [present, Option.bind_some, found]

/-! ### Chains -/

/-- The coroutines that wait, the innermost one first, with what they do with an outcome. -/
abbrev Callers (Code Value Exception : Type) := List (Handle × Awaiting Code Value Exception)

/-- The handle that the promise of an awaited coroutine holds. -/
def linked (callers : Callers Code Value Exception) : Option Handle :=
  callers.head?.map Prod.fst

/-- The frames of the callers of a coroutine: each is suspended where it awaits the one before. -/
inductive Chain [Inhabited Value] (frames : Handle → Option (Frame Code Value Exception)) :
    Handle → Callers Code Value Exception → Prop
  | bottom : Chain frames root []
  | caller {top parent : Handle} {awaiting : Awaiting Code Value Exception}
      {rest : Callers Code Value Exception} :
      frames parent = some ⟨⟨linked rest, none, default⟩, .awaitTask top awaiting⟩ →
      Chain frames parent rest → Chain frames top ((parent, awaiting) :: rest)

variable [Inhabited Value]

/-- The heap holds a coroutine and its callers, and nothing else. -/
structure Live (s : State Name Code Value Exception Request) (top : Handle)
    (callers : Callers Code Value Exception) : Prop where
  chain : Chain s.frames top callers
  distinct : (top :: callers.map Prod.fst).Nodup
  bounded : ∀ handle ∈ top :: callers.map Prod.fst, handle < s.allocated
  others : ∀ handle, handle ∉ top :: callers.map Prod.fst → s.frames handle = none

variable {top : Handle} {callers : Callers Code Value Exception}

theorem Chain.congr {frames after : Handle → Option (Frame Code Value Exception)}
    (chain : Chain frames top callers)
    (same : ∀ handle ∈ callers.map Prod.fst, after handle = frames handle) :
    Chain after top callers := by
  induction chain with
  | bottom => exact .bottom
  | caller waits _ inductionHypothesis =>
    refine .caller ?_ (inductionHypothesis fun handle member => ?_)
    · rw [same _ List.mem_cons_self]
      exact waits
    · exact same handle (List.mem_cons_of_mem _ member)

/-- The root is the coroutine itself or waits. -/
theorem Chain.root_waits {frames : Handle → Option (Frame Code Value Exception)}
    (chain : Chain frames top callers) :
    top = root ∨ ∃ promise child awaiting,
      frames root = some ⟨promise, .awaitTask child awaiting⟩ := by
  induction chain with
  | bottom => exact .inl rfl
  | caller waits _ inductionHypothesis =>
    rcases inductionHypothesis with same | found
    · rw [same] at waits
      exact .inr ⟨_, _, _, waits⟩
    · exact .inr found

theorem Live.top_not_mem (live : Live s top callers) : top ∉ callers.map Prod.fst :=
  (List.nodup_cons.mp live.distinct).1

/-- What happens to the frame of the coroutine itself does not matter. -/
theorem Live.modify (live : Live s top callers)
    (change : Frame Code Value Exception → Frame Code Value Exception) :
    Live (s.modify top change) top callers where
  chain := live.chain.congr fun handle member =>
    modify_of_ne fun same => live.top_not_mem (same ▸ member)
  distinct := live.distinct
  bounded := live.bounded
  others handle absent := by
    have apart : handle ≠ top := fun same => absent (by rw [same]; exact List.mem_cons_self)
    rw [modify_of_ne apart]
    exact live.others handle absent

/-- Nor do the variables, the operations and who is in control. -/
theorem Live.control (live : Live s top callers) (store : Store Name Value)
    (pending : List (Request × Handle)) (control : Control Code Value Exception) :
    Live { s with store := store, pending := pending, control := control } top callers :=
  ⟨live.chain, live.distinct, live.bounded, live.others⟩

/-! ### Mirroring -/

/-- What the outside sees of a step. -/
def visible : Event Request → Option (DirectStyle.Event Request Int)
  | .requested request => some (.requested request)
  | .completed result => some (.completed result)
  | .resumed _ _ => none

variable {own type : ValueType Value}

/-- The stack that a chain mirrors. -/
def stackOf (type : ValueType Value) (callers : Callers Code Value Exception) :
    List (Outcome (Value × Store Name Value) (Exception × Store Name Value) →
      Code × Store Name Value) :=
  callers.map fun caller => caller.2.asCall type

/-- The state of the coroutines that a configuration of nested calls is mirrored by. -/
inductive Mirrors (type : ValueType Value) (code : Code) (store : Store Name Value) :
    State Name Code Value Exception Request →
      Config (Code × Store Name Value) (Value × Store Name Value) (Exception × Store Name Value)
        Int → Prop
  | begin : Mirrors type code store (start code store) ⟨.evaluating (code, store), []⟩
  | running {s : State Name Code Value Exception Request} {top : Handle}
      {callers : Callers Code Value Exception} {body : Code} :
      Live s top callers → s.frames top = some ⟨⟨linked callers, none, default⟩, .running⟩ →
      s.pending = [] → s.control = .running top body →
      Mirrors type code store s ⟨.evaluating (body, s.store), stackOf type callers⟩
  | waiting {s : State Name Code Value Exception Request} {top : Handle}
      {callers : Callers Code Value Exception} {request : Request} {result : Int}
      {next : Int → Code} :
      Live s top callers →
      s.frames top = some ⟨⟨linked callers, none, default⟩, .awaitIo result next⟩ →
      s.pending = [(request, top)] → s.control = .runTask →
      Mirrors type code store s
        ⟨.waiting fun result => (next result, s.store), stackOf type callers⟩
  | done {s : State Name Code Value Exception Request} {promise : Promise Value Exception} :
      Live s root [] → s.frames root = some ⟨promise, .final⟩ → s.pending = [] →
      s.control = .runTask ∨ s.control = .finished promise.result →
      Mirrors type code store s ⟨.ended (together s.store promise.result), []⟩

/-- A suspended coroutine is resumed only by the end of the task that it awaits, or by the
completion of its operation. -/
def Woken (s : State Name Code Value Exception Request) (events : List (Event Request)) : Prop :=
  ∀ handle waker frame, .resumed handle waker ∈ events → s.frames handle = some frame →
    match frame.point with
    | .awaitTask child _ => waker = .task child ∧ ∃ code, s.control = .running child code
    | .awaitIo _ _ => waker = .io handle ∧ ∃ request, (request, handle) ∈ s.pending
    | _ => True

variable {code body : Code} {store : Store Name Value} {outcome : Outcome Value Exception}

omit [Inhabited Value] in
theorem asCall_together (awaiting : Awaiting Code Value Exception) (store : Store Name Value)
    (outcome : Outcome Value Exception) :
    awaiting.asCall type (together store outcome) = (awaiting.onward type outcome, store) := by
  cases outcome <;> rfl

/-- The coroutine that awaits the one at its end goes on with its result. -/
theorem finalSuspend_caller {promise : Promise Value Exception}
    {point : Point Code Value Exception} {parent : Handle}
    {awaiting : Awaiting Code Value Exception}
    (live : Live s top ((parent, awaiting) :: callers))
    (present : s.frames top = some ⟨promise, point⟩) (link : promise.continue_ = some parent)
    (idle : s.pending = [])
    (alike : awaiting.onward own promise.result = awaiting.onward type promise.result) :
    Mirrors type code store (s.finalSuspend own top).1
        ⟨.evaluating (awaiting.asCall type (together s.store promise.result)),
          stackOf type callers⟩ ∧
      (s.finalSuspend own top).2 = [.resumed parent (.task top)] := by
  obtain ⟨chain, distinct, bounded, others⟩ := live.modify (Frame.setPoint .final)
  obtain ⟨fresh, rest⟩ := List.nodup_cons.mp distinct
  obtain ⟨alone, -⟩ := List.nodup_cons.mp rest
  have apart : parent ≠ top := fun same => fresh (same ▸ List.mem_cons_self)
  have ended : (s.modify top (Frame.setPoint .final)).frames top = some ⟨promise, .final⟩ :=
    modify_self present
  cases chain with
  | caller waits chain =>
    have found : (s.modify top (Frame.setPoint .final)).awaitResume own (.awaitTask top awaiting) =
        some (awaiting.onward own promise.result,
          (s.modify top (Frame.setPoint .final)).destroy top) := by
      show Option.map _ ((s.modify top (Frame.setPoint .final)).frames top) = _
      rw [ended]
      rfl
    have suspended : s.finalSuspend own top =
        (s.modify top (Frame.setPoint .final)).resume own parent (.task top) := by
      unfold State.finalSuspend
      dsimp only
      rw [ended, Option.bind_some]
      dsimp only
      rw [link]
    rw [suspended, resume_of_awaitResume waits found, asCall_together, ← alike]
    have returned : ((s.modify top (Frame.setPoint .final)).destroy top).frames parent =
        some ⟨⟨linked callers, none, default⟩, .awaitTask top awaiting⟩ := by
      rw [destroy_of_ne apart]
      exact waits
    refine ⟨.running ?_ (modify_self returned) idle rfl, rfl⟩
    · refine Live.control (Live.modify ⟨?_, rest, ?_, ?_⟩ _) _ _ _
      · exact chain.congr fun handle member =>
          destroy_of_ne fun same => fresh (List.mem_cons_of_mem _ (same ▸ member))
      · exact fun handle member => bounded handle (List.mem_cons_of_mem _ member)
      · intro handle absent
        by_cases this : handle = top
        · rw [this]
          exact Function.update_self _ _ _
        · rw [destroy_of_ne this]
          refine others handle fun member => ?_
          exact (List.mem_cons.mp member).elim this absent

/-- At the end of the task of `run_task`, control is back in `run_task`. -/
theorem finalSuspend_root {promise : Promise Value Exception} {point : Point Code Value Exception}
    (live : Live s root []) (present : s.frames root = some ⟨promise, point⟩)
    (link : promise.continue_ = none) (idle : s.pending = []) :
    Mirrors type code store (s.finalSuspend own root).1
        ⟨.ended (together s.store promise.result), []⟩ ∧
      (s.finalSuspend own root).2 = [] := by
  have ended : (s.modify root (Frame.setPoint .final)).frames root = some ⟨promise, .final⟩ :=
    modify_self present
  have suspended : s.finalSuspend own root =
      ({ s.modify root (Frame.setPoint .final) with control := .runTask }, []) := by
    unfold State.finalSuspend
    dsimp only
    rw [ended, Option.bind_some]
    dsimp only
    rw [link]
  rw [suspended]
  exact ⟨.done ((live.modify _).control _ _ _) ended idle (.inl rfl), rfl⟩

/-- The end of a coroutine mirrors the return of a call, where the one that awaits it goes on in
the same way. -/
theorem mirrors_finalSuspend {promise : Promise Value Exception}
    {point : Point Code Value Exception} (live : Live s top callers)
    (present : s.frames top = some ⟨promise, point⟩) (link : promise.continue_ = linked callers)
    (idle : s.pending = [])
    (alike : ∀ caller ∈ callers.head?,
      caller.2.onward own promise.result = caller.2.onward type promise.result) :
    Mirrors type code store (s.finalSuspend own top).1
        (return_ (together s.store promise.result) (stackOf type callers)) ∧
      (s.finalSuspend own top).2 =
        (linked callers).toList.map fun parent => .resumed parent (.task top) := by
  cases callers with
  | nil =>
    cases live.chain with
    | bottom => exact finalSuspend_root live present link idle
  | cons caller callers =>
    exact finalSuspend_caller live present link idle (alike caller rfl)

/-- The end of a coroutine wakes the one that awaits it. -/
theorem woken_of_linked (live : Live s top callers) (control : s.control = .running top body) :
    Woken s ((linked callers).toList.map fun parent => .resumed parent (.task top)) := by
  intro handle waker frame member found
  cases live.chain with
  | bottom => cases member
  | caller waits _ =>
    have same := List.mem_singleton.mp member
    cases same
    rw [waits] at found
    cases found
    exact ⟨rfl, body, control⟩

omit [Inhabited Value] in
theorem filterMap_visible_linked :
    ((linked callers).toList.map fun parent =>
      (.resumed parent (.task top) : Event Request)).filterMap visible = [] := by
  cases linked callers <;> rfl

/-- The completion of the operation mirrors its result. -/
theorem mirrors_complete {request : Request} {result : Int} {next : Int → Code}
    (live : Live s top callers)
    (present : s.frames top = some ⟨⟨linked callers, none, default⟩, .awaitIo result next⟩)
    (pending : s.pending = [(request, top)]) (given : Int) :
    ∃ after, s.complete own 0 given =
        some (after, [.completed given, .resumed top (.io top)]) ∧
      Mirrors type code store after ⟨.evaluating (next given, s.store), stackOf type callers⟩ ∧
      Woken s [.completed given, .resumed top (.io top)] := by
  let taken := { s with pending := s.pending.eraseIdx 0 }
  have written : (taken.modify top (Frame.setResult given)).frames top =
      some ⟨⟨linked callers, none, default⟩, .awaitIo given next⟩ := modify_self present
  let after : State Name Code Value Exception Request :=
    { (taken.modify top (Frame.setResult given)).modify top (Frame.setPoint .running) with
      control := .running top (next given) }
  have resumed : (taken.modify top (Frame.setResult given)).resume own top (.io top) =
      (after, [.resumed top (.io top)]) := resume_of_awaitResume written rfl _
  have completed : s.complete own 0 given =
      some (after, [.completed given, .resumed top (.io top)]) := by
    have found : s.pending[0]? = some (request, top) := by rw [pending]; rfl
    unfold State.complete
    rw [found]
    show some (((taken.modify top (Frame.setResult given)).resume own top (.io top)).1,
      .completed given ::
        ((taken.modify top (Frame.setResult given)).resume own top (.io top)).2) = _
    rw [resumed]
  have emptied : s.pending.eraseIdx 0 = [] := by
    rw [pending]
    rfl
  have live : Live after top callers :=
    (((live.control taken.store taken.pending taken.control).modify _).modify _).control _ _ _
  refine ⟨after, completed, .running live (modify_self written) emptied rfl, ?_⟩
  intro handle waker frame member found
  rcases List.mem_cons.mp member with same | member
  · cases same
  · cases List.mem_singleton.mp member
    rw [present] at found
    cases found
    exact ⟨rfl, request, by rw [pending]; exact List.mem_singleton_self _⟩

/-- While a coroutine runs or waits, the task of `run_task` has not come to its end. -/
theorem done_eq_none {promise : Promise Value Exception} {point : Point Code Value Exception}
    (live : Live s top callers) (present : s.frames top = some ⟨promise, point⟩)
    (unended : point ≠ .final) : s.done = none := by
  unfold State.done
  rcases live.chain.root_waits with same | ⟨promise, child, awaiting, waits⟩
  · rw [← same, present]
    cases point with
    | final => exact absurd rfl unended
    | initial _ => rfl
    | awaitTask _ _ => rfl
    | awaitIo _ _ => rfl
    | running => rfl
  · rw [waits]

omit [Inhabited Value] in
theorem done_of_final {promise : Promise Value Exception}
    (present : s.frames root = some ⟨promise, .final⟩) : s.done = some promise.result := by
  unfold State.done
  rw [present]

theorem start_live (code : Code) (store : Store Name Value) :
    Live (start code store : State Name Code Value Exception Request) root [] where
  chain := .bottom
  distinct := List.nodup_singleton _
  bounded handle member := by
    rw [List.mem_singleton.mp member]
    exact Nat.lt_succ_self _
  others handle absent := by
    have apart : handle ≠ root := fun same => absent (by rw [same]; exact List.mem_cons_self)
    show Function.update (fun _ => none) root _ handle = none
    rw [Function.update_of_ne apart]

theorem start_root (code : Code) (store : Store Name Value) :
    (start code store : State Name Code Value Exception Request).frames root =
      some ⟨⟨none, none, default⟩, .initial code⟩ := by
  simp only [start, Function.update_self]

/-- `run_task` resumes its task. -/
theorem start_resumes (own : ValueType Value) (code : Code) (store : Store Name Value) :
    ∃ after : State Name Code Value Exception Request,
      (start code store).resume own root .runTask = (after, [.resumed root .runTask]) ∧
        Live after root [] ∧
        after.frames root = some ⟨⟨linked ([] : Callers Code Value Exception), none, default⟩,
          .running⟩ ∧ after.pending = [] ∧ after.control = .running root code ∧
        after.store = store := by
  have present : (start code store : State Name Code Value Exception Request).frames root = _ :=
    start_root code store
  refine ⟨_, resume_of_awaitResume present rfl _, ?_, modify_self present, rfl, rfl, rfl⟩
  exact ((start_live code store).modify _).control _ _ _

/-- How the coroutine that awaits another one goes on at its end. -/
def State.awaiting (s : State Name Code Value Exception Request) (handle : Handle) :
    Option (Awaiting Code Value Exception) :=
  match (s.frames handle).bind (fun frame => frame.promise.continue_) |>.bind s.frames with
  | some ⟨_, .awaitTask _ awaiting⟩ => some awaiting
  | _ => none

theorem awaiting_of_live {point : Point Code Value Exception}
    (live : Live s top callers)
    (present : s.frames top = some ⟨⟨linked callers, none, default⟩, point⟩) :
    s.awaiting top = callers.head?.map Prod.snd := by
  unfold State.awaiting
  rw [present]
  cases live.chain with
  | bottom => rfl
  | caller waits _ =>
    show (match s.frames _ with
      | some ⟨_, .awaitTask _ awaiting⟩ => some awaiting
      | _ => none) = _
    rw [waits]
    rfl

/-! ### What an instruction does -/

section Step

variable [DecidableEq Name]

/-- A call: the frame of the callee is the new top of the chain. -/
theorem mirrors_call (callee : Code) (awaiting : Awaiting Code Value Exception)
    (live : Live s top callers)
    (present : s.frames top = some ⟨⟨linked callers, none, default⟩, .running⟩)
    (idle : s.pending = []) :
    Mirrors type code store (s.perform own top (.call callee awaiting)).1
        ⟨.evaluating (callee, s.store), awaiting.asCall type :: stackOf type callers⟩ ∧
      (s.perform own top (.call callee awaiting)).2 = [.resumed s.allocated (.caller top)] := by
  have below : top < s.allocated := live.bounded top List.mem_cons_self
  have fresh : ∀ handle ∈ top :: callers.map Prod.fst, handle ≠ s.allocated :=
    fun handle member => Nat.ne_of_lt (live.bounded handle member)
  have other : s.allocated ≠ top := Nat.ne_of_gt below
  have created : (s.create callee).frames s.allocated =
      some ⟨⟨none, none, default⟩, .initial callee⟩ := Function.update_self _ _ _
  have kept : ∀ handle, handle ≠ s.allocated →
      (s.create callee).frames handle = s.frames handle :=
    fun handle apart => Function.update_of_ne apart _ _
  -- the caller is suspended, and the callee gets its handle
  let suspended := (s.create callee).modify top (Frame.setPoint (.awaitTask s.allocated awaiting))
  let awaited := suspended.modify s.allocated (Frame.setContinue top)
  have calleeFrame : awaited.frames s.allocated =
      some ⟨⟨some top, none, default⟩, .initial callee⟩ :=
    modify_self ((modify_of_ne other).trans created)
  have callerFrame : awaited.frames top =
      some ⟨⟨linked callers, none, default⟩, .awaitTask s.allocated awaiting⟩ := by
    have still := (kept top other.symm).trans present
    exact (modify_of_ne other.symm).trans (modify_self still)
  have others : ∀ handle, handle ≠ s.allocated → handle ≠ top →
      awaited.frames handle = s.frames handle := by
    intro handle notCallee notCaller
    rw [show awaited.frames handle = suspended.frames handle from modify_of_ne notCallee,
      show suspended.frames handle = (s.create callee).frames handle from modify_of_ne notCaller,
      kept handle notCallee]
  have resumed : s.perform own top (.call callee awaiting) =
      ({ awaited.modify s.allocated (Frame.setPoint .running) with
        control := .running s.allocated callee }, [.resumed s.allocated (.caller top)]) :=
    resume_of_awaitResume calleeFrame rfl _
  have grown : Live awaited s.allocated ((top, awaiting) :: callers) := by
    refine ⟨.caller callerFrame (live.chain.congr fun handle member => ?_), ?_, ?_, ?_⟩
    · exact others handle (fresh handle (List.mem_cons_of_mem _ member))
        fun same => live.top_not_mem (same ▸ member)
    · exact List.nodup_cons.mpr ⟨fun member => fresh _ member rfl, live.distinct⟩
    · intro handle member
      rcases List.mem_cons.mp member with same | member
      · rw [same]
        exact Nat.lt_succ_self _
      · exact Nat.lt_succ_of_lt (live.bounded handle member)
    · intro handle absent
      obtain ⟨notCallee, absent⟩ := List.ne_and_not_mem_of_not_mem_cons absent
      obtain ⟨notCaller, -⟩ := List.ne_and_not_mem_of_not_mem_cons absent
      rw [others handle notCallee notCaller]
      exact live.others handle absent
  rw [resumed]
  exact ⟨.running ((grown.modify _).control _ _ _) (modify_self calleeFrame) idle rfl, rfl⟩

/-- Where a coroutine is about to return, it makes no difference of which of two types the values
are. -/
structure Alike (own type : ValueType Value)
    (s : State Name Code Value Exception Request) (handle : Handle)
    (ran : Instruction Name Code Value Exception Request × Store Name Value) : Prop where
  operand : ∀ {operand}, ran.1 = .coReturn operand →
    operand.after own ran.2 = operand.after type ran.2
  reference : ∀ {operand awaiting}, ran.1 = .coReturn operand →
    s.awaiting handle = some awaiting →
      awaiting.onward own (.value (operand.value ran.2)) =
        awaiting.onward type (.value (operand.value ran.2))

/-- What a coroutine does mirrors what nested calls do. -/
theorem mirrors_execute (live : Live s top callers)
    (present : s.frames top = some ⟨⟨linked callers, none, default⟩, .running⟩)
    (idle : s.pending = []) (control : s.control = .running top body)
    (ran : Instruction Name Code Value Exception Request × Store Name Value)
    (alike : Alike own type s top ran) :
    let performed := DirectStyle.perform (stackOf type callers) (Instruction.asCall type ran)
    Mirrors type code store (s.execute own top ran).1 performed.1 ∧
      (s.execute own top ran).2.filterMap visible = performed.2 ∧
      Woken s (s.execute own top ran).2 := by
  obtain ⟨instruction, written⟩ := ran
  have moved : Live { s with store := written } top callers := live.control written _ _
  cases instruction with
  | coReturn operand =>
    let returned := ({ s with store := written } :
      State Name Code Value Exception Request).returnValue own top operand
    have same : operand.after own written = operand.after type written := alike.operand rfl
    have onward : ∀ caller ∈ callers.head?, caller.2.onward own (.value (operand.value written)) =
        caller.2.onward type (.value (operand.value written)) := fun caller first =>
      alike.reference rfl (by rw [awaiting_of_live live present, Option.mem_def.mp first]; rfl)
    have ended : Mirrors type code store (returned.finalSuspend own top).1
        (return_ (together (operand.after own written) (.value (operand.value written)))
          (stackOf type callers)) ∧ _ :=
      mirrors_finalSuspend (s := returned) (Live.control (Live.modify moved _) _ _ _)
        (modify_self present) rfl idle onward
    have events : (s.execute own top (.coReturn operand, written)).2 = _ := ended.2
    rw [events]
    refine ⟨?_, filterMap_visible_linked, woken_of_linked live control⟩
    show Mirrors type code store (returned.finalSuspend own top).1 (return_ (.value
      (operand.value written, operand.after type written)) (stackOf type callers))
    rw [← same]
    exact ended.1
  | throw exception =>
    let thrown := ({ s with store := written } :
      State Name Code Value Exception Request).modify top (Frame.unhandledException exception)
    have ended : Mirrors type code store (thrown.finalSuspend own top).1 _ ∧ _ :=
      mirrors_finalSuspend (moved.modify _) (modify_self present) rfl idle fun _ _ => rfl
    have events : (s.execute own top (.throw exception, written)).2 = _ := ended.2
    rw [events]
    exact ⟨ended.1, filterMap_visible_linked, woken_of_linked live control⟩
  | io request next =>
    have pending : s.pending ++ [(request, top)] = [(request, top)] := by
      rw [idle]
      rfl
    refine ⟨.waiting ((moved.modify _).control _ _ _) (modify_self present) pending rfl, rfl, ?_⟩
    intro handle waker frame member
    cases List.mem_singleton.mp member
  | call callee awaiting =>
    have called : Mirrors type code store (s.execute own top (.call callee awaiting, written)).1
        _ ∧ _ := mirrors_call callee awaiting moved present idle
    have events : (s.execute own top (.call callee awaiting, written)).2 = _ := called.2
    rw [events]
    refine ⟨called.1, rfl, fun handle waker frame member found => ?_⟩
    cases List.mem_singleton.mp member
    have fresh : s.allocated ∉ top :: callers.map Prod.fst :=
      fun member => Nat.lt_irrefl _ (live.bounded _ member)
    rw [live.others _ fresh] at found
    cases found

/-! ### Steps -/

variable {program : Program Name Code Value Exception Request} {action : Action}
  {config : Config (Code × Store Name Value) (Value × Store Name Value)
    (Exception × Store Name Value) Int} {events : List (Event Request)}

theorem run_running {handle : Handle} (control : s.control = .running handle body) :
    machine own program s .run = some (s.execute own handle (program body s.store)) := by
  simp only [machine, control]

theorem run_done (control : s.control = .runTask) (ended : s.done = some outcome) :
    machine own program s .run = some ({ s with control := .finished outcome }, []) := by
  simp only [machine, control, ended]
  rfl

/-- The same of the coroutine that runs. -/
def RunsAlike (own type : ValueType Value) (program : Program Name Code Value Exception Request)
    (s : State Name Code Value Exception Request) : Prop :=
  ∀ {handle body}, s.control = .running handle body →
    Alike own type s handle (program body s.store)

/-- A step of the coroutines is one of the nested calls, or none of them. -/
theorem mirrors_step (mirrors : Mirrors type code store s config)
    (alike : RunsAlike own type program s)
    (step : machine own program s action = some (next, events)) :
    Woken s events ∧ ∃ reached,
      Transitions.Reaches (stackMachine (callsOf type program)) config reached
        (events.filterMap visible) ∧
      Mirrors type code store next reached := by
  cases mirrors with
  | begin =>
    cases action with
    | complete place result => cases step
    | run =>
      obtain ⟨after, resumed, live, present, idle, control, unchanged⟩ :
        ∃ after : State Name Code Value Exception Request, _ := start_resumes own code store
      have stepped : some ((start code store).resume own root .runTask) = some (next, events) :=
        step
      rw [resumed] at stepped
      cases stepped
      refine ⟨fun handle waker frame member found => ?_, _, .start, ?_⟩
      · cases List.mem_singleton.mp member
        rw [start_root] at found
        cases found
        trivial
      · have mirrored : Mirrors type code store next _ := .running live present idle control
        rw [unchanged] at mirrored
        exact mirrored
  | running live present idle control =>
    cases action with
    | complete place result =>
      simp only [machine, control] at step
      cases step
    | run =>
      rename_i top callers body
      obtain ⟨mirrored, same, woken⟩ : Mirrors type code store _ _ ∧ _ ∧ _ :=
        mirrors_execute live present idle control (program body s.store) (alike control)
      rw [run_running control] at step
      rw [Option.some.inj step] at mirrored same woken
      refine ⟨woken, _, ?_, mirrored⟩
      rw [same]
      exact .next .start (DirectStyle.performs rfl)
  | waiting live present pending control =>
    cases action with
    | run =>
      simp only [machine, control, done_eq_none live present (fun same => by cases same)] at step
      cases step
    | complete place result =>
      simp only [machine, control] at step
      cases place with
      | zero =>
        obtain ⟨after, completed, mirrored, woken⟩ :
            ∃ after, _ ∧ Mirrors type code store _ _ ∧ _ :=
          mirrors_complete live present pending result
        rw [completed] at step
        cases step
        exact ⟨woken, _, .next .start (DirectStyle.answers result), mirrored⟩
      | succ place =>
        unfold State.complete at step
        rw [pending] at step
        cases step
  | done live present idle control =>
    have ended := done_of_final present
    rcases control with control | control
    · cases action with
      | run =>
        simp only [machine, control, ended] at step
        cases step
        refine ⟨fun handle waker frame member => (by cases member), _, .start, ?_⟩
        exact .done (live.control _ _ _) present idle (.inr rfl)
      | complete place result =>
        simp only [machine, control] at step
        unfold State.complete at step
        rw [idle] at step
        cases step
    · cases action with
      | run =>
        simp only [machine, control] at step
        cases step
      | complete place result =>
        simp only [machine, control] at step
        cases step

theorem mirrors_of_reaches {trace : List (Event Request)}
    (run : Transitions.Reaches (machine own program) (start code store) s trace) :
    ∃ config, Transitions.Reaches (stackMachine (callsOf own program))
      ⟨.evaluating (code, store), []⟩ config (trace.filterMap visible) ∧
      Mirrors own code store s config := by
  obtain ⟨config, shown, followed, rfl, mirrors⟩ :=
    run.simulates (Mirrors own code store) (fun trace shown => trace.filterMap visible = shown) rfl
      (fun first second _ _ same alike => by rw [List.filterMap_append, same, alike]) .begin
      fun _ _ _ _ _ mirrors step => by
        obtain ⟨-, reached, followed, mirrored⟩ :=
          mirrors_step mirrors (fun _ => ⟨fun _ => rfl, fun _ _ => rfl⟩) step
        exact ⟨reached, _, followed, rfl, mirrored⟩
  exact ⟨config, followed, mirrors⟩

omit [DecidableEq Name] in
/-- A state that is finished mirrors nested calls that have ended, and a wait mirrors a wait. -/
theorem mirrors_finished (mirrors : Mirrors type code store s config)
    (finished : s.control = .finished outcome) :
    config = ⟨.ended (together s.store outcome), []⟩ := by
  cases mirrors with
  | begin => cases finished
  | running _ _ _ control =>
    rw [control] at finished
    cases finished
  | waiting _ _ _ control =>
    rw [control] at finished
    cases finished
  | done _ _ _ control =>
    rcases control with control | control
    · rw [control] at finished
      cases finished
    · rw [control] at finished
      cases finished
      rfl

omit [DecidableEq Name] in
theorem mirrors_waits (mirrors : Mirrors type code store s config) (control : s.control = .runTask)
    (undone : s.done = none) : ∃ next stack, config = ⟨.waiting next, stack⟩ := by
  cases mirrors with
  | begin => cases control
  | running _ _ _ elsewhere =>
    rw [elsewhere] at control
    cases control
  | waiting _ _ _ _ => exact ⟨_, _, rfl⟩
  | done _ present _ _ =>
    rw [done_of_final present] at undone
    cases undone

/-- There is one thing to do in a state: nothing after the end, to go on with the result of the one
operation that is awaited, or to go on. -/
def Orderly (type : ValueType Value) (program : Program Name Code Value Exception Request)
    (s : State Name Code Value Exception Request) : Prop :=
  (∃ outcome, s.control = .finished outcome) ∨
  (machine type program s .run = none ∧ ∃ operation, s.pending = [operation] ∧
    ∀ result, (machine type program s (.complete 0 result)).isSome) ∨
  ((machine type program s .run).isSome ∧ s.pending = [])

theorem orderly_of_mirrors (mirrors : Mirrors own code store s config) :
    Orderly own program s := by
  cases mirrors with
  | begin => exact .inr (.inr ⟨rfl, rfl⟩)
  | running _ _ idle control =>
    refine .inr (.inr ⟨?_, idle⟩)
    rw [run_running control]
    rfl
  | waiting live present pending control =>
    refine .inr (.inl ⟨?_, _, pending, fun result => ?_⟩)
    · simp only [machine, control, done_eq_none live present (fun same => by cases same)]
      rfl
    · obtain ⟨after, completed, -⟩ :
          ∃ after, s.complete own 0 result = some (after, _) ∧ Mirrors own code store _ _ ∧ _ :=
        mirrors_complete live present pending result
      simp only [machine, control, completed]
      rfl
  | done _ present idle control =>
    rcases control with control | control
    · refine .inr (.inr ⟨?_, idle⟩)
      simp only [machine, control, done_of_final present]
      rfl
    · exact .inl ⟨_, control⟩

omit [DecidableEq Name] in
/-- When the task has come to its end, control is in `run_task` or behind it. -/
theorem control_of_done (mirrors : Mirrors type code store s config)
    (done : s.done = some outcome) : s.control = .runTask ∨ s.control = .finished outcome := by
  cases mirrors with
  | begin =>
    unfold State.done at done
    rw [start_root] at done
    cases done
  | running live present _ _ =>
    rw [done_eq_none live present (fun same => by cases same)] at done
    cases done
  | waiting _ _ _ control => exact .inl control
  | done _ present _ control =>
    rw [done_of_final present] at done
    cases done
    exact control

/-! ### Runs in which nothing is taken away -/

/-- The next step takes nothing away. A variable that is returned, and outlives the coroutine, is
`const` or the same after a move; and a value that is bound to a reference where it is returned to
is still found there. -/
structure Keeps (type : ValueType Value) (program : Program Name Code Value Exception Request)
    (s : State Name Code Value Exception Request) : Prop where
  operand : ∀ {handle body name}, s.control = .running handle body →
    (program body s.store).1 = .coReturn (.lvalue name) →
      type.moved ((program body s.store).2 name) = (program body s.store).2 name
  reference : ∀ {handle body operand awaiting}, s.control = .running handle body →
    (program body s.store).1 = .coReturn operand → s.awaiting handle = some awaiting →
      awaiting.byReference = true →
        type.stale (operand.value (program body s.store).2) =
          operand.value (program body s.store).2

omit [Inhabited Value] [DecidableEq Name] in
theorem keeps_of_not_running (elsewhere : ∀ handle body, s.control ≠ .running handle body) :
    Keeps own program s :=
  ⟨fun running => (elsewhere _ _ running).elim, fun running => (elsewhere _ _ running).elim⟩

omit [Inhabited Value] in
/-- Then it makes no difference that an ordinary `return` copies. -/
theorem runsAlike_of_keeps (keeps : Keeps own program s) : RunsAlike own ordinary program s := by
  intro handle body control
  refine ⟨fun {operand} returns => ?_, fun {operand awaiting} returns awaits => ?_⟩
  · cases operand with
    | rvalue value => rfl
    | constLvalue name => rfl
    | lvalue name =>
      show Function.update (program body s.store).2 name
          (own.moved ((program body s.store).2 name)) =
        Function.update (program body s.store).2 name ((program body s.store).2 name)
      rw [keeps.operand control returns]
  · show awaiting.next (.value (if awaiting.byReference then own.stale _ else _)) =
      awaiting.next (.value (if awaiting.byReference then _ else _))
    cases bound : awaiting.byReference with
    | false => rfl
    | true =>
      rw [keeps.reference control returns awaits bound]
      rfl

/-- A step of nested calls is one or two steps of the coroutines, unless these come to a step that
takes something away. -/
theorem follows_step (own : ValueType Value) {act : DirectStyle.Action Int}
    {reached : Config (Code × Store Name Value) (Value × Store Name Value)
      (Exception × Store Name Value) Int} {shown : List (DirectStyle.Event Request Int)}
    (mirrors : Mirrors ordinary code store s config)
    (step : stackMachine (callsOf ordinary program) config act = some (reached, shown)) :
    (∃ next trace, Transitions.ReachesBy (fun s _ => Keeps own program s) (machine own program) s
        next trace ∧ trace.filterMap visible = shown ∧ Mirrors ordinary code store next reached) ∨
      ∃ next trace, Transitions.ReachesBy (fun s _ => Keeps own program s) (machine own program) s
        next trace ∧ trace.filterMap visible = [] ∧ ¬Keeps own program next := by
  -- what a coroutine that runs does
  have runs : ∀ {s : State Name Code Value Exception Request} {top : Handle}
      {callers : Callers Code Value Exception} {body : Code}, Live s top callers →
      s.frames top = some ⟨⟨linked callers, none, default⟩, .running⟩ → s.pending = [] →
      s.control = .running top body → Keeps own program s →
      stackMachine (callsOf ordinary program)
        ⟨.evaluating (body, s.store), stackOf ordinary callers⟩ act = some (reached, shown) →
      ∃ next trace, machine own program s .run = some (next, trace) ∧
        trace.filterMap visible = shown ∧ Mirrors ordinary code store next reached := by
    intro s top callers body live present idle control keeps step
    cases act with
    | complete result => cases step
    | run =>
      obtain ⟨mirrored, same, -⟩ : Mirrors ordinary code store _ _ ∧ _ ∧ _ :=
        mirrors_execute live present idle control (program body s.store)
          (runsAlike_of_keeps keeps control)
      have performed : some (DirectStyle.perform (stackOf ordinary callers)
          (Instruction.asCall ordinary (program body s.store))) = some (reached, shown) := step
      rw [Option.some.inj performed] at mirrored same
      exact ⟨_, _, run_running control, same, mirrored⟩
  cases mirrors with
  | begin =>
    obtain ⟨after, resumed, live, present, idle, control, unchanged⟩ :
      ∃ after : State Name Code Value Exception Request, _ := start_resumes own code store
    have stepped : machine own program (start code store) .run =
      some (after, [.resumed root .runTask]) := congrArg some resumed
    have first : Transitions.ReachesBy (fun s _ => Keeps own program s) (machine own program)
        (start code store) after [.resumed root .runTask] :=
      .next .start (keeps_of_not_running fun _ _ running => by cases running) stepped
    by_cases keeps : Keeps own program after
    · rw [← unchanged] at step
      obtain ⟨next, trace, second, same, mirrored⟩ := runs live present idle control keeps step
      exact .inl ⟨next, _, first.next keeps second, same, mirrored⟩
    · exact .inr ⟨after, _, first, rfl, keeps⟩
  | running live present idle control =>
    by_cases keeps : Keeps own program s
    · obtain ⟨next, trace, stepped, same, mirrored⟩ := runs live present idle control keeps step
      exact .inl ⟨next, _, .next .start keeps stepped, same, mirrored⟩
    · exact .inr ⟨s, _, .start, rfl, keeps⟩
  | waiting live present pending control =>
    cases act with
    | run => cases step
    | complete result =>
      rw [DirectStyle.answers] at step
      cases step
      obtain ⟨after, completed, mirrored, -⟩ :
          ∃ after, _ ∧ Mirrors ordinary code store _ _ ∧ _ :=
        mirrors_complete live present pending result
      have stepped : machine own program s (.complete 0 result) = s.complete own 0 result := by
        simp only [machine, control]
      refine .inl ⟨_, _, .next .start (keeps_of_not_running fun _ _ running => ?_)
        (stepped.trans completed), rfl, mirrored⟩
      rw [control] at running
      cases running
  | done _ _ _ _ => cases act <;> cases step

theorem mirrors_of_reachesBy {trace : List (Event Request)}
    (run : Transitions.ReachesBy (fun s _ => Keeps own program s) (machine own program)
      (start code store) s trace) :
    ∃ config, Transitions.Reaches (stackMachine (callsOf ordinary program))
      ⟨.evaluating (code, store), []⟩ config (trace.filterMap visible) ∧
      Mirrors ordinary code store s config := by
  refine run.invariant (fun s trace => ∃ config, Transitions.Reaches
    (stackMachine (callsOf ordinary program)) ⟨.evaluating (code, store), []⟩ config
      (trace.filterMap visible) ∧ Mirrors ordinary code store s config) ⟨_, .start, .begin⟩ ?_
  rintro s trace action next events - ⟨config, followed, mirrors⟩ keeps step
  obtain ⟨-, reached, later, mirrored⟩ := mirrors_step mirrors (runsAlike_of_keeps keeps) step
  refine ⟨reached, ?_, mirrored⟩
  rw [List.filterMap_append]
  exact followed.trans later

theorem follows_of_reaches (own : ValueType Value) {shown : List (DirectStyle.Event Request Int)}
    (run : Transitions.Reaches (stackMachine (callsOf ordinary program))
      ⟨.evaluating (code, store), []⟩ config shown) :
    (∃ s trace, Transitions.ReachesBy (fun s _ => Keeps own program s) (machine own program)
        (start code store) s trace ∧ trace.filterMap visible = shown ∧
        Mirrors ordinary code store s config) ∨
      ∃ s trace, Transitions.ReachesBy (fun s _ => Keeps own program s) (machine own program)
        (start code store) s trace ∧ trace.filterMap visible <+: shown ∧
        ¬Keeps own program s := by
  induction run with
  | start => exact .inl ⟨_, _, .start, rfl, .begin⟩
  | next _ step inductionHypothesis =>
    rcases inductionHypothesis with
      ⟨s, trace, before, rfl, mirrors⟩ | ⟨s, trace, before, seen, takes⟩
    · rcases follows_step own mirrors step with
        ⟨next, later, after, rfl, mirrored⟩ | ⟨next, later, after, silent, takes⟩
      · exact .inl ⟨next, _, before.trans after, List.filterMap_append, mirrored⟩
      · refine .inr ⟨next, _, before.trans after, ?_, takes⟩
        rw [List.filterMap_append, silent, List.append_nil]
        exact List.prefix_append _ _
    · exact .inr ⟨s, trace, before, seen.trans (List.prefix_append _ _), takes⟩

/-! ### Coroutines and nested calls -/

/-- Coroutines behave like nested calls: with the same input and output, `run_task` ends with the
same outcome, and waits where they wait. At every step there is one thing to do, a suspended
coroutine is resumed by what it awaits, and at the end control is back in `run_task`. -/
structure BehavesAsCalls (type : ValueType Value)
    (program : Program Name Code Value Exception Request) (code : Code)
    (store : Store Name Value) : Prop where
  ends : ∀ outcome io,
    (∃ s trace, Transitions.Reaches (machine type program) (start code store) s trace ∧
      trace.filterMap visible = io ∧ s.control = .finished outcome) ↔
    ∃ left, Evaluates (callsOf ordinary program) (code, store) io (some (together left outcome))
  waits : ∀ io,
    (∃ s trace, Transitions.Reaches (machine type program) (start code store) s trace ∧
      trace.filterMap visible = io ∧ s.control = .runTask ∧ s.done = none) ↔
    Evaluates (callsOf ordinary program) (code, store) io none
  orderly : ∀ s trace, Transitions.Reaches (machine type program) (start code store) s trace →
    Orderly type program s ∧
    (∀ outcome, s.done = some outcome → s.control = .runTask ∨ s.control = .finished outcome) ∧
    ∀ action next events, machine type program s action = some (next, events) → Woken s events

/-- How a state of the coroutines stands when nested calls end or wait. -/
def StandsAt (s : State Name Code Value Exception Request) :
    Option (Outcome (Value × Store Name Value) (Exception × Store Name Value)) → Prop
  | some ending => ∃ outcome, s.control = .finished outcome ∧ ending = together s.store outcome
  | none => s.control = .runTask ∧ s.done = none

/-- Coroutines behave like nested calls as long as nothing is taken away. -/
structure FollowsCalls (type : ValueType Value)
    (program : Program Name Code Value Exception Request) (code : Code)
    (store : Store Name Value) : Prop where
  /-- What a run comes to in which nothing is taken away, nested calls come to as well, and leave
  the variables the same. -/
  sound : ∀ {s trace ending}, Transitions.ReachesBy (fun s _ => Keeps type program s)
    (machine type program) (start code store) s trace → StandsAt s ending →
      Evaluates (callsOf ordinary program) (code, store) (trace.filterMap visible) ending
  /-- What nested calls come to, the coroutines come to as well, unless they come to a step that
  takes something away. -/
  complete : ∀ {io ending}, Evaluates (callsOf ordinary program) (code, store) io ending →
    (∃ s trace, Transitions.ReachesBy (fun s _ => Keeps type program s) (machine type program)
      (start code store) s trace ∧ trace.filterMap visible = io ∧ StandsAt s ending) ∨
    ∃ s trace, Transitions.ReachesBy (fun s _ => Keeps type program s) (machine type program)
      (start code store) s trace ∧ trace.filterMap visible <+: io ∧ ¬Keeps type program s
  /-- Whatever is taken away, each state has one thing to do, and who is resumed has got what it
  awaits. -/
  orderly : ∀ s trace, Transitions.Reaches (machine type program) (start code store) s trace →
    Orderly type program s ∧
    (∀ outcome, s.done = some outcome → s.control = .runTask ∨ s.control = .finished outcome) ∧
    ∀ action next events, machine type program s action = some (next, events) → Woken s events
  whole : (∀ s trace, Transitions.Reaches (machine type program) (start code store) s trace →
    Keeps type program s) → BehavesAsCalls type program code store

omit [Inhabited Value] [DecidableEq Name] in
theorem outcome_of_together {left : Store Name Value} {ended : Outcome Value Exception}
    (same : together store outcome = together left ended) : outcome = ended := by
  cases outcome <;> cases ended <;> cases same <;> rfl

theorem sound_of_reachesBy {trace : List (Event Request)}
    {ending : Option (Outcome (Value × Store Name Value) (Exception × Store Name Value))}
    (run : Transitions.ReachesBy (fun s _ => Keeps own program s) (machine own program)
      (start code store) s trace) (stands : StandsAt s ending) :
    Evaluates (callsOf ordinary program) (code, store) (trace.filterMap visible) ending := by
  obtain ⟨config, followed, mirrors⟩ := mirrors_of_reachesBy run
  cases ending with
  | some ending =>
    obtain ⟨outcome, finished, rfl⟩ := stands
    rw [mirrors_finished mirrors finished] at followed
    exact DirectStyle.ends_iff_evaluates.mp followed
  | none =>
    obtain ⟨next, stack, rfl⟩ := mirrors_waits mirrors stands.1 stands.2
    exact DirectStyle.waits_iff_evaluates.mp ⟨next, stack, followed⟩

theorem complete_of_evaluates (own : ValueType Value)
    {io : List (DirectStyle.Event Request Int)}
    {ending : Option (Outcome (Value × Store Name Value) (Exception × Store Name Value))}
    (evaluates : Evaluates (callsOf ordinary program) (code, store) io ending) :
    (∃ s trace, Transitions.ReachesBy (fun s _ => Keeps own program s) (machine own program)
      (start code store) s trace ∧ trace.filterMap visible = io ∧ StandsAt s ending) ∨
    ∃ s trace, Transitions.ReachesBy (fun s _ => Keeps own program s) (machine own program)
      (start code store) s trace ∧ trace.filterMap visible <+: io ∧ ¬Keeps own program s := by
  cases ending with
  | some ending =>
    rcases follows_of_reaches own (DirectStyle.ends_iff_evaluates.mpr evaluates) with
      ⟨s, trace, run, same, mirrors⟩ | departed
    · refine .inl ?_
      generalize given : (⟨.ended ending, []⟩ : Config (Code × Store Name Value)
        (Value × Store Name Value) (Exception × Store Name Value) Int) = config at mirrors
      cases mirrors with
      | begin => cases given
      | running _ _ _ _ => cases given
      | waiting _ _ _ _ => cases given
      | done _ present _ control =>
        cases given
        rcases control with control | control
        · have idle : Keeps own program s := keeps_of_not_running fun _ _ running => by
            rw [control] at running
            cases running
          refine ⟨_, _, run.next idle (run_done control (done_of_final present)), ?_, _, rfl, rfl⟩
          rw [List.append_nil]
          exact same
        · exact ⟨s, trace, run, same, _, control, rfl⟩
    · exact .inr departed
  | none =>
    obtain ⟨next, stack, waited⟩ := DirectStyle.waits_iff_evaluates.mpr evaluates
    rcases follows_of_reaches own waited with ⟨s, trace, run, same, mirrors⟩ | departed
    · refine .inl ?_
      generalize given : (⟨.waiting next, stack⟩ : Config (Code × Store Name Value)
        (Value × Store Name Value) (Exception × Store Name Value) Int) = config at mirrors
      cases mirrors with
      | begin => cases given
      | running _ _ _ _ => cases given
      | waiting live present _ control =>
        exact ⟨s, trace, run, same, control,
          done_eq_none live present (fun same => by cases same)⟩
      | done _ _ _ _ => cases given
    · exact .inr departed

theorem orderly_of_reaches {trace : List (Event Request)}
    (run : Transitions.Reaches (machine own program) (start code store) s trace) :
    Orderly own program s ∧
    (∀ outcome, s.done = some outcome → s.control = .runTask ∨ s.control = .finished outcome) ∧
    ∀ action next events, machine own program s action = some (next, events) → Woken s events := by
  obtain ⟨config, -, mirrors⟩ := mirrors_of_reaches run
  exact ⟨orderly_of_mirrors mirrors, fun _ done => control_of_done mirrors done,
    fun _ _ _ step => (mirrors_step mirrors (fun _ => ⟨fun _ => rfl, fun _ _ => rfl⟩) step).1⟩

/-- Where no run ever takes anything away, coroutines behave like nested calls. -/
theorem behavesAsCalls (always : ∀ s trace, Transitions.Reaches (machine own program)
    (start code store) s trace → Keeps own program s) :
    BehavesAsCalls own program code store where
  ends outcome io := by
    constructor
    · rintro ⟨s, trace, run, rfl, finished⟩
      exact ⟨s.store, sound_of_reachesBy
        (run.reachesBy fun s trace _ before => always s trace before) ⟨outcome, finished, rfl⟩⟩
    · rintro ⟨left, evaluates⟩
      rcases complete_of_evaluates own evaluates with
        ⟨s, trace, run, same, ended, finished, alike⟩ | ⟨s, trace, run, -, takes⟩
      · exact ⟨s, trace, run.reaches, same, outcome_of_together alike ▸ finished⟩
      · exact (takes (always s trace run.reaches)).elim
  waits io := by
    constructor
    · rintro ⟨s, trace, run, rfl, control, undone⟩
      exact sound_of_reachesBy (run.reachesBy fun s trace _ before => always s trace before)
        ⟨control, undone⟩
    · intro evaluates
      rcases complete_of_evaluates own evaluates with
        ⟨s, trace, run, same, control, undone⟩ | ⟨s, trace, run, -, takes⟩
      · exact ⟨s, trace, run.reaches, same, control, undone⟩
      · exact (takes (always s trace run.reaches)).elim
  orderly _ _ run := orderly_of_reaches run

theorem runTask_followsCalls (type : ValueType Value)
    (program : Program Name Code Value Exception Request) (code : Code)
    (store : Store Name Value) : FollowsCalls type program code store where
  sound run stands := sound_of_reachesBy run stands
  complete evaluates := complete_of_evaluates type evaluates
  orderly _ _ run := orderly_of_reaches run
  whole always := behavesAsCalls always

end Step

/-! ### A variable that is returned twice -/

section Twice

/-- A task that awaits another one, that one, and what the first one does then. -/
inductive TwiceCode
  | root
  | child
  | after

/-- Both tasks return the same variable. -/
def twice : Program Unit TwiceCode String Empty Empty
  | .root, store => (.call .child ⟨false, fun _ => .after⟩, store)
  | .child, store => (.coReturn (.lvalue ()), store)
  | .after, store => (.coReturn (.lvalue ()), store)

/-- A move leaves an empty string. -/
def strings : ValueType String where
  moved _ := ""
  stale value := value

/-- As nested calls, both tasks return what the variable holds. -/
theorem evaluates_twice {store : Store Unit String} {io : List (DirectStyle.Event Empty Int)}
    {ending : Option (Outcome (String × Store Unit String) (Empty × Store Unit String))}
    (evaluates : Evaluates (callsOf ordinary twice) (.root, store) io ending) :
    ∃ left, ending = some (.value (store (), left)) := by
  -- a return of the variable
  have returns {code : TwiceCode} {store : Store Unit String}
      {io : List (DirectStyle.Event Empty Int)}
      {ending : Option (Outcome (String × Store Unit String) (Empty × Store Unit String))}
      (here : callsOf ordinary twice (code, store) =
        .ret (store (), Function.update store () (store ())))
      (evaluates : Evaluates (callsOf ordinary twice) (code, store) io ending) :
      ending = some (.value (store (), Function.update store () (store ()))) := by
    cases evaluates with
    | ret same =>
      cases here.symm.trans same
      rfl
    | throw same => cases here.symm.trans same
    | io same _ => cases here.symm.trans same
    | ioWaits same => cases here.symm.trans same
    | call same _ _ => cases here.symm.trans same
    | callWaits same _ => cases here.symm.trans same
  cases evaluates with
  | ret same => cases same
  | throw same => cases same
  | io same _ => cases same
  | ioWaits same => cases same
  | call same calls goesOn =>
    cases same
    cases returns rfl calls
    exact ⟨_, (returns rfl goesOn).trans (by rw [Function.update_self])⟩
  | callWaits same calls =>
    cases same
    cases returns rfl calls

/-- As coroutines, the second one returns what the first one has left. -/
theorem not_behavesAsCalls_twice :
    ¬BehavesAsCalls strings twice .root (fun _ => "abc") := by
  intro claimed
  have traced : (Transitions.execute (machine strings twice) (start .root fun _ => "abc")
      [.run, .run, .run, .run, .run]).map (fun reached => (reached.1.control,
        reached.2.filterMap visible)) = some (.finished (.value ""), []) := rfl
  obtain ⟨⟨s, trace⟩, executed, same⟩ := Option.map_eq_some_iff.mp traced
  obtain ⟨finished, silent⟩ := Prod.mk.inj same
  obtain ⟨left, evaluates⟩ := (claimed.ends (.value "") []).mp
    ⟨s, trace, Transitions.reaches_of_execute executed, silent, finished⟩
  obtain ⟨_, same⟩ := evaluates_twice evaluates
  injection same with same
  injection same with same
  have emptied : "" = "abc" := congrArg Prod.fst same
  exact absurd emptied (by decide)

end Twice

end Task

end Sheep
