/-
This file is a library for loops that read a buffer symbol by symbol.

A loop body sees the symbols before the current one, the current one and the
symbols after it, and answers with a turn: leave the loop, go on with the next
symbol, or jump over some symbols first. A turn also notes what the body looked
at. `feed` folds a body over a stretch of the buffer. `Runs` is the weakest
precondition of a stretch for every lookahead at once, `feed_invariant` is the
invariant rule of the loop, and `feed_agree` relates two runs over one buffer.
-/

import Mathlib.Data.List.Basic

namespace ScanLoop

variable {Symbol State Result Note : Type}

/-! ### Cutting lists -/

/-- The first member of a list that fails a test. -/
theorem exists_first_failure {list : List Symbol} {holds : Symbol → Prop}
    (fails : ¬ ∀ member ∈ list, holds member) :
    ∃ front member back, list = front ++ member :: back ∧ (∀ earlier ∈ front, holds earlier) ∧
      ¬ holds member := by
  induction list with
  | nil => exact absurd (fun part member => absurd member List.not_mem_nil) fails
  | cons first rest inductionHypothesis =>
    by_cases here : holds first
    · have later : ¬ ∀ part ∈ rest, holds part := fun all =>
        fails (List.forall_mem_cons.mpr ⟨here, all⟩)
      obtain ⟨front, part, back, same, before, failure⟩ := inductionHypothesis later
      exact ⟨first :: front, part, back, by rw [same]; rfl,
        List.forall_mem_cons.mpr ⟨here, before⟩, failure⟩
    · exact ⟨[], first, rest, rfl, fun earlier member => absurd member List.not_mem_nil, here⟩

/-- A proper prefix stops before the last symbol. -/
theorem prefix_dropLast {read text : List Symbol} (cut : read <+: text) (proper : read ≠ text) :
    read <+: text.dropLast := by
  rcases List.eq_nil_or_concat text with rfl | ⟨front, last, rfl⟩
  · exact cut
  · rw [List.concat_eq_append] at cut proper ⊢
    rw [List.dropLast_concat]
    exact (List.prefix_concat_iff.mp cut).resolve_left proper

/-- A prefix of two stretches stops inside the first, at its end, or inside the second. -/
theorem prefix_cases {read first second : List Symbol} (cut : read <+: first ++ second) :
    (read <+: first ∧ read ≠ first) ∨ read = first ∨
      ∃ more, more ≠ [] ∧ read = first ++ more ∧ more <+: second := by
  obtain ⟨rest, same⟩ := cut
  rcases List.append_eq_append_iff.mp same with ⟨left, sameFirst, _⟩ | ⟨more, sameRead, sameSecond⟩
  · by_cases whole : read = first
    · exact Or.inr (Or.inl whole)
    · exact Or.inl ⟨⟨left, sameFirst.symm⟩, whole⟩
  · by_cases empty : more = []
    · exact Or.inr (Or.inl (by rw [sameRead, empty, List.append_nil]))
    · exact Or.inr (Or.inr ⟨more, empty, sameRead, ⟨rest, sameSecond.symm⟩⟩)

/-! ### Turns and runs of a loop body -/

/-- One turn of the loop body. -/
inductive Turn (State Result Note : Type)
  | leave (result : Result) (notes : List Note := [])
  | go (next : State) (notes : List Note := [])
  | jump (count : Nat) (next : State) (notes : List Note := [])

/-- What a turn noted. -/
def Turn.notes : Turn State Result Note → List Note
  | .leave _ notes => notes
  | .go _ notes => notes
  | .jump _ _ notes => notes

/-- A loop body reads the symbols before the current one, the current one, and the symbols
after it. -/
abbrev Body (Symbol State Result Note : Type) :=
  List Symbol → Symbol → List Symbol → State → Turn State Result Note

/-- Where a loop stands: it has left with a result, or it is inside with some symbols still to
be jumped over. -/
inductive Progress (State Result : Type)
  | left (result : Result)
  | inside (skip : Nat) (state : State)

/-- Run the body over `input`. The buffer also holds `before`, already read, and `ahead`, not
read yet. -/
def feed (body : Body Symbol State Result Note) :
    List Symbol → List Symbol → List Symbol → Nat → State → Progress State Result
  | _, [], _, skip, state => .inside skip state
  | before, symbol :: input, ahead, 0, state =>
      match body before symbol (input ++ ahead) state with
      | .leave result _ => .left result
      | .go next _ => feed body (before ++ [symbol]) input ahead 0 next
      | .jump count next _ => feed body (before ++ [symbol]) input ahead count next
  | before, symbol :: input, ahead, skip + 1, state =>
      feed body (before ++ [symbol]) input ahead skip state

/-- Run the loop over a whole buffer. It ends by leaving, by reaching the end of the buffer
exactly, or by having jumped beyond it. -/
def run (body : Body Symbol State Result Note) (finish overrun : State → Result)
    (input : List Symbol) (start : State) : Result :=
  match feed body [] input [] 0 start with
  | .left result => result
  | .inside 0 state => finish state
  | .inside (_ + 1) state => overrun state

/-- The result of a loop that ends by leaving or by reaching the end of the buffer. -/
def Progress.result (finish : State → Result) : Progress State Result → Result
  | .left result => result
  | .inside _ state => finish state

variable (body : Body Symbol State Result Note)

theorem run_eq_result (finish : State → Result) (input : List Symbol) (start : State) :
    run body finish finish input start = (feed body [] input [] 0 start).result finish := by
  unfold run
  cases feed body [] input [] 0 start with
  | left result => rfl
  | inside skip state => cases skip <;> rfl

@[simp] theorem feed_nil (before ahead : List Symbol) (skip : Nat) (state : State) :
    feed body before [] ahead skip state = .inside skip state := rfl

theorem feed_cons (before : List Symbol) (symbol : Symbol) (input ahead : List Symbol)
    (state : State) :
    feed body before (symbol :: input) ahead 0 state =
      match body before symbol (input ++ ahead) state with
      | .leave result _ => .left result
      | .go next _ => feed body (before ++ [symbol]) input ahead 0 next
      | .jump count next _ => feed body (before ++ [symbol]) input ahead count next := rfl

@[simp] theorem feed_cons_skip (before : List Symbol) (symbol : Symbol)
    (input ahead : List Symbol) (skip : Nat) (state : State) :
    feed body before (symbol :: input) ahead (skip + 1) state =
      feed body (before ++ [symbol]) input ahead skip state := rfl

variable {body}

theorem feed_cons_leave {before : List Symbol} {symbol : Symbol} {input ahead : List Symbol}
    {state : State} {result : Result} {notes : List Note}
    (turn : body before symbol (input ++ ahead) state = .leave result notes) :
    feed body before (symbol :: input) ahead 0 state = .left result := by
  rw [feed_cons, turn]

theorem feed_cons_go {before : List Symbol} {symbol : Symbol} {input ahead : List Symbol}
    {state next : State} {notes : List Note}
    (turn : body before symbol (input ++ ahead) state = .go next notes) :
    feed body before (symbol :: input) ahead 0 state =
      feed body (before ++ [symbol]) input ahead 0 next := by
  rw [feed_cons, turn]

theorem feed_cons_jump {before : List Symbol} {symbol : Symbol} {input ahead : List Symbol}
    {state next : State} {count : Nat} {notes : List Note}
    (turn : body before symbol (input ++ ahead) state = .jump count next notes) :
    feed body before (symbol :: input) ahead 0 state =
      feed body (before ++ [symbol]) input ahead count next := by
  rw [feed_cons, turn]

/-! ### Composition -/

/-- Feeding two stretches is feeding the first and, unless the loop left there, the second. -/
theorem feed_append (before first second ahead : List Symbol) (skip : Nat) (state : State) :
    feed body before (first ++ second) ahead skip state =
      match feed body before first (second ++ ahead) skip state with
      | .left result => .left result
      | .inside skip' state' => feed body (before ++ first) second ahead skip' state' := by
  induction first generalizing before skip state with
  | nil => simp
  | cons symbol rest inductionHypothesis =>
    have shift : before ++ symbol :: rest = (before ++ [symbol]) ++ rest := by simp
    cases skip with
    | zero =>
      rw [List.cons_append, feed_cons, feed_cons, List.append_assoc, shift]
      cases body before symbol (rest ++ (second ++ ahead)) state with
      | leave result notes => rfl
      | go next notes => exact inductionHypothesis _ _ _
      | jump count next notes => exact inductionHypothesis _ _ _
    | succ skip =>
      rw [List.cons_append, feed_cons_skip, feed_cons_skip, shift]
      exact inductionHypothesis _ _ _

theorem feed_append_of_inside {before first second ahead : List Symbol} {skip skip' : Nat}
    {state state' : State}
    (stays : feed body before first (second ++ ahead) skip state = .inside skip' state') :
    feed body before (first ++ second) ahead skip state =
      feed body (before ++ first) second ahead skip' state' := by
  rw [feed_append, stays]

theorem feed_append_of_left {before first second ahead : List Symbol} {skip : Nat}
    {state : State} {result : Result}
    (leaves : feed body before first (second ++ ahead) skip state = .left result) :
    feed body before (first ++ second) ahead skip state = .left result := by
  rw [feed_append, leaves]

/-- Symbols that are jumped over change nothing. -/
theorem feed_skip (before jumped input ahead : List Symbol) (state : State) :
    feed body before (jumped ++ input) ahead jumped.length state =
      feed body (before ++ jumped) input ahead 0 state := by
  induction jumped generalizing before with
  | nil => simp
  | cons symbol rest inductionHypothesis =>
    rw [List.cons_append, List.length_cons, feed_cons_skip, inductionHypothesis]
    simp

/-- A loop that leaves does so at one symbol, reached from inside. -/
theorem exists_leave_of_feed {before input ahead : List Symbol} {skip : Nat} {state : State}
    {result : Result} (leaves : feed body before input ahead skip state = .left result) :
    ∃ first symbol second reached notes, input = first ++ symbol :: second ∧
      feed body before first (symbol :: second ++ ahead) skip state = .inside 0 reached ∧
      body (before ++ first) symbol (second ++ ahead) reached = .leave result notes := by
  induction input generalizing before skip state with
  | nil => cases leaves
  | cons symbol rest inductionHypothesis =>
    cases skip with
    | zero =>
      -- Both ways to stay inside leave later, so they share this step.
      have extend (count : Nat) (next : State)
          (turn : ∀ tail, tail = rest ++ ahead →
            feed body before [symbol] tail 0 state = .inside count next)
          (later : feed body (before ++ [symbol]) rest ahead count next = .left result) :
          ∃ first symbol' second reached notes,
            symbol :: rest = first ++ symbol' :: second ∧
            feed body before first (symbol' :: second ++ ahead) 0 state = .inside 0 reached ∧
            body (before ++ first) symbol' (second ++ ahead) reached = .leave result notes := by
        obtain ⟨first, symbol', second, reached, notes, split, inside, leave⟩ :=
          inductionHypothesis later
        refine ⟨symbol :: first, symbol', second, reached, notes, by rw [split]; rfl, ?_, ?_⟩
        · have joined : feed body before ([symbol] ++ first) (symbol' :: second ++ ahead) 0 state =
              feed body (before ++ [symbol]) first (symbol' :: second ++ ahead) count next :=
            feed_append_of_inside (turn _ (by rw [split]; simp))
          exact joined.trans inside
        · simpa using leave
      rw [feed_cons] at leaves
      cases turn : body before symbol (rest ++ ahead) state with
      | leave result' notes =>
        rw [turn] at leaves
        injection leaves with same
        subst same
        exact ⟨[], symbol, rest, state, notes, rfl, rfl, by simpa using turn⟩
      | go next notes =>
        rw [turn] at leaves
        refine extend 0 next (fun tail same => ?_) leaves
        subst same
        exact feed_cons_go turn
      | jump count next notes =>
        rw [turn] at leaves
        refine extend count next (fun tail same => ?_) leaves
        subst same
        exact feed_cons_jump turn
    | succ skip =>
      obtain ⟨first, symbol', second, reached, notes, split, inside, leave⟩ :=
        inductionHypothesis leaves
      exact ⟨symbol :: first, symbol', second, reached, notes, by rw [split]; rfl, inside,
        by simpa using leave⟩

/-! ### Where a loop leaves -/

/-- With `rest` behind it the loop leaves at the last symbol of a text, and no earlier. -/
def LeavesAt (body : Body Symbol State Result Note) (start : State) (text rest : List Symbol)
    (result : Result) : Prop :=
  ∃ opening last reached notes, text = opening ++ [last] ∧
    feed body [] opening (last :: rest) 0 start = .inside 0 reached ∧
    body opening last rest reached = .leave result notes

theorem LeavesAt.feed {start : State} {text rest : List Symbol} {result : Result}
    (leaves : LeavesAt body start text rest result) :
    ScanLoop.feed body [] (text ++ rest) [] 0 start = .left result := by
  obtain ⟨opening, last, reached, notes, rfl, inside, leave⟩ := leaves
  rw [List.append_assoc, feed_append_of_inside (by rw [List.append_nil]; exact inside)]
  exact feed_cons_leave (by rw [List.append_nil]; exact leave)

theorem exists_leavesAt_of_feed {start : State} {input : List Symbol} {result : Result}
    (left : feed body [] input [] 0 start = .left result) :
    ∃ text rest, input = text ++ rest ∧ LeavesAt body start text rest result := by
  obtain ⟨opening, last, rest, reached, notes, rfl, inside, leave⟩ := exists_leave_of_feed left
  rw [List.append_nil] at inside leave
  exact ⟨opening ++ [last], rest, by simp, opening, last, reached, notes, rfl, inside, leave⟩

/-- Of two texts that a buffer starts with, the loop cannot leave at the first one and go through
it to the second. -/
theorem LeavesAt.not_longer {start : State} {text rest text' rest' : List Symbol}
    {result result' : Result} (leaves : LeavesAt body start text rest result)
    (leaves' : LeavesAt body start text' rest' result') {more : List Symbol}
    (longer : text' = text ++ more) (behind : rest = more ++ rest') : more = [] := by
  by_contra nonempty
  obtain ⟨opening, last, reached, notes, rfl, inside, leave⟩ := leaves
  obtain ⟨opening', last', reached', notes', shape, inside', _⟩ := leaves'
  obtain ⟨middle, final, rfl⟩ := (List.eq_nil_or_concat' more).resolve_left nonempty
  rw [longer, ← List.append_assoc] at shape
  obtain ⟨rfl, same⟩ := List.append_inj' shape rfl
  cases same
  have ahead : rest = middle ++ (last' :: rest') := by rw [behind, List.append_assoc]; rfl
  rw [ahead] at inside leave
  have left : ScanLoop.feed body [] (opening ++ last :: middle) (last' :: rest') 0 start =
      .left result := by
    rw [feed_append_of_inside inside]
    exact feed_cons_leave leave
  rw [List.append_assoc, List.singleton_append, left] at inside'
  cases inside'

/-- A loop leaves at one place only. -/
theorem LeavesAt.unique {start : State} {text rest text' rest' : List Symbol}
    {result result' : Result} (leaves : LeavesAt body start text rest result)
    (leaves' : LeavesAt body start text' rest' result') (same : text ++ rest = text' ++ rest') :
    text = text' := by
  rcases List.append_eq_append_iff.mp same with ⟨more, longer, behind⟩ | ⟨more, longer, behind⟩
  · rw [longer, leaves.not_longer leaves' longer behind, List.append_nil]
  · rw [longer, leaves'.not_longer leaves longer behind, List.append_nil]

/-! ### Weakest preconditions for every lookahead -/

/-- The turn goes on with the next symbol, in a state where `post` holds. -/
def Turn.Onward (post : State → Prop) : Turn State Result Note → Prop
  | .go next _ => post next
  | .leave _ _ => False
  | .jump _ _ _ => False

@[simp] theorem onward_go (post : State → Prop) (next : State) (notes : List Note) :
    (Turn.go next notes : Turn State Result Note).Onward post ↔ post next := Iff.rfl

theorem Turn.Onward.exists_go {turn : Turn State Result Note} {post : State → Prop}
    (onward : turn.Onward post) : ∃ next notes, turn = .go next notes ∧ post next := by
  cases turn with
  | go next notes => exact ⟨next, notes, rfl, onward⟩
  | leave result notes => exact absurd onward id
  | jump count next notes => exact absurd onward id

theorem Turn.Onward.mono {turn : Turn State Result Note} {post weaker : State → Prop}
    (onward : turn.Onward post) (weaken : ∀ next, post next → weaker next) :
    turn.Onward weaker := by
  cases turn with
  | go next notes => exact weaken next onward
  | leave result notes => exact onward
  | jump count next notes => exact onward

/-- Whatever lies ahead at each symbol, the loop goes through `input` without leaving or
jumping, and ends where `post` holds. -/
def Runs (body : Body Symbol State Result Note) :
    List Symbol → List Symbol → State → (List Symbol → State → Prop) → Prop
  | before, [], state, post => post before state
  | before, symbol :: input, state, post =>
      ∀ ahead, (body before symbol ahead state).Onward fun next =>
        Runs body (before ++ [symbol]) input next post

theorem Runs.mono {before input : List Symbol} {state : State}
    {post weaker : List Symbol → State → Prop} (runs : Runs body before input state post)
    (weaken : ∀ state', post (before ++ input) state' → weaker (before ++ input) state') :
    Runs body before input state weaker := by
  induction input generalizing before state with
  | nil => simpa [Runs] using weaken state (by simpa [Runs] using runs)
  | cons symbol rest inductionHypothesis =>
    intro ahead
    refine (runs ahead).mono fun next later => inductionHypothesis later fun state' => ?_
    have shift : before ++ [symbol] ++ rest = before ++ symbol :: rest := by simp
    rw [shift]
    exact weaken state'

/-- The rule of composition. -/
theorem runs_append {before first second : List Symbol} {state : State}
    {post : List Symbol → State → Prop} :
    Runs body before (first ++ second) state post ↔
      Runs body before first state fun before' state' =>
        Runs body before' second state' post := by
  induction first generalizing before state with
  | nil => rfl
  | cons symbol rest inductionHypothesis =>
    constructor
    · exact fun runs ahead => (runs ahead).mono fun next => inductionHypothesis.mp
    · exact fun runs ahead => (runs ahead).mono fun next => inductionHypothesis.mpr

theorem Runs.append {before first second : List Symbol} {state : State}
    {middle post : List Symbol → State → Prop} (runs : Runs body before first state middle)
    (later : ∀ state', middle (before ++ first) state' →
      Runs body (before ++ first) second state' post) :
    Runs body before (first ++ second) state post :=
  runs_append.mpr (runs.mono later)

/-- The rule of one symbol. -/
theorem runs_cons {before input : List Symbol} {symbol : Symbol} {state : State}
    {post : List Symbol → State → Prop}
    (onward : ∀ ahead, (body before symbol ahead state).Onward fun next =>
      Runs body (before ++ [symbol]) input next post) :
    Runs body before (symbol :: input) state post := onward

/-- The rule of the end of a stretch. -/
theorem runs_nil {before : List Symbol} {state : State} {post : List Symbol → State → Prop}
    (holds : post before state) : Runs body before [] state post := holds

/-- The rule of symbols at which the state loops. -/
theorem runs_loop {before input : List Symbol} {state : State}
    {post : List Symbol → State → Prop}
    (loops : ∀ symbol ∈ input, ∀ before' ahead,
      (body before' symbol ahead state).Onward (· = state))
    (holds : post (before ++ input) state) : Runs body before input state post := by
  induction input generalizing before with
  | nil => simpa [Runs] using holds
  | cons symbol rest inductionHypothesis =>
    intro ahead
    refine (loops symbol List.mem_cons_self before ahead).mono fun next same => ?_
    subst same
    refine inductionHypothesis (fun other member => ?_) (by simpa using holds)
    exact loops other (List.mem_cons_of_mem _ member)

/-- A token: one symbol of a first kind and then symbols of a second kind. -/
def Token (first rest : Symbol → Prop) : List Symbol → Prop
  | [] => False
  | symbol :: symbols => first symbol ∧ ∀ other ∈ symbols, rest other

instance (first rest : Symbol → Prop) [DecidablePred first] [DecidablePred rest]
    (text : List Symbol) : Decidable (Token first rest text) := by
  cases text <;> unfold Token <;> infer_instance

theorem Token.ne_nil {first rest : Symbol → Prop} {text : List Symbol}
    (token : Token first rest text) : text ≠ [] := by
  rintro rfl
  exact token

/-- All symbols of a token of one kind are of that kind. -/
theorem Token.forall_mem {kind : Symbol → Prop} {text : List Symbol}
    (token : Token kind kind text) :
    ∀ symbol ∈ text, kind symbol := by
  cases text with
  | nil => exact absurd token id
  | cons first rest => exact List.forall_mem_cons.mpr token

theorem Token.snoc {first rest : Symbol → Prop} {text : List Symbol} {symbol : Symbol}
    (token : Token first rest text) (continues : rest symbol) :
    Token first rest (text ++ [symbol]) := by
  cases text with
  | nil => exact absurd token id
  | cons head tail =>
    refine ⟨token.1, fun other member => ?_⟩
    rcases List.mem_append.mp member with old | new
    · exact token.2 other old
    · rw [List.mem_singleton.mp new]
      exact continues

/-- A token of one kind is one of another if its symbols are. -/
theorem Token.imp {first rest first' rest' : Symbol → Prop} {text : List Symbol}
    (token : Token first rest text) (starts : ∀ symbol ∈ text, first symbol → first' symbol)
    (continues : ∀ symbol ∈ text, rest symbol → rest' symbol) : Token first' rest' text := by
  cases text with
  | nil => exact token
  | cons head tail =>
    exact ⟨starts head List.mem_cons_self token.1, fun other member =>
      continues other (List.mem_cons_of_mem _ member) (token.2 other member)⟩

/-- Where a text stops being a token. -/
theorem exists_of_not_token {first rest : Symbol → Prop} {text : List Symbol}
    (fails : ¬ Token first rest text) :
    text = [] ∨ (∃ symbol more, text = symbol :: more ∧ ¬ first symbol) ∨
      ∃ front symbol back, text = front ++ symbol :: back ∧ Token first rest front ∧
        ¬ rest symbol := by
  cases text with
  | nil => exact Or.inl rfl
  | cons head tail =>
    refine Or.inr ?_
    by_cases starts : first head
    · obtain ⟨front, symbol, back, same, before, failure⟩ :=
        exists_first_failure fun all => fails ⟨starts, all⟩
      exact Or.inr ⟨head :: front, symbol, back, by rw [same]; rfl, ⟨starts, before⟩, failure⟩
    · exact Or.inl ⟨head, tail, rfl, starts⟩

/-- Symbols of a kind up to the first one that is not can be told from what follows. -/
theorem append_cons_inj_of_stop {kind : Symbol → Prop} {text text' more more' : List Symbol}
    {stop stop' : Symbol} (all : ∀ symbol ∈ text, kind symbol) (ends : ¬ kind stop)
    (all' : ∀ symbol ∈ text', kind symbol) (ends' : ¬ kind stop')
    (same : text ++ stop :: more = text' ++ stop' :: more') :
    text = text' ∧ stop = stop' ∧ more = more' := by
  induction text generalizing text' with
  | nil =>
    cases text' with
    | nil => exact ⟨rfl, List.cons.inj same⟩
    | cons symbol others =>
      obtain ⟨rfl, _⟩ := List.cons.inj same
      exact absurd (all' stop List.mem_cons_self) ends
  | cons symbol others inductionHypothesis =>
    cases text' with
    | nil =>
      obtain ⟨rfl, _⟩ := List.cons.inj same
      exact absurd (all symbol List.mem_cons_self) ends'
    | cons symbol' others' =>
      obtain ⟨rfl, sameRest⟩ := List.cons.inj same
      obtain ⟨rfl, rest⟩ := inductionHypothesis (List.forall_mem_cons.mp all).2
        (List.forall_mem_cons.mp all').2 sameRest
      exact ⟨rfl, rest⟩

/-- A token can be told from what follows. -/
theorem Token.append_cons_inj {first first' rest : Symbol → Prop}
    {text text' more more' : List Symbol} {stop stop' : Symbol} (token : Token first rest text)
    (ends : ¬ rest stop) (token' : Token first' rest text') (ends' : ¬ rest stop')
    (same : text ++ stop :: more = text' ++ stop' :: more') :
    text = text' ∧ stop = stop' ∧ more = more' := by
  cases text with
  | nil => exact absurd token id
  | cons symbol others =>
    cases text' with
    | nil => exact absurd token' id
    | cons symbol' others' =>
      obtain ⟨rfl, sameRest⟩ := List.cons.inj same
      obtain ⟨rfl, more⟩ := append_cons_inj_of_stop token.2 ends token'.2 ends' sameRest
      exact ⟨rfl, more⟩

theorem token_singleton {first rest : Symbol → Prop} {symbol : Symbol} (starts : first symbol) :
    Token first rest [symbol] :=
  ⟨starts, fun _ member => absurd member List.not_mem_nil⟩

/-- The rule of a token between two states: the first symbol enters the second state, which
loops on the others. -/
theorem Token.runs {first rest : Symbol → Prop} {text before : List Symbol}
    {state : State} {post : List Symbol → State → Prop} (token : Token first rest text)
    (inside : State)
    (enters : ∀ symbol ahead, first symbol →
      (body before symbol ahead state).Onward (· = inside))
    (loops : ∀ symbol before' ahead, rest symbol →
      (body before' symbol ahead inside).Onward (· = inside))
    (holds : post (before ++ text) inside) : Runs body before text state post := by
  cases text with
  | nil => exact absurd token id
  | cons symbol symbols =>
    refine runs_cons fun ahead => (enters symbol ahead token.1).mono fun next same => ?_
    subst same
    refine runs_loop (fun other member before' ahead' => ?_) (by simpa using holds)
    exact loops other before' ahead' (token.2 other member)

theorem Token.runs_append {first rest : Symbol → Prop} {text before input : List Symbol}
    {state : State} {post : List Symbol → State → Prop} (token : Token first rest text)
    (inside : State)
    (enters : ∀ symbol ahead, first symbol →
      (body before symbol ahead state).Onward (· = inside))
    (loops : ∀ symbol before' ahead, rest symbol →
      (body before' symbol ahead inside).Onward (· = inside))
    (later : Runs body (before ++ text) input inside post) :
    Runs body before (text ++ input) state post :=
  ScanLoop.runs_append.mpr (token.runs inside enters loops later)

/-- Under any one lookahead the loop goes through. -/
theorem Runs.feed {before input : List Symbol} {state : State}
    {post : List Symbol → State → Prop} (runs : Runs body before input state post)
    (ahead : List Symbol) :
    ∃ state', ScanLoop.feed body before input ahead 0 state = .inside 0 state' ∧
      post (before ++ input) state' := by
  induction input generalizing before state with
  | nil => exact ⟨state, rfl, by simpa [Runs] using runs⟩
  | cons symbol rest inductionHypothesis =>
    have onward := runs (rest ++ ahead)
    cases turn : body before symbol (rest ++ ahead) state with
    | leave result notes => rw [turn] at onward; exact absurd onward id
    | jump count next notes => rw [turn] at onward; exact absurd onward id
    | go next notes =>
      rw [turn] at onward
      obtain ⟨state', inside, holds⟩ := inductionHypothesis onward
      exact ⟨state', by rw [feed_cons_go turn, inside], by simpa using holds⟩

/-- A loop that goes through one stretch and leaves in the next leaves in both. -/
theorem Runs.feed_left {before first second ahead : List Symbol} {state : State}
    {post : List Symbol → State → Prop} {final : Result → Prop}
    (runs : Runs body before first state post)
    (leaves : ∀ state', post (before ++ first) state' → ∃ result,
      ScanLoop.feed body (before ++ first) second ahead 0 state' = .left result ∧ final result) :
    ∃ result, ScanLoop.feed body before (first ++ second) ahead 0 state = .left result ∧
      final result := by
  obtain ⟨state', inside, holds⟩ := runs.feed (second ++ ahead)
  obtain ⟨result, left, good⟩ := leaves state' holds
  exact ⟨result, by rw [feed_append_of_inside inside, left], good⟩

/-- Cutting a stretch short is harmless. -/
theorem Runs.take {before first second : List Symbol} {state : State}
    {post : List Symbol → State → Prop} (runs : Runs body before (first ++ second) state post) :
    Runs body before first state fun _ _ => True :=
  (runs_append.mp runs).mono fun _ _ => trivial

/-- A stretch cut short is gone through under any one lookahead. -/
theorem Runs.feed_of_isPrefix {before text read : List Symbol} {state : State}
    {post : List Symbol → State → Prop} (runs : Runs body before text state post)
    (cut : read <+: text) (ahead : List Symbol) :
    ∃ state', ScanLoop.feed body before read ahead 0 state = .inside 0 state' := by
  obtain ⟨rest, rfl⟩ := cut
  obtain ⟨state', inside, _⟩ := runs.take.feed ahead
  exact ⟨state', inside⟩

/-! ### The invariant rule -/

/-- What a turn leads to: `stay` holds of where the loop stands next, `final` of a result. -/
def Turn.Leads (stay : Nat → State → Prop) (final : Result → Prop) :
    Turn State Result Note → Prop
  | .leave result _ => final result
  | .go next _ => stay 0 next
  | .jump count next _ => stay count next

/-- What a run leads to. -/
def Progress.Leads (stay : Nat → State → Prop) (final : Result → Prop) :
    Progress State Result → Prop
  | .left result => final result
  | .inside skip state => stay skip state

section Leads

variable {stay : Nat → State → Prop} {final : Result → Prop}

@[simp] theorem leads_leave (result : Result) (notes : List Note) :
    (Turn.leave result notes : Turn State Result Note).Leads stay final ↔ final result := Iff.rfl

@[simp] theorem leads_go (next : State) (notes : List Note) :
    (Turn.go next notes : Turn State Result Note).Leads stay final ↔ stay 0 next := Iff.rfl

@[simp] theorem leads_jump (count : Nat) (next : State) (notes : List Note) :
    (Turn.jump count next notes : Turn State Result Note).Leads stay final ↔ stay count next :=
  Iff.rfl

theorem Turn.Leads.mono {turn : Turn State Result Note} {weaker : Nat → State → Prop}
    {weakerFinal : Result → Prop} (leads : turn.Leads stay final)
    (weaken : ∀ skip state, stay skip state → weaker skip state)
    (weakenFinal : ∀ result, final result → weakerFinal result) :
    turn.Leads weaker weakerFinal := by
  cases turn with
  | leave result notes => exact weakenFinal result leads
  | go next notes => exact weaken 0 next leads
  | jump count next notes => exact weaken count next leads

theorem Turn.Leads.and {turn : Turn State Result Note} {stay' : Nat → State → Prop}
    {final' : Result → Prop} (leads : turn.Leads stay final) (leads' : turn.Leads stay' final') :
    turn.Leads (fun skip state => stay skip state ∧ stay' skip state)
      (fun result => final result ∧ final' result) := by
  cases turn with
  | leave result notes => exact ⟨leads, leads'⟩
  | go next notes => exact ⟨leads, leads'⟩
  | jump count next notes => exact ⟨leads, leads'⟩

end Leads

/-- The invariant rule of a loop over the rest of a buffer: what holds where the loop stands and
is kept by every turn, holds where the loop ends. The invariant speaks about the symbols read so
far. -/
theorem feed_invariant (Invariant : List Symbol → Nat → State → Prop) {final : Result → Prop}
    {before input ahead : List Symbol} {skip : Nat} {start : State}
    (initial : Invariant before skip start)
    (turns : ∀ before' symbol after state,
      before' ++ symbol :: after = before ++ input ++ ahead → Invariant before' 0 state →
      (body before' symbol after state).Leads (Invariant (before' ++ [symbol])) final)
    (jumped : ∀ before' symbol skip state, Invariant before' (skip + 1) state →
      Invariant (before' ++ [symbol]) skip state) :
    (feed body before input ahead skip start).Leads (Invariant (before ++ input)) final := by
  induction input generalizing before skip start with
  | nil =>
    rw [List.append_nil]
    exact initial
  | cons symbol rest inductionHypothesis =>
    have shift : before ++ symbol :: rest = (before ++ [symbol]) ++ rest := by simp
    rw [shift] at turns ⊢
    cases skip with
    | succ skip => exact inductionHypothesis (jumped _ _ _ _ initial) turns
    | zero =>
      have leads := turns before symbol (rest ++ ahead) start (by simp) initial
      rw [feed_cons]
      cases turn : body before symbol (rest ++ ahead) start with
      | leave result notes =>
        rw [turn] at leads
        exact leads
      | go next notes =>
        rw [turn] at leads
        exact inductionHypothesis leads turns
      | jump count next notes =>
        rw [turn] at leads
        exact inductionHypothesis leads turns

/-- A loop that never jumps over symbols and never leaves but by a turn: the same rule for an
invariant that does not count jumps. -/
theorem feed_invariant_of_no_jump (Invariant : List Symbol → State → Prop) {final : Result → Prop}
    {before input ahead : List Symbol} {start : State} (initial : Invariant before start)
    (turns : ∀ before' symbol after state,
      before' ++ symbol :: after = before ++ input ++ ahead → Invariant before' state →
      (body before' symbol after state).Leads
        (fun skip next => skip = 0 ∧ Invariant (before' ++ [symbol]) next) final) :
    (feed body before input ahead 0 start).Leads
      (fun skip state => skip = 0 ∧ Invariant (before ++ input) state) final :=
  feed_invariant (fun before' skip state => skip = 0 ∧ Invariant before' state)
    ⟨rfl, initial⟩ (fun _ _ _ _ split holds => turns _ _ _ _ split holds.2)
    (fun _ _ _ _ holds => absurd holds.1 (Nat.succ_ne_zero _))

/-! ### Two runs -/

section Agree

variable {State' Result' Note' : Type}

/-- Two turns go the same way: where they stay the states are related, where they leave the
results are. -/
def Turn.Agree (stay : Nat → State → State' → Prop) (final : Result → Result' → Prop) :
    Turn State Result Note → Turn State' Result' Note' → Prop
  | .leave result _, .leave result' _ => final result result'
  | .go next _, .go next' _ => stay 0 next next'
  | .jump count next _, .jump count' next' _ => count = count' ∧ stay count next next'
  | _, _ => False

/-- Two runs end the same way. -/
def Progress.Agree (stay : Nat → State → State' → Prop) (final : Result → Result' → Prop) :
    Progress State Result → Progress State' Result' → Prop
  | .left result, .left result' => final result result'
  | .inside skip state, .inside skip' state' => skip = skip' ∧ stay skip state state'
  | _, _ => False

variable {stay : Nat → State → State' → Prop} {final : Result → Result' → Prop}

@[simp] theorem agree_leave (result : Result) (result' : Result') (notes : List Note)
    (notes' : List Note') :
    (Turn.leave result notes : Turn State Result Note).Agree stay final
      (Turn.leave result' notes' : Turn State' Result' Note') ↔ final result result' := Iff.rfl

@[simp] theorem agree_go (next : State) (next' : State') (notes : List Note)
    (notes' : List Note') :
    (Turn.go next notes : Turn State Result Note).Agree stay final
      (Turn.go next' notes' : Turn State' Result' Note') ↔ stay 0 next next' := Iff.rfl

section Turns

variable {turn : Turn State Result Note} {turn' : Turn State' Result' Note'}

theorem Turn.Agree.mono {weaker : Nat → State → State' → Prop}
    (agree : turn.Agree stay final turn')
    (weaken : ∀ skip state state', stay skip state state' → weaker skip state state') :
    turn.Agree weaker final turn' := by
  cases turn with
  | leave result notes =>
    cases turn' with
    | leave result' notes' => exact agree
    | go next' notes' => exact absurd agree id
    | jump count' next' notes' => exact absurd agree id
  | go next notes =>
    cases turn' with
    | leave result' notes' => exact absurd agree id
    | go next' notes' => exact weaken 0 next next' agree
    | jump count' next' notes' => exact absurd agree id
  | jump count next notes =>
    cases turn' with
    | leave result' notes' => exact absurd agree id
    | go next' notes' => exact absurd agree id
    | jump count' next' notes' => exact ⟨agree.1, weaken count next next' agree.2⟩

/-- Two turns that go the same way lead where the first one leads. -/
theorem Turn.Agree.and_leads {known : Nat → State → Prop} {told : Result → Prop}
    (agree : turn.Agree stay final turn') (leads : turn.Leads known told) :
    turn.Agree (fun skip next next' => stay skip next next' ∧ known skip next) final turn' := by
  cases turn with
  | leave result notes =>
    cases turn' with
    | leave result' notes' => exact agree
    | go next' notes' => exact absurd agree id
    | jump count' next' notes' => exact absurd agree id
  | go next notes =>
    cases turn' with
    | leave result' notes' => exact absurd agree id
    | go next' notes' => exact ⟨agree, leads⟩
    | jump count' next' notes' => exact absurd agree id
  | jump count next notes =>
    cases turn' with
    | leave result' notes' => exact absurd agree id
    | go next' notes' => exact absurd agree id
    | jump count' next' notes' => exact ⟨agree.1, agree.2, leads⟩

/-- A third turn that goes the same way as both guides them: what it is known to lead to can be
used about the two. -/
theorem Turn.Agree.and_guide {Guide Said Remark : Type} {guide : Turn Guide Said Remark}
    {known : Nat → Guide → Prop} {told : Said → Prop} {near : Nat → Guide → State → Prop}
    {near' : Nat → Guide → State' → Prop} {tells : Said → Result → Prop}
    {tells' : Said → Result' → Prop} (agree : turn.Agree stay final turn')
    (leads : guide.Leads known told) (first : guide.Agree near tells turn)
    (second : guide.Agree near' tells' turn') :
    turn.Agree (fun skip next next' => stay skip next next' ∧
      ∃ guide, known skip guide ∧ near skip guide next ∧ near' skip guide next') final turn' := by
  cases turn with
  | leave result notes =>
    cases turn' with
    | leave result' notes' => exact agree
    | go next' notes' => exact absurd agree id
    | jump count' next' notes' => exact absurd agree id
  | go next notes =>
    cases turn' with
    | leave result' notes' => exact absurd agree id
    | go next' notes' =>
      cases guide with
      | leave said remarks => exact absurd first id
      | go position remarks => exact ⟨agree, position, leads, first, second⟩
      | jump count position remarks => exact absurd first id
    | jump count' next' notes' => exact absurd agree id
  | jump count next notes =>
    cases turn' with
    | leave result' notes' => exact absurd agree id
    | go next' notes' => exact absurd agree id
    | jump count' next' notes' =>
      cases guide with
      | leave said remarks => exact absurd first id
      | go position remarks => exact absurd first id
      | jump far position remarks =>
        obtain ⟨rfl, related⟩ := agree
        obtain ⟨rfl, near⟩ := first
        exact ⟨rfl, related, position, leads, near, second.2⟩

end Turns

/-- The rule of two runs over the same symbols: if turns from related states go the same way and
keep the states related, so do the runs. The relation may speak about the symbols read so far. -/
theorem feed_agree {body : Body Symbol State Result Note} {body' : Body Symbol State' Result' Note'}
    (stay : List Symbol → Nat → State → State' → Prop) {before input ahead : List Symbol}
    {skip : Nat} {start : State} {start' : State'} (initial : stay before skip start start')
    (turns : ∀ before' symbol after state state',
      before' ++ symbol :: after = before ++ input ++ ahead → stay before' 0 state state' →
      (body before' symbol after state).Agree (stay (before' ++ [symbol])) final
        (body' before' symbol after state'))
    (skipped : ∀ before' symbol skip state state', stay before' (skip + 1) state state' →
      stay (before' ++ [symbol]) skip state state') :
    (feed body before input ahead skip start).Agree (stay (before ++ input)) final
      (feed body' before input ahead skip start') := by
  induction input generalizing before skip start start' with
  | nil =>
    rw [List.append_nil]
    exact ⟨rfl, initial⟩
  | cons symbol rest inductionHypothesis =>
    have shift : before ++ symbol :: rest = (before ++ [symbol]) ++ rest := by simp
    rw [shift] at turns ⊢
    cases skip with
    | succ skip => exact inductionHypothesis (skipped _ _ _ _ _ initial) turns
    | zero =>
      have agree := turns before symbol (rest ++ ahead) start start' (by simp) initial
      rw [feed_cons, feed_cons]
      generalize body before symbol (rest ++ ahead) start = turned at agree ⊢
      generalize body' before symbol (rest ++ ahead) start' = turned' at agree ⊢
      cases turned with
      | leave result notes =>
        cases turned' with
        | leave result' notes' => exact agree
        | go next' notes' => exact absurd agree id
        | jump count' next' notes' => exact absurd agree id
      | go next notes =>
        cases turned' with
        | leave result' notes' => exact absurd agree id
        | go next' notes' => exact inductionHypothesis agree turns
        | jump count' next' notes' => exact absurd agree id
      | jump count next notes =>
        cases turned' with
        | leave result' notes' => exact absurd agree id
        | go next' notes' => exact absurd agree id
        | jump count' next' notes' =>
          obtain ⟨rfl, related⟩ := agree
          exact inductionHypothesis related turns

/-- Two loops over a whole buffer end with related results. -/
theorem run_agree {body : Body Symbol State Result Note} {body' : Body Symbol State' Result' Note'}
    (stay : List Symbol → Nat → State → State' → Prop) {input : List Symbol} {start : State}
    {start' : State'} (initial : stay [] 0 start start')
    (turns : ∀ before symbol after state state', before ++ symbol :: after = input →
      stay before 0 state state' →
      (body before symbol after state).Agree (stay (before ++ [symbol])) final
        (body' before symbol after state'))
    (skipped : ∀ before symbol skip state state', stay before (skip + 1) state state' →
      stay (before ++ [symbol]) skip state state')
    {finish overrun : State → Result} {finish' overrun' : State' → Result'}
    (finished : ∀ state state', stay input 0 state state' → final (finish state) (finish' state'))
    (overran : ∀ skip state state', stay input (skip + 1) state state' →
      final (overrun state) (overrun' state')) :
    final (run body finish overrun input start) (run body' finish' overrun' input start') := by
  have agree : (feed body [] input [] 0 start).Agree (stay ([] ++ input)) final
      (feed body' [] input [] 0 start') :=
    feed_agree stay initial (fun _ _ _ _ _ split => turns _ _ _ _ _ (by
      rw [split, List.nil_append, List.append_nil])) skipped
  unfold run
  generalize feed body [] input [] 0 start = ended at agree ⊢
  generalize feed body' [] input [] 0 start' = ended' at agree ⊢
  cases ended with
  | left result =>
    cases ended' with
    | left result' => exact agree
    | inside skip' state' => exact absurd agree id
  | inside skip state =>
    cases ended' with
    | left result' => exact absurd agree id
    | inside skip' state' =>
      obtain ⟨rfl, related⟩ := agree
      cases skip with
      | zero => exact finished state state' related
      | succ skip => exact overran skip state state' related

end Agree

/-! ### Notes -/

/-- A run notes what the body looks at in the turns it takes. -/
def Noted (body : Body Symbol State Result Note) (input : List Symbol) (start : State)
    (note : Note) : Prop :=
  ∃ before symbol after state, input = before ++ symbol :: after ∧
    feed body [] before (symbol :: after) 0 start = .inside 0 state ∧
    note ∈ (body before symbol after state).notes

end ScanLoop
