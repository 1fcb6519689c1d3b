/-
This file says which buffers `UriParser::parse` completes, which it calls incomplete
and which it refuses. A buffer that has the form of a uri is judged by what stands
behind its path, a buffer that ends before the path is completed as it is, and
everything else is an error. It follows which buffers are completed rightly: they
have got to their path, and do not start with the colon behind the scheme.
-/

import Sheep.UriPorts

namespace Sheep

open ScanLoop

namespace UriParser

/-! ### The grammar -/

abbrev IsPort (digits : List Byte) : Prop := Token (isDigit · = true) (isDigit · = true) digits

/-- What stands between the slashes and the path. -/
inductive Authority : List Byte → Prop
  | bare {host : List Byte} {port : Option (List Byte)} (isName : IsName host)
      (isPort : ∀ digits ∈ port, IsPort digits) : Authority (host ++ portBytes port)
  | behindUser {user : List Byte × Option (List Byte)} {host : List Byte}
      {port : Option (List Byte)} (isUser : IsUser user) (isHost : IsHost host)
      (isPort : ∀ digits ∈ port, IsPort digits) :
      Authority (userBytes (some user) ++ host ++ portBytes port)

/-- Everything before the slash of the path. -/
inductive Front : List Byte → Prop
  | lead {scheme lead authority : List Byte} (isLead : IsLead scheme lead)
      (isAuthority : Authority authority) : Front (lead ++ authority)

/-- The buffer has the form of a uri, and what stands behind its path is judged so. -/
inductive Spells : List Byte → UriParseResult → Prop
  | parts {front path tail : List Byte} {verdict : UriParseResult} (isFront : Front front)
      (isPath : Token (· = chr '/') PathByte path) (ending : Ending tail verdict) :
      Spells (front ++ path ++ tail) verdict

/-! ### What has the form of a uri is read up to its path -/

section Complete

variable {after before : List Byte} {l : Locals}

/-- A host that is known to be one, up to the slash. -/
theorem runs_hostSlash {host : List Byte} (isHost : IsHost host)
    (state : l.state = .hostnameStart) :
    Runs (turn after) before (host ++ [chr '/']) l fun _ l' =>
      l' = ⟨.path, (before ++ host).length, { l.uri with
        hostname := .range before.length (before ++ host).length }⟩ := by
  refine runs_openHost isHost state (runs_cons fun ahead => ?_)
  simp only [turn, plain_mark (.inr (.inr rfl)), (by decide : chr '/' ≠ chr ':'),
    Bool.false_eq_true, if_false, if_true, onward_go]
  exact runs_nil rfl

/-- A name that turns out to be a host, up to the slash. -/
theorem runs_nameSlash {name : List Byte} (isName : IsName name) (state : l.state.AtName) :
    Runs (turn after) before (name ++ [chr '/']) l fun _ l' =>
      l' = ⟨.path, (before ++ name).length, { l.uri with
        hostname := .range before.length (before ++ name).length }⟩ := by
  refine runs_name isName state (runs_cons fun ahead => ?_)
  simp only [turn, plain_mark (.inr (.inr rfl)), (by decide : chr '/' ≠ chr ':'),
    (by decide : chr '/' ≠ chr '@'), Bool.false_eq_true, if_false, if_true, onward_go]
  exact runs_nil rfl

/-- At the slash only components before the path have been stored. -/
theorem inPath_of_stored {front : List Byte} {uri : Uri}
    (stored : ∃ scheme username password hostname portstr port, uri = { Uri.fresh with
      scheme, username, password, hostname, portstr, port }) :
    InPath front [chr '/'] ⟨.path, front.length, uri⟩ := by
  obtain ⟨scheme, username, password, hostname, portstr, port, rfl⟩ := stored
  exact ⟨rfl, rfl, token_singleton rfl, rfl, rfl, rfl⟩

theorem runs_authority {scheme authority : List Byte} (isAuthority : Authority authority)
    (state : l.state.AtName) (place : l.uri = placeScheme scheme) :
    Runs (turn after) before (authority ++ [chr '/']) l fun _ l' =>
      InPath (before ++ authority) [chr '/'] l' := by
  cases isAuthority with
  | @bare host port isName isPort =>
    cases port with
    | none =>
      rw [portBytes, List.append_nil]
      refine (runs_nameSlash isName state).mono ?_
      rintro l' rfl
      exact inPath_of_stored ⟨_, _, _, _, _, _, by rw [place]; rfl⟩
    | some digits =>
      rw [List.append_assoc]
      refine (runs_barePort isName (isPort digits rfl) state).mono ?_
      rintro l' rfl
      have read : before ++ host ++ [chr ':'] ++ digits =
          before ++ (host ++ portBytes (some digits)) := by simp [portBytes]
      rw [read]
      exact inPath_of_stored ⟨_, _, _, _, _, _, by rw [place]; rfl⟩
  | @behindUser user host port isUser isHost isPort =>
    have fresh : l.uri.password = .empty := by
      rw [place]
      rfl
    rw [List.append_assoc, List.append_assoc]
    refine (runs_user isUser state fresh).append ?_
    rintro l' ⟨state', ⟨username, password, same⟩, _, _⟩
    cases port with
    | none =>
      rw [portBytes, List.nil_append]
      refine (runs_hostSlash isHost state').mono ?_
      rintro l'' rfl
      rw [List.append_nil, ← List.append_assoc]
      exact inPath_of_stored ⟨_, _, _, _, _, _, by rw [same, place]; rfl⟩
    | some digits =>
      refine (runs_hostPort isHost (isPort digits rfl) state').mono ?_
      rintro l'' rfl
      have read : before ++ userBytes (some user) ++ host ++ [chr ':'] ++ digits =
          before ++ (userBytes (some user) ++ host ++ portBytes (some digits)) := by
        simp [portBytes]
      rw [read]
      exact inPath_of_stored ⟨_, _, _, _, _, _, by rw [same, place]; rfl⟩

theorem runs_isFront (after : List Byte) {front : List Byte} (isFront : Front front) :
    Runs (turn after) [] (front ++ [chr '/']) ⟨.schemeStart, 0, Uri.fresh⟩
      fun _ l => InPath front [chr '/'] l := by
  cases isFront with
  | lead isLead isAuthority =>
    rw [List.append_assoc]
    refine (runs_lead isLead).append ?_
    rintro l ⟨state, place⟩
    exact runs_authority isAuthority state place

/-- What stands behind the path decides the verdict. -/
theorem verdict_of_spells (after : List Byte) {buf : List Byte} {verdict : UriParseResult}
    (spells : Spells buf verdict) : (parse after Uri.fresh buf).verdict = verdict := by
  cases spells with
  | @parts front path tail _ isFront isPath ending =>
    obtain ⟨slash, more, rfl⟩ := List.exists_cons_of_ne_nil isPath.ne_nil
    obtain ⟨rfl, plain⟩ := isPath
    obtain ⟨l, inside, inPath⟩ := (runs_isFront after isFront).feed (more ++ tail ++ [])
    obtain ⟨l', inside', rfl⟩ := (runs_pathBytes after inPath plain).feed (tail ++ [])
    have longer : InPath front ([chr '/'] ++ more) l' := inPath.append plain
    have result := result_ending after longer ending
    have cut : front ++ chr '/' :: more ++ tail = front ++ [chr '/'] ++ (more ++ tail) := by simp
    rw [parse, run_eq_result, cut, feed_append_of_inside inside, List.nil_append,
      feed_append_of_inside inside']
    simpa only [List.append_assoc] using result.1

end Complete

/-! ### What is read up to a path has the form of a uri -/

section Sound

variable {after before ahead : List Byte} {curChar : Byte} {l : Locals}

/-- What a state before the path must have been at a slash, if the path begins there. -/
def EntersPath (before : List Byte) (next : Locals) : Prop :=
  next.state = .path → Front before ∧ next.prevIt = before.length

theorem finishPort_entersPath {memory : List Byte} {digits lead : List Byte} {l : Locals}
    (starts : l.prevIt = lead.length) (read : before = lead ++ digits)
    (isFront : (∀ byte ∈ digits, isDigit byte = true) → Front before) :
    (finishPort memory before before.length l).Leads (fun _ next => EntersPath before next)
      fun _ => True := by
  have text : (StringView.range lead.length before.length).text before = some digits :=
    StringView.text_range lead digits [] (by rw [read, List.append_nil]) rfl
      (by rw [read, List.length_append])
  unfold finishPort
  simp only [starts, text, Option.getD_some]
  split
  · rename_i allDigits
    exact fun _ => ⟨isFront (List.all_eq_true.mp allDigits), rfl⟩
  · trivial

theorem isPort_of_isSecret {secret : List Byte} (isSecret : IsSecret secret)
    (allDigits : ∀ byte ∈ secret, isDigit byte = true) : IsPort secret := by
  cases secret with
  | nil => exact absurd isSecret id
  | cons first rest => exact List.forall_mem_cons.mp allDigits

/-- Only behind a whole authority a path begins. -/
theorem turn_entersPath (trail : FrontTrail before l) :
    (turn after before curChar ahead l).Leads (fun _ next => EntersPath before next)
      fun _ => True := by
  cases trail with
  | @usernameOrHostname scheme lead name isLead isName =>
    have isFront : Front (lead ++ name) := by
      have authority : Authority (name ++ portBytes none) :=
        .bare isName fun digits member => by cases member
      rw [portBytes, List.append_nil] at authority
      exact .lead isLead authority
    simp only [turn]
    split
    · exact fun path => State.noConfusion path
    · split
      · exact fun path => State.noConfusion path
      · split
        · exact fun path => State.noConfusion path
        · split
          · exact fun _ => ⟨isFront, rfl⟩
          · trivial
  | @portOrPassword scheme lead name secret state either isLead isName isSecret =>
    rcases either with rfl | rfl
    · simp only [turn]
      split
      · exact fun path => State.noConfusion path
      · split
        · refine finishPort_entersPath rfl rfl fun allDigits => ?_
          rw [List.append_assoc, List.append_assoc]
          have authority : Authority (name ++ portBytes (some secret)) := by
            refine .bare isName fun digits member => ?_
            cases member
            exact isPort_of_isSecret isSecret allDigits
          exact .lead isLead authority
        · split
          · exact fun path => State.noConfusion path
          · split
            · exact fun path => State.noConfusion path
            · trivial
    · simp only [turn]
      split
      · exact fun path => State.noConfusion path
      · split
        · exact fun path => State.noConfusion path
        · trivial
  | @hostname scheme lead host user isLead isUser isHost =>
    have isFront : Front (beforeHost lead user ++ host) := by
      have authority : Authority (userBytes (some user) ++ host ++ portBytes none) :=
        .behindUser isUser isHost fun digits member => by cases member
      rw [portBytes, List.append_nil] at authority
      rw [beforeHost, List.append_assoc]
      exact .lead isLead authority
    simp only [turn]
    split
    · exact fun path => State.noConfusion path
    · split
      · exact fun path => State.noConfusion path
      · split
        · exact fun _ => ⟨isFront, rfl⟩
        · trivial
  | @port scheme lead host digits user isLead isUser isHost isPort =>
    simp only [turn]
    split
    · exact fun path => State.noConfusion path
    · split
      · refine finishPort_entersPath rfl rfl fun _ => ?_
        have read : beforeHost lead user ++ host ++ [chr ':'] ++ digits =
            lead ++ (userBytes (some user) ++ host ++ portBytes (some digits)) := by
          simp [beforeHost, portBytes]
        rw [read]
        refine .lead isLead (.behindUser isUser isHost fun others member => ?_)
        cases member
        exact isPort
      · trivial
  | _ =>
    -- no other state has a turn to the path
    simp only [turn]
    repeat' split
    all_goals first
      | exact fun path => State.noConfusion path
      | trivial

/-- Where no mark has been read, either no path has begun, or everything before it has the form
that it has in a uri. -/
def PlainTrail (before : List Byte) (l : Locals) : Prop :=
  FrontTrail before l ∨ ∃ front path, before = front ++ path ∧ Front front ∧ InPath front path l

theorem turn_plainTrail (trail : PlainTrail before l) (plain : PathByte curChar) :
    (turn after before curChar ahead l).Leads
      (fun skip next => skip = 0 ∧
        ((∀ byte ∈ before, PathByte byte) → PlainTrail (before ++ [curChar]) next))
      fun outcome => outcome.verdict = .error := by
  rcases trail with trail | ⟨front, path, rfl, isFront, inPath⟩
  · refine ((turn_frontTrail trail).and (turn_entersPath trail)).mono ?_ fun _ left => left.1
    rintro skip next ⟨⟨rfl, onward⟩, enters⟩
    refine ⟨rfl, fun allPlain => ?_⟩
    have allPlain' : ∀ byte ∈ before ++ [curChar], PathByte byte :=
      List.forall_mem_append.mpr ⟨allPlain, List.forall_mem_singleton.mpr plain⟩
    rcases onward.cases_of_plain allPlain' with still | ⟨front, path, read, inPath⟩
    · exact Or.inl still
    · obtain ⟨isFront, prevIt⟩ := enters inPath.state
      have sameLength : before.length = front.length := by
        have := prevIt.symm.trans inPath.prevIt
        omega
      obtain ⟨rfl, rfl⟩ := List.append_inj read sameLength
      exact Or.inr ⟨before, [curChar], rfl, isFront, inPath⟩
  · obtain ⟨notQuestion, notHash⟩ := plain
    simp only [turn, inPath.state, notQuestion, notHash, if_false]
    refine ⟨rfl, fun _ => Or.inr ⟨front, path ++ [curChar], List.append_assoc .., isFront, ?_⟩⟩
    exact inPath.append fun byte member => by
      rw [List.mem_singleton.mp member]
      exact ⟨notQuestion, notHash⟩

/-- Where a text without marks has been read, there is a plain trail. -/
theorem feed_plainTrail (after text tail : List Byte) :
    (feed (turn after) [] text tail 0 ⟨.schemeStart, 0, Uri.fresh⟩).Leads
      (fun skip l => skip = 0 ∧ Trail text l ∧
        ((∀ byte ∈ text, PathByte byte) → PlainTrail text l)) fun _ => True := by
  have start : FrontTrail [] ⟨.schemeStart, 0, Uri.fresh⟩ :=
    .schemeStart fun byte member => absurd member List.not_mem_nil
  refine feed_invariant_of_no_jump
    (fun before l => Trail before l ∧ ((∀ byte ∈ before, PathByte byte) → PlainTrail before l))
    ⟨.inl start, fun _ => .inl start⟩ ?_
  rintro before symbol ahead l - ⟨trail, plainTrail⟩
  have onward : (turn after before symbol ahead l).Leads _ _ := turn_trail trail
  by_cases allPlain : ∀ byte ∈ before ++ [symbol], PathByte byte
  · obtain ⟨plainBefore, plainSymbol⟩ := List.forall_mem_append.mp allPlain
    have further : (turn after before symbol ahead l).Leads _ _ :=
      turn_plainTrail (plainTrail plainBefore) (List.forall_mem_singleton.mp plainSymbol)
    refine (onward.and further).mono ?_ fun _ _ => trivial
    rintro skip next ⟨⟨rfl, trail'⟩, _, later⟩
    exact ⟨rfl, trail', fun _ => later plainBefore⟩
  · refine onward.mono ?_ fun _ _ => trivial
    rintro skip next ⟨rfl, trail'⟩
    exact ⟨rfl, trail', fun all => (allPlain all).elim⟩

end Sound

/-! ### The verdict -/

theorem mark_of_ending {mark : Byte} {others : List Byte} {verdict : UriParseResult}
    (ending : Ending (mark :: others) verdict) : mark = chr '?' ∨ mark = chr '#' := by
  cases ending with
  | hash | fragment => exact .inr rfl
  | question | query | queryHash | queryFragment => exact .inl rfl

/-- What is not refused has the form of a uri, or ends before the path. -/
theorem spells_of_verdict (after buf : List Byte) :
    (parse after Uri.fresh buf).verdict = .error ∨ Unfinished buf ∨
      Spells buf (parse after Uri.fresh buf).verdict := by
  obtain ⟨text, tail, verdict, rfl, plain, ending⟩ := exists_ending buf
  have leads := feed_plainTrail after text (tail ++ [])
  cases ended : feed (turn after) [] text (tail ++ []) 0 ⟨.schemeStart, 0, Uri.fresh⟩ with
  | left outcome =>
    rw [parse, run_eq_result, feed_append_of_left ended]
    exact .inl (error_of_left ended plain)
  | inside skip l =>
    rw [ended] at leads
    obtain ⟨rfl, _, plainTrail⟩ := leads
    rcases plainTrail plain with trail | ⟨front, path, rfl, isFront, inPath⟩
    · cases tail with
      | nil =>
        rw [List.append_nil]
        exact .inr (.inl (unfinished_of_frontTrail trail))
      | cons mark others =>
        rw [parse, run_eq_result, feed_append_of_inside ended, List.nil_append,
          feed_cons_leave (turn_frontMark trail (mark_of_ending ending))]
        exact .inl rfl
    · have spells : Spells (front ++ path ++ tail) verdict := .parts isFront inPath.starts ending
      rw [verdict_of_spells after spells]
      exact .inr (.inr spells)

/-- The grammar decides the verdict, whatever lies behind the buffer. -/
structure JudgesByGrammar (after buf : List Byte) : Prop where
  completed : (parse after Uri.fresh buf).verdict = .completed ↔
    Unfinished buf ∨ Spells buf .completed
  incompleted : (parse after Uri.fresh buf).verdict = .incompleted ↔ Spells buf .incompleted
  error : (parse after Uri.fresh buf).verdict = .error ↔
    ¬ Unfinished buf ∧ ∀ verdict, Spells buf verdict → verdict = .error

theorem judgesByGrammar (after buf : List Byte) : JudgesByGrammar after buf where
  completed := by
    constructor
    · intro completed
      rcases spells_of_verdict after buf with error | unfinished | spells
      · rw [completed] at error
        cases error
      · exact .inl unfinished
      · rw [completed] at spells
        exact .inr spells
    · rintro (unfinished | spells)
      · exact (not_covered_of_unfinished after unfinished).1
      · exact verdict_of_spells after spells
  incompleted := by
    refine ⟨fun incompleted => ?_, verdict_of_spells after⟩
    rcases spells_of_verdict after buf with error | unfinished | spells
    · rw [incompleted] at error
      cases error
    · rw [(not_covered_of_unfinished after unfinished).1] at incompleted
      cases incompleted
    · rwa [incompleted] at spells
  error := by
    constructor
    · intro error
      refine ⟨fun unfinished => ?_, fun verdict spells => ?_⟩
      · rw [(not_covered_of_unfinished after unfinished).1] at error
        cases error
      · exact (verdict_of_spells after spells).symm.trans error
    · rintro ⟨finished, refused⟩
      rcases spells_of_verdict after buf with error | unfinished | spells
      · exact error
      · exact (finished unfinished).elim
      · exact refused _ spells

/-- A hash that ends the buffer is waited for only behind a query string. -/
example : (parse [] Uri.fresh (ascii "s:h/?n=v#")).verdict = .incompleted ∧
    (parse [] Uri.fresh (ascii "s:h/#")).verdict = .error := by decide +kernel

/-! ### Completed buffers -/

/-- A uri that has no scheme, and starts with the colon behind it. -/
def Nameless (buf : List Byte) : Prop :=
  buf.head? = some (chr ':') ∧ Spells buf .completed

/-- A scheme does not start with a colon. -/
theorem head_bytes_iff {parts : UriParts} (shaped : parts.Shaped) :
    parts.bytes.head? = some (chr ':') ↔ parts.scheme = [] := by
  have scheme := shaped.scheme
  unfold UriParts.bytes UriParts.afterQuery UriParts.afterPath UriParts.front UriParts.afterHost
    UriParts.beforeHost UriParts.lead
  cases same : parts.scheme with
  | nil => exact iff_of_true rfl rfl
  | cons first others =>
    refine iff_of_false (fun head => ?_) (List.cons_ne_nil _ _)
    rw [same] at scheme
    have colon : SchemeByte (chr ':') := by
      rw [← Option.some.inj head]
      exact scheme first List.mem_cons_self
    exact absurd colon (by decide)

/-- A completed uri is sound unless the buffer ends before the slash of a path, or has no scheme. -/
theorem sound_iff (buf after : List Byte) :
    ((parse after Uri.fresh buf).verdict = .completed →
      Sound buf (parse after Uri.fresh buf).uri) ↔ ¬ Unfinished buf ∧ ¬ Nameless buf := by
  constructor
  · refine fun sound => ⟨fun unfinished => ?_, fun ⟨head, spells⟩ => ?_⟩
    · obtain ⟨completed, uncovered⟩ := not_covered_of_unfinished after unfinished
      exact uncovered (sound completed).covered
    · obtain ⟨parts, good, split, _⟩ := sound (verdict_of_spells after spells)
      rw [split, head_bytes_iff good.toShaped] at head
      exact good.named head
  · rintro ⟨finished, named⟩ completed
    obtain ⟨parts, shaped, split, place⟩ := covered_of_not_unfinished after finished completed
    refine ⟨parts, ⟨shaped, fun empty => named ⟨?_, ?_⟩⟩, split, place⟩
    · rw [split, head_bytes_iff shaped]
      exact empty
    · exact ((judgesByGrammar after buf).completed.mp completed).resolve_left finished

/-- A uri without a path loses its host to the path. -/
theorem not_sound_bareHost : ¬ ∀ buf after : List Byte,
    (parse after Uri.fresh buf).verdict = .completed →
      Sound buf (parse after Uri.fresh buf).uri := by
  intro sound
  obtain ⟨parts, good, split, port, queries, place⟩ := sound (ascii "http://host") [] (by decide)
  have hostname := congrArg Uri.hostname place
  have stored : (parse [] Uri.fresh (ascii "http://host")).uri.hostname = .empty := by decide
  rw [stored] at hostname
  exact StringView.noConfusion hostname

/-- A uri without a scheme is completed too. -/
example : (parse [] Uri.fresh (ascii "://h/")).verdict = .completed ∧
    (parse [] Uri.fresh (ascii "://h/")).uri.scheme.size = 0 := by decide

end UriParser

end Sheep
