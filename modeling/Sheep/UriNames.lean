/-
This file compares user names with passwords. Behind its first byte a user name may
hold all bytes of a name, while a password, which might still turn out to be a port,
holds letters, digits and percent signs only.
-/

import Sheep.UriEnds

namespace Sheep

open ScanLoop

namespace UriParser

/-! ### A stored user name is a name -/

/-- Either no user name is stored, or a name that has been read. -/
def Named (before : List Byte) (uri : Uri) : Prop :=
  uri.username = .empty ∨ ∃ lead name more, before = lead ++ name ++ more ∧ IsName name ∧
    uri.username = span lead name

theorem Named.append {before : List Byte} {uri : Uri} (named : Named before uri)
    (more : List Byte) : Named (before ++ more) uri := by
  rcases named with none | ⟨lead, name, rest, rfl, isName, stored⟩
  · exact Or.inl none
  · exact Or.inr ⟨lead, name, rest ++ more, List.append_assoc _ _ _, isName, stored⟩

theorem Named.of_eq {before : List Byte} {uri uri' : Uri} (named : Named before uri)
    (same : uri'.username = uri.username) : Named before uri' := by
  unfold Named
  rw [same]
  exact named

theorem parseQueries_username (buf : List Byte) (uri : Uri) :
    (parseQueries buf uri).uri.username = uri.username := by
  unfold parseQueries
  split
  · obtain ⟨queries, same⟩ := parseQueryText_same _ _ uri
    rw [same]
  · rfl

section Turns

variable {after before ahead : List Byte} {curChar : Byte} {l : Locals}

/-- The states that touch the user name, and what they store there. -/
def Renames (before : List Byte) (l : Locals) (uri : Uri) : Prop :=
  uri.username = l.uri.username ∨
    (l.state = .usernameOrHostname ∧ uri.username = .range l.prevIt before.length) ∨
    (l.state = .portOrPassword ∧ uri.username = l.uri.hostname)

theorem turn_renames : (turn after before curChar ahead l).Leads
    (fun skip next => skip = 0 ∧ Renames before l next.uri)
    (fun outcome => Renames before l outcome.uri) := by
  obtain ⟨state, prevIt, uri⟩ := l
  cases state with
  | usernameOrHostname =>
    simp only [turn]
    repeat' split
    · exact ⟨rfl, .inl rfl⟩
    · exact ⟨rfl, .inr (.inl ⟨rfl, rfl⟩)⟩
    · exact ⟨rfl, .inr (.inl ⟨rfl, rfl⟩)⟩
    · exact ⟨rfl, .inl rfl⟩
    · exact .inl rfl
  | portOrPassword =>
    simp only [turn, finishPort]
    repeat' split
    · exact ⟨rfl, .inl rfl⟩
    · exact ⟨rfl, .inr (.inr ⟨rfl, rfl⟩)⟩
    · exact .inr (.inr ⟨rfl, rfl⟩)
    · exact ⟨rfl, .inl rfl⟩
    · exact ⟨rfl, .inl rfl⟩
    · exact .inl rfl
  | hashStart => exact .inl (parseQueries_username _ _)
  | _ =>
    simp only [turn, finishPort]
    repeat' split
    all_goals first | exact ⟨rfl, .inl rfl⟩ | exact .inl rfl

theorem named_of_renames {uri : Uri} (trail : Trail before l) (named : Named before l.uri)
    (renames : Renames before l uri) : Named before uri := by
  rcases renames with same | ⟨state, stored⟩ | ⟨state, stored⟩
  · exact named.of_eq same
  · rcases trail with trail | trail
    · cases trail with
      | @usernameOrHostname scheme lead name isLead isName =>
        exact Or.inr ⟨lead, name, [], (List.append_nil _).symm, isName, stored⟩
      | portOrPassword either =>
        rcases either with rfl | rfl <;> cases state
      | _ => cases state
    · cases trail <;> cases state
  · rcases trail with trail | trail
    · cases trail with
      | portOrPassword either isLead isName isSecret => exact Or.inl stored
      | _ => cases state
    · cases trail <;> cases state

end Turns

/-- However the parse ends, the stored user name is a name. -/
theorem named_of_parse (after buf : List Byte) :
    Named buf (parse after Uri.fresh buf).uri := by
  have leads : (feed (turn after) [] buf [] 0 ⟨.schemeStart, 0, Uri.fresh⟩).Leads
      (fun skip l => skip = 0 ∧ Trail ([] ++ buf) l ∧ Named ([] ++ buf) l.uri)
      (fun outcome => Named buf outcome.uri) := by
    refine feed_invariant_of_no_jump (fun before l => Trail before l ∧ Named before l.uri)
      ⟨Or.inl (.schemeStart fun byte member => absurd member List.not_mem_nil), Or.inl rfl⟩ ?_
    rintro before symbol ahead l split ⟨trail, named⟩
    rw [List.nil_append, List.append_nil] at split
    refine ((turn_trail trail).and turn_renames).mono ?_ ?_
    · rintro skip next ⟨⟨rfl, stays⟩, _, renames⟩
      exact ⟨rfl, stays, (named_of_renames trail named renames).append [symbol]⟩
    · rintro outcome ⟨_, renames⟩
      rw [← split]
      exact (named_of_renames trail named renames).append (symbol :: ahead)
  rw [parse, run_eq_result]
  generalize feed (turn after) [] buf [] 0 _ = ended at leads ⊢
  cases ended with
  | left outcome => exact leads
  | inside skip l =>
    obtain ⟨_, _, named⟩ := leads
    refine named.of_eq ?_
    rw [Progress.result, finish]
    simp only
    repeat' split
    · rfl
    · exact parseQueries_username _ _
    · rfl

/-! ### Logins -/

/-- A user in front of a host, with the root path. -/
def loginText (scheme host : List Byte) (user : List Byte × Option (List Byte)) : List Byte :=
  scheme ++ ascii "://" ++ (userBytes (some user) ++ (host ++ [chr '/']))

/-- The text is completed with this user name. -/
def AcceptsUser (after scheme host user : List Byte) : Prop :=
  let text := loginText scheme host (user, none)
  (parse after Uri.fresh text).verdict = .completed ∧
    (parse after Uri.fresh text).uri.username.text text = some user

/-- The text is completed with this user name and this password. -/
def AcceptsPassword (after scheme host user password : List Byte) : Prop :=
  let text := loginText scheme host (user, some password)
  (parse after Uri.fresh text).verdict = .completed ∧
    (parse after Uri.fresh text).uri.username.text text = some user ∧
    (parse after Uri.fresh text).uri.password.text text = some password

section Logins

variable {scheme host : List Byte}

theorem runs_loginLead (isScheme : IsScheme scheme) (after : List Byte) :
    Runs (turn after) [] (scheme ++ ascii "://") ⟨.schemeStart, 0, Uri.fresh⟩
      fun _ l => l.state.AtName ∧ l.uri = placeScheme scheme :=
  runs_lead (isLead_of_isScheme isScheme (.inr (.inr rfl)))

/-- A user and a host are read, up to the slash. -/
theorem parse_login {user : List Byte × Option (List Byte)} (isScheme : IsScheme scheme)
    (isUser : IsUser user) (isHost : IsHost host) (after : List Byte) :
    (parse after Uri.fresh (loginText scheme host user)).verdict = .completed ∧
      (parse after Uri.fresh (loginText scheme host user)).uri.username.text
        (loginText scheme host user) = some user.1 ∧
      (parse after Uri.fresh (loginText scheme host user)).uri.password.text
        (loginText scheme host user) = some (user.2.getD []) := by
  have runs : Runs (turn after) [] (loginText scheme host user) ⟨.schemeStart, 0, Uri.fresh⟩
      fun _ l => InPath (scheme ++ ascii "://" ++ userBytes (some user) ++ host) [chr '/'] l ∧
        l.uri.username.text (scheme ++ ascii "://" ++ userBytes (some user)) = some user.1 ∧
        l.uri.password.text (scheme ++ ascii "://" ++ userBytes (some user)) =
          some (user.2.getD []) := by
    refine (runs_loginLead isScheme after).append ?_
    rintro l ⟨state, place⟩
    refine (runs_user isUser state (by rw [place]; rfl)).append ?_
    rintro l' ⟨state', ⟨username, password, same⟩, userText, passwordText⟩
    refine runs_openHost isHost state' (runs_cons fun ahead => ?_)
    simp only [turn, plain_mark (.inr (.inr rfl)), (by decide : chr '/' ≠ chr ':'),
      Bool.false_eq_true, if_false, if_true, onward_go]
    refine runs_nil ⟨⟨rfl, rfl, token_singleton rfl, ?_, ?_, ?_⟩, userText, passwordText⟩
    all_goals
      rw [same, place]
      rfl
  obtain ⟨l, inside, inPath, userText, passwordText⟩ := runs.feed ([] ++ [])
  have split : loginText scheme host user =
      scheme ++ ascii "://" ++ userBytes (some user) ++ host ++ [chr '/'] := by
    simp [loginText]
  have ended : parse after Uri.fresh (loginText scheme host user) =
      (feed (turn after) (loginText scheme host user) [] [] 0 l).result
        (finish (loginText scheme host user)) := by
    rw [parse, run_eq_result, ← List.append_nil (loginText scheme host user),
      feed_append_of_inside inside, List.nil_append]
    simp only [List.append_nil]
  obtain ⟨completed, same⟩ := result_ending after inPath .nothing
  rw [List.append_nil, ← split, ← ended] at completed same
  refine ⟨completed, ?_, ?_⟩
  · rw [same.username, split, List.append_assoc _ host]
    exact StringView.text_append userText _
  · rw [same.password, split, List.append_assoc _ host]
    exact StringView.text_append passwordText _

/-- Where a byte is refused behind what goes through, the parse is an error. -/
theorem error_of_refused {after first rest : List Byte} {symbol : Byte}
    (post : List Byte → Locals → Prop)
    (runs : Runs (turn after) [] first ⟨.schemeStart, 0, Uri.fresh⟩ post)
    (refuses : ∀ l ahead, post first l →
      turn after first symbol ahead l = .leave ⟨.error, l.uri⟩) :
    (parse after Uri.fresh (first ++ symbol :: rest)).verdict = .error := by
  obtain ⟨l, inside, holds⟩ := runs.feed (symbol :: rest ++ [])
  have leaves : turn after ([] ++ first) symbol (rest ++ []) l = .leave ⟨.error, l.uri⟩ :=
    refuses l _ holds
  rw [parse, run_eq_result, feed_append_of_inside inside, feed_cons_leave leaves, Progress.result]

/-- A name is accepted as a user name, and nothing else is. -/
theorem acceptsUser_iff {user : List Byte} (isScheme : IsScheme scheme) (isHost : IsHost host)
    (after : List Byte) : AcceptsUser after scheme host user ↔ IsName user := by
  constructor
  · rintro ⟨completed, stored⟩
    rcases named_of_parse after (loginText scheme host (user, none)) with
      none | ⟨lead, name, more, split, isName, place⟩
    · -- Without a name the sign stands where a name must start.
      rw [none] at stored
      obtain rfl : [] = user := Option.some.inj stored
      have error : (parse after Uri.fresh (loginText scheme host ([], Option.none))).verdict =
          .error := by
        refine error_of_refused _ (runs_loginLead isScheme after) ?_
        rintro l ahead ⟨state, _⟩
        rcases state with state | state | state <;>
          simp only [turn, state, (by decide : isAlnum (chr '@') = false),
            (by decide : chr '@' ≠ chr '/'), Bool.false_eq_true, if_false]
      rw [error] at completed
      cases completed
    · have same : (span lead name).text (loginText scheme host (user, Option.none)) = some name :=
        StringView.text_range lead name more split rfl rfl
      rw [place, same] at stored
      rw [← Option.some.inj stored]
      exact isName
  · intro isName
    have isUser : IsUser (user, none) := ⟨isName, fun _ member => by cases member⟩
    obtain ⟨completed, userText, _⟩ := parse_login isScheme isUser isHost after
    exact ⟨completed, userText⟩

/-- A password that holds another byte of a name behind its first byte is an error. -/
theorem error_of_password {user password : List Byte} (isScheme : IsScheme scheme)
    (isUser : IsName user) (isName : IsName password)
    (fails : ¬ ∀ byte ∈ password.tail, SecretByte byte) (after : List Byte) :
    (parse after Uri.fresh (loginText scheme host (user, some password))).verdict = .error := by
  obtain ⟨first, others, rfl⟩ := List.exists_cons_of_ne_nil isName.ne_nil
  obtain ⟨front, symbol, back, rfl, secret, refused⟩ := exists_first_failure fails
  have starts : isUnreserved first = true := by
    rw [isUnreserved, isName.1, Bool.true_or]
  have plain : NameByte symbol := isName.2 symbol (by simp)
  obtain ⟨noAlnum, notPercent⟩ := not_or.mp refused
  have noDigit : isDigit symbol = false := by
    rw [isAlnum, Bool.or_eq_true, not_or] at noAlnum
    exact Bool.eq_false_iff.mpr noAlnum.2
  have notMark : symbol ≠ chr '/' ∧ symbol ≠ chr '@' := by
    constructor <;>
      · rintro rfl
        exact absurd plain (by decide)
  have split : loginText scheme host (user, some (first :: (front ++ symbol :: back))) =
      scheme ++ ascii "://" ++ (user ++ chr ':' :: first :: front) ++
        symbol :: (back ++ [chr '@'] ++ (host ++ [chr '/'])) := by
    simp [loginText, userBytes]
  rw [split]
  refine error_of_refused (fun _ l => l.state = .portOrPassword ∨ l.state = .password) ?_ ?_
  · refine (runs_loginLead isScheme after).append ?_
    rintro l ⟨state, _⟩
    refine runs_name isUser state (runs_cons fun ahead => ?_)
    simp only [turn, plain_mark (.inl rfl), Bool.false_eq_true, if_false, if_true, onward_go]
    refine runs_cons fun ahead' => ?_
    simp only [turn, starts, if_true, onward_go]
    exact (runs_password secret (Or.inl rfl)).mono fun l' holds => holds.1
  · rintro l ahead (state | state) <;>
      simp [turn, state, noDigit, noAlnum, notPercent, notMark]

end Logins

/-- What is accepted as a user name is accepted as a password behind every user name just where no
other bytes than letters, digits and percent signs stand behind its first byte. -/
theorem acceptsPassword_iff {scheme host password : List Byte} (isScheme : IsScheme scheme)
    (isHost : IsHost host) (after : List Byte)
    (accepted : AcceptsUser after scheme host password) :
    (∀ user, AcceptsUser after scheme host user →
      AcceptsPassword after scheme host user password) ↔
    ∀ byte ∈ password.tail, SecretByte byte := by
  have isName := (acceptsUser_iff isScheme isHost after).mp accepted
  constructor
  · intro accepts
    by_contra fails
    obtain ⟨completed, _⟩ := accepts password accepted
    rw [error_of_password isScheme isName isName fails after] at completed
    cases completed
  · intro plain user acceptedUser
    have isUser : IsUser (user, some password) := by
      refine ⟨(acceptsUser_iff isScheme isHost after).mp acceptedUser, ?_⟩
      rintro secret ⟨⟩
      obtain ⟨first, others, rfl⟩ := List.exists_cons_of_ne_nil isName.ne_nil
      have starts : isUnreserved first = true := by
        rw [isUnreserved, isName.1, Bool.true_or]
      exact ⟨starts, plain⟩
    exact parse_login isScheme isUser isHost after

theorem acceptsPassword_iff_me : (∀ user, AcceptsUser [] (ascii "http") (ascii "h") user →
      AcceptsPassword [] (ascii "http") (ascii "h") user (ascii "me")) ↔
    ∀ byte ∈ (ascii "me").tail, SecretByte byte :=
  acceptsPassword_iff (by decide +kernel) (by decide +kernel) []
    ⟨by decide +kernel, by decide +kernel⟩

/-- A user name with a hyphen is no password. -/
theorem not_acceptsPassword_hyphen : ¬ ∀ scheme host password after : List Byte,
    IsScheme scheme → IsHost host → AcceptsUser after scheme host password →
      ∀ user, AcceptsUser after scheme host user →
        AcceptsPassword after scheme host user password := by
  intro accepts
  have accepted : AcceptsUser [] (ascii "http") (ascii "h") (ascii "a-b") :=
    ⟨by decide +kernel, by decide +kernel⟩
  obtain ⟨completed, _⟩ := accepts _ _ _ _ (by decide +kernel) (by decide +kernel)
    accepted _ accepted
  exact absurd completed (by decide +kernel)

end UriParser

end Sheep
