/-
This file says when a port is stored exactly. Whatever digits stand between a host
and the slash of a path, they go through `atoi` and are cut down to 16 bits, and no
value makes the parse fail.
-/

import Sheep.UriEnds

namespace Sheep

open ScanLoop

namespace UriParser

/-! ### Uris with a port -/

/-- A uri with a port, and whatever stands behind the slash of its path. -/
structure PortUri where
  scheme : List Byte
  slashes : List Byte
  user : Option (List Byte × Option (List Byte))
  host : List Byte
  port : List Byte
  rest : List Byte

namespace PortUri

variable (text : PortUri)

def lead : List Byte := text.scheme ++ chr ':' :: text.slashes

def beforePort : List Byte := text.lead ++ userBytes text.user ++ text.host ++ [chr ':']

def front : List Byte := text.beforePort ++ text.port

def bytes : List Byte := text.front ++ chr '/' :: text.rest

structure WellFormed : Prop where
  lead : IsLead text.scheme text.lead
  user : ∀ user ∈ text.user, IsUser user
  host : IsHost text.host
  bareHost : text.user = none → IsName text.host
  port : Token (isDigit · = true) (isDigit · = true) text.port

end PortUri

/-- What stands behind the slash of the path is refused. -/
def Refused (rest : List Byte) : Prop :=
  ∃ path tail, rest = path ++ tail ∧ (∀ byte ∈ path, PathByte byte) ∧ Ending tail .error

/-- A completed port is the number that has been read, and a number that is too large is an
error. -/
structure ExactPort (text : PortUri) (outcome : Outcome) : Prop where
  exact : outcome.verdict = .completed → ∃ digits,
    outcome.uri.portstr.text text.bytes = some digits ∧
      outcome.uri.port.toNat = decimalValue digits
  refuses : 65535 < decimalValue text.port → outcome.verdict = .error

/-! ### The port that is stored -/

section Runs

variable {text : PortUri}

/-- The parser stands behind the slash, with the port as it is stored. -/
structure AtSlash (text : PortUri) (l : Locals) : Prop where
  inPath : InPath text.front [chr '/'] l
  portstr : l.uri.portstr = span text.beforePort text.port
  port : l.uri.port = portValue text.port

theorem atSlash_of_fresh (uri : Uri) {l : Locals}
    (same : ∃ scheme username password hostname, uri = { Uri.fresh with
      scheme, username, password, hostname })
    (stands : l = ⟨.path, text.front.length, { uri with
      portstr := span text.beforePort text.port, port := portValue text.port }⟩) :
    AtSlash text l := by
  obtain ⟨scheme, username, password, hostname, rfl⟩ := same
  subst stands
  exact ⟨⟨rfl, rfl, token_singleton rfl, rfl, rfl, rfl⟩, rfl, rfl⟩

/-- The components up to the slash are read, with or without a user. -/
theorem runs_portFront (after : List Byte) (good : text.WellFormed) :
    Runs (turn after) [] (text.front ++ [chr '/']) ⟨.schemeStart, 0, Uri.fresh⟩
      fun _ l => AtSlash text l := by
  have shape : text.front ++ [chr '/'] = text.lead ++ (userBytes text.user ++
      (text.host ++ (portBytes (some text.port) ++ [chr '/']))) := by
    simp [PortUri.front, PortUri.beforePort, portBytes]
  rw [shape]
  refine (runs_lead good.lead).append ?_
  rintro l ⟨state, place⟩
  cases user : text.user with
  | none =>
    have read : text.beforePort = text.lead ++ text.host ++ [chr ':'] := by
      simp [PortUri.beforePort, user, userBytes]
    refine (runs_barePort (good.bareHost user) good.port state).mono ?_
    rintro l' rfl
    refine atSlash_of_fresh { l.uri with
      hostname := .range text.lead.length (text.lead ++ text.host).length
      username := l.uri.hostname } ⟨_, _, _, _, by rw [place]; rfl⟩ ?_
    rw [PortUri.front, span, read, List.nil_append]
  | some pair =>
    have read : text.beforePort = text.lead ++ userBytes (some pair) ++ text.host ++ [chr ':'] := by
      simp [PortUri.beforePort, user]
    refine (runs_user (good.user pair user) state (by rw [place]; rfl)).append ?_
    rintro l' ⟨state', ⟨username, password, same⟩, _, _⟩
    refine (runs_hostPort good.host good.port state').mono ?_
    rintro l'' rfl
    refine atSlash_of_fresh { l'.uri with
      hostname := .range (text.lead ++ userBytes (some pair)).length
        (text.lead ++ userBytes (some pair) ++ text.host).length }
      ⟨_, _, _, _, by rw [same, place]; rfl⟩ ?_
    rw [PortUri.front, span, read, List.nil_append]

/-- The rest of the path is read without a change. -/
theorem runs_pathBytes (after : List Byte) {front path more : List Byte} {l : Locals}
    (inPath : InPath front path l) (plain : ∀ byte ∈ more, PathByte byte) :
    Runs (turn after) (front ++ path) more l fun _ l' => l' = l := by
  refine runs_loop (fun byte member before' ahead => ?_) rfl
  obtain ⟨notQuestion, notHash⟩ := plain byte member
  simp only [turn, inPath.state, notQuestion, notHash, if_false, onward_go]

theorem InPath.append {front path more : List Byte} {l : Locals} (inPath : InPath front path l)
    (plain : ∀ byte ∈ more, PathByte byte) : InPath front (path ++ more) l := by
  refine { inPath with starts := ?_ }
  obtain ⟨slash, others, rfl⟩ := List.exists_cons_of_ne_nil inPath.starts.ne_nil
  refine ⟨inPath.starts.1, fun byte member => ?_⟩
  rcases List.mem_append.mp member with old | new
  · exact inPath.starts.2 byte old
  · exact plain byte new

/-- What stands behind the path decides the verdict, and the port is stored as it came out. -/
theorem parse_port (after : List Byte) (good : text.WellFormed) {path tail : List Byte}
    {verdict : UriParseResult} (split : text.rest = path ++ tail)
    (plain : ∀ byte ∈ path, PathByte byte) (ending : Ending tail verdict) :
    (parse after Uri.fresh text.bytes).verdict = verdict ∧
      (parse after Uri.fresh text.bytes).uri.portstr = span text.beforePort text.port ∧
      (parse after Uri.fresh text.bytes).uri.port = portValue text.port := by
  have bytes : text.bytes = text.front ++ [chr '/'] ++ (path ++ tail) := by
    rw [PortUri.bytes, split]
    simp
  obtain ⟨l, inside, atSlash⟩ := (runs_portFront after good).feed (path ++ tail ++ [])
  obtain ⟨l', inside', rfl⟩ := (runs_pathBytes after atSlash.inPath plain).feed (tail ++ [])
  have longer : InPath text.front ([chr '/'] ++ path) l' := atSlash.inPath.append plain
  have result := result_ending after longer ending
  rw [← List.append_assoc] at result
  have ended : parse after Uri.fresh text.bytes =
      (feed (turn after) (text.front ++ [chr '/'] ++ path) tail [] 0 l').result
        (finish (text.front ++ [chr '/'] ++ path ++ tail)) := by
    rw [parse, run_eq_result, bytes, feed_append_of_inside inside, List.nil_append,
      feed_append_of_inside inside']
    simp only [List.append_assoc]
  rw [ended]
  obtain ⟨verdict, same⟩ := result
  exact ⟨verdict, same.portstr.trans atSlash.portstr, same.port.trans atSlash.port⟩

end Runs

/-! ### Exact ports -/

theorem toNat_portValue {digits : List Byte} :
    (portValue digits).toNat = decimalValue digits ↔ decimalValue digits ≤ 65535 := by
  constructor
  · intro same
    have := (portValue digits).toNat_lt
    omega
  · intro small
    rw [portValue_of_le small, toNat_ofInt_decimalValue small]

/-- A port is stored exactly, or refused, just where it fits or the rest is refused. -/
theorem exactPort_iff (text : PortUri) (good : text.WellFormed) (after : List Byte) :
    ExactPort text (parse after Uri.fresh text.bytes) ↔
      decimalValue text.port ≤ 65535 ∨ Refused text.rest := by
  obtain ⟨path, tail, verdict, split, plain, ending⟩ := exists_ending text.rest
  obtain ⟨same, portstr, port⟩ := parse_port after good split plain ending
  constructor
  · intro exact
    by_cases small : decimalValue text.port ≤ 65535
    · exact Or.inl small
    · have error := exact.refuses (by omega)
      obtain rfl : verdict = .error := same.symm.trans error
      exact Or.inr ⟨path, tail, split, plain, ending⟩
  · rintro (small | ⟨path', tail', split', plain', ending'⟩)
    · refine ⟨fun _ => ⟨text.port, ?_, ?_⟩, fun large => absurd small (by omega)⟩
      · rw [portstr]
        exact StringView.text_range text.beforePort text.port (chr '/' :: text.rest) rfl rfl rfl
      · rw [port]
        exact toNat_portValue.mpr small
    · have error := (parse_port after good split' plain' ending').1
      refine ⟨fun completed => ?_, fun _ => error⟩
      rw [error] at completed
      cases completed

/-- A bare host with this port. -/
def hostWithPort (port : String) : PortUri where
  scheme := ascii "http"
  slashes := ascii "//"
  user := none
  host := ascii "h"
  port := ascii port
  rest := []

theorem wellFormed_hostWithPort {port : String}
    (digits : Token (isDigit · = true) (isDigit · = true) (ascii port)) :
    (hostWithPort port).WellFormed where
  lead := ⟨(by decide +kernel : IsScheme (ascii "http")), _, .inr (.inr rfl), rfl⟩
  user _ member := by cases member
  host := (by decide +kernel : IsHost (ascii "h"))
  bareHost _ := (by decide +kernel : IsName (ascii "h"))
  port := digits

theorem exactPort_iff_8080 : ExactPort (hostWithPort "8080")
      (parse [] Uri.fresh (ascii "http://h:8080/")) ↔
    decimalValue (ascii "8080") ≤ 65535 ∨ Refused [] :=
  exactPort_iff (hostWithPort "8080") (wellFormed_hostWithPort (by decide +kernel)) []

/-- A port beyond 16 bits is completed with another number. -/
theorem not_exactPort_65536 : ¬ ∀ text : PortUri, text.WellFormed → ∀ after,
    ExactPort text (parse after Uri.fresh text.bytes) := by
  intro exact
  have error := (exact (hostWithPort "65536") (wellFormed_hostWithPort (by decide +kernel))
    []).refuses (by decide +kernel)
  exact absurd error (by decide +kernel)

end UriParser

end Sheep
