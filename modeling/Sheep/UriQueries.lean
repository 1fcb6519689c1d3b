/-
This file proves that `parse_queries` accepts just the query strings that are
written from pairs of names and values. In every state the bytes read so far are
whole pairs, each with its ampersand, and a piece of the next one, so only a
string that ends behind a value is made of pairs.
-/

import Sheep.UriRoundTrip

namespace Sheep

open ScanLoop

namespace UriParser

/-! ### Pairs -/

/-- A name and a value as they may stand in a query string. -/
def IsPair (query : List Byte × List Byte) : Prop :=
  Token NameByte NameByte query.1 ∧ Token NameByte NameByte query.2

instance (query : List Byte × List Byte) : Decidable (IsPair query) :=
  inferInstanceAs (Decidable (_ ∧ _))

/-- Pairs that another one follows. -/
def queryLead (queries : List (List Byte × List Byte)) : List Byte :=
  queries.flatMap fun query => query.1 ++ chr '=' :: (query.2 ++ [chr '&'])

theorem queryLead_concat (queries : List (List Byte × List Byte)) (name value : List Byte) :
    queryLead (queries ++ [(name, value)]) =
      queryLead queries ++ name ++ [chr '='] ++ value ++ [chr '&'] := by
  simp [queryLead]

theorem queryText_concat (queries : List (List Byte × List Byte)) (name value : List Byte) :
    queryText (queries ++ [(name, value)]) = queryLead queries ++ name ++ [chr '='] ++ value := by
  induction queries with
  | nil => simp [queryText, queryLead]
  | cons query rest inductionHypothesis =>
    have behind : queryText (query :: (rest ++ [(name, value)])) =
        query.1 ++ chr '=' :: (query.2 ++ chr '&' :: queryText (rest ++ [(name, value)])) := by
      cases rest <;> rfl
    rw [List.cons_append, behind, inductionHypothesis]
    simp [queryLead]

theorem forall_pairs_concat {queries : List (List Byte × List Byte)} {name value : List Byte}
    (good : ∀ pair ∈ queries, IsPair pair) (isName : Token NameByte NameByte name)
    (isValue : Token NameByte NameByte value) :
    ∀ pair ∈ queries ++ [(name, value)], IsPair pair := by
  intro pair member
  rcases List.mem_append.mp member with old | new
  · exact good pair old
  · rw [List.mem_singleton.mp new]
    exact ⟨isName, isValue⟩

/-! ### What has been read in each state -/

/-- The bytes read in a state of the loop, behind the first byte. -/
inductive QueryTrail : List Byte → State → Prop
  | name {queries : List (List Byte × List Byte)} {name : List Byte}
      (good : ∀ pair ∈ queries, IsPair pair) (isName : Token NameByte NameByte name) :
      QueryTrail (queryLead queries ++ name) .queryName
  | valueStart {queries : List (List Byte × List Byte)} {name : List Byte}
      (good : ∀ pair ∈ queries, IsPair pair) (isName : Token NameByte NameByte name) :
      QueryTrail (queryLead queries ++ name ++ [chr '=']) .queryValueStart
  | value {queries : List (List Byte × List Byte)} {name value : List Byte}
      (good : ∀ pair ∈ queries, IsPair pair) (isName : Token NameByte NameByte name)
      (isValue : Token NameByte NameByte value) :
      QueryTrail (queryLead queries ++ name ++ [chr '='] ++ value) .queryValue
  | newQuery {queries : List (List Byte × List Byte)} (good : ∀ pair ∈ queries, IsPair pair) :
      QueryTrail (queryLead queries) .newQueryStart

theorem nameByte_of_isPlain {byte : Byte}
    (plain : (isUnreserved byte || byte == chr '%') = true) : NameByte byte := by
  simpa using plain

/-- A turn keeps the trail, or is an error. -/
theorem queryTurn_trail {offset : Int} {before ahead : List Byte} {curChar : Byte}
    {l : QueryLocals} (trail : QueryTrail before l.state) :
    (queryTurn offset before curChar ahead l).Leads
      (fun skip next => skip = 0 ∧ QueryTrail (before ++ [curChar]) next.state)
      (fun outcome => outcome.verdict = .error) := by
  obtain ⟨state, prevIt, queryName, uri⟩ := l
  simp only at trail
  cases trail with
  | name good isName =>
    simp only [queryTurn]
    split
    · rename_i plain
      refine ⟨rfl, ?_⟩
      rw [List.append_assoc]
      exact .name good (isName.snoc (nameByte_of_isPlain plain))
    · split
      · rename_i equals
        subst equals
        exact ⟨rfl, .valueStart good isName⟩
      · rfl
  | valueStart good isName =>
    simp only [queryTurn]
    split
    · rename_i plain
      exact ⟨rfl, .value good isName (token_singleton (nameByte_of_isPlain plain))⟩
    · rfl
  | value good isName isValue =>
    simp only [queryTurn]
    split
    · rename_i plain
      refine ⟨rfl, ?_⟩
      rw [List.append_assoc]
      exact .value good isName (isValue.snoc (nameByte_of_isPlain plain))
    · split
      · rename_i ampersand
        subst ampersand
        refine ⟨rfl, ?_⟩
        rw [← queryLead_concat]
        exact .newQuery (forall_pairs_concat good isName isValue)
      · rfl
  | newQuery good =>
    simp only [queryTurn]
    split
    · rename_i plain
      exact ⟨rfl, .name good (token_singleton (nameByte_of_isPlain plain))⟩
    · rfl

/-- At the end the bytes are pairs, or the string is refused. -/
theorem queryEnd_trail {text : List Byte} {last : Int} {l : QueryLocals}
    (trail : QueryTrail text l.state) :
    (queryEnd last l).verdict = .error ∨ (queryEnd last l).verdict = .completed ∧
      ∃ pairs, pairs ≠ [] ∧ (∀ pair ∈ pairs, IsPair pair) ∧ text = queryText pairs := by
  obtain ⟨state, prevIt, queryName, uri⟩ := l
  simp only at trail
  cases trail with
  | name good isName => exact Or.inl rfl
  | valueStart good isName => exact Or.inl rfl
  | value good isName isValue =>
    refine Or.inr ⟨rfl, _, ?_, forall_pairs_concat good isName isValue,
      (queryText_concat _ _ _).symm⟩
    exact List.append_ne_nil_of_right_ne_nil _ (List.cons_ne_nil _ _)
  | newQuery good => exact Or.inl rfl

/-- A query string is refused, or it is made of pairs. -/
theorem parseQueryText_trail (offset : Int) {text : List Byte} (nonempty : text ≠ []) (uri : Uri) :
    (parseQueryText offset text uri).verdict = .error ∨
      (parseQueryText offset text uri).verdict = .completed ∧
      ∃ pairs, pairs ≠ [] ∧ (∀ pair ∈ pairs, IsPair pair) ∧ text = queryText pairs := by
  obtain ⟨first, others, rfl⟩ := List.exists_cons_of_ne_nil nonempty
  unfold parseQueryText
  simp only
  split
  · exact Or.inl rfl
  · rename_i goesOn
    have plain : (isUnreserved first || first == chr '%') = true := by
      by_cases unreserved : isUnreserved first = true
      · rw [unreserved, Bool.true_or]
      · have percent : first = chr '%' := not_not.mp fun other => goesOn (by
          simp [unreserved, other])
        rw [percent, beq_self_eq_true, Bool.or_true]
    have goes : queryTurn offset [] first (others ++ []) ⟨.queryName, offset, .empty, uri⟩ =
        .go ⟨.queryName, offset, .empty, uri⟩ := by
      simp only [queryTurn, plain, if_true]
    have starts : QueryTrail (queryLead [] ++ [first]) .queryName :=
      .name (fun _ member => absurd member List.not_mem_nil)
        (token_singleton (nameByte_of_isPlain plain))
    have leads : (feed (queryTurn offset) [first] others [] 0
        ⟨.queryName, offset, .empty, uri⟩).Leads
        (fun skip (l : QueryLocals) => skip = 0 ∧ QueryTrail ([first] ++ others) l.state)
        (fun outcome => outcome.verdict = .error) :=
      feed_invariant_of_no_jump (fun before (l : QueryLocals) => QueryTrail before l.state) starts
        fun _ _ _ _ _ trail => queryTurn_trail trail
    rw [run, feed_cons_go goes, List.nil_append]
    generalize feed (queryTurn offset) [first] others [] 0 _ = ended at leads ⊢
    cases ended with
    | left outcome => exact Or.inl leads
    | inside skip l =>
      obtain ⟨rfl, trail⟩ := leads
      exact queryEnd_trail trail

/-! ### The grammar -/

/-- `parse_queries` accepts just the strings of pairs, stores their pairs in order, and refuses all
others. -/
theorem parseQueries_completed_iff (before query after : List Byte) {buf : List Byte} {uri : Uri}
    (split : buf = before ++ query ++ after) (nonempty : query ≠ [])
    (place : uri.querystr = .range before.length (before ++ query).length)
    (none : uri.queries = []) :
    ((parseQueries buf uri).verdict = .completed ↔
      ∃ pairs, pairs ≠ [] ∧ (∀ pair ∈ pairs, IsPair pair) ∧ query = queryText pairs) ∧
    (∀ pairs, (∀ pair ∈ pairs, IsPair pair) → query = queryText pairs →
      ∃ stored, parseQueries buf uri = ⟨.completed, { uri with queries := stored }⟩ ∧
        List.Forall₂ (QueryRead buf) stored pairs) ∧
    ((parseQueries buf uri).verdict ≠ .completed → (parseQueries buf uri).verdict = .error) := by
  have reads (pairs : List (List Byte × List Byte)) (good : ∀ pair ∈ pairs, IsPair pair)
      (same : query = queryText pairs) :
      ∃ stored, parseQueries buf uri = ⟨.completed, { uri with queries := stored }⟩ ∧
        List.Forall₂ (QueryRead buf) stored pairs := by
    obtain ⟨stored, parsed, read⟩ := parseQueryText_queryText before pairs good none
    rw [parseQueries_range split place, same, parsed, split, same]
    exact ⟨stored, rfl, read.imp fun _ _ one => one.append after⟩
  have trail := parseQueryText_trail before.length nonempty uri
  rw [← parseQueries_range split place] at trail
  refine ⟨⟨fun completed => ?_, ?_⟩, reads, fun refused => ?_⟩
  · rcases trail with error | ⟨_, pairs⟩
    · rw [error] at completed
      cases completed
    · exact pairs
  · rintro ⟨pairs, _, good, same⟩
    obtain ⟨stored, parsed, _⟩ := reads pairs good same
    rw [parsed]
  · exact trail.resolve_right fun ⟨completed, _⟩ => refused completed

theorem parseQueries_completed_iff_twoPairs :
    (parseQueries (ascii "/p?n=v&m=w#top")
      { Uri.fresh with querystr := .range 3 10 }).verdict = .completed ↔
      ∃ pairs, pairs ≠ [] ∧ (∀ pair ∈ pairs, IsPair pair) ∧ ascii "n=v&m=w" = queryText pairs :=
  (parseQueries_completed_iff (ascii "/p?") (ascii "n=v&m=w") (ascii "#top") rfl (by decide) rfl
    rfl).1

end UriParser

end Sheep
