import SqlAtlas.Proofs.Name.Token
import SqlAtlas.Proofs.Scope.Clause
import SqlAtlas.Proofs.Scope.Statement

/-!
# Names behind the words of clauses

A clause word of a statement introduces the name behind it. If the name is written plainly, then the
tokens behind the word are those of the name, the clause takes all of them, and what they hold stands
for the same table as what is written.
-/

namespace SqlAtlas

set_option autoImplicit false

open Text Scan

/-! ### The tokens of a name as an object name -/

/-- A bare word that names nothing. -/
def NameWord.isReserved : NameWord → Bool
  | bare first more => Keyword.isReserved (first :: more)
  | delimited _ _ => false

namespace DottedName

theorem nameRest_stop {toks : List Token} (h : toks.head? ≠ some .period) :
    Clause.nameRest false toks = ([], 0) := by
  cases toks with
  | nil => rfl
  | cons t toks =>
    cases t with
    | period => exact absurd rfl h
    | _ => rfl

theorem nameRest_moreLexemes (more : List DottedWord) (offset : Nat) {rest : List Token}
    (hrest : rest.head? ≠ some .period) :
    Clause.nameRest false ((moreLexemes offset more).map (·.token) ++ rest) =
      (more.flatMap (·.value), (moreLexemes offset more).length) := by
  induction more generalizing offset with
  | nil => exact nameRest_stop hrest
  | cons p more ih =>
    have hword : ∀ w : NameWord, ∃ quote, w.token = .word w.value quote := by
      rintro (_ | _) <;> exact ⟨_, rfl⟩
    obtain ⟨quote, hquote⟩ := hword p.word
    rw [moreLexemes, List.map_append, List.append_assoc, DottedWord.lexemes]
    simp [Clause.nameRest, NameWord.lexeme, hquote, ih, DottedWord.value]

theorem objectName_lexemes {n : DottedName} (hfirst : n.first.isReserved = false) (offset : Nat)
    {rest : List Token} (hrest : rest.head? ≠ some .period) :
    Clause.objectName ((n.lexemes offset).map (·.token) ++ rest) =
      some (n.value, (n.lexemes offset).length) := by
  have hmore := nameRest_moreLexemes n.more (offset + size n.first.spelled) hrest
  rw [lexemes, List.map_cons, List.cons_append, value]
  cases hword : n.first with
  | bare first more =>
    rw [hword] at hfirst hmore
    have hreserved : Keyword.isReserved (first :: more) = false := hfirst
    simp [NameWord.lexeme, NameWord.token, NameWord.value, Clause.objectName, hreserved, hmore]
  | delimited mark inside =>
    rw [hword] at hmore
    simp [NameWord.lexeme, NameWord.token, NameWord.value, Clause.objectName, hmore]

theorem stop_moreLexemes {more : List DottedWord} (hne : more ≠ []) (offset : Nat) :
    (moreLexemes offset more).getLast?.map (·.span.stop) =
      some (offset + size (more.flatMap (·.spelled))) := by
  induction more generalizing offset with
  | nil => exact absurd rfl hne
  | cons p more ih =>
    cases more with
    | nil =>
      simp [moreLexemes, DottedWord.lexemes, NameWord.lexeme, DottedWord.spelled,
        show '.'.utf8Size = 1 from rfl]
      omega
    | cons q more =>
      obtain ⟨last, hlast, hstop⟩ := Option.map_eq_some_iff.mp (ih (List.cons_ne_nil q more) (offset + size p.spelled))
      rw [moreLexemes, List.getLast?_append, hlast]
      simp [hstop, Nat.add_assoc]

theorem stop_lexemes (n : DottedName) (offset : Nat) : ∃ init last,
    n.lexemes offset = init ++ [last] ∧ last.span.stop = offset + size n.spelled := by
  obtain ⟨first, more⟩ := n
  by_cases hmore : more = []
  · subst hmore
    exact ⟨[], first.lexeme offset, rfl, by simp [NameWord.lexeme, spelled]⟩
  · obtain ⟨last, hlast, hstop⟩ :=
      Option.map_eq_some_iff.mp (stop_moreLexemes hmore (offset + size first.spelled))
    obtain ⟨init, hinit⟩ := List.getLast?_eq_some_iff.mp hlast
    refine ⟨first.lexeme offset :: init, last, ?_, ?_⟩
    · rw [lexemes, hinit, List.cons_append]
    · rw [hstop, spelled, size_append, Nat.add_assoc]

end DottedName

theorem EndsName.of_append {rest more : List Char} (h : EndsName (rest ++ more)) : EndsName rest := by
  cases rest with
  | nil => exact ⟨nofun, nofun, nofun⟩
  | cons c rest => exact ⟨h.part, h.quote, h.delimiter⟩

/-! ### Introductions -/

/-- A statement cut around the word of a clause and the tokens of the name behind it. -/
structure Introduction where
  before : List Lexeme
  keyword : Lexeme
  name : List Lexeme
  rest : List Lexeme
  /-- The word, in upper case. -/
  word : String
  /-- The name as it is written. -/
  written : DottedName
deriving DecidableEq, Repr

namespace Introduction

def statement (i : Introduction) : List Lexeme := i.before ++ i.keyword :: (i.name ++ i.rest)

def tokens (i : Introduction) : List Token := i.statement.map (·.token)

/-- The name is written plainly at `here`, up to a character that ends it, and the tokens behind the
keyword start and end where it does. -/
structure Plain (i : Introduction) (text : List Char) (here : Span) : Prop where
  plain : i.written.Plain
  spelled : slice text here = i.written.spelled
  ends : EndsName (dropBytes here.stop text)
  first : i.name.head?.map (·.span.start) = some here.start
  last : i.name.getLast?.map (·.span.stop) = some here.stop

/-- The clause of the keyword binds the name as a table: the reader comes to the clause, and the name
is neither a function, nor a named subquery, nor the target of a change and an alias of something
else. -/
structure Binds (i : Introduction) : Prop where
  word : i.word ∈ Clause.sourceWords ∨ i.word ∈ Clause.targetWords
  keyword : i.keyword.token.isKeyword i.word = true
  reaches : Clause.Reaches (Clause.subqueries i.tokens)
    (i.keyword.token :: (i.name ++ i.rest).map (·.token)) i.tokens
  unreserved : i.written.first.isReserved = false
  undotted : (i.rest.map (·.token)).head? ≠ some .period
  uncalled : (i.rest.map (·.token)).head? ≠ some .openParen
  subquery : Text.lower i.written.value ∉ Clause.subqueries i.tokens
  unaliased : i.word ∈ Clause.targetWords → ∀ target,
    (Clause.sources i.tokens).aliases.get? i.written.value = some target →
      target = .table (Name.ofChars i.written.value)

variable {i : Introduction} {text : List Char} {here : Span}

/-- The tokens from a plainly written name on, if they reach its end, start with the name's. -/
theorem lexemes_rest (hplain : i.Plain text here) (hhere : IsPiece text here i.written.spelled)
    {front post back : List Char} {tokens : List Lexeme} (htext : text = front ++ (post ++ back))
    (hstart : here.start = size front) (hwithin : here.stop ≤ size (front ++ post))
    (hpost : lexemesFrom .tsql here.start post = some tokens) :
    ∃ others, tokens = i.written.lexemes here.start ++ others := by
  obtain ⟨left, right, hright, rfl⟩ := hhere
  obtain ⟨gap, rfl, hgap⟩ := cut_of_size_le (htext.symm.trans hright) (Nat.le_of_eq hstart.symm)
  obtain rfl : gap = [] := eq_nil_of_size (by simpa using hstart)
  rw [List.append_nil] at *
  obtain ⟨later, rfl, hlater⟩ := cut_of_size_le (show i.written.spelled ++ right = post ++ back from hgap.symm)
    (by simp only [size_append] at hwithin; omega)
  have hends : EndsName later := by
    have hends := hplain.ends
    rw [hright, ← List.append_assoc, ← size_append, dropBytes_size_append, hlater] at hends
    exact hends.of_append
  rw [i.written.lexemesFrom_spelled hplain.plain _ hends] at hpost
  obtain ⟨others, _, hothers⟩ := Option.map_eq_some_iff.mp hpost
  exact ⟨others, hothers.symm⟩

/-- The tokens behind the keyword are those of the name that is written there. -/
theorem name_eq_lexemes (hplain : i.Plain text here) (hhere : IsPiece text here i.written.spelled)
    (hstatement : i.statement ∈ (FileScopes.cut text).statements) :
    i.name = i.written.lexemes here.start := by
  obtain ⟨span, ls, htokens, lead, tail, hsplit⟩ := FileScopes.infix_of_mem_cut hstatement
  obtain ⟨first, hfirst, hstart⟩ := Option.map_eq_some_iff.mp hplain.first
  obtain ⟨last, hlast, hstop⟩ := Option.map_eq_some_iff.mp hplain.last
  obtain ⟨more, hcons⟩ := List.head?_eq_some_iff.mp hfirst
  obtain ⟨init, hconcat⟩ := List.getLast?_eq_some_iff.mp hlast
  have hshape : ls = (lead ++ i.before ++ [i.keyword]) ++ (i.name ++ (i.rest ++ tail)) := by
    rw [← hsplit, statement]
    simp
  have hwithin : here.stop ≤ span.stop := hstop ▸ htokens.stop_le (by simp [hshape, hconcat])
  rw [hshape] at htokens
  have hascending := (List.pairwise_append.mp htokens.ascending).2.1
  obtain ⟨others, hothers⟩ : ∃ others,
      i.name ++ (i.rest ++ tail) = i.written.lexemes here.start ++ others := by
    rw [hcons, List.cons_append] at htokens ⊢
    obtain ⟨front, post, back, htext, hfront, hpost, hrest⟩ := htokens.rest
    rw [hstart] at hfront hrest
    exact lexemes_rest hplain hhere htext hfront (hpost ▸ hwithin) hrest
  -- the name ends at the end of one token only
  obtain ⟨init', last', hlexemes, hstop'⟩ := i.written.stop_lexemes here.start
  rw [← hhere.stop_eq] at hstop'
  rw [hlexemes, List.append_assoc, List.singleton_append] at hothers
  rw [hconcat, List.append_assoc, List.singleton_append] at hothers hascending
  obtain ⟨rfl, rfl, _⟩ := eq_of_stop hascending hothers (hstop.trans hstop'.symm)
  rw [hconcat, hlexemes]

/-- A plainly written name that a clause of a statement binds is a candidate of the statement. -/
theorem mem_candidates (hplain : i.Plain text here) (hbinds : i.Binds)
    (hhere : IsPiece text here i.written.spelled)
    (hstatement : i.statement ∈ (FileScopes.cut text).statements)
    (hnamed : (Name.ofChars i.written.spelled).isEmpty = false) :
    Name.ofChars i.written.spelled ∈ (Clause.sources i.tokens).candidates := by
  have hname := name_eq_lexemes hplain hhere hstatement
  have hobject : Clause.objectName ((i.name ++ i.rest).map (·.token)) =
      some (i.written.value, i.name.length) := by
    rw [List.map_append, hname]
    exact DottedName.objectName_lexemes hbinds.unreserved _ hbinds.undotted
  have hcall : (((i.name ++ i.rest).map (·.token)).drop i.name.length).head? ≠ some .openParen := by
    rw [List.map_append, List.drop_left' (List.length_map _)]
    exact hbinds.uncalled
  rw [i.written.ofChars_spelled hplain.plain] at hnamed ⊢
  exact Clause.mem_candidates_of_reaches hbinds.reaches hbinds.keyword hbinds.word hobject hcall
    hbinds.subquery hbinds.unaliased hnamed

end Introduction

end SqlAtlas
