import SqlAtlas.Proofs.Reference.Naming
import SqlAtlas.Proofs.Reference.Place
import SqlAtlas.Proofs.Scope.Introduction

/-!
# Table references and candidate tables

The reader of lines and the reader of clauses find tables independently of each other, the one in the
masked text and the other in its tokens. They agree on a name that is written plainly behind the word
of a clause that binds it.
-/

namespace SqlAtlas.Usage

set_option autoImplicit false

open Text

def TableAt (s : Source) (r : Reference) (here : Span) : Prop :=
  ∃ line ∈ lines s.chars, here ∈ tableNames s line.span ∧ tableEmission? s here = some (.reference r)

def StatementAt (text : List Char) (offset : Nat) (statement : List Lexeme) : Prop :=
  statement ∈ (FileScopes.cut text).statements ∧
    (FileScopes.ofText text).scopeAt? offset =
      some (FileScopes.statementScope (FileScopes.ofText text).routines statement)

variable {uri : String} {text : List Char} {scopes : FileScopes} {catalog : Catalog} {limit : Nat}
  {r : Reference}

theorem exists_tableAt
    (hr : r ∈ (extractReferences uri text scopes catalog limit).references) (hkind : r.kind = .table) :
    ∃ here, TableAt (.ofText uri text scopes) r here := by
  have hemitted := (collected_extractReferences uri text scopes catalog limit).emitted r hr
  have hother : ∀ kind, r.kind = kind → kind ≠ .table → False := fun kind h hne => hne (h ▸ hkind)
  rcases emissions_cases hemitted with
    ⟨l, hl, ⟨here, hhere, he⟩ | ⟨here, _, he⟩ | ⟨here, _, he⟩ | ⟨here, _, he⟩⟩ | ⟨routine, _, v, _, he⟩
  · exact ⟨here, l, hl, hhere, he⟩
  · exact (hother _ (callEmission?_name he).1 nofun).elim
  · obtain ⟨table, column, place, _, he⟩ := qualifiedEmission?_name he
    cases he
    exact (hother _ rfl nofun).elim
  · obtain ⟨table, column, place, _, he⟩ := bareEmissions_name he
    cases he
    exact (hother _ rfl nofun).elim
  · cases he
    exact (hother _ rfl nofun).elim

theorem TableAt.spelling {here : Span} (h : TableAt (.ofText uri text scopes) r here) :
    IsPiece text here (slice text here) := by
  obtain ⟨l, hl, hhere, _⟩ := h
  obtain ⟨raw, hraw, _⟩ := (nameIn_of_mem_claimedFirst hl (List.mem_append_left _ hhere)).spelling
  exact hraw.slice_eq ▸ hraw

/-- Every reference to a table has the name that stands somewhere behind a word for tables. The name is a
candidate of the statement around it if it is written plainly behind the word of a clause of that
statement and the clause binds it. -/
theorem table_mem_candidates
    (hr : r ∈ (extractReferences uri text (.ofText text) catalog limit).references)
    (hkind : r.kind = .table) :
    (∃ here, TableAt (.ofText uri text (.ofText text)) r here) ∧
      ∀ {here : Span} {i : Introduction}, TableAt (.ofText uri text (.ofText text)) r here →
        StatementAt text here.start i.statement → i.Plain text here → i.Binds →
          ∃ scope, (FileScopes.ofText text).scopeAt? here.start = some scope ∧
            r.name ∈ scope.candidates := by
  refine ⟨exists_tableAt hr hkind, ?_⟩
  rintro here i htable ⟨hstatement, hscope⟩ hplain hbinds
  have hpiece := htable.spelling
  obtain ⟨_, _, _, hemitted⟩ := htable
  have hname : r.name = .ofChars i.written.spelled := hplain.spelled ▸ (tableEmission?_name hemitted).2
  have hnamed : r.name.isEmpty = false := Extraction.named_ofEmissions limit _ r hr
  rw [hplain.spelled] at hpiece
  rw [hname] at hnamed ⊢
  exact ⟨_, hscope, Introduction.mem_candidates hplain hbinds hpiece hstatement hnamed⟩

/-- A qualified name with a word in delimiters and blanks around its dot. -/
theorem table_mem_candidates_delimited :
    let text := "SELECT * FROM dbo . [Order Lines] o".toList
    let r : Reference := ⟨.ofText "order lines", "q.sql", ⟨0, 21, 32⟩, .table⟩
    (r ∈ (extractReferences "q.sql" text (.ofText text) (fun _ _ => false) 10).references ∧
      r.kind = .table) ∧
      ∃ scope, (FileScopes.ofText text).scopeAt? 14 = some scope ∧ r.name ∈ scope.candidates := by
  intro text r
  have hr : r ∈ (extractReferences "q.sql" text (.ofText text) (fun _ _ => false) 10).references := by
    decide +kernel
  let written : DottedName :=
    ⟨.bare 'd' "bo".toList, [⟨[' '], [' '], .delimited '[' "Order Lines".toList⟩]⟩
  let i : Introduction :=
    { before := [⟨.word "SELECT".toList none, ⟨0, 6⟩⟩, ⟨.operator ['*'], ⟨7, 8⟩⟩]
      keyword := ⟨.word "FROM".toList none, ⟨9, 13⟩⟩
      name := written.lexemes 14
      rest := [⟨.word ['o'] none, ⟨34, 35⟩⟩]
      word := "FROM"
      written := written }
  have htable : TableAt (.ofText "q.sql" text (.ofText text)) r ⟨14, 33⟩ :=
    ⟨⟨0, text⟩, List.mem_singleton_self _, by decide +kernel, by decide +kernel⟩
  have hstatement : StatementAt text 14 i.statement := ⟨by decide +kernel, by decide +kernel⟩
  have hplain : i.Plain text ⟨14, 33⟩ :=
    ⟨by decide +kernel, by decide +kernel, by decide +kernel, by decide +kernel, by decide +kernel⟩
  have hbinds : i.Binds := by
    refine ⟨.inl (by decide), by decide +kernel, ?_, by decide +kernel, by decide, by decide,
      by decide +kernel, fun h => absurd h (by decide)⟩
    exact .skip (by decide +kernel) (.skip (by decide +kernel) .here)
  exact ⟨⟨hr, rfl⟩, (table_mem_candidates hr rfl).2 htable hstatement hplain hbinds⟩

/-- A function with its arguments on the next line. -/
theorem table_mem_candidates_call :
    let text := "SELECT * FROM fn\n(1)".toList
    let r : Reference := ⟨.ofText "fn", "q.sql", ⟨0, 14, 16⟩, .table⟩
    r ∈ (extractReferences "q.sql" text (.ofText text) (fun _ _ => false) 10).references ∧
      TableAt (.ofText "q.sql" text (.ofText text)) r ⟨14, 16⟩ ∧
      slice text ⟨9, 13⟩ = "FROM".toList ∧
      ∃ scope, (FileScopes.ofText text).scopeAt? 14 = some scope ∧ r.name ∉ scope.candidates := by
  intro text r
  refine ⟨by decide +kernel, ?_, by decide +kernel, ?_⟩
  · exact ⟨⟨0, "SELECT * FROM fn".toList⟩, by decide +kernel, by decide +kernel, by decide +kernel⟩
  · exact ⟨FileScopes.statementScope [] ((lexemes? .tsql 0 text).getD []), by decide +kernel, by decide +kernel⟩

end SqlAtlas.Usage
