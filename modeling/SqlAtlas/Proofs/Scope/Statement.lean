import SqlAtlas.Proofs.Scope.Splitting
import SqlAtlas.Proofs.Text.Block
import SqlAtlas.Proofs.Token
import SqlAtlas.Scope.File

/-!
# Where statements stand

A statement is a run of the tokens of its text, or of the tokens of the piece between two semicolons
that it stands in.
-/

namespace SqlAtlas

set_option autoImplicit false

open Text Scan

namespace FileScopes

def PieceTokens (text : List Char) (here : Span) (tokens : List Lexeme) : Prop :=
  ∃ piece, IsPiece text here piece ∧ lexemesFrom .tsql here.start piece = some tokens

theorem PieceTokens.rest {text : List Char} {here : Span} {before after : List Lexeme} {l : Lexeme}
    (h : PieceTokens text here (before ++ l :: after)) : ∃ front post back,
      text = front ++ (post ++ back) ∧ l.span.start = size front ∧ here.stop = size (front ++ post) ∧
        lexemesFrom .tsql l.span.start post = some (l :: after) := by
  obtain ⟨piece, ⟨left, right, rfl, rfl⟩, htokens⟩ := h
  obtain ⟨pre, post, rfl, hstart, hpost⟩ := lexemesFrom_rest htokens
  refine ⟨left ++ pre, post, right, by simp only [List.append_assoc], ?_, ?_, hpost⟩
  · exact hstart.trans (size_append left pre).symm
  · simp only [size_append, Nat.add_assoc]

theorem PieceTokens.isPiece {text : List Char} {here : Span} {tokens : List Lexeme}
    (h : PieceTokens text here tokens) {l : Lexeme} (hl : l ∈ tokens) :
    ∃ piece, IsPiece text l.span piece := by
  obtain ⟨piece, ⟨left, right, rfl, rfl⟩, htokens⟩ := h
  obtain ⟨inner, hinner⟩ := isPiece_of_mem_lexemesFrom htokens hl
  exact ⟨inner, List.append_assoc left piece right ▸ hinner.append_right right⟩

theorem PieceTokens.stop_le {text : List Char} {here : Span} {tokens : List Lexeme}
    (h : PieceTokens text here tokens) {l : Lexeme} (hl : l ∈ tokens) : l.span.stop ≤ here.stop := by
  obtain ⟨piece, ⟨left, right, _, rfl⟩, htokens⟩ := h
  obtain ⟨_, hpiece⟩ := isPiece_of_mem_lexemesFrom htokens hl
  exact size_append left piece ▸ hpiece.stop_le_size

theorem PieceTokens.ascending {text : List Char} {here : Span} {tokens : List Lexeme}
    (h : PieceTokens text here tokens) :
    tokens.Pairwise fun l next => l.span.stop < next.span.stop := by
  obtain ⟨_, _, htokens⟩ := h
  exact lexemesFrom_ascending htokens

theorem tokens_of_cutPiece? {text piece : List Char} {here : Span} {c : Cut}
    (hpiece : IsPiece text here piece) (h : cutPiece? text here = some c) :
    PieceTokens text here c.tokens ∧
      Statement.Splits (Statement.isBatchSeparator text) c.tokens c.statements := by
  obtain ⟨tokens, htokens, rfl⟩ := Option.map_eq_some_iff.mp h
  rw [hpiece.slice_eq] at htokens
  exact ⟨⟨piece, hpiece, htokens⟩, Statement.splits_split tokens⟩

theorem isPiece_of_mem_tokens {text : List Char} {l : Lexeme} (h : l ∈ (cut text).tokens) :
    ∃ piece, IsPiece text l.span piece := by
  rw [cut] at h
  split at h
  · rename_i whole hwhole
    exact (tokens_of_cutPiece? (isPiece_whole text) hwhole).1.isPiece h
  · obtain ⟨c, hc, hl⟩ := List.mem_flatMap.mp h
    obtain ⟨here, hhere, hcut⟩ := List.mem_filterMap.mp hc
    obtain ⟨piece, hpiece, _⟩ := isPiece_of_mem_splitOnSemicolons hhere
    exact (tokens_of_cutPiece? hpiece hcut).1.isPiece hl

/-- Every statement of a text is one of the statements of a piece, and the tokens of the piece stand
together in the text. -/
theorem exists_piece_of_mem_cut {text : List Char} {statement : List Lexeme}
    (h : statement ∈ (cut text).statements) : ∃ here tokens statements, PieceTokens text here tokens ∧
      Statement.Splits (Statement.isBatchSeparator text) tokens statements ∧ statement ∈ statements ∧
        tokens <:+: (cut text).tokens := by
  rw [cut] at h ⊢
  split at h
  · rename_i whole hwhole
    obtain ⟨htokens, hsplits⟩ := tokens_of_cutPiece? (isPiece_whole text) hwhole
    exact ⟨_, _, _, htokens, hsplits, h, List.infix_refl _⟩
  · obtain ⟨c, hc, hstatement⟩ := List.mem_flatMap.mp h
    obtain ⟨here, hhere, hcut⟩ := List.mem_filterMap.mp hc
    obtain ⟨piece, hpiece, _⟩ := isPiece_of_mem_splitOnSemicolons hhere
    obtain ⟨htokens, hsplits⟩ := tokens_of_cutPiece? hpiece hcut
    obtain ⟨before, after, hpieces⟩ := List.append_of_mem hc
    refine ⟨_, _, _, htokens, hsplits, hstatement, before.flatMap (·.tokens),
      after.flatMap (·.tokens), ?_⟩
    simp only [hpieces, List.flatMap_append, List.flatMap_cons, List.append_assoc]

/-- Every statement of a text is a run of tokens of one of its pieces. -/
theorem infix_of_mem_cut {text : List Char} {statement : List Lexeme}
    (h : statement ∈ (cut text).statements) :
    ∃ here tokens, PieceTokens text here tokens ∧ statement <:+: tokens := by
  obtain ⟨here, tokens, _, htokens, hsplits, hstatement, _⟩ := exists_piece_of_mem_cut h
  obtain ⟨before, l, more, rest, rfl, rfl, _⟩ := hsplits.whole_of_mem hstatement
  exact ⟨here, _, htokens, before, rest, List.append_assoc _ _ _⟩

end FileScopes

end SqlAtlas
