import SqlAtlas.Proofs.Checked.Block
import SqlAtlas.Proofs.Checked.Clause
import SqlAtlas.Proofs.Checked.Line
import SqlAtlas.Proofs.Checked.Routine
import SqlAtlas.Proofs.Checked.Statement
import SqlAtlas.Proofs.Text.Block
import SqlAtlas.Proofs.Token
import SqlAtlas.Scope.File

/-!
# Scopes of a file, checked

Tokens come with positions, which become offsets again. Statements are ranges of indices in the
tokens of the whole file: those of a later piece of a text that has no tokens as a whole move by the
number of the tokens before.
-/

namespace SqlAtlas.Checked

set_option autoImplicit false

open Text

def lexeme (piece : List Char) (base : Nat) (l : Lexeme) : Except Fault Lexeme := do
  let start ← offset piece (Text.position piece l.span.start)
  let stop ← offset piece (Text.position piece l.span.stop)
  return ⟨l.token, ⟨base + start, base + stop⟩⟩

def lexemes (piece : List Char) (base : Nat) : Except Fault (Option (List Lexeme)) :=
  match lexemes? .tsql 0 piece with
  | none => return none
  | some ls => do
    let placed ← ls.mapM (lexeme piece base)
    return some placed

structure Cut where
  tokens : List Lexeme := []
  statements : List (Nat × Nat) := []

def cutPiece (cs : List Char) (piece : Span) : Except Fault (Option Cut) := do
  let text ← slice cs piece
  match ← lexemes text piece.start with
  | none => return none
  | some tokens =>
    let statements ← split (isBatchSeparator cs) tokens
    return some ⟨tokens, statements⟩

def Cut.join (a b : Cut) : Cut :=
  ⟨a.tokens ++ b.tokens, a.statements ++
    b.statements.map fun r => (a.tokens.length + r.1, a.tokens.length + r.2)⟩

/-- The tokens and the statements of the pieces between semicolons that have tokens. -/
def cutAtSemicolons (cs : List Char) : Except Fault Cut := do
  let pieces ← splitOnSemicolons cs
  let cuts ← pieces.filterMapM (cutPiece cs)
  return cuts.foldl Cut.join {}

/-- The tokens of a text and its statements, piece by piece if it has no tokens as a whole. -/
def cut (cs : List Char) : Except Fault Cut := do
  match ← cutPiece cs ⟨0, size cs⟩ with
  | some whole => return whole
  | none => cutAtSemicolons cs

def statementScope (found : List Routine) (tokens : List Lexeme) (r : Nat × Nat) :
    Except Fault StatementScope := do
  let ls ← sublist tokens r.1 r.2
  let first ← get ls 0
  let i ← sub ls.length 1
  let last ← get ls i
  let bound ← sources (ls.map (·.token))
  return ⟨⟨first.span.start, last.span.stop⟩, bound.aliases, bound.candidates,
    FileScopes.localsAt found first.span.start⟩

def scopes (cs : List Char) : Except Fault FileScopes := do
  let c ← cut cs
  let found ← routines (isBatchSeparator cs) c.tokens
  let statements ← (c.statements.filter fun r => decide (r.1 < r.2)).mapM (statementScope found c.tokens)
  return ⟨statements, found, statements.foldl (fun m s => m.extendMissing s.aliases) {}⟩

def scopeAt (f : FileScopes) (offset : Nat) : Except Fault (Option StatementScope) :=
  match (f.statements.takeWhile fun s => decide (s.span.start ≤ offset)).length with
  | 0 => return none
  | n => do
    let i ← sub n 1
    return (f.statements[i]?).filter fun s => decide (offset ≤ s.span.stop)

/-! ### Tokens -/

theorem lexemes_eq (piece : List Char) (base : Nat) :
    lexemes piece base = pure (lexemes? .tsql base piece) := by
  have hshift := lexemesFrom_shift .tsql base 0 piece
  rw [Nat.add_zero] at hshift
  rw [lexemes, lexemes?, lexemes?, hshift]
  cases hls : Scan.lexemesFrom .tsql 0 piece with
  | none => rfl
  | some ls =>
    have hplaced : ls.mapM (lexeme piece base) = pure (ls.map (Lexeme.shift base)) := by
      refine mapM_pure_of_forall fun l hl => ?_
      have hstart : Scan.lexemesFrom .tsql (size []) piece = some ls := hls
      obtain ⟨spelling, hspelling⟩ : ∃ spelling, IsPiece piece l.span spelling :=
        isPiece_of_mem_lexemesFrom hstart hl
      rw [lexeme, offset_eq, pure_bind, offset_eq, pure_bind,
        offset_position hspelling.boundary_start, offset_position hspelling.boundary_stop]
      rfl
    simp only [hplaced, pure_bind, Option.map_some]

/-! ### Pieces -/

/-- The statements themselves in place of their ranges. -/
def Cut.plain (c : Cut) : FileScopes.Cut :=
  ⟨c.tokens, c.statements.map fun r => c.tokens.extract r.1 r.2⟩

/-- The tokens start between characters, and no statement is empty. -/
structure Cut.Sound (cs : List Char) (c : Cut) : Prop where
  inside : ∀ l ∈ c.tokens, IsBoundary cs l.span.start
  bounds : ∀ r ∈ c.statements, r.1 < r.2 ∧ r.2 ≤ c.tokens.length

section

variable {cs piece : List Char} {here : Span}

theorem cutPiece_eq (h : IsPiece cs here piece) : ∃ c, cutPiece cs here = pure c ∧
    (∀ x ∈ c, x.Sound cs) ∧ c.map Cut.plain = FileScopes.cutPiece? cs here := by
  rw [cutPiece, slice_piece h, pure_bind, lexemes_eq, pure_bind, FileScopes.cutPiece?, h.slice_eq]
  cases hls : lexemes? .tsql here.start piece with
  | none => exact ⟨none, rfl, by simp, rfl⟩
  | some ls =>
    have hinside : ∀ l ∈ ls, IsBoundary cs l.span.start := by
      intro l hl
      obtain ⟨before, after, rfl, rfl⟩ := h
      obtain ⟨spelling, hspelling⟩ := isPiece_of_mem_lexemesFrom hls hl
      rw [← List.append_assoc]
      exact (hspelling.append_right after).boundary_start
    obtain ⟨ranges, hsplit, hbounds, hranges⟩ := split_eq fun l hl =>
      isBatchSeparator_eq (hinside l hl)
    refine ⟨some ⟨ls, ranges⟩, ?_, ?_, ?_⟩
    · simp only [hsplit, pure_bind]
    · rintro x ⟨rfl⟩
      exact ⟨hinside, hbounds⟩
    · rw [Option.map_some, Option.map_some, Cut.plain, hranges]

theorem Cut.Sound.join {a b : Cut} (ha : a.Sound cs) (hb : b.Sound cs) : (a.join b).Sound cs := by
  constructor
  case inside =>
    intro l hl
    rcases List.mem_append.mp hl with hl | hl
    · exact ha.inside l hl
    · exact hb.inside l hl
  case bounds =>
    intro r hr
    rw [Cut.join, List.length_append]
    rcases List.mem_append.mp hr with hr | hr
    · have hbounds := ha.bounds r hr
      omega
    · obtain ⟨q, hq, rfl⟩ := List.mem_map.mp hr
      have hbounds := hb.bounds q hq
      simp only
      omega

/-- The statements of a joined cut are those of its two sides. -/
theorem Cut.plain_join {a b : Cut} (ha : a.Sound cs) : (a.join b).plain =
    ⟨a.plain.tokens ++ b.plain.tokens, a.plain.statements ++ b.plain.statements⟩ := by
  -- earlier ranges stay within the earlier tokens, later ones are moved behind them
  have hleft : ∀ r ∈ a.statements, (a.tokens ++ b.tokens).extract r.1 r.2 = a.tokens.extract r.1 r.2 := by
    intro r hr
    have hbounds := ha.bounds r hr
    rw [List.extract_eq_take_drop, List.extract_eq_take_drop, List.drop_append_of_le_length (by omega),
      List.take_append_of_le_length (by rw [List.length_drop]; omega)]
  have hright : ∀ r : Nat × Nat, (a.tokens ++ b.tokens).extract (a.tokens.length + r.1)
      (a.tokens.length + r.2) = b.tokens.extract r.1 r.2 := by
    intro r
    rw [List.extract_eq_take_drop, List.extract_eq_take_drop, ← List.drop_drop, List.drop_left,
      Nat.add_sub_add_left]
  simp only [Cut.plain, Cut.join, List.map_append, List.map_map, Function.comp_def, hright,
    List.map_congr_left hleft]

theorem Cut.Sound.foldl {acc : Cut} {pieces : List Cut} (hacc : acc.Sound cs)
    (hpieces : ∀ c ∈ pieces, c.Sound cs) : (pieces.foldl Cut.join acc).Sound cs ∧
      (pieces.foldl Cut.join acc).plain =
        ⟨acc.plain.tokens ++ (pieces.map Cut.plain).flatMap (·.tokens),
          acc.plain.statements ++ (pieces.map Cut.plain).flatMap (·.statements)⟩ := by
  induction pieces generalizing acc with
  | nil => exact ⟨hacc, by simp⟩
  | cons c pieces ih =>
    obtain ⟨hsound, hplain⟩ := ih (hacc.join (hpieces c List.mem_cons_self))
      fun d hd => hpieces d (List.mem_cons_of_mem c hd)
    refine ⟨hsound, ?_⟩
    rw [List.foldl_cons, hplain, Cut.plain_join hacc]
    simp

theorem cutPieces_eq {pieces : List Span} (h : ∀ p ∈ pieces, ∃ piece, IsPiece cs p piece) : ∃ found,
    pieces.filterMapM (cutPiece cs) = pure found ∧ (∀ c ∈ found, c.Sound cs) ∧
      found.map Cut.plain = pieces.filterMap (FileScopes.cutPiece? cs) := by
  induction pieces with
  | nil => exact ⟨[], rfl, by simp, rfl⟩
  | cons p pieces ih =>
    obtain ⟨piece, hpiece⟩ := h p List.mem_cons_self
    obtain ⟨c, hc, hsound, hplain⟩ := cutPiece_eq hpiece
    obtain ⟨found, hfound, hsounds, hplains⟩ := ih fun q hq => h q (List.mem_cons_of_mem p hq)
    rw [List.filterMapM_cons, hc, pure_bind, hfound, List.filterMap_cons, ← hplain, ← hplains]
    cases c with
    | none => exact ⟨found, rfl, hsounds, rfl⟩
    | some c => exact ⟨c :: found, rfl, by simpa using ⟨hsound c rfl, hsounds⟩, rfl⟩

theorem cutAtSemicolons_eq (cs : List Char) : ∃ c, cutAtSemicolons cs = pure c ∧ c.Sound cs ∧
    c.plain = ⟨((Text.splitOnSemicolons cs).filterMap (FileScopes.cutPiece? cs)).flatMap (·.tokens),
      ((Text.splitOnSemicolons cs).filterMap (FileScopes.cutPiece? cs)).flatMap (·.statements)⟩ := by
  have hpieces : ∀ p ∈ Text.splitOnSemicolons cs, ∃ piece, IsPiece cs p piece := by
    intro p hp
    obtain ⟨piece, hpiece, _⟩ := isPiece_of_mem_splitOnSemicolons hp
    exact ⟨piece, hpiece⟩
  obtain ⟨found, hfound, hsounds, hplains⟩ := cutPieces_eq hpieces
  have hempty : Cut.Sound cs {} := ⟨by simp, by simp⟩
  obtain ⟨hjoined, hplain⟩ := hempty.foldl hsounds
  refine ⟨found.foldl Cut.join {}, ?_, hjoined, ?_⟩
  · rw [cutAtSemicolons, splitOnSemicolons_eq, pure_bind, hfound, pure_bind]
  · rw [hplain, hplains]
    simp [Cut.plain]

theorem cut_eq (cs : List Char) :
    ∃ c, cut cs = pure c ∧ c.Sound cs ∧ c.plain = FileScopes.cut cs := by
  obtain ⟨whole, hwhole, hsound, hplain⟩ := cutPiece_eq (isPiece_whole cs)
  rw [cut, hwhole, pure_bind, FileScopes.cut, ← hplain]
  cases whole with
  | some c => exact ⟨c, rfl, hsound c rfl, rfl⟩
  | none => exact cutAtSemicolons_eq cs

end

/-! ### Scopes -/

theorem statementScope_eq (found : List Routine) {tokens : List Lexeme} {r : Nat × Nat}
    (hlt : r.1 < r.2) (hlength : r.2 ≤ tokens.length) : statementScope found tokens r =
      pure (FileScopes.statementScope found (tokens.extract r.1 r.2)) := by
  have hfull : tokens.extract r.1 r.2 ≠ [] := by
    obtain ⟨l, hl⟩ : ∃ l, tokens[r.1]? = some l := ⟨_, List.getElem?_eq_getElem (by omega)⟩
    rw [extract_cons hl hlt]
    exact List.cons_ne_nil _ _
  rw [statementScope, sublist_of_le (Nat.le_of_lt hlt) hlength, pure_bind, FileScopes.statementScope,
    Routine.spanOf]
  generalize tokens.extract r.1 r.2 = ls at hfull
  obtain ⟨init, last, hinit⟩ := List.eq_nil_or_concat ls |>.resolve_left hfull
  cases ls with
  | nil => exact absurd rfl hfull
  | cons first ls =>
    have hlast : (first :: ls)[ls.length]? = (first :: ls).getLast? := by
      rw [List.getLast?_eq_getElem?]
      rfl
    have hend : (first :: ls).getLast? = some last := by
      rw [hinit, List.concat_eq_append, List.getLast?_concat]
    rw [hend] at hlast
    rw [get_of_eq List.getElem?_cons_zero, pure_bind, List.length_cons, sub_of_le (Nat.le_add_left 1 _),
      pure_bind, Nat.add_sub_cancel, get_of_eq hlast, pure_bind, sources_eq, pure_bind, hend]
    rfl

theorem scopes_eq (cs : List Char) : scopes cs = pure (FileScopes.ofText cs) := by
  obtain ⟨c, hcut, hsound, hplain⟩ := cut_eq cs
  have hroutines := routines_eq fun l hl => isBatchSeparator_eq (hsound.inside l hl)
  have hkept : c.statements.filter (fun r => decide (r.1 < r.2)) = c.statements := by
    rw [List.filter_eq_self]
    exact fun r hr => decide_eq_true (hsound.bounds r hr).1
  rw [scopes, hcut, pure_bind, hroutines, pure_bind, hkept, mapM_pure_of_forall fun r hr =>
    statementScope_eq _ (hsound.bounds r hr).1 (hsound.bounds r hr).2, pure_bind, FileScopes.ofText,
    ← hplain, Cut.plain]
  simp only [List.map_map, Function.comp_def]

theorem scopeAt_eq (f : FileScopes) (offset : Nat) : scopeAt f offset = pure (f.scopeAt? offset) := by
  rw [scopeAt, FileScopes.scopeAt?]
  obtain ⟨after, hsplit⟩ := List.takeWhile_prefix (l := f.statements)
    fun s => decide (s.span.start ≤ offset)
  generalize (f.statements.takeWhile fun s => decide (s.span.start ≤ offset)) = kept at hsplit ⊢
  rw [← hsplit]
  rcases List.eq_nil_or_concat kept with rfl | ⟨init, last, rfl⟩
  · rfl
  · have hget : (init ++ [last] ++ after)[init.length]? = some last := by simp
    rw [List.concat_eq_append, List.length_append, List.length_singleton]
    simp only [sub_of_le (Nat.le_add_left 1 _), pure_bind, Nat.add_sub_cancel, hget,
      List.getLast?_concat]

end SqlAtlas.Checked
