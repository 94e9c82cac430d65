import Mathlib.Data.List.Basic
import SqlAtlas.Proofs.Text.Piece
import SqlAtlas.Token

/-!
# Where tokens stand

A token is a piece of its text, and stands in the same way in a text that goes on around it. The
tokens from one on are those of the rest of the text, and each starts where the one before it ends, or
behind that.
-/

namespace SqlAtlas

set_option autoImplicit false

open Text Scan

def Lexeme.shift (n : Nat) (l : Lexeme) : Lexeme := ⟨l.token, ⟨n + l.span.start, n + l.span.stop⟩⟩

theorem lexemesFrom_shift (d : Dialect) (n offset : Nat) (cs : List Char) :
    lexemesFrom d (n + offset) cs = (lexemesFrom d offset cs).map (List.map (Lexeme.shift n)) := by
  fun_induction lexemesFrom d offset cs with
  | case1 => rw [lexemesFrom]; rfl
  | case2 offset c cs hfront =>
    rw [lexemesFrom, hfront]
    rfl
  | case3 offset c cs more hfront ih =>
    rw [lexemesFrom, hfront, ← ih, ← Nat.add_assoc]
  | case4 offset c cs t more hfront stop ih =>
    rw [lexemesFrom, hfront]
    simp only [Nat.add_assoc]
    rw [ih]
    cases lexemesFrom d stop (cs.drop more) <;> rfl

theorem isPiece_of_mem_lexemesFrom {d : Dialect} {before rest : List Char} {ls : List Lexeme}
    (h : lexemesFrom d (size before) rest = some ls) {l : Lexeme} (hl : l ∈ ls) :
    ∃ piece, IsPiece (before ++ rest) l.span piece := by
  generalize hoffset : size before = offset at h
  fun_induction lexemesFrom d offset rest generalizing before ls with
  | case1 =>
    cases h
    cases hl
  | case2 => cases h
  | case3 offset c cs more hfront ih =>
    have hsize : size (before ++ c :: cs.take more) = offset + size (c :: cs.take more) := by
      rw [size_append, hoffset]
    have hmore := ih hl hsize h
    rwa [List.append_assoc, List.cons_append, List.take_append_drop] at hmore
  | case4 offset c cs t more hfront stop =>
    rename_i ih
    obtain ⟨later, hlater, rfl⟩ := Option.map_eq_some_iff.mp h
    rcases List.mem_cons.mp hl with rfl | hl
    · refine ⟨c :: cs.take more, before, cs.drop more, ?_, ?_⟩
      · rw [List.cons_append, List.take_append_drop]
      · rw [hoffset]
    · have hsize : size (before ++ c :: cs.take more) = stop := by rw [size_append, hoffset]
      have hmore := ih hl hsize hlater
      rwa [List.append_assoc, List.cons_append, List.take_append_drop] at hmore

theorem lexemesFrom_rest {d : Dialect} {offset : Nat} {cs : List Char} {before after : List Lexeme}
    {l : Lexeme} (h : lexemesFrom d offset cs = some (before ++ l :: after)) : ∃ pre post,
      cs = pre ++ post ∧ l.span.start = offset + size pre ∧
        lexemesFrom d l.span.start post = some (l :: after) := by
  fun_induction lexemesFrom d offset cs generalizing before with
  | case1 => simp at h
  | case2 => cases h
  | case3 offset c cs more hfront ih =>
    obtain ⟨pre, post, hsplit, hstart, hpost⟩ := ih h
    refine ⟨c :: cs.take more ++ pre, post, ?_, ?_, hpost⟩
    · rw [List.append_assoc, ← hsplit, List.cons_append, List.take_append_drop]
    · rw [hstart, size_append, Nat.add_assoc]
  | case4 offset c cs t more hfront stop =>
    rename_i ih
    obtain ⟨later, hlater, hls⟩ := Option.map_eq_some_iff.mp h
    cases before with
    | nil =>
      cases hls
      refine ⟨[], c :: cs, rfl, rfl, ?_⟩
      rw [lexemesFrom, hfront]
      exact h
    | cons first before =>
      obtain rfl := (List.cons.inj hls).2
      obtain ⟨pre, post, hsplit, hstart, hpost⟩ := ih hlater
      refine ⟨c :: cs.take more ++ pre, post, ?_, ?_, hpost⟩
      · rw [List.append_assoc, ← hsplit, List.cons_append, List.take_append_drop]
      · rw [hstart, size_append, Nat.add_assoc]

theorem lexemesFrom_apart {d : Dialect} {offset : Nat} {cs : List Char} {ls : List Lexeme}
    (h : lexemesFrom d offset cs = some ls) :
    (∀ l ∈ ls, offset ≤ l.span.start ∧ l.span.start < l.span.stop) ∧
      ls.Pairwise fun l next => l.span.stop ≤ next.span.start := by
  fun_induction lexemesFrom d offset cs generalizing ls with
  | case1 =>
    cases h
    exact ⟨nofun, .nil⟩
  | case2 => cases h
  | case3 offset c cs more hfront ih =>
    obtain ⟨hbounds, hapart⟩ := ih h
    refine ⟨fun l hl => ?_, hapart⟩
    have hbound := hbounds l hl
    omega
  | case4 offset c cs t more hfront stop =>
    rename_i ih
    obtain ⟨later, hlater, rfl⟩ := Option.map_eq_some_iff.mp h
    obtain ⟨hbounds, hapart⟩ := ih hlater
    have hlt : offset < stop := by
      have hpos := c.utf8Size_pos
      simp only [stop, size_cons]
      omega
    refine ⟨?_, List.pairwise_cons.mpr ⟨fun l hl => (hbounds l hl).1, hapart⟩⟩
    intro l hl
    rcases List.mem_cons.mp hl with rfl | hl
    · exact ⟨Nat.le_refl _, hlt⟩
    · have hbound := hbounds l hl
      omega

theorem lexemesFrom_ascending {d : Dialect} {offset : Nat} {cs : List Char} {ls : List Lexeme}
    (h : lexemesFrom d offset cs = some ls) :
    ls.Pairwise fun l next => l.span.stop < next.span.stop := by
  obtain ⟨hbounds, hapart⟩ := lexemesFrom_apart h
  refine hapart.imp_of_mem fun {l next} _ hnext hle => ?_
  have hbound := hbounds next hnext
  omega

theorem eq_of_stop {before before' after after' : List Lexeme} {l l' : Lexeme}
    (hascending : (before ++ l :: after).Pairwise fun l next => l.span.stop < next.span.stop)
    (h : before ++ l :: after = before' ++ l' :: after') (hstop : l.span.stop = l'.span.stop) :
    before = before' ∧ l = l' ∧ after = after' := by
  obtain ⟨_, hafter, hbefore⟩ := List.pairwise_append.mp hascending
  have hnotbefore : l' ∉ before := by
    intro hmem
    have hlt := hbefore l' hmem l List.mem_cons_self
    omega
  have hnotafter : l' ∉ after := by
    intro hmem
    have hlt := (List.pairwise_cons.mp hafter).1 l' hmem
    omega
  exact (List.append_cons_inj_of_notMem hnotbefore hnotafter).mp h

end SqlAtlas
