import Mathlib.Data.List.Basic
import Mathlib.Data.List.Induction
import SqlAtlas.Proofs.Text.Piece

/-!
# Accesses that can fail

A slice must stop at characters, an index must lie in its list and a counter must not fall below
zero. An access gives what it reads or tells what is wrong. A scan made of such accesses never fails
if it gives what the plain scan gives, whatever it reads.
-/

namespace SqlAtlas.Checked

set_option autoImplicit false

open Text

inductive Fault where
  /-- A range of bytes that is reversed, past the end, or not between characters. -/
  | range (s : Span)
  /-- An index or a range of indices past the end of a list. -/
  | index (start stop : Nat)
  /-- A counter below zero. -/
  | underflow (a b : Nat)
deriving DecidableEq, Repr

/-- Whether byte `n` lies between two characters or at an end. -/
def atBoundary (cs : List Char) (n : Nat) : Bool := size (takeBytes n cs) == n

def slice (cs : List Char) (s : Span) : Except Fault (List Char) :=
  if decide (s.start ≤ s.stop) && atBoundary cs s.start && atBoundary cs s.stop then
    pure (Text.slice cs s)
  else throw (.range s)

def sliceFrom (cs : List Char) (n : Nat) : Except Fault (List Char) := slice cs ⟨n, size cs⟩

def sliceTo (cs : List Char) (n : Nat) : Except Fault (List Char) := slice cs ⟨0, n⟩

def bytes (cs : List Char) (s : Span) : Except Fault Unit :=
  if s.start ≤ s.stop ∧ s.stop ≤ size cs then pure () else throw (.range s)

/-- The character that ends in front of byte `n`, read at the byte before. -/
def charBefore (cs : List Char) (n : Nat) : Except Fault (Option Char) :=
  if n = 0 then pure none
  else do
    bytes cs ⟨n - 1, n⟩
    return charBefore? cs n

def sub (a b : Nat) : Except Fault Nat := if b ≤ a then pure (a - b) else throw (.underflow a b)

section

variable {α : Type}

def get (l : List α) (i : Nat) : Except Fault α :=
  match l[i]? with
  | some a => pure a
  | none => throw (.index i (i + 1))

def sublist (l : List α) (start stop : Nat) : Except Fault (List α) :=
  if start ≤ stop ∧ stop ≤ l.length then pure (l.extract start stop)
  else throw (.index start stop)

end

/-! ### Accesses that succeed -/

theorem atBoundary_iff {cs : List Char} {n : Nat} : atBoundary cs n = true ↔ IsBoundary cs n := by
  rw [atBoundary, beq_iff_eq]
  constructor
  · exact fun h => ⟨takeBytes n cs, dropBytes n cs, (takeBytes_append_dropBytes n cs).symm, h⟩
  · exact IsBoundary.size_takeBytes

theorem slice_piece {cs piece : List Char} {s : Span} (h : IsPiece cs s piece) :
    slice cs s = pure piece := by
  rw [slice, if_pos, h.slice_eq]
  simp only [Bool.and_eq_true, decide_eq_true_eq, atBoundary_iff]
  exact ⟨⟨h.start_le_stop, h.boundary_start⟩, h.boundary_stop⟩

example : slice "é".toList ⟨0, 1⟩ = throw (.range ⟨0, 1⟩) := by decide

theorem sliceFrom_boundary {cs : List Char} {n : Nat} (h : IsBoundary cs n) :
    sliceFrom cs n = pure (dropBytes n cs) := by
  obtain ⟨l, r, rfl, rfl⟩ := h
  rw [dropBytes_size_append]
  exact slice_piece ⟨l, [], by rw [List.append_nil], by rw [size_append]⟩

theorem sliceTo_boundary {cs : List Char} {n : Nat} (h : IsBoundary cs n) :
    sliceTo cs n = pure (takeBytes n cs) := by
  obtain ⟨l, r, rfl, rfl⟩ := h
  rw [takeBytes_size_append]
  exact slice_piece ⟨[], r, rfl, by rw [size_nil, Nat.zero_add]⟩

theorem bytes_of_le {cs : List Char} {m n : Nat} (hle : m ≤ n) (hsize : n ≤ size cs) :
    bytes cs ⟨m, n⟩ = pure () := if_pos ⟨hle, hsize⟩

theorem charBefore_boundary {cs : List Char} {n : Nat} (h : IsBoundary cs n) :
    charBefore cs n = pure (charBefore? cs n) := by
  rw [charBefore]
  split
  · rename_i hzero
    subst hzero
    cases cs <;> rfl
  · rw [bytes_of_le (Nat.sub_le n 1) h.le_size]
    rfl

theorem sub_of_le {a b : Nat} (h : b ≤ a) : sub a b = pure (a - b) := if_pos h

section

variable {α β : Type}

theorem get_of_eq {l : List α} {i : Nat} {a : α} (h : l[i]? = some a) : get l i = pure a := by
  rw [get, h]

theorem get_length (before : List α) (a : α) (after : List α) :
    get (before ++ a :: after) before.length = pure a :=
  get_of_eq (by simp)

theorem sublist_of_le {l : List α} {start stop : Nat} (hle : start ≤ stop) (hlength : stop ≤ l.length) :
    sublist l start stop = pure (l.extract start stop) := if_pos ⟨hle, hlength⟩

theorem extract_append (before middle after : List α) :
    (before ++ (middle ++ after)).extract before.length (before.length + middle.length) = middle := by
  rw [List.extract_eq_take_drop, List.drop_left, Nat.add_sub_cancel_left, List.take_left]

theorem extract_split {l : List α} {start stop : Nat} (hle : start ≤ stop) (hlength : stop ≤ l.length) :
    ∃ before after, l = before ++ (l.extract start stop ++ after) ∧ before.length = start ∧
      before.length + (l.extract start stop).length = stop := by
  refine ⟨l.take start, (l.drop start).drop (stop - start), ?_, ?_, ?_⟩
  · rw [List.extract_eq_take_drop, List.take_append_drop, List.take_append_drop]
  · rw [List.length_take]
    omega
  · rw [List.extract_eq_take_drop, List.length_take, List.length_take, List.length_drop]
    omega

theorem extract_succ {l : List α} {start i : Nat} {a : α} (hle : start ≤ i) (h : l[i]? = some a) :
    l.extract start (i + 1) = l.extract start i ++ [a] := by
  obtain ⟨k, rfl⟩ := Nat.exists_eq_add_of_le hle
  rw [List.extract_eq_take_drop, List.extract_eq_take_drop, Nat.add_assoc, Nat.add_sub_cancel_left,
    Nat.add_sub_cancel_left, List.take_add_one, List.getElem?_drop, h, Option.toList_some]

theorem extract_cons {l : List α} {start stop : Nat} {a : α} (h : l[start]? = some a)
    (hlt : start < stop) : l.extract start stop = a :: l.extract (start + 1) stop := by
  obtain ⟨k, rfl⟩ := Nat.exists_eq_add_of_lt hlt
  obtain ⟨hlength, rfl⟩ := List.getElem?_eq_some_iff.mp h
  have hmore : start + k + 1 - start = k + 1 := by omega
  have hless : start + k + 1 - (start + 1) = k := by omega
  rw [List.extract_eq_take_drop, List.extract_eq_take_drop, hmore, hless,
    List.drop_eq_getElem_cons hlength, List.take_succ_cons]

theorem extract_self (l : List α) (i : Nat) : l.extract i i = [] := by
  rw [List.extract_eq_take_drop, Nat.sub_self, List.take_zero]

theorem sublist_append (before middle after : List α) :
    sublist (before ++ (middle ++ after)) before.length (before.length + middle.length) =
      pure middle := by
  rw [sublist_of_le (Nat.le_add_right _ _), extract_append]
  simp only [List.length_append]
  omega

theorem filterMap_range_getElem? (l : List α) : (List.range l.length).filterMap (l[·]?) = l := by
  induction l using List.reverseRecOn with
  | nil => rfl
  | append_singleton l a ih =>
    have hbefore : (List.range l.length).filterMap ((l ++ [a])[·]?) =
        (List.range l.length).filterMap (l[·]?) := by
      refine List.filterMap_congr fun i hi => ?_
      rw [List.getElem?_append_left (List.mem_range.mp hi)]
    rw [List.length_append, List.length_singleton, List.range_succ, List.filterMap_append, hbefore, ih]
    simp

theorem flatMap_filter (p : α → Bool) (f : α → List β) (l : List α) :
    (l.filter p).flatMap f = l.flatMap fun a => if p a then f a else [] := by
  induction l with
  | nil => rfl
  | cons a l ih =>
    rw [List.filter_cons, List.flatMap_cons, ← ih]
    split <;> simp

/-! ### Scans of lists -/

variable {f : α → Except Fault β} {g : α → β}

theorem mapM_pure_of_forall {l : List α} (h : ∀ a ∈ l, f a = pure (g a)) :
    l.mapM f = pure (l.map g) := by
  induction l with
  | nil => rfl
  | cons a l ih =>
    rw [List.mapM_cons, h a List.mem_cons_self, pure_bind,
      ih fun b hb => h b (List.mem_cons_of_mem a hb), pure_bind, List.map_cons]

theorem filterMapM_pure_of_forall {f : α → Except Fault (Option β)} {g : α → Option β} {l : List α}
    (h : ∀ a ∈ l, f a = pure (g a)) : l.filterMapM f = pure (l.filterMap g) := by
  induction l with
  | nil => rfl
  | cons a l ih =>
    rw [List.filterMapM_cons, h a List.mem_cons_self, pure_bind,
      ih fun b hb => h b (List.mem_cons_of_mem a hb), List.filterMap_cons]
    cases g a <;> rfl

end

end SqlAtlas.Checked
