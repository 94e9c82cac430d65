import SqlAtlas.Proofs.Text.Offset
import SqlAtlas.Text.Mask

/-!
# Masked text is in step with its text

Masking keeps the offset of everything that it does not blank. A piece of masked text that neither
starts nor ends with a space starts and ends where characters of the text do, and has the first and
the last character in common with it.
-/

namespace SqlAtlas.Text

set_option autoImplicit false

def masked (hidden : Role → Bool) (p : Char × Role) : List Char :=
  if hidden p.2 then blanked p.1 else [p.1]

theorem mask_eq (hidden : Role → Bool) (cs : List Char) :
    mask hidden cs = (roles cs).flatMap (masked hidden) := rfl

theorem size_replicate_space (n : Nat) : size (List.replicate n ' ') = n := by
  induction n with
  | zero => rfl
  | succ n ih =>
    rw [List.replicate_succ, size_cons, ih, Nat.add_comm]
    rfl

theorem size_masked (hidden : Role → Bool) (p : Char × Role) :
    size (masked hidden p) = p.1.utf8Size := by
  rw [masked, blanked]
  split
  · split
    · simp
    · exact size_replicate_space _
  · simp

theorem size_flatMap_masked (hidden : Role → Bool) (ps : List (Char × Role)) :
    size (ps.flatMap (masked hidden)) = size (ps.map (·.1)) := by
  induction ps with
  | nil => rfl
  | cons p ps ih => rw [List.flatMap_cons, size_append, size_masked, ih, List.map_cons, size_cons]

theorem masked_cases (hidden : Role → Bool) (p : Char × Role) :
    masked hidden p = [p.1] ∨ ∀ c ∈ masked hidden p, c = ' ' := by
  rw [masked, blanked]
  split
  · split
    · exact .inl rfl
    · exact .inr fun c hc => List.eq_of_mem_replicate hc
  · exact .inl rfl

theorem mask_append (hidden : Role → Bool) (l m r : List Char) : ∃ l' m' r',
    mask hidden (l ++ (m ++ r)) = l' ++ (m' ++ r') ∧ size l' = size l ∧ size m' = size m := by
  have hchars := rolesFrom_map_fst .code (l ++ (m ++ r))
  obtain ⟨ps, qs, hroles, rfl, hqs⟩ := List.map_eq_append_iff.mp hchars
  obtain ⟨qs, rs, rfl, rfl, rfl⟩ := List.map_eq_append_iff.mp hqs
  refine ⟨ps.flatMap (masked hidden), qs.flatMap (masked hidden), rs.flatMap (masked hidden), ?_,
    size_flatMap_masked hidden ps, size_flatMap_masked hidden qs⟩
  rw [mask_eq, roles, hroles, List.flatMap_append, List.flatMap_append]

theorem flatMap_masked_solid {hidden : Role → Bool} {ps : List (Char × Role)} {l r : List Char}
    {c : Char} (h : ps.flatMap (masked hidden) = l ++ c :: r) (hc : c ≠ ' ') :
    ∃ l' r', ps.map (·.1) = l' ++ c :: r' ∧ size l' = size l := by
  induction ps generalizing l with
  | nil => simp at h
  | cons p ps ih =>
    rw [List.flatMap_cons] at h
    -- the character comes from this entry, or from a later one
    rcases List.append_eq_append_iff.mp h with ⟨m, rfl, hm⟩ | ⟨m, hm, hr⟩
    · obtain ⟨l', r', hps, hsize⟩ := ih hm
      exact ⟨p.1 :: l', r', by rw [List.map_cons, hps, List.cons_append], by
        rw [size_cons, hsize, size_append, size_masked]⟩
    · cases m with
      | nil =>
        rw [List.append_nil] at hm
        obtain ⟨l', r', hps, hsize⟩ := ih (l := []) hr.symm
        refine ⟨p.1 :: l', r', by rw [List.map_cons, hps, List.cons_append], ?_⟩
        rw [size_cons, hsize, ← hm, size_masked, size_nil, Nat.add_zero]
      | cons d m =>
        cases hr
        rcases masked_cases hidden p with hself | hspaces
        · rw [hself, eq_comm, List.append_eq_cons_iff] at hm
          rcases hm with ⟨rfl, hm⟩ | ⟨l', _, hm⟩
          · cases hm
            exact ⟨[], ps.map (·.1), rfl, rfl⟩
          · simp at hm
        · exact absurd (hspaces c (by rw [hm]; simp)) hc

/-- A character of the mask that is no space stands in the text at the same offset. -/
theorem mask_solid {hidden : Role → Bool} {cs l r : List Char} {c : Char}
    (h : mask hidden cs = l ++ c :: r) (hc : c ≠ ' ') :
    ∃ l' r', cs = l' ++ c :: r' ∧ size l' = size l := by
  obtain ⟨l', r', hcs, hsize⟩ := flatMap_masked_solid h hc
  exact ⟨l', r', (rolesFrom_map_fst .code cs).symm.trans hcs, hsize⟩

/-- A piece of the mask without spaces is a piece of the text at the same place. -/
theorem mask_plain {hidden : Role → Bool} {cs piece : List Char} {here : Span}
    (h : IsPiece (mask hidden cs) here piece) (hne : piece ≠ []) (hplain : ∀ c ∈ piece, c ≠ ' ') :
    IsPiece cs here piece := by
  obtain ⟨l, r, hmask, rfl⟩ := h
  induction piece generalizing l with
  | nil => exact absurd rfl hne
  | cons c piece ih =>
    obtain ⟨l', r', hcs, hsize⟩ := mask_solid hmask (hplain c List.mem_cons_self)
    cases piece with
    | nil => exact ⟨l', r', hcs, by rw [hsize]⟩
    | cons d piece =>
      have hlater := ih (List.cons_ne_nil d piece) (fun e he => hplain e (List.mem_cons_of_mem c he))
        (l ++ [c]) (by rw [hmask, List.append_assoc]; rfl)
      obtain ⟨l'', r'', hcs', hspan⟩ := hlater
      have hstart := congrArg Span.start hspan
      simp only [size_append, size_cons, size_nil] at hstart
      -- both cuts of the text stand behind the first character
      have hboth : (l' ++ [c]) ++ r' = l'' ++ (d :: piece ++ r'') := by
        rw [← hcs', hcs, List.append_assoc, List.singleton_append]
      obtain ⟨m, rfl, hm⟩ := cut_of_size_le hboth (by
        simp only [size_append, size_cons, size_nil]
        omega)
      simp only [size_append, size_cons, size_nil] at hstart
      obtain rfl := eq_nil_of_size (show size m = 0 by omega)
      refine ⟨l', r'', ?_, by rw [hsize]⟩
      rw [hcs', List.append_nil, List.append_assoc]
      rfl

/-- A piece of the mask that neither starts nor ends with a space has the first and the last
character of the piece of the text at the same place. -/
theorem mask_piece {hidden : Role → Bool} {cs piece : List Char} {here : Span} {first last : Char}
    (h : IsPiece (mask hidden cs) here piece) (hfirst : piece.head? = some first)
    (hfirst' : first ≠ ' ') (hlast : piece.getLast? = some last) (hlast' : last ≠ ' ') :
    ∃ raw, IsPiece cs here raw ∧ raw.head? = some first ∧ raw.getLast? = some last := by
  obtain ⟨l, r, hmask, rfl⟩ := h
  obtain ⟨tail, rfl⟩ := List.head?_eq_some_iff.mp hfirst
  obtain ⟨init, hinit⟩ := List.getLast?_eq_some_iff.mp hlast
  obtain ⟨l₁, r₁, hcs₁, hsize₁⟩ := mask_solid hmask hfirst'
  obtain ⟨l₂, r₂, hcs₂, hsize₂⟩ := mask_solid (l := l ++ init) (r := r) (by
    rw [hmask, hinit]
    simp) hlast'
  have hle : size l₁ ≤ size l₂ := by
    rw [hsize₁, hsize₂, size_append]
    exact Nat.le_add_right _ _
  obtain ⟨m, rfl, hm⟩ := cut_of_size_le (hcs₁.symm.trans hcs₂) hle
  refine ⟨m ++ [last], ⟨l₁, r₂, by rw [hcs₂]; simp, ?_⟩, ?_, by simp⟩
  · rw [size_append, size_append] at hsize₂
    rw [hinit, size_append, size_append, hsize₁]
    have hsame : size m = size init := by omega
    rw [hsame]
  · cases m with
    | nil =>
      cases hm
      rfl
    | cons d m =>
      cases hm
      rfl

/-! ### Lines -/

theorem linesFrom_cons (start : Nat) (c : Char) (cs : List Char) :
    (c = '\n' ∧ linesFrom start (c :: cs) = ⟨start, []⟩ :: linesFrom (start + c.utf8Size) cs) ∨
    ∃ chars ls, linesFrom (start + c.utf8Size) cs = ⟨start + c.utf8Size, chars⟩ :: ls ∧
      linesFrom start (c :: cs) = ⟨start, c :: chars⟩ :: ls := by
  have hhead : ∀ start, ∃ chars ls, linesFrom start cs = ⟨start, chars⟩ :: ls := by
    induction cs with
    | nil => exact fun start => ⟨[], [], rfl⟩
    | cons d cs ih =>
      intro start
      by_cases hd : d = '\n'
      · exact ⟨[], _, by rw [linesFrom, if_pos (by simpa using hd)]⟩
      · obtain ⟨chars, ls, hrest⟩ := ih (start + d.utf8Size)
        exact ⟨_, _, by rw [linesFrom, if_neg (by simpa using hd), hrest]⟩
  by_cases hc : c = '\n'
  · exact .inl ⟨hc, by rw [linesFrom, if_pos (by simpa using hc)]⟩
  · obtain ⟨chars, ls, hrest⟩ := hhead (start + c.utf8Size)
    exact .inr ⟨chars, ls, hrest, by rw [linesFrom, if_neg (by simpa using hc), hrest]⟩

theorem linesFrom_piece {start : Nat} {cs : List Char} {l : Line} (h : l ∈ linesFrom start cs) :
    ∃ before after, cs = before ++ (l.chars ++ after) ∧ l.start = start + size before := by
  induction cs generalizing start l with
  | nil =>
    cases List.mem_singleton.mp h
    exact ⟨[], [], rfl, rfl⟩
  | cons c cs ih =>
    have hlater : l ∈ linesFrom (start + c.utf8Size) cs →
        ∃ before after, c :: cs = before ++ (l.chars ++ after) ∧ l.start = start + size before := by
      intro hl
      obtain ⟨before, after, hcs, hstart⟩ := ih hl
      exact ⟨c :: before, after, by rw [hcs]; rfl, by rw [hstart, size_cons, Nat.add_assoc]⟩
    rcases linesFrom_cons start c cs with ⟨rfl, hlines⟩ | ⟨chars, ls, hrest, hlines⟩
    · rw [hlines] at h
      rcases List.mem_cons.mp h with rfl | h
      · exact ⟨[], _, rfl, rfl⟩
      · exact hlater h
    · rw [hlines] at h
      rcases List.mem_cons.mp h with rfl | h
      · obtain ⟨before, after, hcs, hstart⟩ := ih (by rw [hrest]; exact List.mem_cons_self)
        simp only at hstart hcs
        obtain rfl := eq_nil_of_size (show size before = 0 by omega)
        exact ⟨[], after, by rw [hcs]; rfl, rfl⟩
      · exact hlater (by rw [hrest]; exact List.mem_cons_of_mem _ h)

theorem mask_line (hidden : Role → Bool) {cs : List Char} {l : Line} (h : l ∈ lines cs) :
    ∃ before line after, mask hidden cs = before ++ (line ++ after) ∧
      l.span = ⟨size before, size before + size line⟩ := by
  obtain ⟨before, after, rfl, hstart⟩ := linesFrom_piece h
  obtain ⟨before', line, after', hmask, hbefore, hline⟩ := mask_append hidden before l.chars after
  refine ⟨before', line, after', hmask, ?_⟩
  rw [Line.span, hstart, hbefore, hline, Nat.zero_add]

theorem linesFrom_ascending (start : Nat) (cs : List Char) :
    (linesFrom start cs).Pairwise fun l l' => l.span.stop < l'.start := by
  induction cs generalizing start with
  | nil => exact List.pairwise_singleton _ _
  | cons c cs ih =>
    have hpos := c.utf8Size_pos
    rcases linesFrom_cons start c cs with ⟨_, hlines⟩ | ⟨chars, ls, hrest, hlines⟩
    · rw [hlines]
      refine List.pairwise_cons.mpr ⟨?_, ih _⟩
      intro l hl
      obtain ⟨before, _, _, hstart⟩ := linesFrom_piece hl
      simp only [Line.span, size_nil, hstart]
      omega
    · have hlater := ih (start + c.utf8Size)
      rw [hrest, List.pairwise_cons] at hlater
      rw [hlines]
      refine List.pairwise_cons.mpr ⟨?_, hlater.2⟩
      intro l hl
      have hlt := hlater.1 l hl
      simp only [Line.span, size_cons] at hlt ⊢
      omega

end SqlAtlas.Text
