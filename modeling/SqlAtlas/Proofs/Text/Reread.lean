import SqlAtlas.Proofs.Text.Mask
import SqlAtlas.Proofs.Text.Region

/-!
# Masked text read again

A scan of masked text goes through the regions of the scan of the text itself: where a comment was it
stays in plain code, and where the inside of a literal was blanked it stays in the literal. So masking
masked text hides what either mask hides and nothing else.
-/

namespace SqlAtlas.Text

set_option autoImplicit false

/-- Whether a character of the given role is blanked: always in comments, and in literals if they are
masked too. -/
def hides (literals : Bool) (r : Role) : Bool := r == .comment || literals && r == .literal

@[simp] theorem hides_comment (literals : Bool) : hides literals .comment = true := rfl

@[simp] theorem hides_literal (literals : Bool) : hides literals .literal = literals := by
  cases literals <;> rfl

@[simp] theorem hides_code (literals : Bool) : hides literals .code = false := by
  cases literals <;> rfl

@[simp] theorem hides_delimiter (literals : Bool) : hides literals .delimiter = false := by
  cases literals <;> rfl

@[simp] theorem hides_name (literals : Bool) : hides literals .name = false := by
  cases literals <;> rfl

def masking (literals : Bool) : List Char → List Char :=
  if literals then maskCommentsAndLiterals else maskComments

theorem mask_hides (literals : Bool) : mask (hides literals) = masking literals := by
  funext cs
  cases literals with
  | false => simp only [masking, mask, maskComments, hides, Bool.false_and, Bool.or_false,
      Bool.false_eq_true, if_false]
  | true => simp only [masking, mask, maskCommentsAndLiterals, hides, Bool.true_and, if_true]

/-- The role that what is left of a character has in masked text. -/
def Role.reread (r : Role) : Role := if r = .comment then .code else r

namespace Region

/-- Where a scan of masked text stands when one of the text itself stands in region `r`. -/
def reread (literals : Bool) : Region → Region
  | .lineComment | .blockComment _ => .code
  | .second role next =>
    if hides literals role then next.reread literals else .second role (next.reread literals)
  | .code => .code
  | .literal => .literal
  | .quotedName => .quotedName
  | .bracketedName => .bracketedName

/-- A region in which a scan can stand: the second character of a mark is read where the first was, or
in front of what the mark opens. -/
def Proper : Region → Prop
  | .second .comment next => next = .code ∨ next = .lineComment ∨ ∃ outer, next = .blockComment outer
  | .second .literal next => next = .literal
  | .second .name next => next = .quotedName ∨ next = .bracketedName
  | .second .code _ | .second .delimiter _ => False
  | _ => True

variable {literals : Bool} {r after inside : Region} {role : Role} {c close : Char}
  {next next' : Option Char}

theorem Delimited.reread_eq (h : Delimited r role close) : r.reread literals = r := by
  cases h <;> rfl

theorem Delimited.proper (h : Delimited r role close) : r.Proper := by
  cases h <;> trivial

theorem Delimited.ne_comment (h : Delimited r role close) : role ≠ .comment := by
  cases h <;> exact Role.noConfusion

theorem Delimited.proper_second (h : Delimited r role close) : (second role r).Proper := by
  cases h with
  | literal => rfl
  | quotedName => exact .inl rfl
  | bracketedName => exact .inr rfl

theorem Steps.proper (h : Steps r c next role after) (hr : r.Proper) : after.Proper := by
  cases h with
  | opensLine => exact .inr (.inl rfl)
  | opensBlock => exact .inr (.inr ⟨0, rfl⟩)
  | opens _ hdelimited _ => exact hdelimited.proper
  | code => trivial
  | line => trivial
  | lineEnds => trivial
  | block => trivial
  | nests outer => exact .inr (.inr ⟨outer + 1, rfl⟩)
  | unnests outer => exact .inr (.inr ⟨outer, rfl⟩)
  | blockEnds => exact .inl rfl
  | inside _ hdelimited _ => exact hr
  | doubled hdelimited => exact hdelimited.proper_second
  | closes => trivial
  | second =>
    cases role with
    | code => exact hr.elim
    | delimiter => exact hr.elim
    | comment => rcases hr with rfl | rfl | ⟨outer, rfl⟩ <;> trivial
    | literal =>
      cases hr
      trivial
    | name => rcases hr with rfl | rfl <;> trivial

/-- A region in which every blank character has the given role and leaves the scan where it is. -/
def Rests (r : Region) (role : Role) : Prop :=
  ∀ b next, b = ' ' ∨ b = '\n' ∨ b = '\r' → Steps r b next role r

theorem rests_code : Rests .code .code := by
  intro b next hb
  refine .code ?_ ?_ ?_
  · rintro ⟨rfl, -⟩
    revert hb
    decide
  · rintro ⟨rfl, -⟩
    revert hb
    decide
  · rcases hb with rfl | rfl | rfl <;> rfl

theorem Delimited.rests (h : Delimited r role close) : Rests r role := by
  intro b next hb
  refine .inside next h ?_
  rintro rfl
  cases h <;> revert hb <;> decide

theorem Delimited.ne_space (h : Delimited r role close) : close ≠ ' ' := by
  cases h <;> decide

theorem Proper.rests_of_hides (hr : (second role after).Proper) (hhides : hides literals role) :
    Rests (after.reread literals) role.reread := by
  cases role with
  | code => exact hr.elim
  | delimiter => exact hr.elim
  | comment => rcases hr with rfl | rfl | ⟨outer, rfl⟩ <;> exact rests_code
  | literal =>
    cases hr
    exact Delimited.literal.rests
  | name => simp at hhides

/-- A character that is blanked leaves a scan of masked text where it is. -/
theorem Steps.reread_of_hides (h : Steps r c next role after) (hr : r.Proper)
    (hhides : hides literals role) :
    after.reread literals = r.reread literals ∧ Rests (r.reread literals) role.reread := by
  cases h with
  | opensLine => exact ⟨rfl, rests_code⟩
  | opensBlock => exact ⟨rfl, rests_code⟩
  | opens => simp at hhides
  | code => simp at hhides
  | line => exact ⟨rfl, rests_code⟩
  | lineEnds => exact ⟨rfl, rests_code⟩
  | block => exact ⟨rfl, rests_code⟩
  | nests => exact ⟨rfl, rests_code⟩
  | unnests => exact ⟨rfl, rests_code⟩
  | blockEnds => exact ⟨rfl, rests_code⟩
  | inside _ hdelimited _ =>
    rw [hdelimited.reread_eq, Role.reread, if_neg hdelimited.ne_comment]
    exact ⟨rfl, hdelimited.rests⟩
  | doubled hdelimited =>
    rw [Region.reread, if_pos hhides, hdelimited.reread_eq, Role.reread,
      if_neg hdelimited.ne_comment]
    exact ⟨rfl, hdelimited.rests⟩
  | closes => simp at hhides
  | second =>
    rw [Region.reread, if_pos hhides]
    exact ⟨rfl, hr.rests_of_hides hhides⟩

/-- A character that is not blanked is read in masked text as it is in the text. The character behind
it may be blanked only if it is not the second one of a mark. -/
theorem Steps.reread (h : Steps r c next role after) (hshown : hides literals role = false)
    (hnext : next' = next ∨
      next' = some ' ' ∧ ∀ role' r', after = .second role' r' → hides literals role') :
    Steps (r.reread literals) c next' role (after.reread literals) := by
  have hne {d : Char} (hd : d ≠ ' ') (hnot : next ≠ some d) : next' ≠ some d := by
    rcases hnext with rfl | ⟨rfl, -⟩
    · exact hnot
    · exact fun heq => hd (Option.some.inj heq).symm
  cases h with
  | opens _ hdelimited hinside =>
    rw [hdelimited.reread_eq]
    exact .opens next' hdelimited hinside
  | code hline hblock hnone =>
    refine .code ?_ ?_ hnone
    · rintro ⟨rfl, hdash⟩
      exact hne (by decide) (fun heq => hline ⟨rfl, heq⟩) hdash
    · rintro ⟨rfl, hstar⟩
      exact hne (by decide) (fun heq => hblock ⟨rfl, heq⟩) hstar
  | inside _ hdelimited hc =>
    rw [hdelimited.reread_eq]
    exact .inside next' hdelimited hc
  | doubled hdelimited =>
    obtain rfl : next' = some c := by
      rcases hnext with heq | ⟨-, hsecond⟩
      · exact heq
      · rw [hsecond role r rfl] at hshown
        cases hshown
    rw [Region.reread, hshown, hdelimited.reread_eq]
    exact .doubled hdelimited
  | closes hdelimited hclose =>
    rw [hdelimited.reread_eq]
    exact .closes hdelimited (hne hdelimited.ne_space hclose)
  | second =>
    rw [Region.reread, hshown]
    exact .second role _ c next'
  | _ => simp at hshown

end Region

/-! ### Whole texts -/

variable {literals : Bool}

theorem masked_shown {p : Char × Role} (h : hides literals p.2 = false) :
    masked (hides literals) p = [p.1] := by
  simp [masked, h]

theorem reread_of_shown {role : Role} (h : hides literals role = false) : role.reread = role := by
  rw [Role.reread, if_neg]
  rintro rfl
  rw [hides_comment] at h
  cases h

theorem blank_of_mem_blanked {c b : Char} (h : b ∈ blanked c) : b = ' ' ∨ b = '\n' ∨ b = '\r' := by
  rw [blanked] at h
  split at h
  · rename_i hc
    rw [List.mem_singleton.mp h]
    right
    simpa using hc
  · exact .inl (List.eq_of_mem_replicate h)

theorem head?_blanked (c : Char) : (blanked c).head? = some c ∨ (blanked c).head? = some ' ' := by
  rw [blanked]
  split
  · exact .inl rfl
  · have hpos := c.utf8Size_pos
    exact .inr (by rw [List.head?_replicate, if_neg (by omega)])

/-- The character behind one in masked text is the one of the text or a space, and a space only where
the scan goes on in front of a character that is blanked. -/
theorem head?_masked (r : Region) (cs : List Char) :
    let next := ((rolesFrom r cs).flatMap (masked (hides literals))).head?
    next = cs.head? ∨
      next = some ' ' ∧ ∀ role r', r = .second role r' → hides literals role := by
  intro next
  cases cs with
  | nil => exact .inl rfl
  | cons c cs =>
    obtain ⟨role, after, hstep⟩ : ∃ role after, r.step c cs.head? = (role, after) := ⟨_, _, rfl⟩
    have hnext : next = ((masked (hides literals) (c, role)).head?).or
        ((rolesFrom after cs).flatMap (masked (hides literals))).head? := by
      simp only [next, rolesFrom, hstep, List.flatMap_cons, List.head?_append]
    by_cases hhides : hides literals role
    · rw [hnext, masked, if_pos hhides]
      rcases head?_blanked c with hself | hspace
      · exact .inl (by rw [hself]; rfl)
      · refine .inr ⟨by rw [hspace]; rfl, ?_⟩
        rintro role' r' rfl
        cases hstep
        exact hhides
    · rw [Bool.not_eq_true] at hhides
      exact .inl (by rw [hnext, masked_shown hhides]; rfl)

theorem rolesFrom_blanks {r : Region} {role : Role} (h : r.Rests role) {bs : List Char}
    (hbs : ∀ b ∈ bs, b = ' ' ∨ b = '\n' ∨ b = '\r') (cs : List Char) :
    rolesFrom r (bs ++ cs) = bs.map (·, role) ++ rolesFrom r cs := by
  induction bs with
  | nil => rfl
  | cons b bs ih =>
    have hstep := h b (bs ++ cs).head? (hbs b List.mem_cons_self)
    rw [List.cons_append, hstep.rolesFrom_cons, ih fun b hb => hbs b (List.mem_cons_of_mem _ hb)]
    rfl

def remasked (literals : Bool) (p : Char × Role) : List (Char × Role) :=
  (masked (hides literals) p).map (·, p.2.reread)

/-- A scan of masked text gives what is left of a character the role that the character had, if it is
not part of a comment. -/
theorem rolesFrom_masked {r : Region} (hr : r.Proper) (cs : List Char) :
    rolesFrom (r.reread literals) ((rolesFrom r cs).flatMap (masked (hides literals))) =
      (rolesFrom r cs).flatMap (remasked literals) := by
  induction cs generalizing r with
  | nil => rfl
  | cons c cs ih =>
    have hstep := r.steps_step c cs.head?
    generalize (r.step c cs.head?).1 = role, (r.step c cs.head?).2 = after at hstep
    have hrest := ih (hstep.proper hr)
    rw [hstep.rolesFrom_cons, List.flatMap_cons, List.flatMap_cons]
    by_cases hhides : hides literals role
    · obtain ⟨hsame, hrests⟩ := hstep.reread_of_hides hr hhides
      have hblanks : masked (hides literals) (c, role) = blanked c := by rw [masked, if_pos hhides]
      rw [remasked, hblanks, rolesFrom_blanks hrests fun b => blank_of_mem_blanked, ← hsame, hrest]
    · rw [Bool.not_eq_true] at hhides
      have hread := hstep.reread hhides (head?_masked after cs)
      rw [remasked, masked_shown hhides, List.singleton_append, hread.rolesFrom_cons, hrest,
        reread_of_shown hhides]
      rfl

theorem roles_mask (cs : List Char) :
    roles (mask (hides literals) cs) = (roles cs).flatMap (remasked literals) :=
  rolesFrom_masked (r := .code) trivial cs

theorem flatMap_masked_blanked {hidden : Role → Bool} {role : Role} {bs : List Char}
    (hbs : ∀ b ∈ bs, b = ' ' ∨ b = '\n' ∨ b = '\r') :
    (bs.map (·, role)).flatMap (masked hidden) = bs := by
  induction bs with
  | nil => rfl
  | cons b bs ih =>
    have hself : masked hidden (b, role) = [b] := by
      rw [masked]
      split
      · rcases hbs b List.mem_cons_self with rfl | rfl | rfl <;> rfl
      · rfl
    rw [List.map_cons, List.flatMap_cons, hself, ih fun b hb => hbs b (List.mem_cons_of_mem _ hb),
      List.singleton_append]

theorem flatMap_masked_remasked (again : Bool) (p : Char × Role) :
    (remasked literals p).flatMap (masked (hides again)) = masked (hides (again || literals)) p := by
  obtain ⟨c, role⟩ := p
  by_cases hhides : hides literals role
  · have hboth : hides (again || literals) role := by
      cases role <;> simp_all
    rw [remasked, masked, masked, if_pos hhides, if_pos hboth,
      flatMap_masked_blanked fun b => blank_of_mem_blanked]
  · rw [Bool.not_eq_true] at hhides
    have hboth : hides (again || literals) role = hides again role := by
      cases role <;> simp_all
    rw [remasked, masked_shown hhides, reread_of_shown hhides, List.map_singleton, List.flatMap_singleton, masked,
      masked, hboth]

/-- Masking masked text hides what either mask hides. -/
theorem masking_masking (again literals : Bool) (cs : List Char) :
    masking again (masking literals cs) = masking (again || literals) cs := by
  rw [← mask_hides, ← mask_hides, ← mask_hides, mask_eq, roles_mask, mask_eq, List.flatMap_assoc]
  exact congrArg (List.flatMap · (roles cs)) (funext (flatMap_masked_remasked again))

end SqlAtlas.Text
