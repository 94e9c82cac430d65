import SqlAtlas.Proofs.Scope.Partition

/-!
# Where the variables of routines stand

The segments of a text share no token, and neither do the header of a routine and its body. So every
token stands for one parameter or one use at most, and no two of them have the same place.
-/

namespace SqlAtlas

set_option autoImplicit false

open Text

namespace Routine

theorem segments_flatten (separates : Lexeme → Bool) (ls : List Lexeme) :
    (segments separates ls).1 ++ (segments separates ls).2.flatMap (·.2) = ls := by
  induction ls with
  | nil => rfl
  | cons l ls ih =>
    rw [segments]
    simp only
    split
    · rw [List.nil_append, List.flatMap_cons, List.cons_append, ih]
    · rw [List.cons_append, ih]

theorem segments_sublist (separates : Lexeme → Bool) (ls : List Lexeme) :
    ((segments separates ls).2.flatMap (·.2)).Sublist ls := by
  conv_rhs => rw [← segments_flatten separates ls]
  exact List.sublist_append_right _ _

theorem header_sublist (prev : Token) (depth : Nat) (ls : List Lexeme) :
    ((header prev depth ls).1 ++ (header prev depth ls).2.map variableAt).Sublist
      (ls.map variableAt) := by
  induction ls generalizing prev depth with
  | nil => exact List.Sublist.refl _
  | cons l ls ih =>
    rw [header]
    simp only
    split
    · exact List.Sublist.refl _
    · split
      · exact (ih _ _).cons_cons _
      · exact (ih _ _).cons _

theorem variables_ofSegment (kind : RoutineKind) (lead : Nat) (ls : List Lexeme) :
    ((ofSegment kind lead ls).parameters ++ (ofSegment kind lead ls).usages).Sublist
      (ls.map variableAt) := by
  rw [ofSegment]
  simp only
  generalize lead + (headerName ((ls.map (·.token)).drop lead)).2 = k
  generalize ((ls.map (·.token))[k - 1]?).getD .comma = prev
  have hheader := header_sublist prev 0 (ls.drop k)
  refine List.Sublist.trans ?_ (hheader.trans ((List.drop_sublist k ls).map variableAt))
  refine List.Sublist.append (List.Sublist.refl _) (List.filter_sublist.trans ?_)
  exact List.filter_sublist.map variableAt

/-- The variables of all routines, in the order of the text. -/
theorem variables_all (separates : Lexeme → Bool) (ls : List Lexeme) :
    ((all separates ls).flatMap fun r => r.parameters ++ r.usages).Sublist (ls.map variableAt) := by
  refine List.Sublist.trans ?_ ((segments_sublist separates ls).map variableAt)
  rw [all]
  generalize (segments separates ls).2 = ss
  induction ss with
  | nil => exact List.Sublist.refl _
  | cons s ss ih =>
    obtain ⟨boundary, ms⟩ := s
    rw [List.flatMap_cons, List.map_append]
    cases boundary with
    | other => exact ih.trans (List.sublist_append_right _ _)
    | routine kind lead => exact (variables_ofSegment kind lead ms).append ih

end Routine

/-- No two variables of the routines of a text have the same place. -/
theorem FileScopes.variables_apart (text : List Char) :
    ((ofText text).routines.flatMap fun r => r.parameters ++ r.usages).Pairwise
      fun v w => extent text v.span ≠ extent text w.span := by
  refine List.Pairwise.sublist (Routine.variables_all _ _) (List.pairwise_map.mpr ?_)
  have htokens := (ordered_cut text).tokens
  refine htokens.apart.imp_of_mem fun {l next} hl _ hle => ?_
  obtain ⟨_, hpiece⟩ := isPiece_of_mem_tokens hl
  exact Text.extent_ne hpiece.boundary_stop (htokens.nonempty l hl) hle

end SqlAtlas
