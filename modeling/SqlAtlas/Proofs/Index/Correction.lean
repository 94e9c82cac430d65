import SqlAtlas.Proofs.Index.Reindexing

/-!
# What a correction takes out

In an index whose maps agree, taking references out is one test on references: the index keeps
those that pass it, and lists no name and no file without any. Tests can be made in any order, and
a second time makes no difference.
-/

namespace SqlAtlas.SymbolIndex

set_option autoImplicit false

open Text

/-! ### References that pass a test -/

def passingRow (test : Reference → Bool) (row : Dict String (List Reference)) :
    Dict String (List Reference) :=
  row.filterMap fun _ rs => if (rs.filter test).isEmpty then none else some (rs.filter test)

def passing (test : Reference → Bool) (t : ReferenceTable) : ReferenceTable :=
  t.filterMap fun _ row => if (passingRow test row).isEmpty then none else some (passingRow test row)

variable {t : ReferenceTable} {x : SymbolIndex}

theorem passingRow_passingRow (test test' : Reference → Bool) (row : Dict String (List Reference)) :
    passingRow test' (passingRow test row) = passingRow (fun r => test' r && test r) row := by
  rw [passingRow, passingRow, passingRow, Dict.filterMap_filterMap]
  congr 1
  funext _ rs
  rw [← List.filter_filter]
  split
  · rename_i hempty
    rw [List.isEmpty_iff.mp hempty]
    rfl
  · rfl

theorem passingRow_of_isEmpty {row : Dict String (List Reference)} (h : row.isEmpty = true)
    (test : Reference → Bool) : (passingRow test row).isEmpty = true := by
  rw [Dict.isEmpty, List.isEmpty_iff] at h ⊢
  rw [passingRow, Dict.filterMap, h]
  rfl

theorem passing_passing (test test' : Reference → Bool) (t : ReferenceTable) :
    passing test' (passing test t) = passing (fun r => test' r && test r) t := by
  rw [passing, passing, passing, Dict.filterMap_filterMap]
  congr 1
  funext _ row
  rw [← passingRow_passingRow]
  split
  · rename_i hempty
    rw [passingRow_of_isEmpty hempty, if_pos rfl]
    rfl
  · rfl

theorem passing_comm (test test' : Reference → Bool) (t : ReferenceTable) :
    passing test' (passing test t) = passing test (passing test' t) := by
  rw [passing_passing, passing_passing]
  simp only [Bool.and_comm]

theorem passing_self (test : Reference → Bool) (t : ReferenceTable) :
    passing test (passing test t) = passing test t := by
  rw [passing_passing]
  simp only [Bool.and_self]

/-- The references under a name, whatever their files, are those that pass. -/
theorem passing_values (h : t.Distinct) (test : Reference → Bool) (name : Name) :
    ((((passing test t).get? name).map (·.values)).getD []).flatten =
      ((((t.get? name).map (·.values)).getD []).flatten).filter test := by
  have hrow : ∀ row : Dict String (List Reference),
      (passingRow test row).values.flatten = row.values.flatten.filter test := by
    rintro ⟨es⟩
    change ((es.filterMap fun e => (if (e.2.filter test).isEmpty then none
      else some (e.2.filter test)).map (e.1, ·)).map (·.2)).flatten = (es.map (·.2)).flatten.filter test
    induction es with
    | nil => rfl
    | cons e es ih =>
      rw [List.map_cons, List.flatten_cons, List.filter_append, ← ih]
      by_cases hempty : (e.2.filter test).isEmpty
      · rw [List.filterMap_cons_none (by rw [if_pos hempty]; rfl), List.isEmpty_iff.mp hempty,
          List.nil_append]
      · rw [List.filterMap_cons_some (b := (e.1, e.2.filter test)) (by rw [if_neg hempty]; rfl)]
        rfl
  rw [passing, h.get?_filterMap]
  cases t.get? name with
  | none => rfl
  | some row =>
    rw [Option.bind_some, Option.map_some, Option.getD_some, ← hrow]
    split
    · rename_i hempty
      rw [Dict.isEmpty, List.isEmpty_iff] at hempty
      rw [Dict.values, hempty]
      rfl
    · rfl

theorem referencesAt_of_cell {row : Dict String (List Reference)} {name : Name} {uri : String}
    {rs : List Reference} (hrow : t.get? name = some row) (hrs : row.get? uri = some rs) :
    referencesAt t uri name = rs := by
  rw [referencesAt, hrow, Option.bind_some, hrs]
  rfl

theorem Compact.passing_eq_self (h : Compact t) {test : Reference → Bool}
    (htest : ∀ uri name, ∀ r ∈ referencesAt t uri name, test r = true) : passing test t = t := by
  apply h.distinct.filterMap_eq_self
  intro name row hrow
  have hsame : passingRow test row = row := by
    apply (h.row_distinct hrow).filterMap_eq_self
    intro uri rs hrs
    have hall : rs.filter test = rs := by
      refine List.filter_eq_self.mpr fun r hr => htest uri name r ?_
      rwa [referencesAt_of_cell hrow hrs]
    rw [hall, if_neg]
    intro hempty
    exact h.cell_nonempty hrow uri (hrs.trans (congrArg some (List.isEmpty_iff.mp hempty)))
  rw [hsame, if_neg]
  intro hempty
  exact h.row_nonempty hrow ((Dict.isEmpty_iff_keys row).mp hempty)

theorem Compact.referencesAt_passing (h : Compact t) (test : Reference → Bool) (uri : String)
    (name : Name) : referencesAt (passing test t) uri name = (referencesAt t uri name).filter test := by
  rw [referencesAt, passing, h.distinct.get?_filterMap, referencesAt]
  cases hrow : t.get? name with
  | none => rfl
  | some row =>
    have hcell : ((passingRow test row).get? uri).getD [] = ((row.get? uri).getD []).filter test := by
      rw [passingRow, (h.row_distinct hrow).get?_filterMap]
      cases row.get? uri with
      | none => rfl
      | some rs =>
        rw [Option.bind_some, Option.getD_some]
        split
        · rename_i hempty
          exact (List.isEmpty_iff.mp hempty).symm
        · rfl
    rw [Option.bind_some, Option.bind_some, ← hcell]
    split
    · rename_i hempty
      exact (getD_get?_of_isEmpty hempty uri).symm
    · rfl

/-- To take references of one file to one name out is a test, if every other reference passes. -/
theorem Compact.alterReferences_filter (h : Compact t) {uri : String} {name : Name}
    {p test : Reference → Bool} (hhere : ∀ r ∈ referencesAt t uri name, test r = p r)
    (helse : ∀ uri' name', (name = name' → uri ≠ uri') → ∀ r ∈ referencesAt t uri' name', test r = true) :
    SymbolIndex.alterReferences t name uri (List.filter p) = passing test t := by
  rw [alterReferences_eq, h.distinct.alter_eq_filterMap name rfl]
  apply h.distinct.filterMap_congr
  intro name' row hrow
  have hcell : ∀ {uri' rs}, row.get? uri' = some rs → (name = name' → uri ≠ uri') →
      rs.filter test = rs ∧ rs.isEmpty = false := by
    intro uri' rs hrs hne
    refine ⟨List.filter_eq_self.mpr fun r hr => helse uri' name' hne r ?_, ?_⟩
    · rwa [referencesAt_of_cell hrow hrs]
    · rw [Bool.eq_false_iff]
      intro hempty
      exact h.cell_nonempty hrow uri' (hrs.trans (congrArg some (List.isEmpty_iff.mp hempty)))
  by_cases hname : name' = name
  · subst hname
    -- only the file's own entry of the row changes
    have hchanged : changedRow row uri (List.filter p) = passingRow test row := by
      rw [changedRow, (h.row_distinct hrow).alter_eq_filterMap uri rfl]
      apply (h.row_distinct hrow).filterMap_congr
      intro uri' rs hrs
      by_cases huri : uri' = uri
      · subst huri
        have hsame : rs.filter test = rs.filter p := by
          refine List.filter_congr fun r hr => hhere r ?_
          rwa [referencesAt_of_cell hrow hrs]
        rw [if_pos rfl, hsame, Option.getD_some]
        cases hleft : rs.filter p <;> rfl
      · obtain ⟨hall, hne⟩ := hcell hrs fun _ => Ne.symm huri
        rw [if_neg huri, hall, hne]
        rfl
    simp only [if_true, Option.getD_some, hchanged]
  · have hsame : passingRow test row = row := by
      apply (h.row_distinct hrow).filterMap_eq_self
      intro uri' rs hrs
      obtain ⟨hall, hne⟩ := hcell hrs fun heq => absurd heq.symm hname
      rw [hall, hne]
      rfl
    have hlisted : row.isEmpty = false := by
      rw [Bool.eq_false_iff]
      intro hempty
      exact h.row_nonempty hrow ((Dict.isEmpty_iff_keys row).mp hempty)
    rw [if_neg hname, hsame, hlisted]
    rfl

/-! ### Retraction -/

theorem retract_fst (x : SymbolIndex) (uri : String) (place : Extent) (name : Name) :
    (retract uri place name x).1 =
      ((x.referencesTo uri name).filter fun r => decide (r.place = place)).length := by
  rw [retract]
  split
  · rename_i hempty
    rw [List.isEmpty_iff.mp hempty]
    rfl
  · rfl

def isAmong (uri : String) (place : Extent) (names : List Name) (r : Reference) : Bool :=
  decide (r.uri = uri) && decide (r.place = place) && names.contains r.name

theorem isAmong_cons (uri : String) (place : Extent) (name : Name) (names : List Name)
    (r : Reference) : isAmong uri place (name :: names) r =
      (isAmong uri place [name] r || isAmong uri place names r) := by
  simp only [isAmong, List.contains_cons, List.contains_nil, Bool.or_false]
  exact Bool.and_or_distrib_left ..

section

variable (h : Consistent x)

include h

theorem Consistent.isAmong_eq {uri uri' : String} {name name' : Name} (place : Extent)
    {r : Reference} (hr : r ∈ x.referencesTo uri' name') : isAmong uri place [name] r =
      (decide (name = name' ∧ uri = uri') && decide (r.place = place)) := by
  obtain ⟨rfl, rfl⟩ := h.references.stored hr
  rw [isAmong, Bool.eq_iff_iff]
  simp only [Bool.and_eq_true, decide_eq_true_eq, List.contains_iff_mem, List.mem_singleton]
  tauto

theorem Consistent.retract_eq (uri : String) (place : Extent) (name : Name) :
    (retract uri place name x).2 =
      { x with references := passing (fun r => !isAmong uri place [name] r) x.references } := by
  have helse : ∀ uri' name', (name = name' → uri ≠ uri') →
      ∀ r ∈ referencesAt x.references uri' name', (!isAmong uri place [name] r) = true := by
    intro uri' name' hne r hr
    rw [h.isAmong_eq place hr, decide_eq_false fun heq => hne heq.1 heq.2]
    rfl
  rw [retract]
  split
  · rename_i hnone
    simp only [List.isEmpty_iff, List.filter_eq_nil_iff, decide_eq_true_eq] at hnone
    rw [h.references.compact.passing_eq_self]
    intro uri' name' r hr
    by_cases hhere : name = name' ∧ uri = uri'
    · obtain ⟨rfl, rfl⟩ := hhere
      rw [h.isAmong_eq place hr, decide_eq_false (hnone r hr), Bool.and_false]
      rfl
    · exact helse uri' name' (fun hname huri => hhere ⟨hname, huri⟩) r hr
  · rw [← h.references.compact.alterReferences_filter (p := fun r => decide (r.place ≠ place)) _ helse]
    intro r hr
    rw [h.isAmong_eq place hr, decide_eq_true ⟨rfl, rfl⟩, Bool.true_and, decide_not]

theorem Consistent.retract (uri : String) (place : Extent) (name : Name) :
    Consistent (retract uri place name x).2 :=
  h.retractAll uri place [name]

theorem Consistent.retractAll_eq (uri : String) (place : Extent) (names : List Name) :
    SymbolIndex.retractAll uri place names x =
      { x with references := passing (fun r => !isAmong uri place names r) x.references } := by
  induction names generalizing x with
  | nil =>
    rw [h.references.compact.passing_eq_self]
    · rfl
    · intro _ _ r _
      simp [isAmong]
  | cons name names ih =>
    change SymbolIndex.retractAll uri place names (SymbolIndex.retract uri place name x).2 = _
    rw [ih (h.retract uri place name), h.retract_eq]
    simp only [passing_passing, isAmong_cons uri place name names, Bool.not_or, Bool.and_comm]

end

/-! ### Answers about references -/

def keeping (test : Reference → Bool) (x : SymbolIndex) : SymbolIndex :=
  { x with references := passing test x.references }

theorem generation?_keeping (test : Reference → Bool) (x : SymbolIndex) :
    (x.keeping test).generation? = x.generation? := rfl

theorem keeping_comm (test test' : Reference → Bool) (x : SymbolIndex) :
    (x.keeping test).keeping test' = (x.keeping test').keeping test :=
  congrArg (fun t => { x with references := t }) (passing_comm test test' x.references)

theorem keeping_self (test : Reference → Bool) (x : SymbolIndex) :
    (x.keeping test).keeping test = x.keeping test :=
  congrArg (fun t => { x with references := t }) (passing_self test x.references)

section

variable (h : Consistent x) (test : Reference → Bool)

include h

theorem Consistent.referencesTo_keeping (uri : String) (name : Name) :
    (x.keeping test).referencesTo uri name = (x.referencesTo uri name).filter test :=
  h.references.compact.referencesAt_passing test uri name

theorem Consistent.getReferences_keeping (name : Name) :
    (x.keeping test).getReferences name = (x.getReferences name).filter test := by
  rw [getReferences, getReferences, Arrangement.filter_mergeSort
    (fun a b c => Location.upTo_trans a.location b.location c.location)
    (fun a b => Location.upTo_total a.location b.location)]
  exact congrArg (List.mergeSort · _) (passing_values h.references.compact.distinct test name)

theorem Consistent.getReferencesInFile_keeping (name : Name) (uri : String) :
    (x.keeping test).getReferencesInFile name uri = (x.getReferencesInFile name uri).filter test := by
  rw [getReferencesInFile, getReferencesInFile, h.referencesTo_keeping, Arrangement.filter_mergeSort
    (fun a b c => Extent.upTo_trans a.place b.place c.place)
    (fun a b => Extent.upTo_total a.place b.place)]

theorem Consistent.referencesInFile_keeping (uri : String) :
    (x.keeping test).referencesInFile uri = (x.referencesInFile uri).filter test := by
  change (((x.namesByFile.get? uri).getD []).flatMap ((x.keeping test).referencesTo uri)).mergeSort
      Reference.upTo =
    ((((x.namesByFile.get? uri).getD []).flatMap (x.referencesTo uri)).mergeSort
      Reference.upTo).filter test
  rw [Arrangement.filter_mergeSort Reference.upTo_trans Reference.upTo_total, List.filter_flatMap,
    funext (h.referencesTo_keeping test uri)]

end

/-! ### Counts -/

section

variable (h : Consistent x)

include h

/-- What a retraction counts is what the file has less. -/
theorem Consistent.retract_count (uri : String) (place : Extent) (name : Name) :
    (SymbolIndex.retract uri place name x).1 +
        ((SymbolIndex.retract uri place name x).2.referencesInFile uri).length =
      (x.referencesInFile uri).length := by
  have hleft := h.referencesInFile_keeping (fun r => !isAmong uri place [name] r) uri
  have hgone : (x.referencesInFile uri).filter (isAmong uri place [name]) =
      ((x.referencesInFile uri).filter (·.name = name)).filter fun r => decide (r.place = place) := by
    rw [List.filter_filter]
    refine List.filter_congr fun r hr => ?_
    rw [h.isAmong_eq place (h.mem_referencesInFile.mp hr), Bool.and_comm]
    simp only [and_true, eq_comm]
  rw [h.retract_eq, ← keeping, hleft, retract_fst,
    ← ((h.referencesInFile_filter_perm uri name).filter _).length_eq, ← hgone]
  exact (List.length_eq_length_filter_add _).symm

theorem Consistent.retract_counts (uri : String) (place : Extent) (column : Name)
    (tables : List Name) (n : Nat) :
    let found := tables.foldl (fun (p : Nat × SymbolIndex) table =>
      (p.1 + (SymbolIndex.retract uri place (Name.qualified table column) p.2).1,
        (SymbolIndex.retract uri place (Name.qualified table column) p.2).2)) (n, x)
    found.1 + (found.2.referencesInFile uri).length = n + (x.referencesInFile uri).length := by
  induction tables generalizing n x with
  | nil => rfl
  | cons table tables ih =>
    have hone := h.retract_count uri place (Name.qualified table column)
    have hrest := ih (h.retract uri place (Name.qualified table column))
      (n + (SymbolIndex.retract uri place (Name.qualified table column) x).1)
    exact hrest.trans (by rw [Nat.add_assoc, hone])

end

/-! ### Corrections -/

/-- Whether a correction takes a reference out: it stands at the place, and its name is that of the
column in a provisional table other than the one that is kept. -/
def IsRetracted (uri : String) (place : Extent) (column keep : Name) (provisional : List Name)
    (r : Reference) : Prop :=
  r.uri = uri ∧ r.place = place ∧
    ∃ table ∈ provisional, table ≠ keep ∧ r.name = Name.qualified table column

instance (uri : String) (place : Extent) (column keep : Name) (provisional : List Name) :
    DecidablePred (IsRetracted uri place column keep provisional) :=
  fun r => inferInstanceAs (Decidable (r.uri = uri ∧ r.place = place ∧
    ∃ table ∈ provisional, table ≠ keep ∧ r.name = Name.qualified table column))

theorem isAmong_retractedNames (uri : String) (place : Extent) (column keep : Name)
    (provisional : List Name) (r : Reference) :
    isAmong uri place (retractedNames column keep provisional) r =
      decide (IsRetracted uri place column keep provisional r) := by
  rw [Bool.eq_iff_iff, decide_eq_true_iff, isAmong, IsRetracted, retractedNames]
  simp only [Bool.and_eq_true, decide_eq_true_eq, List.contains_iff_mem, List.mem_map,
    List.mem_filter, and_assoc, eq_comm (b := r.name)]

/-- A correction for the current generation that keeps a provisional reference takes out exactly
the others; any other correction does nothing. -/
theorem Consistent.applyCorrection_cases (h : Consistent x) (uri : String) (generation : Nat)
    (place : Extent) (column keep : Name) (provisional : List Name) :
    (¬(x.generation? uri = some generation ∧ keep ∈ provisional) ∧
      ((x.applyCorrection uri generation place column keep provisional = (.stale, x)) ∨
        x.applyCorrection uri generation place column keep provisional = (.unmatched, x))) ∨
    (x.generation? uri = some generation ∧ keep ∈ provisional) ∧
      x.applyCorrection uri generation place column keep provisional =
        (.applied ((x.referencesInFile uri).filter
            fun r => IsRetracted uri place column keep provisional r).length,
          x.keeping fun r => ¬IsRetracted uri place column keep provisional r) := by
  by_cases hlive : x.generation? uri = some generation ∧ keep ∈ provisional
  · right
    refine ⟨hlive, ?_⟩
    have htest : (fun r => !isAmong uri place (retractedNames column keep provisional) r) =
        fun r => decide ¬IsRetracted uri place column keep provisional r := by
      funext r
      rw [isAmong_retractedNames, decide_not]
    have hsnd := foldl_retract_snd uri place column (provisional.filter (· ≠ keep)) 0 x
    have hcount := h.retract_counts uri place column (provisional.filter (· ≠ keep)) 0
    have hindex := h.retractAll_eq uri place (retractedNames column keep provisional)
    rw [htest, ← keeping] at hindex
    have hleft := hsnd.trans hindex
    simp only [hleft, h.referencesInFile_keeping, Nat.zero_add] at hcount
    have hlength := (x.referencesInFile uri).length_eq_length_filter_add
      fun r => decide (IsRetracted uri place column keep provisional r)
    simp only [← decide_not] at hlength
    rw [generation?] at hlive
    rw [applyCorrection, if_neg (not_not_intro hlive.1), if_neg (by simpa using hlive.2)]
    refine Prod.ext ?_ hleft
    exact congrArg CorrectionOutcome.applied (Nat.add_right_cancel (hcount.trans hlength))
  · left
    refine ⟨hlive, ?_⟩
    rw [generation?] at hlive
    rw [applyCorrection]
    split
    · exact .inl rfl
    · rename_i hgen
      rw [if_pos]
      · exact .inr rfl
      · simpa using fun hkeep => hlive ⟨not_not.mp hgen, hkeep⟩

theorem Consistent.applyCorrection_snd (h : Consistent x) (uri : String) (generation : Nat)
    (place : Extent) (column keep : Name) (provisional : List Name) :
    (x.applyCorrection uri generation place column keep provisional).2 =
      if x.generation? uri = some generation ∧ keep ∈ provisional then
        x.keeping fun r => ¬IsRetracted uri place column keep provisional r
      else x := by
  rcases h.applyCorrection_cases uri generation place column keep provisional with
    ⟨hdead, heq | heq⟩ | ⟨hlive, heq⟩
  · rw [heq, if_neg hdead]
  · rw [heq, if_neg hdead]
  · rw [heq, if_pos hlive]

/-- A correction that was applied finds nothing left to take out. -/
theorem Consistent.applyCorrection_again (h : Consistent x) {uri : String} {generation n : Nat}
    {place : Extent} {column keep : Name} {provisional : List Name} {y : SymbolIndex}
    (hy : x.applyCorrection uri generation place column keep provisional = (.applied n, y)) :
    y.applyCorrection uri generation place column keep provisional = (.applied 0, y) := by
  have hconsistent : Consistent y := by
    have hstep := h.apply (.correct uri generation place column keep provisional)
    rwa [IndexOperation.apply, hy] at hstep
  rcases h.applyCorrection_cases uri generation place column keep provisional with
    ⟨_, heq | heq⟩ | ⟨hlive, heq⟩
  · cases hy.symm.trans heq
  · cases hy.symm.trans heq
  · obtain ⟨_, rfl⟩ := Prod.mk.inj (hy.symm.trans heq)
    rcases hconsistent.applyCorrection_cases uri generation place column keep provisional with
      ⟨hdead, _⟩ | ⟨_, hagain⟩
    · exact absurd hlive hdead
    · rw [hagain, keeping_self, h.referencesInFile_keeping, List.filter_filter]
      simp

theorem Consistent.applyCorrection_comm (h : Consistent x) (uri uri' : String)
    (generation generation' : Nat) (place place' : Extent) (column keep column' keep' : Name)
    (provisional provisional' : List Name) :
    ((x.applyCorrection uri generation place column keep provisional).2.applyCorrection
        uri' generation' place' column' keep' provisional').2 =
      ((x.applyCorrection uri' generation' place' column' keep' provisional').2.applyCorrection
        uri generation place column keep provisional).2 := by
  have hone := h.apply (.correct uri generation place column keep provisional)
  have hother := h.apply (.correct uri' generation' place' column' keep' provisional')
  rw [IndexOperation.apply] at hone hother
  rw [hone.applyCorrection_snd, hother.applyCorrection_snd, h.applyCorrection_snd,
    h.applyCorrection_snd]
  by_cases hlive : x.generation? uri = some generation ∧ keep ∈ provisional
  · by_cases hlive' : x.generation? uri' = some generation' ∧ keep' ∈ provisional'
    · simp only [if_pos hlive, if_pos hlive', generation?_keeping]
      exact keeping_comm _ _ x
    · simp only [if_pos hlive, if_neg hlive', generation?_keeping]
  · by_cases hlive' : x.generation? uri' = some generation' ∧ keep' ∈ provisional'
    · simp only [if_neg hlive, if_pos hlive', generation?_keeping]
    · simp only [if_neg hlive, if_neg hlive']

/-- From one index to the other, some references are gone and all else stays. -/
structure Loses (gone : Reference → Bool) (x y : SymbolIndex) : Prop where
  references : ∀ name, y.getReferences name = (x.getReferences name).filter fun r => !gone r
  inFile : ∀ name file,
    y.getReferencesInFile name file = (x.getReferencesInFile name file).filter fun r => !gone r
  ofFile : ∀ file, y.referencesInFile file = (x.referencesInFile file).filter fun r => !gone r
  rest : { y with references := x.references } = x

theorem Consistent.loses_keeping (h : Consistent x) (gone : Reference → Bool) :
    Loses gone x (x.keeping fun r => !gone r) where
  references _ := by rw [h.getReferences_keeping]
  inFile _ _ := by rw [h.getReferencesInFile_keeping]
  ofFile _ := by rw [h.referencesInFile_keeping]
  rest := rfl

/-- A correction takes out what it says, or nothing. -/
structure Exact (x : SymbolIndex) (uri : String) (generation : Nat) (place : Extent)
    (column keep : Name) (provisional : List Name) : Prop where
  unchanged : ∀ outcome y,
    x.applyCorrection uri generation place column keep provisional = (outcome, y) →
      outcome = .stale ∨ outcome = .unmatched → y = x
  loses : ∀ n y, x.applyCorrection uri generation place column keep provisional = (.applied n, y) →
    Loses (fun r => decide (IsRetracted uri place column keep provisional r)) x y
  counts : ∀ n y, x.applyCorrection uri generation place column keep provisional = (.applied n, y) →
    n = ((x.referencesInFile uri).filter fun r =>
      decide (IsRetracted uri place column keep provisional r)).length
  again : ∀ n y, x.applyCorrection uri generation place column keep provisional = (.applied n, y) →
    y.applyCorrection uri generation place column keep provisional = (.applied 0, y)
  commutes : ∀ (uri' : String) (generation' : Nat) (place' : Extent) (column' keep' : Name)
    (provisional' : List Name),
    ((x.applyCorrection uri generation place column keep provisional).2.applyCorrection
        uri' generation' place' column' keep' provisional').2 =
      ((x.applyCorrection uri' generation' place' column' keep' provisional').2.applyCorrection
        uri generation place column keep provisional).2

/-- In every index that operations lead to, a correction that is stale or unmatched changes nothing.
One that is applied takes out of all answers exactly the references at its place of its file that
name the column of a rejected provisional table, counts them, and changes nothing but references;
applied again, it finds nothing left to do. Of two corrections either may come first. -/
theorem correction_exact (ops : List IndexOperation) (uri : String) (generation : Nat)
    (place : Extent) (column keep : Name) (provisional : List Name) :
    Exact (IndexOperation.run {} ops) uri generation place column keep provisional := by
  have h : Consistent (IndexOperation.run {} ops) := consistent_run ops
  generalize IndexOperation.run {} ops = x at h
  have happlied {n : Nat} {y : SymbolIndex}
      (hy : x.applyCorrection uri generation place column keep provisional = (.applied n, y)) :
      n = ((x.referencesInFile uri).filter fun r =>
        decide (IsRetracted uri place column keep provisional r)).length ∧
      y = x.keeping fun r => !decide (IsRetracted uri place column keep provisional r) := by
    rcases h.applyCorrection_cases uri generation place column keep provisional with
      ⟨_, heq | heq⟩ | ⟨_, heq⟩
    · cases hy.symm.trans heq
    · cases hy.symm.trans heq
    · obtain ⟨hn, hleft⟩ := Prod.mk.inj (hy.symm.trans heq)
      exact ⟨CorrectionOutcome.applied.inj hn, by simpa only [decide_not] using hleft⟩
  constructor
  case unchanged =>
    intro outcome y hy hnone
    rcases h.applyCorrection_cases uri generation place column keep provisional with
      ⟨_, heq | heq⟩ | ⟨_, heq⟩
    · exact (Prod.mk.inj (hy.symm.trans heq)).2
    · exact (Prod.mk.inj (hy.symm.trans heq)).2
    · rw [(Prod.mk.inj (hy.symm.trans heq)).1] at hnone
      rcases hnone with hnone | hnone <;> cases hnone
  case loses =>
    intro n y hy
    rw [(happlied hy).2]
    exact h.loses_keeping _
  case counts => exact fun n y hy => (happlied hy).1
  case again => exact fun n y hy => h.applyCorrection_again hy
  case commutes =>
    intro uri' generation' place' column' keep' provisional'
    exact h.applyCorrection_comm _ _ _ _ _ _ _ _ _ _ _ _

/-- A correction that names a rejected table twice takes its reference out once. -/
theorem correction_exact_repeated :
    let ops := [IndexOperation.ofText "a.sql" "CREATE TABLE T (X INT)\nCREATE TABLE U (X INT)".toList 10,
      .ofText "q.sql" "SELECT X FROM T, U".toList 10]
    let x := IndexOperation.run {} ops
    let tables : List Name := [.ofText "t", .ofText "u", .ofText "u"]
    let found := x.applyCorrection "q.sql" 2 ⟨0, 7, 8⟩ (.ofText "x") (.ofText "t") tables
    found.1 = .applied 1 ∧
      found.2.referencesInFile "q.sql" = (x.referencesInFile "q.sql").filter
        fun r => !decide (IsRetracted "q.sql" ⟨0, 7, 8⟩ (.ofText "x") (.ofText "t") tables r) := by
  intro ops x tables found
  have hfound : found.1 = .applied 1 := by decide +kernel
  have hexact := correction_exact ops "q.sql" 2 ⟨0, 7, 8⟩ (.ofText "x") (.ofText "t") tables
  exact ⟨hfound, (hexact.loses 1 found.2 (Prod.ext hfound rfl)).ofFile "q.sql"⟩

end SqlAtlas.SymbolIndex
