import SqlAtlas.Node.Lowering
import SqlAtlas.Owner

/-!
# Accepted owners and the columns in scope of them

A tree gives a column to owners node by node. An accepted table stands for the one owner that all of
them agree on. So a node that has one table for its bare columns has that owner among its tables. A
query over several tables gives its bare columns to nobody, and says nothing against the owner that
another query level names: the accepted table can be out of scope there.
-/

namespace SqlAtlas

set_option autoImplicit false

namespace Node

def tables (n : Node) : List TableRef :=
  (n.sources.filterMap fun
    | .table t => some t
    | _ => none) ++ n.target?.toList

/-- The table that a node gives its bare columns to: its target, or the only table it reads. -/
def bareOwner? : Node → Option TableRef
  | .select [.table t] _ _ => some t
  | .update t .. | .delete t .. | .insert t .. => some t
  | _ => none

def attributed (column : Name) : Node → List Owner
  | .select sources columns _ => selectOwners column sources columns
  | .update target _ columns _ | .delete target _ columns _ | .insert target columns _ =>
    targetOwners column target columns
  | _ => []

/-- A node at or below another one; `above` are the nodes around it, the innermost first. -/
inductive Below : Node → List Node → Node → Prop where
  | self (n : Node) : Below n [] n
  | part {n m k : Node} {above : List Node} :
    m ∈ n.parts → Below m above k → Below n (above ++ [n]) k

end Node

def Tree.Within (tree : Tree) (above : List Node) (k : Node) : Prop := ∃ n ∈ tree, n.Below above k

/-- Wherever a tree names a column without a qualifier, a table of the given name is read or changed
by that node or by one around it; schemas do not count. -/
def Tree.OwnsBareColumns (tree : Tree) (column table : Name) : Prop :=
  ∀ above n, tree.Within above n → ∀ r ∈ matchingColumns column n.columns, r.qualifier = none →
    ∃ t ∈ (n :: above).flatMap Node.tables, t.name.unqualified = table.unqualified

/-! ### Owners node by node -/

theorem mem_nodesOwners {column : Name} {o : Owner} {ns : List Node} :
    o ∈ nodesOwners column ns ↔ ∃ n ∈ ns, o ∈ n.owners column := by
  induction ns with
  | nil => simp [nodesOwners]
  | cons n ns ih => simp [nodesOwners, ih]

namespace Node

variable {column : Name}

theorem mem_owners {n : Node} {o : Owner} :
    o ∈ n.owners column ↔ o ∈ n.attributed column ∨ ∃ m ∈ n.parts, o ∈ m.owners column := by
  cases n with
  | select sources columns nested =>
    simp only [owners, attributed, parts, List.mem_append, mem_nodesOwners, or_and_right, exists_or,
      or_assoc]
  | update target sources columns nested =>
    simp only [owners, attributed, parts, List.mem_append, mem_nodesOwners, or_and_right, exists_or,
      or_assoc]
  | delete target sources columns nested =>
    simp only [owners, attributed, parts, List.mem_append, mem_nodesOwners, or_and_right, exists_or,
      or_assoc]
  | insert target columns source =>
    simp only [owners, attributed, parts, List.mem_append, mem_nodesOwners]
  | table t => simp [owners, attributed, parts]
  | column c => simp [owners, attributed, parts]
  | subquery label body => simp [owners, attributed, parts, mem_nodesOwners]

theorem Below.mem_owners {n k : Node} {above : List Node} (h : Below n above k) {o : Owner}
    (ho : o ∈ k.attributed column) : o ∈ n.owners column := by
  induction h with
  | self n => exact Node.mem_owners.mpr (.inl ho)
  | part hpart _ ih => exact Node.mem_owners.mpr (.inr ⟨_, hpart, ih ho⟩)

theorem sizeOf_lt_of_mem_parts {n m : Node} (h : m ∈ n.parts) : sizeOf m < sizeOf n := by
  cases n with
  | select sources columns nested | update target sources columns nested
  | delete target sources columns nested =>
    rcases List.mem_append.mp h with h | h
    · have hsize := List.sizeOf_lt_of_mem h
      simp only [select.sizeOf_spec, update.sizeOf_spec, delete.sizeOf_spec]
      omega
    · have hsize := List.sizeOf_lt_of_mem h
      simp only [select.sizeOf_spec, update.sizeOf_spec, delete.sizeOf_spec]
      omega
  | insert target columns source =>
    have hsize : sizeOf m < sizeOf source := List.sizeOf_lt_of_mem h
    simp only [insert.sizeOf_spec]
    omega
  | table t => cases h
  | column c => cases h
  | subquery label body =>
    have hsize : sizeOf m < sizeOf body := List.sizeOf_lt_of_mem h
    simp only [subquery.sizeOf_spec]
    omega

theorem exists_below_of_mem_owners (n : Node) {o : Owner} (h : o ∈ n.owners column) :
    ∃ above k, n.Below above k ∧ o ∈ k.attributed column := by
  rcases mem_owners.mp h with hself | ⟨m, hm, ho⟩
  · exact ⟨[], n, .self n, hself⟩
  · obtain ⟨above, k, hbelow, hk⟩ := exists_below_of_mem_owners m ho
    exact ⟨above ++ [n], k, .part hm hbelow, hk⟩
termination_by sizeOf n
decreasing_by
  exact sizeOf_lt_of_mem_parts hm

theorem mem_tables_of_bareOwner? {n : Node} {t : TableRef} (h : n.bareOwner? = some t) :
    t ∈ n.tables := by
  unfold bareOwner? at h
  split at h
  · cases h
    simp [tables, sources]
  · cases h
    simp [tables, target?]
  · cases h
    simp [tables, target?]
  · cases h
    simp [tables, target?]
  · cases h

theorem table_mem_attributed {n : Node} {t : TableRef} (h : n.bareOwner? = some t) {r : ColumnRef}
    (hr : r ∈ matchingColumns column n.columns) (hbare : r.qualifier = none) :
    .table t.name ∈ n.attributed column := by
  have htarget : ∀ {columns : List ColumnRef}, r ∈ matchingColumns column columns →
      Owner.table t.name ∈ targetOwners column t columns := by
    intro columns hr
    rw [targetOwners, if_neg]
    · exact List.mem_singleton.mpr rfl
    · simpa using List.ne_nil_of_mem hr
  unfold bareOwner? at h
  split at h
  · cases h
    exact List.mem_filterMap.mpr ⟨r, hr, by simp [hbare]⟩
  · cases h
    exact htarget hr
  · cases h
    exact htarget hr
  · cases h
    exact htarget hr
  · cases h

end Node

theorem Tree.Within.mem_columnOwners {tree : Tree} {above : List Node} {n : Node}
    (h : tree.Within above n) {column : Name} {o : Owner} (ho : o ∈ n.attributed column) :
    o ∈ columnOwners tree column := by
  obtain ⟨root, hroot, hbelow⟩ := h
  rw [columnOwners, List.mem_eraseDups, mem_nodesOwners]
  exact ⟨root, hroot, hbelow.mem_owners ho⟩

theorem exists_within_of_mem_columnOwners {tree : Tree} {column : Name} {o : Owner}
    (h : o ∈ columnOwners tree column) :
    ∃ above n, tree.Within above n ∧ o ∈ n.attributed column := by
  rw [columnOwners, List.mem_eraseDups, mem_nodesOwners] at h
  obtain ⟨root, hroot, ho⟩ := h
  obtain ⟨above, n, hbelow, hn⟩ := root.exists_below_of_mem_owners ho
  exact ⟨above, n, ⟨root, hroot, hbelow⟩, hn⟩

/-! ### Acceptance -/

theorem acceptOwner_eq_accepted {owner table : Name} {candidates : List Name}
    (h : acceptOwner owner candidates = .accepted table) :
    table ∈ candidates ∧ owner.unqualified = table.unqualified ∧
      (owner ∈ candidates → owner = table) := by
  unfold acceptOwner at h
  split at h
  · rename_i hmem
    cases h
    exact ⟨by simpa using hmem, rfl, fun _ => rfl⟩
  · rename_i hmem
    split at h
    · rename_i only honly
      cases h
      have hfound : table ∈ candidates.filter fun c => c.unqualified == owner.unqualified := by
        rw [honly]
        exact List.mem_singleton.mpr rfl
      obtain ⟨hcandidate, hname⟩ := List.mem_filter.mp hfound
      refine ⟨hcandidate, (by simpa using hname : table.unqualified = owner.unqualified).symm, ?_⟩
      intro howner
      exact absurd howner (by simpa using hmem)
    · cases h

/-- An accepted table stands for the only table that the owners of the column are. -/
theorem disambiguate_eq_accepted {tree : Tree} {column table : Name} {aliases : AliasMap}
    {candidates : List Name}
    (h : disambiguate (some tree) column aliases candidates = .accepted table) :
    ∃ owner, acceptOwner owner candidates = .accepted table ∧
      (∃ o ∈ columnOwners tree column, o.table? aliases = some owner) ∧
      ∀ o ∈ columnOwners tree column, ∀ name, o.table? aliases = some name → name = owner := by
  simp only [disambiguate] at h
  split at h
  · rename_i owner howner
    have hmem : ∀ name, name ∈ (columnOwners tree column).filterMap (Owner.table? aliases) ↔
        name = owner := by
      intro name
      rw [← List.mem_eraseDups, howner, List.mem_singleton]
    refine ⟨owner, h, List.mem_filterMap.mp ((hmem owner).mpr rfl), ?_⟩
    intro o ho name hname
    exact (hmem name).mp (List.mem_filterMap.mpr ⟨o, ho, hname⟩)
  · cases h

/-- If a table is accepted for a column, then it is a candidate, and it is, but for its schema, an
owner that the tree names somewhere. Every node that gives its bare columns to one table and names
the column without a qualifier has that owner for its table, so that the accepted table is in scope
there. -/
theorem accepted_owns_attributed_columns {tree : Tree} {column table : Name} {aliases : AliasMap}
    {candidates : List Name}
    (h : disambiguate (some tree) column aliases candidates = .accepted table) :
    table ∈ candidates ∧ ∃ owner : Name, owner.unqualified = table.unqualified ∧
      (owner ∈ candidates → owner = table) ∧
      (∃ above n, tree.Within above n ∧
        ∃ o ∈ n.attributed column, o.table? aliases = some owner) ∧
      ∀ above n, tree.Within above n → ∀ r ∈ matchingColumns column n.columns, r.qualifier = none →
        ∀ t, n.bareOwner? = some t → t.name = owner ∧ t ∈ (n :: above).flatMap Node.tables := by
  obtain ⟨owner, haccepted, ⟨o, ho, howner⟩, honly⟩ := disambiguate_eq_accepted h
  obtain ⟨hcandidate, hname, hsame⟩ := acceptOwner_eq_accepted haccepted
  refine ⟨hcandidate, owner, hname, hsame, ?_, ?_⟩
  · obtain ⟨above, n, hwithin, hn⟩ := exists_within_of_mem_columnOwners ho
    exact ⟨above, n, hwithin, o, hn, howner⟩
  · intro above n hwithin r hr hbare t ht
    have hgiven := hwithin.mem_columnOwners (n.table_mem_attributed ht hr hbare)
    refine ⟨honly _ hgiven t.name rfl, ?_⟩
    exact List.mem_flatMap.mpr ⟨n, List.mem_cons_self, Node.mem_tables_of_bareOwner? ht⟩

/-- The table of a nested query is accepted for a column that only this query names. -/
theorem accepted_owns_attributed_columns_nested :
    let text := "SELECT Id FROM Department WHERE Id IN (SELECT Id FROM hr.Employee WHERE Name = 1)"
    let tree : Tree := (parseTree? .tsql text.toList).getD []
    let candidates := [.ofText "department", .ofText "employee"]
    disambiguate (some tree) (.ofText "Name") {} candidates = .accepted (.ofText "employee") ∧
      ∃ owner, owner.unqualified = (Name.ofText "employee").unqualified ∧
        ∃ above n, tree.Within above n ∧
          ∃ o ∈ n.attributed (.ofText "Name"), o.table? {} = some owner := by
  intro text tree candidates
  have haccepted : disambiguate (some tree) (.ofText "Name") {} candidates =
      .accepted (.ofText "employee") := by decide +kernel
  obtain ⟨_, owner, hname, _, hsome, _⟩ := accepted_owns_attributed_columns haccepted
  exact ⟨haccepted, owner, hname, hsome⟩

/-- A join names a column without a qualifier, and so does a query nested in its condition. The
table of the nested query is accepted, although the join does not read it. -/
theorem accepted_out_of_scope :
    let text := "SELECT Name FROM Employee, Department WHERE EXISTS (SELECT Name FROM Audit)"
    let tree : Tree := (parseTree? .tsql text.toList).getD []
    let candidates := [.ofText "audit", .ofText "department", .ofText "employee"]
    disambiguate (some tree) (.ofText "Name") {} candidates = .accepted (.ofText "audit") ∧
      ¬tree.OwnsBareColumns (.ofText "Name") (.ofText "audit") := by
  intro text tree candidates
  have hparsed : disambiguate (some tree) (.ofText "Name") {} candidates =
        .accepted (.ofText "audit") ∧
      ∃ n ∈ tree, ∃ r ∈ matchingColumns (.ofText "Name") n.columns, r.qualifier = none ∧
        ∀ t ∈ n.tables, t.name.unqualified ≠ (Name.ofText "audit").unqualified := by decide +kernel
  obtain ⟨haccepted, n, hn, r, hr, hbare, hother⟩ := hparsed
  refine ⟨haccepted, fun howns => ?_⟩
  obtain ⟨t, ht, hname⟩ := howns [] n ⟨n, hn, .self n⟩ r hr hbare
  rw [List.flatMap_singleton] at ht
  exact hother t ht hname

end SqlAtlas
