import Mathlib.Data.List.Pairwise
import Mathlib.Data.List.Perm.Basic
import SqlAtlas.Proofs.Arrangement
import SqlAtlas.Proofs.Owner

/-!
# Owners and the order of nodes

The owners of a column are those that the nodes of a tree give it to, wherever these stand, and the
decision on the column reads no more than the set of them. So the order of statements and of queries does
not matter. The order of a query's tables matters only where one name is bound to two of them: a later
alias takes the place of an earlier one, and a table's own name is bound only where it is free.
-/

namespace SqlAtlas

set_option autoImplicit false

/-! ### The walk -/

theorem nodesOwners_eq_flatMap (column : Name) (ns : List Node) :
    nodesOwners column ns = ns.flatMap (Node.owners column) := by
  induction ns with
  | nil => rfl
  | cons n ns ih => rw [nodesOwners, ih, List.flatMap_cons]

namespace Node

variable {column : Name}

theorem flatMap_owners_opened (n : Node) : n.opened.flatMap (owners column) = n.owners column := by
  cases n with
  | subquery label body => rw [opened, owners, nodesOwners_eq_flatMap]
  | table t => rfl
  | column c => rfl
  | _ => exact List.flatMap_singleton ..

/-- Subqueries are passed over on the way down, and so nothing is lost if they are opened one level at
a time. -/
theorem owners_eq (n : Node) :
    n.owners column = n.attributed column ++ n.children.flatMap (owners column) := by
  have hparts : n.children.flatMap (owners column) = nodesOwners column n.parts := by
    rw [children, List.flatMap_assoc, nodesOwners_eq_flatMap]
    exact congrArg (List.flatMap · n.parts) (funext flatMap_owners_opened)
  rw [hparts]
  cases n with
  | select sources columns nested | update target sources columns nested
  | delete target sources columns nested =>
    simp only [owners, attributed, parts, nodesOwners_eq_flatMap, List.flatMap_append, List.append_assoc]
  | insert target columns source => rfl
  | table t => rfl
  | column c => rfl
  | subquery label body => rfl

end Node

/-! ### The decision -/

/-- The decision on a column depends on its owners only, and not on their order. -/
theorem disambiguate_congr {tree tree' : Tree} {column : Name}
    (h : ∀ o, o ∈ columnOwners tree column ↔ o ∈ columnOwners tree' column) (aliases : AliasMap)
    (candidates : List Name) : disambiguate (some tree) column aliases candidates =
      disambiguate (some tree') column aliases candidates := by
  have hperm : (((columnOwners tree column).filterMap (Owner.table? aliases)).eraseDups).Perm
      (((columnOwners tree' column).filterMap (Owner.table? aliases)).eraseDups) := by
    refine (List.perm_ext_iff_of_nodup (Arrangement.nodup_eraseDups _)
      (Arrangement.nodup_eraseDups _)).mpr ?_
    intro name
    simp only [List.mem_eraseDups, List.mem_filterMap, h]
  simp only [disambiguate]
  split
  · rename_i owner honly
    rw [honly] at hperm
    rw [List.perm_singleton.mp hperm.symm]
  · rename_i hnone
    split
    · rename_i owner honly
      rw [honly] at hperm
      exact absurd (List.perm_singleton.mp hperm) (hnone owner)
    · rfl

/-! ### What a query binds -/

/-- The tables of two queries bind every qualifier to the same owner. -/
def BindsAlike (sources sources' : List Node) : Prop :=
  ∀ qualifier, (Bindings.ofSources sources).owner qualifier =
    (Bindings.ofSources sources').owner qualifier

namespace Node

/-- What a name is bound to behind a source, if it was bound to `old` in front. -/
def rebind (n : Node) (key : List Char) (old : Option (Option Name)) : Option (Option Name) :=
  match n with
  | .table t =>
    let labelled := match t.label with
      | some a => if key = Text.lower a then some (some t.name) else old
      | none => old
    if key = t.name.unqualified ∨ key = t.name.chars then some (labelled.getD (some t.name))
    else labelled
  | .subquery (some a) _ => if key = Text.lower a then some none else old
  | _ => old

def bound : Node → List (List Char)
  | .table t => (t.label.map Text.lower).toList ++ [t.name.unqualified, t.name.chars]
  | .subquery (some a) _ => [Text.lower a]
  | _ => []

theorem rebind_of_notMem_bound {n : Node} {key : List Char} (h : key ∉ n.bound)
    (old : Option (Option Name)) : n.rebind key old = old := by
  unfold rebind
  split
  · rename_i t
    obtain ⟨name, label⟩ := t
    simp only [bound, List.mem_append, Option.mem_toList, List.mem_cons, List.not_mem_nil, or_false,
      not_or] at h
    rw [if_neg (not_or.mpr h.2)]
    cases label with
    | none => rfl
    | some a => exact if_neg fun hkey => h.1 (congrArg some hkey.symm)
  · rename_i a body
    exact if_neg (fun hkey => h (List.mem_singleton.mpr hkey))
  · rfl

end Node

namespace Bindings

theorem lookup_bind (b : Bindings) (key other : List Char) (target : Option Name) :
    (b.bind key target).lookup other = if other = key then some target else b.lookup other := by
  rw [bind, List.lookup_cons]
  split
  · rename_i h
    rw [if_pos (eq_of_beq h)]
  · rename_i h
    rw [if_neg (by simpa using h)]

theorem lookup_bindMissing (b : Bindings) (key other : List Char) (target : Option Name) :
    (b.bindMissing key target).lookup other =
      if other = key then some ((b.lookup other).getD target) else b.lookup other := by
  rw [bindMissing]
  split
  · rename_i h
    split
    · rename_i hkey
      obtain ⟨t, ht⟩ := Option.isSome_iff_exists.mp h
      rw [hkey, ht, Option.getD_some]
    · rfl
  · rename_i h
    rw [lookup_bind]
    split
    · rename_i hkey
      rw [hkey, Option.not_isSome_iff_eq_none.mp h, Option.getD_none]
    · rfl

theorem lookup_bindMissing_bindMissing (b : Bindings) (key key' other : List Char)
    (target : Option Name) : ((b.bindMissing key target).bindMissing key' target).lookup other =
      if other = key ∨ other = key' then some ((b.lookup other).getD target) else b.lookup other := by
  rw [lookup_bindMissing, lookup_bindMissing]
  by_cases hkey : other = key
  · simp only [Option.getD_some, ite_self, hkey, true_or, if_true]
  · simp only [hkey, false_or, if_false]

theorem lookup_addSource (b : Bindings) (n : Node) (key : List Char) :
    (b.addSource n).lookup key = n.rebind key (b.lookup key) := by
  cases n with
  | table t =>
    obtain ⟨name, label⟩ := t
    cases label with
    | none => exact lookup_bindMissing_bindMissing ..
    | some a =>
      rw [addSource, lookup_bindMissing_bindMissing, lookup_bind]
      rfl
  | subquery label body =>
    cases label with
    | none => rfl
    | some a => exact lookup_bind ..
  | _ => rfl

theorem lookup_ofSources (sources : List Node) (key : List Char) :
    (ofSources sources).lookup key = (sources.map Node.rebind).foldl (fun old r => r key old) none := by
  suffices h : ∀ b : Bindings, (sources.foldl addSource b).lookup key =
      (sources.map Node.rebind).foldl (fun old r => r key old) (b.lookup key) from h []
  induction sources with
  | nil => exact fun _ => rfl
  | cons n sources ih =>
    intro b
    rw [List.foldl_cons, ih, lookup_addSource, List.map_cons, List.foldl_cons]

end Bindings

/-! ### Reordered trees -/

/-- Trees that differ in the order of nodes, at any depth. The tables of a query may stand in another
order if they bind every qualifier to the same owner as before. -/
inductive Reordered : List Node → List Node → Prop
  | refl (ns : List Node) : Reordered ns ns
  | swap (n m : Node) (ns : List Node) : Reordered (n :: m :: ns) (m :: n :: ns)
  | trans {ns ms ks : List Node} : Reordered ns ms → Reordered ms ks → Reordered ns ks
  | cons (n : Node) {ns ns' : List Node} : Reordered ns ns' → Reordered (n :: ns) (n :: ns')
  | select {sources sources' nested nested' : List Node} (columns : List ColumnRef) (ns : List Node) :
    Reordered sources sources' → BindsAlike sources sources' → Reordered nested nested' →
    Reordered (.select sources columns nested :: ns) (.select sources' columns nested' :: ns)
  | update {sources sources' nested nested' : List Node} (target : TableRef) (columns : List ColumnRef)
    (ns : List Node) : Reordered sources sources' → Reordered nested nested' →
    Reordered (.update target sources columns nested :: ns)
      (.update target sources' columns nested' :: ns)
  | delete {sources sources' nested nested' : List Node} (target : TableRef) (columns : List ColumnRef)
    (ns : List Node) : Reordered sources sources' → Reordered nested nested' →
    Reordered (.delete target sources columns nested :: ns)
      (.delete target sources' columns nested' :: ns)
  | insert {source source' : List Node} (target : TableRef) (columns : List ColumnRef) (ns : List Node) :
    Reordered source source' →
    Reordered (.insert target columns source :: ns) (.insert target columns source' :: ns)
  | subquery {body body' : List Node} (label : Option (List Char)) (ns : List Node) :
    Reordered body body' → Reordered (.subquery label body :: ns) (.subquery label body' :: ns)

def soleTable? : List Node → Option TableRef
  | [.table t] => some t
  | _ => none

theorem selectOwners_eq (column : Name) (sources : List Node) (columns : List ColumnRef) :
    selectOwners column sources columns = (matchingColumns column columns).filterMap fun r =>
      match r.qualifier with
      | some q => some ((Bindings.ofSources sources).owner q)
      | none => (soleTable? sources).map fun t => .table t.name := by
  rw [selectOwners]
  congr 1
  funext r
  cases r.qualifier with
  | some q => rfl
  | none =>
    match sources with
    | [] => rfl
    | [n] => cases n <;> rfl
    | n :: _ :: _ => cases n <;> rfl

namespace Reordered

variable {ns ns' : List Node}

theorem length_eq (h : Reordered ns ns') : ns.length = ns'.length := by
  induction h with
  | trans _ _ ih ih' => exact ih.trans ih'
  | cons n _ ih => exact congrArg (· + 1) ih
  | _ => rfl

theorem soleTable?_eq (h : Reordered ns ns') : soleTable? ns = soleTable? ns' := by
  induction h with
  | trans _ _ ih ih' => exact ih.trans ih'
  | @cons n ns ns' h _ =>
    cases ns with
    | nil => rw [List.eq_nil_of_length_eq_zero h.length_eq.symm]
    | cons m ms =>
      cases ns' with
      | nil => cases h.length_eq
      | cons m' ms' => cases n <;> rfl
  | swap n m ns => cases n <;> cases m <;> rfl
  | _ => rfl

theorem perm_nodesOwners (column : Name) (h : Reordered ns ns') :
    (nodesOwners column ns).Perm (nodesOwners column ns') := by
  induction h with
  | refl ns => exact List.Perm.refl _
  | swap n m ns =>
    simp only [nodesOwners, ← List.append_assoc]
    exact List.perm_append_comm.append_right _
  | trans _ _ ih ih' => exact ih.trans ih'
  | cons n _ ih => exact ih.append_left _
  | select columns ns hsources hbinds _ ih ih' =>
    have hown : ∀ sources sources' : List Node, BindsAlike sources sources' →
        soleTable? sources = soleTable? sources' →
        selectOwners column sources columns = selectOwners column sources' columns := by
      intro sources sources' hbinds hsole
      rw [selectOwners_eq, selectOwners_eq, hsole]
      simp only [hbinds _]
    refine List.Perm.append_right _ ?_
    rw [Node.owners, Node.owners, hown _ _ hbinds hsources.soleTable?_eq]
    exact (ih.append_left _).append ih'
  | update target columns ns _ _ ih ih' | delete target columns ns _ _ ih ih' =>
    exact (((ih.append_left _).append ih').append_right _)
  | insert target columns ns _ ih => exact (ih.append_left _).append_right _
  | subquery label ns _ ih => exact ih.append_right _

theorem perm_rebind (h : Reordered ns ns') : (ns.map Node.rebind).Perm (ns'.map Node.rebind) := by
  induction h with
  | swap n m ns => exact List.Perm.swap ..
  | trans _ _ ih ih' => exact ih.trans ih'
  | cons n _ ih => exact ih.cons _
  | subquery label ns _ _ => cases label <;> exact List.Perm.refl _
  | _ => exact List.Perm.refl _

/-- Tables that bind different names may stand in any order. -/
theorem bindsAlike (h : Reordered ns ns')
    (hbound : ns.Pairwise fun n m => ∀ key ∈ n.bound, key ∉ m.bound) : BindsAlike ns ns' := by
  have hsymm : Std.Symm fun n m : Node => ∀ key ∈ n.bound, key ∉ m.bound :=
    ⟨fun _ _ h key hm hn => h key hn hm⟩
  have hlookup : ∀ key, (Bindings.ofSources ns).lookup key = (Bindings.ofSources ns').lookup key := by
    intro key
    rw [Bindings.lookup_ofSources, Bindings.lookup_ofSources]
    refine h.perm_rebind.foldl_eq' ?_ none
    intro r hr r' hr' old
    obtain ⟨n, hn, rfl⟩ := List.mem_map.mp hr
    obtain ⟨m, hm, rfl⟩ := List.mem_map.mp hr'
    by_cases hsame : n = m
    · rw [hsame]
    · have hapart := hbound.forall hn hm hsame
      by_cases hkey : key ∈ n.bound
      · have hother := hapart key hkey
        rw [Node.rebind_of_notMem_bound hother, Node.rebind_of_notMem_bound hother]
      · rw [Node.rebind_of_notMem_bound hkey, Node.rebind_of_notMem_bound hkey]
  intro qualifier
  simp only [Bindings.owner, hlookup]

end Reordered

/-- The owners of a column are all that the nodes of a tree give it to, at any depth. -/
structure OwnersCover (tree : Tree) (column : Name) : Prop where
  nodup : (columnOwners tree column).Nodup
  mem_iff : ∀ o, o ∈ columnOwners tree column ↔
    ∃ above n, tree.Within above n ∧ o ∈ n.attributed column
  /-- Subqueries are opened one level at a time. -/
  walk : ∀ n : Node, n.owners column = n.attributed column ++ n.children.flatMap (Node.owners column)
  reordered : ∀ tree' : Tree, Reordered tree tree' →
    ∀ o, o ∈ columnOwners tree column ↔ o ∈ columnOwners tree' column
  /-- A decision depends on nothing but the owners. -/
  decision : ∀ tree' : Tree, (∀ o, o ∈ columnOwners tree column ↔ o ∈ columnOwners tree' column) →
    ∀ aliases candidates, disambiguate (some tree) column aliases candidates =
      disambiguate (some tree') column aliases candidates
  /-- Tables that bind different names may be reordered. -/
  binds : ∀ ns ns' : List Node, Reordered ns ns' →
    (ns.Pairwise fun n m => ∀ key ∈ n.bound, key ∉ m.bound) → BindsAlike ns ns'

/-- The owners of a column, each once, are those that the nodes of a tree give it to, and they stay the
same in a reordered tree. -/
theorem owners_cover_tree (tree : Tree) (column : Name) : OwnersCover tree column where
  nodup := Arrangement.nodup_eraseDups _
  mem_iff o := by
    refine ⟨exists_within_of_mem_columnOwners, ?_⟩
    rintro ⟨above, n, hwithin, ho⟩
    exact hwithin.mem_columnOwners ho
  walk := Node.owners_eq
  reordered tree' h o := by
    rw [columnOwners, columnOwners, List.mem_eraseDups, List.mem_eraseDups]
    exact (h.perm_nodesOwners column).mem_iff
  decision _ := disambiguate_congr
  binds _ _ := Reordered.bindsAlike

/-- The tables of a query, and the bodies of its nested queries, in another order. -/
theorem owners_cover_tree_joined :
    let employee : Node := .table ⟨.ofText "hr.Employee", some "e".toList⟩
    let audit : Node := .subquery none
      [.select [.table ⟨.ofText "Audit", none⟩] [⟨none, .ofText "Name"⟩] []]
    let log : Node := .select [.table ⟨.ofText "Log", none⟩] [⟨none, .ofText "Id"⟩] []
    let derived : Node := .subquery (some "d".toList) [audit, log]
    let derived' : Node := .subquery (some "d".toList) [log, audit]
    let tree : Tree := [.select [employee, derived] [⟨some "E".toList, .ofText "Name"⟩] []]
    let tree' : Tree := [.select [derived', employee] [⟨some "E".toList, .ofText "Name"⟩] []]
    let owners : List Owner := [.table (.ofText "hr.Employee"), .table (.ofText "Audit")]
    columnOwners tree (.ofText "name") = owners ∧ Reordered tree tree' ∧
      (∀ o, o ∈ owners ↔ o ∈ columnOwners tree' (.ofText "name")) ∧
      ∀ aliases candidates, disambiguate (some tree) (.ofText "name") aliases candidates =
        disambiguate (some tree') (.ofText "name") aliases candidates := by
  intro employee audit log derived derived' tree tree' owners
  have hsources : Reordered [employee, derived] [derived', employee] :=
    .trans (.swap employee derived []) (.subquery _ [employee] (.swap audit log []))
  have hcover := owners_cover_tree tree (.ofText "name")
  have hreordered : Reordered tree tree' :=
    .select _ [] hsources (hcover.binds _ _ hsources (by decide +kernel)) (.refl [])
  have howners : columnOwners tree (.ofText "name") = owners := by decide +kernel
  refine ⟨howners, hreordered, ?_, hcover.decision tree' (hcover.reordered tree' hreordered)⟩
  rw [← howners]
  exact hcover.reordered tree' hreordered

/-- A derived table that takes the alias of a table takes its columns too if it stands behind the table,
and not if it stands in front. -/
theorem reordered_subqueries_rebind :
    let derived (label : String) : Node := .subquery (some label.toList)
      [.select [.table ⟨.ofText label, none⟩] [⟨none, .ofText "Id"⟩] []]
    let table : Node := .table ⟨.ofText "t", some "a".toList⟩
    let sources := [derived "b", table, derived "a"]
    let sources' := [derived "a", table, derived "b"]
    let tree (sources : List Node) : Tree := [.select sources [⟨some "a".toList, .ofText "x"⟩] []]
    sources.Perm sources' ∧
      disambiguate (some (tree sources)) (.ofText "x") {} [.ofText "t"] = .inconclusive ∧
      disambiguate (some (tree sources')) (.ofText "x") {} [.ofText "t"] = .accepted (.ofText "t") := by
  intro derived table sources sources' tree
  refine ⟨?_, by decide +kernel, by decide +kernel⟩
  calc [derived "b", table, derived "a"]
    _ = [derived "b", table] ++ [derived "a"] := rfl
    List.Perm _ ([derived "a"] ++ [derived "b", table]) := List.perm_append_comm
    List.Perm _ [derived "a", table, derived "b"] := (List.Perm.swap table (derived "b") []).cons _

end SqlAtlas
