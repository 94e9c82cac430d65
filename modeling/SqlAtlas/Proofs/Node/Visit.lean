import SqlAtlas.Node.Visit

/-!
# Columns of lowered queries

A query's nodes hold the columns that a visitor comes to in the clauses which lowering reads, each as
often as it stands there, and each at the node of the innermost query around it. They hold no others, and
so the columns of the other clauses, such as `ORDER BY`, are lost.
-/

namespace SqlAtlas.Grammar

set_option autoImplicit false

/-! ### Columns of nodes -/

mutual

def nodesWithin : Node → List Node
  | .select sources columns nested =>
    .select sources columns nested :: (nodesWithinAll sources ++ nodesWithinAll nested)
  | .update target sources columns nested =>
    .update target sources columns nested :: (nodesWithinAll sources ++ nodesWithinAll nested)
  | .delete target sources columns nested =>
    .delete target sources columns nested :: (nodesWithinAll sources ++ nodesWithinAll nested)
  | .insert target columns source => .insert target columns source :: nodesWithinAll source
  | .subquery label body => .subquery label body :: nodesWithinAll body
  | .table t => [.table t]
  | .column c => [.column c]

def nodesWithinAll : List Node → List Node
  | [] => []
  | n :: ns => nodesWithin n ++ nodesWithinAll ns

end

def recorded (ns : List Node) : List (Node × ColumnRef) :=
  (nodesWithinAll ns).flatMap fun n => n.columns.map (n, ·)

@[simp] theorem recorded_nil : recorded [] = [] := rfl

theorem nodesWithinAll_append (ns ms : List Node) :
    nodesWithinAll (ns ++ ms) = nodesWithinAll ns ++ nodesWithinAll ms := by
  induction ns with
  | nil => rfl
  | cons n ns ih => rw [List.cons_append, nodesWithinAll, ih, nodesWithinAll, List.append_assoc]

theorem recorded_append (ns ms : List Node) : recorded (ns ++ ms) = recorded ns ++ recorded ms := by
  rw [recorded, nodesWithinAll_append, List.flatMap_append]
  rfl

theorem recorded_subquery (label : Option (List Char)) (body : List Node) :
    recorded [.subquery label body] = recorded body := by
  simp [recorded, nodesWithinAll, nodesWithin, Node.columns]

theorem recorded_tableNode (ctes : List (List Char)) (name : List Ident) (label : Option Ident)
    (called : Bool) : recorded [tableNode ctes name label called] = [] := by
  simp only [tableNode]
  split
  · rfl
  · rfl

theorem interleaved {α : Type} (as bs cs ds : List α) :
    (as ++ bs ++ (cs ++ ds)).Perm (as ++ cs ++ (bs ++ ds)) := by
  simp only [List.append_assoc]
  exact List.Perm.append_left as (List.perm_append_comm_assoc bs cs ds)

namespace Level

def recorded (n : Node) (l : Level) : List (Node × ColumnRef) :=
  l.columns.map (n, ·) ++ (Grammar.recorded l.sources ++ Grammar.recorded l.nested)

theorem append_eq (a b : Level) :
    a ++ b = ⟨a.sources ++ b.sources, a.columns ++ b.columns, a.nested ++ b.nested⟩ := rfl

theorem append_empty (a : Level) : a ++ (⟨[], [], []⟩ : Level) = a := by
  simp only [append_eq, List.append_nil]

theorem empty_append (a : Level) : (⟨[], [], []⟩ : Level) ++ a = a := rfl

theorem append_assoc (a b c : Level) : a ++ b ++ c = a ++ (b ++ c) := by
  simp only [append_eq, List.append_assoc]

theorem recorded_append (n : Node) (a b : Level) :
    ((a ++ b).recorded n).Perm (a.recorded n ++ b.recorded n) := by
  simp only [recorded, append_eq, Grammar.recorded_append, List.map_append]
  exact (List.Perm.append_left _ (interleaved ..)).trans (interleaved ..)

end Level

theorem recorded_selectNode (ctes : List (List Char)) (sources : List Joined) (operands : List Expr) :
    recorded [selectNode ctes sources operands] =
      (joinedsLevel ctes sources ++ exprsLevel ctes operands).recorded
        (selectNode ctes sources operands) := by
  simp [recorded, Level.recorded, nodesWithinAll, nodesWithin, selectNode, Node.columns]

/-! ### Columns of visits -/

namespace Visit

/-- The column that is visited in a clause which lowering reads, with the node of its query. -/
def read : Visit → List (Node × ColumnRef)
  | .column (some n) path => (columnRef? path).toList.map (n, ·)
  | _ => []

def recorded : Visit → List (Node × ColumnRef)
  | .change nodes => Grammar.recorded nodes
  | v => v.read

def columns : Visit → List ColumnRef
  | .column _ path => (columnRef? path).toList
  | _ => []

/-- The column that is visited in a clause which lowering passes over. -/
def passed : Visit → List ColumnRef
  | .column none path => (columnRef? path).toList
  | _ => []

theorem recorded_eq_read {v : Visit} (h : v.isChange = false) : v.recorded = v.read := by
  cases v with
  | change nodes => cases h
  | _ => rfl

theorem columns_eq (v : Visit) : v.columns = v.read.map Prod.snd ++ v.passed := by
  cases v with
  | column home path =>
    cases home with
    | none => rfl
    | some n => simp [columns, read, passed, Function.comp_def]
  | _ => rfl

theorem recorded_pass (v : Visit) : v.pass.recorded = [] := by
  cases v with
  | column home path => rfl
  | change nodes => rfl
  | _ => rfl

end Visit

theorem flatMap_recorded_pass (vs : List Visit) : (vs.map Visit.pass).flatMap Visit.recorded = [] := by
  simp [List.flatMap_map, Visit.recorded_pass]

theorem perm_columns (vs : List Visit) : (vs.flatMap Visit.columns).Perm
    ((vs.flatMap Visit.read).map Prod.snd ++ vs.flatMap Visit.passed) := by
  induction vs with
  | nil => exact List.Perm.refl _
  | cons v vs ih =>
    simp only [List.flatMap_cons, List.map_append, Visit.columns_eq v]
    exact (ih.append_left _).trans (interleaved ..)

/-! ### The collector -/

/-- Visits that change nothing inside of a query. -/
def Inert (vs : List Visit) : Prop :=
  ∀ ctes, ∀ c : Collector, 0 < c.depth → vs.foldl (Collector.visit ctes) c = c

namespace Inert

variable {vs ws : List Visit}

theorem nil : Inert [] := fun _ _ _ => rfl

theorem append (h : Inert vs) (h' : Inert ws) : Inert (vs ++ ws) := by
  intro ctes c hc
  rw [List.foldl_append, h ctes c hc, h' ctes c hc]

theorem column (home : Option Node) (path : List Ident) : Inert [.column home path] :=
  fun _ _ hc => if_pos hc

theorem factor (f : Factor) : Inert [.factor f] := fun _ _ hc => if_pos hc

theorem change (nodes : List Node) : Inert [.change nodes] := fun _ _ _ => rfl

theorem pass (h : Inert vs) : Inert (vs.map Visit.pass) := by
  intro ctes c hc
  have hvisit : ∀ (c : Collector) (v : Visit), c.visit ctes v.pass = c.visit ctes v := by
    intro c v
    cases v <;> rfl
  rw [List.foldl_map]
  simp only [hvisit]
  exact h ctes c hc

theorem query (q : Query) (h : Inert vs) : Inert (.enter q :: (vs ++ [.leave])) := by
  intro ctes c hc
  have henter : c.visit ctes (.enter q) = { c with depth := c.depth + 1 } := by
    rw [Collector.visit, if_neg]
    simpa using Nat.ne_of_gt hc
  rw [List.foldl_cons, List.foldl_append, henter, h ctes _ (Nat.succ_pos _)]
  rfl

end Inert

structure Lowers (vs : List Visit) (ns : List Node) : Prop where
  inert : Inert vs
  records : (vs.flatMap Visit.recorded).Perm (recorded ns)

namespace Lowers

variable {vs ws : List Visit} {ns ms : List Node}

theorem nil : Lowers [] [] := ⟨Inert.nil, List.Perm.refl _⟩

theorem append (h : Lowers vs ns) (h' : Lowers ws ms) : Lowers (vs ++ ws) (ns ++ ms) where
  inert := h.inert.append h'.inert
  records := by
    rw [List.flatMap_append, recorded_append]
    exact h.records.append h'.records

theorem append_passed (h : Lowers vs ns) (h' : Inert ws) : Lowers (vs ++ ws.map Visit.pass) ns where
  inert := h.inert.append h'.pass
  records := by
    rw [List.flatMap_append, flatMap_recorded_pass, List.append_nil]
    exact h.records

theorem change (ns : List Node) : Lowers [.change ns] ns where
  inert := Inert.change ns
  records := by simp [Visit.recorded]

theorem subquery (h : Lowers vs ns) (label : Option (List Char)) : Lowers vs [.subquery label ns] where
  inert := h.inert
  records := by rw [recorded_subquery]; exact h.records

end Lowers

def Encloses (q : Query) (vs : List Visit) (ns : List Node) : Prop :=
  ∃ inside, vs = .enter q :: (inside ++ [.leave]) ∧ Lowers inside ns

theorem Encloses.lowers {q : Query} {vs : List Visit} {ns : List Node} (h : Encloses q vs ns) :
    Lowers vs ns := by
  obtain ⟨inside, rfl, hinside⟩ := h
  refine ⟨hinside.inert.query q, ?_⟩
  simpa [Visit.recorded, Visit.read] using hinside.records

/-- Visits of a part of a query that adds the given level to the query's. -/
structure Collects (ctes : List (List Char)) (home : Option Node) (vs : List Visit) (l : Level) :
    Prop where
  inert : Inert vs
  adds : ∀ level, vs.foldl (Collector.visit ctes) ⟨0, false, level⟩ = ⟨0, false, level ++ l⟩
  records : ∀ n ∈ home, (vs.flatMap Visit.recorded).Perm (l.recorded n)

namespace Collects

variable {ctes : List (List Char)} {home : Option Node} {vs ws : List Visit} {l m : Level}

theorem nil : Collects ctes home [] ⟨[], [], []⟩ where
  inert := Inert.nil
  adds level := by rw [Level.append_empty]; rfl
  records n _ := List.Perm.refl _

theorem append (h : Collects ctes home vs l) (h' : Collects ctes home ws m) :
    Collects ctes home (vs ++ ws) (l ++ m) where
  inert := h.inert.append h'.inert
  adds level := by rw [List.foldl_append, h.adds, h'.adds, Level.append_assoc]
  records n hn := by
    rw [List.flatMap_append]
    exact ((h.records n hn).append (h'.records n hn)).trans (Level.recorded_append n l m).symm

theorem column (path : List Ident) :
    Collects ctes home [.column home path] ⟨[], (columnRef? path).toList, []⟩ where
  inert := Inert.column home path
  adds level := rfl
  records n hn := by
    rw [Option.mem_def] at hn
    simp [hn, Visit.recorded, Visit.read, Level.recorded]

theorem table (name : List Ident) (label : Option Ident) (called : Bool) (operands : List Expr) :
    Collects ctes home [.factor (.table name label called operands)]
      ⟨[tableNode ctes name label called], [], []⟩ where
  inert := Inert.factor _
  adds level := rfl
  records n _ := by
    simp [Visit.recorded, Visit.read, Level.recorded, recorded_tableNode]

/-- A table that only holds others adds what these add. -/
theorem holder {f : Factor} (h : Collects ctes home vs l)
    (hf : ∀ c : Collector, c.visit ctes (.factor f) = c) : Collects ctes home (.factor f :: vs) l where
  inert := (Inert.factor f).append h.inert
  adds level := by rw [List.foldl_cons, hf, h.adds]
  records := h.records

/-- A query in an expression becomes a nested query of the level. -/
theorem subquery {q : Query} (h : Encloses q vs (q.nodes ctes)) :
    Collects ctes home vs ⟨[], [], [.subquery none (q.nodes ctes)]⟩ where
  inert := h.lowers.inert
  adds level := by
    obtain ⟨inside, rfl, hinside⟩ := h
    rw [List.foldl_cons, List.foldl_append]
    -- the inside is read at depth one
    rw [hinside.inert]
    · rfl
    · exact Nat.one_pos
  records n _ := by
    simpa [Level.recorded, recorded_subquery] using h.lowers.records

/-- A derived table becomes a source of the level, and its query no nested one. -/
theorem derived {q : Query} (label : Option Ident) (h : Encloses q vs (q.nodes ctes)) :
    Collects ctes home (.factor (.derived q label) :: vs)
      ⟨[.subquery (label.map (·.value)) (q.nodes ctes)], [], []⟩ where
  inert := (Inert.factor (.derived q label)).append h.lowers.inert
  adds level := by
    obtain ⟨inside, rfl, hinside⟩ := h
    rw [List.foldl_cons, List.foldl_cons, List.foldl_append]
    rw [hinside.inert]
    · rfl
    · exact Nat.one_pos
  records n _ := by
    simpa [Level.recorded, recorded_subquery, Visit.recorded, Visit.read] using h.lowers.records

end Collects

/-! ### Visits of lowered syntax -/

mutual

theorem Expr.collects (ctes : List (List Char)) (home : Option Node) :
    ∀ e : Expr, Collects ctes home (e.visits ctes home) (e.level ctes)
  | .column path => by
    rw [Expr.visits, Expr.level]
    exact Collects.column path
  | .constant => Collects.nil
  | .equation left right => by
    rw [Expr.visits, Expr.level]
    exact (left.collects ctes home).append (right.collects ctes home)
  | .call operands | .compound operands => by
    rw [Expr.visits, Expr.level]
    exact exprsCollects ctes home operands
  | .access root chain => by
    rw [Expr.visits, Expr.level]
    exact (root.collects ctes home).append (exprsCollects ctes home chain)
  | .subquery query => by
    rw [Expr.visits, Expr.level]
    exact Collects.subquery (query.encloses ctes)

theorem exprsCollects (ctes : List (List Char)) (home : Option Node) :
    ∀ es : List Expr, Collects ctes home (exprsVisits ctes home es) (exprsLevel ctes es)
  | [] => Collects.nil
  | e :: es => by
    rw [exprsVisits, exprsLevel]
    exact (e.collects ctes home).append (exprsCollects ctes home es)

theorem Query.encloses (ctes : List (List Char)) :
    ∀ q : Query, Encloses q (q.visits ctes) (q.nodes ctes)
  | .mk named body order => by
    have hbody := body.lowers (ctes ++ named.map Cte.key)
    have horder := exprsCollects (ctes ++ named.map Cte.key) none order
    refine ⟨_, by rw [Query.visits], ?_⟩
    rw [Query.nodes]
    -- the clauses behind the body are visited and leave nothing in the nodes
    exact ((ctesLowers ctes named).append hbody).append_passed horder.inert

theorem ctesLowers (ctes : List (List Char)) :
    ∀ named : List Cte, Lowers (ctesVisits ctes named) (ctesNodes ctes named)
  | [] => Lowers.nil
  | .mk name query :: rest => by
    rw [ctesVisits, ctesNodes]
    exact ((query.encloses ctes).lowers.subquery (some name.value)).append
      (ctesLowers (ctes ++ [Text.lower name.value]) rest)

theorem Body.lowers (ctes : List (List Char)) :
    ∀ b : Body, Lowers (b.visits ctes) (b.nodes ctes)
  | .select sources operands others => by
    have hread := (joinedsCollects ctes (some (selectNode ctes sources operands)) sources).append
      (exprsCollects ctes (some (selectNode ctes sources operands)) operands)
    have hothers := exprsCollects ctes none others
    rw [Body.visits, Body.nodes]
    -- the columns that are read stand at this node and nowhere else
    refine Lowers.append_passed ⟨hread.inert, ?_⟩ hothers.inert
    exact (hread.records _ rfl).trans (List.Perm.of_eq (recorded_selectNode ctes sources operands).symm)
  | .query query => by
    rw [Body.visits, Body.nodes]
    exact (query.encloses ctes).lowers
  | .combine left right => by
    rw [Body.visits, Body.nodes]
    exact (left.lowers ctes).append (right.lowers ctes)
  | .change statement => by
    rw [Body.visits, Body.nodes]
    exact (Lowers.change statement.nodes).append_passed statement.inert
  | .rows values => by
    rw [Body.visits, Body.nodes]
    exact Lowers.nil.append_passed (exprsCollects ctes none values).inert

theorem Factor.collects (ctes : List (List Char)) (home : Option Node) :
    ∀ f : Factor, Collects ctes home (f.visits ctes home) (f.level ctes)
  | .table name label called operands => by
    rw [Factor.visits, Factor.level]
    exact (Collects.table name label called operands).append (exprsCollects ctes home operands)
  | .derived query label => by
    rw [Factor.visits, Factor.level]
    exact Collects.derived label (query.encloses ctes)
  | .group tables => by
    rw [Factor.visits, Factor.level]
    exact (tables.collects ctes home).holder fun _ => ite_self _
  | .made inner operands => by
    rw [Factor.visits, Factor.level]
    have hinside := (factorsCollects ctes home inner).append (exprsCollects ctes home operands)
    exact hinside.holder fun _ => ite_self _

theorem factorsCollects (ctes : List (List Char)) (home : Option Node) :
    ∀ fs : List Factor, Collects ctes home (factorsVisits ctes home fs) (factorsLevel ctes fs)
  | [] => Collects.nil
  | f :: fs => by
    rw [factorsVisits, factorsLevel]
    exact (f.collects ctes home).append (factorsCollects ctes home fs)

theorem Joined.collects (ctes : List (List Char)) (home : Option Node) :
    ∀ j : Joined, Collects ctes home (j.visits ctes home) (j.level ctes)
  | .mk first joins => by
    rw [Joined.visits, Joined.level]
    exact (first.collects ctes home).append (joinsCollects ctes home joins)

theorem joinsCollects (ctes : List (List Char)) (home : Option Node) :
    ∀ js : List Join, Collects ctes home (joinsVisits ctes home js) (joinsLevel ctes js)
  | [] => Collects.nil
  | .mk factor conditions :: rest => by
    rw [joinsVisits, joinsLevel]
    exact ((factor.collects ctes home).append (exprsCollects ctes home conditions)).append
      (joinsCollects ctes home rest)

theorem joinedsCollects (ctes : List (List Char)) (home : Option Node) :
    ∀ js : List Joined, Collects ctes home (joinedsVisits ctes home js) (joinedsLevel ctes js)
  | [] => Collects.nil
  | j :: js => by
    rw [joinedsVisits, joinedsLevel]
    exact (j.collects ctes home).append (joinedsCollects ctes home js)

theorem Statement.inert : ∀ s : Statement, Inert s.visits
  | .query query => by
    rw [Statement.visits]
    exact (query.encloses []).lowers.inert
  | .insert _ _ source => by
    rw [Statement.visits]
    exact sourceInert source
  | .update table values sources operands _ => by
    rw [Statement.visits]
    exact (((table.collects [] none).inert.append (exprsCollects [] none values).inert).append
      (joinedsCollects [] none sources).inert).append (exprsCollects [] none operands).inert
  | .delete _ sources operands => by
    rw [Statement.visits]
    exact (joinedsCollects [] none sources).inert.append (exprsCollects [] none operands).inert
  | .other => Inert.nil

theorem sourceInert : ∀ source : Option Query, Inert (sourceVisits source)
  | none => Inert.nil
  | some query => by
    rw [sourceVisits]
    exact (query.encloses []).lowers.inert

end

/-! ### Lowered queries -/

theorem Body.nodes_select (ctes : List (List Char)) (home : Option Node) (sources : List Joined)
    (operands others : List Expr) : (Body.select sources operands others).nodes ctes =
      let level := Collector.collect ctes
        (joinedsVisits ctes home sources ++ exprsVisits ctes home operands)
      [.select level.sources level.columns level.nested] := by
  have hadds := ((joinedsCollects ctes home sources).append (exprsCollects ctes home operands)).adds
  rw [Body.nodes, Collector.collect]
  simp only [hadds, Level.empty_append]

/-- The nodes of a query hold the columns that a visitor comes to in the clauses which lowering reads, as
often as it does, each at the node of the innermost `SELECT` around it. With the columns of the clauses
that lowering passes over, these are all columns of the query. The node of a `SELECT` is what a collector
gathers on its way through the clauses that are read. -/
theorem nodes_hold_read_columns (ctes : List (List Char)) (q : Query)
    (h : ∀ v ∈ q.visits ctes, v.isChange = false) :
    (recorded (q.nodes ctes)).Perm ((q.visits ctes).flatMap Visit.read) ∧
      ((q.visits ctes).flatMap Visit.columns).Perm
        ((recorded (q.nodes ctes)).map Prod.snd ++ (q.visits ctes).flatMap Visit.passed) ∧
      ∀ (ctes : List (List Char)) (home : Option Node) (sources : List Joined)
        (operands others : List Expr), (Body.select sources operands others).nodes ctes =
          let level := Collector.collect ctes
            (joinedsVisits ctes home sources ++ exprsVisits ctes home operands)
          [.select level.sources level.columns level.nested] := by
  have hread : (q.visits ctes).flatMap Visit.recorded = (q.visits ctes).flatMap Visit.read := by
    rw [List.flatMap_def, List.flatMap_def,
      List.map_congr_left fun v hv => Visit.recorded_eq_read (h v hv)]
  have hrecords := (q.encloses ctes).lowers.records
  rw [hread] at hrecords
  refine ⟨hrecords.symm, ?_, Body.nodes_select⟩
  exact (perm_columns _).trans ((hrecords.map Prod.snd).append_right _)

/-- A named query, a derived table, a query in an expression, a union and an `ORDER BY`. -/
theorem nodes_hold_read_columns_nested :
    let ident (text : String) : Ident := ⟨text.toList, none⟩
    let simple (table column : String) : Query :=
      .mk [] (.select [.mk (.table [ident table] none false []) []] [.column [ident column]] []) []
    let derived : Joined := .mk (.derived (simple "u" "B") (some (ident "d"))) []
    let q : Query := .mk [.mk (ident "c") (simple "t" "A")]
      (.combine (.select [derived] [.column [ident "d", ident "B"], .column [ident "@n"],
        .subquery (simple "c" "A")] []) (.query (simple "v" "C"))) [.column [ident "D"]]
    let bare (name : String) : ColumnRef := ⟨none, .ofText name⟩
    (recorded (q.nodes [])).map Prod.snd =
        [bare "A", ⟨some "d".toList, .ofText "B"⟩, bare "B", bare "A", bare "C"] ∧
      (q.visits []).flatMap Visit.passed = [bare "D"] ∧
      (recorded (q.nodes [])).Perm ((q.visits []).flatMap Visit.read) := by
  intro ident simple derived q bare
  have hreads : ∀ v ∈ q.visits [], v.isChange = false := by decide +kernel
  exact ⟨by decide +kernel, by decide +kernel, (nodes_hold_read_columns [] q hreads).1⟩

def queriesOf (text : String) : List Query :=
  ((statementsOf? .tsql text.toList).getD []).filterMap fun
    | .query q => some q
    | _ => none

/-- A column of `ORDER BY` alone is lost. -/
theorem ordering_columns_lost :
    let text := "SELECT Id FROM T ORDER BY Name"
    (queriesOf text).length = 1 ∧ ∀ q ∈ queriesOf text,
      (∀ v ∈ q.visits [], v.isChange = false) ∧
      ¬((q.visits []).flatMap Visit.columns).Perm ((recorded (q.nodes [])).map Prod.snd) := by
  decide +kernel

end SqlAtlas.Grammar
