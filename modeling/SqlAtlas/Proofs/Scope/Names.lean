import SqlAtlas.Proofs.NameSet
import SqlAtlas.Scope.File

/-!
# The names of a scope are spelled in its statement

Every table that an alias stands for, every candidate table and every variable of a routine is the
normal form of a spelling. The clauses of a statement bring these names in, and nothing that is done
with aliases afterwards makes a new one. Candidate tables come once each.
-/

namespace SqlAtlas

set_option autoImplicit false

theorem Name.eq_of_chars {a b : Name} (h : a.chars = b.chars) : a = b := by
  cases a
  cases b
  cases h
  rfl

/-- A name that is the normal form of a spelling. -/
def Name.IsSpelled (n : Name) : Prop := ∃ raw, n = Name.ofChars raw

theorem Name.isSpelled_ofChars (raw : List Char) : (Name.ofChars raw).IsSpelled := ⟨raw, rfl⟩

namespace AliasMap

def Spelled (m : AliasMap) : Prop := ∀ e ∈ m.entries, ∀ t, e.2 = .table t → t.IsSpelled

theorem spelled_empty : Spelled {} := nofun

theorem Spelled.target? {m : AliasMap} (h : m.Spelled) {key : List Char} {t : Name}
    (ht : m.target? key = some (.table t)) : t.IsSpelled := by
  obtain ⟨before, after, hentries, _⟩ := List.lookup_eq_some_iff.mp ht
  exact h (key, .table t) (by rw [hentries]; simp) t rfl

theorem Spelled.append {m : AliasMap} (h : m.Spelled) {key : List Char} {target : AliasTarget}
    (htarget : ∀ t, target = .table t → t.IsSpelled) :
    Spelled ⟨m.entries ++ [(key, target)]⟩ := by
  intro e he t ht
  rcases List.mem_append.mp he with he | he
  · exact h e he t ht
  · cases List.mem_singleton.mp he
    exact htarget t ht

theorem Spelled.bindMissing {m : AliasMap} (h : m.Spelled) {key : List Char} {target : AliasTarget}
    (htarget : ∀ t, target = .table t → t.IsSpelled) : (m.bindMissing key target).Spelled := by
  rw [AliasMap.bindMissing]
  split
  · exact h
  · exact h.append htarget

theorem Spelled.bindTable {m : AliasMap} (h : m.Spelled) (label : List Char) {table : Name}
    (htable : table.IsSpelled) : (m.bindTable label table).Spelled := by
  apply h.bindMissing
  rintro t ⟨⟩
  exact htable

theorem Spelled.bindSubquery {m : AliasMap} (h : m.Spelled) (label : List Char) :
    (m.bindSubquery label).Spelled := by
  have hleft : Spelled ⟨m.entries.filter fun e => e.1 != Text.lower label⟩ :=
    fun e he => h e (List.mem_of_mem_filter he)
  exact hleft.append nofun

theorem Spelled.extendMissing {m other : AliasMap} (h : m.Spelled) (hother : other.Spelled) :
    (m.extendMissing other).Spelled := by
  rw [AliasMap.extendMissing]
  exact List.foldlRecOn _ _ h fun _ hm e he => hm.bindMissing (hother e he)

end AliasMap

namespace Clause.Sources

structure Spelled (s : Sources) : Prop where
  aliases : s.aliases.Spelled
  candidates : ∀ t ∈ s.candidates, t.IsSpelled

theorem Spelled.insert {s : Sources} (h : s.Spelled) {t : Name} (ht : t.IsSpelled) :
    ∀ t' ∈ NameSet.insert t s.candidates, t'.IsSpelled := by
  intro t' ht'
  rcases NameSet.mem_insert.mp ht' with rfl | ht'
  · exact ht
  · exact h.candidates t' ht'

theorem Spelled.addTable {s : Sources} (h : s.Spelled) (raw : List Char)
    (label : Option (List Char)) : (s.addTable raw label).Spelled := by
  have htable := Name.isSpelled_ofChars raw
  unfold Sources.addTable
  simp only
  split
  · exact h
  · refine ⟨?_, h.insert htable⟩
    cases label with
    | none => exact h.aliases.bindTable _ htable
    | some label => exact (h.aliases.bindTable label htable).bindTable _ htable

theorem Spelled.bind {s : Sources} (h : s.Spelled) (b : Binding) : (s.bind b).Spelled := by
  cases b with
  | table raw label => exact h.addTable raw label
  | subquery label => exact ⟨h.aliases.bindSubquery label, h.candidates⟩
  | target raw => exact h

theorem Spelled.bindTarget {s : Sources} (h : s.Spelled) (b : Binding) : (s.bindTarget b).Spelled := by
  cases b with
  | table raw label => exact h
  | subquery label => exact h
  | target raw =>
    rw [Sources.bindTarget]
    split
    · rename_i t ht
      exact ⟨h.aliases, h.insert (h.aliases.target? ht)⟩
    · exact h
    · exact h.addTable raw none

theorem spelled_sources (toks : List Token) : (sources toks).Spelled := by
  rw [sources]
  refine List.foldlRecOn _ _ ?_ fun _ hs b _ => hs.bindTarget b
  refine List.foldlRecOn _ _ ?_ fun _ hs b _ => hs.bind b
  exact ⟨List.foldlRecOn _ _ AliasMap.spelled_empty fun _ hm name _ => hm.bindSubquery name, nofun⟩

/-! ### Candidates are a set -/

theorem ascending_addTable {s : Sources} (h : s.candidates.Ascending) (raw : List Char)
    (label : Option (List Char)) : (s.addTable raw label).candidates.Ascending := by
  unfold Sources.addTable
  simp only
  split
  · exact h
  · exact h.insert _

theorem ascending_bind {s : Sources} (h : s.candidates.Ascending) (b : Binding) :
    (s.bind b).candidates.Ascending := by
  cases b with
  | table raw label => exact ascending_addTable h raw label
  | subquery label => exact h
  | target raw => exact h

theorem ascending_bindTarget {s : Sources} (h : s.candidates.Ascending) (b : Binding) :
    (s.bindTarget b).candidates.Ascending := by
  cases b with
  | table raw label => exact h
  | subquery label => exact h
  | target raw =>
    rw [Sources.bindTarget]
    split
    · exact h.insert _
    · exact h
    · exact ascending_addTable h raw none

theorem ascending_sources (toks : List Token) : (sources toks).candidates.Ascending := by
  rw [sources]
  refine List.foldlRecOn (motive := fun s : Sources => s.candidates.Ascending) _ _ ?_
    fun _ hs b _ => ascending_bindTarget hs b
  refine List.foldlRecOn (motive := fun s : Sources => s.candidates.Ascending) _ _ ?_
    fun _ hs b _ => ascending_bind hs b
  exact NameSet.ascending_nil

end Clause.Sources

namespace Routine

def Spelled (r : Routine) : Prop := ∀ v ∈ r.parameters ++ r.usages, v.name.IsSpelled

theorem isSpelled_header {prev : Token} {depth : Nat} {ls : List Lexeme} {v : Variable}
    (h : v ∈ (header prev depth ls).1) : v.name.IsSpelled := by
  induction ls generalizing prev depth with
  | nil => cases h
  | cons l ls ih =>
    rw [header] at h
    simp only at h
    split at h
    · cases h
    · split at h
      · rcases List.mem_cons.mp h with rfl | h
        · exact Name.isSpelled_ofChars _
        · exact ih h
      · exact ih h

theorem spelled_ofSegment (kind : RoutineKind) (lead : Nat) (ls : List Lexeme) :
    (ofSegment kind lead ls).Spelled := by
  intro v hv
  rcases List.mem_append.mp hv with hv | hv
  · exact isSpelled_header hv
  · obtain ⟨l, _, rfl⟩ := List.mem_map.mp (List.mem_of_mem_filter hv)
    exact Name.isSpelled_ofChars _

theorem spelled_of_mem_all {separates : Lexeme → Bool} {ls : List Lexeme} {r : Routine}
    (h : r ∈ all separates ls) : r.Spelled := by
  obtain ⟨⟨boundary, segment⟩, _, hr⟩ := List.mem_filterMap.mp h
  cases boundary with
  | other => cases hr
  | routine kind lead =>
    cases hr
    exact spelled_ofSegment kind lead segment

end Routine

namespace FileScopes

structure Spelled (f : FileScopes) : Prop where
  aliases : f.aliases.Spelled
  scopes : ∀ s ∈ f.statements, s.aliases.Spelled ∧ ∀ t ∈ s.candidates, t.IsSpelled
  routines : ∀ r ∈ f.routines, r.Spelled

theorem mem_of_scopeAt? {f : FileScopes} {offset : Nat} {s : StatementScope}
    (h : f.scopeAt? offset = some s) : s ∈ f.statements := by
  obtain ⟨hlast, _⟩ := Option.filter_eq_some_iff.mp h
  exact (List.takeWhile_sublist _).subset (List.mem_of_getLast? hlast)

theorem spelled_ofText (cs : List Char) : (ofText cs).Spelled := by
  have hscopes : ∀ s ∈ (ofText cs).statements,
      s.aliases.Spelled ∧ ∀ t ∈ s.candidates, t.IsSpelled := by
    intro s hs
    obtain ⟨ls, _, rfl⟩ := List.mem_map.mp hs
    have h := Clause.Sources.spelled_sources (ls.map (·.token))
    exact ⟨h.aliases, h.candidates⟩
  refine ⟨?_, hscopes, fun r => Routine.spelled_of_mem_all⟩
  exact List.foldlRecOn _ _ AliasMap.spelled_empty fun _ hm s hs => hm.extendMissing (hscopes s hs).1

theorem ascending_candidates {cs : List Char} {s : StatementScope} (h : s ∈ (ofText cs).statements) :
    s.candidates.Ascending := by
  obtain ⟨ls, _, rfl⟩ := List.mem_map.mp h
  exact Clause.Sources.ascending_sources _

end FileScopes

end SqlAtlas
