import SqlAtlas.Proofs.Workspace.Account
import SqlAtlas.Proofs.Workspace.Foresight

/-!
# Corrections do not depend on their schedule

When the tree of a statement is always the same, it does not matter when corrections take their
turns. Once nothing is left to do, every file has the references that were found in it last, less
those that the decisions dismiss.
-/

namespace SqlAtlas

set_option autoImplicit false

open Workspace SymbolIndex

namespace Execution

/-! ### Decisions -/

/-- The decision about an ambiguity where trees are a function of the statement. Without workers
there is no tree. -/
def decision (parse : Dialect → List Char → Option Tree) (s : Settings) (a : Ambiguity) : Decision :=
  disambiguate (if 0 < s.parse.poolSize then parse s.parse.dialect a.statement else none) a.column
    a.aliases a.candidates

def Fixed (parse : Dialect → List Char → Option Tree) : Answers :=
  fun dialect text tree => tree = parse dialect text

theorem decides_fixed_iff {parse : Dialect → List Char → Option Tree} {s : Settings} {a : Ambiguity}
    {d : Decision} : Decides (Fixed parse) s a d ↔ d = decision parse s a := by
  rw [Decides, decision]
  split
  · constructor
    · rintro ⟨tree, rfl, rfl⟩
      rfl
    · intro h
      exact ⟨_, rfl, h.symm⟩
  · exact Iff.rfl

end Execution

/-- Whether a decision dismisses a reference: it keeps a provisional one of the same ambiguity, and
not this one. -/
def Ambiguity.dismisses (uri : String) (d : Decision) (a : Ambiguity) (r : Reference) : Bool :=
  match d with
  | .accepted keep => decide (keep ∈ a.provisional ∧ r ∈ a.provisionalReferences uri ∧
      r.name ≠ Name.qualified keep a.column)
  | _ => false

def Extraction.settledReferences (uri : String) (decision : Ambiguity → Decision) (x : Extraction) :
    List Reference :=
  x.references.filter fun r => !x.ambiguities.any fun a => a.dismisses uri (decision a) r

theorem Ambiguity.dismisses_iff {uri : String} {d : Decision} {a : Ambiguity} {r : Reference} :
    a.dismisses uri d r = true ↔ ∃ keep, d = .accepted keep ∧ keep ∈ a.provisional ∧
      r ∈ a.provisionalReferences uri ∧ r.name ≠ Name.qualified keep a.column := by
  cases d with
  | accepted keep => simp [dismisses]
  | rejected table => simp [dismisses]
  | inconclusive => simp [dismisses]

/-- Once no correction is left, the references of a file to a name are those that no decision
dismisses. -/
theorem Record.Tracked.referencesTo_settled {decision : Ambiguity → Decision} {r : Record}
    (h : Tracked (fun a d => d = decision a) r) (hn : Numbered r) (hjobs : r.jobs = [])
    {uri : String} {generation : Nat} {x : Extraction} (hcurrent : Current r uri generation x)
    (name : Name) : r.index.referencesTo uri name =
      (x.settledReferences uri decision).filter (·.name = name) := by
  rw [h.content hcurrent, Extraction.settledReferences, List.filter_filter]
  apply List.filter_congr
  intro ref href
  refine congrArg (decide (ref.name = name) && !·) (Bool.eq_iff_iff.mpr ?_)
  rw [h.retracts_iff hn hcurrent href, List.any_eq_true]
  constructor
  · rintro ⟨a, ha, keep, happlied, hprovisional, hother⟩
    obtain ⟨hkeep, hd⟩ := h.kept happlied
    exact ⟨a, ha, Ambiguity.dismisses_iff.mpr ⟨keep, hd.symm, hkeep, hprovisional, hother⟩⟩
  · rintro ⟨a, ha, hdismisses⟩
    obtain ⟨keep, hd, hkeep, hprovisional, hother⟩ := Ambiguity.dismisses_iff.mp hdismisses
    rcases h.settled hcurrent a ha with hjob | ⟨keep', happlied⟩ | ⟨d, rfl, hno⟩
    · rw [hjobs] at hjob
      cases hjob
    · have hd' : Decision.accepted keep' = decision a := (h.kept happlied).2
      cases hd'.trans hd
      exact ⟨a, ha, keep, happlied, hprovisional, hother⟩
    · exact absurd hd (hno keep hkeep)

theorem SymbolIndex.Consistent.referencesInFile_perm {x : SymbolIndex} (h : Consistent x)
    {uri : String} {refs : List Reference}
    (hrefs : ∀ name, x.referencesTo uri name = refs.filter (·.name = name)) :
    (x.referencesInFile uri).Perm refs := by
  rw [List.perm_iff_count]
  intro r
  have hone : ∀ l : List Reference, l.count r = (l.filter (·.name = r.name)).count r :=
    fun l => (List.count_filter (by simp)).symm
  rw [hone, (h.referencesInFile_filter_perm uri r.name).count_eq, hrefs, ← hone]

namespace Execution

theorem jobs_of_idle {e : Execution} (h : e.Idle) : e.jobs = [] := by
  obtain ⟨hcallers, hscheduled, hbegun, hanswered⟩ := h
  rw [jobs, underway, hscheduled, hbegun, hanswered, List.flatten_eq_nil_iff.mpr hcallers]
  rfl

/-- Where every statement has one tree, and one caller performs some operations while corrections
take their turns in any order: once nothing is left to do, every file has been indexed in its
current generation, which is its last, and has the references that were found, less those that the
decisions dismiss. Every other execution of the same operations that has nothing left to do has the
same files, definitions, references, aliases and columns. -/
theorem corrections_commute {settings : Settings} {w : Workspace}
    (hw : ofSettings settings = .ok w) (parse : Dialect → List Char → Option Tree)
    (ops : List Operation) {e : Execution} (he : Reachable (Fixed parse) (ofCallers w [ops]) e)
    (hidle : e.Idle) :
    (∀ uri generation, e.workspace.index.generation? uri = some generation →
      ∃ x, .indexed uri generation x ∈ e.events ∧
        (∀ generation' x', .indexed uri generation' x' ∈ e.events → generation' ≤ generation) ∧
        (e.workspace.index.referencesInFile uri).Perm
          (x.settledReferences uri (decision parse settings))) ∧
    ∀ e', Reachable (Fixed parse) (ofCallers w [ops]) e' → e'.Idle →
      e.workspace.index.columns = e'.workspace.index.columns ∧
      ∀ uri, e.workspace.index.generation? uri = e'.workspace.index.generation? uri ∧
        e.workspace.index.symbolsInFile uri = e'.workspace.index.symbolsInFile uri ∧
        e.workspace.index.referencesInFile uri = e'.workspace.index.referencesInFile uri ∧
        e.workspace.index.aliasesForFile? uri = e'.workspace.index.aliasesForFile? uri := by
  have hdecides : Decides (Fixed parse) settings = fun a d => d = decision parse settings a := by
    funext a d
    exact propext decides_fixed_iff
  have hend : ∀ {f : Execution}, Reachable (Fixed parse) (ofCallers w [ops]) f → f.Idle →
      f.record.Numbered ∧ Consistent f.workspace.index ∧
        ∀ uri generation, f.workspace.index.generation? uri = some generation →
          ∃ x, .indexed uri generation x ∈ f.events ∧ ∀ name,
            f.workspace.index.referencesTo uri name =
              (x.settledReferences uri (decision parse settings)).filter (·.name = name) := by
    intro f hf hfidle
    obtain ⟨hn, ht⟩ := hf.accounted hw
    rw [hdecides] at ht
    refine ⟨hn, ht.consistent, fun uri generation hlive => ?_⟩
    rcases (hf.promised (promised_ofCallers hw [ops])).2 uri generation hlive with
      ⟨x, hx⟩ | ⟨ts, hts, text, htext⟩
    · exact ⟨x, hx, ht.referencesTo_settled hn (jobs_of_idle hfidle) ⟨hx, hlive⟩⟩
    · rw [hfidle.1 ts hts] at htext
      cases htext
  obtain ⟨hn, hconsistent, hlast⟩ := hend he hidle
  refine ⟨fun uri generation hlive => ?_, fun e' he' hidle' => ?_⟩
  · obtain ⟨x, hx, hrefs⟩ := hlast uri generation hlive
    exact ⟨x, hx, fun _ _ hx' => hn.latest hlive hx', hconsistent.referencesInFile_perm hrefs⟩
  · obtain ⟨hn', hconsistent', hlast'⟩ := hend he' hidle'
    obtain ⟨hskeleton, hindexings⟩ := skeleton_unique he he' hidle hidle'
    have hgeneration : ∀ uri, e.workspace.index.generation? uri = e'.workspace.index.generation? uri :=
      fun uri => congrArg (·.generation? uri) hskeleton
    have hreferences : ∀ uri name, e.workspace.index.referencesTo uri name =
        e'.workspace.index.referencesTo uri name := by
      intro uri name
      cases hlive : e.workspace.index.generation? uri with
      | none =>
        rw [hconsistent.referencesTo_of_unknown hlive,
          hconsistent'.referencesTo_of_unknown (hgeneration uri ▸ hlive)]
      | some generation =>
        obtain ⟨x, hx, hrefs⟩ := hlast uri generation hlive
        obtain ⟨x', hx', hrefs'⟩ := hlast' uri generation (hgeneration uri ▸ hlive)
        have hmem : .indexed uri generation x' ∈ e.events.filter Event.isIndexing := by
          rw [hindexings]
          exact List.mem_filter.mpr ⟨hx', rfl⟩
        obtain ⟨_, rfl⟩ := hn.once hx (List.mem_of_mem_filter hmem)
        rw [hrefs, hrefs']
    refine ⟨congrArg (·.columns) hskeleton, fun uri => ⟨hgeneration uri,
      congrArg (·.symbolsInFile uri) hskeleton, ?_, congrArg (·.aliasesForFile? uri) hskeleton⟩⟩
    have hnames : e.workspace.index.namesByFile = e'.workspace.index.namesByFile :=
      congrArg (·.namesByFile) hskeleton
    rw [referencesInFile, referencesInFile, hnames, funext (hreferences uri)]

/-- The correction of an update may come before the schema is taken out, or after it. -/
theorem corrections_commute_update :
    let start := ofCallers ⟨{}, [], {}, {}, [], []⟩
      [[.indexFile "s.sql" sampleSchema, .indexFile "q.sql" sampleUpdate, .deindexFile "s.sql"]]
    let early := start.run [.call 0, .call 0, .call 0, .begin 0, .answer 0 (some sampleTree), .finish 0,
      .call 0]
    let late := start.run [.call 0, .call 0, .call 0, .call 0, .begin 0, .answer 0 (some sampleTree),
      .finish 0]
    (early.Idle ∧ early.workspace.index.generation? "q.sql" = some 2) ∧ late.Idle ∧
      (∃ x, .indexed "q.sql" 2 x ∈ early.events ∧
        (early.workspace.index.referencesInFile "q.sql").Perm
          (x.settledReferences "q.sql" (decision (fun _ _ => some sampleTree) {}))) ∧
      ∀ uri, early.workspace.index.referencesInFile uri = late.workspace.index.referencesInFile uri := by
  intro start early late
  have hsettings : ofSettings {} = .ok ⟨{}, [], {}, {}, [], []⟩ := rfl
  have hearly : early.Idle ∧ early.workspace.index.generation? "q.sql" = some 2 := by decide +kernel
  have hlate : late.Idle := by decide +kernel
  have hreach : Reachable (Fixed fun _ _ => some sampleTree) start early :=
    reachable_run start (by simp [Move.Faithful, Fixed])
  have hreach' : Reachable (Fixed fun _ _ => some sampleTree) start late :=
    reachable_run start (by simp [Move.Faithful, Fixed])
  obtain ⟨hlast, hsame⟩ := corrections_commute hsettings _ _ hreach hearly.1
  obtain ⟨x, hx, _, hperm⟩ := hlast "q.sql" 2 hearly.2
  exact ⟨hearly, hlate, ⟨x, hx, hperm⟩, fun uri => ((hsame late hreach' hlate).2 uri).2.2.1⟩

end Execution

end SqlAtlas
