import UpgradeSafety.Proofs.Import.Imported
import UpgradeSafety.Validation.Run

/-!
# Layouts of a validation run

Every layout of a validation run was imported with the definition of its contract and the sources
at hand, so all that is known of imported layouts holds of the layouts of a run
(`ValidationRun.imported_ofBuild`).

The invariant of a run is that all layouts that are known so far are imported. What the compiler
says about a contract adds none, completing a contract by its definition adds the imported one and
nothing else, and entering the names of bases and libraries leaves layouts as they are. So the
invariant is passed through the loops of a run, over definitions, contracts and source files, as a
predicate on what a reading returns; runs that fail need not be looked at.

With the sources at hand every place that a decoder names is known (`locates_locate`), and this is
what makes the variables of a layout survive being written and read back.
-/

namespace UpgradeSafety

open Syntax

/-- The places of nodes in sources are known. -/
theorem locates_locate (sources : Sources) : Locates sources.locate := by
  intro node place h
  unfold Sources.locate at h
  obtain ⟨src, -, h⟩ := bind_eq_ok_iff.mp h
  split at h
  · obtain ⟨span, -, h⟩ := bind_eq_ok_iff.mp h
    obtain ⟨⟨name, content⟩, -, h⟩ := bind_eq_ok_iff.mp h
    cases h
    simp
  · cases h

namespace ValidationRun

variable {build : Import.Build} {locate : Locate}

/-- All layouts of a run are imported. -/
def Imported (run : ValidationRun) : Prop := ∀ e ∈ run, ∀ l ∈ e.2.layout, l.Imported

theorem Imported.putField {run : ValidationRun} (h : Imported run) (key : String)
    {record : ContractRecord} (hrecord : ∀ l ∈ record.layout, l.Imported) :
    Imported (UpgradeSafety.putField key record run) := by
  intro e he
  rcases mem_putField he with rfl | he
  · exact hrecord
  · exact h e he

theorem layout_compiled {name : String} {data : Json} {record : ContractRecord}
    (h : compiled build name data = .ok record) : record.layout = none := by
  unfold compiled at h
  obtain ⟨code, -, h⟩ := bind_eq_ok_iff.mp h
  obtain ⟨bytecode, -, h⟩ := bind_eq_ok_iff.mp h
  have hrecord {x : Except Failure (Option Bytecode.Version)}
      (h : (x >>= fun version => pure
        ({ name, src := name, version, solcVersion := build.solcVersion } : ContractRecord)) =
          .ok record) : record.layout = none := by
    obtain ⟨version, -, h⟩ := bind_eq_ok_iff.mp h
    cases h
    rfl
  dsimp only at h
  split at h <;> split at h
  · exact hrecord h
  · exact hrecord h
  · exact hrecord h
  · exact hrecord h

theorem yields_complete (hlocate : Locates locate) (definition : Json) {data : Json}
    (hdata : data.IsTidy) {record : ContractRecord} (hrecord : ∀ l ∈ record.layout, l.Imported) :
    Yields (complete build locate definition data record)
      fun record => ∀ l ∈ record.layout, l.Imported := by
  unfold complete
  refine .bind (.any _) fun bytecode _ => .bind (.any _) fun src _ => .bind (.any _) fun errors _ =>
    .bind (.any _) fun methods _ => .bind (.lift fun raw hraw => hdata.get hraw) fun raw hraw => ?_
  dsimp only
  split
  · exact .pure hrecord
  · refine .bind (Import.yields_layout hraw hlocate definition build.solcVersion)
      fun layout hlayout => .pure ?_
    rintro l hl
    cases hl
    exact hlayout

theorem yields_takeDefinition (hlocate : Locates locate) (source : String) {contracts : Json}
    (hcontracts : contracts.IsTidy) {p : Progress} (h : Imported p.run) (definition : Json) :
    Yields (takeDefinition build locate source contracts p definition)
      fun p => Imported p.run := by
  unfold takeDefinition
  refine .bind (.any _) fun name _ => .bind (.any _) fun id _ => ?_
  dsimp only
  split
  · exact .bind (P := fun _ => False) (.throw _) fun _ hfalse => hfalse.elim
  · cases name with
    | str name =>
      refine .bind (.lift fun data hdata => hcontracts.get hdata) fun data hdata => ?_
      split
      · exact .pure h
      · exact .pure h
      · rename_i record _ hrecord
        refine .bind (.any _) fun bases _ => .bind (.any _) fun libraries _ =>
          .bind (yields_complete hlocate definition hdata (h _ (mem_of_lookup_eq_some hrecord)))
            fun record hrecord => .pure (h.putField _ hrecord)
    -- what has no text for a name is not compiled
    | null | bool | int | float | arr | obj =>
      refine .bind (P := (· = Json.null)) (.pure rfl) ?_
      rintro data rfl
      exact .pure h

theorem yields_takeDefinitions (hlocate : Locates locate) (source : String) {contracts : Json}
    (hcontracts : contracts.IsTidy) {p : Progress} (h : Imported p.run) (tree : Json) :
    Yields (takeDefinitions build locate source contracts p tree) fun p => Imported p.run := by
  unfold takeDefinitions
  refine .bind (P := fun p : Progress => Imported p.run) (.foldlM (fun p definition _ hp =>
    yields_takeDefinition hlocate source hcontracts hp definition) h) fun p hp => ?_
  split
  · exact .throw _
  · exact .pure hp

theorem yields_takeSource (hlocate : Locates locate) (source : String) {contracts : Json}
    (hcontracts : contracts.IsTidy) {p : Progress} (h : Imported p.run) :
    Yields (takeSource build locate p source contracts) fun p => Imported p.run := by
  unfold takeSource
  refine .bind (.any _) fun entries _ => .bind (.foldlM (Q := Imported) ?_ h) fun run hrun =>
    .bind (.any _) fun tree _ => ?_
  · rintro run ⟨name, data⟩ - hrun
    refine .bind (.lift fun record hrecord => layout_compiled hrecord) fun record hrecord =>
      .pure (hrun.putField _ ?_)
    rw [hrecord]
    exact nofun
  · split
    · exact .pure hrun
    · exact yields_takeDefinitions hlocate source hcontracts hrun _

theorem imported_resolveAll {names : List (Json × String)}
    {set : List String → ContractRecord → ContractRecord}
    {references : List (String × List Json)} {run run' : ValidationRun}
    (h : resolveAll names set references run = .ok run')
    (hset : ∀ found record, (set found record).layout = record.layout) (hrun : Imported run) :
    Imported run' := by
  unfold resolveAll at h
  induction references generalizing run with
  | nil =>
    cases h
    exact hrun
  | cons reference references ih =>
    rw [List.foldlM_cons] at h
    obtain ⟨next, hnext, h⟩ := bind_eq_ok_iff.mp h
    obtain ⟨found, -, hnext⟩ := bind_eq_ok_iff.mp hnext
    cases hnext
    refine ih h fun e he => ?_
    obtain ⟨former, hformer, rfl⟩ := List.mem_map.mp he
    dsimp only
    split
    · rw [hset]
      exact hrun former hformer
    · exact hrun former hformer

/-- The layouts of a run are imported. -/
theorem imported_ofBuild {v : Json} {run : ValidationRun} {notes : List Log.Record}
    (h : ofBuild v = .ok (run, notes)) (htidy : v.IsTidy) : Imported run := by
  unfold ofBuild at h
  obtain ⟨build, hbuild, h⟩ := bind_eq_ok_iff.mp h
  obtain ⟨nodes, -, h⟩ := bind_eq_ok_iff.mp h
  obtain ⟨sources, -, h⟩ := bind_eq_ok_iff.mp h
  obtain ⟨contracts, hcontracts, h⟩ := bind_eq_ok_iff.mp h
  obtain ⟨bySource, hbySource, h⟩ := bind_eq_ok_iff.mp h
  obtain ⟨⟨p, nodes'⟩, hp, h⟩ := bind_eq_ok_iff.mp h
  obtain ⟨based, hbased, h⟩ := bind_eq_ok_iff.mp h
  obtain ⟨run', hrun', h⟩ := bind_eq_ok_iff.mp h
  cases h
  have houtput : build.output.IsTidy := by
    unfold Import.Build.ofJson at hbuild
    split at hbuild
    · rename_i houtput
      cases hbuild
      exact htidy.field? houtput
    · cases hbuild
  have hsources := (houtput.getOr .emptyObj hcontracts).entries hbySource
  have himported : Imported p.run :=
    Yields.foldlM (Q := fun p : Progress => Imported p.run) (fun p source hsource hp =>
      yields_takeSource (locates_locate sources) source.1 (hsources source hsource) hp)
      (fun e he => by cases he) nodes p nodes' hp
  exact imported_resolveAll hrun' (fun _ _ => rfl)
    (imported_resolveAll hbased (fun _ _ => rfl) himported)

end ValidationRun

end UpgradeSafety
