import UpgradeSafety.Proofs.Import.Layouts
import UpgradeSafety.Proofs.Validation.Imported

/-!
# What a source file adds to a run

A validation run takes up the source files of a build one by one, and the definitions in the tree
of a source file in document order. A definition notes its id, and if its contract was compiled, it
completes what is known of the contract (`Taken`). So the last definition of a contract counts
(`completed_takeSource`), and nothing else changes what is known of it (`yields_takeSource_other`).

Taking up a definition is written as a sequence of small changes of the state, noting an id and
putting a record (`takeDefinition_eq`), and a statement about a single contract goes through these
by asking under which key a record is put (`SameAt`). That its key is that of a compiled contract
of the same source file is what keeps source files apart.

All of it learns about the trees by lookups alone (`reads_takeSource`), so the results on the order
of lookups and of trees apply to whole runs.
-/

namespace UpgradeSafety

open Syntax

theorem Syntax.Gives.yields {α : Type} {trees : List Json} {x : Reading α} {a : α} {P : α → Prop}
    (h : Gives trees x a) (hx : Yields x P) : P a := by
  obtain ⟨s, s', -, h⟩ := h
  exact hx s a s' h

/-- The contract definitions in a tree. -/
def contractsIn (tree : Json) : List Json :=
  (objects [tree]).filter (hasType ["ContractDefinition"])

namespace ValidationRun

variable {v : Json} {build : Import.Build} {locate : Locate} {trees : List Json}
  {source key name : String} {contracts tree definition data : Json} {p p' : Progress}
  {run run' : ValidationRun} {record record' : ContractRecord}

/-! ## Definitions -/

/-- What the compiler says about a contract, `null` when it says nothing. -/
def compiledData (contracts : Json) : Json → Except Failure Json
  | .str s => contracts.get s
  | _ => pure .null

/-- Completes a record by a definition, and notes what the definition refers to. -/
def takeReferences (build : Import.Build) (locate : Locate) (key : String) (definition data : Json)
    (p : Progress) (record : ContractRecord) : Reading Progress := do
  let bases ← baseIds definition
  let libraries ← libraryIds definition
  let record ← complete build locate definition data record
  return { run := putField key record p.run
           references := {
            p.references with
            bases := putField key bases p.references.bases
            libraries := putField key libraries p.references.libraries } }

/-- Takes up a definition of a contract that was compiled. -/
def takeCompiled (build : Import.Build) (locate : Locate) (key : String) (definition data : Json)
    (p : Progress) : Reading Progress :=
  match data, p.run.lookup key with
  | .null, _ | _, none => return p
  | data, some record => takeReferences build locate key definition data p record

theorem takeDefinition_eq (build : Import.Build) (locate : Locate) (source : String) (contracts : Json)
    (p : Progress) (definition : Json) :
    takeDefinition build locate source contracts p definition = (do
      let name ← definition.need "name"
      let id ← definition.need "id"
      if !id.hashable || !name.hashable then throw (.fault .wrongSort)
      let data ← compiledData contracts name
      takeCompiled build locate (source ++ ":" ++ name.display) definition data
        { p with references.names := (id, source ++ ":" ++ name.display) :: p.references.names }) := by
  unfold takeDefinition
  refine bind_congr fun name => bind_congr fun id => ?_
  cases name <;> rfl

theorem reads_complete (definition data : Json) (record : ContractRecord) :
    Reads (complete build locate definition data record) := by
  unfold complete
  refine .bind (.lift _) fun bytecode => .bind (.lift _) fun src => .bind (.lift _) fun errors =>
    .bind (.lift _) fun methods => .bind (.lift _) fun raw => ?_
  dsimp only
  split
  · exact .pure _
  · exact .bind (Import.reads_layout _ _ _ _) fun layout => .pure _

theorem reads_takeReferences (p : Progress) (record : ContractRecord) :
    Reads (takeReferences build locate key definition data p record) :=
  .bind (.lift _) fun _ => .bind (.lift _) fun _ => .bind (reads_complete _ _ _) fun _ => .pure _

theorem reads_takeCompiled (p : Progress) :
    Reads (takeCompiled build locate key definition data p) := by
  unfold takeCompiled
  split
  · exact .pure _
  · exact .pure _
  · exact reads_takeReferences _ _

theorem reads_takeDefinition (p : Progress) (definition : Json) :
    Reads (takeDefinition build locate source contracts p definition) := by
  rw [takeDefinition_eq]
  refine .bind (.lift _) fun name => .bind (.lift _) fun id => ?_
  have htake : Reads (do
      let data ← (compiledData contracts name : Except Failure Json)
      takeCompiled build locate (source ++ ":" ++ name.display) definition data
        { p with references.names := (id, source ++ ":" ++ name.display) :: p.references.names }) :=
    .bind (.lift _) fun data => reads_takeCompiled _
  split
  · exact .bind (.throw _) fun _ => htake
  · exact htake

theorem reads_takeDefinitions (p : Progress) (tree : Json) :
    Reads (takeDefinitions build locate source contracts p tree) := by
  unfold takeDefinitions
  refine .bind (.foldlM reads_takeDefinition _ _) fun p => ?_
  split
  · exact .throw _
  · exact .pure _

theorem reads_takeSource (p : Progress) (source : String) (contracts : Json) :
    Reads (takeSource build locate p source contracts) := by
  unfold takeSource
  refine .bind (.lift _) fun entries => .bind (.foldlM (fun run entry => ?_) _ _) fun run =>
    .bind (.lift _) fun tree => ?_
  · exact .bind (.lift _) fun record => .pure _
  · split
    · exact .pure _
    · exact reads_takeDefinitions _ _

/-! ## Steps -/

/-- The id of a definition with the qualified name of its contract. -/
def nameEntry (source : String) (definition : Json) : Json × String :=
  (definition.field "id", source ++ ":" ++ (definition.field "name").display)

namespace Progress

/-- Notes the id of a definition. -/
def note (source : String) (definition : Json) (p : Progress) : Progress :=
  { p with references.names := nameEntry source definition :: p.references.names }

/-- Enters what is known of a contract. -/
def put (key : String) (record : ContractRecord) (bases libraries : List Json) (p : Progress) :
    Progress :=
  { run := putField key record p.run
    references := {
      p.references with
      bases := putField key bases p.references.bases
      libraries := putField key libraries p.references.libraries } }

/-- At two stages of a run the same is known of a contract. -/
structure SameAt (key : String) (p p' : Progress) : Prop where
  run : p'.run.lookup key = p.run.lookup key
  bases : p'.references.bases.lookup key = p.references.bases.lookup key
  libraries : p'.references.libraries.lookup key = p.references.libraries.lookup key

theorem SameAt.trans {p'' : Progress} (h : SameAt key p p') (h' : SameAt key p' p'') :
    SameAt key p p'' :=
  ⟨h'.run.trans h.run, h'.bases.trans h.bases, h'.libraries.trans h.libraries⟩

theorem sameAt_put {bases libraries : List Json} {other : String} (h : key ≠ other) :
    SameAt key p (p.put other record bases libraries) :=
  ⟨lookup_putField_other h, lookup_putField_other h, lookup_putField_other h⟩

/-- No contract is listed twice. -/
structure Keyed (p : Progress) : Prop where
  run : (p.run.map (·.1)).Nodup
  bases : (p.references.bases.map (·.1)).Nodup
  libraries : (p.references.libraries.map (·.1)).Nodup

theorem Keyed.put {bases libraries : List Json} (h : p.Keyed) :
    (p.put key record bases libraries).Keyed :=
  ⟨nodup_putField h.run, nodup_putField h.bases, nodup_putField h.libraries⟩

end Progress

/-- What taking up a definition may do: it notes the id, and completes a contract that was compiled. -/
inductive Taken (source : String) (contracts definition : Json) (p : Progress) : Progress → Prop where
  | noted : Taken source contracts definition p (p.note source definition)
  | completed {name : String} (record : ContractRecord) (bases libraries : List Json)
      (hname : definition.field "name" = .str name) (hdata : contracts.field name ≠ .null) :
      Taken source contracts definition p
        ((p.note source definition).put (source ++ ":" ++ name) record bases libraries)

theorem yields_takeCompiled (p : Progress) :
    Yields (takeCompiled build locate key definition data p) fun p' =>
      p' = p ∨ data ≠ .null ∧ ∃ record bases libraries, p' = p.put key record bases libraries := by
  unfold takeCompiled
  split
  · exact .pure (Or.inl rfl)
  · exact .pure (Or.inl rfl)
  · rename_i hdata _
    exact .bind (.any _) fun bases _ => .bind (.any _) fun libraries _ => .bind (.any _)
      fun record _ => .pure (Or.inr ⟨hdata, record, bases, libraries, rfl⟩)

theorem taken_takeDefinition (p : Progress) :
    Yields (takeDefinition build locate source contracts p definition)
      (Taken source contracts definition p) := by
  rw [takeDefinition_eq]
  refine .bind (.lift fun name hname => hname) fun name hname =>
    .bind (.lift fun id hid => hid) fun id hid => ?_
  have hentry : (id, source ++ ":" ++ name.display) = nameEntry source definition := by
    rw [nameEntry, Json.field, Json.field, field?_of_need hname, field?_of_need hid]
    rfl
  rw [hentry]
  split
  · exact .bind (P := fun _ => False) (.throw _) fun _ hfalse => hfalse.elim
  · refine .bind (.lift fun data hdata => hdata) fun data hdata =>
      (yields_takeCompiled _).imp fun p' hp' => ?_
    rcases hp' with rfl | ⟨hnull, record, bases, libraries, rfl⟩
    · exact .noted
    · cases name with
      | str name =>
        have hfield : definition.field "name" = .str name := by
          rw [Json.field, field?_of_need hname]
          rfl
        exact .completed record bases libraries hfield (eq_field_of_get hdata ▸ hnull)
      | null | bool _ | int _ | float _ | arr _ | obj _ =>
        cases hdata
        exact absurd rfl hnull

namespace Taken

variable (h : Taken source contracts definition p p')
include h

/-- The key under which a definition is taken up is that of a compiled contract. -/
theorem sameAt (hother : ∀ name, definition.field "name" = .str name → contracts.field name ≠ .null →
    source ++ ":" ++ name ≠ key) : p.SameAt key p' := by
  cases h with
  | noted => exact ⟨rfl, rfl, rfl⟩
  | completed record bases libraries hname hdata =>
    have hnoted : p.SameAt key (p.note source definition) := ⟨rfl, rfl, rfl⟩
    exact hnoted.trans (Progress.sameAt_put (hother _ hname hdata).symm)

/-- What is known stays known. -/
theorem isSome (hknown : (p.run.lookup key).isSome = true) :
    (p'.run.lookup key).isSome = true := by
  cases h with
  | noted => exact hknown
  | completed => exact isSome_lookup_putField hknown

theorem names : p'.references.names = nameEntry source definition :: p.references.names := by
  cases h <;> rfl

theorem keyed (hp : p.Keyed) : p'.Keyed := by
  cases h with
  | noted => exact ⟨hp.run, hp.bases, hp.libraries⟩
  | completed => exact Progress.Keyed.put ⟨hp.run, hp.bases, hp.libraries⟩

end Taken

/-! ## The definitions of a contract -/

/-- What was found in the definition of a contract. -/
structure Completes (trees : List Json) (build : Import.Build) (locate : Locate)
    (definition data : Json) (record : ContractRecord) (bases libraries : List Json) : Prop where
  record : ∃ before, Gives trees (complete build locate definition data before) record
  bases : baseIds definition = .ok bases
  libraries : libraryIds definition = .ok libraries

/-- What is known under a key is what was found in a definition. -/
def Completed (trees : List Json) (build : Import.Build) (locate : Locate)
    (definition data : Json) (key : String) (p : Progress) : Prop :=
  ∃ record bases libraries, Completes trees build locate definition data record bases libraries ∧
    p.run.lookup key = some record ∧ p.references.bases.lookup key = some bases ∧
    p.references.libraries.lookup key = some libraries

theorem Completed.sameAt (h : Completed trees build locate definition data key p)
    (hsame : p.SameAt key p') : Completed trees build locate definition data key p' := by
  obtain ⟨record, bases, libraries, hcompletes, hrecord, hbases, hlibraries⟩ := h
  exact ⟨record, bases, libraries, hcompletes, hsame.run.trans hrecord, hsame.bases.trans hbases,
    hsame.libraries.trans hlibraries⟩

/-- The definition of a compiled contract that is known. -/
theorem completed_takeCompiled (h : UniqueIds trees) (hdata : data ≠ .null)
    (hknown : (p.run.lookup key).isSome = true)
    (htaken : Gives trees (takeCompiled build locate key definition data p) p') :
    Completed trees build locate definition data key p' := by
  unfold takeCompiled at htaken
  split at htaken
  · exact absurd rfl hdata
  · rename_i hnone
    rw [hnone] at hknown
    cases hknown
  · obtain ⟨bases, hbases, htaken⟩ := htaken.of_lift_bind
    obtain ⟨libraries, hlibraries, htaken⟩ := htaken.of_lift_bind
    obtain ⟨record, hrecord, htaken⟩ := htaken.of_bind ((reads_complete _ _ _).determined h)
    obtain rfl := htaken.of_pure
    exact ⟨record, bases, libraries, ⟨⟨_, hrecord⟩, hbases, hlibraries⟩, lookup_putField_self,
      lookup_putField_self, lookup_putField_self⟩

theorem completed_takeDefinition (h : UniqueIds trees) (hname : definition.field "name" = .str name)
    (hfield : contracts.field name = data) (hdata : data ≠ .null)
    (hknown : (p.run.lookup (source ++ ":" ++ name)).isSome = true)
    (htaken : Gives trees (takeDefinition build locate source contracts p definition) p') :
    Completed trees build locate definition data (source ++ ":" ++ name) p' := by
  rw [takeDefinition_eq] at htaken
  obtain ⟨found, hfound, htaken⟩ := htaken.of_lift_bind
  obtain rfl : found = .str name := by
    rw [← hname, Json.field, field?_of_need hfound]
    rfl
  obtain ⟨id, -, htaken⟩ := htaken.of_lift_bind
  split at htaken
  · obtain ⟨_, hthrow, -⟩ := htaken.of_bind (.throw _)
    exact absurd hthrow Gives.not_throw
  · obtain ⟨found, hfound, htaken⟩ := htaken.of_lift_bind
    obtain rfl : found = data := (eq_field_of_get hfound).trans hfield
    exact completed_takeCompiled h hdata (by exact hknown) htaken

/-- The definitions in a tree complete a contract by its last definition. -/
theorem completed_takeDefinitions (h : UniqueIds trees) {d : Json}
    (hd : definitionIn? tree name = some d) (hfield : contracts.field name = data)
    (hdata : data ≠ .null) (hknown : (p.run.lookup (source ++ ":" ++ name)).isSome = true)
    (htaken : Gives trees (takeDefinitions build locate source contracts p tree) p') :
    Completed trees build locate d data (source ++ ":" ++ name) p' := by
  unfold takeDefinitions at htaken
  obtain ⟨q, hq, htaken⟩ :=
    htaken.of_bind ((Reads.foldlM reads_takeDefinition _ _).determined h)
  split at htaken
  · exact absurd htaken Gives.not_throw
  · rename_i hstop
    obtain rfl := htaken.of_pure
    obtain ⟨hname, after, before, hsplit, hafter⟩ := List.find?_eq_some_iff_append.mp hd
    rw [List.reverse_eq_iff, List.reverse_append, List.reverse_cons, List.append_assoc,
      List.singleton_append] at hsplit
    rw [nodes_search hstop, hsplit] at hq
    obtain ⟨p₁, hp₁, hq⟩ := hq.of_foldlM_append
      fun p d => (reads_takeDefinition p d).determined h
    obtain ⟨p₂, hp₂, hq⟩ := hq.of_foldlM_cons
      fun p d => (reads_takeDefinition p d).determined h
    have hknown₁ : (p₁.run.lookup (source ++ ":" ++ name)).isSome = true :=
      hp₁.yields (Yields.foldlM
        (fun p e _ hp => (taken_takeDefinition p).imp fun p' hp' => hp'.isSome hp) hknown)
    have hcompleted := completed_takeDefinition h (eq_str_of_same hname) hfield hdata hknown₁ hp₂
    refine hcompleted.sameAt (hq.yields (Yields.foldlM (Q := p₂.SameAt (source ++ ":" ++ name))
      (fun p e he hp => (taken_takeDefinition p).imp fun p' hp' => hp.trans (hp'.sameAt ?_))
      ⟨rfl, rfl, rfl⟩))
    rintro other hother - hkey
    have hdiffer := hafter e (List.mem_reverse.mp he)
    obtain rfl := (String.append_right_inj _).mp hkey
    rw [hother, Json.same_str_iff.mpr rfl] at hdiffer
    cases hdiffer

/-! ## Source files -/

theorem mem_compiledIn (h : contracts.field name ≠ .null) :
    ⟨source, name, contracts.field name⟩ ∈ compiledIn (source, contracts) := by
  cases contracts with
  | obj fields =>
    rw [Json.field, Json.field?] at h ⊢
    cases hlookup : fields.lookup name with
    | none =>
      rw [hlookup] at h
      exact absurd rfl h
    | some data => exact List.mem_map_of_mem (mem_of_lookup_eq_some hlookup)
  | null | bool _ | int _ | float _ | str _ | arr _ => exact absurd rfl h

/-- Definitions change nothing about what is not compiled in their source file. -/
theorem yields_takeDefinitions_other (p : Progress)
    (hother : ∀ c ∈ compiledIn (source, contracts), c.key ≠ key) :
    Yields (takeDefinitions build locate source contracts p tree) (p.SameAt key) := by
  unfold takeDefinitions
  refine .bind (P := p.SameAt key) (.foldlM (fun q d _ hq => ?_) ⟨rfl, rfl, rfl⟩) fun q hq => ?_
  · exact (taken_takeDefinition q).imp fun q' hq' =>
      hq.trans (hq'.sameAt fun name _ hcontract => hother _ (mem_compiledIn hcontract))
  · split
    · exact .throw _
    · exact .pure hq

/-- A source file says nothing about what is not compiled in it. -/
theorem yields_takeSource_other (p : Progress)
    (hother : ∀ c ∈ compiledIn (source, contracts), c.key ≠ key) :
    Yields (takeSource build locate p source contracts) (p.SameAt key) := by
  unfold takeSource
  refine .bind (.lift fun entries hentries => eq_fieldsOf_of_entries hentries) fun entries hentries => ?_
  refine .bind (P := fun run : ValidationRun => run.lookup key = p.run.lookup key)
    (.foldlM (fun run entry hentry hrun => ?_) rfl) fun run hrun => .bind (.any _) fun tree _ => ?_
  · refine .bind (.any _) fun record _ => .pure ?_
    rw [hentries] at hentry
    have hne : source ++ ":" ++ entry.1 ≠ key := hother _ (List.mem_map_of_mem hentry)
    rw [lookup_putField_other hne.symm, hrun]
  · split
    · exact .pure ⟨hrun, rfl, rfl⟩
    · have hcompiled : p.SameAt key { p with run } := ⟨hrun, rfl, rfl⟩
      exact (yields_takeDefinitions_other _ hother).imp fun p' hp' => hcompiled.trans hp'

/-- All contracts of a source file are known before its definitions are taken up. -/
theorem yields_compiled {entries : Fields} (hknown : (run.lookup (source ++ ":" ++ name)).isSome = true ∨
      name ∈ entries.map (·.1)) :
    Yields (entries.foldlM (fun run entry => do
        return putField (source ++ ":" ++ entry.1) (← compiled build entry.1 entry.2) run) run :
          Reading ValidationRun)
      fun run' => (run'.lookup (source ++ ":" ++ name)).isSome = true := by
  induction entries generalizing run with
  | nil => exact .pure (hknown.resolve_right List.not_mem_nil)
  | cons entry entries ih =>
    rw [List.foldlM_cons]
    refine .bind (P := fun run : ValidationRun =>
      (run.lookup (source ++ ":" ++ name)).isSome = true ∨ name ∈ entries.map (·.1)) ?_
      fun run hrun => ih hrun
    refine .bind (.any _) fun record _ => .pure ?_
    rcases hknown with hknown | hmem
    · exact Or.inl (isSome_lookup_putField hknown)
    · rcases List.mem_cons.mp hmem with rfl | hmem
      · rw [lookup_putField_self]
        exact Or.inl rfl
      · exact Or.inr hmem

/-- A source file completes each of its contracts by its last definition. -/
theorem completed_takeSource (h : UniqueIds trees) (hbuild : Import.Build.ofJson v = .ok build)
    {d : Json} (hd : definitionIn? (treeOf v source) name = some d)
    (hfield : contracts.field name = data) (hdata : data ≠ .null)
    (htaken : Gives trees (takeSource build locate p source contracts) p') :
    Completed trees build locate d data (source ++ ":" ++ name) p' := by
  unfold takeSource at htaken
  obtain ⟨entries, hentries, htaken⟩ := htaken.of_lift_bind
  obtain ⟨run, hrun, htaken⟩ := htaken.of_bind
    (.foldlM (fun _ _ => .bind (.lift _) fun _ => .pure _) _ _)
  obtain ⟨tree, htree, htaken⟩ := htaken.of_lift_bind
  obtain rfl := eq_treeOf hbuild htree
  have hname : name ∈ entries.map (·.1) := by
    rw [eq_fieldsOf_of_entries hentries]
    have hmem : (⟨source, name, contracts.field name⟩ : Compiled) ∈ compiledIn (source, contracts) :=
      mem_compiledIn (hfield ▸ hdata)
    obtain ⟨entry, hentry, heq⟩ := List.mem_map.mp hmem
    exact List.mem_map.mpr ⟨entry, hentry, congrArg Compiled.name heq⟩
  have hknown := hrun.yields (yields_compiled (Or.inr hname))
  split at htaken
  · rename_i hnull
    rw [hnull] at hd
    cases hd
  · exact completed_takeDefinitions h hd hfield hdata (by exact hknown) htaken

/-! ## Names and keys -/

/-- The ids of all definitions are noted. -/
theorem yields_takeDefinitions_names (p : Progress) :
    Yields (takeDefinitions build locate source contracts p tree) fun p' =>
      p'.references.names =
        ((contractsIn tree).map (nameEntry source)).reverse ++ p.references.names := by
  have hfold (ds : List Json) (p : Progress) :
      Yields (ds.foldlM (takeDefinition build locate source contracts) p) fun p' =>
        p'.references.names = (ds.map (nameEntry source)).reverse ++ p.references.names := by
    induction ds generalizing p with
    | nil => exact .pure rfl
    | cons d ds ih =>
      rw [List.foldlM_cons]
      refine .bind (taken_takeDefinition p) fun q hq => (ih q).imp fun p' hp' => ?_
      rw [hp', hq.names, List.map_cons, List.reverse_cons, List.append_assoc, List.singleton_append]
  unfold takeDefinitions
  dsimp only
  refine .bind (hfold _ p) fun q hq => ?_
  split
  · exact .throw _
  · rename_i hstop
    rw [nodes_search hstop] at hq
    exact .pure hq

theorem yields_takeSource_names (hbuild : Import.Build.ofJson v = .ok build) (p : Progress) :
    Yields (takeSource build locate p source contracts) fun p' =>
      p'.references.names =
        ((contractsIn (treeOf v source)).map (nameEntry source)).reverse ++ p.references.names := by
  unfold takeSource
  refine .bind (.any _) fun entries _ => .bind (.any _) fun run _ =>
    .bind (.lift fun tree htree => eq_treeOf hbuild htree) fun tree htree => ?_
  rw [← htree]
  split
  · exact .pure rfl
  · exact yields_takeDefinitions_names _

theorem yields_takeSource_keyed (hp : p.Keyed) :
    Yields (takeSource build locate p source contracts) Progress.Keyed := by
  unfold takeSource
  refine .bind (.any _) fun entries _ => ?_
  refine .bind (P := fun run : ValidationRun => (run.map (·.1)).Nodup)
    (.foldlM (fun run entry _ hrun => .bind (.any _) fun record _ => .pure ?_) hp.run)
    fun run hrun => .bind (.any _) fun tree _ => ?_
  · exact nodup_putField hrun
  split
  · exact .pure ⟨hrun, hp.bases, hp.libraries⟩
  · unfold takeDefinitions
    refine .bind (P := Progress.Keyed) (.foldlM (fun q d _ hq =>
      (taken_takeDefinition q).imp fun q' hq' => hq'.keyed hq) ⟨hrun, hp.bases, hp.libraries⟩)
      fun q hq => ?_
    split
    · exact .throw _
    · exact .pure hq

end ValidationRun

end UpgradeSafety
