import UpgradeSafety.Import
import UpgradeSafety.Proofs.Syntax.Reads

/-!
# Determined imports

An import of a layout learns about the trees by lookups alone (`Import.reads_layout`), as each of
its steps does: entering types, reading names of enums, finding namespaces, and attributing
variables. So in trees in which no two nodes have the same id it has one result, whatever was
looked up before (`Import.determined_layout`).

What was looked up is remembered, and a contract is imported after others whose lookups are
remembered already. Without this result a layout could depend on the contracts that are listed
before its own. Each step is put together from returning, looking up and binding, so it is a
reading of the kind for which this was shown once; loops ask it of their steps. Nothing else is
said of the steps here, neither that they end nor what they give. The bound on the steps of a
loading depends on how many values there are in the trees, which such a reading may learn, too.
-/

namespace UpgradeSafety

open Syntax

variable {trees : List Json}

/-! ## Types -/

theorem reads_loadPending (fuel : Nat) (met : Met) (pending : List Json) (types : TypeTable) :
    Reads (loadPending fuel met pending types) := by
  induction fuel generalizing met pending types with
  | zero => exact .pure types
  | succ fuel ih =>
    cases pending with
    | nil => exact .pure types
    | cons node rest =>
      unfold loadPending
      refine .bind (.lift _) fun description => ?_
      dsimp only
      refine .bind (.lift _) fun reference => ?_
      split
      · exact ih _ _ _
      · rename_i hreference
        split
        · exact ih _ _ _
        · refine .bind (.lookUp (by decide) fun hnull => (hreference hnull).elim)
            fun definition => ?_
          split
          · exact .bind (.lift _) fun members => .bind (.pure _) fun types =>
              .bind (.lift _) fun fresh => ih _ _ _
          · exact .bind (.pure _) fun types => .bind (.lift _) fun fresh => ih _ _ _

theorem reads_loadType (typeName : Json) (types : TypeTable) : Reads (loadType typeName types) := by
  unfold loadType
  refine .bind (.lift _) fun fresh => ?_
  dsimp only
  exact .weigh fun n => reads_loadPending (weight typeName + n + 1) _ _ _

theorem reads_loadEnumNames (types : TypeTable) : Reads (Import.loadEnumNames types) := by
  unfold Import.loadEnumNames
  refine .mapM (fun e => ?_) types
  dsimp only
  split
  · split
    · exact .throw _
    · have hread (digits : List Char) : Reads
          (do
            let definition ← lookUp ["EnumDefinition"] (.int (TypeId.digitsNumber digits))
            return (e.1, { e.2 with members := some (← typeMembers definition) })) :=
        .bind (.lookUp (by decide) nofun) fun definition =>
          .bind (.lift _) fun members => .pure _
      split
      · exact .bind (.throw _) fun _ => hread _
      · exact hread _
  · exact .pure _

/-! ## Namespaces -/

section Namespaces

open Namespaces

variable {locate : Locate}

theorem reads_structItems (struct contract : Json) (location : String) (types : TypeTable) :
    Reads (structItems locate struct contract location types) := by
  unfold structItems
  refine .bind (.lift _) fun label => .bind (.lift _) fun members =>
    .bind (.lift _) fun raw => .bind (.lift _) fun definitions => ?_
  dsimp only
  split
  · refine .foldlM (fun state pair => ?_) _ _
    refine .bind (.lift _) fun name => .bind (.lift _) fun src => .bind (.lift _) fun typeName => ?_
    split
    · exact .bind (.pure _) fun types => .pure _
    · exact .bind (reads_loadType _ _) fun types => .pure _
  · exact .pure _
  · exact .pure _

theorem reads_takeStruct (contract : Json) (state : List Namespaces.Found × TypeTable) (node : Json) :
    Reads (takeStruct locate contract state node) := by
  unfold takeStruct
  refine .bind (.lift _) fun type => ?_
  dsimp only
  split
  · exact .pure _
  · refine .bind (.lift _) fun location => ?_
    split
    · exact .pure _
    · refine .bind (.lift _) fun place => ?_
      split
      · exact .pure _
      · exact .bind (reads_structItems _ _ _ _) fun items => .pure _

theorem reads_chainContract (contract id : Json) : Reads (chainContract contract id) := by
  unfold chainContract
  refine .bind (.lift _) fun own => ?_
  split
  · exact .pure _
  · exact .lookUp (by decide) fun _ => rfl

theorem reads_loadNamespaces (contract : Json) (types : TypeTable) :
    Reads (Namespaces.load locate contract types) := by
  unfold Namespaces.load
  refine .bind (.lift _) fun chain => .bind (.lift _) fun ids => ?_
  refine .bind (.foldlM (fun state id => ?_) _ _) fun state => ?_
  · exact .bind (reads_chainContract _ _) fun base => .bind (.lift _) fun field =>
      .bind (.lift _) fun nodes => .foldlM (fun state node => reads_takeStruct _ _ _) _ _
  · dsimp only
    split
    · refine .bind (.lift _) fun canonical => ?_
      split
      · exact .bind (.pure _) fun name => .throw _
      · exact .bind (.lift _) fun name => .throw _
    · exact .pure _

end Namespaces

/-! ## Layouts -/

namespace Import

theorem reads_originFrom (contract astId : Json) (ids : List Json) :
    Reads (originFrom contract astId ids) := by
  induction ids with
  | nil => exact .pure none
  | cons id rest ih =>
    unfold originFrom
    refine .bind (reads_chainContract _ _) fun base => .bind (.lift _) fun field =>
      .bind (.lift _) fun nodes => .bind (.lift _) fun declaration => ?_
    split
    · exact .bind (.lift _) fun name => .pure _
    · exact ih

theorem reads_attributed (definition : Option Definition) (item : Item) :
    Reads (attributed definition item) := by
  unfold attributed
  split
  · exact .pure _
  · refine .bind (.lift _) fun chain => .bind (.lift _) fun ids =>
      .bind (reads_originFrom _ _ _) fun origin => ?_
    split
    · exact .throw _
    · split
      · exact .bind (.lift _) fun src => .lift _
      · exact .bind (.pure _) fun src => .lift _

theorem reads_layout (raw : Json) (definition : Option Definition) (withTrees : Bool)
    (solcVersion : Json) : Reads (layout raw definition withTrees solcVersion) := by
  unfold layout
  split
  · exact .throw _
  · refine .bind (.lift _) fun base => ?_
    dsimp only
    refine .bind (.mapM (fun item => reads_attributed _ _) _) fun storage => ?_
    split
    · refine .bind (reads_loadEnumNames _) fun types => ?_
      split
      · exact .bind (reads_loadNamespaces _ _) fun loaded => .bind (.lift _) fun version =>
          .bind (.lift _) fun _ => .pure _
      · exact .bind (.pure _) fun loaded => .bind (.lift _) fun version =>
          .bind (.lift _) fun _ => .pure _
    · refine .bind (.pure _) fun types => ?_
      exact .bind (.pure _) fun loaded => .bind (.lift _) fun version =>
        .bind (.lift _) fun _ => .pure _

/-- An import has one result, whatever was looked up before. -/
theorem determined_layout (h : UniqueIds trees) (raw : Json) (definition : Option Definition)
    (withTrees : Bool) (solcVersion : Json) :
    Determined trees (layout raw definition withTrees solcVersion) :=
  (reads_layout raw definition withTrees solcVersion).determined h

end Import

end UpgradeSafety
