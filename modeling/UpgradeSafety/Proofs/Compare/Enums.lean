import UpgradeSafety.Proofs.Alignment.Prefix
import UpgradeSafety.Proofs.Compare.Memory
import UpgradeSafety.Proofs.Layout.Resolution

/-!
# Enums

When do two enums fit? Exactly when they have the same size and the former names are a beginning of
the updated ones (`enumChange_cases`). The names are aligned like variables, at standard prices and
with equality for a difference, and the comparison asks whether every step keeps or appends. So
this is the statement on scripts that only keep and append, with the size of the type, which
follows from the number of names, beside it. When only the names are at fault, the steps that are
told are those that neither keep nor append, and there is at least one.

A type is that of an enum when its id begins with `t_enum(`, so the comparison of two such types is
that of their names, whatever the memory is and whether or not appending is allowed around them
(`freshChange_eq_none_iff_isPrefix`): a comparison of enums looks inside no other type. That both
have names is a condition, since the names of an enum may be unknown, and an enum without names is
an obstacle or a matter of leniency.
-/

namespace UpgradeSafety

namespace TypeNode

/-- The names of an enum, where they are known. -/
def names? (t : TypeNode) : Option (List String) := t.members.bind Members.names?

/-- The type of an id like `t_enum(Side)2` is an enum with arguments. -/
theorem Joins.isEnum {types : TypeTable} {behind : String} {n : TypeNode}
    (h : n.Joins types ("t_enum(" ++ behind)) :
    n.head = "t_enum" ∧ n.kind = .enum ∧ ∃ args, n.args = some args := by
  obtain ⟨t, ht, rfl⟩ := h
  obtain ⟨hhead, args, hargs⟩ :=
    TypeId.parts_of_read (show '(' ∉ "t_enum".toList by decide) ht
  refine ⟨hhead, ?_, _, congrArg (Option.map _) hargs⟩
  change TypeId.kindOfHead t.head = .enum
  rw [hhead]
  decide +kernel

end TypeNode

namespace Compare

section

variable {m : Type → Type} [Monad m] [MonadExceptOf Obstacle m] {leniency : Leniency}
  {overlook : m Unit} {o u : TypeNode} {os us : List String}

/-- Harmless steps are those that keep or append. -/
theorem harmless_iff {e : NameEdit} : harmless e = true ↔ e.Extends := by
  cases e <;> simp [harmless, Alignment.Edit.Extends]

/-- Two enums whose names are known fit just when their sizes are equal and no former name was changed;
otherwise the comparison says which steps of the alignment are at fault. -/
theorem enumChange_cases (hos : o.names? = some os) (hus : u.names? = some us) :
    if enumSize os.length ≠ enumSize us.length then
      enumChange leniency overlook o u = pure (some (.mismatch .enumResize o u))
    else if os <+: us then enumChange leniency overlook o u = pure none
    else ∃ edits, edits ≠ [] ∧
      enumChange leniency overlook o u = pure (some (.enumNames o u edits)) := by
  obtain ⟨om, hom, hos⟩ := Option.bind_eq_some_iff.mp hos
  obtain ⟨um, hum, hus⟩ := Option.bind_eq_some_iff.mp hus
  obtain ⟨edits, hedits⟩ := Alignment.exists_edits (.standard Unit) os us
    (os.map fun x => us.map fun y => if x = y then none else some ())
  have hbegins := Alignment.extends_iff_isPrefix hedits
  have hbad : edits.filter (!harmless ·) = [] ↔ os <+: us := by
    rw [← hbegins, List.filter_eq_nil_iff]
    simp only [← harmless_iff, Bool.not_eq_true', Bool.not_eq_false]
  unfold enumChange
  rw [hom, hum]
  dsimp only
  rw [hos, hus]
  dsimp only
  split
  · rfl
  · rw [Alignment.align?, hedits]
    dsimp only
    split
    · rename_i h
      rw [hbad.mpr h]
    · rename_i h
      refine ⟨edits.filter (!harmless ·), mt hbad.mp h, ?_⟩
      split
      · rename_i hnil
        exact absurd (hbad.mp hnil) h
      · rfl

/-- Two types of one head with arguments, the former one an enum, are compared by their names. -/
theorem typeChangeWith_of_enum {og ug : TypeGraph} {inner : CompareTypes m} {a : Bool}
    {oArgs uArgs : List String} (hhead : o.head = u.head) (hkind : o.kind = .enum)
    (ho : o.args = some oArgs) (hu : u.args = some uArgs) :
    typeChangeWith leniency overlook og ug inner o u a = enumChange leniency overlook o u := by
  rw [typeChangeWith, if_neg (not_not.mpr hhead), ho, hu]
  dsimp only
  rw [hkind]

end

section

variable {leniency : Leniency} {og ug : TypeGraph} {o u : TypeNode} {a : Bool} {os us : List String}

/-- What is found without looking inside two types is found by a comparison with an empty memory. -/
theorem freshChange_of_pure {r : Option TypeChange}
    (h : ∀ inner, typeChangeWith leniency noteUnchecked og ug inner o u a = pure r) :
    freshChange leniency og ug o u a = .ok r := by
  rw [freshChange, pairBound, run_typeChange_succ, Std.HashMap.getElem?_empty, h]
  rfl

/-- Two enum types whose names are known fit just when their sizes are equal and the former names are a
beginning of the updated ones, whether or not appending is allowed around them. When only the names are
at fault, the steps that are reported are not empty. -/
theorem freshChange_eq_none_iff_isPrefix {types types' : TypeTable} {former updated : String}
    (ho : o.Joins types ("t_enum(" ++ former)) (hu : u.Joins types' ("t_enum(" ++ updated))
    (hos : o.names? = some os) (hus : u.names? = some us) :
    (freshChange leniency og ug o u a = .ok none ↔
      enumSize os.length = enumSize us.length ∧ os <+: us) ∧
    (enumSize os.length = enumSize us.length → ¬ os <+: us → ∃ edits, edits ≠ [] ∧
      freshChange leniency og ug o u a = .ok (some (.enumNames o u edits))) := by
  obtain ⟨hohead, hokind, oArgs, hoArgs⟩ := ho.isEnum
  obtain ⟨huhead, -, uArgs, huArgs⟩ := hu.isEnum
  have hfresh {r : Option TypeChange} (h : enumChange leniency noteUnchecked o u = pure r) :
      freshChange leniency og ug o u a = .ok r :=
    freshChange_of_pure fun inner => by
      rw [typeChangeWith_of_enum (hohead.trans huhead.symm) hokind hoArgs huArgs, h]
  have hcases := @enumChange_cases Comparison _ _ leniency noteUnchecked _ _ _ _ hos hus
  split at hcases
  · rename_i hsize
    rw [hfresh hcases]
    exact ⟨by simp [hsize], fun h => absurd h hsize⟩
  · rename_i hsize
    split at hcases
    · rename_i hbegins
      rw [hfresh hcases]
      exact ⟨by simp [not_not.mp hsize, hbegins], fun _ h => absurd hbegins h⟩
    · rename_i hbegins
      obtain ⟨edits, hne, hchange⟩ := hcases
      rw [hfresh hchange]
      exact ⟨by simp [hbegins], fun _ _ => ⟨edits, hne, rfl⟩⟩

/-- A table with one enum of some names. -/
def sides (names : List String) : TypeTable :=
  [("t_enum(Side)2", { label := "enum Side", members := some (.names names) })]

/-- A name may be added at the end, but not before the others. -/
theorem freshChange_sides : ∃ o u v : TypeNode,
    o.Joins (sides ["Left", "Right"]) "t_enum(Side)2" ∧
    u.Joins (sides ["Left", "Right", "Left"]) "t_enum(Side)2" ∧
    v.Joins (sides ["Left", "Left", "Right"]) "t_enum(Side)2" ∧
    freshChange {} [] [] o u false = .ok none ∧
    ∃ edits, edits ≠ [] ∧ freshChange {} [] [] o v true = .ok (some (.enumNames o v edits)) := by
  obtain ⟨t, ht⟩ : ∃ t, TypeId.read "t_enum(Side)2" = .ok t := by
    have hok : (TypeId.read "t_enum(Side)2").isOk = true := by decide +kernel
    cases h : TypeId.read "t_enum(Side)2" with
    | ok t => exact ⟨t, rfl⟩
    | error e =>
      rw [h] at hok
      cases hok
  have hjoins (names : List String) : (TypeNode.ofEntry t ((sides names).lookup "t_enum(Side)2")).Joins
      (sides names) ("t_enum(" ++ "Side)2") := ⟨t, ht, rfl⟩
  have hnames (names : List String) :
      (TypeNode.ofEntry t ((sides names).lookup "t_enum(Side)2")).names? = some names := rfl
  refine ⟨_, _, _, hjoins _, hjoins _, hjoins _, ?_, ?_⟩
  · exact (freshChange_eq_none_iff_isPrefix (hjoins _) (hjoins _) (hnames _) (hnames _)).1.mpr
      (by decide)
  · exact (freshChange_eq_none_iff_isPrefix (hjoins _) (hjoins _) (hnames _) (hnames _)).2
      (by decide) (by decide)

end

end Compare

end UpgradeSafety
