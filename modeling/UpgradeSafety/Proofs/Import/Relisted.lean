import UpgradeSafety.Proofs.Import.Builds
import UpgradeSafety.Proofs.Syntax.Reads

/-!
# Builds listed in another order

Two build documents may differ in the order in which source files and contracts are listed
(`Relisted`). Then a source file has the same tree (`RelistedOutput.tree_eq`), the same contracts
are compiled (`Relisted.compiledContracts_perm`), and places are named alike if no two source files
have the same id (`RelistedOutput.exists_located`).

Objects in another order are related field by field (`Listed`), and what is inside them may be
related by any relation, which is how the order of contracts inside source files is treated in the
same way as that of the source files themselves. All relations here go in both directions
(`Relisted.symm`), so that each result is proved in one direction only.

The part on places is needed since the name of a source file is found by the number in a place: of
two source files with one number the first that is listed would be found (`UniqueSourceIds`).
-/

namespace UpgradeSafety

open Syntax

variable {v v' w w' : Json} {R : Json → Json → Prop} {fs : Fields} {build : Import.Build}

/-- The same value, or an object with its fields in another order and related values. -/
inductive Listed (R : Json → Json → Prop) : Json → Json → Prop where
  | same (v : Json) : Listed R v v
  | fields {fs mid gs : Fields} (hperm : fs.Perm mid) (hvalues : Matched R mid gs) :
      Listed R (.obj fs) (.obj gs)

/-- The output of a compiler with source files and contracts listed in another order. -/
structure RelistedOutput (w w' : Json) : Prop where
  sort : (∃ fs, w = .obj fs) ↔ ∃ gs, w' = .obj gs
  sources : Option.Rel (Listed Eq) (w.field? "sources") (w'.field? "sources")
  contracts : Option.Rel (Listed (Listed Eq)) (w.field? "contracts") (w'.field? "contracts")

/-- A build document with source files and contracts listed in another order. -/
structure Relisted (v v' : Json) : Prop where
  input : v'.field? "input" = v.field? "input"
  solcVersion : v'.field "solcVersion" = v.field "solcVersion"
  output : Option.Rel RelistedOutput (v.field? "output") (v'.field? "output")

/-! ## Going back -/

theorem optionRel_symm {α : Type} {S T : α → α → Prop} {a b : Option α} (h : Option.Rel S a b)
    (hST : ∀ a b, S a b → T b a) : Option.Rel T b a := by
  cases h with
  | none => exact .none
  | some hab => exact .some (hST _ _ hab)

theorem Listed.symm (hR : ∀ a b, R a b → R b a) (h : Listed R w w') : Listed R w' w := by
  cases h with
  | same => exact .same _
  | fields hperm hvalues =>
    obtain ⟨back, hback, hperm'⟩ := List.perm_comp_forall₂ hperm hvalues
    exact .fields hperm'.symm (hback.flip.imp fun _ _ h => ⟨h.1.symm, hR _ _ h.2⟩)

theorem listed_eq_symm (h : Listed Eq w w') : Listed Eq w' w := h.symm fun _ _ => Eq.symm

theorem RelistedOutput.symm (h : RelistedOutput w w') : RelistedOutput w' w where
  sort := h.sort.symm
  sources := optionRel_symm h.sources fun _ _ => listed_eq_symm
  contracts := optionRel_symm h.contracts fun _ _ => Listed.symm fun _ _ => listed_eq_symm

theorem Relisted.symm (h : Relisted v v') : Relisted v' v where
  input := h.input.symm
  solcVersion := h.solcVersion.symm
  output := optionRel_symm h.output fun _ _ => RelistedOutput.symm

/-! ## Entries -/

theorem matched_eq {fs gs : Fields} (h : Matched Eq fs gs) : fs = gs := by
  induction h with
  | nil => rfl
  | cons hef _ ih => rw [Prod.ext hef.1 hef.2, ih]

theorem matched_refl (hR : ∀ a, R a a) (fs : Fields) : Matched R fs fs :=
  List.forall₂_same.mpr fun e _ => ⟨rfl, hR e.2⟩

/-- What is listed in another order has the same entries. -/
theorem Listed.exists_entries (hR : ∀ a, R a a) (h : Listed R w w') (hw : w.entries = .ok fs) :
    ∃ mid gs, w'.entries = .ok gs ∧ fs.Perm mid ∧ Matched R mid gs := by
  cases h with
  | same => exact ⟨fs, fs, hw, .refl fs, matched_refl hR fs⟩
  | fields hperm hvalues =>
    cases hw
    exact ⟨_, _, rfl, hperm, hvalues⟩

theorem Listed.exists_fieldsOf (hR : ∀ a, R a a) (h : Listed R w w') :
    ∃ mid, (fieldsOf w).Perm mid ∧ Matched R mid (fieldsOf w') := by
  cases h with
  | same => exact ⟨_, .refl _, matched_refl hR _⟩
  | fields hperm hvalues => exact ⟨_, hperm, hvalues⟩

theorem listed_getD {x y : Option Json} (h : Option.Rel (Listed R) x y) (default : Json) :
    Listed R (x.getD default) (y.getD default) := by
  cases h with
  | none => exact .same default
  | some hlisted => exact hlisted

/-- A field is the same. -/
theorem Listed.getOr_eq (h : Listed Eq w w') (htidy : w.IsTidy) (key : String) (default : Json) :
    w'.getOr key default = w.getOr key default := by
  cases h with
  | same => rfl
  | fields hperm hvalues =>
    obtain rfl := matched_eq hvalues
    have hlookup := lookup_perm hperm (Json.isTidy_obj.mp htidy).1 key
    exact congrArg (fun o : Option Json => Except.ok (o.getD default)) hlookup.symm

theorem listed_field {key : String} (hkey : Option.Rel (Listed R) (w.field? key) (w'.field? key)) :
    Listed R (w.field key) (w'.field key) := listed_getD hkey .null

/-- A part that may be absent. -/
theorem RelistedOutput.exists_getOr {key : String} (h : RelistedOutput w w')
    (hkey : Option.Rel (Listed R) (w.field? key) (w'.field? key)) {field : Json}
    (hfield : w.getOr key (.obj []) = .ok field) :
    ∃ field', w'.getOr key (.obj []) = .ok field' ∧ Listed R field field' := by
  cases w with
  | obj os =>
    obtain ⟨os', rfl⟩ := h.sort.mp ⟨os, rfl⟩
    obtain rfl : (os.lookup key).getD (.obj []) = field := Except.ok.inj hfield
    exact ⟨_, rfl, listed_getD hkey _⟩
  | null | bool _ | int _ | float _ | str _ | arr _ => cases hfield

theorem Relisted.output_field (h : Relisted v v') :
    v.field "output" = v'.field "output" ∨ RelistedOutput (v.field "output") (v'.field "output") := by
  have houtput := h.output
  rw [Json.field, Json.field]
  generalize v.field? "output" = x at houtput ⊢
  generalize v'.field? "output" = y at houtput ⊢
  cases houtput with
  | none => exact Or.inl rfl
  | some houtput => exact Or.inr houtput

/-! ## Source files -/

theorem isTidy_of_mem_fieldsOf {v : Json} {f : String × Json} (h : v.IsTidy) (hf : f ∈ fieldsOf v) :
    f.2.IsTidy := by
  cases v with
  | obj fields => exact (Json.isTidy_obj.mp h).2 f hf
  | null | bool _ | int _ | float _ | str _ | arr _ => cases hf

/-- No two source files have the same id. -/
def UniqueSourceIds (v : Json) : Prop :=
  ((fieldsOf ((v.field "output").field "sources")).filter fun s => s.2.field "id" != .null).Pairwise
    fun s t => (s.2.field "id").same (t.2.field "id") = false

namespace Relisted

variable (h : Relisted v v')
include h

theorem sources_perm : (fieldsOf ((v.field "output").field "sources")).Perm
    (fieldsOf ((v'.field "output").field "sources")) := by
  rcases h.output_field with heq | houtput
  · rw [heq]
  · obtain ⟨mid, hperm, hvalues⟩ := (listed_field houtput.sources).exists_fieldsOf fun _ => rfl
    exact matched_eq hvalues ▸ hperm

theorem exists_contracts : ∃ mid, (fieldsOf ((v.field "output").field "contracts")).Perm mid ∧
    Matched (Listed Eq) mid (fieldsOf ((v'.field "output").field "contracts")) := by
  rcases h.output_field with heq | houtput
  · rw [heq]
    exact ⟨_, .refl _, matched_refl .same _⟩
  · exact (listed_field houtput.contracts).exists_fieldsOf .same

theorem buildTrees_perm : (buildTrees v).Perm (buildTrees v') := h.sources_perm.filterMap _

theorem compiledContracts_perm : (compiledContracts v).Perm (compiledContracts v') := by
  obtain ⟨mid, hperm, hvalues⟩ := h.exists_contracts
  refine (hperm.flatMap_right compiledIn).trans (perm_flatMap_of_forall₂ (hvalues.imp fun s s' hs => ?_))
  obtain ⟨contracts, hcontracts, heq⟩ := hs.2.exists_fieldsOf fun _ => rfl
  rw [compiledIn, compiledIn, ← matched_eq heq, ← hs.1]
  exact hcontracts.map _

theorem distinctNames (hnames : DistinctNames v) : DistinctNames v' :=
  (h.compiledContracts_perm.map _).nodup_iff.mp hnames

theorem uniqueSourceIds (htidy : v.IsTidy) (hids : UniqueSourceIds v) : UniqueSourceIds v' := by
  have hsources := (htidy.field "output").field "sources"
  exact pairwise_differ_perm (h.sources_perm.filter _)
    (fun s hs => (isTidy_of_mem_fieldsOf hsources (List.mem_filter.mp hs).1).field "id") hids

/-- The build is read when it is listed in another order. -/
theorem exists_ofJson (hbuild : Import.Build.ofJson v = .ok build) :
    ∃ output, RelistedOutput build.output output ∧ Import.Build.ofJson v' = .ok { build with output } := by
  have houtput := h.output
  unfold Import.Build.ofJson at hbuild ⊢
  rw [h.input, h.solcVersion]
  generalize v.field? "input" = i at hbuild ⊢
  generalize v.field? "output" = x at hbuild houtput
  generalize v'.field? "output" = y at houtput ⊢
  cases houtput with
  | none => cases i <;> cases hbuild
  | some houtput =>
    cases i with
    | none => cases hbuild
    | some input =>
      cases hbuild
      exact ⟨_, houtput, rfl⟩

end Relisted

/-! ## Reading the output -/

theorem error_of_getOr {v default : Json} {key : String} {e : Failure}
    (h : v.getOr key default = .error e) : e = .fault .notAnObject := by
  cases v with
  | obj fields => cases h
  | null | bool _ | int _ | float _ | str _ | arr _ => exact (Except.error.inj h).symm

theorem find?_eq_some_of_mem {α : Type} {l : List α} {p : α → Bool} {a : α}
    (hone : ∀ a ∈ l, ∀ b ∈ l, p a = true → p b = true → a = b) (ha : a ∈ l) (hp : p a = true) :
    l.find? p = some a := by
  obtain ⟨b, hb⟩ := Option.isSome_iff_exists.mp (List.find?_isSome.mpr ⟨a, ha, hp⟩)
  rw [hb, hone a ha b (List.mem_of_find?_eq_some hb) hp (List.find?_some hb)]

/-- What only one element satisfies is found in any order. -/
theorem find?_perm {α : Type} {l l' : List α} {p : α → Bool} (hperm : l.Perm l')
    (hone : ∀ a ∈ l, ∀ b ∈ l, p a = true → p b = true → a = b) : l.find? p = l'.find? p := by
  have hone' : ∀ a ∈ l', ∀ b ∈ l', p a = true → p b = true → a = b := fun a ha b hb =>
    hone a (hperm.mem_iff.mpr ha) b (hperm.mem_iff.mpr hb)
  ext a
  exact ⟨fun h => find?_eq_some_of_mem hone' (hperm.mem_iff.mp (List.mem_of_find?_eq_some h))
      (List.find?_some h),
    fun h => find?_eq_some_of_mem hone (hperm.mem_iff.mpr (List.mem_of_find?_eq_some h))
      (List.find?_some h)⟩

/-- The id of a source file with its name. -/
def sourceName (source : String × Json) : Except Failure (Json × String) := do
  let id ← source.2.get "id"
  if id.hashable then pure (id, source.1) else throw (.fault .wrongSort)

theorem names_of_forall₂ {entries : Fields} {names : List (Json × String)}
    (h : List.Forall₂ (fun e name => sourceName e = .ok name) entries names) :
    names = entries.map fun e => (e.2.field "id", e.1) := by
  refine (List.map_id names).symm.trans (map_eq_of_forall₂ (h.imp fun e name hname => ?_)).symm
  obtain ⟨id, hid, hname⟩ := bind_eq_ok_iff.mp hname
  split at hname
  · cases hname
    exact Prod.ext (eq_field_of_get hid).symm rfl
  · cases hname

/-- A source file is found by its id in any order. -/
theorem content_eq_of_perm {entries : Fields} {names : List (Json × String)} {inputs : Json}
    (hids : (entries.filter fun s => s.2.field "id" != .null).Pairwise
      fun s t => (s.2.field "id").same (t.2.field "id") = false)
    (hperm : names.Perm (entries.map fun e => (e.2.field "id", e.1))) :
    Sources.content ⟨names, inputs⟩ =
      Sources.content ⟨entries.map fun e => (e.2.field "id", e.1), inputs⟩ := by
  funext file
  have hsource : ∀ a ∈ names.reverse, a.1.same (.int file) = true →
      ∃ s ∈ entries.filter fun s => s.2.field "id" != .null, a = (s.2.field "id", s.1) := by
    intro a ha hsame
    obtain ⟨s, hs, rfl⟩ := List.mem_map.mp (hperm.mem_iff.mp (List.mem_reverse.mp ha))
    refine ⟨s, List.mem_filter.mpr ⟨hs, bne_iff_ne.mpr fun hnull => ?_⟩, rfl⟩
    rw [hnull] at hsame
    cases hsame
  unfold Sources.content
  rw [find?_perm (names.reverse_perm.trans (hperm.trans (List.reverse_perm _).symm))]
  intro a ha b hb hsame hsame'
  obtain ⟨s, hs, rfl⟩ := hsource a ha hsame
  obtain ⟨t, ht, rfl⟩ := hsource b hb hsame'
  rw [eq_of_pairwise_differ hids rfl hs hsame ht hsame']

namespace RelistedOutput

variable {output : Json} (h : RelistedOutput build.output output)
include h

theorem exists_sources {field : Json} (hfield : build.output.getOr "sources" (.obj []) = .ok field)
    (hfs : field.entries = .ok fs) :
    ∃ field' gs, output.getOr "sources" (.obj []) = .ok field' ∧ field'.entries = .ok gs ∧ fs.Perm gs := by
  obtain ⟨field', hfield', hlisted⟩ := h.exists_getOr h.sources hfield
  obtain ⟨mid, gs, hgs, hperm, hvalues⟩ := hlisted.exists_entries (fun _ => rfl) hfs
  exact ⟨field', gs, hfield', hgs, matched_eq hvalues ▸ hperm⟩

/-- The trees are read. -/
theorem exists_read {nodes : Nodes} (hread : Nodes.ofCompilation build.output = .ok nodes) :
    ∃ nodes', Nodes.ofCompilation output = .ok nodes' := by
  unfold Nodes.ofCompilation at hread ⊢
  obtain ⟨field, hfield, hread⟩ := bind_eq_ok_iff.mp hread
  obtain ⟨entries, hentries, hread⟩ := bind_eq_ok_iff.mp hread
  obtain ⟨trees, htrees, -⟩ := bind_eq_ok_iff.mp hread
  obtain ⟨field', entries', hfield', hentries', hperm⟩ := h.exists_sources hfield hentries
  have hall := exists_filterMapM_iff.mp ⟨trees, htrees⟩
  obtain ⟨trees', htrees'⟩ := exists_filterMapM_iff.mpr fun e he => hall e (hperm.mem_iff.mpr he)
  exact ⟨⟨trees', []⟩, bind_eq_ok_iff.mpr ⟨field', hfield', bind_eq_ok_iff.mpr
    ⟨entries', hentries', bind_eq_ok_iff.mpr ⟨trees', htrees', rfl⟩⟩⟩⟩

/-- A source file has the same tree. -/
theorem tree_eq (htidy : build.output.IsTidy) (source : String) :
    Import.Build.tree { build with output } source = build.tree source := by
  obtain ⟨input, out, version⟩ := build
  have h : RelistedOutput out output := h
  have htree : (output.getOr "sources" (.obj []) >>= fun v => v.getOr source (.obj [])) =
      (out.getOr "sources" (.obj []) >>= fun v => v.getOr source (.obj [])) := by
    cases hfield : out.getOr "sources" (.obj []) with
    | ok field =>
      obtain ⟨field', hfield', hlisted⟩ := h.exists_getOr h.sources hfield
      rw [hfield', ok_bind, ok_bind, hlisted.getOr_eq (Json.IsTidy.getOr htidy .emptyObj hfield)]
    | error e =>
      obtain rfl := error_of_getOr hfield
      cases hfield' : output.getOr "sources" (.obj []) with
      | ok field' =>
        obtain ⟨field, hsources, -⟩ := h.symm.exists_getOr h.symm.sources hfield'
        rw [hfield] at hsources
        cases hsources
      | error e' => rw [error_of_getOr hfield']
  unfold Import.Build.tree
  rw [← bind_assoc, ← bind_assoc, htree]

/-- Places are named, and alike. -/
theorem exists_located (hbuild : Import.Build.ofJson v = .ok build) (hids : UniqueSourceIds v)
    {sources : Sources} (hsources : Sources.ofCompilation build.input build.output = .ok sources) :
    ∃ sources', Sources.ofCompilation build.input output = .ok sources' ∧
      sources'.locate = sources.locate := by
  unfold Sources.ofCompilation at hsources ⊢
  obtain ⟨inputs, hinputs, hsources⟩ := bind_eq_ok_iff.mp hsources
  obtain ⟨field, hfield, hsources⟩ := bind_eq_ok_iff.mp hsources
  obtain ⟨entries, hentries, hsources⟩ := bind_eq_ok_iff.mp hsources
  obtain ⟨names, hnames, hsources⟩ := bind_eq_ok_iff.mp hsources
  cases hsources
  obtain ⟨field', entries', hfield', hentries', hperm⟩ := h.exists_sources hfield hentries
  have hnamed := mapM_eq_ok_iff.mp hnames
  obtain ⟨names', hnamed', hnames⟩ := List.perm_comp_forall₂ hperm.symm hnamed
  refine ⟨⟨names', inputs⟩, bind_eq_ok_iff.mpr ⟨inputs, hinputs, bind_eq_ok_iff.mpr ⟨field', hfield',
    bind_eq_ok_iff.mpr ⟨entries', hentries', bind_eq_ok_iff.mpr
      ⟨names', mapM_eq_ok_iff.mpr hnamed', rfl⟩⟩⟩⟩, ?_⟩
  obtain rfl := names_of_forall₂ hnamed
  rw [UniqueSourceIds, ← output_ofJson hbuild, ← entries_getOr hfield hentries] at hids
  unfold Sources.locate
  rw [content_eq_of_perm hids hnames]

end RelistedOutput

end UpgradeSafety
