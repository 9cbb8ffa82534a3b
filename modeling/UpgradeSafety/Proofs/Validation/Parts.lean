import UpgradeSafety.Proofs.Import.Relisted
import UpgradeSafety.Proofs.Validation.Resolved

/-!
# Runs from parts

What a source file adds to a run does not depend on what is known of other contracts
(`takeSource_join`). So a run comes about from the parts that its source files give on their own
(`gives_takeSources_iff`).

The parts do not depend on the order in which the contracts of a source file are listed, up to the
order in which they are known (`exists_takeSource_of_perm`).

The run is one loop with one state, the records that are known so far and the names of ids. To cut
it, a stage is written as two parts that are joined (`join`), the first of which lacks the
contracts of the source file that is taken up; then each step of that source file does to the whole
what it does to the second part alone. Two runs of the same steps on different parts are related by
`Parallel`: they look up the same nodes in the same order and differ in their results only.
-/

namespace UpgradeSafety

open Syntax

/-! ## Readings -/

namespace Syntax

variable {α β : Type} {trees : List Json}

theorem lift_ok_bind (a : α) (f : α → Reading β) : (liftM (Except.ok a : Except Failure α) >>= f) = f a :=
  rfl

theorem lift_bind_congr {x : Except Failure α} {f g : α → Reading β}
    (h : ∀ a, x = .ok a → f a = g a) : (liftM x >>= f) = (liftM x >>= g) := by
  cases x with
  | error e => rfl
  | ok a => exact h a rfl

theorem liftM_bind_except (x : Except Failure α) (f : α → Except Failure β) :
    (liftM (x >>= f) : Reading β) = liftM x >>= fun a => liftM (f a) := by
  cases x <;> rfl

/-- Two readings that look up the same nodes in the same order and have related results. -/
def Parallel (R : α → β → Prop) (x : Reading α) (y : Reading β) : Prop :=
  ∀ s a s', x.run s = .ok (a, s') → ∃ b, y.run s = .ok (b, s') ∧ R a b

namespace Parallel

variable {γ δ : Type} {R : α → β → Prop} {S : γ → δ → Prop}

theorem pure {a : α} {b : β} (h : R a b) :
    Parallel R (Pure.pure a : Reading α) (Pure.pure b : Reading β) := by
  intro s a' s' hrun
  cases hrun
  exact ⟨b, rfl, h⟩

theorem bind {x : Reading α} {y : Reading β} {f : α → Reading γ} {g : β → Reading δ}
    (hx : Parallel R x y) (hf : ∀ a b, R a b → Parallel S (f a) (g b)) :
    Parallel S (x >>= f) (y >>= g) := by
  intro s c s' hrun
  rw [StateT.run_bind] at hrun
  obtain ⟨⟨a, s₁⟩, ha, hc⟩ := bind_eq_ok_iff.mp hrun
  obtain ⟨b, hb, hR⟩ := hx s a s₁ ha
  obtain ⟨d, hd, hS⟩ := hf a b hR s₁ c s' hc
  refine ⟨d, ?_, hS⟩
  rw [StateT.run_bind]
  exact bind_eq_ok_iff.mpr ⟨(b, s₁), hb, hd⟩

theorem refl (x : Reading α) : Parallel Eq x x := fun _ a _ hrun => ⟨a, hrun, rfl⟩

theorem lift {x : Except Failure α} {y : Except Failure β}
    (h : ∀ a, x = .ok a → ∃ b, y = .ok b ∧ R a b) :
    Parallel R (liftM x : Reading α) (liftM y : Reading β) := by
  intro s a s' hrun
  cases x with
  | error e => cases hrun
  | ok a' =>
    cases hrun
    obtain ⟨b, rfl, hR⟩ := h _ rfl
    exact ⟨b, rfl, hR⟩

theorem map {x : Reading α} {k : α → γ} {l : α → δ} (h : ∀ a, S (k a) (l a)) :
    Parallel S (k <$> x) (l <$> x) := by
  rw [map_eq_pure_bind, map_eq_pure_bind]
  exact bind (refl x) fun a b hab => hab ▸ pure (h a)

theorem foldlM {ι : Type} {f : α → ι → Reading α} {g : β → ι → Reading β}
    (h : ∀ a b i, R a b → Parallel R (f a i) (g b i)) {l : List ι} {a : α} {b : β} (hab : R a b) :
    Parallel R (l.foldlM f a) (l.foldlM g b) := by
  induction l generalizing a b with
  | nil => exact pure hab
  | cons i l ih =>
    rw [List.foldlM_cons, List.foldlM_cons]
    exact bind (h a b i hab) fun a' b' => ih

theorem gives {x : Reading α} {y : Reading β} {a : α} (h : Parallel R x y) (ha : Gives trees x a) :
    ∃ b, Gives trees y b ∧ R a b := by
  obtain ⟨s, s', hs, ha⟩ := ha
  obtain ⟨b, hb, hR⟩ := h s a s' ha
  exact ⟨b, ⟨s, s', hs, hb⟩, hR⟩

end Parallel

end Syntax

namespace ValidationRun

variable {build : Import.Build} {locate : Locate} {trees : List Json} {source key : String}
  {contracts contracts' tree definition data : Json} {entries entries' : Fields} {p p' q q' : Progress}
  {run run' : ValidationRun} {record : ContractRecord}

/-! ## Definitions by their headings -/

/-- The id and the qualified name of a definition, and what the compiler says about its contract. -/
def heading (source : String) (contracts definition : Json) :
    Except Failure ((Json × String) × Json) := do
  let name ← definition.need "name"
  let id ← definition.need "id"
  if !id.hashable || !name.hashable then throw (.fault .wrongSort)
  let data ← compiledData contracts name
  return ((id, source ++ ":" ++ name.display), data)

/-- Enters the name of an id. -/
def Progress.enter (entry : Json × String) (p : Progress) : Progress :=
  { p with references.names := entry :: p.references.names }

theorem takeDefinition_eq_heading (build : Import.Build) (locate : Locate) (source : String)
    (contracts : Json) (p : Progress) (definition : Json) :
    takeDefinition build locate source contracts p definition = (do
      let h ← (heading source contracts definition : Except Failure ((Json × String) × Json))
      takeCompiled build locate h.1.2 definition h.2 (p.enter h.1)) := by
  rw [takeDefinition_eq, heading]
  cases definition.need "name" with
  | error e => rfl
  | ok name =>
    cases definition.need "id" with
    | error e => rfl
    | ok id =>
      rw [lift_ok_bind, lift_ok_bind, ok_bind, ok_bind]
      by_cases hhashable : (!id.hashable || !name.hashable) = true
      · rw [if_pos hhashable, if_pos hhashable]
        rfl
      · rw [if_neg hhashable, if_neg hhashable]
        cases compiledData contracts name <;> rfl

/-- What is found in a definition. -/
def found (build : Import.Build) (locate : Locate) (definition data : Json) (record : ContractRecord) :
    Reading (ContractRecord × List Json × List Json) := do
  let bases ← (baseIds definition : Except Failure (List Json))
  let libraries ← (libraryIds definition : Except Failure (List Json))
  let record ← complete build locate definition data record
  return (record, bases, libraries)

/-- Enters what was found in a definition. -/
def Progress.putFound (key : String) (p : Progress) (f : ContractRecord × List Json × List Json) :
    Progress := p.put key f.1 f.2.1 f.2.2

theorem takeCompiled_null : takeCompiled build locate key definition .null p = pure p := rfl

theorem takeCompiled_eq (hdata : data ≠ .null) :
    takeCompiled build locate key definition data p =
      match p.run.lookup key with
      | none => pure p
      | some record => p.putFound key <$> found build locate definition data record := by
  have hreferences (record : ContractRecord) :
      takeReferences build locate key definition data p record =
        p.putFound key <$> found build locate definition data record := by
    simp only [takeReferences, found, map_bind, map_pure]
    rfl
  unfold takeCompiled
  split
  · exact absurd rfl hdata
  · rename_i hnone
    rw [hnone]
  · rename_i hsome
    rw [hsome]
    exact hreferences _

/-! ## Joining parts -/

namespace Progress

/-- What two parts of a run amount to. -/
def join (p q : Progress) : Progress where
  run := p.run ++ q.run
  references := {
    names := q.references.names ++ p.references.names
    bases := p.references.bases ++ q.references.bases
    libraries := p.references.libraries ++ q.references.libraries }

/-- Nothing is known of a contract. -/
structure Lacks (p : Progress) (key : String) : Prop where
  run : p.run.lookup key = none
  bases : p.references.bases.lookup key = none
  libraries : p.references.libraries.lookup key = none

theorem Lacks.empty (key : String) : ({} : Progress).Lacks key := ⟨rfl, rfl, rfl⟩

theorem Lacks.sameAt (h : p.Lacks key) (hsame : p.SameAt key p') : p'.Lacks key :=
  ⟨hsame.run.trans h.run, hsame.bases.trans h.bases, hsame.libraries.trans h.libraries⟩

theorem Lacks.join (h : p.Lacks key) (h' : q.Lacks key) : (p.join q).Lacks key := by
  constructor <;> simp [Progress.join, h.run, h.bases, h.libraries, h'.run, h'.bases, h'.libraries]

theorem join_empty (p : Progress) : p.join {} = p := by simp [join]

theorem join_putFound (h : p.Lacks key) (f : ContractRecord × List Json × List Json) :
    (p.join q).putFound key f = p.join (q.putFound key f) := by
  unfold putFound put join
  rw [putField_append (lookup_eq_none_iff_not_mem.mp h.run),
    putField_append (lookup_eq_none_iff_not_mem.mp h.bases),
    putField_append (lookup_eq_none_iff_not_mem.mp h.libraries)]

end Progress

theorem takeCompiled_join (h : data ≠ .null → p.Lacks key) :
    takeCompiled build locate key definition data (p.join q) =
      p.join <$> takeCompiled build locate key definition data q := by
  by_cases hdata : data = .null
  · subst hdata
    rw [takeCompiled_null, takeCompiled_null, map_pure]
  · have hlacks := h hdata
    have hlookup : (p.join q).run.lookup key = q.run.lookup key := by
      simp [Progress.join, hlacks.run]
    rw [takeCompiled_eq hdata, takeCompiled_eq hdata, hlookup]
    cases q.run.lookup key with
    | none => exact (map_pure _ _).symm
    | some record =>
      dsimp only
      rw [Functor.map_map]
      exact congrArg (· <$> found build locate definition data record)
        (funext fun f => Progress.join_putFound hlacks f)

/-- What the heading of a definition says is said of a compiled contract. -/
theorem of_heading {h : (Json × String) × Json} (hheading : heading source contracts definition = .ok h)
    (hdata : h.2 ≠ .null) : ∃ c ∈ compiledIn (source, contracts), c.key = h.1.2 := by
  unfold heading at hheading
  obtain ⟨name, -, hheading⟩ := bind_eq_ok_iff.mp hheading
  obtain ⟨id, -, hheading⟩ := bind_eq_ok_iff.mp hheading
  dsimp only at hheading
  split at hheading
  · cases hheading
  · obtain ⟨data, hfound, hheading⟩ := bind_eq_ok_iff.mp hheading
    cases hheading
    cases name with
    | str name => exact ⟨_, mem_compiledIn (eq_field_of_get hfound ▸ hdata), rfl⟩
    | null | bool _ | int _ | float _ | arr _ | obj _ =>
      cases hfound
      exact absurd rfl hdata

theorem takeDefinition_join (h : ∀ c ∈ compiledIn (source, contracts), p.Lacks c.key) :
    takeDefinition build locate source contracts (p.join q) definition =
      p.join <$> takeDefinition build locate source contracts q definition := by
  rw [takeDefinition_eq_heading, takeDefinition_eq_heading, map_bind]
  refine lift_bind_congr fun heading hheading => ?_
  have henter : (p.join q).enter heading.1 = p.join (q.enter heading.1) := rfl
  rw [henter]
  refine takeCompiled_join fun hdata => ?_
  obtain ⟨c, hc, hkey⟩ := of_heading hheading hdata
  exact hkey ▸ h c hc

theorem takeDefinitions_join (h : ∀ c ∈ compiledIn (source, contracts), p.Lacks c.key) :
    takeDefinitions build locate source contracts (p.join q) tree =
      p.join <$> takeDefinitions build locate source contracts q tree := by
  unfold takeDefinitions
  dsimp only
  rw [map_bind, foldlM_map fun q d _ => takeDefinition_join h, bind_map_left]
  refine bind_congr fun q' => ?_
  cases (search ["ContractDefinition"] tree).stop with
  | none => exact (map_pure _ _).symm
  | some e => rfl

/-- What the compiler says about the contracts of a source file. -/
def compileAll (build : Import.Build) (source : String) (entries : Fields) (run : ValidationRun) :
    Except Failure ValidationRun :=
  entries.foldlM (fun run entry => do
    return putField (source ++ ":" ++ entry.1) (← compiled build entry.1 entry.2) run) run

theorem takeSource_eq (build : Import.Build) (locate : Locate) (p : Progress) (source : String)
    (contracts : Json) : takeSource build locate p source contracts = (do
      let entries ← (contracts.entries : Except Failure Fields)
      let run ← (compileAll build source entries p.run : Except Failure ValidationRun)
      match ← (build.tree source : Except Failure Json) with
      | .null => return { p with run }
      | tree => takeDefinitions build locate source contracts { p with run } tree) := by
  have hcompile (entries : Fields) (run : ValidationRun) :
      (entries.foldlM (fun run entry => do
        return putField (source ++ ":" ++ entry.1) (← compiled build entry.1 entry.2) run) run :
          Reading ValidationRun) = liftM (compileAll build source entries run) := by
    induction entries generalizing run with
    | nil => rfl
    | cons entry entries ih =>
      rw [compileAll, List.foldlM_cons, List.foldlM_cons, liftM_bind_except]
      cases compiled build entry.1 entry.2 with
      | error e => rfl
      | ok record => exact ih _
  unfold takeSource
  exact bind_congr fun entries => congrArg (· >>= _) (hcompile entries p.run)

theorem compileAll_append (h : ∀ entry ∈ entries, source ++ ":" ++ entry.1 ∉ run.map (·.1)) :
    compileAll build source entries (run ++ run') =
      (compileAll build source entries run').map (run ++ ·) := by
  unfold compileAll
  refine foldlM_of_map fun run' entry hentry => ?_
  cases compiled build entry.1 entry.2 with
  | error e => rfl
  | ok record => exact congrArg Except.ok (putField_append (h entry hentry))

/-- What a source file adds to a run does not depend on what is known of other contracts. -/
theorem takeSource_join (h : ∀ c ∈ compiledIn (source, contracts), p.Lacks c.key) :
    takeSource build locate (p.join q) source contracts =
      p.join <$> takeSource build locate q source contracts := by
  rw [takeSource_eq, takeSource_eq, map_bind]
  refine lift_bind_congr fun entries hentries => ?_
  have hfresh : ∀ entry ∈ entries, source ++ ":" ++ entry.1 ∉ p.run.map (·.1) := by
    intro entry hentry
    rw [eq_fieldsOf_of_entries hentries] at hentry
    exact lookup_eq_none_iff_not_mem.mp (h _ (List.mem_map_of_mem hentry)).run
  have hcompile : compileAll build source entries (p.join q).run =
      (compileAll build source entries q.run).map (p.run ++ ·) := compileAll_append hfresh
  rw [map_bind, hcompile]
  cases compileAll build source entries q.run with
  | error e => rfl
  | ok run =>
    have hmap : (Except.ok run : Except Failure ValidationRun).map (p.run ++ ·) = .ok (p.run ++ run) := rfl
    rw [hmap, lift_ok_bind, lift_ok_bind, map_bind]
    refine bind_congr fun tree => ?_
    cases tree with
    | null => exact (map_pure p.join { q with run }).symm
    | bool _ | int _ | float _ | str _ | arr _ | obj _ =>
      exact takeDefinitions_join (p := p) (q := { q with run }) h

/-! ## Parts -/

theorem lacks_takeSource {c : String} (hother : ∀ c' ∈ compiledIn (source, contracts), c'.key ≠ c) :
    Yields (takeSource build locate {} source contracts) (·.Lacks c) :=
  (yields_takeSource_other {} hother).imp fun _ hsame => (Progress.Lacks.empty c).sameAt hsame

/-- A run comes about from the parts of its source files. -/
theorem gives_takeSources_iff (h : Orderly trees) {l : Fields}
    (hnames : ((l.flatMap compiledIn).map Compiled.key).Nodup)
    (hlacks : ∀ c ∈ l.flatMap compiledIn, p.Lacks c.key) :
    Gives trees (l.foldlM (fun p source => takeSource build locate p source.1 source.2) p) p' ↔
      ∃ parts, List.Forall₂
        (fun source part => Gives trees (takeSource build locate {} source.1 source.2) part) l parts ∧
        p' = parts.foldl Progress.join p := by
  induction l generalizing p with
  | nil =>
    constructor
    · intro hp'
      obtain rfl := hp'.of_pure
      exact ⟨[], .nil, rfl⟩
    · rintro ⟨parts, hparts, rfl⟩
      cases hparts
      exact Gives.pure p
  | cons source l ih =>
    rw [List.flatMap_cons, List.forall_mem_append] at hlacks
    rw [List.flatMap_cons, List.map_append, List.nodup_append] at hnames
    obtain ⟨-, hrest, hdisjoint⟩ := hnames
    have hjoin : takeSource build locate p source.1 source.2 =
        p.join <$> takeSource build locate {} source.1 source.2 := by
      conv_lhs => rw [← Progress.join_empty p]
      exact takeSource_join hlacks.1
    have hlacks' {part : Progress} (hpart : Gives trees (takeSource build locate {} source.1 source.2) part) :
        ∀ c ∈ l.flatMap compiledIn, (p.join part).Lacks c.key := fun c hc =>
      (hlacks.2 c hc).join (hpart.yields (lacks_takeSource fun c' hc' =>
        hdisjoint _ (List.mem_map_of_mem hc') _ (List.mem_map_of_mem hc)))
    rw [List.foldlM_cons, hjoin]
    constructor
    · intro hp'
      rw [bind_map_left] at hp'
      obtain ⟨part, hpart, hp'⟩ := hp'.of_bind ((reads_takeSource _ _ _).determined h.unique)
      obtain ⟨parts, hparts, rfl⟩ := (ih hrest (hlacks' hpart)).mp hp'
      exact ⟨part :: parts, .cons hpart hparts, rfl⟩
    · rintro ⟨parts, hparts, rfl⟩
      obtain ⟨part, rest, hpart, hpartsRest, rfl⟩ := List.forall₂_cons_left_iff.mp hparts
      rw [bind_map_left]
      exact hpart.bind ((ih hrest (hlacks' hpart)).mpr ⟨rest, hpartsRest, rfl⟩) h (reads_takeSource _ _ _)
        (.foldlM (fun p (source : String × Json) => reads_takeSource p source.1 source.2) _ _)

/-- The same is known at two stages, in another order. -/
structure Progress.Alike (p q : Progress) : Prop where
  run : p.run.Perm q.run
  names : p.references.names.Perm q.references.names
  bases : p.references.bases.Perm q.references.bases
  libraries : p.references.libraries.Perm q.references.libraries

/-- What parts amount to. -/
theorem alike_foldl_join (parts : List Progress) (p : Progress) : (parts.foldl Progress.join p).Alike
    { run := p.run ++ parts.flatMap (·.run)
      references := {
        names := p.references.names ++ parts.flatMap (·.references.names)
        bases := p.references.bases ++ parts.flatMap (·.references.bases)
        libraries := p.references.libraries ++ parts.flatMap (·.references.libraries) } } := by
  induction parts generalizing p with
  | nil => constructor <;> simp
  | cons part parts ih =>
    have h := ih (p.join part)
    constructor
    · simpa [Progress.join] using h.run
    · refine h.names.trans ?_
      simp only [Progress.join, List.flatMap_cons, ← List.append_assoc]
      exact List.perm_append_comm.append_right _
    · simpa [Progress.join] using h.bases
    · simpa [Progress.join] using h.libraries

/-- Parts that are listed in another order, and are known in another order themselves, amount to the same. -/
theorem alike_of_parts {parts mid parts' : List Progress} (hperm : parts.Perm mid)
    (halike : List.Forall₂ Progress.Alike mid parts') (p : Progress) :
    (parts.foldl Progress.join p).Alike (parts'.foldl Progress.join p) := by
  have h := alike_foldl_join parts p
  have h' := alike_foldl_join parts' p
  have hflat {β : Type} {f : Progress → List β} (hf : ∀ a b, Progress.Alike a b → (f a).Perm (f b)) :
      (parts.flatMap f).Perm (parts'.flatMap f) :=
    (hperm.flatMap_right f).trans (perm_flatMap_of_forall₂ (halike.imp hf))
  exact ⟨h.run.trans (((hflat fun _ _ h => h.run).append_left _).trans h'.run.symm),
    h.names.trans (((hflat fun _ _ h => h.names).append_left _).trans h'.names.symm),
    h.bases.trans (((hflat fun _ _ h => h.bases).append_left _).trans h'.bases.symm),
    h.libraries.trans (((hflat fun _ _ h => h.libraries).append_left _).trans h'.libraries.symm)⟩

/-! ## The contracts of a source file in another order -/

/-- What is known differs only in the order of the contracts. -/
structure Progress.Shuffled (p q : Progress) : Prop where
  run : p.run.Perm q.run
  nodup : (p.run.map (·.1)).Nodup
  references : p.references = q.references

theorem Progress.Shuffled.alike (h : p.Shuffled q) : p.Alike q :=
  ⟨h.run, h.references ▸ .refl _, h.references ▸ .refl _, h.references ▸ .refl _⟩

theorem Progress.Shuffled.putFound (h : p.Shuffled q) (key : String)
    (f : ContractRecord × List Json × List Json) : (p.putFound key f).Shuffled (q.putFound key f) where
  run := putField_perm h.run h.nodup
  nodup := nodup_putField h.nodup
  references := by
    unfold Progress.putFound Progress.put
    rw [h.references]

theorem parallel_takeCompiled (h : p.Shuffled q) :
    Parallel Progress.Shuffled (takeCompiled build locate key definition data p)
      (takeCompiled build locate key definition data q) := by
  by_cases hdata : data = .null
  · subst hdata
    exact .pure h
  · rw [takeCompiled_eq hdata, takeCompiled_eq hdata, lookup_perm h.run h.nodup]
    cases q.run.lookup key with
    | none => exact .pure h
    | some record => exact .map fun f => h.putFound key f

theorem parallel_takeDefinitions (h : p.Shuffled q)
    (hheading : ∀ d, heading source contracts d = heading source contracts' d) :
    Parallel Progress.Shuffled (takeDefinitions build locate source contracts p tree)
      (takeDefinitions build locate source contracts' q tree) := by
  unfold takeDefinitions
  refine .bind (.foldlM (fun p q d hpq => ?_) h) fun p' q' h' => ?_
  · rw [takeDefinition_eq_heading, takeDefinition_eq_heading, hheading]
    refine .bind (.refl _) fun heading _ heq => ?_
    subst heq
    refine parallel_takeCompiled ⟨hpq.run, hpq.nodup, ?_⟩
    rw [Progress.enter, Progress.enter, hpq.references]
  · cases (search ["ContractDefinition"] tree).stop with
    | none => exact .pure h'
    | some e =>
      intro s a s' hrun
      cases hrun

/-- The compiled contracts of a source file, each with what is known of it at first. -/
theorem compileAll_eq_ok_iff (hnodup : (entries.map (·.1)).Nodup)
    (hfresh : ∀ entry ∈ entries, source ++ ":" ++ entry.1 ∉ run.map (·.1)) :
    compileAll build source entries run = .ok run' ↔
      ∃ added, List.Forall₂ (fun entry a => a.1 = source ++ ":" ++ entry.1 ∧
        compiled build entry.1 entry.2 = .ok a.2) entries added ∧ run' = run ++ added := by
  unfold compileAll
  induction entries generalizing run with
  | nil =>
    constructor
    · intro h
      cases h
      exact ⟨[], .nil, (List.append_nil _).symm⟩
    · rintro ⟨added, hadded, rfl⟩
      cases hadded
      rw [List.append_nil]
      rfl
  | cons entry entries ih =>
    rw [List.map_cons, List.nodup_cons] at hnodup
    rw [List.forall_mem_cons] at hfresh
    have hput (record : ContractRecord) : putField (source ++ ":" ++ entry.1) record run =
        run ++ [(source ++ ":" ++ entry.1, record)] := putField_not_mem hfresh.1
    have hfresh' (record : ContractRecord) : ∀ other ∈ entries, source ++ ":" ++ other.1 ∉
        (run ++ [(source ++ ":" ++ entry.1, record)]).map (·.1) := by
      intro other hother
      rw [List.map_append, List.mem_append, not_or]
      refine ⟨hfresh.2 other hother, fun hmem => ?_⟩
      have hname : other.1 = entry.1 :=
        (String.append_right_inj _).mp (List.mem_singleton.mp hmem)
      exact hnodup.1 (hname ▸ List.mem_map_of_mem hother)
    rw [List.foldlM_cons, bind_eq_ok_iff]
    constructor
    · rintro ⟨next, hnext, h⟩
      obtain ⟨record, hrecord, hnext⟩ := bind_eq_ok_iff.mp hnext
      cases hnext
      rw [hput] at h
      obtain ⟨added, hadded, rfl⟩ := (ih hnodup.2 (hfresh' record)).mp h
      refine ⟨(source ++ ":" ++ entry.1, record) :: added, .cons ⟨rfl, hrecord⟩ hadded, ?_⟩
      rw [List.append_assoc, List.singleton_append]
    · rintro ⟨added, hadded, rfl⟩
      obtain ⟨⟨key, record⟩, rest, ⟨rfl, hrecord⟩, hrest, rfl⟩ := List.forall₂_cons_left_iff.mp hadded
      refine ⟨_, bind_eq_ok_iff.mpr ⟨record, hrecord, rfl⟩, ?_⟩
      rw [hput]
      refine (ih hnodup.2 (hfresh' record)).mpr ⟨rest, hrest, ?_⟩
      rw [List.append_assoc, List.singleton_append]

/-- The part of a source file does not depend on the order of its contracts. -/
theorem exists_takeSource_of_perm (hnodup : (entries.map (·.1)).Nodup) (hperm : entries.Perm entries')
    (hp : Gives trees (takeSource build locate {} source (.obj entries)) p) :
    ∃ q, Gives trees (takeSource build locate {} source (.obj entries')) q ∧ p.Alike q := by
  have hparallel : Parallel Progress.Shuffled (takeSource build locate {} source (.obj entries))
      (takeSource build locate {} source (.obj entries')) := by
    rw [takeSource_eq, takeSource_eq]
    have hentries (fields : Fields) : (Json.obj fields).entries = .ok fields := rfl
    rw [hentries, hentries, lift_ok_bind, lift_ok_bind]
    have hnodup' : (entries'.map (·.1)).Nodup := (hperm.map _).nodup_iff.mp hnodup
    refine .bind (R := fun run run' : ValidationRun => run.Perm run' ∧ (run.map (·.1)).Nodup)
      (.lift fun run hrun => ?_) fun run run' hrun => .bind (.refl _) fun tree _ heq => ?_
    · obtain ⟨added, hadded, rfl⟩ := (compileAll_eq_ok_iff hnodup (by simp)).mp hrun
      obtain ⟨added', hadded', hadds⟩ := List.perm_comp_forall₂ hperm.symm hadded
      refine ⟨added', (compileAll_eq_ok_iff hnodup' (by simp)).mpr ⟨added', hadded', rfl⟩, hadds.symm, ?_⟩
      have hkeys : run.map (·.1) = entries.map fun entry => source ++ ":" ++ entry.1 :=
        (map_eq_of_forall₂ (hadded.imp fun _ _ h => h.1.symm)).symm
      rw [hkeys]
      exact List.pairwise_map.mpr ((List.pairwise_map.mp hnodup).imp fun hne heq =>
        hne ((String.append_right_inj _).mp heq))
    · subst heq
      have hshuffled : Progress.Shuffled { run } { run := run' } := ⟨hrun.1, hrun.2, rfl⟩
      have hheading (d : Json) :
          heading source (.obj entries) d = heading source (.obj entries') d := by
        have hdata (name : Json) : compiledData (.obj entries) name = compiledData (.obj entries') name := by
          cases name with
          | str s =>
            exact congrArg (fun o : Option Json => Except.ok (o.getD .null)) (lookup_perm hperm hnodup s)
          | null | bool _ | int _ | float _ | arr _ | obj _ => rfl
        simp only [heading, hdata]
      cases tree with
      | null => exact .pure hshuffled
      | bool _ | int _ | float _ | str _ | arr _ | obj _ =>
        exact parallel_takeDefinitions hshuffled hheading
  obtain ⟨q, hq, hshuffled⟩ := hparallel.gives hp
  exact ⟨q, hq, hshuffled.alike⟩

end ValidationRun

end UpgradeSafety
