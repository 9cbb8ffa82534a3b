import UpgradeSafety.Proofs.Safety.Annotated

/-!
# What annotations suppress

The errors of a contract are those that it would have without documentation, less those that an
annotation allows at the node that they are about or at a node around it
(`contractErrors_eq_unallowed`).

The checks are taken one after the other: constructors and calls, which are searches in the tree,
then state variables, and libraries. For each of them the errors of the program are the findings
without documentation, filtered (`suppresses_constructors`, `suppresses_calls`,
`suppresses_variables`, `suppresses_linking`), and the errors of a contract are these lists one
behind the other.

State variables need the most work. Several errors are about one variable, each of its own kind,
and the program judges each kind by the annotations of the variable and of the contract; a variable
in the tree without documentation is judged by the same rules (`JudgedBy`). Removing the
documentation leaves names, types and places of nodes as they are, so the texts of the errors are
the same.
-/

namespace UpgradeSafety.Safety

open Syntax

variable {contract bytecode : Json} {locate : Locate} {kind : SafetyKind} {errors : List SafetyError}

/-! ## The checks -/

theorem map_bind {α β γ : Type} (x : Except Failure α) (f : α → β) (g : β → Except Failure γ) :
    x.map f >>= g = x >>= fun a => g (f a) := by
  cases x <;> rfl

theorem Annotated.exists_fields (h : Annotated contract) : ∃ fields, contract = .obj fields := by
  have hnode := h.isNode
  cases contract with
  | obj fields => exact ⟨fields, rfl⟩
  | null | bool _ | int _ | float _ | str _ | arr _ => cases hnode

/-- The contract is the outermost object of its tree. -/
theorem Annotated.mem_spots (h : Annotated contract) :
    ⟨contract, enclosing [] contract⟩ ∈ spots [] contract := by
  obtain ⟨fields, rfl⟩ := h.exists_fields
  rw [spots_obj]
  exact List.mem_cons_self

/-- Names are the same without documentation. -/
theorem Annotated.get_name (h : Annotated contract) {s : Spot} (hs : s ∈ spots [] contract)
    (hnode : Syntax.isNode s.node = true) :
    (undocumented s.node).get "name" = s.node.get "name" := by
  obtain ⟨fields, hobject⟩ := exists_fields_of_mem_spots hs
  have hname := h.names s hs hnode
  have hget : s.node.get "name" = .ok (s.node.field "name") := by rw [hobject]; rfl
  rw [get_undocumented (by decide), hget, Except.map, hname]

theorem constructorAt_undocumented (h : Annotated contract) (hlocate : IgnoresDocumentation locate)
    (f : Json) :
    constructorAt (undocumented contract) locate (undocumented f) = constructorAt contract locate f := by
  unfold constructorAt
  have hname := h.get_name h.mem_spots h.isNode
  have hbody := orElse_undocumented (.obj []) rfl
  rw [hname]
  generalize contract.get "name" = name
  simp only [get_undocumented, ne_eq, String.reduceEq, not_false_eq_true, map_bind,
    text?_undocumented, truthy_undocumented, hbody, hlocate f]

theorem callAt_undocumented (word : String) (hlocate : IgnoresDocumentation locate) (call : Json) :
    callAt kind word locate (undocumented call) = callAt kind word locate call := by
  unfold callAt
  have hobject := orElse_undocumented (.obj []) rfl
  have htext := orElse_undocumented (.str "") rfl
  have hexpression : ∀ v, (undocumented v).getOr "expression" (.obj []) =
      (v.getOr "expression" (.obj [])).map undocumented := getOr_undocumented (by decide) rfl
  simp only [get_undocumented, ne_eq, String.reduceEq, not_false_eq_true, map_bind, hobject, htext,
    hexpression, hlocate call]
  refine bind_congr fun expression => bind_congr fun description => bind_congr fun type => ?_
  cases type.orElse (.str "") <;> rfl

theorem kind_constructorAt {f : Json} (h : constructorAt contract locate f = .ok errors) :
    ∀ e ∈ errors, e.kind = .constructor := by
  unfold constructorAt at h
  obtain ⟨functionKind, -, h⟩ := bind_eq_ok_iff.mp h
  split at h
  · cases h
    exact nofun
  · obtain ⟨body, -, h⟩ := bind_eq_ok_iff.mp h
    obtain ⟨statements, -, h⟩ := bind_eq_ok_iff.mp h
    have hrelevant : ∀ relevant : Bool, (if relevant = true then do
        return [{ kind := .constructor, src := .str (← locate f), contract := ← contract.get "name" }]
        else return []) = Except.ok errors → ∀ e ∈ errors, e.kind = SafetyKind.constructor := by
      intro relevant h
      split at h
      · obtain ⟨src, -, h⟩ := bind_eq_ok_iff.mp h
        obtain ⟨name, -, h⟩ := bind_eq_ok_iff.mp h
        cases h
        exact List.forall_mem_singleton.mpr rfl
      · cases h
        exact nofun
    split at h
    · exact hrelevant true h
    · obtain ⟨modifiers, -, h⟩ := bind_eq_ok_iff.mp h
      exact hrelevant modifiers.truthy h

theorem kind_callAt {word : String} {call : Json} (h : callAt kind word locate call = .ok errors) :
    ∀ e ∈ errors, e.kind = kind := by
  unfold callAt at h
  obtain ⟨expression, -, h⟩ := bind_eq_ok_iff.mp h
  obtain ⟨description, -, h⟩ := bind_eq_ok_iff.mp h
  obtain ⟨type, -, h⟩ := bind_eq_ok_iff.mp h
  split at h
  · split at h
    · obtain ⟨src, -, h⟩ := bind_eq_ok_iff.mp h
      cases h
      exact List.forall_mem_singleton.mpr rfl
    · cases h
      exact nofun
  · cases h

theorem kind_declarationAt {v : Json} (h : declarationAt kind locate v = .ok errors) :
    ∀ e ∈ errors, e.kind = kind := by
  unfold declarationAt at h
  obtain ⟨src, -, h⟩ := bind_eq_ok_iff.mp h
  obtain ⟨name, -, h⟩ := bind_eq_ok_iff.mp h
  cases h
  exact List.forall_mem_singleton.mpr rfl

theorem suppresses_constructors (h : Annotated contract) (hlocate : IgnoresDocumentation locate) :
    Suppresses (treeFindings ["FunctionDefinition"] (constructorAt contract locate) contract)
      (constructorErrors (undocumented contract) locate) (constructorErrors contract locate) :=
  suppresses_search h (by decide) (fun s _ => constructorAt_undocumented h hlocate s.node)
    fun _ _ => kind_constructorAt

theorem suppresses_calls {word : String} (h : Annotated contract)
    (hlocate : IgnoresDocumentation locate) :
    Suppresses (treeFindings ["FunctionCall"] (callAt kind word locate) contract)
      (callErrors kind word (undocumented contract) locate) (callErrors kind word contract locate) :=
  suppresses_search h (by decide) (fun s _ => callAt_undocumented word hlocate s.node)
    fun _ _ => kind_callAt

/-! ## State variables -/

/-- What stands for a state variable. -/
def isVariable (v : Json) : Prop := (v.field "nodeType").text? = some "VariableDeclaration"

theorem isNode_of_isVariable {v : Json} (h : isVariable v) : Syntax.isNode v = true := by
  unfold isVariable at h
  unfold Syntax.isNode
  cases htype : v.field "nodeType" with
  | str s =>
    rw [htype] at h
    cases h
    rfl
  | null | bool _ | int _ | float _ | arr _ | obj _ =>
    rw [htype] at h
    cases h

theorem isVariable_of_get {v type : Json} (h : v.get "nodeType" = .ok type)
    (htype : type.text? = some "VariableDeclaration") : isVariable v := by
  cases v with
  | obj fields =>
    cases h
    exact htype
  | null | bool _ | int _ | float _ | str _ | arr _ => cases h

section

variable {judge' judge : SafetyKind → Json → Except Failure (List SafetyError)} {v : Json}

theorem assignedWith_undocumented (h : ∀ kind, judge' kind (undocumented v) = judge kind v) :
    assignedWith judge' (undocumented v) = assignedWith judge v := by
  unfold assignedWith
  simp only [get_undocumented, ne_eq, String.reduceEq, not_false_eq_true, map_bind, truthy_undocumented,
    h]
  refine bind_congr fun constant => ?_
  cases !constant.truthy with
  | true =>
    refine bind_congr fun value : Json => ?_
    cases value <;> rfl
  | false => rfl

theorem immutableWith_undocumented (h : ∀ kind, judge' kind (undocumented v) = judge kind v) :
    immutableWith judge' (undocumented v) = immutableWith judge v := by
  unfold immutableWith
  rw [get_undocumented (by decide), map_bind, h]
  exact bind_congr fun mutability => by rw [text?_undocumented]

/-- What is unsafe about a variable is the same by judges that agree about it. -/
theorem variableWith_undocumented (h : isVariable v → ∀ kind, judge' kind (undocumented v) = judge kind v) :
    variableWith judge' (undocumented v) = variableWith judge v := by
  unfold variableWith
  rw [get_undocumented (by decide), map_bind]
  cases htype : v.get "nodeType" with
  | error e => rfl
  | ok type =>
    rw [ok_bind, ok_bind, text?_undocumented]
    by_cases hvariable : type.text? = some "VariableDeclaration"
    · have hagree := h (isVariable_of_get htype hvariable)
      rw [assignedWith_undocumented hagree, immutableWith_undocumented hagree]
    · rw [if_pos (bne_iff_ne.mpr hvariable), if_pos (bne_iff_ne.mpr hvariable)]

/-- What there is of one kind about a variable: nothing whatever the judge, or what the judge says. -/
def JudgedBy (part : (SafetyKind → Json → Except Failure (List SafetyError)) → Json →
      Except Failure (List SafetyError))
    (judge : SafetyKind → Json → Except Failure (List SafetyError)) (kind : SafetyKind) (v : Json)
    (errors : List SafetyError) : Prop :=
  errors = [] ∧ (∀ judge', part judge' v = .ok []) ∨
    judge kind v = .ok errors ∧ ∀ judge', part judge' v = judge' kind v

theorem judgedBy_assignedWith (h : assignedWith judge v = .ok errors) :
    JudgedBy assignedWith judge .stateVariableAssignment v errors := by
  unfold assignedWith at h
  obtain ⟨constant, hconstant, h⟩ := bind_eq_ok_iff.mp h
  cases hcase : !constant.truthy with
  | true =>
    rw [hcase, if_pos rfl] at h
    obtain ⟨value, hvalue, h⟩ := bind_eq_ok_iff.mp h
    have hopen : ∀ judge', assignedWith judge' v = unlessNull (judge' .stateVariableAssignment v) value := by
      intro judge'
      rw [assignedWith, hconstant, ok_bind, hcase, if_pos rfl, hvalue, ok_bind]
    cases value with
    | null =>
      cases h
      exact Or.inl ⟨rfl, hopen⟩
    | bool _ | int _ | float _ | str _ | arr _ | obj _ => exact Or.inr ⟨h, hopen⟩
  | false =>
    rw [hcase, if_neg Bool.false_ne_true] at h
    cases h
    refine Or.inl ⟨rfl, fun judge' => ?_⟩
    rw [assignedWith, hconstant, ok_bind, hcase]
    rfl

theorem judgedBy_immutableWith (h : immutableWith judge v = .ok errors) :
    JudgedBy immutableWith judge .stateVariableImmutable v errors := by
  unfold immutableWith at h
  obtain ⟨mutability, hmutability, h⟩ := bind_eq_ok_iff.mp h
  have hopen : ∀ judge', immutableWith judge' v =
      if mutability.text? == some "immutable" then judge' .stateVariableImmutable v else .ok [] := by
    intro judge'
    rw [immutableWith, hmutability]
    rfl
  split at h
  · rename_i hcase
    exact Or.inr ⟨h, fun judge' => by rw [hopen, if_pos hcase]⟩
  · rename_i hcase
    cases h
    exact Or.inl ⟨rfl, fun judge' => by rw [hopen, if_neg hcase]⟩

variable {part : (SafetyKind → Json → Except Failure (List SafetyError)) → Json →
  Except Failure (List SafetyError)}

theorem JudgedBy.kind_eq (h : JudgedBy part judge kind v errors)
    (hkind : ∀ errors, judge kind v = .ok errors → ∀ e ∈ errors, e.kind = kind) :
    ∀ e ∈ errors, e.kind = kind := by
  rcases h with ⟨rfl, -⟩ | ⟨hjudged, -⟩
  · exact nofun
  · exact hkind errors hjudged

theorem JudgedBy.of_judge (h : JudgedBy part judge kind v errors) {allowed : Bool}
    (hjudge : ∀ errors, judge kind v = .ok errors →
      judge' kind v = .ok (if allowed then [] else errors)) :
    part judge' v = .ok (if allowed then [] else errors) := by
  rcases h with ⟨rfl, hnone⟩ | ⟨hjudged, hsame⟩
  · rw [hnone, ite_self]
  · rw [hsame, hjudge errors hjudged]

end

variable {v : Json}

/-- The annotations that count for a state variable are its own and those of the contract. -/
theorem variableError_eq (hcontract : ∃ kinds, allowedBy contract = .ok kinds)
    (hv : ∃ kinds, allowedBy v = .ok kinds) (h : declarationAt kind locate v = .ok errors) :
    variableError kind contract v locate =
      .ok (if allowedAround kind [v, contract] then [] else errors) := by
  unfold declarationAt at h
  unfold variableError
  rw [allows_of_recognised hcontract, allows_of_recognised hv, ok_bind, ok_bind]
  have haround : allowedAround kind [v, contract] =
      (decide (kind ∈ allowedKinds v) || decide (kind ∈ allowedKinds contract)) := by
    rw [allowedAround, List.any_cons, List.any_cons, List.any_nil, Bool.or_false]
  rw [haround]
  cases decide (kind ∈ allowedKinds contract) with
  | true =>
    rw [Bool.or_true]
    rfl
  | false =>
    cases decide (kind ∈ allowedKinds v) with
    | true => rfl
    | false => exact h

theorem variableError_undocumented (h : Annotated contract) (hlocate : IgnoresDocumentation locate)
    (hv : ∃ around, ⟨v, around⟩ ∈ spots [] contract) (hvariable : isVariable v) :
    variableError kind (undocumented contract) (undocumented v) locate =
      declarationAt kind locate v := by
  obtain ⟨around, hspot⟩ := hv
  unfold variableError declarationAt
  rw [allows_undocumented h.isNode, allows_undocumented (isNode_of_isVariable hvariable), hlocate v,
    h.get_name hspot (isNode_of_isVariable hvariable)]
  rfl

theorem suppresses_variable (h : Annotated contract)
    (hv : isVariable v → ∃ around, ⟨v, around⟩ ∈ spots [] contract) :
    Suppresses (foundAt (variableWith fun kind => declarationAt kind locate) ⟨v, [v, contract]⟩)
      (variableWith (fun kind => declarationAt kind locate) v)
      (variableWith (fun kind v => variableError kind contract v locate) v) := by
  intro errors herrors
  refine ⟨_, foundAt_of_ok herrors, map_error_findingsAt, ?_⟩
  unfold variableWith at herrors ⊢
  obtain ⟨type, htype, herrors⟩ := bind_eq_ok_iff.mp herrors
  rw [htype, ok_bind]
  split at herrors
  · rename_i hother
    cases herrors
    rw [if_pos hother]
    rfl
  · rename_i hvariable
    have hvariable := isVariable_of_get htype (not_not.mp fun hne => hvariable (bne_iff_ne.mpr hne))
    obtain ⟨assigned, hassigned, herrors⟩ := bind_eq_ok_iff.mp herrors
    obtain ⟨immutable, himmutable, herrors⟩ := bind_eq_ok_iff.mp herrors
    cases herrors
    have hassigned := judgedBy_assignedWith hassigned
    have himmutable := judgedBy_immutableWith himmutable
    obtain ⟨around, hspot⟩ := hv hvariable
    have hjudge : ∀ kind errors, declarationAt kind locate v = .ok errors →
        variableError kind contract v locate =
          .ok (if allowedAround kind [v, contract] then [] else errors) := fun kind errors =>
      variableError_eq (h.recognised _ h.mem_spots h.isNode)
        (h.recognised _ hspot (isNode_of_isVariable hvariable))
    rw [if_neg ‹_›, hassigned.of_judge (hjudge _), himmutable.of_judge (hjudge _), findingsAt,
      List.map_append, List.filter_append, List.map_append, ← findingsAt, ← findingsAt,
      unallowed_findingsAt (hassigned.kind_eq fun _ => kind_declarationAt),
      unallowed_findingsAt (himmutable.kind_eq fun _ => kind_declarationAt)]
    rfl

theorem variableWith_text (judge : SafetyKind → Json → Except Failure (List SafetyError)) (s : String) :
    variableWith judge (.str s) = .error (.fault .notAnObject) := rfl

/-- Texts in the place of a contract's nodes are no state variables. -/
theorem eq_nil_of_mapM_variableWith {judge : SafetyKind → Json → Except Failure (List SafetyError)}
    {texts : List String} {parts : List (List SafetyError)}
    (h : (texts.map Json.str).mapM (variableWith judge) = .ok parts) : texts = [] := by
  cases texts with
  | nil => rfl
  | cons s texts =>
    rw [List.map_cons, List.mapM_cons, variableWith_text] at h
    cases h

/-- A state variable among a contract's nodes is an object in its tree. -/
theorem Annotated.mem_spots_node (h : Annotated contract) {items : List Json}
    (hitems : contract.getOr "nodes" (.arr []) = .ok (.arr items)) (hv : v ∈ items)
    (hvariable : isVariable v) : ∃ around, ⟨v, around⟩ ∈ spots [] contract := by
  have hnode := isNode_of_isVariable hvariable
  obtain ⟨fields, rfl⟩ := h.exists_fields
  have hitems : (fields.lookup "nodes").getD (.arr []) = .arr items := Except.ok.inj hitems
  cases hlookup : fields.lookup "nodes" with
  | none =>
    rw [hlookup] at hitems
    cases hitems
    cases hv
  | some nodes =>
    rw [hlookup] at hitems
    obtain rfl : nodes = .arr items := hitems
    cases v with
    | obj _ => exact mem_spots_of_field hlookup hv
    | null | bool _ | int _ | float _ | str _ | arr _ => cases hnode

theorem suppresses_variables (h : Annotated contract) (hlocate : IgnoresDocumentation locate) :
    Suppresses (stateFindings contract locate) (variableErrors (undocumented contract) locate)
      (variableErrors contract locate) := by
  intro errors hbare
  rw [variableErrors_eq, getOr_undocumented (by decide) rfl, map_bind] at hbare
  obtain ⟨field, hfield, hbare⟩ := bind_eq_ok_iff.mp hbare
  obtain ⟨elements, helements, hbare⟩ := bind_eq_ok_iff.mp hbare
  obtain ⟨parts, hparts, hbare⟩ := bind_eq_ok_iff.mp hbare
  cases hbare
  rw [stateFindings, variableErrors_eq, hfield, ok_bind, ok_bind]
  rcases elements_undocumented helements with ⟨items, rfl, rfl⟩ | ⟨texts, rfl, hnone⟩
  · rw [List.mapM_map] at hparts
    have hjudged : items.mapM ((variableWith fun kind v =>
        variableError kind (undocumented contract) v locate) ∘ undocumented) =
        items.mapM (variableWith fun kind => declarationAt kind locate) :=
      mapM_congr fun v hv => variableWith_undocumented fun hvariable kind =>
        variableError_undocumented h hlocate (h.mem_spots_node hfield hv hvariable) hvariable
    rw [hjudged] at hparts
    have hparts := congrArg (Except.map List.flatten) hparts
    exact Suppresses.mapM (fun v hv => suppresses_variable h (h.mem_spots_node hfield hv)) _ hparts
  · obtain rfl := eq_nil_of_mapM_variableWith hparts
    cases hparts
    rw [hnone rfl]
    exact ⟨[], rfl, rfl, rfl⟩

/-! ## Libraries -/

theorem kind_linkingAt (h : linkingAt bytecode = .ok errors) :
    ∀ e ∈ errors, e.kind = .externalLibraryLinking := by
  unfold linkingAt at h
  obtain ⟨field, -, h⟩ := bind_eq_ok_iff.mp h
  obtain ⟨references, -, h⟩ := bind_eq_ok_iff.mp h
  obtain ⟨parts, hparts, h⟩ := bind_eq_ok_iff.mp h
  cases h
  intro e he
  obtain ⟨part, hpart, he⟩ := List.mem_flatten.mp he
  obtain ⟨reference, -, hreference⟩ := exists_of_mem_forall₂ (mapM_eq_ok_iff.mp hparts) hpart
  obtain ⟨libraries, -, hreference⟩ := bind_eq_ok_iff.mp hreference
  cases hreference
  obtain ⟨library, -, rfl⟩ := List.mem_map.mp he
  rfl

theorem suppresses_linking (h : Annotated contract) :
    Suppresses (foundAt (fun _ => linkingAt bytecode) ⟨contract, [contract]⟩)
      (linkingErrors (undocumented contract) bytecode) (linkingErrors contract bytecode) := by
  intro errors hbare
  rw [linkingErrors_eq, allows_undocumented h.isNode, ok_bind, if_neg Bool.false_ne_true] at hbare
  have hfound : Suppresses (foundAt (fun _ => linkingAt bytecode) ⟨contract, [contract]⟩)
      (linkingAt bytecode) (linkingErrors contract bytecode) := by
    refine suppresses_foundAt (fun _ => kind_linkingAt) fun errors herrors => ?_
    rw [linkingErrors_eq, allows_of_recognised (h.recognised _ h.mem_spots h.isNode), ok_bind, herrors,
      allowedAround, List.any_cons, List.any_nil, Bool.or_false]
    split <;> rfl
  exact hfound errors hbare

/-! ## All errors -/

/-- Annotations suppress the errors that they name at their node and inside it, and no others. -/
theorem contractErrors_eq_unallowed (h : Annotated contract) (hlocate : IgnoresDocumentation locate)
    (hbare : contractErrors (undocumented contract) bytecode locate = .ok errors) :
    ∃ found, findings contract bytecode locate = .ok found ∧ found.map (·.error) = errors ∧
      contractErrors contract bytecode locate =
        .ok ((found.filter (!·.isAllowed)).map (·.error)) := by
  unfold contractErrors at hbare
  obtain ⟨constructors, hconstructors, hbare⟩ := bind_eq_ok_iff.mp hbare
  obtain ⟨delegatecalls, hdelegatecalls, hbare⟩ := bind_eq_ok_iff.mp hbare
  obtain ⟨selfdestructs, hselfdestructs, hbare⟩ := bind_eq_ok_iff.mp hbare
  obtain ⟨state, hstate, hbare⟩ := bind_eq_ok_iff.mp hbare
  obtain ⟨linking, hlinking, hbare⟩ := bind_eq_ok_iff.mp hbare
  cases hbare
  obtain ⟨constructors', hconstructors', rfl, hconstructors₁⟩ :=
    suppresses_constructors h hlocate _ hconstructors
  obtain ⟨delegatecalls', hdelegatecalls', rfl, hdelegatecalls₁⟩ :=
    suppresses_calls h hlocate _ hdelegatecalls
  obtain ⟨selfdestructs', hselfdestructs', rfl, hselfdestructs₁⟩ :=
    suppresses_calls h hlocate _ hselfdestructs
  obtain ⟨state', hstate', rfl, hstate₁⟩ := suppresses_variables h hlocate _ hstate
  obtain ⟨linking', hlinking', rfl, hlinking₁⟩ := suppresses_linking h _ hlinking
  refine ⟨constructors' ++ delegatecalls' ++ selfdestructs' ++ state' ++ linking', ?_, ?_, ?_⟩
  · rw [findings, hconstructors', hdelegatecalls', hselfdestructs', hstate', hlinking']
    rfl
  · simp only [List.map_append]
  · rw [contractErrors, hconstructors₁, hdelegatecalls₁, hselfdestructs₁, hstate₁, hlinking₁]
    simp only [List.filter_append, List.map_append]
    rfl

/-- A call that delegates. -/
def delegating (src : String) : Json := .obj [
  ("nodeType", .str "FunctionCall"), ("src", .str src),
  ("expression", .obj [("nodeType", .str "MemberAccess"),
    ("typeDescriptions", .obj [("typeIdentifier", .str "t_function_baredelegatecall_nonpayable")])])]

/-- A function with a call that delegates. -/
def delegatingFunction (documentation : Json) (src : String) : Json := .obj [
  ("nodeType", .str "FunctionDefinition"), ("kind", .str "function"), ("documentation", documentation),
  ("body", .obj [("nodeType", .str "Block"), ("statements", .arr [delegating src])])]

/-- A contract that allows libraries, an initial value of an immutable variable, and one of two calls. -/
def allowingContract : Json := .obj [
  ("nodeType", .str "ContractDefinition"), ("name", .str "Vault"),
  ("documentation", .obj [("nodeType", .str "StructuredDocumentation"),
    ("text", .str "@custom:oz-upgrades-unsafe-allow external-library-linking")]),
  ("nodes", .arr [
    .obj [("nodeType", .str "VariableDeclaration"), ("name", .str "cap"), ("src", .str "0:1:0"),
      ("documentation", .str "@custom:oz-upgrades-unsafe-allow state-variable-assignment"),
      ("value", .obj [("nodeType", .str "Literal")]), ("mutability", .str "immutable")],
    delegatingFunction (.str "@custom:oz-upgrades-unsafe-allow delegatecall") "1:1:0",
    delegatingFunction .null "2:1:0"])]

/-- A bytecode to be linked with a library. -/
def linkedBytecode : Json :=
  .obj [("linkReferences", .obj [("lib.sol", .obj [("Lib", .arr [.obj []])])])]

/-- The lines of the contract. -/
def allowingSources : Sources :=
  ⟨[(.int 0, "vault.sol")], .obj [("vault.sol", .obj [("content", .str "\n\n\n")])]⟩

/-- The errors of the contract without its documentation. -/
def allowingErrors : List SafetyError := [
  { kind := .delegatecall, src := .str "vault.sol:2" },
  { kind := .delegatecall, src := .str "vault.sol:3" },
  { kind := .stateVariableAssignment, src := .str "vault.sol:1", name := .str "cap" },
  { kind := .stateVariableImmutable, src := .str "vault.sol:1", name := .str "cap" },
  { kind := .externalLibraryLinking, src := .str "lib.sol", name := .str "Lib" }]

theorem contractErrors_allowingContract : Annotated allowingContract ∧
    IgnoresDocumentation allowingSources.locate ∧
    contractErrors (undocumented allowingContract) linkedBytecode allowingSources.locate =
      .ok allowingErrors ∧
    contractErrors allowingContract linkedBytecode allowingSources.locate = .ok [
      { kind := .delegatecall, src := .str "vault.sol:3" },
      { kind := .stateVariableImmutable, src := .str "vault.sol:1", name := .str "cap" }] := by
  have hlocate := ignoresDocumentation_locate allowingSources
  -- evaluated at one go, so that every annotation is read once
  obtain ⟨hannotated, hbare, hunallowed⟩ : Annotated allowingContract ∧
      (contractErrors (undocumented allowingContract) linkedBytecode
        allowingSources.locate).toOption = some allowingErrors ∧
      ((findings allowingContract linkedBytecode allowingSources.locate).map fun found =>
        (found.filter (!·.isAllowed)).map (·.error)).toOption = some [
          { kind := .delegatecall, src := .str "vault.sol:3" },
          { kind := .stateVariableImmutable, src := .str "vault.sol:1", name := .str "cap" }] := by
    decide +kernel
  have hbare := eq_ok_of_toOption hbare
  have hunallowed := eq_ok_of_toOption hunallowed
  obtain ⟨found, hfound, -, hactual⟩ := contractErrors_eq_unallowed hannotated hlocate hbare
  rw [hfound] at hunallowed
  exact ⟨hannotated, hlocate, hbare, hactual.trans hunallowed⟩

end UpgradeSafety.Safety
