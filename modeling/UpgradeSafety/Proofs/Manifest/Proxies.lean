import UpgradeSafety.Proofs.Manifest.Programs

/-!
# The list of proxies

The proxies of a store are a table by address, in whatever letter case: no two of them are at the
same address, a lookup finds what the latest operation on an address says, and an operation leaves
the other proxies as they are, in their order (`performAll_proxies`).

Recording a proxy takes out those at its address and puts it behind the others, and removing one
takes out those at an address; nothing else touches the list (`proxies_change`). Each of the three
parts is first shown of one operation, and then of a sequence by induction: that addresses do not
repeat, what a lookup finds (`proxyAt?_replay`), and which proxies are spared (`spared_replay`).

Proxies are read back exactly, so the agreement of what stores hold with the records in memory is
equality here, and the statement carries over to all turns that stores of one place take, those
that fail included: they have no part in it.
-/

namespace UpgradeSafety.Manifest

open Stateful Store

/-! ## What operations do to proxies -/

/-- The address of the proxies that an operation puts aside. -/
def Operation.vacates? : Operation → Option String
  | .addProxy proxy => some proxy.address
  | .removeProxy address => some address
  | _ => none

/-- The proxy that an operation records, if any. -/
def Operation.proxy? : Operation → Option Proxy
  | .addProxy proxy => some proxy
  | _ => none

/-- An operation concerns the proxies at an address. -/
def Operation.concerns (o : Operation) (address : String) : Bool :=
  o.vacates?.any (sameAddress · address)

/-- The proxy that the latest operation on an address recorded, unless it removed it. -/
def latestProxy (operations : List Operation) (address : String) : Option Proxy :=
  (operations.reverse.find? (·.concerns address)).bind (·.proxy?)

/-- The proxies of records that no operation of a sequence concerns, in their order. -/
def Records.spared (r : Records) (operations : List Operation) : List Proxy :=
  r.proxies.filter fun p => operations.all fun o => !o.concerns p.address

namespace Operation

variable {o : Operation} {r : Records}

/-- An operation takes out the proxies that it concerns, and puts the one that it records behind the
others. -/
theorem proxies_change (o : Operation) (r : Records) :
    (o.change r).proxies =
      r.proxies.filter (fun p => !o.concerns p.address) ++ o.proxy?.toList := by
  have hkept (r : Records) : r.proxies = r.proxies.filter (fun _ => !false) ++ [] := by simp
  have hvacated (b : String) : (fun p : Proxy => !sameAddress p.address b) =
      fun p : Proxy => !sameAddress b p.address := by
    funext p
    rw [sameAddress_comm]
  cases o with
  | addProxy proxy =>
    rw [change, Records.addProxy, hvacated]
    rfl
  | removeProxy b =>
    rw [change, Records.removeProxy, hvacated]
    exact (List.append_nil _).symm
  | addDeployment version i =>
    rw [change, Records.addDeployment_eq]
    exact hkept _
  | setAdmin _ | addBeacon _ | proxyAt _ | deployment _ | deploymentAt _ | admin | beaconAt _ =>
    exact hkept r

theorem concerns_of_proxy? {p : Proxy} (h : o.proxy? = some p) (address : String) :
    o.concerns address = sameAddress p.address address := by
  cases o with
  | addProxy proxy =>
    cases h
    rfl
  | removeProxy _ | addDeployment _ _ | setAdmin _ | addBeacon _ | proxyAt _ | deployment _
  | deploymentAt _ | admin | beaconAt _ => cases h

/-- An operation concerns all spellings of an address alike. -/
theorem concerns_congr {a b : String} (h : sameAddress a b = true) :
    o.concerns a = o.concerns b := by
  have heq : Text.lower a = Text.lower b := beq_iff_eq.mp h
  unfold concerns sameAddress
  rw [heq]

/-- No two proxies are at the same address after an operation. -/
theorem unrepeated_change (h : Unrepeated (r.proxies.map (·.address))) :
    Unrepeated ((o.change r).proxies.map (·.address)) := by
  unfold Unrepeated at *
  rw [List.pairwise_map] at *
  rw [proxies_change, List.pairwise_append]
  refine ⟨h.filter _, ?_, fun p hp q hq => ?_⟩
  · cases o.proxy? <;> simp
  · rw [Option.mem_toList] at hq
    have hspared := (List.mem_filter.mp hp).2
    rw [concerns_of_proxy? hq, Bool.not_eq_true'] at hspared
    rwa [sameAddress_comm]

/-- A lookup after an operation that concerns its address finds what the operation recorded, and
otherwise what it found before. -/
theorem proxyAt?_change (o : Operation) (r : Records) (address : String) :
    (o.change r).proxyAt? address =
      if o.concerns address then o.proxy? else r.proxyAt? address := by
  rw [Records.proxyAt?, proxies_change, List.find?_append, List.find?_filter]
  simp only [Bool.decide_and, Bool.decide_eq_true]
  split
  · rename_i hconcerns
    have hnone : r.proxies.find? (fun p => !o.concerns p.address && sameAddress p.address address) =
        none := by
      refine List.find?_eq_none.mpr fun p _ hp => ?_
      rw [Bool.and_eq_true, Bool.not_eq_true'] at hp
      rw [concerns_congr hp.2, hconcerns] at hp
      cases hp.1
    rw [hnone, Option.none_or]
    cases hproxy : o.proxy? with
    | none => rfl
    | some p =>
      rw [concerns_of_proxy? hproxy] at hconcerns
      simp [hconcerns]
  · rename_i hspared
    rw [Bool.not_eq_true] at hspared
    have hsame : (fun p : Proxy => !o.concerns p.address && sameAddress p.address address) =
        fun p : Proxy => sameAddress p.address address := by
      funext p
      cases hp : sameAddress p.address address with
      | false => exact Bool.and_false _
      | true => rw [concerns_congr hp, hspared]; rfl
    have hnone : o.proxy?.toList.find? (fun p => sameAddress p.address address) = none := by
      cases hproxy : o.proxy? with
      | none => rfl
      | some p =>
        rw [concerns_of_proxy? hproxy] at hspared
        simp [hspared]
    rw [hsame, hnone, Option.or_none, Records.proxyAt?]

/-- The proxies that an operation does not concern stay as they are, in their order. -/
theorem spared_change (o : Operation) (r : Records) :
    (o.change r).proxies.filter (fun p => !o.concerns p.address) =
      r.proxies.filter fun p => !o.concerns p.address := by
  rw [proxies_change, List.filter_append, List.filter_filter]
  simp only [Bool.and_self]
  cases hproxy : o.proxy? with
  | none => exact List.append_nil _
  | some p =>
    have hself : o.concerns p.address = true := by
      rw [concerns_of_proxy? hproxy, sameAddress_refl]
    simp [hself]

end Operation

/-! ## Sequences of operations -/

theorem unrepeated_replay {operations : List Operation} {r : Records}
    (h : Unrepeated (r.proxies.map (·.address))) :
    Unrepeated ((replay operations r).proxies.map (·.address)) := by
  induction operations generalizing r with
  | nil => exact h
  | cons o operations ih => exact ih (o.unrepeated_change h)

/-- A lookup after a sequence of operations finds what the latest one on its address says. -/
theorem proxyAt?_replay (operations : List Operation) (address : String) :
    (replay operations {}).proxyAt? address = latestProxy operations address := by
  induction operations using List.reverseRecOn with
  | nil => rfl
  | append_singleton operations o ih =>
    rw [replay_append, latestProxy, List.reverse_append, List.reverse_singleton,
      List.singleton_append, List.find?_cons]
    refine (o.proxyAt?_change _ address).trans ?_
    cases o.concerns address with
    | true => rfl
    | false => exact ih

/-- The proxies that no operation of a sequence concerns stay as they are, in their order. -/
theorem spared_replay (operations : List Operation) (r : Records) :
    (replay operations r).spared operations = r.spared operations := by
  unfold Records.spared
  induction operations generalizing r with
  | nil => rfl
  | cons o operations ih =>
    have hsplit (proxies : List Proxy) :
        proxies.filter (fun p => (o :: operations).all fun o => !o.concerns p.address) =
          (proxies.filter fun p => operations.all fun o => !o.concerns p.address).filter
            fun p => !o.concerns p.address := by
      rw [List.filter_filter]
      rfl
    rw [replay_cons, hsplit, hsplit, ih, List.filter_comm, o.spared_change, List.filter_comm]

variable {σ : Type} {s : Store} {w : Workspace σ}

/-- In every state that turns of stores of one place reach from no records, no two proxies are at the
same address, in whatever letter case; a lookup finds the proxy that the latest operation on its
address recorded, and is refused if there is none or it was removed; and the proxies that the latest
turns do not concern are as they were before these, in their order. Turns that cannot be written have
no part in this. -/
theorem performAll_proxies {turns others : List (Store × Turn)} (h : s.AtRest w {})
    (hturns : Rounds s w (turns ++ others))
    (ho : ∀ c ∈ turns ++ others, ∀ o ∈ c.2.operations, o.Storable) :
    ∃ results w₁ r₁ results' w₂ r₂, (performAll turns).run.run w = (.ok results, w₁) ∧
      s.AtRest w₁ r₁ ∧ (performAll others).run.run w₁ = (.ok results', w₂) ∧ s.AtRest w₂ r₂ ∧
      Succeed turns results ∧ Succeed others results' ∧
      Unrepeated (r₂.proxies.map (·.address)) ∧
      (∀ address, ∃ w₃, (s.proxyAt address).run.run w₂ =
        (Operation.lookedUp (.unknownProxy address)
          (latestProxy (recorded turns results ++ recorded others results') address), w₃)) ∧
      r₂.spared (recorded others results') = r₁.spared (recorded others results') := by
  rw [Rounds, List.forall_mem_append] at hturns
  rw [List.forall_mem_append] at ho
  obtain ⟨w₁, results, r₁, hrun, hdrafts, h₁, hsucceed, hm₁⟩ :=
    performAll_atRest likeness_samePlaces h Records.agree_empty hturns.1 ho.1
      fun _ _ => lasts_samePlaces _
  obtain ⟨w₂, results', r₂, hrun', -, h₂, hsucceed', hm₂⟩ :=
    performAll_atRest likeness_samePlaces h₁ hm₁ (fun c hc => hdrafts.symm ▸ hturns.2 c hc) ho.2
      fun _ _ => lasts_samePlaces _
  refine ⟨results, w₁, r₁, results', w₂, r₂, hrun, h₁, hrun', h₂, hsucceed, hsucceed', ?_,
    fun address => ?_, ?_⟩
  · rw [← hm₂.proxies]
    exact unrepeated_replay (unrepeated_replay List.Pairwise.nil)
  · obtain ⟨w₃, hfind, -⟩ := h₂.run_find (·.proxyAt? address) (.unknownProxy address)
    refine ⟨w₃, ?_⟩
    rw [← proxyAt?_replay, replay_append, Records.proxyAt?, hm₂.proxies]
    exact hfind
  · have hspared := spared_replay (recorded others results') (replay (recorded turns results) {})
    unfold Records.spared at *
    rwa [hm₂.proxies, hm₁.proxies] at hspared

/-- A proxy is recorded, then another one. -/
def proxiesRecorded : List (Store × Turn) :=
  mainTurns [.addProxy ⟨"0xa", none, .uups⟩, .addProxy ⟨"0xb", none, .beacon⟩]

/-- A proxy is recorded again in another letter case. -/
def proxyReplaced : List (Store × Turn) :=
  mainTurns [.addProxy ⟨"0xA", some "0x1", .transparent⟩]

theorem performAll_proxies_replaced : ∃ results w₁ r₁ results' w₂ r₂,
    (performAll proxiesRecorded).run.run emptyWorkspace = (.ok results, w₁) ∧
      mainStore.AtRest w₁ r₁ ∧
      (performAll proxyReplaced).run.run w₁ = (.ok results', w₂) ∧ mainStore.AtRest w₂ r₂ ∧
      Succeed proxiesRecorded results ∧ Succeed proxyReplaced results' ∧
      Unrepeated (r₂.proxies.map (·.address)) ∧
      (∀ address, ∃ w₃, (mainStore.proxyAt address).run.run w₂ =
        (Operation.lookedUp (.unknownProxy address) (latestProxy
          (recorded proxiesRecorded results ++ recorded proxyReplaced results') address), w₃)) ∧
      r₂.spared (recorded proxyReplaced results') = r₁.spared (recorded proxyReplaced results') := by
  have hall : proxiesRecorded ++ proxyReplaced = mainTurns [.addProxy ⟨"0xa", none, .uups⟩,
      .addProxy ⟨"0xb", none, .beacon⟩, .addProxy ⟨"0xA", some "0x1", .transparent⟩] := rfl
  refine performAll_proxies atRest_mainStore ?_ ?_
  · rw [hall]
    exact rounds_mainTurns _
  · rw [hall]
    refine forall_mainTurns fun o ho => ?_
    fin_cases ho <;> trivial

end UpgradeSafety.Manifest
