import SygmaRelayer.Proofs.DepositIsolation

/-! Two relayers that read the same block. Each iterates over its resources in an order of
its own, anew for every transaction, and takes the first resource that counts the
transaction as a deposit. They agree exactly if no transaction gives messages for two
resources. -/

namespace Sygma.BtcListener

open Go Grouping

/-- The data `DecodeDepositEvent` reads, whatever the resource. -/
def opReturnData (vout : List Vout) (data : List UInt8) : Outcome (List UInt8) :=
  vout.foldlM readOpReturn data

section Decode

variable (resource : Resource) (feeAddress : String)

/-- The variables of the loop carry the ID of a resource that is paid. -/
def Reading.Marked (r : Reading) : Prop :=
  r.isBridgeDeposit = true → r.resourceID = resource.resourceID

variable {resource}

theorem readVout_spec {r : Reading} (hid : r.Marked resource) (v : Vout) :
    match readOpReturn r.data v with
    | .error fault => readVout resource feeAddress r v = .error fault
    | .ok data => ∃ r', readVout resource feeAddress r v = .ok r' ∧ r'.data = data ∧
        r'.Marked resource := by
  unfold readVout
  cases readOpReturn r.data v with
  | error fault => rfl
  | ok data =>
    refine ⟨_, rfl, rfl, ?_⟩
    by_cases hpays : resource.address = v.address
    · simp [Reading.Marked, hpays]
    · simpa [Reading.Marked, hpays] using hid

theorem readVouts_spec (vout : List Vout) {r : Reading} (hid : r.Marked resource) :
    match opReturnData vout r.data with
    | .error fault => vout.foldlM (readVout resource feeAddress) r = .error fault
    | .ok data => ∃ r', vout.foldlM (readVout resource feeAddress) r = .ok r' ∧ r'.data = data ∧
        r'.Marked resource := by
  induction vout generalizing r with
  | nil => exact ⟨r, rfl, rfl, hid⟩
  | cons v vout ih =>
    have hv := readVout_spec feeAddress hid v
    unfold opReturnData at ih ⊢
    rw [List.foldlM_cons, List.foldlM_cons]
    cases hdata : readOpReturn r.data v with
    | error fault =>
      simp only [hdata] at hv
      rw [hv]
      rfl
    | ok data =>
      simp only [hdata] at hv
      obtain ⟨r', hr', rfl, hid'⟩ := hv
      rw [hr', ok_bind, ok_bind]
      exact ih hid'

variable (resource) in
theorem decodeDepositEvent_spec (evt : TxRawResult) :
    match opReturnData evt.vout [] with
    | .error fault => decodeDepositEvent evt resource feeAddress = .error fault
    | .ok data => decodeDepositEvent evt resource feeAddress = .ok none ∨
        ∃ d, decodeDepositEvent evt resource feeAddress = .ok (some d) ∧ d.data = data ∧
          d.resourceID = resource.resourceID := by
  have h := @readVouts_spec resource feeAddress evt.vout ⟨0, 0, false, [], 0⟩
    (by simp [Reading.Marked])
  unfold decodeDepositEvent
  cases hdata : opReturnData evt.vout [] with
  | error fault =>
    simp only [hdata] at h
    rw [h]
    rfl
  | ok data =>
    simp only [hdata] at h
    obtain ⟨r, hr, hrdata, hid⟩ := h
    rw [hr, ok_bind]
    by_cases hno : !r.isBridgeDeposit ∨ r.feeAmount < resource.feeAmount
    · exact Or.inl (by rw [if_pos hno]; rfl)
    · refine Or.inr ⟨_, by rw [if_neg hno]; rfl, hrdata, hid ?_⟩
      simpa using (not_or.1 hno).1

end Decode

/-- Whether `HandleDeposit` succeeds depends on the data only. -/
theorem btcHandleDeposit_error {a a' : DepositArgs} (hdata : a'.data = a.data) {fault : Fault}
    (h : btcHandleDeposit a = .error fault) : btcHandleDeposit a' = .error fault := by
  unfold btcHandleDeposit at h ⊢
  rw [hdata]
  dsimp only at h ⊢
  cases hdest : (a.data.splitOn 95)[1]? with
  | none => simpa [hdest] using h
  | some dest => cases hparse : parseUint8 dest <;> simp_all

theorem btcHandleDeposit_resourceId {a : DepositArgs} {m : Message}
    (h : btcHandleDeposit a = .ok m) : m.data.resourceId = a.resourceID := by
  unfold btcHandleDeposit at h
  dsimp only at h
  split at h
  · cases h
  · split at h
    · cases h
    · cases h
      rfl

section Visit

variable (cfg : Config) (blockNumber : ℕ) (evt : TxRawResult)

/-- The message of a transaction if `resource` is the only one asked. -/
def messageFor (resource : Resource) : Option Message :=
  delivered (visitResources cfg blockNumber btcHandleDeposit evt [resource])

/-- What `HandleDeposit` is called with for a decoded deposit. -/
def depositArgs (d : Deposit) : DepositArgs :=
  ⟨cfg.domainID, calculateNonce cfg blockNumber evt.hash, d.resourceID, d.amount, d.data,
    blockNumber, evt.blocktime⟩

variable {cfg blockNumber evt} {resource : Resource}

theorem visitResources_none (hd : decodeDepositEvent evt resource cfg.feeAddress = .ok none)
    (rest : List Resource) :
    visitResources cfg blockNumber btcHandleDeposit evt (resource :: rest) =
      visitResources cfg blockNumber btcHandleDeposit evt rest := by
  simp [visitResources, hd]

theorem visitResources_some {d : Deposit}
    (hd : decodeDepositEvent evt resource cfg.feeAddress = .ok (some d)) (rest : List Resource) :
    visitResources cfg blockNumber btcHandleDeposit evt (resource :: rest) =
      some <$> btcHandleDeposit (depositArgs cfg blockNumber evt d) := by
  simp [visitResources, hd, depositArgs]

theorem visitResources_error {fault : Fault}
    (hd : decodeDepositEvent evt resource cfg.feeAddress = .error fault) (rest : List Resource) :
    visitResources cfg blockNumber btcHandleDeposit evt (resource :: rest) = .error fault := by
  simp [visitResources, hd]

theorem visitResources_stop (hd : decodeDepositEvent evt resource cfg.feeAddress ≠ .ok none)
    (rest : List Resource) :
    visitResources cfg blockNumber btcHandleDeposit evt (resource :: rest) =
      visitResources cfg blockNumber btcHandleDeposit evt [resource] := by
  cases hdec : decodeDepositEvent evt resource cfg.feeAddress with
  | error fault => rw [visitResources_error hdec, visitResources_error hdec]
  | ok d =>
    cases d with
    | none => exact absurd hdec hd
    | some d => rw [visitResources_some hdec, visitResources_some hdec]

theorem delivered_some (o : Outcome Message) (m : Message) :
    delivered (some <$> o) = some m ↔ o = .ok m := by
  cases o <;> simp [delivered]

theorem messageFor_eq_some {m : Message} (h : messageFor cfg blockNumber evt resource = some m) :
    ∃ d, decodeDepositEvent evt resource cfg.feeAddress = .ok (some d) ∧
      btcHandleDeposit (depositArgs cfg blockNumber evt d) = .ok m := by
  unfold messageFor at h
  cases hd : decodeDepositEvent evt resource cfg.feeAddress with
  | error fault => simp [visitResources_error hd, delivered] at h
  | ok d =>
    cases d with
    | none =>
      rw [visitResources_none hd] at h
      cases h
    | some d =>
      rw [visitResources_some hd, delivered_some] at h
      exact ⟨d, rfl, h⟩

theorem messageFor_resourceId {m : Message} (h : messageFor cfg blockNumber evt resource = some m) :
    m.data.resourceId = resource.resourceID := by
  obtain ⟨d, hd, hm⟩ := messageFor_eq_some h
  have hspec := decodeDepositEvent_spec resource cfg.feeAddress evt
  rw [hd] at hspec
  rw [btcHandleDeposit_resourceId hm]
  cases hdata : opReturnData evt.vout [] with
  | error fault => simp [hdata] at hspec
  | ok data =>
    obtain ⟨d', hd', -, hid⟩ : ∃ d', d = d' ∧ d'.data = data ∧ d'.resourceID = resource.resourceID := by
      simpa [hdata] using hspec
    exact hd' ▸ hid

theorem messageFor_eq_none (hd : decodeDepositEvent evt resource cfg.feeAddress ≠ .ok none)
    (h : messageFor cfg blockNumber evt resource = none)
    (resource' : Resource) : messageFor cfg blockNumber evt resource' = none := by
  by_contra hne
  obtain ⟨m, hm⟩ := Option.ne_none_iff_exists'.1 hne
  obtain ⟨d', hd', hm⟩ := messageFor_eq_some hm
  have hspec := decodeDepositEvent_spec resource cfg.feeAddress evt
  have hspec' := decodeDepositEvent_spec resource' cfg.feeAddress evt
  cases hdata : opReturnData evt.vout [] with
  | error fault => simp [hdata, hd'] at hspec'
  | ok data =>
    simp only [hdata] at hspec hspec'
    obtain ⟨d, hd, hdata, -⟩ := hspec.resolve_left hd
    obtain ⟨d'', hd'', hdata', -⟩ := hspec'.resolve_left (by simp [hd'])
    rw [messageFor, visitResources_some hd] at h
    cases hfail : btcHandleDeposit (depositArgs cfg blockNumber evt d) with
    | ok m => simp [hfail, delivered] at h
    | error fault =>
      obtain rfl : d' = d'' := by simpa [hd'] using hd''
      have := @btcHandleDeposit_error _ (depositArgs cfg blockNumber evt d')
        (hdata'.trans hdata.symm) _ hfail
      simp [hm] at this

/-- The first resource that gives a message decides. -/
theorem delivered_visitResources (order : List Resource) :
    delivered (visitResources cfg blockNumber btcHandleDeposit evt order) =
      order.findSome? (messageFor cfg blockNumber evt) := by
  induction order with
  | nil => rfl
  | cons resource rest ih =>
    rw [List.findSome?_cons]
    by_cases hd : decodeDepositEvent evt resource cfg.feeAddress = .ok none
    · have hnone : messageFor cfg blockNumber evt resource = none := by
        unfold messageFor
        rw [visitResources_none hd]
        rfl
      rw [visitResources_none hd, ih, hnone]
    · rw [visitResources_stop hd]
      change messageFor cfg blockNumber evt resource = _
      cases hm : messageFor cfg blockNumber evt resource with
      | some m => rfl
      | none => exact (List.findSome?_eq_none_iff.2 fun r _ => messageFor_eq_none hd hm r).symm

/-- In any two orders of the resources the same one decides, if only one can. -/
theorem findSome?_perm {f : Resource → Option Message} {resources order order' : List Resource}
    (hone : ∀ r ∈ resources, ∀ r' ∈ resources, f r ≠ none → f r' ≠ none → r = r')
    (h : order.Perm resources) (h' : order'.Perm resources) :
    order.findSome? f = order'.findSome? f := by
  cases hm : order.findSome? f with
  | none =>
    rw [List.findSome?_eq_none_iff] at hm
    exact (List.findSome?_eq_none_iff.2 fun r hr => hm r (h.mem_iff.2 (h'.mem_iff.1 hr))).symm
  | some m =>
    obtain ⟨r, hr, hfr⟩ := List.exists_of_findSome?_eq_some hm
    cases hm' : order'.findSome? f with
    | none =>
      rw [List.findSome?_eq_none_iff] at hm'
      rw [hm' r (h'.mem_iff.2 (h.mem_iff.1 hr))] at hfr
      cases hfr
    | some m' =>
      obtain ⟨r', hr', hfr'⟩ := List.exists_of_findSome?_eq_some hm'
      obtain rfl := hone r (h.mem_iff.1 hr) r' (h'.mem_iff.1 hr') (by simp [hfr]) (by simp [hfr'])
      exact hfr.symm.trans hfr'

end Visit

/-- `visits` is a run over the transactions of a block: each in some order of the resources. -/
def Reads (resources : Resources) (txs : List TxRawResult) (visits : List Visit) : Prop :=
  List.Forall₂ (fun tx v => v.evt = tx ∧ v.order.Perm resources.list ∧
    v.handleDeposit = btcHandleDeposit) txs visits

/-- Two runs of `ProcessDeposits` return the same map. -/
def SameMap (processed processed' : Outcome DomainDeposits) : Prop :=
  ∃ d d', processed = .ok d ∧ processed' = .ok d' ∧ ∀ k, d.lookup k = d'.lookup k

/-- Every transaction gives a message for one resource at most. -/
def OneResource (cfg : Config) (blockNumber : ℕ) (resources : Resources) (txs : List TxRawResult) :
    Prop :=
  ∀ tx ∈ txs, ∀ r ∈ resources.list, ∀ r' ∈ resources.list,
    messageFor cfg blockNumber tx r ≠ none → messageFor cfg blockNumber tx r' ≠ none → r = r'

section Runs

variable {cfg : Config} {blockNumber : ℕ} {resources : Resources} {txs : List TxRawResult}
  {visits visits' : List Visit}

variable (cfg blockNumber) in
/-- The messages of a run, in the order of the transactions. -/
def messages (visits : List Visit) : List Message :=
  visits.filterMap fun v => delivered (v.message cfg blockNumber)

theorem holds_processDeposits (visits : List Visit) :
    ∃ d, processDeposits cfg blockNumber (.ok visits) = .ok d ∧
      Holds Message.destination d (messages cfg blockNumber visits) :=
  ⟨_, rfl, by simpa [messages] using
    holds_foldl_resolveDeposit (Visit.message cfg blockNumber) visits holds_empty⟩

theorem sameMap_of_messages (h : messages cfg blockNumber visits = messages cfg blockNumber visits') :
    SameMap (processDeposits cfg blockNumber (.ok visits))
      (processDeposits cfg blockNumber (.ok visits')) := by
  obtain ⟨d, hd, hh⟩ := @holds_processDeposits cfg blockNumber visits
  obtain ⟨d', hd', hh'⟩ := @holds_processDeposits cfg blockNumber visits'
  refine ⟨d, d', hd, hd', fun k => ?_⟩
  rw [hh k, hh' k, h]

theorem SameMap.perm (h : SameMap (processDeposits cfg blockNumber (.ok visits))
      (processDeposits cfg blockNumber (.ok visits'))) :
    (messages cfg blockNumber visits).Perm (messages cfg blockNumber visits') := by
  obtain ⟨d, hd, hh⟩ := @holds_processDeposits cfg blockNumber visits
  obtain ⟨d', hd', hh'⟩ := @holds_processDeposits cfg blockNumber visits'
  obtain ⟨e, e', he, he', hlookup⟩ := h
  obtain rfl : d = e := Except.ok.inj (hd.symm.trans he)
  obtain rfl : d' = e' := Except.ok.inj (hd'.symm.trans he')
  apply hh.perm
  intro k
  rw [hlookup k]
  exact hh' k

theorem messages_of_reads (hone : OneResource cfg blockNumber resources txs)
    (h : Reads resources txs visits) :
    messages cfg blockNumber visits =
      txs.filterMap fun tx => resources.list.findSome? (messageFor cfg blockNumber tx) := by
  induction h with
  | nil => rfl
  | @cons tx v txs visits hv _ ih =>
    obtain ⟨rfl, hperm, hhandler⟩ := hv
    have hm : delivered (v.message cfg blockNumber) =
        resources.list.findSome? (messageFor cfg blockNumber v.evt) := by
      rw [Visit.message, hhandler, delivered_visitResources]
      exact findSome?_perm (hone v.evt List.mem_cons_self) hperm (List.Perm.refl _)
    have ih := ih fun tx htx => hone tx (List.mem_cons_of_mem _ htx)
    unfold messages at ih ⊢
    rw [List.filterMap_cons, List.filterMap_cons, hm, ih]

variable (resources) in
/-- A run that asks `resource` first for the transaction `tx`. -/
def asksFirst (before : List TxRawResult) (tx : TxRawResult) (after : List TxRawResult)
    (resource : Resource) : List Visit :=
  before.map (fun tx => ⟨tx, resources.list, btcHandleDeposit⟩) ++
    ⟨tx, resource :: resources.list.erase resource, btcHandleDeposit⟩ ::
      after.map (fun tx => ⟨tx, resources.list, btcHandleDeposit⟩)

theorem reads_asksFirst {before after : List TxRawResult} {tx : TxRawResult} {resource : Resource}
    (h : resource ∈ resources.list) :
    Reads resources (before ++ tx :: after) (asksFirst resources before tx after resource) := by
  have hmap : ∀ txs : List TxRawResult,
      Reads resources txs (txs.map fun tx => ⟨tx, resources.list, btcHandleDeposit⟩) := by
    intro txs
    induction txs with
    | nil => exact .nil
    | cons tx txs ih => exact .cons ⟨rfl, List.Perm.refl _, rfl⟩ ih
  apply List.rel_append (hmap before)
  exact .cons ⟨rfl, (List.perm_cons_erase h).symm, rfl⟩ (hmap after)

theorem messages_asksFirst (before after : List TxRawResult) {tx : TxRawResult}
    {resource : Resource} {m : Message} (hm : messageFor cfg blockNumber tx resource = some m) :
    messages cfg blockNumber (asksFirst resources before tx after resource) =
      messages cfg blockNumber (before.map fun tx => ⟨tx, resources.list, btcHandleDeposit⟩) ++
        ([m] ++ messages cfg blockNumber
          (after.map fun tx => ⟨tx, resources.list, btcHandleDeposit⟩)) := by
  have hfirst : delivered (Visit.message cfg blockNumber
      ⟨tx, resource :: resources.list.erase resource, btcHandleDeposit⟩) = some m := by
    rw [Visit.message, delivered_visitResources, List.findSome?_cons, hm]
  unfold messages asksFirst
  rw [List.filterMap_append, List.filterMap_cons, hfirst, List.singleton_append]

end Runs

/-- Relayers with the same resources agree on a block exactly if none of its transactions gives a
message for two resources. -/
theorem same_deposits_iff (cfg : Config) (blockNumber : ℕ) (resources : Resources)
    (txs : List TxRawResult) :
    (∀ visits visits', Reads resources txs visits → Reads resources txs visits' →
      SameMap (processDeposits cfg blockNumber (.ok visits))
        (processDeposits cfg blockNumber (.ok visits'))) ↔
      OneResource cfg blockNumber resources txs := by
  constructor
  · intro hsame tx htx r hr r' hr' hm hm'
    obtain ⟨m, hm⟩ := Option.ne_none_iff_exists'.1 hm
    obtain ⟨m', hm'⟩ := Option.ne_none_iff_exists'.1 hm'
    obtain ⟨before, after, rfl⟩ := List.append_of_mem htx
    have hperm := (hsame _ _ (reads_asksFirst hr) (reads_asksFirst hr')).perm
    rw [messages_asksFirst before after hm, messages_asksFirst before after hm',
      List.perm_append_left_iff, List.perm_append_right_iff, List.singleton_perm_singleton] at hperm
    -- a message carries the ID of its resource, and no two resources have the same one
    have hid : r.resourceID = r'.resourceID := by
      rw [← messageFor_resourceId hm, ← messageFor_resourceId hm', hperm]
    exact List.inj_on_of_nodup_map resources.nodup hr hr' hid
  · intro hone visits visits' h h'
    apply sameMap_of_messages
    rw [messages_of_reads hone h, messages_of_reads hone h']

/-- Two resources with addresses and fees of their own. -/
def twoResources : Resources where
  list := [⟨"bc1a", 100, 1⟩, ⟨"bc1b", 200, 2⟩]
  nodup := by decide

/-- A transaction to domain 1 that pays both addresses and a fee of 300. -/
def paysTwice : TxRawResult where
  hash := "4e3d"
  vout := [⟨0, .opReturn, "6a0430305f31".toList.map fun c => UInt8.ofNat c.toNat, ""⟩,
    ⟨5000, .witnessV1Taproot, [], "bc1a"⟩, ⟨7000, .witnessV1Taproot, [], "bc1b"⟩,
    ⟨300, .other, [], "fee"⟩]
  blocktime := 0

/-- The run over `paysTwice` in the given order of the resources. -/
def readsPaysTwice (order : List Resource) : List Visit := [⟨paysTwice, order, btcHandleDeposit⟩]

theorem deposits_differ :
    Reads twoResources [paysTwice] (readsPaysTwice twoResources.list) ∧
      Reads twoResources [paysTwice] (readsPaysTwice twoResources.list.reverse) ∧
      ¬ SameMap
        (processDeposits ⟨4, "fee", fun _ => List.replicate 32 0⟩ 10 (.ok (readsPaysTwice twoResources.list)))
        (processDeposits ⟨4, "fee", fun _ => List.replicate 32 0⟩ 10
          (.ok (readsPaysTwice twoResources.list.reverse))) := by
  refine ⟨.cons ⟨rfl, List.Perm.refl _, rfl⟩ .nil,
    .cons ⟨rfl, List.reverse_perm _, rfl⟩ .nil, ?_⟩
  rintro ⟨d, d', hd, hd', hlookup⟩
  cases hd
  cases hd'
  have := congrArg (Option.map (List.map (·.data.resourceId))) (hlookup 1)
  revert this
  decide

end Sygma.BtcListener
