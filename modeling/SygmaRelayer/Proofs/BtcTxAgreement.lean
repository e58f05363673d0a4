import Mathlib.Data.Prod.Lex
import Mathlib.Data.String.Basic
import SygmaRelayer.Lib.Fallible
import SygmaRelayer.Proofs.BtcInputs

/-! Do all relayers assemble the same transaction? The UTXOs are sorted by block
time and transaction ID, so the outputs of one transaction are ties, and
`sort.Slice` may leave ties in any order. The relayers agree exactly when coin
selection stops before it reaches a tie. -/

namespace Sygma.Btc

open Sorting Fallible

variable {Address Script Hash : Type} {lib : BtcLib Address Script Hash}

/-- What `utxoLess` compares. -/
def utxoKey (u : Utxo) : Lex (ℕ × String) := toLex (u.status.blockTime.toNat, u.txID)

theorem utxoLess_iff (u u' : Utxo) : utxoLess u u' = true ↔ utxoKey u < utxoKey u' := by
  unfold utxoLess utxoKey
  rw [Prod.Lex.toLex_lt_toLex]
  by_cases h : u.status.blockTime = u'.status.blockTime
  · simp [h]
  · have : u.status.blockTime.toNat ≠ u'.status.blockTime.toNat := fun he =>
      h (UInt64.toNat.inj he)
    simp [h, this, UInt64.lt_iff_toNat_lt]

theorem utxoKey_eq {u u' : Utxo} : utxoKey u = utxoKey u' ↔
    u.status.blockTime = u'.status.blockTime ∧ u.txID = u'.txID := by
  unfold utxoKey
  rw [EmbeddingLike.apply_eq_iff_eq, Prod.mk.injEq, UInt64.toNat_inj]

theorem Listing.byKey (l : Listing) : ByKey utxoKey l.utxos := l.sorts.byKey utxoLess_iff

/-- Two runs get the same UTXOs in any order, fee quotes with equal quotients and the same
CID. -/
structure SameView (a a' : Answers) : Prop where
  upload : a'.upload = a.upload
  feeEstimate : ∃ q q', a.feeEstimate = .ok q ∧ a'.feeEstimate = .ok q' ∧
    q' / FEE_ROUNDING_FACTOR = q / FEE_ROUNDING_FACTOR
  listing : ∃ l l', a.listing = .ok l ∧ a'.listing = .ok l' ∧ l'.response.Perm l.response
  economyFee : ∃ q q', a.economyFee = .ok q ∧ a'.economyFee = .ok q' ∧
    q' / FEE_ROUNDING_FACTOR = q / FEE_ROUNDING_FACTOR

/-- The amount `rawTx` asks `inputs` for. -/
def targetAmount (proposals : List BtcTransferProposal) (quote : UInt64) : UInt64 :=
  (proposals.map fun p => p.data.amount).sum +
    fee quote (UInt64.ofNat proposals.length) (UInt64.ofNat proposals.length)

/-- Two UTXOs tie, and no running total over the UTXOs that sort before them exceeds the
target. -/
def TieReached (utxos : List Utxo) (target : UInt64) : Prop :=
  ∃ u ∈ utxos, ∃ u' ∈ utxos, u ≠ u' ∧
    u.status.blockTime = u'.status.blockTime ∧ u.txID = u'.txID ∧
    ∀ w ∈ utxos, utxoLess w u = true →
      sumValues (utxos.filter fun v => !utxoLess w v) ≤ target

theorem fee_congr {q q' : UInt64} (h : q' / FEE_ROUNDING_FACTOR = q / FEE_ROUNDING_FACTOR)
    (n m : UInt64) : fee q' n m = fee q n m := by
  unfold fee
  rw [h]

theorem addOutput_eq_ok {acc acc' : UInt64 × List (TxOut Script)} {p : BtcTransferProposal}
    (h : addOutput lib acc p = .ok acc') :
    ∃ script, acc' = (acc.1 + p.data.amount, acc.2 ++ [⟨p.data.amount.toInt64, script⟩]) := by
  obtain ⟨addr, -, h⟩ := bind_eq_ok.1 h
  obtain ⟨script, -, h⟩ := bind_eq_ok.1 h
  exact ⟨script, (Except.ok.inj h).symm⟩

theorem outputs_spec {upload : List (UInt8 × UInt64) → Except String String}
    {proposals : List BtcTransferProposal} {amount : UInt64} {outs : List (TxOut Script)}
    (h : outputs lib upload proposals = .ok (amount, outs)) :
    amount = (proposals.map fun p => p.data.amount).sum ∧
      outs.map TxOut.value = proposals.map (fun p => p.data.amount.toInt64) ++ [0] := by
  obtain ⟨⟨amount', outs'⟩, hfold, h⟩ := bind_eq_ok.1 h
  obtain ⟨cid, -, h⟩ := bind_eq_ok.1 h
  obtain ⟨script, -, h⟩ := bind_eq_ok.1 h
  obtain ⟨rfl, rfl⟩ := Prod.mk.inj (Except.ok.inj h)
  have hloop : amount' = (proposals.map fun p => p.data.amount).sum ∧
      outs'.map TxOut.value = proposals.map fun p => p.data.amount.toInt64 := by
    refine foldlM_ok (P := fun acc done => acc.1 = (done.map fun p => p.data.amount).sum ∧
      acc.2.map TxOut.value = done.map fun p => p.data.amount.toInt64) ⟨rfl, rfl⟩ ?_ hfold
    intro acc acc' done p hacc hadd
    obtain ⟨script, rfl⟩ := addOutput_eq_ok hadd
    simp [hacc]
  exact ⟨hloop.1, by simp [hloop.2]⟩

theorem rawTx_eq_ok {a : Answers} {proposals : List BtcTransferProposal} {address : Address}
    {tx : MsgTx Script Hash} {used : List Utxo} :
    rawTx lib a proposals address = .ok (tx, used) ↔
      ∃ outAmount outs quote listing inAmount quote' rets,
        outputs lib a.upload proposals = .ok (outAmount, outs) ∧
        a.feeEstimate = .ok quote ∧ a.listing = .ok listing ∧
        inputs lib listing.utxos (outAmount +
          fee quote (UInt64.ofNat proposals.length) (UInt64.ofNat proposals.length)) =
            .ok (inAmount, used, tx.txIn) ∧
        ¬ inAmount < outAmount ∧ a.economyFee = .ok quote' ∧
        returnOutput lib address (inAmount - fee quote' (UInt64.ofNat used.length)
          (UInt64.ofNat proposals.length + 1) - outAmount) = .ok rets ∧
        tx.txOut = outs ++ rets := by
  unfold rawTx
  constructor
  · intro h
    obtain ⟨⟨outAmount, outs⟩, hout, h⟩ := bind_eq_ok.1 h
    obtain ⟨quote, hq, h⟩ := bind_eq_ok.1 h
    obtain ⟨listing, hl, h⟩ := bind_eq_ok.1 h
    obtain ⟨⟨inAmount, sel, txIn⟩, hin, h⟩ := bind_eq_ok.1 h
    dsimp only at h
    split_ifs at h with hlt
    obtain ⟨quote', hq', h⟩ := bind_eq_ok.1 h
    obtain ⟨rets, hr, h⟩ := bind_eq_ok.1 h
    cases h
    exact ⟨outAmount, outs, quote, listing, inAmount, quote', rets, hout, hq, hl, hin, hlt, hq',
      hr, rfl⟩
  · rintro ⟨outAmount, outs, quote, listing, inAmount, quote', rets, hout, hq, hl, hin, hlt, hq',
      hr, htx⟩
    rw [hout, hq, hl]
    simp only [bind, Except.bind] at hin ⊢
    rw [hin]
    simp only [hlt, if_false, hq', hr, ← htx]
    rfl

theorem rawTx_inputs {a : Answers} {proposals : List BtcTransferProposal} {address : Address}
    {tx : MsgTx Script Hash} {used : List Utxo} {listing : Listing} {quote : UInt64}
    (hl : a.listing = .ok listing) (hq : a.feeEstimate = .ok quote)
    (h : rawTx lib a proposals address = .ok (tx, used)) :
    ∃ amount, inputs lib listing.utxos (targetAmount proposals quote) =
      .ok (amount, used, tx.txIn) := by
  obtain ⟨outAmount, outs, q, l, inAmount, _, _, hout, hq', hl', hin, -⟩ := rawTx_eq_ok.1 h
  rw [hl] at hl'
  rw [hq] at hq'
  cases hl'
  cases hq'
  rw [(outputs_spec hout).1] at hin
  exact ⟨inAmount, hin⟩

theorem rawTx_congr {a a' : Answers} {proposals : List BtcTransferProposal} {address : Address}
    {tx : MsgTx Script Hash} {used : List Utxo} {l l' : Listing} {quote : UInt64}
    (hv : SameView a a') (hl : a.listing = .ok l) (hl' : a'.listing = .ok l')
    (hq : a.feeEstimate = .ok quote)
    (hin : ∀ r, inputs lib l.utxos (targetAmount proposals quote) = .ok r →
      inputs lib l'.utxos (targetAmount proposals quote) = .ok r)
    (h : rawTx lib a proposals address = .ok (tx, used)) :
    rawTx lib a' proposals address = .ok (tx, used) := by
  obtain ⟨outAmount, outs, q, l₁, inAmount, q₁, rets, hout, hq₀, hl₁, hsel, hlt, hq₁, hr, htx⟩ :=
    rawTx_eq_ok.1 h
  obtain ⟨_, q', hq₂, hq', hqq⟩ := hv.feeEstimate
  obtain ⟨_, q₁', hq₃, hq₁', hqq₁⟩ := hv.economyFee
  obtain rfl : quote = q := by simpa [hq] using hq₀
  obtain rfl : quote = _ := by simpa [hq] using hq₂
  obtain rfl : q₁ = _ := by simpa [hq₁] using hq₃
  obtain rfl : l = l₁ := by simpa [hl] using hl₁
  refine rawTx_eq_ok.2 ⟨outAmount, outs, q', l', inAmount, q₁', rets, ?_, hq', hl', ?_, hlt, hq₁',
    ?_, htx⟩
  · rw [hv.upload]
    exact hout
  · rw [fee_congr hqq]
    rw [(outputs_spec hout).1] at hsel ⊢
    exact hin _ hsel
  · rw [fee_congr hqq₁]
    exact hr

theorem Listing.mem_iff (l : Listing) {u : Utxo} : u ∈ l.utxos ↔ u ∈ l.response :=
  l.sorts.perm.mem_iff

/-- The total over the UTXOs up to `w` does not depend on the order of the reply. -/
theorem Listing.sum_upto (l : Listing) (w : Utxo) :
    sumValues (l.response.filter fun v => !utxoLess w v) =
      sumValues (l.utxos.filter fun v => utxoKey v ≤ utxoKey w) := by
  have hf : (fun v => !utxoLess w v) = fun v => decide (utxoKey v ≤ utxoKey w) := by
    funext v
    simp only [← not_lt, ← utxoLess_iff, decide_not, Bool.decide_eq_true]
  rw [hf]
  exact sumValues_perm (l.sorts.perm.symm.filter _)

/-- Coin selection that reaches no tie takes UTXOs with unique keys. -/
theorem selected_unique {l : Listing} {target amount : UInt64} {used : List Utxo}
    {ins : List (OutPoint Hash)} (hin : inputs lib l.utxos target = .ok (amount, used, ins))
    (hno : ¬ TieReached l.response target) :
    ∀ u ∈ used, ∀ u' ∈ l.utxos, utxoKey u = utxoKey u' → u = u' := by
  obtain ⟨-, hsel⟩ := inputs_spec hin
  intro u hu u' hu' hkey
  by_contra hne
  obtain ⟨htime, hid⟩ := utxoKey_eq.1 hkey
  refine hno ⟨u, l.mem_iff.1 (hsel.front.subset hu), u', l.mem_iff.1 hu', hne, htime, hid, ?_⟩
  intro w hw hlt
  rw [l.sum_upto]
  -- the UTXOs up to `w` stand at the front and `u` is not among them
  have hfront := filter_le_prefix l.byKey (utxoKey w)
  have hnot : u ∉ l.utxos.filter fun v => utxoKey v ≤ utxoKey w := by
    intro hmem
    have hle : utxoKey u ≤ utxoKey w := by simpa using (List.mem_filter.1 hmem).2
    exact absurd ((utxoLess_iff w u).1 hlt) (not_lt.2 hle)
  have hpre : l.utxos.filter (fun v => utxoKey v ≤ utxoKey w) <+: used := by
    rcases List.prefix_or_prefix_of_prefix hfront hsel.front with h | h
    · exact h
    · exact absurd (h.subset hu) hnot
  have hmin := hsel.minimal _ hpre (fun he => hnot (he ▸ hu))
    (List.ne_nil_of_mem (List.mem_filter.2 ⟨l.mem_iff.2 hw, by simp⟩))
  simpa using hmin

theorem inputs_of_unique {l l' : Listing} {target amount : UInt64} {used : List Utxo}
    {ins : List (OutPoint Hash)} (hin : inputs lib l.utxos target = .ok (amount, used, ins))
    (hperm : l'.response.Perm l.response)
    (huniq : ∀ u ∈ used, ∀ u' ∈ l.utxos, utxoKey u = utxoKey u' → u = u') :
    inputs lib l'.utxos target = .ok (amount, used, ins) := by
  obtain ⟨hamount, hsel⟩ := inputs_spec hin
  have hp : l'.utxos.Perm l.utxos := l'.sorts.perm.trans (hperm.trans l.sorts.perm.symm)
  obtain ⟨t, ht⟩ := hsel.front
  have hpre : used <+: l'.utxos := by
    rw [← ht] at hp huniq
    exact prefix_of_perm (ht ▸ l.byKey) l'.byKey hp huniq
  rcases hsel.stops with hall | hgt
  · rw [hall] at hpre
    rw [← hpre.eq_of_length hp.length_eq.symm]
    exact hin
  · have hloop : inputsLoop lib target l.utxos 0 [] [] = .ok (amount, [] ++ used, ins) := hin
    exact inputsLoop_congr hloop UInt64.zero_le (by simpa [hamount] using hgt) hpre

/-- Coin selection gets past a front whose running totals stay within the target. -/
theorem selection_reaches {target amount : UInt64} {p t used : List Utxo} {x : Utxo}
    {ins : List (OutPoint Hash)}
    (hin : inputs lib (p ++ x :: t) target = .ok (amount, used, ins))
    (hsum : ∀ q, q <+: p → q ≠ [] → sumValues q ≤ target) : p ++ [x] <+: used := by
  obtain ⟨-, hsel⟩ := inputs_spec hin
  have hx : p ++ [x] <+: p ++ x :: t := by simp
  rcases List.prefix_or_prefix_of_prefix hx hsel.front with h | h
  · exact h
  · rcases hsel.stops with rfl | hgt
    · exact hx
    · rcases List.prefix_concat_iff.1 h with rfl | hp
      · exact List.prefix_refl _
      · by_cases hnil : used = []
        · subst hnil
          exact absurd hgt (UInt64.not_lt.2 (by simp))
        · have := hsum used hp hnil
          exact absurd hgt (UInt64.not_lt.2 (by simpa using this))

theorem input_at {target amount : UInt64} {us p used : List Utxo} {x : Utxo}
    {ins : List (OutPoint Hash)} (hin : inputs lib us target = .ok (amount, used, ins))
    (hx : p ++ [x] <+: used) : ∃ o, ins[p.length]? = some o ∧ o.index = x.vout := by
  obtain ⟨-, hsel⟩ := inputs_spec hin
  obtain ⟨r, rfl⟩ := hx
  obtain ⟨hlen, hget⟩ := List.forall₂_iff_get.1 hsel.isInput
  have hlt : p.length < ins.length := by
    rw [← hlen]
    simp
  refine ⟨ins.get ⟨p.length, hlt⟩, by simp, ?_⟩
  have := (hget p.length (by simp) hlt).2
  simpa using this

/-- Distinct UTXOs are distinct outputs of transactions. -/
def DistinctOutputs (utxos : List Utxo) : Prop :=
  utxos.Pairwise fun u u' => u.txID = u'.txID → u.vout ≠ u'.vout

theorem DistinctOutputs.perm {us us' : List Utxo} (h : DistinctOutputs us) (hp : us.Perm us') :
    DistinctOutputs us' :=
  List.Pairwise.perm h hp fun hab hid hv => hab hid.symm hv.symm

theorem DistinctOutputs.nodup {us : List Utxo} (h : DistinctOutputs us) : us.Nodup :=
  h.imp fun {u u'} hab he => hab (by rw [he]) (by rw [he])

theorem front_totals {l : Listing} {target : UInt64} {p t : List Utxo} {x : Utxo}
    (hd : l.utxos.Nodup) (hl : l.utxos = p ++ x :: t)
    (huniq : ∀ w ∈ p, ∀ b ∈ l.utxos, utxoKey w = utxoKey b → b = w)
    (htie : TieReached l.response target) :
    ∀ q, q <+: p → q ≠ [] → sumValues q ≤ target := by
  obtain ⟨u, hu, u', hu', hne, htime, hid, hsum⟩ := htie
  have hup : u ∉ p := fun h =>
    hne (huniq u h u' (l.mem_iff.2 hu') (utxoKey_eq.2 ⟨htime, hid⟩)).symm
  have hut : u ∈ x :: t := by
    have := l.mem_iff.2 hu
    rw [hl, List.mem_append] at this
    exact this.resolve_left hup
  intro q hq hnil
  obtain ⟨q, w, rfl⟩ := (List.eq_nil_or_concat' q).resolve_left hnil
  obtain ⟨r, rfl⟩ := hq
  have hw : w ∈ q ++ [w] ++ r := by simp
  have hl' : l.utxos = q ++ w :: (r ++ x :: t) := by simp [hl]
  have hsorted := l.byKey
  have hlt : utxoKey w < utxoKey u := by
    refine lt_of_le_of_ne ?_ ?_
    · rw [hl] at hsorted
      exact (List.pairwise_append.1 hsorted).2.2 w hw u hut
    · intro he
      exact hup (huniq w hw u (l.mem_iff.2 hu) he ▸ hw)
  have hbound := hsum w (l.mem_iff.1 (by simp [hl'])) ((utxoLess_iff w u).2 hlt)
  rw [l.sum_upto, hl', filter_le_eq (hl' ▸ hsorted)] at hbound
  · exact hbound
  · intro b hb he
    obtain rfl := huniq w hw b (by rw [hl']; simp_all) he
    rw [hl', List.nodup_append] at hd
    exact (List.nodup_cons.1 hd.2.1).1 hb

/-- If a tie is reached, some reply with the same UTXOs leads to other inputs. -/
theorem exists_other_listing {l : Listing} {target : UInt64} (hd : DistinctOutputs l.response)
    (htie : TieReached l.response target) :
    ∃ l' : Listing, l'.response.Perm l.response ∧
      ∀ amount amount' used used' (ins : List (OutPoint Hash)),
        inputs lib l.utxos target = .ok (amount, used, ins) →
          inputs lib l'.utxos target ≠ .ok (amount', used', ins) := by
  have hdu := hd.perm l.sorts.perm.symm
  have htwo : ∃ a ∈ l.utxos, ∃ b ∈ l.utxos, a ≠ b ∧ utxoKey a = utxoKey b := by
    obtain ⟨u, hu, u', hu', hne, htime, hid, -⟩ := htie
    exact ⟨u, l.mem_iff.2 hu, u', l.mem_iff.2 hu', hne, utxoKey_eq.2 ⟨htime, hid⟩⟩
  obtain ⟨p, x, t, hl, ⟨y, hy, hyx⟩, huniq⟩ := exists_first_tie htwo
  have htotals := front_totals hdu.nodup hl huniq htie
  obtain ⟨t₁, t₂, rfl⟩ := List.append_of_mem hy
  have hsorted := l.byKey
  rw [hl] at hsorted hdu
  have hvout : x.vout ≠ y.vout := by
    have hxt := (List.pairwise_cons.1 (List.pairwise_append.1 hdu).2.1).1
    exact hxt y hy (utxoKey_eq.1 hyx).2.symm
  -- the reply that lists `y` before `x`
  let us := p ++ y :: x :: (t₁ ++ t₂)
  have hswap : ByKey utxoKey us := hsorted.swap hyx
  have hperm : us.Perm l.utxos := by
    rw [hl]
    exact List.Perm.append_left p (@List.perm_middle _ y (x :: t₁) t₂).symm
  refine ⟨⟨us, us, .refl _, ?_⟩, hperm.trans l.sorts.perm, ?_⟩
  · refine hswap.imp fun {a b} hab => ?_
    rw [← Bool.not_eq_true, utxoLess_iff]
    exact not_lt.2 hab
  · intro amount amount' used used' ins hin hin'
    rw [hl] at hin
    obtain ⟨o, ho, hox⟩ := input_at hin (selection_reaches hin htotals)
    obtain ⟨o', ho', hoy⟩ := input_at hin' (selection_reaches hin' htotals)
    obtain rfl : o = o' := by simpa [ho] using ho'
    exact hvout (hox.symm.trans hoy)

/-- Relayers that see the same UTXOs, rounded fees and CID build the same transaction exactly
when coin selection reaches no tie. -/
theorem rawTx_agree_iff {a : Answers} {proposals : List BtcTransferProposal} {address : Address}
    {tx : MsgTx Script Hash} {used : List Utxo} {l : Listing} {quote : UInt64}
    (hl : a.listing = .ok l) (hq : a.feeEstimate = .ok quote) (hd : DistinctOutputs l.response)
    (h : rawTx lib a proposals address = .ok (tx, used)) :
    (∀ a', SameView a a' → ∃ used', rawTx lib a' proposals address = .ok (tx, used')) ↔
      ¬ TieReached l.response (targetAmount proposals quote) := by
  obtain ⟨amount, hin⟩ := rawTx_inputs hl hq h
  constructor
  · intro hall htie
    obtain ⟨l', hperm, hother⟩ := @exists_other_listing _ _ _ lib _ _ hd htie
    obtain ⟨_, _, _, _, _, q', _, _, _, _, _, _, hq', _⟩ := rawTx_eq_ok.1 h
    obtain ⟨used', h'⟩ := hall { a with listing := .ok l' }
      ⟨rfl, ⟨quote, quote, hq, hq, rfl⟩, ⟨l, l', hl, rfl, hperm⟩, ⟨q', q', hq', hq', rfl⟩⟩
    obtain ⟨amount', hin'⟩ := @rawTx_inputs _ _ _ _ { a with listing := .ok l' } _ _ _ _ l' quote
      rfl hq h'
    exact hother amount amount' used used' tx.txIn hin hin'
  · intro hno a' hv
    obtain ⟨_, l', hl₀, hl', hperm⟩ := hv.listing
    obtain rfl : l = _ := by simpa [hl] using hl₀
    refine ⟨used, rawTx_congr hv hl hl' hq ?_ h⟩
    rintro ⟨amount₁, used₁, ins₁⟩ hin₁
    exact inputs_of_unique hin₁ hperm (selected_unique hin₁ hno)

def recipient : String := "bc1qw508d6qejxtdg4y5r3zarvary0c5xw7kv8f3t4"

def bridgeAddress : String := "bc1p0xlxvlhemja6c4dqv22uapctqupfhlxm9h8z3k2e72q4k9hcz7vqzk5jj0"

def txID : String := "4a5e1e4baab89f3a32518a88c31bc87f618f76673e2cc77ab2127b7afdeda33b"

/-- btcd on two addresses and one transaction ID; scripts are in hex, addresses and hashes are
given by their texts. -/
def sampleLib : BtcLib String String String where
  decodeAddress s :=
    if s = recipient ∨ s = bridgeAddress then .ok s
    else .error "decoded address is of unknown format"
  payToAddrScript addr :=
    if addr = recipient then .ok "0014751e76e8199196d454941c45d1b3a323f1433bd6"
    else .ok "512079be667ef9dcbbac55a06295ce870b07029bfcdb2dce28d959f2815b16f81798"
  nullDataScript data :=
    if data = "syg_cid" then .ok "6a077379675f636964" else .error "unknown data"
  newHashFromStr s := if s = txID then .ok s else .error "unknown hash"

/-- A UTXO of 2000 satoshi. -/
def utxoOf (vout : UInt32) (blockTime : UInt64) : Utxo :=
  ⟨txID, vout, 2000, ⟨true, 800000, "00", blockTime⟩⟩

def answersOf (l : Listing) : Answers :=
  ⟨fun _ => .ok "cid", .ok 3, .ok l, .ok 4⟩

/-- A payout of 1000 satoshi, for which coin selection takes two UTXOs of 2000. -/
def payout : List BtcTransferProposal := [⟨1, 4, ⟨1000, recipient, 3, 5⟩⟩]

def untied : Listing :=
  ⟨[utxoOf 0 20, utxoOf 1 10], [utxoOf 1 10, utxoOf 0 20], List.Perm.swap _ _ _, by decide⟩

theorem rawTx_agree_iff_untied :
    DistinctOutputs untied.response ∧ ∀ a', SameView (answersOf untied) a' →
      ∃ used, rawTx sampleLib a' payout bridgeAddress = .ok (⟨[⟨txID, 1⟩, ⟨txID, 0⟩],
        [⟨1000, "0014751e76e8199196d454941c45d1b3a323f1433bd6"⟩, ⟨0, "6a077379675f636964"⟩,
          ⟨860, "512079be667ef9dcbbac55a06295ce870b07029bfcdb2dce28d959f2815b16f81798"⟩]⟩, used) := by
  have hd : DistinctOutputs untied.response := by unfold DistinctOutputs; decide
  refine ⟨hd, (@rawTx_agree_iff _ _ _ sampleLib (answersOf untied) payout bridgeAddress _
    untied.utxos untied 3 rfl rfl hd rfl).2 ?_⟩
  unfold TieReached
  decide

theorem utxoLess_of_tie {u u' : Utxo} (htime : u.status.blockTime = u'.status.blockTime)
    (hid : u.txID = u'.txID) : utxoLess u u' = false := by
  rw [utxoLess, if_pos htime, hid]
  exact decide_eq_false (String.lt_irrefl _)

def tied : Listing :=
  ⟨[utxoOf 0 10, utxoOf 1 10], [utxoOf 0 10, utxoOf 1 10], .refl _,
    List.pairwise_pair.2 (utxoLess_of_tie rfl rfl)⟩

/-- The same reply with the two outputs of one transaction in the other order. -/
def tiedSwapped : Listing :=
  ⟨[utxoOf 0 10, utxoOf 1 10], [utxoOf 1 10, utxoOf 0 10], List.Perm.swap _ _ _,
    List.pairwise_pair.2 (utxoLess_of_tie rfl rfl)⟩

theorem rawTx_differs_on_tie :
    SameView (answersOf tied) (answersOf tiedSwapped) ∧ DistinctOutputs tied.response ∧
    (rawTx sampleLib (answersOf tied) payout bridgeAddress).map (fun r => r.1.txIn) =
      .ok [⟨txID, 0⟩, ⟨txID, 1⟩] ∧
    (rawTx sampleLib (answersOf tiedSwapped) payout bridgeAddress).map (fun r => r.1.txIn) =
      .ok [⟨txID, 1⟩, ⟨txID, 0⟩] := by
  refine ⟨⟨rfl, ⟨3, 3, rfl, rfl, rfl⟩, ⟨tied, tiedSwapped, rfl, rfl, .refl _⟩,
    ⟨4, 4, rfl, rfl, rfl⟩⟩, ?_, rfl, rfl⟩
  unfold DistinctOutputs
  decide

end Sygma.Btc
