import SygmaRelayer.Lib.Text
import SygmaRelayer.Proofs.BtcConservation
import SygmaRelayer.Spec.BtcDeposits
import SygmaRelayer.Spec.BtcMessages

/-! The ten decimals between Bitcoin and the other chains. Taking them off rounds down to a
satoshi, but amounts of the other chains have 256 bits, of which the proposal keeps 64 and the
output 63. -/

namespace Sygma.Btc

open Go Fallible BtcListener

variable {Address Script Hash : Type}

theorem erc20MessageHandler_eq_ok {m : Message} {p : Proposal}
    (h : erc20MessageHandler m = .ok p) :
    ∃ amount recipient, m.data.payload = [.bytes amount, .bytes recipient] ∧
      p.data.amount = UInt64.ofNat (Bytes.toNat amount / 10 ^ 10) := by
  unfold erc20MessageHandler at h
  split at h
  · rename_i amount recipient hpayload
    obtain ⟨a, ha, h⟩ := bind_eq_ok.1 h
    obtain ⟨r, hr, h⟩ := bind_eq_ok.1 h
    obtain rfl := Except.ok.inj h
    cases amount with
    | bigInts l => cases ha
    | bytes b =>
      cases recipient with
      | bigInts l => cases hr
      | bytes b' =>
        cases ha
        exact ⟨_, _, hpayload, rfl⟩
  · cases h

/-- The amount is rounded down by less than a satoshi. -/
def Rounds (w : ℕ) (amount : UInt64) : Prop :=
  amount.toNat * 10 ^ 10 ≤ w ∧ w < (amount.toNat + 1) * 10 ^ 10

theorem rounds_ofNat_iff (w : ℕ) :
    Rounds w (UInt64.ofNat (w / 10 ^ 10)) ↔ w < 2 ^ 64 * 10 ^ 10 := by
  unfold Rounds
  rw [UInt64.toNat_ofNat']
  omega

theorem rounds_and_nonneg_iff (w : ℕ) :
    (Rounds w (UInt64.ofNat (w / 10 ^ 10)) ∧ 0 ≤ (UInt64.ofNat (w / 10 ^ 10)).toInt64 ∧
      (UInt64.ofNat (w / 10 ^ 10)).toInt64.toInt = (UInt64.ofNat (w / 10 ^ 10)).toNat) ↔
        w < 2 ^ 63 * 10 ^ 10 := by
  rw [rounds_ofNat_iff, toInt64_nonneg_iff]
  refine ⟨?_, ?_⟩
  · rintro ⟨hw, hnonneg, -⟩
    rw [UInt64.toNat_ofNat'] at hnonneg
    omega
  · intro hw
    have hlt : (UInt64.ofNat (w / 10 ^ 10)).toNat < 2 ^ 63 := by
      rw [UInt64.toNat_ofNat']
      omega
    exact ⟨by omega, hlt, toInt_toInt64_of_lt hlt⟩

theorem btcHandleDeposit_payload {a : DepositArgs} {m : Message}
    (h : btcHandleDeposit a = .ok m) :
    ∃ recipient, m.data.payload =
      [.bytes (Bytes.ofNat (a.amount * 10 ^ 10).natAbs), .bytes recipient] := by
  unfold btcHandleDeposit at h
  dsimp only at h
  split at h
  · cases h
  · split at h
    · cases h
    · cases h
      exact ⟨_, rfl⟩

theorem deposit_amount {a : DepositArgs} {m : Message} (h : btcHandleDeposit a = .ok m) :
    ∃ p, erc20MessageHandler m = .ok p ∧ p.data.amount = UInt64.ofNat a.amount.natAbs := by
  obtain ⟨recipient, hpayload⟩ := btcHandleDeposit_payload h
  unfold erc20MessageHandler
  rw [hpayload]
  refine ⟨_, rfl, ?_⟩
  have hdiv : (a.amount * 10 ^ 10).natAbs / 10 ^ 10 = a.amount.natAbs := by
    rw [Int.natAbs_mul]
    exact Nat.mul_div_cancel _ (by decide)
  rw [Bytes.toNat_ofNat, hdiv]

theorem toNat_ofNat_natAbs_iff (s : ℤ) :
    ((UInt64.ofNat s.natAbs).toNat : ℤ) = s ↔ 0 ≤ s ∧ s < 2 ^ 64 := by
  rw [UInt64.toNat_ofNat']
  omega

/-- The amount of a proposal is exact to a satoshi as long as it fits into 64 bits, the output
carries it as long as it fits into 63, and a deposit comes back as long as its amount fits into 64
bits. -/
theorem decimal_conversion_iff (lib : BtcLib Address Script Hash) :
    (∀ (m : Message) (p : Proposal), erc20MessageHandler m = .ok p →
      ∃ w recipient, m.data.payload = [.bytes w, .bytes recipient] ∧
        (Rounds (Bytes.toNat w) p.data.amount ↔ Bytes.toNat w < 2 ^ 64 * 10 ^ 10) ∧
        ∀ acc acc', addOutput lib acc p.toBtc = .ok acc' →
          ∃ o : TxOut Script, acc'.2 = acc.2 ++ [o] ∧
            (Rounds (Bytes.toNat w) p.data.amount ∧ 0 ≤ o.value ∧
                o.value.toInt = p.data.amount.toNat ↔
              Bytes.toNat w < 2 ^ 63 * 10 ^ 10)) ∧
    ∀ (a : DepositArgs) (m : Message), btcHandleDeposit a = .ok m →
      ∃ p, erc20MessageHandler m = .ok p ∧
        ((p.data.amount.toNat : ℤ) = a.amount ↔ 0 ≤ a.amount ∧ a.amount < 2 ^ 64) := by
  refine ⟨?_, ?_⟩
  · intro m p h
    obtain ⟨w, recipient, hpayload, hamount⟩ := erc20MessageHandler_eq_ok h
    refine ⟨w, recipient, hpayload, ?_, ?_⟩
    · rw [hamount]
      exact rounds_ofNat_iff _
    · intro acc acc' hadd
      obtain ⟨script, rfl⟩ := addOutput_eq_ok hadd
      refine ⟨_, rfl, ?_⟩
      change Rounds _ p.data.amount ∧ 0 ≤ p.data.amount.toInt64 ∧
        p.data.amount.toInt64.toInt = p.data.amount.toNat ↔ _
      rw [hamount]
      exact rounds_and_nonneg_iff _
  · intro a m h
    obtain ⟨p, hp, hamount⟩ := deposit_amount h
    refine ⟨p, hp, ?_⟩
    rw [hamount]
    exact toNat_ofNat_natAbs_iff a.amount

/-- A transfer of `w`, as bytes, to `recipient`. -/
def transferTo (w : List UInt8) : Message where
  source := 1
  destination := 4
  data := ⟨1, 0, none, [.bytes w, .bytes (Text.ascii recipient)], .fungibleTransfer⟩
  id := "1-4-10-14"
  timestamp := 0

/-- An amount of 100000045678 is 10 satoshi. -/
theorem decimal_conversion_dust :
    ∃ p, erc20MessageHandler (transferTo [0x17, 0x48, 0x77, 0x9a, 0x6e]) = .ok p ∧
      Rounds 100000045678 p.data.amount := by
  have hrun : erc20MessageHandler (transferTo [0x17, 0x48, 0x77, 0x9a, 0x6e]) = .ok _ := rfl
  obtain ⟨w, _, hpayload, hrounds, -⟩ := (decimal_conversion_iff sampleLib).1 _ _ hrun
  cases hpayload
  exact ⟨_, hrun, hrounds.2 (by decide)⟩

/-- From `2 ^ 63` satoshi on the output is negative, and from `2 ^ 64` on the amount starts again
at 0. -/
theorem decimal_conversion_wraps :
    (∃ p, erc20MessageHandler (transferTo [1, 0x2a, 5, 0xf2, 0, 0, 0, 0, 0, 0, 0, 0, 0]) = .ok p ∧
      p.data.amount = 9223372036854775808 ∧
      ∃ script, addOutput sampleLib (0, []) p.toBtc =
        .ok (9223372036854775808, [⟨-9223372036854775808, script⟩])) ∧
    ∃ p, erc20MessageHandler (transferTo [2, 0x54, 0x0b, 0xe4, 0, 0, 0, 0, 0, 0, 0, 0, 0]) = .ok p ∧
      p.data.amount = 0 := by
  refine ⟨⟨_, rfl, ?_, ?_⟩, _, rfl, ?_⟩
  · decide
  · exact ⟨_, rfl⟩
  · decide

end Sygma.Btc
