import SygmaRelayer.Spec.BtcExecutor
import SygmaRelayer.Spec.FungibleCodec

/-! Transfers to Bitcoin (`chains/btc/executor/message-handler.go`): the message handler takes
ten decimals off the amount and makes a `uint64` of it. -/

namespace Sygma.Btc

open Go

/-- `string(bytes)`, one character for each byte. -/
def goString (bytes : List UInt8) : String :=
  String.ofList (bytes.map fun b => Char.ofNat b.toNat)

def erc20MessageHandler (m : Message) : Outcome Proposal := do
  match m.data.payload with
  | [amount, recipient] =>
    let amount ← amount.asBytes "wrong payload amount format"
    let recipient ← recipient.asBytes "wrong payload recipient format"
    let bigAmount := Bytes.toNat amount / 10 ^ 10
    -- `big.Int.Uint64` keeps the low 64 bits
    let data := ⟨UInt64.ofNat bigAmount, goString recipient, m.data.depositNonce, m.data.resourceId⟩
    return ⟨m.source, m.destination, data, m.id⟩
  | _ => throw (.error "malformed payload. Len  of payload should be 2")

end Sygma.Btc
