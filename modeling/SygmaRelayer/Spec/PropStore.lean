import Mathlib.Logic.Function.Basic
import Mathlib.Tactic.Common

/-! The proposal status store (`store/propstore.go`) and the two places of the
retry handling that rewrite it (`relayer/retry/retry.go` and `RetryV1EventHandler`
in `chains/evm/listener/eventHandlers/retry.go`). Their `isExecuted` functions are
the same code: a read of the status, and a write of `failed` if it was `pending`. -/

namespace Sygma

/-- A `[32]byte` resource ID, as the number its bytes spell. -/
abbrev ResourceID := BitVec 256

/-- `store.PropStatus`; an absent key reads as `missing`. -/
inductive PropStatus
  | missing
  | pending
  | failed
  | executed
deriving DecidableEq, Repr

/-- The triple by which `StorePropStatus` and `PropStatus` address a proposal. -/
structure PropKey where
  source : UInt8
  destination : UInt8
  depositNonce : UInt64
deriving DecidableEq, Repr

/-- The contents of the store. -/
abbrev PropStore := PropKey → PropStatus

/-- `StorePropStatus`, when the database accepts the write. -/
def PropStore.storePropStatus (st : PropStore) (k : PropKey) (status : PropStatus) : PropStore :=
  Function.update st k status

@[simp] theorem PropStore.storePropStatus_apply (st : PropStore) (k k' : PropKey) (v : PropStatus) :
    st.storePropStatus k v k' = if k' = k then v else st k' := by
  simp [PropStore.storePropStatus, Function.update_apply]

/-- What the retry handlers' `isExecuted` does after a successful read: report the
deposit executed, let it pass, or first write `failed`. -/
inductive RetryVerdict
  | executed
  | retryable
  | resetFirst
deriving DecidableEq, Repr

/-- The branches of the retry handlers' `isExecuted` on the status they read. -/
def retryIsExecuted : PropStatus → RetryVerdict
  | .executed => .executed
  | .pending => .resetFirst
  | .missing | .failed => .retryable

end Sygma
