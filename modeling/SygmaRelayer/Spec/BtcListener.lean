import Mathlib.Data.List.Range
import Mathlib.Tactic.Common

/-! The loop of the Bitcoin listener (`chains/btc/listener/listener.go`). One turn polls the
head of the chain and, if the next block is confirmed, calls the event handlers on it and
stores its number. `startBlock` is a `big.Int` incremented in place; the first head it may
be set to is not read again after that. The listener is started by the chain object
(`chains/btc/chain.go`) that each run of the relayer makes (`app/app.go`). -/

namespace Sygma.BtcListener

structure Listener where
  /-- how many event handlers there are -/
  eventHandlers : ℕ
  blockConfirmations : ℤ

/-- What one turn of the loop meets with; `ctx.Done` ends the list of turns. -/
inductive Poll
  | bestBlockHashError
  | blockVerboseTxError
  /-- the height of the head, whether each handler succeeds if it is called, and whether
  `StoreBlock` does -/
  | block (height : ℤ) (handleEvents : ℕ → Bool) (storeBlock : Bool)

/-- The calls of a turn, and the line logged before the handlers are called. -/
inductive Action
  | fetchingEvents (block : ℤ)
  | handleEvents (handler : ℕ) (block : ℤ) (ok : Bool)
  | storeBlock (block : ℤ) (ok : Bool)
deriving DecidableEq, Repr

/-- The loop over the `n` handlers from `handler` on: the calls, and whether all succeeded. -/
def callHandlers (handleEvents : ℕ → Bool) (block : ℤ) (handler : ℕ) : ℕ → List Action × Bool
  | 0 => ([], true)
  | n + 1 =>
    if handleEvents handler then
      let (calls, ok) := callHandlers handleEvents block (handler + 1) n
      (.handleEvents handler block true :: calls, ok)
    else ([.handleEvents handler block false], false)

/-- One turn of the loop: `startBlock` after it, and what it did. -/
def turn (l : Listener) (startBlock : Option ℤ) : Poll → Option ℤ × List Action
  | .bestBlockHashError | .blockVerboseTxError => (startBlock, [])
  | .block head handleEvents stored =>
    let startBlock := startBlock.getD head
    if head - startBlock < l.blockConfirmations then (some startBlock, [])
    else
      let (calls, ok) := callHandlers handleEvents startBlock 0 l.eventHandlers
      let actions := .fetchingEvents startBlock :: calls
      -- whether the block was stored makes no difference
      if ok then (some (startBlock + 1), actions ++ [.storeBlock startBlock stored])
      else (some startBlock, actions)

/-- `ListenToEvents`: the turns with what each of them did. -/
def listenToEvents (l : Listener) : Option ℤ → List Poll → List (Poll × List Action)
  | _, [] => []
  | startBlock, poll :: polls =>
    (poll, (turn l startBlock poll).2) :: listenToEvents l (turn l startBlock poll).1 polls

structure BtcChain where
  listener : Listener
  startBlock : Option ℤ

/-- `NewBtcChain`, which is not given a start block and leaves the field nil. -/
def newBtcChain (listener : Listener) : BtcChain := ⟨listener, none⟩

def BtcChain.pollEvents (c : BtcChain) (polls : List Poll) : List (Poll × List Action) :=
  listenToEvents c.listener c.startBlock polls

/-- One run of the relayer: what its listener meets with, and the number of actions after which
it is stopped, be it within a turn. -/
structure AppRun where
  polls : List Poll
  stop : ℕ

/-- What the listener of one run does. The block store is only written to: the btc case of `Run`
hands it to the listener and does not read it, as the other cases do. -/
def AppRun.actions (l : Listener) (r : AppRun) : List Action :=
  (((newBtcChain l).pollEvents r.polls).flatMap Prod.snd).take r.stop

end Sygma.BtcListener
