import Mathlib.Data.List.AList
import Mathlib.Data.UInt
import SygmaRelayer.Lib.Runs
import SygmaRelayer.Lib.Text

/-! Message subscriptions: `SubscriptionID` (`comm/subID.go`) and
`SessionSubscriptionManager` (`comm/p2p/subscription.go`). Every method holds the
manager's lock, so calls happen one after another. -/

namespace Sygma.Comm

open Text

/-- `MessageType` is a `uint8`; its named values end with `Unknown`. -/
abbrev MessageType := UInt8

def MessageType.Unknown : MessageType := 13

/-- `NewSubscriptionID` at a clock reading of `now` nanoseconds. -/
def newSubscriptionID (sessionID : String) (msgType : MessageType) (now : Int64) : String :=
  sessionID ++ "-" ++ msgType.toNat.repr ++ "-" ++ now.toUInt64.toUInt32.toNat.repr

inductive UnwrapError
  /-- invalid subscriptionID -/
  | parts
  /-- the type is not an 8-bit integer -/
  | number
  /-- invalid message type -/
  | msgType
deriving DecidableEq, Repr

/-- `SubscriptionID.Unwrap` -/
def unwrap (sID : String) : Except UnwrapError (String × MessageType × String) :=
  match split '-' sID with
  | [sessionID, msgType, subID] =>
    match parseInt 8 msgType with
    | none => .error .number
    | some t => if t > 13 then .error .msgType else .ok (sessionID, UInt8.ofInt t, subID)
  | _ => .error .parts

def subscriptionIdentifier (sID : String) : String :=
  match unwrap sID with
  | .ok (_, _, subID) => subID
  | .error _ => ""

/-- The innermost maps of the manager: identifier to channel. -/
abbrev Subscribers (Chan : Type) := AList fun _ : String => Chan

/-- `SessionSubscriptionManager`: session ID to message type to identifier to channel. -/
structure SubscriptionManager (Chan : Type) where
  subscribersMap : String → Option (MessageType → Option (Subscribers Chan))

variable {Chan : Type}

namespace SubscriptionManager

def empty : SubscriptionManager Chan := ⟨fun _ => none⟩

/-- `subscribersMap[sessionID][msgType]`, where a missing map reads as an empty one. -/
def subscribers (m : SubscriptionManager Chan) (sessionID : String) (msgType : MessageType) :
    Subscribers Chan :=
  ((m.subscribersMap sessionID).bind fun types => types msgType).getD ∅

/-- `subscribersMap[sessionID][msgType] = subs`, making the middle map if it is missing. -/
def assign (m : SubscriptionManager Chan) (sessionID : String) (msgType : MessageType)
    (subs : Subscribers Chan) : SubscriptionManager Chan :=
  let types := (m.subscribersMap sessionID).getD fun _ => none
  ⟨Function.update m.subscribersMap sessionID (some (Function.update types msgType (some subs)))⟩

/-- `GetSubscribers`; Go ranges over a map in any order. -/
def getSubscribers (m : SubscriptionManager Chan) (sessionID : String) (msgType : MessageType) :
    List Chan :=
  (m.subscribers sessionID msgType).entries.map Sigma.snd

/-- `SubscribeTo`, with the ID it returns. -/
def subscribeTo (m : SubscriptionManager Chan) (sessionID : String) (msgType : MessageType)
    (channel : Chan) (now : Int64) : SubscriptionManager Chan × String :=
  let subID := newSubscriptionID sessionID msgType now
  (m.assign sessionID msgType
    ((m.subscribers sessionID msgType).insert (subscriptionIdentifier subID) channel), subID)

/-- `UnSubscribeFrom` -/
def unSubscribeFrom (m : SubscriptionManager Chan) (subscriptionID : String) :
    SubscriptionManager Chan :=
  match unwrap subscriptionID with
  | .error _ => m
  | .ok (sessionID, msgType, subID) =>
    if subID ∈ m.subscribers sessionID msgType then
      m.assign sessionID msgType ((m.subscribers sessionID msgType).erase subID)
    else m

@[simp] theorem subscribers_empty (s : String) (t : MessageType) :
    (empty : SubscriptionManager Chan).subscribers s t = ∅ := rfl

theorem subscribers_assign (m : SubscriptionManager Chan) (s s' : String) (t t' : MessageType)
    (subs : Subscribers Chan) :
    (m.assign s t subs).subscribers s' t' =
      if s' = s ∧ t' = t then subs else m.subscribers s' t' := by
  unfold subscribers assign
  by_cases hs : s' = s
  · subst hs
    by_cases ht : t' = t
    · simp [ht]
    · cases h : m.subscribersMap s' <;> simp [ht, Function.update_of_ne]
  · simp [hs, Function.update_of_ne]

end SubscriptionManager

/-- A subscription as its caller sees it. -/
structure Subscription (Chan : Type) where
  sessionID : String
  msgType : MessageType
  now : Int64
  channel : Chan
deriving DecidableEq, Repr

/-- The `SubscriptionID` the caller was given. -/
def Subscription.id (l : Subscription Chan) : String :=
  newSubscriptionID l.sessionID l.msgType l.now

inductive Call (Chan : Type)
  | subscribeTo (sessionID : String) (msgType : MessageType) (channel : Chan) (now : Int64)
  | unSubscribeFrom (subscriptionID : String)
deriving DecidableEq, Repr

/-- The manager beside the subscriptions that were made and whose ID was not passed to
`UnSubscribeFrom` since. -/
structure Table (Chan : Type) where
  manager : SubscriptionManager Chan
  live : List (Subscription Chan)

def Table.empty : Table Chan := ⟨.empty, []⟩

def Table.call (t : Table Chan) : Call Chan → Table Chan
  | .subscribeTo sessionID msgType channel now =>
    ⟨(t.manager.subscribeTo sessionID msgType channel now).1,
      t.live ++ [⟨sessionID, msgType, now, channel⟩]⟩
  | .unSubscribeFrom subscriptionID =>
    ⟨t.manager.unSubscribeFrom subscriptionID, t.live.filter fun l => l.id ≠ subscriptionID⟩

/-- No call fails. -/
def Table.step (t : Table Chan) (c : Call Chan) : Option (Table Chan) := some (t.call c)

/-- The live subscriptions for a session and a message type. -/
def Table.liveFor (t : Table Chan) (sessionID : String) (msgType : MessageType) :
    List (Subscription Chan) :=
  t.live.filter fun l => l.sessionID = sessionID ∧ l.msgType = msgType

/-- `GetSubscribers` returns the channels of the live subscriptions, each once. -/
def Table.Exact (t : Table Chan) : Prop :=
  ∀ sessionID msgType, (t.manager.getSubscribers sessionID msgType).Perm
    ((t.liveFor sessionID msgType).map Subscription.channel)

end Sygma.Comm
