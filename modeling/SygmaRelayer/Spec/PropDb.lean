import SygmaRelayer.Lib.KeyValue
import SygmaRelayer.Spec.PropStore

/-! `store/propstore.go` on the key-value database below it: a proposal is addressed by a text
with its three numbers, and its status is stored as the text it is. -/

namespace Sygma

/-- The text of a `store.PropStatus`. -/
def PropStatus.text : PropStatus → ByteArray
  | .missing => "missing".toUTF8
  | .pending => "pending".toUTF8
  | .failed => "failed".toUTF8
  | .executed => "executed".toUTF8

namespace PropDb

open KeyValue

variable {ε : Type} [DecidableEq ε] (db : Db ByteArray ByteArray ε)

/-- `fmt.Sprintf(KEY, source, destination, depositNonce)` -/
def keyS (k : PropKey) : String :=
  "source:" ++ k.source.toNat.repr ++ ":destination:" ++ k.destination.toNat.repr ++
    ":depositNonce:" ++ k.depositNonce.toNat.repr

def key (k : PropKey) : ByteArray := (keyS k).toUTF8

/-- `StorePropStatus`; a status is any string, and a Go string is its bytes. -/
def storePropStatus (s : db.State) (k : PropKey) (status : ByteArray) : Except ε db.State :=
  db.set s (key k) status

/-- `PropStatus`: the status and the error. -/
def propStatus (s : db.State) (k : PropKey) : ByteArray × Option ε :=
  match db.get s (key k) with
  | .error err =>
    if err = db.notFound then (PropStatus.missing.text, none)
    else (PropStatus.missing.text, some err)
  | .ok v => (v, none)

/-- `StorePropStatus` calls one after the other, all of which succeed. -/
def storeAll (s : db.State) (calls : List (PropKey × ByteArray)) : Except ε db.State :=
  calls.foldlM (fun s call => storePropStatus db s call.1 call.2) s

end PropDb

end Sygma
