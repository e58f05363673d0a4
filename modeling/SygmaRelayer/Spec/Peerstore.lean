import Mathlib.Data.List.Dedup
import SygmaRelayer.Spec.Election

/-! The peerstore of a libp2p host, as `LoadPeers` (`comm/p2p/host.go`) and the TSS processes use
it. A peer that has an address is listed; it may be listed without one, as the host lists peers
whose keys it knows. -/

namespace Sygma

structure Peerstore (Store : Type) where
  /-- what `libp2p.New` makes -/
  fresh : Store
  /-- `Peers` -/
  peers : Store → List PeerID
  /-- `Addrs` -/
  addrs : Store → PeerID → List String
  /-- `RemovePeer` and `ClearAddrs` -/
  removePeer : Store → PeerID → Store
  /-- `AddAddr` with `PermanentAddrTTL` -/
  addAddr : Store → PeerID → String → Store
  nodup_peers : ∀ s, (peers s).Nodup
  mem_peers_of_mem_addrs : ∀ {s p a}, a ∈ addrs s p → p ∈ peers s
  mem_peers_removePeer : ∀ {s p q}, q ∈ peers (removePeer s p) ↔ q ∈ peers s ∧ q ≠ p
  mem_addrs_removePeer : ∀ {s p q a}, a ∈ addrs (removePeer s p) q ↔ a ∈ addrs s q ∧ q ≠ p
  mem_peers_addAddr : ∀ {s p q b}, q ∈ peers (addAddr s p b) ↔ q ∈ peers s ∨ q = p
  mem_addrs_addAddr : ∀ {s p q a b}, a ∈ addrs (addAddr s p b) q ↔ a ∈ addrs s q ∨ q = p ∧ a = b

/-- An operation of `LoadPeers` on the peerstore. -/
inductive PeerOp
  | remove (p : PeerID)
  | add (p : PeerID) (addr : String)
deriving DecidableEq, Repr

def Peerstore.apply {Store : Type} (store : Peerstore Store) (s : Store) : PeerOp → Store
  | .remove p => store.removePeer s p
  | .add p addr => store.addAddr s p addr

/-- A peerstore as the list of its entries. -/
def listPeerstore : Peerstore (List (PeerID × String)) where
  fresh := []
  peers s := (s.map Prod.fst).dedup
  addrs s p := (s.filter fun e => e.1 = p).map Prod.snd
  removePeer s p := s.filter fun e => e.1 ≠ p
  addAddr s p addr := if (p, addr) ∈ s then s else s ++ [(p, addr)]
  nodup_peers _ := List.nodup_dedup _
  mem_peers_of_mem_addrs := by
    intro s p a h
    obtain ⟨e, he, -⟩ := List.mem_map.1 h
    obtain ⟨hs, hp⟩ := List.mem_filter.1 he
    exact List.mem_dedup.2 (List.mem_map.2 ⟨e, hs, of_decide_eq_true hp⟩)
  mem_peers_removePeer := by
    intro s p q
    simp only [List.mem_dedup, List.mem_map, List.mem_filter, decide_eq_true_eq]
    grind
  mem_addrs_removePeer := by
    intro s p q a
    simp only [List.mem_map, List.mem_filter, decide_eq_true_eq]
    grind
  mem_peers_addAddr := by
    intro s p q b
    simp only [List.mem_dedup, List.mem_map]
    split_ifs with h
    · grind
    · simp only [List.mem_append, List.mem_singleton]
      grind
  mem_addrs_addAddr := by
    intro s p q a b
    simp only [List.mem_map, List.mem_filter, decide_eq_true_eq]
    split_ifs with h
    · grind
    · simp only [List.mem_append, List.mem_singleton]
      grind

end Sygma
