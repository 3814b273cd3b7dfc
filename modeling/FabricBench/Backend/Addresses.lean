import FabricBench.Backend.Libfabric
import FabricBench.Backend.Ucx
import FabricBench.Backend.Verbs
import Mathlib.Data.List.Forall2

/-!
Whether the address exchange of each backend is faithful: the verbs and libfabric
backends always are, and the UCX backend only for addresses of certain lengths.
-/

namespace FabricBench

open FabricBench.Lib
open FabricBench.Lib.Memory (Mem InBounds)
open FabricBench.Pmi

/-! ## Verbs and libfabric -/

/-- Keys, values and buffers are right on both backends, scans stay in their records,
and so after any interleaving of the ranks' puts `get_ctx_addr` yields exactly what
the target put for its context. -/
theorem address_exchange_faithful :
    Verbs.addrFormat.Faithful ∧
    (∀ info, InBounds 8 [0, 4] (Stdio.sscanf (Verbs.putValue info) "%d-%d")) ∧
    Libfabric.addrFormat.Faithful ∧
    (∀ ranks num, ranks ≤ 2 ^ 31 → num ≤ 2 ^ 31 →
      ∀ rank, rank < ranks → ∀ id, id < num → ∀ (space : Space) (stack : Mem)
        (order : List (Nat × (Key × Value))),
        (∀ info : Nat → Nat → Verbs.ConnInfo,
          Kvs.Interleaving ranks (Verbs.addrFormat.puts info num) order →
          Verbs.addrFormat.getCtxAddr (Kvs.putAll space (order.map Prod.snd)) stack rank id =
            some (info rank id)) ∧
        (∀ myAddr : Nat → Nat → Libfabric.EpAddr,
          Kvs.Interleaving ranks (Libfabric.addrFormat.puts myAddr num) order →
          Libfabric.addrFormat.getCtxAddr (Kvs.putAll space (order.map Prod.snd)) stack rank id =
            some (myAddr rank id))) := by
  refine ⟨Verbs.addrFormat_faithful, fun info => ?_, Libfabric.addrFormat_faithful, ?_⟩
  · rw [Verbs.sscanf_putValue]
    simp [InBounds, Memory.argSize]
  · intro ranks num ranksFit numFits rank rankBelow id idBelow space stack order
    constructor
    · intro info interleaving
      exact Verbs.addrFormat_faithful.exchange ranksFit numFits info interleaving space stack
        rankBelow idBelow
    · intro myAddr interleaving
      exact Libfabric.addrFormat_faithful.exchange ranksFit numFits myAddr interleaving space stack
        rankBelow idBelow

/-- Two ranks with one context each; rank 1 puts first. The queue pair number of rank
0 is printed as -2. -/
theorem address_exchange_faithful_two_ranks :
    let info : Nat → Nat → Verbs.ConnInfo := fun rank _ =>
      ⟨0xfffffffe#32, BitVec.ofNat 16 (rank + 7)⟩
    let order := [(1, Verbs.addrFormat.putCtxAddr 1 (info 1 0) 0),
      (0, Verbs.addrFormat.putCtxAddr 0 (info 0 0) 0)]
    Kvs.Interleaving 2 (Verbs.addrFormat.puts info 1) order ∧
      Verbs.addrFormat.getCtxAddr (Kvs.putAll (fun _ => none) (order.map Prod.snd))
        (fun _ => 0) 0 0 =
        some ⟨0xfffffffe#32, 7#16⟩ := by
  intro info order
  have interleaving : Kvs.Interleaving 2 (Verbs.addrFormat.puts info 1) order := by
    intro party
    rcases party with _ | _ | party
    · rfl
    · rfl
    · simp [order]
  exact ⟨interleaving, (address_exchange_faithful.2.2.2 2 1 (by decide) (by decide) 0 (by decide) 0
    (by decide) _ _ order).1 info interleaving⟩

/-! ## UCX -/

namespace Ucx

/-- Distinct contexts and endpoints have distinct keys, and the keys asked for are the
keys put. -/
structure KeysFaithful : Prop where
  dev_injective : ∀ addrType rank id addrType' rank' id',
    putKey1 addrType rank id = putKey1 addrType' rank' id' →
      addrType = addrType' ∧ rank = rank' ∧ id = id'
  ep_injective : ∀ addrType i rank id addrType' i' rank' id',
    putKey2 addrType i rank id = putKey2 addrType' i' rank' id' →
      addrType = addrType' ∧ i = i' ∧ rank = rank' ∧ id = id'
  dev_ne_ep : ∀ addrType rank id addrType' i' rank' id',
    putKey1 addrType rank id ≠ putKey2 addrType' i' rank' id'
  dev_asked : ∀ addrType rank id, getKey1 addrType rank id = putKey1 addrType rank id
  ep_asked : ∀ addrType i rank id, getKey2 addrType i rank id = putKey2 addrType i rank id

/-- The partner's `get_ctx_addr` returns, its buffers of the reported lengths hold the
owner's addresses, and no store of its scans leaves a buffer. -/
structure ValuesFaithful (devAddrLen epAddrLen : Nat) (heap : Mem) (space : Space) (ctx : CtxAddrs)
    (rank id : Nat) (addrType : AddrType) : Prop where
  exact_ : ∃ peer,
    getCtxAddr devAddrLen epAddrLen ctx.ownEpAddrs.length heap space rank id addrType = some peer ∧
      (∀ a, a < devAddrLen → peer.peerDev a = ctx.ownDev a) ∧
      List.Forall₂ (fun peerEp ownEp => ∀ a, a < epAddrLen → peerEp a = ownEp a) peer.peerEpAddrs
        ctx.ownEpAddrs
  dev_inBounds : ∀ value, pmiGet space (getKey1 addrType (cInt rank) (cInt id)) = some value →
    InBounds devAddrLen [0, 1, 2] (devScan value)
  ep_inBounds : ∀ i, i < ctx.ownEpAddrs.length → ∀ value,
    pmiGet space (getKey2 addrType (cInt i) (cInt rank) (cInt id)) = some value →
      InBounds epAddrLen [0, 1, 2, 3, 4] (epScan value)

theorem keysFaithful : KeysFaithful where
  dev_injective _ _ _ _ _ _ := putKey1_injective
  ep_injective _ _ _ _ _ _ _ _ := putKey2_injective
  dev_ne_ep addrType rank id addrType' i' rank' id' :=
    putKey1_ne_putKey2 addrType addrType' rank id i' rank' id'
  dev_asked _ _ _ := rfl
  ep_asked _ _ _ _ := rfl

/-- The exchange is faithful exactly for device addresses of at least 6 bytes that are
zero behind the third, and endpoint addresses of at least 8 bytes that are zero behind
the fifth. -/
theorem exchange_faithful_iff (devAddrLen epAddrLen : Nat) (heap : Mem) (space : Space)
    (ctx : CtxAddrs) (rank id : Nat) (addrType : AddrType)
    (visible : Visible space ctx rank id addrType) :
    (KeysFaithful ∧ ValuesFaithful devAddrLen epAddrLen heap space ctx rank id addrType) ↔
      (6 ≤ devAddrLen ∧ ∀ a, 3 ≤ a → a < devAddrLen → ctx.ownDev a = 0) ∧
        ∀ ep ∈ ctx.ownEpAddrs, 8 ≤ epAddrLen ∧ ∀ a, 5 ≤ a → a < epAddrLen → ep a = 0 := by
  constructor
  · rintro ⟨-, values⟩
    obtain ⟨peer, got, dev, eps⟩ := values.exact_
    rw [visible.getCtxAddr, Option.some.injEq] at got
    subst got
    rw [List.forall₂_map_left_iff, List.forall₂_same] at eps
    refine ⟨⟨?_, ?_⟩, fun ep member => ⟨?_, ?_⟩⟩
    · exact (dev_inBounds_iff devAddrLen ctx.ownDev).mp (values.dev_inBounds _ visible.dev)
    · exact (getDev_exact_iff devAddrLen heap ctx.ownDev).mp dev
    · obtain ⟨i, below, rfl⟩ := List.mem_iff_getElem.mp member
      exact (ep_inBounds_iff epAddrLen _).mp (values.ep_inBounds i below _ (visible.ep below))
    · exact (getEp_exact_iff epAddrLen heap ep).mp (eps ep member)
  · rintro ⟨⟨devRoom, devZero⟩, eps⟩
    refine ⟨keysFaithful, ⟨⟨_, visible.getCtxAddr devAddrLen epAddrLen heap, ?_, ?_⟩, ?_, ?_⟩⟩
    · exact (getDev_exact_iff devAddrLen heap ctx.ownDev).mpr devZero
    · rw [List.forall₂_map_left_iff, List.forall₂_same]
      intro ep member
      exact (getEp_exact_iff epAddrLen heap ep).mpr (eps ep member).2
    · intro value got
      rw [visible.dev, Option.some.injEq] at got
      rw [← got]
      exact (dev_inBounds_iff devAddrLen ctx.ownDev).mpr devRoom
    · intro i below value got
      rw [visible.ep below, Option.some.injEq] at got
      rw [← got]
      exact (ep_inBounds_iff epAddrLen _).mpr (eps _ (List.getElem_mem below)).1

/-- One worker context of rank 0 with one endpoint, both addresses beginning with the
byte 0x2a. -/
def loneTable : CtxTable where
  ctx _ _ _ := ⟨fun a => if a = 0 then 0x2a else 0, [fun a => if a = 0 then 0x2a else 0]⟩
  numEp_le _ _ _ := by simp

/-- What rank 0 puts for it. -/
def loneSpace : Space :=
  Kvs.putAll (fun _ => none) (putCtxAddr (loneTable.ctx 0 .w 0) 0 0 .w)

theorem lone_visible : Visible loneSpace (loneTable.ctx 0 .w 0) 0 0 .w := by
  rintro ⟨key, value⟩ member
  exact Kvs.putAll_of_mem member fun value' found =>
    loneTable.value_unique (by decide) (by decide) (by decide) (by decide) member found

/-- With lengths of 8 bytes the exchange is faithful. -/
theorem exchange_faithful_iff_long_addresses :
    KeysFaithful ∧ ValuesFaithful 8 8 (fun _ => 0) loneSpace (loneTable.ctx 0 .w 0) 0 0 .w := by
  refine (exchange_faithful_iff 8 8 _ loneSpace _ 0 0 .w lone_visible).mpr ⟨⟨by decide, ?_⟩, ?_⟩
  · intro a low _
    exact if_neg (by omega)
  · intro ep member
    rw [List.mem_singleton.mp member]
    exact ⟨by decide, fun a low _ => if_neg (by omega)⟩

/-- With lengths of 3 and 5 bytes, as many as are printed, the last store of a scan
writes three bytes behind the buffer. -/
theorem scan_leaves_buffer :
    ¬ ValuesFaithful 3 5 (fun _ => 0) loneSpace (loneTable.ctx 0 .w 0) 0 0 .w := by
  intro values
  have room := (dev_inBounds_iff 3 _).mp (values.dev_inBounds _ lone_visible.dev)
  exact absurd room (by decide)

end Ucx

end FabricBench
