import Mathlib.Data.Prod.Lex
import Binkleyforce.Library.SelectionSort
import Binkleyforce.Daemon.Systems

/-!
# The sorting of the system queue

The queue is sorted by address or by the size of what waits for a system. Two addresses are
compared number by number; the comparison that serves as "greater" holds of equal ones too.
-/

namespace Binkleyforce

open Library

/-- The operators of `ftn_addrcomp_logic`. -/
inductive AddrOperator where
  | eq
  | gt
  | lt
  deriving DecidableEq, Repr

/-- The loop of `ftn_addrcomp_logic`, over the numbers of both addresses. -/
def addrcompNumbers (operator : AddrOperator) : List (Int × Int) → Int
  | [] => 0
  | (one, other) :: rest =>
    match operator with
    | .eq => if one ≠ other then 1 else addrcompNumbers operator rest
    | .gt => if other < one then 0 else if one < other then 1 else addrcompNumbers operator rest
    | .lt => if one < other then 0 else if other < one then 1 else addrcompNumbers operator rest

/-- `ftn_addrcomp_logic`, zero where the expression is true. -/
def ftnAddrcompLogic (addr1 : Faddr) (operator : AddrOperator) (addr2 : Faddr) : Int :=
  addrcompNumbers operator
    [(addr1.zone, addr2.zone), (addr1.net, addr2.net), (addr1.node, addr2.node), (addr1.point, addr2.point)]

/-- `s_sysentry` with the sizes of what waits for the system. -/
structure SizedEntry extends SysEntry where
  netmailSize : UInt64 := 0
  arcmailSize : UInt64 := 0
  requestSize : UInt64 := 0
  filesSize : UInt64 := 0
  deriving DecidableEq, Repr

/-- The table of `s_sysqueue`. -/
structure SysQueue where
  sysnum : Nat
  systab : Vector SizedEntry sysnum

/-- `QUEUE_SORT_ADDRESS`. -/
def queueSortAddress : Nat := 0x01

/-- `QUEUE_SORT_SIZE`. -/
def queueSortSize : Nat := 0x02

/-- `QUEUE_SORT_REVERSE`. -/
def queueSortReverse : Nat := 0x04

/-- The sum of the sizes, a `size_t`. -/
def SizedEntry.size (syst : SizedEntry) : UInt64 :=
  syst.netmailSize + syst.arcmailSize + syst.requestSize + syst.filesSize

/-- `out_sysqueue_sort_comp`. -/
def outSysqueueSortComp (opts : Nat) (max chk : SizedEntry) : Bool :=
  if hasType opts queueSortAddress then
    if hasType opts queueSortReverse then ftnAddrcompLogic max.node.addr .lt chk.node.addr = 0
    else ftnAddrcompLogic max.node.addr .gt chk.node.addr = 0
  else if hasType opts queueSortSize then
    if hasType opts queueSortReverse then chk.size < max.size else max.size < chk.size
  else false

/-- `out_sysqueue_sort`. -/
def outSysqueueSort (q : SysQueue) (opts : Nat) : SysQueue :=
  { q with systab := if q.sysnum < 2 then q.systab else selectionSort (outSysqueueSortComp opts) q.systab }

/-! ## The order -/

/-- An address in the order of zone, net, node and point. -/
def Faddr.rank (addr : Faddr) : Int ×ₗ Int ×ₗ Int ×ₗ Int :=
  toLex (addr.zone, toLex (addr.net, toLex (addr.node, addr.point)))

/-- The four sizes of an entry together. -/
def SizedEntry.total (syst : SizedEntry) : Nat :=
  syst.netmailSize.toNat + syst.arcmailSize.toNat + syst.requestSize.toNat + syst.filesSize.toNat

/-- The order a queue is sorted in, where the options name one. -/
def QueueOrder (opts : Nat) (one other : SizedEntry) : Prop :=
  if hasType opts queueSortAddress then
    if hasType opts queueSortReverse then other.node.addr.rank ≤ one.node.addr.rank
    else one.node.addr.rank ≤ other.node.addr.rank
  else if hasType opts queueSortSize then
    if hasType opts queueSortReverse then one.total ≤ other.total else other.total ≤ one.total
  else True

/-- "Greater" is no less, and "less" no greater. -/
theorem ftnAddrcompLogic_iff (addr1 addr2 : Faddr) :
    (ftnAddrcompLogic addr1 .gt addr2 = 0 ↔ addr2.rank ≤ addr1.rank) ∧
      (ftnAddrcompLogic addr1 .lt addr2 = 0 ↔ addr1.rank ≤ addr2.rank) := by
  unfold ftnAddrcompLogic Faddr.rank
  simp only [addrcompNumbers, Prod.Lex.toLex_le_toLex]
  constructor
  · split_ifs <;> omega
  · split_ifs <;> omega

/-- The order with the sums as they are computed. -/
def SortOrder (opts : Nat) (one other : SizedEntry) : Prop :=
  if hasType opts queueSortAddress then
    if hasType opts queueSortReverse then other.node.addr.rank ≤ one.node.addr.rank
    else one.node.addr.rank ≤ other.node.addr.rank
  else if hasType opts queueSortSize then
    if hasType opts queueSortReverse then one.size ≤ other.size else other.size ≤ one.size
  else True

/-- The comparison goes with it. -/
theorem outSysqueueSortComp_test (opts : Nat) : TestFor (outSysqueueSortComp opts) (SortOrder opts) := by
  unfold outSysqueueSortComp SortOrder
  by_cases address : hasType opts queueSortAddress = true
  · simp only [if_pos address]
    by_cases reverse : hasType opts queueSortReverse = true
    · simp only [if_pos reverse, ftnAddrcompLogic_iff]
      exact ⟨fun _ => le_refl _, fun _ _ _ first second => second.trans first,
        fun _ _ before => of_decide_eq_true before,
        fun _ _ before => (le_total _ _).resolve_left (of_decide_eq_false before)⟩
    · simp only [if_neg reverse, ftnAddrcompLogic_iff]
      exact ⟨fun _ => le_refl _, fun _ _ _ first second => first.trans second,
        fun _ _ before => of_decide_eq_true before,
        fun _ _ before => (le_total _ _).resolve_left (of_decide_eq_false before)⟩
  · simp only [if_neg address]
    by_cases size : hasType opts queueSortSize = true
    · simp only [if_pos size]
      by_cases reverse : hasType opts queueSortReverse = true
      · simp only [if_pos reverse]
        exact ⟨fun _ => UInt64.le_refl _, fun _ _ _ => UInt64.le_trans,
          fun _ _ before => UInt64.le_of_lt (of_decide_eq_true before),
          fun _ _ before => UInt64.not_lt.mp (of_decide_eq_false before)⟩
      · simp only [if_neg reverse]
        exact ⟨fun _ => UInt64.le_refl _, fun _ _ _ first second => UInt64.le_trans second first,
          fun _ _ before => UInt64.le_of_lt (of_decide_eq_true before),
          fun _ _ before => UInt64.not_lt.mp (of_decide_eq_false before)⟩
    · simp only [if_neg size]
      exact ⟨fun _ => trivial, fun _ _ _ _ _ => trivial, fun _ _ _ => trivial, fun _ _ _ => trivial⟩

/-- The sum is the total where that fits. -/
theorem size_total {syst : SizedEntry} (fits : syst.total < 2 ^ 64) : syst.size.toNat = syst.total := by
  unfold SizedEntry.total at fits ⊢
  unfold SizedEntry.size
  simp only [UInt64.toNat_add]
  omega

/-- Sorting leaves the entries of the queue, in the order that the options name. -/
theorem queue_sorted (q : SysQueue) (opts : Nat)
    (sizes : hasType opts queueSortSize = true → ∀ syst ∈ q.systab.toList, syst.total < 2 ^ 64) :
    (outSysqueueSort q opts).systab.toList.Perm q.systab.toList ∧
      (outSysqueueSort q opts).systab.toList.Pairwise (QueueOrder opts) := by
  have perm : (outSysqueueSort q opts).systab.toList.Perm q.systab.toList := by
    change (if q.sysnum < 2 then q.systab else selectionSort _ q.systab).toList.Perm _
    split
    · exact List.Perm.refl _
    · exact (selectionSort_perm _ q.systab).toList
  have sorted : (outSysqueueSort q opts).systab.toList.Pairwise (SortOrder opts) := by
    change (if q.sysnum < 2 then q.systab else selectionSort _ q.systab).toList.Pairwise _
    split
    · rename_i few
      rw [List.pairwise_iff_getElem]
      intro i j _ second before
      rw [Vector.length_toList] at second
      omega
    · exact selectionSort_sorted (outSysqueueSortComp_test opts) q.systab
  refine ⟨perm, sorted.imp_of_mem ?_⟩
  intro one other first second ordered
  unfold SortOrder at ordered
  unfold QueueOrder
  by_cases size : hasType opts queueSortSize = true
  · rw [← size_total (sizes size one (perm.subset first)), ← size_total (sizes size other (perm.subset second))]
    exact ordered
  · rw [if_neg size] at ordered ⊢
    exact ordered

/-- Three systems by descending size. -/
theorem queue_sorted_size :
    (outSysqueueSort ⟨3, #v[{ node := { addr := { node := 1 } }, filesSize := 5 },
      { node := { addr := { node := 2 } }, netmailSize := 9 },
      { node := { addr := { node := 3 } }, arcmailSize := 7 }]⟩ queueSortSize).systab.toList.Pairwise
        (QueueOrder queueSortSize) :=
  (queue_sorted _ queueSortSize (fun _ => by decide)).2

end Binkleyforce
