import Binkleyforce.Daemon.Queues

/-!
# The purge of the queue

After a scan of the outbound the systems without mail leave the table. The loop goes on to
the next place also where it has removed a system, so that the one that has moved up is not
looked at: of two such neighbours the second one stays.
-/

namespace Binkleyforce

/-! ## Removing while going on -/

section

variable {α : Type} (goes : α → Bool)

/-- What is left of a list: behind an element that goes the next one stays. -/
def pruned : List α → List α
  | [] => []
  | [last] => if goes last then [] else [last]
  | first :: second :: rest =>
    if goes first then second :: pruned rest else first :: pruned (second :: rest)

/-- Of no two neighbours both would go. -/
def NoneBeside (list : List α) : Prop :=
  list.IsChain fun first second => ¬ (goes first = true ∧ goes second = true)

/-- What is to stay is left once, and in order. -/
theorem filter_pruned (list : List α) :
    (pruned goes list).filter (fun element => !goes element) = list.filter fun element => !goes element := by
  induction list using pruned.induct goes with
  | case1 => rfl
  | case2 last leaves =>
    rw [pruned, if_pos leaves, List.filter_cons_of_neg (by simp [leaves])]
  | case3 last stays => rw [pruned, if_neg stays]
  | case4 first second rest leaves inductionHypothesis =>
    rw [pruned, if_pos leaves, List.filter_cons, List.filter_cons_of_neg (by simp [leaves]), List.filter_cons,
      inductionHypothesis]
  | case5 first second rest stays inductionHypothesis =>
    rw [pruned, if_neg stays, List.filter_cons, List.filter_cons, inductionHypothesis]

/-- Beside an element that stays anything may stand. -/
theorem noneBeside_stays {first : α} (rest : List α) (stays : ¬ goes first = true) :
    NoneBeside goes (first :: rest) ↔ NoneBeside goes rest := by
  unfold NoneBeside
  cases rest with
  | nil => exact iff_of_true (.singleton first) .nil
  | cons second rest =>
    rw [List.isChain_cons_cons]
    exact and_iff_right fun both => stays both.1

/-- Nothing that would go is left exactly where no two of them were neighbours.

Induct as the loop goes on. -/
theorem pruned_clean_iff (list : List α) :
    (∀ element ∈ pruned goes list, ¬ goes element = true) ↔ NoneBeside goes list := by
  induction list using pruned.induct goes with
  | case1 => exact iff_of_true nofun .nil
  | case2 last leaves =>
    rw [pruned, if_pos leaves]
    exact iff_of_true nofun (.singleton last)
  | case3 last stays =>
    rw [pruned, if_neg stays]
    exact iff_of_true (List.forall_mem_singleton.mpr stays) (.singleton last)
  | case4 first second rest leaves inductionHypothesis =>
    rw [pruned, if_pos leaves, List.forall_mem_cons, inductionHypothesis]
    by_cases also : goes second = true
    · refine iff_of_false (fun clean => clean.1 also) fun none => ?_
      exact (List.isChain_cons_cons.mp none).1 ⟨leaves, also⟩
    · rw [and_iff_right also, ← noneBeside_stays goes rest also]
      unfold NoneBeside
      rw [List.isChain_cons_cons]
      exact (and_iff_right fun both => also both.2).symm
  | case5 first second rest stays inductionHypothesis =>
    rw [pruned, if_neg stays, List.forall_mem_cons, inductionHypothesis, noneBeside_stays goes _ stays]
    exact and_iff_right stays

end

/-! ## The table of the daemon -/

namespace Daemon

/-- Behind the table there is nothing to remove. -/
theorem removeLoop_beyond (goes : SysEntry → Bool) (left pos : Nat) (d : Daemon) (beyond : d.systab.length ≤ pos) :
    d.removeLoop goes left pos = d := by
  cases left with
  | zero => rfl
  | succ left => rw [removeLoop, List.getElem?_eq_none beyond]

/-- A turn of the loop. -/
theorem removeLoop_turn (goes : SysEntry → Bool) {d : Daemon} {front back : List SysEntry} {syst : SysEntry}
    (table : d.systab = front ++ syst :: back) (left : Nat) :
    d.removeLoop goes (left + 1) front.length =
      (if goes syst then d.removeSystem front.length else d).removeLoop goes left (front.length + 1) := by
  have there : d.systab[front.length]? = some syst := by
    rw [table, List.getElem?_append_right (Nat.le_refl _), Nat.sub_self]
    rfl
  rw [removeLoop, there]

/-- The place that was removed is filled by the next system. -/
theorem removeSystem_systab {d : Daemon} {front back : List SysEntry} {syst : SysEntry}
    (table : d.systab = front ++ syst :: back) : (d.removeSystem front.length).systab = front ++ back := by
  change d.systab.eraseIdx front.length = _
  rw [table, List.eraseIdx_append_of_length_le (Nat.le_refl _), Nat.sub_self]
  rfl

/-- The loop that removes systems goes on from a place in the table.

Induct as the loop goes on: what stands before the place stays. -/
theorem removeLoop_systab (goes : SysEntry → Bool) (back : List SysEntry) :
    ∀ (front : List SysEntry) (left : Nat) (d : Daemon), d.systab = front ++ back → back.length ≤ left →
      (d.removeLoop goes left front.length).systab = front ++ pruned goes back := by
  induction back using pruned.induct goes with
  | case1 =>
    intro front left d table _
    rw [removeLoop_beyond goes left front.length d (by rw [table, List.append_nil])]
    exact table
  | case2 last leaves =>
    intro front left d table enough
    obtain ⟨left, rfl⟩ := Nat.exists_eq_add_of_le' (show 1 ≤ left from enough)
    have removed := removeSystem_systab table
    rw [List.append_nil] at removed
    rw [removeLoop_turn goes table, if_pos leaves,
      removeLoop_beyond goes left _ _ (by rw [removed]; exact Nat.le_succ _), removed, pruned, if_pos leaves,
      List.append_nil]
  | case3 last stays =>
    intro front left d table enough
    obtain ⟨left, rfl⟩ := Nat.exists_eq_add_of_le' (show 1 ≤ left from enough)
    rw [removeLoop_turn goes table, if_neg stays,
      removeLoop_beyond goes left _ _ (by rw [table, List.length_append, List.length_singleton]), table, pruned,
      if_neg stays]
  | case4 first second rest leaves inductionHypothesis =>
    intro front left d table enough
    rw [List.length_cons, List.length_cons] at enough
    obtain ⟨left, rfl⟩ := Nat.exists_eq_add_of_le' (Nat.le_trans (Nat.le_add_left 1 _) enough)
    have removed : (d.removeSystem front.length).systab = (front ++ [second]) ++ rest := by
      rw [removeSystem_systab table, List.append_assoc, List.singleton_append]
    have later := inductionHypothesis (front ++ [second]) left _ removed (by omega)
    rw [List.length_append, List.length_singleton] at later
    rw [removeLoop_turn goes table, if_pos leaves, later, pruned, if_pos leaves, List.append_assoc,
      List.singleton_append]
  | case5 first second rest stays inductionHypothesis =>
    intro front left d table enough
    obtain ⟨left, rfl⟩ := Nat.exists_eq_add_of_le' (Nat.le_trans (Nat.le_add_left 1 _) enough)
    have moved : d.systab = (front ++ [first]) ++ second :: rest := by
      rw [table, List.append_assoc, List.singleton_append]
    have later := inductionHypothesis (front ++ [first]) left d moved (Nat.le_of_succ_le_succ enough)
    rw [List.length_append, List.length_singleton] at later
    rw [removeLoop_turn goes table, if_neg stays, later, pruned, if_neg stays, List.append_assoc,
      List.singleton_append]

/-- The entry has no mail: no types and no flavours. -/
def noMail (entry : SysEntry) : Bool := entry.types = 0 && entry.flavors = 0

/-- The daemon after the scan, before the purge. -/
def scanned (d : Daemon) (world : EntryWorld) (found : List Scanned) : Daemon :=
  found.foldl (outHandleSysqueue world)
    { d with systab := d.systab.map fun entry => { entry with flavors := 0, types := 0 } }

/-- After the purge no entry is without mail, and those with mail are there as before. -/
def Purged (before after : List SysEntry) : Prop :=
  (∀ entry ∈ after, ¬ noMail entry = true) ∧
    after.filter (fun entry => !noMail entry) = before.filter fun entry => !noMail entry

/-- A scan that succeeds purges the table exactly if it has left no two neighbours without
mail. The entries with mail always stay as they are. -/
theorem rescan_purges (world : EntryWorld) (found : List Scanned) (d : Daemon) :
    Purged (d.scanned world found).systab (d.daemonRescanSysqueue world found false).systab ↔
      NoneBeside noMail (d.scanned world found).systab := by
  have table : (d.daemonRescanSysqueue world found false).systab = pruned noMail (d.scanned world found).systab :=
    removeLoop_systab noMail (d.scanned world found).systab [] _ (d.scanned world found) rfl (Nat.le_refl _)
  unfold Purged
  rw [table, and_iff_left (filter_pruned noMail _), pruned_clean_iff]

/-- Two systems whose mail is gone: the second one stays. -/
theorem rescan_misses :
    ¬ Purged (scanned
        { systab := [{ node := { addr := { zone := 2, net := 5020 } } }, { node := { addr := { zone := 1 } } }]
          maxClients := fun _ => 0
          files := fun _ => none } {} []).systab
      (daemonRescanSysqueue {} [] false
        { systab := [{ node := { addr := { zone := 2, net := 5020 } } }, { node := { addr := { zone := 1 } } }]
          maxClients := fun _ => 0
          files := fun _ => none }).systab := by
  unfold Purged
  decide

end Daemon

end Binkleyforce
