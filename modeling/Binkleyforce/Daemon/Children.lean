import Mathlib.Data.List.Nodup
import Binkleyforce.Daemon.Queues
import Binkleyforce.Library.Runs

/-!
# The children of the daemon

A call is a child of the daemon with an entry in the table of branches. The handler of
SIGCHLD takes the exits of children and marks their entries, at any moment between two
steps of the parent; the parent enters a child into the table after `fork` has returned.
-/

namespace Binkleyforce

open Library

/-- Where the parent is: `fork` has returned to it, the entry is in the table but not
counted yet, or an entry that waits is not counted any more but still in the table. -/
inductive ParentPhase where
  | idle
  | forked (addr : Faddr) (pid : Int) (tcpip : Bool)
  | added (tcpip : Bool)
  | reaping (pos : Nat) (tcpip : Bool)
  deriving DecidableEq, Repr

/-- The table with the counters, and the children: those that run, and those that have
exited and that nobody has waited for. -/
structure Children where
  phase : ParentPhase := .idle
  branches : List Branch := []
  tcpipClients : Int := 0
  modemClients : Int := 0
  running : List Int := []
  zombies : List (Int × Int) := []
  deriving DecidableEq, Repr

/-- What happens: the parent forks or goes on, a child exits, or `waitpid` gives the exit of
a child to the handler. -/
inductive ChildEvent where
  | fork (addr : Faddr) (pid : Int) (tcpip : Bool)
  | proceeds
  | exits (pid rc : Int)
  | handled (pid : Int)
  deriving DecidableEq, Repr

namespace Children

/-- The counter of the kind, changed by a number. -/
def count (c : Children) (tcpip : Bool) (change : Int) : Children :=
  if tcpip then { c with tcpipClients := c.tcpipClients + change }
  else { c with modemClients := c.modemClients + change }

/-- The counter of the kind. -/
def clients (c : Children) (tcpip : Bool) : Int :=
  if tcpip then c.tcpipClients else c.modemClients

/-- The process identifiers that are in use. -/
def alive (c : Children) : List Int := c.running ++ c.zombies.map Prod.fst

/-- The parent in `daemon_remove_waiting_branches`, and in `daemon_call` after `fork`. -/
def proceed (c : Children) : Children :=
  match c.phase with
  | .idle =>
    match daemonBranchGetFirstWaiting c.branches with
    | none => c
    | some pos =>
      match c.branches[pos]? with
      | none => c
      | some branch => { c.count branch.tcpip (-1) with phase := .reaping pos branch.tcpip }
  | .forked addr pid tcpip =>
    { c with phase := .added tcpip, branches := daemonBranchAdd c.branches addr pid tcpip }
  | .added tcpip => { c.count tcpip 1 with phase := .idle }
  | .reaping pos _ => { c with phase := .idle, branches := daemonBranchRemove c.branches pos }

/-- `daemon_sighandler_chld` with an exit. -/
def handle (c : Children) (pid rc : Int) : Children :=
  { c with
    zombies := c.zombies.filter fun zombie => zombie.1 ≠ pid
    branches := (daemonBranchExit pid rc c.branches).getD c.branches }

/-- A turn. A new child has an identifier that is not in use. -/
def turn (c : Children) : ChildEvent → Children
  | .fork addr pid tcpip =>
    if c.phase = .idle && !c.alive.contains pid then
      { c with phase := .forked addr pid tcpip, running := pid :: c.running }
    else c
  | .proceeds => c.proceed
  | .exits pid rc =>
    if c.running.contains pid then
      { c with running := c.running.filter (· ≠ pid), zombies := c.zombies ++ [(pid, rc)] }
    else c
  | .handled pid =>
    match c.zombies.find? (·.1 = pid) with
    | some zombie => c.handle pid zombie.2
    | none => c

/-- The turn as one of a machine that does not halt. -/
def step (c : Children) (event : ChildEvent) : Turn Children Empty := .more (c.turn event)

/-- The entry at hand that is in the table but not counted. -/
def midway (c : Children) (tcpip : Bool) : Int :=
  match c.phase with
  | .added kind => if kind = tcpip then 1 else 0
  | .reaping _ kind => if kind = tcpip then 1 else 0
  | _ => 0

/-- The children that are waited for: with an entry that does not wait, or about to get it. -/
def expected (c : Children) : List Int :=
  (match c.phase with
    | .forked _ pid _ => [pid]
    | _ => []) ++ (c.branches.filter (!·.wait)).map Branch.pid

/-- Every child that is waited for is there, each its own, and the counters are the numbers
of entries, apart from the one at hand. -/
structure Accounted (c : Children) : Prop where
  distinct : c.expected.Nodup
  there : ∀ pid ∈ c.expected, pid ∈ c.alive
  counted : ∀ tcpip, c.clients tcpip + c.midway tcpip =
    c.branches.countP fun branch => branch.tcpip == tcpip

/-- The handler does not get the exit of a child before it is in the table, and no new
child has the identifier of one that is still in the table. -/
def Timely (c : Children) : ChildEvent → Prop
  | .handled pid =>
    match c.phase with
    | .forked _ forked _ => pid ≠ forked
    | _ => True
  | .fork _ pid _ => pid ∉ c.branches.map Branch.pid
  | _ => True

instance (c : Children) (event : ChildEvent) : Decidable (c.Timely event) := by
  unfold Timely
  split <;> (try split) <;> infer_instance

/-- What timely events keep besides: all entries have identifiers of their own, and an entry
that is reaped has waited. -/
structure Orderly (c : Children) : Prop where
  accounted : Accounted c
  own : (c.branches.map Branch.pid).Nodup
  new : ∀ addr pid tcpip, c.phase = .forked addr pid tcpip → pid ∉ c.branches.map Branch.pid
  waited : ∀ pos tcpip, c.phase = .reaping pos tcpip →
    ∃ branch, c.branches[pos]? = some branch ∧ branch.wait = true ∧ branch.tcpip = tcpip

end Children

/-- An exit is found where an entry has the identifier. -/
theorem daemonBranchExit_eq_none (pid rc : Int) (branches : List Branch)
    (missed : daemonBranchExit pid rc branches = none) : pid ∉ branches.map Branch.pid := by
  induction branches with
  | nil => exact List.not_mem_nil
  | cons branch rest later =>
    unfold daemonBranchExit at missed
    split at missed
    · cases missed
    · rename_i differs
      rw [Option.map_eq_none_iff] at missed
      rw [List.map_cons, List.mem_cons, not_or]
      exact ⟨fun same => differs same.symm, later missed⟩

/-- Handling an exit changes neither the identifiers nor the kinds of the entries. The one
of the child waits from then on, and those that waited still do. -/
theorem daemonBranchExit_spec (pid rc : Int) :
    ∀ branches after : List Branch, daemonBranchExit pid rc branches = some after →
      (branches.map Branch.pid).Nodup →
      after.map Branch.pid = branches.map Branch.pid ∧
        after.map Branch.tcpip = branches.map Branch.tcpip ∧
        (after.filter (!·.wait)).map Branch.pid =
          ((branches.filter (!·.wait)).map Branch.pid).filter (· ≠ pid) ∧
        ∀ (pos : Nat) (branch : Branch), branches[pos]? = some branch → branch.wait = true →
          ∃ now : Branch, after[pos]? = some now ∧ now.wait = true ∧ now.tcpip = branch.tcpip := by
  intro branches
  induction branches with
  | nil => exact fun after found => nomatch found
  | cons branch rest later =>
    intro after found own
    rw [List.map_cons, List.nodup_cons] at own
    unfold daemonBranchExit at found
    split at found
    · rename_i same
      obtain rfl := Option.some.inj found
      subst same
      refine ⟨rfl, rfl, ?_, fun pos other there wait => ?_⟩
      · have others : ((rest.filter (!·.wait)).map Branch.pid).filter (· ≠ branch.pid) =
            (rest.filter (!·.wait)).map Branch.pid := by
          rw [List.filter_eq_self]
          intro other member
          rw [List.mem_map] at member
          obtain ⟨entry, there, rfl⟩ := member
          refine decide_eq_true fun same => own.1 ?_
          rw [← same]
          exact List.mem_map_of_mem (List.mem_of_mem_filter there)
        rw [List.filter_cons_of_neg (by simp)]
        by_cases waits : branch.wait = true
        · rw [List.filter_cons_of_neg (by simp [waits]), others]
        · rw [List.filter_cons_of_pos (by simp [waits]), List.map_cons,
            List.filter_cons_of_neg (by simp), others]
      · cases pos with
        | zero =>
          obtain rfl := Option.some.inj there
          exact ⟨_, rfl, rfl, rfl⟩
        | succ pos => exact ⟨other, there, wait, rfl⟩
    · rename_i differs
      rw [Option.map_eq_some_iff] at found
      obtain ⟨tail, marked, rfl⟩ := found
      obtain ⟨pids, kinds, unwaited, waits⟩ := later tail marked own.2
      refine ⟨by rw [List.map_cons, List.map_cons, pids], by rw [List.map_cons, List.map_cons, kinds],
        ?_, fun pos other there wait => ?_⟩
      · by_cases waiting : branch.wait = true
        · rw [List.filter_cons_of_neg (by simp [waiting]), List.filter_cons_of_neg (by simp [waiting]),
            unwaited]
        · rw [List.filter_cons_of_pos (by simp [waiting]), List.filter_cons_of_pos (by simp [waiting]),
            List.map_cons, List.map_cons, List.filter_cons_of_pos (by simp [differs]), unwaited]
      · cases pos with
        | zero => exact ⟨other, there, wait, rfl⟩
        | succ pos => exact waits pos other there wait

namespace Children

/-- What a change of a counter does to the two. -/
theorem clients_count (c : Children) (kind : Bool) (change : Int) (tcpip : Bool) :
    (c.count kind change).clients tcpip = c.clients tcpip + if kind = tcpip then change else 0 := by
  unfold count clients
  cases kind <;> cases tcpip <;> simp

/-- How many entries are of a kind. -/
theorem countP_kind (branches : List Branch) (tcpip : Bool) :
    (branches.countP fun branch => branch.tcpip == tcpip) = (branches.map Branch.tcpip).count tcpip := by
  rw [List.count, List.countP_map]
  rfl

/-- The handler gets an exit. -/
theorem handle_orderly (c : Children) (pid rc : Int) (orderly : Orderly c)
    (timely : ∀ addr forked tcpip, c.phase = .forked addr forked tcpip → pid ≠ forked) :
    Orderly (c.handle pid rc) := by
  have alive : ∀ other, other ≠ pid → other ∈ c.alive → other ∈ (c.handle pid rc).alive := by
    intro other differs there
    rcases List.mem_append.mp there with runs | exited
    · exact List.mem_append_left _ runs
    · refine List.mem_append_right _ ?_
      rw [List.mem_map] at exited ⊢
      obtain ⟨zombie, found, same⟩ := exited
      exact ⟨zombie, List.mem_filter.mpr ⟨found, decide_eq_true (same ▸ differs)⟩, same⟩
  cases found : daemonBranchExit pid rc c.branches with
  | none =>
    have absent := daemonBranchExit_eq_none pid rc c.branches found
    have same : (c.handle pid rc).branches = c.branches := by
      unfold handle
      rw [found]
      rfl
    have waited : (c.handle pid rc).expected = c.expected := by
      unfold expected
      rw [same]
      rfl
    have away : ∀ other ∈ c.expected, other ≠ pid := by
      rintro other expected rfl
      rcases List.mem_append.mp expected with new | old
      · cases phase : c.phase with
        | forked addr forked tcpip =>
          rw [phase, List.mem_singleton] at new
          exact timely addr forked tcpip phase new
        | idle | added | reaping =>
          rw [phase] at new
          cases new
      · rw [List.mem_map] at old
        obtain ⟨branch, member, same⟩ := old
        exact absent (same ▸ List.mem_map_of_mem (List.mem_of_mem_filter member))
    refine ⟨⟨waited ▸ orderly.accounted.distinct, fun other expected => ?_, fun tcpip => ?_⟩,
      same ▸ orderly.own, same ▸ orderly.new, same ▸ orderly.waited⟩
    · rw [waited] at expected
      exact alive other (away other expected) (orderly.accounted.there other expected)
    · rw [same]
      exact orderly.accounted.counted tcpip
  | some after =>
    obtain ⟨pids, kinds, unwaited, waits⟩ := daemonBranchExit_spec pid rc c.branches after found
      orderly.own
    have same : (c.handle pid rc).branches = after := by
      unfold handle
      rw [found]
      rfl
    have waited : (c.handle pid rc).expected = c.expected.filter (· ≠ pid) := by
      unfold expected
      rw [same, List.filter_append, unwaited]
      congr 1
      change (match c.phase with | .forked _ forked _ => [forked] | _ => []) = _
      cases phase : c.phase with
      | forked addr forked tcpip =>
        exact (List.filter_eq_self.mpr fun other new => decide_eq_true
          (List.mem_singleton.mp new ▸ (timely addr forked tcpip phase).symm)).symm
      | idle | added | reaping => rfl
    refine ⟨⟨?_, fun other expected => ?_, fun tcpip => ?_⟩, ?_, ?_, ?_⟩
    · rw [waited]
      exact orderly.accounted.distinct.filter _
    · rw [waited, List.mem_filter, decide_eq_true_eq] at expected
      exact alive other expected.2 (orderly.accounted.there other expected.1)
    · rw [same, countP_kind, kinds, ← countP_kind]
      exact orderly.accounted.counted tcpip
    · rw [same, pids]
      exact orderly.own
    · rw [same, pids]
      exact orderly.new
    · intro pos tcpip reaps
      obtain ⟨branch, there, wait, kind⟩ := orderly.waited pos tcpip reaps
      obtain ⟨now, still, also, as_⟩ := waits pos branch there wait
      exact ⟨now, same ▸ still, also, as_.trans kind⟩

/-- `fork` returns to the parent. -/
theorem fork_orderly (c : Children) (addr : Faddr) (pid : Int) (tcpip : Bool) (orderly : Orderly c)
    (idle : c.phase = .idle) (unused : pid ∉ c.alive) (new : pid ∉ c.branches.map Branch.pid) :
    Orderly { c with phase := .forked addr pid tcpip, running := pid :: c.running } := by
  have before : c.expected = (c.branches.filter (!·.wait)).map Branch.pid := by
    unfold expected
    rw [idle]
    rfl
  have distinct := before ▸ orderly.accounted.distinct
  have there := before ▸ orderly.accounted.there
  refine ⟨⟨?_, ?_, fun kind => ?_⟩, orderly.own, ?_, nofun⟩
  · refine List.nodup_cons.mpr ⟨fun member => unused (there pid member), distinct⟩
  · intro other expected
    rcases List.mem_cons.mp expected with rfl | old
    · exact List.mem_cons_self
    · exact List.mem_cons_of_mem _ (there other old)
  · have counted := orderly.accounted.counted kind
    unfold midway at counted
    rw [idle] at counted
    exact counted
  · intro _ _ _ same
    injection same with _ same _
    exact same ▸ new

/-- The entry of the child comes into the table. -/
theorem added_orderly (c : Children) (addr : Faddr) (pid : Int) (tcpip : Bool) (orderly : Orderly c)
    (forked : c.phase = .forked addr pid tcpip) :
    Orderly { c with phase := .added tcpip, branches := daemonBranchAdd c.branches addr pid tcpip } := by
  have before : c.expected = pid :: (c.branches.filter (!·.wait)).map Branch.pid := by
    unfold expected
    rw [forked]
    rfl
  have perm : (((daemonBranchAdd c.branches addr pid tcpip).filter (!·.wait)).map Branch.pid).Perm
      c.expected := by
    unfold daemonBranchAdd
    rw [before, List.filter_append, List.map_append]
    exact List.perm_append_singleton _ _
  refine ⟨⟨perm.nodup_iff.mpr orderly.accounted.distinct, fun other expected =>
    orderly.accounted.there other (perm.mem_iff.mp expected), fun kind => ?_⟩, ?_, nofun, nofun⟩
  · have counted := orderly.accounted.counted kind
    unfold midway at counted ⊢
    rw [forked] at counted
    change c.clients kind + 0 = _ at counted
    change c.clients kind + (if tcpip = kind then 1 else 0) = _
    unfold daemonBranchAdd
    rw [List.countP_append, List.countP_singleton, Int.natCast_add, ← counted]
    cases tcpip <;> cases kind <;> simp
  · unfold daemonBranchAdd
    rw [List.map_append, List.nodup_append]
    refine ⟨orderly.own, List.nodup_singleton _, fun old member other single same => ?_⟩
    rw [List.map_singleton, List.mem_singleton] at single
    rw [same, single] at member
    exact orderly.new addr pid tcpip forked member

/-- The parent counts the entry, or counts it no more. -/
theorem counted_orderly (c after : Children) (orderly : Orderly c) (branches : after.branches = c.branches)
    (alive : after.alive = c.alive) (quiet : ∀ addr pid tcpip, after.phase ≠ .forked addr pid tcpip)
    (was : ∀ addr pid tcpip, c.phase ≠ .forked addr pid tcpip)
    (counted : ∀ tcpip, after.clients tcpip + after.midway tcpip = c.clients tcpip + c.midway tcpip)
    (waited : ∀ pos tcpip, after.phase = .reaping pos tcpip →
      ∃ branch, c.branches[pos]? = some branch ∧ branch.wait = true ∧ branch.tcpip = tcpip) :
    Orderly after := by
  have expected_ : ∀ c : Children, (∀ addr pid tcpip, c.phase ≠ .forked addr pid tcpip) →
      c.expected = (c.branches.filter (!·.wait)).map Branch.pid := by
    intro c quiet
    unfold expected
    cases phase : c.phase with
    | forked addr pid tcpip => exact absurd phase (quiet addr pid tcpip)
    | idle | added | reaping => rfl
  have same : after.expected = c.expected := by
    rw [expected_ after quiet, expected_ c was, branches]
  refine ⟨⟨same ▸ orderly.accounted.distinct, ?_, fun tcpip => ?_⟩, branches ▸ orderly.own,
    fun addr pid tcpip phase => absurd phase (quiet addr pid tcpip), branches ▸ waited⟩
  · rw [same, alive]
    exact orderly.accounted.there
  · rw [counted, branches]
    exact orderly.accounted.counted tcpip

/-- An entry that waited leaves the table. -/
theorem removed_orderly (c : Children) (pos : Nat) (tcpip : Bool) (orderly : Orderly c)
    (reaps : c.phase = .reaping pos tcpip) :
    Orderly { c with phase := .idle, branches := daemonBranchRemove c.branches pos } := by
  obtain ⟨branch, there, wait, kind⟩ := orderly.waited pos tcpip reaps
  obtain ⟨inside, rfl⟩ := List.getElem?_eq_some_iff.mp there
  have split := List.eraseIdx_eq_take_drop_succ c.branches pos
  have whole : c.branches = c.branches.take pos ++ c.branches[pos] :: c.branches.drop (pos + 1) := by
    rw [List.getElem_cons_drop inside, List.take_append_drop]
  have before : c.expected = (c.branches.filter (!·.wait)).map Branch.pid := by
    unfold expected
    rw [reaps]
    rfl
  have same : ((daemonBranchRemove c.branches pos).filter (!·.wait)) = c.branches.filter (!·.wait) := by
    unfold daemonBranchRemove
    conv_rhs => rw [whole]
    rw [split, List.filter_append, List.filter_append, List.filter_cons_of_neg (by simp [wait])]
  have counted := orderly.accounted.counted
  refine ⟨⟨?_, ?_, fun other => ?_⟩, ?_, nofun, nofun⟩
  · change (((daemonBranchRemove c.branches pos).filter (!·.wait)).map Branch.pid).Nodup
    rw [same, ← before]
    exact orderly.accounted.distinct
  · change ∀ pid ∈ ((daemonBranchRemove c.branches pos).filter (!·.wait)).map Branch.pid, pid ∈ c.alive
    rw [same, ← before]
    exact orderly.accounted.there
  · have count := counted other
    unfold midway at count
    rw [reaps, whole, List.countP_append, List.countP_cons] at count
    change c.clients other + 0 = _
    unfold daemonBranchRemove
    rw [split, List.countP_append]
    dsimp only at count
    rw [kind] at count
    cases tcpip <;> cases other <;> simp at count ⊢ <;> omega
  · exact orderly.own.sublist ((List.eraseIdx_sublist _ _).map _)

/-- The parent goes on. -/
theorem proceed_orderly (c : Children) (orderly : Orderly c) : Orderly c.proceed := by
  unfold proceed
  cases phase : c.phase with
  | idle =>
    dsimp only
    split
    · exact orderly
    · rename_i pos first
      split
      · exact orderly
      · rename_i branch there
        have waits : branch.wait = true := by
          have found := List.findIdx?_eq_some_iff_getElem.mp first
          obtain ⟨inside, wait, -⟩ := found
          rw [List.getElem?_eq_getElem inside] at there
          obtain rfl := Option.some.inj there
          exact wait
        refine counted_orderly c _ orderly ?_ ?_ nofun (by rw [phase]; exact nofun) (fun tcpip => ?_)
          fun pos' tcpip same => ?_
        · unfold count
          split <;> rfl
        · unfold count
          split <;> rfl
        · have counted := c.clients_count branch.tcpip (-1) tcpip
          change (c.count branch.tcpip (-1)).clients tcpip + _ = _
          rw [counted]
          unfold midway
          rw [phase]
          dsimp only
          split <;> omega
        · injection same with place kind
          exact ⟨branch, place ▸ there, waits, kind⟩
  | forked addr pid tcpip => exact c.added_orderly addr pid tcpip orderly phase
  | added tcpip =>
    dsimp only
    refine counted_orderly c _ orderly ?_ ?_ nofun (by rw [phase]; exact nofun) (fun kind => ?_) nofun
    · unfold count
      split <;> rfl
    · unfold count
      split <;> rfl
    · have counted := c.clients_count tcpip 1 kind
      change (c.count tcpip 1).clients kind + 0 = _
      rw [counted]
      unfold midway
      rw [phase]
      dsimp only
      omega
  | reaping pos tcpip => exact c.removed_orderly pos tcpip orderly phase

/-- A child exits. -/
theorem exits_orderly (c : Children) (pid rc : Int) (orderly : Orderly c) :
    Orderly { c with running := c.running.filter (· ≠ pid), zombies := c.zombies ++ [(pid, rc)] } := by
  refine ⟨⟨orderly.accounted.distinct, fun other expected => ?_, orderly.accounted.counted⟩,
    orderly.own, orderly.new, orderly.waited⟩
  have there := orderly.accounted.there other expected
  unfold alive at there ⊢
  rw [List.mem_append] at there ⊢
  by_cases same : other = pid
  · exact .inr (by simp [same])
  · rcases there with runs | exited
    · exact .inl (List.mem_filter.mpr ⟨runs, decide_eq_true same⟩)
    · exact .inr (by rw [List.map_append]; exact List.mem_append_left _ exited)

/-- What every timely turn keeps. -/
theorem turn_orderly (c : Children) (event : ChildEvent) (orderly : Orderly c)
    (timely : c.Timely event) : Orderly (c.turn event) := by
  unfold turn
  cases event with
  | fork addr pid tcpip =>
    dsimp only
    split
    · rename_i allowed
      rw [Bool.and_eq_true, decide_eq_true_eq, Bool.not_eq_true', List.contains_eq_mem,
        decide_eq_false_iff_not] at allowed
      exact c.fork_orderly addr pid tcpip orderly allowed.1 allowed.2 timely
    · exact orderly
  | proceeds => exact c.proceed_orderly orderly
  | exits pid rc =>
    dsimp only
    split
    · exact c.exits_orderly pid rc orderly
    · exact orderly
  | handled pid =>
    dsimp only
    split
    · refine c.handle_orderly pid _ orderly fun addr forked tcpip phase => ?_
      unfold Timely at timely
      rw [phase] at timely
      exact timely
    · exact orderly

/-- A call that is registered in time, and reaped. -/
def wholeCall : List ChildEvent :=
  [.fork {} 7 true, .proceeds, .proceeds, .exits 7 0, .handled 7, .proceeds, .proceeds]

/-- A child exits, and the handler gets its exit, before the parent has entered it. -/
def earlyExit : List ChildEvent :=
  [.fork {} 7 true, .exits 7 0, .handled 7, .proceeds, .proceeds]

end Children

end Binkleyforce
