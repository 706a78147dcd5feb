import Mathlib.Data.List.Find
import Binkleyforce.Daemon.Lines
import Binkleyforce.Daemon.Queues

/-!
# The next system of a queue

The search begins behind the current system and goes on at the first one. A system with
immediate or crash mail is taken as soon as it may be called; the first one with direct or
normal mail is remembered and taken where there is none of the others. What a search writes to
the systems it looks at does not change what it finds of those that follow.
-/

namespace Binkleyforce

/-! ## The answer about a system -/

/-- The answer of `daemon_node_cancall` about a system that has mail, as far as the system
decides it. -/
def mayCall (look : Look) (called : Bool) (syst : SysEntry) (tcpip : Bool) : Bool :=
  !(syst.busy || syst.stat.undialable || called || (look.mailonly && !hasType syst.types typeNetmail)) &&
    decide (syst.stat.holdUntil = 0 ∨ syst.stat.holdUntil < look.holdTime) && (chooseLine look syst tcpip).1

/-- The status does not count for the choice of a line. -/
theorem chooseLine_stat (look : Look) (syst : SysEntry) (stat : SessStat) (tcpip : Bool) :
    (chooseLine look { syst with stat := stat } tcpip).1 = (chooseLine look syst tcpip).1 := by
  unfold chooseLine
  dsimp only
  split
  · rfl
  · have same : findLine look { syst with stat := stat } tcpip = findLine look syst tcpip := rfl
    rw [same]
    cases findLine look syst tcpip <;> rfl

/-- A hold of calls that is over is lifted, and one that is not keeps the system from being
called. -/
theorem passHold_stat (look : Look) (files : StsFiles) (syst : SysEntry) :
    (passHold look files syst = none ∧
        decide (syst.stat.holdUntil = 0 ∨ syst.stat.holdUntil < look.holdTime) = false) ∨
      (decide (syst.stat.holdUntil = 0 ∨ syst.stat.holdUntil < look.holdTime) = true ∧
        ∃ stat changed, passHold look files syst = some ({ syst with stat := stat }, changed)) := by
  unfold passHold
  by_cases held : 0 < syst.stat.holdUntil
  · have other : syst.stat.holdUntil ≠ 0 := (UInt64.pos_iff_ne_zero.mp held)
    rw [if_pos held]
    by_cases beyond : syst.stat.holdUntil < look.holdTime
    · rw [if_pos beyond]
      exact .inr ⟨decide_eq_true (.inr beyond), _, _, rfl⟩
    · rw [if_neg beyond]
      exact .inl ⟨rfl, decide_eq_false (not_or.mpr ⟨other, beyond⟩)⟩
  · have none : syst.stat.holdUntil = 0 := by
      by_contra other
      exact held (UInt64.pos_iff_ne_zero.mpr other)
    rw [if_neg held]
    exact .inr ⟨decide_eq_true (.inl none), syst.stat, files, rfl⟩

/-- A hold of file requests keeps no system from being called that has mail. -/
theorem passFreqHold_stat {syst : SysEntry} (mail : syst.flavors ≠ 0) (look : Look) (files : StsFiles) :
    ∃ stat changed, passFreqHold look files syst = (true, { syst with stat := stat }, changed) := by
  unfold passFreqHold
  split
  · split
    · exact ⟨_, _, rfl⟩
    · refine ⟨syst.stat, files, ?_⟩
      rw [beq_eq_false_iff_ne.mpr mail]
      rfl
  · exact ⟨syst.stat, files, rfl⟩

/-- The status files do not count for a system that has mail. -/
theorem daemonNodeCancall_mayCall {syst : SysEntry} (mail : syst.flavors ≠ 0) (look : Look) (called : Bool)
    (files : StsFiles) (ignWtime tcpip : Bool) :
    (daemonNodeCancall look called files syst ignWtime tcpip).1 = mayCall look called syst tcpip := by
  obtain ⟨refused, goes⟩ := daemonNodeCancall_eq look called files syst ignWtime tcpip
  unfold admitted at refused goes
  unfold mayCall
  cases marks : syst.busy || syst.stat.undialable || called || (look.mailonly && !hasType syst.types typeNetmail) with
  | true =>
    rw [marks, if_pos rfl] at refused
    exact refused rfl
  | false =>
    rw [marks, if_neg Bool.false_ne_true] at refused goes
    rcases passHold_stat look files syst with ⟨held, still⟩ | ⟨beyond, stat, changed, passed⟩
    · rw [held] at refused
      rw [still]
      exact refused rfl
    · obtain ⟨stat', changed', freqs⟩ := @passFreqHold_stat { syst with stat := stat } mail look changed
      rw [passed, Option.bind_some] at goes
      dsimp only at goes
      rw [freqs, if_pos rfl] at goes
      rw [goes _ _ rfl, beyond]
      exact chooseLine_stat look syst stat' tcpip

namespace Daemon

/-! ## The search -/

/-- The system at a place has immediate or crash mail. -/
def hasUrgent (d : Daemon) (pos : Nat) : Bool :=
  d.systab[pos]?.any fun syst => hasType syst.flavors flavorImmed || hasType syst.flavors flavorCrash

/-- The system at a place has direct or normal mail. -/
def hasOrdinary (d : Daemon) (pos : Nat) : Bool :=
  d.systab[pos]?.any fun syst => hasType syst.flavors flavorDirect || hasType syst.flavors flavorNormal

/-- `daemon_node_cancall` accepts the system at a place. -/
def accepts (looks : Nat → Look) (tcpip : Bool) (d : Daemon) (pos : Nat) : Bool :=
  d.systab[pos]?.any fun syst =>
    (d.cancall looks (hasType syst.flavors flavorImmed) tcpip pos syst).1

/-- The places behind the current one, and then those up to it. -/
def placesFrom (current count : Nat) : List Nat :=
  (List.range count).drop (current + 1) ++ (List.range count).take (current + 1)

/-- The daemon has changed at most what a search has passed. -/
def Ahead (d now : Daemon) (places : List Nat) : Prop :=
  now.branches = d.branches ∧ ∀ pos ∈ places, now.systab[pos]? = d.systab[pos]?

/-- A decision about a system changes no other one. -/
theorem Ahead.cancall {d now : Daemon} {pos : Nat} {rest : List Nat} (ahead : Ahead d now (pos :: rest))
    (once : (pos :: rest).Nodup) (looks : Nat → Look) (ignWtime tcpip : Bool) (syst : SysEntry) :
    Ahead d (now.cancall looks ignWtime tcpip pos syst).2 rest := by
  refine ⟨ahead.1, ?_⟩
  intro other member
  have apart : pos ≠ other := by
    rintro rfl
    exact (List.nodup_cons.mp once).1 member
  rw [← ahead.2 other (List.mem_cons_of_mem pos member)]
  exact List.getElem?_set_ne apart

/-- The answer about a system with mail is the one at the beginning of the search. -/
theorem Ahead.answer {d now : Daemon} {pos : Nat} {rest : List Nat} (ahead : Ahead d now (pos :: rest))
    {syst : SysEntry} (there : d.systab[pos]? = some syst) (mail : syst.flavors ≠ 0) (looks : Nat → Look)
    (ignWtime tcpip : Bool) :
    (now.cancall looks ignWtime tcpip pos syst).1 = d.accepts looks tcpip pos := by
  unfold accepts Daemon.cancall
  rw [there, Option.any_some]
  dsimp only
  rw [daemonNodeCancall_mayCall mail, daemonNodeCancall_mayCall mail, ahead.1]

/-- A flavour is there. -/
theorem flavors_ne_zero {syst : SysEntry} {flavor : Nat} (there : hasType syst.flavors flavor = true) :
    syst.flavors ≠ 0 := by
  intro none
  unfold hasType at there
  rw [none, Nat.zero_and] at there
  cases there

/-- The search finds the first system with urgent mail that is accepted, or the one of the
others it remembers, or the first of those.

Induct over the places that are left. -/
theorem getnextLoop_eq (looks : Nat → Look) (tcpip : Bool) (d : Daemon) (places : List Nat) :
    ∀ (normal : Option Nat) (now : Daemon), places.Nodup → Ahead d now places →
      (getnextLoop looks tcpip places normal now).1 =
        (places.find? fun pos => d.hasUrgent pos && d.accepts looks tcpip pos).or
          (normal.or (places.find? fun pos => !d.hasUrgent pos && d.hasOrdinary pos && d.accepts looks tcpip pos)) := by
  induction places with
  | nil =>
    intro normal now _ _
    cases normal <;> rfl
  | cons pos rest inductionHypothesis =>
    intro normal now once ahead
    have later : Ahead d now rest := ⟨ahead.1, fun other member => ahead.2 other (List.mem_cons_of_mem pos member)⟩
    have apart := (List.nodup_cons.mp once).2
    have skip (idle : d.hasUrgent pos = false) (unasked : normal.isSome = true ∨ d.hasOrdinary pos = false) :
        (getnextLoop looks tcpip rest normal now).1 =
          ((pos :: rest).find? fun pos => d.hasUrgent pos && d.accepts looks tcpip pos).or
            (normal.or ((pos :: rest).find? fun pos =>
              !d.hasUrgent pos && d.hasOrdinary pos && d.accepts looks tcpip pos)) := by
      rw [inductionHypothesis normal now apart later, List.find?_cons_of_neg (by simp [idle])]
      rcases unasked with chosen | none
      · obtain ⟨first, rfl⟩ := Option.isSome_iff_exists.mp chosen
        rfl
      · rw [List.find?_cons_of_neg (by simp [none])]
    rw [getnextLoop, ahead.2 pos List.mem_cons_self]
    cases there : d.systab[pos]? with
    | none =>
      have none : d.hasUrgent pos = false ∧ d.hasOrdinary pos = false := by
        unfold hasUrgent hasOrdinary
        rw [there]
        exact ⟨rfl, rfl⟩
      exact skip none.1 (.inr none.2)
    | some syst =>
      have urgent : d.hasUrgent pos = (hasType syst.flavors flavorImmed || hasType syst.flavors flavorCrash) := by
        unfold hasUrgent
        rw [there, Option.any_some]
      have ordinary : d.hasOrdinary pos = (hasType syst.flavors flavorDirect || hasType syst.flavors flavorNormal) := by
        unfold hasOrdinary
        rw [there, Option.any_some]
      dsimp only
      rw [← urgent, ← ordinary]
      cases isUrgent : d.hasUrgent pos with
      | true =>
        have mail : syst.flavors ≠ 0 := by
          rw [urgent, Bool.or_eq_true] at isUrgent
          exact isUrgent.elim flavors_ne_zero flavors_ne_zero
        have answer := ahead.answer there mail looks (hasType syst.flavors flavorImmed) tcpip
        have passed := ahead.cancall once looks (hasType syst.flavors flavorImmed) tcpip syst
        rw [if_pos rfl, answer]
        cases accepted : d.accepts looks tcpip pos with
        | true =>
          rw [List.find?_cons_of_pos (by simp [isUrgent, accepted])]
          rfl
        | false =>
          rw [if_neg Bool.false_ne_true, inductionHypothesis normal _ apart passed,
            List.find?_cons_of_neg (by simp [accepted]), List.find?_cons_of_neg (by simp [accepted])]
      | false =>
        rw [if_neg Bool.false_ne_true]
        cases isOrdinary : d.hasOrdinary pos with
        | false => exact skip isUrgent (.inr isOrdinary)
        | true =>
          cases normal with
          | some first => exact skip isUrgent (.inl rfl)
          | none =>
            have mail : syst.flavors ≠ 0 := by
              rw [ordinary, Bool.or_eq_true] at isOrdinary
              exact isOrdinary.elim flavors_ne_zero flavors_ne_zero
            have answer := ahead.answer there mail looks false tcpip
            have passed := ahead.cancall once looks false tcpip syst
            rw [if_pos (show (true && decide ((none : Option Nat) = none)) = true from rfl), answer,
              inductionHypothesis _ _ apart passed, List.find?_cons_of_neg (by simp [isUrgent])]
            cases accepted : d.accepts looks tcpip pos with
            | true =>
              rw [if_pos rfl, Option.none_or, List.find?_cons_of_pos (by simp [isUrgent, isOrdinary, accepted])]
              rfl
            | false =>
              rw [if_neg Bool.false_ne_true, Option.none_or, Option.none_or,
                List.find?_cons_of_neg (by simp [accepted])]

/-- The next system: the first one accepted with immediate or crash mail, and otherwise the
first one accepted with direct or normal mail. -/
def nextOf (looks : Nat → Look) (tcpip : Bool) (current : Option Nat) (d : Daemon) : Option Nat :=
  let places := placesFrom (current.getD 0) d.systab.length
  (places.find? fun pos => d.hasUrgent pos && d.accepts looks tcpip pos).or
    (places.find? fun pos => d.hasOrdinary pos && d.accepts looks tcpip pos)

/-- The places are those of the table, each once. -/
theorem placesFrom_perm (current count : Nat) : (placesFrom current count).Perm (List.range count) := by
  unfold placesFrom
  refine List.perm_append_comm.trans ?_
  rw [List.take_append_drop]

/-- A system with mail has a place among them. -/
theorem mem_placesFrom {d : Daemon} (current : Nat) {pos : Nat}
    (mail : d.hasUrgent pos = true ∨ d.hasOrdinary pos = true) : pos ∈ placesFrom current d.systab.length := by
  rw [(placesFrom_perm current _).mem_iff, List.mem_range]
  by_contra outside
  have nothing : d.systab[pos]? = none := List.getElem?_eq_none (Nat.le_of_not_lt outside)
  unfold hasUrgent hasOrdinary at mail
  rw [nothing] at mail
  rcases mail with urgent | ordinary
  · cases urgent
  · cases ordinary

/-- `daemon_getnext` finds the next system. -/
theorem daemonGetnext_eq (looks : Nat → Look) (tcpip : Bool) (current : Option Nat) (d : Daemon) :
    (d.daemonGetnext looks tcpip current).1 = d.nextOf looks tcpip current := by
  have once := ((placesFrom_perm (current.getD 0) d.systab.length).nodup_iff).mpr List.nodup_range
  have search := getnextLoop_eq looks tcpip d (placesFrom (current.getD 0) d.systab.length) none d once
    ⟨rfl, fun _ _ => rfl⟩
  unfold nextOf
  rw [Option.none_or] at search
  refine search.trans ?_
  dsimp only
  cases urgent : (placesFrom (current.getD 0) d.systab.length).find? fun pos =>
      d.hasUrgent pos && d.accepts looks tcpip pos with
  | some first => rfl
  | none =>
    rw [Option.none_or, Option.none_or]
    refine List.find?_congr fun pos member => ?_
    have idle := List.find?_eq_none.mp urgent pos member
    cases isUrgent : d.hasUrgent pos with
    | false => rfl
    | true =>
      rw [isUrgent, Bool.true_and, Bool.not_eq_true] at idle
      rw [idle, Bool.and_false, Bool.and_false]

/-! ## Turns of the selection -/

/-- How many places are looked at before one. -/
def distance (current count pos : Nat) : Nat :=
  if current < pos then pos - (current + 1) else pos + (count - (current + 1))

/-- The places are looked at in the order of their distance. -/
theorem placesFrom_sorted (current count : Nat) :
    (placesFrom current count).Pairwise fun first second =>
      distance current count first < distance current count second := by
  have above : ∀ pos ∈ (List.range count).drop (current + 1), current < pos ∧ pos < count := by
    intro pos member
    rw [List.range_eq_range', List.drop_range', List.mem_range'] at member
    omega
  have below : ∀ pos ∈ (List.range count).take (current + 1), pos ≤ current ∧ pos < count := by
    intro pos member
    rw [List.take_range, List.mem_range] at member
    omega
  have sorted := List.pairwise_lt_range (n := count)
  unfold placesFrom
  rw [List.pairwise_append]
  refine ⟨?_, ?_, ?_⟩
  · refine (sorted.sublist (List.drop_sublist _ _)).imp_of_mem ?_
    intro first second isFirst isSecond before
    have one := above first isFirst
    have two := above second isSecond
    unfold distance
    rw [if_pos one.1, if_pos two.1]
    omega
  · refine (sorted.sublist (List.take_sublist _ _)).imp_of_mem ?_
    intro first second isFirst isSecond before
    have one := below first isFirst
    have two := below second isSecond
    unfold distance
    rw [if_neg (by omega), if_neg (by omega)]
    omega
  · intro first isFirst second isSecond
    have one := above first isFirst
    have two := below second isSecond
    unfold distance
    rw [if_pos one.1, if_neg (by omega)]
    omega

/-- A place that is wanted is found, or a nearer one is. -/
theorem find_nearest (current : Nat) {count pos : Nat} (wanted : Nat → Bool) (inside : pos < count)
    (is : wanted pos = true) :
    ∃ first, (placesFrom current count).find? wanted = some first ∧ first < count ∧
      (first = pos ∨ distance current count first < distance current count pos) := by
  have member : pos ∈ placesFrom current count :=
    (placesFrom_perm current count).mem_iff.mpr (List.mem_range.mpr inside)
  obtain ⟨first, found⟩ := Option.isSome_iff_exists.mp (List.find?_isSome.mpr ⟨pos, member, is⟩)
  have there : first < count :=
    List.mem_range.mp ((placesFrom_perm current count).mem_iff.mp (List.mem_of_find?_eq_some found))
  refine ⟨first, found, there, ?_⟩
  obtain ⟨-, front, back, places, before⟩ := List.find?_eq_some_iff_append.mp found
  have sorted := placesFrom_sorted current count
  rw [places] at member sorted
  rcases List.mem_append.mp member with early | late
  · have never := before pos early
    rw [is] at never
    cases never
  · rcases List.mem_cons.mp late with same | behind
    · exact .inl same.symm
    · exact .inr (List.rel_of_pairwise_cons (List.pairwise_append.mp sorted).2.1 behind)

/-- From a nearer place that was chosen there are fewer before another one. -/
theorem distance_less {current count first pos : Nat} (inside : pos < count) (there : first < count)
    (nearer : distance current count first < distance current count pos) :
    distance first count pos < distance current count pos := by
  unfold distance at *
  split at nearer <;> split at nearer <;> split <;> omega

/-- Selections one after the other from a table of this size. What the systems are may change
between them. -/
structure Selecting (tcpip : Bool) (count : Nat) (states : Nat → Daemon) (looks : Nat → Nat → Look)
    (currents : Nat → Option Nat) : Prop where
  size : ∀ turn, (states turn).systab.length = count
  next : ∀ turn, currents (turn + 1) = ((states turn).daemonGetnext (looks turn) tcpip (currents turn)).1

/-- A system with immediate or crash mail that is accepted at every turn has its turn before
as many selections as there are systems.

Each turn that chooses another system leaves fewer before it. -/
theorem Selecting.turn {tcpip : Bool} {count : Nat} {states : Nat → Daemon} {looks : Nat → Nat → Look}
    {currents : Nat → Option Nat} (selecting : Selecting tcpip count states looks currents) {pos : Nat}
    (inside : pos < count)
    (ready : ∀ turn, (states turn).hasUrgent pos = true ∧ (states turn).accepts (looks turn) tcpip pos = true) :
    ∃ turn < count, currents (turn + 1) = some pos := by
  by_contra starved
  push Not at starved
  have nears (turn : Nat) (early : turn ≤ count) :
      distance ((currents turn).getD 0) count pos + turn < count := by
    induction turn with
    | zero =>
      unfold distance
      split <;> omega
    | succ turn inductionHypothesis =>
      have before := inductionHypothesis (Nat.le_of_succ_le early)
      have wanted : ((states turn).hasUrgent pos && (states turn).accepts (looks turn) tcpip pos) = true := by
        rw [(ready turn).1, (ready turn).2]
        rfl
      obtain ⟨first, found, there, near⟩ := find_nearest ((currents turn).getD 0)
        (fun pos => (states turn).hasUrgent pos && (states turn).accepts (looks turn) tcpip pos) inside wanted
      have chosen : currents (turn + 1) = some first := by
        rw [selecting.next turn, daemonGetnext_eq]
        unfold nextOf
        rw [selecting.size turn]
        dsimp only
        rw [found]
        rfl
      have apart : first ≠ pos := by
        rintro rfl
        exact starved turn early chosen
      have less := distance_less inside there (near.resolve_left apart)
      rw [chosen]
      change distance first count pos + (turn + 1) < count
      omega
  have beyond := nears count (Nat.le_refl count)
  omega

/-- No system is next exactly if none with mail is accepted; otherwise it is the first one
accepted with immediate or crash mail, or else the first with direct or normal mail. Repeated
selection starves no system with immediate or crash mail. -/
theorem next_system (looks : Nat → Look) (tcpip : Bool) (current : Option Nat) (d : Daemon) :
    ((d.daemonGetnext looks tcpip current).1 = none ↔
        ∀ pos, d.hasUrgent pos = true ∨ d.hasOrdinary pos = true → ¬ d.accepts looks tcpip pos = true) ∧
      (d.daemonGetnext looks tcpip current).1 = d.nextOf looks tcpip current ∧
      ∀ count states views currents, Selecting tcpip count states views currents → ∀ pos < count,
        (∀ turn, (states turn).hasUrgent pos = true ∧ (states turn).accepts (views turn) tcpip pos = true) →
          ∃ turn < count, currents (turn + 1) = some pos := by
  refine ⟨?_, daemonGetnext_eq looks tcpip current d, fun _ _ _ _ selecting _ => selecting.turn⟩
  rw [daemonGetnext_eq]
  unfold nextOf
  dsimp only
  rw [Option.or_eq_none_iff, List.find?_eq_none, List.find?_eq_none]
  constructor
  · rintro ⟨noUrgent, noOrdinary⟩ pos mail accepted
    have member := mem_placesFrom (current.getD 0) mail
    rcases mail with urgent | ordinary
    · exact noUrgent pos member (by rw [urgent, accepted]; rfl)
    · exact noOrdinary pos member (by rw [ordinary, accepted]; rfl)
  · intro none
    refine ⟨fun pos _ both => ?_, fun pos _ both => ?_⟩
    · rw [Bool.and_eq_true] at both
      exact none pos (.inl both.1) both.2
    · rw [Bool.and_eq_true] at both
      exact none pos (.inr both.1) both.2

/-- A system of the modem that answers all day and has crash mail. -/
def crashMail (node : Int) : SysEntry :=
  { node :=
      { addr := { zone := 2, net := 5020, node := node }
        phone := ascii "7-095-5551234"
        worktime := [⟨0, 6, 0, 1440⟩] }
    flavors := flavorCrash
    types := typeNetmail }

/-- Two of them. -/
def twoSystems : Daemon :=
  { systab := [crashMail 1, crashMail 2], maxClients := fun _ => 0, files := fun _ => none }

/-- They take turns, so that each is selected within two turns. -/
theorem next_system_turns :
    ∃ turn < 2, (fun turn => if turn % 2 = 0 then some 0 else some 1) (turn + 1) = some 0 := by
  refine (next_system (fun _ => {}) false none twoSystems).2.2 2 (fun _ => twoSystems) (fun _ _ => {})
    (fun turn => if turn % 2 = 0 then some 0 else some 1) ⟨fun _ => rfl, ?_⟩ 0 (by decide) ?_
  · intro turn
    rcases Nat.mod_two_eq_zero_or_one turn with even | odd
    · rw [if_neg (by omega), if_pos even]
      decide
    · rw [if_pos (by omega), if_neg (by omega)]
      decide
  · intro turn
    decide

end Daemon

end Binkleyforce
