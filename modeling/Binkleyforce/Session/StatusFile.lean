import Binkleyforce.Library.Peers
import Binkleyforce.Session.Status

/-!
# Two updates of a status file

Each of two processes runs `session_stat_update_stsfile` on one file, a system call in each
turn. `file_open` asks for a shared lock where its mode begins with an `r`, so it does for
"r+", and `file_close` gives the lock up before the buffered text is written.
-/

namespace Binkleyforce

open Library

/-- How far an update is. `exist` is what `access` answered; the lock was refused `tries`
times. The text is in the buffer of the stream until `fclose`. -/
inductive StsPhase where
  | begins
  | looked (exist : Bool)
  | opened (exist : Bool) (tries : Nat)
  | locked (exist : Bool)
  | loaded (tmpstat : SessStat)
  | truncated (tmpstat : SessStat)
  | unlocked (text : Bytes)
  | closed
  | failed
  deriving DecidableEq, Repr

/-- A process with the lock it holds on the file, exclusive or shared. -/
structure StsProc where
  phase : StsPhase := .begins
  lock : Option Bool := none
  deriving DecidableEq, Repr

/-- The status file, where it is there, and the processes. -/
structure StsWorld where
  file : Option Bytes
  procs : Peers StsProc
  deriving DecidableEq

/-- The mode an update opens the file with. -/
def stsMode (exist : Bool) : Bytes := ascii (if exist then "r+" else "w")

/-- `is_write` of `file_open`. -/
def isWrite (mode : Bytes) : Bool := mode.head? ≠ some 114

/-- The process has a lock that does not go with one of this kind. -/
def StsProc.refuses (proc : StsProc) (exclusive : Bool) : Bool :=
  proc.lock.any fun held => exclusive || held

/-- How many tries `file_open` gives the lock. -/
def lockTries : Nat := 51

namespace StsWorld

/-- Change the process on a side. -/
def put (w : StsWorld) (side : Side) (proc : StsProc) : StsWorld :=
  { w with procs := w.procs.put proc side }

/-- Before the updates. -/
def start (file : Option Bytes) : StsWorld := ⟨file, ⟨{}, {}⟩⟩

/-- `fopen`. -/
def fopen (w : StsWorld) (side : Side) (exist : Bool) : StsWorld :=
  if exist then w.put side { phase := if w.file.isSome then .opened true 0 else .failed }
  else { w with file := some [] }.put side { phase := .opened false 0 }

/-- A call of `file_lock`, where locks are supported or not. -/
def fileLock (w : StsWorld) (side : Side) (supported exist : Bool) (tries : Nat) : StsWorld :=
  let exclusive := isWrite (stsMode exist)
  if !supported && tries = 0 then w.put side { phase := .locked exist }
  else if supported && !(w.procs.on side.other).refuses exclusive then
    w.put side { phase := .locked exist, lock := some exclusive }
  else if tries + 1 = lockTries then w.put side { phase := .failed }
  else w.put side { phase := .opened exist (tries + 1) }

/-- The text is printed into the buffer of the stream, and the lock is given up. -/
def fileUnlock (w : StsWorld) (side : Side) (tmpstat stat : SessStat) : StsWorld :=
  w.put side { phase := .unlocked (sessionStatText (tmpstat.update stat)) }

/-- `fclose` writes the buffer to the beginning of the file. -/
def fclose (w : StsWorld) (side : Side) (text : Bytes) : StsWorld :=
  { w with file := some (text ++ (w.file.getD []).drop text.length) }.put side { phase := .closed }

/-- A turn of `session_stat_update_stsfile` with the changes of each side. -/
def turn (stats : Side → SessStat) (w : StsWorld) (input : Side × Bool) : StsWorld :=
  let side := input.1
  let proc := w.procs.on side
  match proc.phase with
  | .begins => w.put side { phase := .looked w.file.isSome }
  | .looked exist => w.fopen side exist
  | .opened exist tries => w.fileLock side input.2 exist tries
  | .locked true =>
    w.put side { proc with phase := .loaded (sessionStatReadStsfile (w.file.getD [])) }
  | .locked false => w.fileUnlock side {} (stats side)
  | .loaded tmpstat => { w with file := some [] }.put side { proc with phase := .truncated tmpstat }
  | .truncated tmpstat => w.fileUnlock side tmpstat (stats side)
  | .unlocked text => w.fclose side text
  | .closed => w
  | .failed => w

/-- The turn as one of a machine that does not halt. -/
def step (stats : Side → SessStat) (w : StsWorld) (input : Side × Bool) : Turn StsWorld Empty :=
  .more (w.turn stats input)

/-- The update ended, with the file written or not. -/
def Ended (w : StsWorld) : Prop :=
  ∀ side, (w.procs.on side).phase = .closed ∨ (w.procs.on side).phase = .failed

/-- The file is as after both updates, one after the other. -/
def Serialized (stats : Side → SessStat) (file : Option Bytes) (w : StsWorld) : Prop :=
  ∃ first : Side, w.file =
    some (updatedStsfile (stats first.other) (some (updatedStsfile (stats first) file)))

end StsWorld

/-- From here on an update goes by what it saw of the file: it has read it, or it found
that it is not there. -/
def StsPhase.within : StsPhase → Bool
  | .looked false => true
  | .opened false _ => true
  | .locked false => true
  | .loaded _ => true
  | .truncated _ => true
  | .unlocked _ => true
  | _ => false

namespace StsWorld

/-- The next turn sees what is in the file, or that it is not there. -/
def Sees (w : StsWorld) (side : Side) : Prop :=
  match (w.procs.on side).phase with
  | .begins => w.file = none
  | .locked true => True
  | _ => False

/-- The next turn gives up: the lock is refused for the last time. -/
def GivesUp (w : StsWorld) (side : Side) (supported : Bool) : Prop :=
  match (w.procs.on side).phase with
  | .opened exist tries => tries + 1 = lockTries ∧
    (supported = false ∨ (w.procs.on side.other).refuses (isWrite (stsMode exist)) = true)
  | _ => False

/-- An update does not see the file while the other one goes by what it saw, and does not
give up. -/
def Apart (w : StsWorld) (input : Side × Bool) : Prop :=
  (w.Sees input.1 → (w.procs.on input.1.other).phase.within = false) ∧
    ¬ w.GivesUp input.1 input.2

instance (w : StsWorld) (side : Side) : Decidable (w.Sees side) := by
  unfold Sees
  split <;> infer_instance

instance (w : StsWorld) (side : Side) (supported : Bool) : Decidable (w.GivesUp side supported) := by
  unfold GivesUp
  split <;> infer_instance

instance (w : StsWorld) (input : Side × Bool) : Decidable (w.Apart input) := by
  unfold Apart
  infer_instance

/-! ## What updates that are apart keep -/

/-- What an update within goes by: it has seen the file with this content, and its turns
may have emptied it since. -/
def Goes (stat : SessStat) (base file : Option Bytes) : StsPhase → Prop
  | .looked false => base = none ∧ file = none
  | .opened false _ => base = none ∧ file = some []
  | .locked false => base = none ∧ file = some []
  | .loaded tmpstat => file = base ∧ tmpstat = statOf base
  | .truncated tmpstat => file = some [] ∧ tmpstat = statOf base
  | .unlocked text => file = some [] ∧ text = updatedStsfile stat base
  | _ => True

/-- The content after the updates that are done: none, one, or both in some order. -/
structure Settled (stats : Side → SessStat) (file base : Option Bytes) (w : StsWorld) : Prop where
  none_yet : (∀ side, (w.procs.on side).phase ≠ .closed) → base = file
  one : ∀ side, (w.procs.on side).phase = .closed → (w.procs.on side.other).phase ≠ .closed →
    base = some (updatedStsfile (stats side) file)
  both : (∀ side, (w.procs.on side).phase = .closed) → ∃ first : Side, base =
    some (updatedStsfile (stats first.other) (some (updatedStsfile (stats first) file)))

/-- What the two updates keep. The file is as the updates left it that are done, unless one
is within; two are not. -/
structure Serial (stats : Side → SessStat) (file base : Option Bytes) (w : StsWorld) : Prop where
  settled : Settled stats file base w
  quiet : (∀ side, (w.procs.on side).phase.within = false) → w.file = base
  goes : ∀ side, (w.procs.on side).phase.within = true →
    (w.procs.on side.other).phase.within = false ∧
      Goes (stats side) base w.file (w.procs.on side).phase
  exists_ : ∀ side, (w.procs.on side).phase = .looked true → w.file ≠ none
  succeeds : ∀ side, (w.procs.on side).phase ≠ .failed

/-- What is read of no file is nothing. -/
theorem read_nothing : sessionStatReadStsfile [] = {} := by decide

/-- What is read of a file is what an update starts from. -/
theorem read_base (file : Option Bytes) : sessionStatReadStsfile (file.getD []) = statOf file := by
  cases file with
  | none => exact read_nothing
  | some text => rfl

section Turns

variable {stats : Side → SessStat} {file base : Option Bytes}

/-- One side or the other. -/
theorem side_cases (mine side : Side) : side = mine ∨ side = mine.other := by
  cases mine <;> cases side <;> simp [Side.other]

/-- A turn that does not close the file leaves the updates that are done as they are. -/
theorem Settled.moved {w after : StsWorld} (settled : Settled stats file base w) (mine : Side)
    (other : after.procs.on mine.other = w.procs.on mine.other)
    (before : (w.procs.on mine).phase ≠ .closed) (still : (after.procs.on mine).phase ≠ .closed) :
    Settled stats file base after := by
  refine ⟨fun open_ => settled.none_yet fun side => ?_, fun side done open_ => ?_, fun done =>
    absurd (done mine) still⟩
  · rcases side_cases mine side with rfl | rfl
    · exact before
    · exact other ▸ open_ mine.other
  · rcases side_cases mine side with rfl | rfl
    · exact absurd done still
    · rw [Side.other_other] at open_
      refine settled.one mine.other (other ▸ done) ?_
      rw [Side.other_other]
      exact before

/-- A turn of an update that is not within, and does not begin to be. -/
theorem Serial.outside {w : StsWorld} (serial : Serial stats file base w) (mine : Side)
    (proc : StsProc) (before : (w.procs.on mine).phase.within = false)
    (open_ : (w.procs.on mine).phase ≠ .closed) (still : proc.phase.within = false)
    (goes : proc.phase ≠ .closed) (fine : proc.phase ≠ .failed)
    (there : proc.phase = .looked true → w.file ≠ none) :
    Serial stats file base (w.put mine proc) := by
  have here : (w.put mine proc).procs.on mine = proc := Peers.on_put _ _ _
  have away : (w.put mine proc).procs.on mine.other = w.procs.on mine.other :=
    Peers.on_put_other _ _ _
  refine ⟨serial.settled.moved mine away open_ (here.symm ▸ goes), fun calm => ?_, fun side within =>
    ?_, fun side looked => ?_, fun side => ?_⟩
  · refine serial.quiet fun side => ?_
    rcases side_cases mine side with rfl | rfl
    · exact before
    · exact away ▸ calm mine.other
  · rcases side_cases mine side with rfl | rfl
    · rw [here, still] at within
      cases within
    · rw [away] at within ⊢
      rw [Side.other_other, here]
      exact ⟨still, (serial.goes mine.other within).2⟩
  · rcases side_cases mine side with rfl | rfl
    · exact there (here ▸ looked)
    · exact serial.exists_ mine.other (away ▸ looked)
  · rcases side_cases mine side with rfl | rfl
    · exact here.symm ▸ fine
    · exact away.symm ▸ serial.succeeds mine.other

/-- A turn after which an update is within, alone. -/
theorem Serial.inside {w : StsWorld} (serial : Serial stats file base w) (mine : Side)
    (proc : StsProc) (content : Option Bytes)
    (alone : (w.procs.on mine.other).phase.within = false)
    (open_ : (w.procs.on mine).phase ≠ .closed) (within : proc.phase.within = true)
    (kept : content = w.file ∨ content ≠ none)
    (goes : Goes (stats mine) base content proc.phase) :
    Serial stats file base ({ w with file := content }.put mine proc) := by
  have here : ({ w with file := content }.put mine proc).procs.on mine = proc := Peers.on_put _ _ _
  have away : ({ w with file := content }.put mine proc).procs.on mine.other =
      w.procs.on mine.other := Peers.on_put_other _ _ _
  have going : proc.phase ≠ .closed ∧ proc.phase ≠ .failed ∧ proc.phase ≠ .looked true := by
    refine ⟨?_, ?_, ?_⟩
    · intro ended
      rw [ended] at within
      cases within
    · intro ended
      rw [ended] at within
      cases within
    · intro ended
      rw [ended] at within
      cases within
  refine ⟨serial.settled.moved mine away open_ (here.symm ▸ going.1), fun calm => ?_,
    fun side inside => ?_, fun side looked => ?_, fun side => ?_⟩
  · have still := calm mine
    rw [here, within] at still
    cases still
  · rcases side_cases mine side with rfl | rfl
    · rw [away, here]
      exact ⟨alone, goes⟩
    · rw [away, alone] at inside
      cases inside
  · rcases side_cases mine side with rfl | rfl
    · exact absurd (here ▸ looked) going.2.2
    · have before := serial.exists_ mine.other (away ▸ looked)
      rcases kept with same | there
      · exact same.symm ▸ before
      · exact there
  · rcases side_cases mine side with rfl | rfl
    · exact here.symm ▸ going.2.1
    · exact away.symm ▸ serial.succeeds mine.other

/-- The update is done. -/
theorem Serial.closes {w : StsWorld} (serial : Serial stats file base w) (mine : Side)
    (text : Bytes) (unlocked : (w.procs.on mine).phase = .unlocked text) :
    ∃ base, Serial stats file base (w.fclose mine text) := by
  have within : (w.procs.on mine).phase.within = true := by
    rw [unlocked]
    rfl
  obtain ⟨alone, goes⟩ := serial.goes mine within
  rw [unlocked] at goes
  obtain ⟨empty, rfl⟩ := goes
  have content : (w.fclose mine (updatedStsfile (stats mine) base)).file =
      some (updatedStsfile (stats mine) base) := by
    unfold fclose put
    dsimp only
    rw [empty, Option.getD_some, List.drop_nil, List.append_nil]
  have here : (w.fclose mine (updatedStsfile (stats mine) base)).procs.on mine =
      { phase := .closed } := Peers.on_put _ _ _
  have away : (w.fclose mine (updatedStsfile (stats mine) base)).procs.on mine.other =
      w.procs.on mine.other := Peers.on_put_other _ _ _
  refine ⟨some (updatedStsfile (stats mine) base), ⟨⟨fun open_ => ?_, fun side done open_ => ?_,
    fun done => ?_⟩, fun _ => content, fun side inside => ?_, fun side _ => ?_, fun side => ?_⟩⟩
  · have still := open_ mine
    rw [here] at still
    exact absurd rfl still
  · rcases side_cases mine side with rfl | rfl
    · -- This update is the first.
      rw [away] at open_
      rw [serial.settled.none_yet fun other => ?_]
      rcases side_cases side other with rfl | rfl
      · rw [unlocked]
        exact nofun
      · exact open_
    · rw [Side.other_other, here] at open_
      exact absurd rfl open_
  · -- The other update was the first.
    have first := done mine.other
    rw [away] at first
    refine ⟨mine.other, ?_⟩
    rw [Side.other_other, serial.settled.one mine.other first ?_]
    rw [Side.other_other, unlocked]
    exact nofun
  · rcases side_cases mine side with rfl | rfl
    · rw [here] at inside
      cases inside
    · rw [away, alone] at inside
      cases inside
  · rw [content]
    exact nofun
  · rcases side_cases mine side with rfl | rfl
    · rw [here]
      exact nofun
    · exact away.symm ▸ serial.succeeds mine.other

/-- A turn of updates that are apart keeps them in an order. -/
theorem turn_serial (w : StsWorld) (input : Side × Bool) (serial : Serial stats file base w)
    (apart : w.Apart input) : ∃ base, Serial stats file base (w.turn stats input) := by
  obtain ⟨mine, supported⟩ := input
  obtain ⟨sees, keeps⟩ := apart
  unfold Sees at sees
  unfold GivesUp at keeps
  dsimp only at sees keeps
  have calm : ∀ phase, (w.procs.on mine).phase = phase → phase.within = false →
      (w.procs.on mine.other).phase.within = false → w.file = base := by
    intro phase here outside alone
    refine serial.quiet fun side => ?_
    rcases side_cases mine side with rfl | rfl
    · exact here.symm ▸ outside
    · exact alone
  unfold turn
  dsimp only
  cases phase : (w.procs.on mine).phase with
  | begins =>
    rw [phase] at sees
    dsimp only at sees ⊢
    cases there : w.file with
    | none =>
      have alone := sees there
      have same := calm _ phase rfl alone
      have kept := serial.inside mine { phase := .looked false } w.file alone
        (by rw [phase]; exact nofun) rfl (.inl rfl) ⟨by rw [← same, there], there⟩
      exact ⟨base, kept⟩
    | some content =>
      exact ⟨base, serial.outside mine _ (by rw [phase]; rfl) (by rw [phase]; exact nofun) rfl nofun
        nofun fun _ => by rw [there]; exact nofun⟩
  | looked exist =>
    unfold fopen
    cases exist with
    | true =>
      have there := serial.exists_ mine phase
      have open_ : w.file.isSome = true := Option.isSome_iff_ne_none.mpr there
      dsimp only
      rw [if_pos rfl, if_pos open_]
      exact ⟨base, serial.outside mine _ (by rw [phase]; rfl) (by rw [phase]; exact nofun) rfl nofun
        nofun nofun⟩
    | false =>
      dsimp only
      rw [if_neg Bool.false_ne_true]
      obtain ⟨alone, goes⟩ := serial.goes mine (by rw [phase]; rfl)
      rw [phase] at goes
      exact ⟨base, serial.inside mine _ (some []) alone (by rw [phase]; exact nofun) rfl
        (.inr nofun) ⟨goes.1, rfl⟩⟩
  | opened exist tries =>
    rw [phase] at keeps
    dsimp only at keeps
    have goes_on : ∀ proc : StsProc, (proc.phase = .locked exist ∨
        ∃ tries, proc.phase = .opened exist tries) → Serial stats file base (w.put mine proc) := by
      intro proc next
      cases exist with
      | true =>
        refine serial.outside mine proc (by rw [phase]; rfl) (by rw [phase]; exact nofun) ?_ ?_ ?_ ?_
        · rcases next with locked | ⟨_, opened⟩
          · rw [locked]
            rfl
          · rw [opened]
            rfl
        · rcases next with locked | ⟨_, opened⟩
          · rw [locked]
            exact nofun
          · rw [opened]
            exact nofun
        · rcases next with locked | ⟨_, opened⟩
          · rw [locked]
            exact nofun
          · rw [opened]
            exact nofun
        · rcases next with locked | ⟨_, opened⟩
          · rw [locked]
            exact nofun
          · rw [opened]
            exact nofun
      | false =>
        obtain ⟨alone, goes⟩ := serial.goes mine (by rw [phase]; rfl)
        rw [phase] at goes
        have kept := serial.inside mine proc w.file alone (by rw [phase]; exact nofun)
          (by rcases next with locked | ⟨_, opened⟩
              · rw [locked]
                rfl
              · rw [opened]
                rfl) (.inl rfl)
          (by rcases next with locked | ⟨_, opened⟩
              · rw [locked]
                exact goes
              · rw [opened]
                exact goes)
        exact kept
    unfold fileLock
    dsimp only
    split
    · exact ⟨base, goes_on _ (.inl rfl)⟩
    · split
      · exact ⟨base, goes_on _ (.inl rfl)⟩
      · rename_i refused
        split
        · rename_i last
          refine absurd ⟨last, ?_⟩ keeps
          cases supported with
          | false => exact .inl rfl
          | true => exact .inr (by simpa using refused)
        · exact ⟨base, goes_on _ (.inr ⟨_, rfl⟩)⟩
  | locked exist =>
    cases exist with
    | true =>
      rw [phase] at sees
      have alone := sees trivial
      have same := calm _ phase rfl alone
      have kept := serial.inside mine
        { w.procs.on mine with phase := .loaded (sessionStatReadStsfile (w.file.getD [])) } w.file
        alone (by rw [phase]; exact nofun) rfl (.inl rfl) ⟨same, by rw [same, read_base]⟩
      exact ⟨base, kept⟩
    | false =>
      obtain ⟨alone, goes⟩ := serial.goes mine (by rw [phase]; rfl)
      rw [phase] at goes
      obtain ⟨rfl, empty⟩ := goes
      have kept := serial.inside mine
        { phase := .unlocked (sessionStatText (SessStat.update {} (stats mine))) } w.file alone
        (by rw [phase]; exact nofun) rfl (.inl rfl) ⟨empty, rfl⟩
      exact ⟨none, kept⟩
  | loaded tmpstat =>
    obtain ⟨alone, goes⟩ := serial.goes mine (by rw [phase]; rfl)
    rw [phase] at goes
    exact ⟨base, serial.inside mine _ (some []) alone (by rw [phase]; exact nofun) rfl (.inr nofun)
      ⟨rfl, goes.2⟩⟩
  | truncated tmpstat =>
    obtain ⟨alone, goes⟩ := serial.goes mine (by rw [phase]; rfl)
    rw [phase] at goes
    obtain ⟨empty, rfl⟩ := goes
    have kept := serial.inside mine
      { phase := .unlocked (sessionStatText ((statOf base).update (stats mine))) } w.file alone
      (by rw [phase]; exact nofun) rfl (.inl rfl) ⟨empty, rfl⟩
    exact ⟨base, kept⟩
  | unlocked text => exact serial.closes mine text phase
  | closed => exact ⟨base, serial⟩
  | failed => exact absurd phase (serial.succeeds mine)

end Turns

/-- Updates that are apart leave the file as one after the other, whatever was in it and in
whatever order the turns come. -/
theorem updates_serialized (stats : Side → SessStat) (file : Option Bytes)
    (turns : List (Side × Bool)) (apart : Along Apart (step stats) (start file) turns)
    (final : StsWorld) (reached : run (step stats) (start file) turns = .more final)
    (ended : final.Ended) : final.Serialized stats file := by
  have begins : ∀ side, ((start file).procs.on side).phase = .begins := by
    intro side
    cases side <;> rfl
  have settled : Settled stats file file (start file) := by
    refine ⟨fun _ => rfl, fun side done => ?_, fun done => ?_⟩
    · rw [begins] at done
      cases done
    · have near := done .near
      rw [begins] at near
      cases near
  have initial : Serial stats file file (start file) := by
    refine ⟨settled, fun _ => rfl, fun side within => ?_, fun side looked => ?_, fun side => ?_⟩
    · rw [begins] at within
      cases within
    · rw [begins] at looked
      cases looked
    · rw [begins]
      exact nofun
  have keeps : ∀ w input after, (∃ base, Serial stats file base w) → Apart w input →
      step stats w input = .more after → ∃ base, Serial stats file base after := by
    intro w input after kept apart taken
    obtain ⟨base, serial⟩ := kept
    obtain rfl := Turn.more.inj taken
    exact turn_serial w input serial apart
  obtain ⟨base, serial⟩ := run_reaches (fun w => ∃ base, Serial stats file base w) keeps
    (start file) ⟨file, initial⟩ turns apart final reached
  have closed : ∀ side, (final.procs.on side).phase = .closed := fun side =>
    (ended side).resolve_right (serial.succeeds side)
  obtain ⟨first, both⟩ := serial.settled.both closed
  refine ⟨first, ?_⟩
  rw [serial.quiet fun side => by rw [closed]; rfl]
  exact both

/-- A status file with no tries. -/
def noTries : Bytes := ascii "0 0 0 0 0 0 0 0 0 0"

/-- Each side counts a try. -/
def oneTry (_ : Side) : SessStat := { tries := 1 }

/-- The turns of an update on a file that is there. -/
def wholeUpdate (side : Side) : List (Side × Bool) := List.replicate 7 (side, true)

theorem updates_serialized_alone : ∃ final : StsWorld,
    run (step oneTry) (start (some noTries)) (wholeUpdate .near ++ wholeUpdate .far) = .more final ∧
      final.Serialized oneTry (some noTries) :=
  ⟨_, rfl, updates_serialized oneTry (some noTries) (wholeUpdate .near ++ wholeUpdate .far)
    (by decide) _ rfl fun side => .inl (by cases side <;> decide)⟩

/-- Both updates read the file before either writes: one of the two tries is lost. -/
theorem try_lost : ∃ final : StsWorld,
    run (step oneTry) (start (some noTries))
        ((wholeUpdate .near).take 4 ++ (wholeUpdate .far).take 4 ++ (wholeUpdate .near).drop 4 ++
          (wholeUpdate .far).drop 4) = .more final ∧
    final.Ended ∧ ¬ final.Serialized oneTry (some noTries) := by
  refine ⟨_, rfl, fun side => .inl (by cases side <;> decide), ?_⟩
  rintro ⟨first, same⟩
  cases first <;> revert same <;> decide

end StsWorld

end Binkleyforce
