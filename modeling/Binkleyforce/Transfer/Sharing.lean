import Mathlib.Data.List.TakeWhile
import Mathlib.Logic.Function.Basic
import Binkleyforce.Library.Runs
import Binkleyforce.Transfer.Confinement

/-!
# Sessions that share an inbound directory

Any number of sessions put received files into one inbound directory, one system call at
a time in any order. Each looks for a name under which there is no file and then renames
its temporary file to it. Between the two another session may have taken the name, and
its file is lost. In every run where this does not happen no file is.

A file is known by a number, as the system knows it by its node; renaming keeps it.
-/

namespace Binkleyforce

open Library Library.Program Function

/-- A received file that a session is going to put in place: one that `p_rx_fopen` found
complete, or one that is closed. Its names are those the opening routine gave it. -/
structure Finished (dirs : InboundDirs) where
  recv : Received
  complete : Bool := false
  temporary : ∀ path ∈ recv.fname, Inside dirs.tinbound path
  single : 47 ∉ recv.localName

/-- The routine that puts the file in place. -/
def Finished.finish {dirs : InboundDirs} (conf : InboundConf) (file : Finished dirs) :
    InboundProgram Unit :=
  if file.complete then (pMove2inbound conf dirs file.recv).bind fun _ => .done ()
  else (closeReceiving conf dirs file.recv).bind fun _ => .done ()

/-- A session: the files it has still to put in place, whether the present one is a file
request, and what is left of its routine. Further the name it found free last, and
whether another session has renamed a file to that name since. -/
structure Session (dirs : InboundDirs) where
  conf : InboundConf
  waiting : List (Finished dirs)
  request : Bool := false
  rest : InboundProgram Unit := .done ()
  free : Option Bytes := none
  raced : Bool := false

/-- A file that was put in place. -/
structure Commit where
  path : Bytes
  content : Nat
  deriving DecidableEq, Repr

/-- The files by name, the sessions, and the files that were put in place and have not
been replaced by a file request since. -/
structure SharedInbound (ι : Type) (dirs : InboundDirs) where
  files : Bytes → Option Nat
  sessions : ι → Session dirs
  committed : List Commit

/-- What the system decides about a call: that it fails, the number it yields, and what
`stat` finds. -/
structure InboundAnswer where
  fails : Bool := false
  number : Nat := 0
  found : Option (Int × Nat) := none
  deriving DecidableEq, Repr

/-- A session begins with its next file, or its routine issues its next call. -/
inductive InboundEvent (ι : Type) where
  | begin (session : ι)
  | call (session : ι) (answer : InboundAnswer)
  deriving DecidableEq, Repr

/-- The answer to one call. A file cannot take a name that only directories have. The
files that are put in place were opened before. -/
def answerCall (files : Bytes → Option Nat) (answer : InboundAnswer) :
    (request : InboundCall) → (Bytes → Option Nat) × InboundReply request
  | .access path =>
    (files, if FileName (fileGetname path) then (files path).isSome && !answer.fails
      else !answer.fails)
  | .stat _ => (files, answer.found)
  | .rename old new =>
    match files old with
    | none => (files, false)
    | some content =>
      if answer.fails = true ∨ ¬ FileName (fileGetname new) then (files, false)
      else (update (update files old none) new (some content), true)
  | .unlink path =>
    if answer.fails = true ∨ files path = none then (files, false)
    else (update files path none, true)
  | .getfreespace _ => (files, answer.number)
  | .rand => (files, answer.number)
  | .reqProc _ => (files, ())
  | .fopen _ _ => (files, !answer.fails)
  | .fclose => (files, !answer.fails)
  | .chmod _ _ => (files, !answer.fails)
  | .utime _ => (files, !answer.fails)

/-- The name a file was renamed to by the call. -/
def InboundCall.takes : (request : InboundCall) → InboundReply request → Option Bytes
  | .rename _ new, true => some new
  | _, _ => none

/-- The name a session found free last, after a call of its own. -/
def trackFree (free : Option Bytes) : (request : InboundCall) → InboundReply request → Option Bytes
  | .access path, false => some path
  | .access _, true => none
  | .rename _ _, _ => none
  | _, _ => free

/-- The call checks a name, or uses the last check. -/
def InboundCall.renews : InboundCall → Bool
  | .access _ | .rename _ _ => true
  | _ => false

namespace Session

variable {dirs : InboundDirs}

/-- The session after its own call was answered. -/
def called (session : Session dirs) (request : InboundCall)
    (next : InboundReply request → InboundProgram Unit) (reply : InboundReply request) :
    Session dirs :=
  { session with
    rest := next reply
    free := trackFree session.free request reply
    raced := session.raced && !request.renews }

/-- The session after another one has renamed a file. -/
def notice (session : Session dirs) (taken : Option Bytes) : Session dirs :=
  { session with
    raced := session.raced || (taken.isSome && taken = session.free) }

end Session

namespace SharedInbound

variable {ι : Type} [DecidableEq ι] {dirs : InboundDirs}

/-- The files put in place, after one was renamed to the name. -/
def commit (world : SharedInbound ι dirs) (request : Bool) (files : Bytes → Option Nat)
    (new : Bytes) : List Commit :=
  (if request then world.committed.filter (·.path ≠ new) else world.committed) ++
    ((files new).map fun content => ⟨new, content⟩).toList

/-- One step of the sessions. Events that do not apply change nothing. -/
def step (world : SharedInbound ι dirs) :
    InboundEvent ι → Turn (SharedInbound ι dirs) Empty
  | .begin index =>
    let session := world.sessions index
    match session.rest, session.waiting with
    | .done (), file :: waiting =>
      .more { world with
        sessions := update world.sessions index
          { session with
            waiting
            request := hasType file.recv.type typeRequest
            rest := file.finish session.conf
            free := none
            raced := false } }
    | _, _ => .more world
  | .call index answer =>
    let session := world.sessions index
    match session.rest with
    | .done () => .more world
    | .call request next =>
      let (files, reply) := answerCall world.files answer request
      let taken := request.takes reply
      .more {
        files
        sessions := fun other =>
          if other = index then session.called request next reply
          else (world.sessions other).notice taken
        committed :=
          match taken with
          | none => world.committed
          | some new => world.commit session.request files new }

/-- No file request apart, a file is only renamed to a name while no other session has
renamed one to it since the name was found free; and a name under which there is a file
is not found free. -/
def Undisturbed (world : SharedInbound ι dirs) : InboundEvent ι → Prop
  | .begin _ => True
  | .call index answer =>
    match (world.sessions index).rest with
    | .call (.access path) _ => answer.fails = true → world.files path = none
    | .call (.rename _ _) _ =>
      (world.sessions index).request = true ∨ (world.sessions index).raced = false
    | _ => True

instance (world : SharedInbound ι dirs) (event : InboundEvent ι) :
    Decidable (world.Undisturbed event) := by
  unfold Undisturbed
  split
  · infer_instance
  · split <;> infer_instance

/-- Every file that was put in place is found under its name and no other. -/
def Kept (world : SharedInbound ι dirs) : Prop :=
  ∀ commit ∈ world.committed, world.files commit.path = some commit.content ∧
    ∀ other, world.files other = some commit.content → other = commit.path

/-- Nothing has begun. Every file has one name, and files that were put in place before
are where they were put. -/
structure Starts (world : SharedInbound ι dirs) : Prop where
  distinct : ∀ first second content, world.files first = some content →
    world.files second = some content → first = second
  found : ∀ commit ∈ world.committed, Inside dirs.inbound commit.path ∧
    world.files commit.path = some commit.content
  idle : ∀ index, (world.sessions index).rest = .done () ∧ (world.sessions index).free = none

end SharedInbound

/-! ## What the routines ask for -/

/-- What a routine may ask for, with the name found free last: it renames its temporary
file to a name in the inbound directory, the free one if it is no file request, and
removes nothing but its temporary file. -/
def Careful (dirs : InboundDirs) (request : Bool) (free : Option Bytes) : InboundCall → Prop
  | .rename old new => Inside dirs.tinbound old ∧
      (Inside dirs.inbound new ∨ ¬ FileName (fileGetname new)) ∧
      (request = true ∨ free = some new)
  | .unlink path => Inside dirs.tinbound path
  | .fopen _ _ => False
  | _ => True

/-- The name a session ends up with. -/
def Chosen (dirs : InboundDirs) (request : Bool) (free : Option Bytes) (path : Bytes) : Prop :=
  (Inside dirs.inbound path ∨ ¬ FileName (fileGetname path)) ∧
    (request = true ∨ free = some path)

/-- The last component of a name in a directory. -/
theorem getname_append (dirname component : Bytes) (separated : dirname.getLast? = some 47)
    (single : 47 ∉ component) : fileGetname (dirname ++ component) = component := by
  unfold fileGetname
  have whole : component.reverse.takeWhile (· ≠ 47) = component.reverse := by
    rw [List.takeWhile_eq_self_iff]
    intro char member
    have : char ≠ 47 := by
      rintro rfl
      exact single (List.mem_reverse.mp member)
    simpa using this
  rw [List.reverse_append, List.takeWhile_append, whole, if_pos rfl]
  cases shape : dirname.reverse with
  | nil => simp
  | cons last rest =>
    rw [← List.head?_reverse, shape, List.head?_cons, Option.some.injEq] at separated
    simp [separated]

/-- A name in the temporary directory is none in the inbound directory. -/
theorem tinbound_apart (dirs : InboundDirs) (path : Bytes) (temporary : Inside dirs.tinbound path)
    (inbound : Inside dirs.inbound path) : False := by
  obtain ⟨first, rfl, -⟩ := temporary
  obtain ⟨second, same, name⟩ := inbound
  unfold InboundDirs.tinbound at same
  rw [List.append_assoc] at same
  exact name.single ((List.append_cancel_left same) ▸ by simp [ascii])

section Names

variable {condition : InboundCall → Prop} (dirname : Bytes)

/-- A search for the name of a bundle that has left the file's name: the last character
is that of the directory. -/
def Strayed (place : Bytes × Nat) : Prop :=
  place.1.getLast? = some 47 ∧ place.2 < place.1.length

/-- A search that has strayed only finds names no file can take. -/
theorem rotateName_strayed (place : Bytes × Nat) (strayed : Strayed place) :
    Ensures condition (fun made => ∀ found ∈ made, ¬ FileName (fileGetname found.1) ∧
      Strayed found.2) (rotateName place) := by
  obtain ⟨result, p⟩ := place
  obtain ⟨last, within⟩ := strayed
  dsimp only at last within
  have nameless : ∀ path : Bytes, path.getLast? = some 47 → ¬ FileName (fileGetname path) := by
    intro path ends name
    have := getname_append path [] ends (by simp)
    rw [List.append_nil] at this
    exact name.named this
  unfold rotateName
  dsimp only
  cases rotated : rotateChar (result.getD p 0) with
  | some char =>
    refine (ensures_done _ _ _).mpr ?_
    rintro _ ⟨⟩
    have ends : (result.set p char).getLast? = some 47 := by
      rw [List.getLast?_eq_getElem?] at last ⊢
      rw [List.length_set, List.getElem?_set_ne, last]
      rintro rfl
      rw [List.getD_eq_getElem?_getD, last, Option.getD_some] at rotated
      exact absurd rotated (by simp [rotateChar])
    exact ⟨nameless _ ends, ends, (by rw [List.length_set]; exact within)⟩
  | none =>
    dsimp only
    split
    · exact (ensures_done _ _ _).mpr nofun
    · refine (ensures_done _ _ _).mpr ?_
      rintro _ ⟨⟩
      exact ⟨nameless _ last, last, Nat.lt_of_le_of_lt (Nat.sub_le p 1) within⟩

/-- The search for the name of a bundle stops at a dot. -/
theorem rotateName_stuck (before : Bytes)
    (ends : before.getLast? = some 46 ∨ before.getLast? = some 47) :
    rotateName (before ++ [46], before.length) = .done none := by
  have char : (before ++ [46]).getD before.length 0 = 46 := by simp
  have last : (before ++ [46]).getD (before.length - 1) 0 = 46 ∨
      (before ++ [46]).getD (before.length - 1) 0 = 47 := by
    have filled : 0 < before.length := by
      cases before with
      | nil => simp at ends
      | cons => simp
    rw [List.getD_eq_getElem?_getD, List.getElem?_append_left (by omega),
      ← List.getLast?_eq_getElem?]
    exact ends.imp (fun ends => by rw [ends, Option.getD_some])
      (fun ends => by rw [ends, Option.getD_some])
  unfold rotateName
  dsimp only
  rw [char, show rotateChar 46 = none by decide]
  exact if_pos (.inr last)

/-- The other name of a file lies in the directory, or no file can take it. -/
theorem uniqueName_chosen (separated : dirname.getLast? = some 47) (asks : condition .rand)
    (looks : ∀ path, condition (.access path)) (fname : Bytes) (single : 47 ∉ fname)
    (type : Nat) :
    Ensures condition (fun result => ∀ path ∈ result,
      Inside dirname path ∨ ¬ FileName (fileGetname path)) (protUniqueName dirname fname type) := by
  by_cases name : FileName fname
  · exact ensures_weaken (uniqueName_inside dirname separated asks looks fname name type)
      fun result found path member => .inl (found path member)
  · have some : 0 < dirname.length := by
      cases dirname with
      | nil => simp at separated
      | cons => simp
    refine uniqueName_ensures dirname asks looks _ fname type single (fun _ => .inl)
      (.inr (by rwa [getname_append dirname fname separated single])) ?_
    by_cases empty : fname = []
    · subst empty
      rw [List.append_nil]
      refine ensures_weaken (tryNames_ensures looks rotateName_strayed _ _ ⟨separated, ?_⟩)
        fun result found path member => .inr (found path member)
      exact Nat.sub_lt some Nat.one_pos
    · -- the name consists of one dot or two
      have dots : ∃ before, dirname ++ fname = before ++ [46] ∧
          (before.getLast? = Option.some 46 ∨ before.getLast? = Option.some 47) := by
        by_cases here : fname = ascii "."
        · exact ⟨dirname, by rw [here]; rfl, .inr separated⟩
        · by_cases parent : fname = ascii ".."
          · exact ⟨dirname ++ [46], by rw [parent, List.append_assoc]; rfl, .inl (by simp)⟩
          · exact absurd ⟨empty, single, here, parent⟩ name
      obtain ⟨before, shape, ends⟩ := dots
      rw [shape, List.length_append, List.length_singleton, Nat.add_sub_cancel]
      refine tryNames_ensures looks
        (fun place (here : place = (before ++ [46], before.length)) => ?_) _ _ rfl
      rw [here, rotateName_stuck before ends]
      exact (ensures_done _ _ _).mpr nofun

end Names

section Routines

variable (conf : InboundConf) (dirs : InboundDirs) (free : Option Bytes)

/-- A search ends with the name it found free last. -/
theorem tryNames_obeys {σ : Type} {request : Bool}
    {turn : σ → InboundProgram (Option (Bytes × σ))}
    (turns : ∀ state, Ensures (· = .rand) (fun _ => True) (turn state))
    (tries : Nat) (state : σ) (free : Option Bytes) :
    Obeys (Careful dirs request) trackFree (fun result free => ∀ path ∈ result, free = some path)
      free (tryNames turn tries state) := by
  induction tries generalizing state free with
  | zero => exact nofun
  | succ tries inductionHypothesis =>
    refine obeys_bind (obeys_of_ensures (turns state)
      (by rintro _ rfl; exact trivial) (by rintro _ _ rfl; rfl)) ?_
    rintro (_ | found) free -
    · exact nofun
    · refine ⟨trivial, fun reply => ?_⟩
      cases reply with
      | true => exact inductionHypothesis found.2 _
      | false =>
        intro path result
        split at result
        · cases result
        · cases result
          rfl

/-- The name that is chosen for a file that is no request was found free last. -/
theorem uniqueName_obeys (dirname fname : Bytes) (type : Nat) :
    Obeys (Careful dirs (hasType type typeRequest)) trackFree
      (fun result free => ∀ path ∈ result, hasType type typeRequest = true ∨ free = some path) free
      (protUniqueName dirname fname type) := by
  have searches : ∀ {σ : Type} (turn : σ → InboundProgram (Option (Bytes × σ))) (state : σ),
      (∀ state, Ensures (· = .rand) (fun _ => True) (turn state)) →
      Obeys (Careful dirs (hasType type typeRequest)) trackFree
        (fun result free => ∀ path ∈ result, hasType type typeRequest = true ∨ free = some path)
        free (tryNames turn maxTries state) := fun turn state turns =>
    obeys_weaken (tryNames_obeys dirs turns _ _ _)
      fun result free found path member => .inr (found path member)
  unfold protUniqueName
  dsimp only
  split
  · rename_i request
    exact fun _ _ => .inl request
  · split
    · exact searches _ _ fun _ => (ensures_call _ _ _ _).mpr
        ⟨rfl, fun _ => (ensures_done _ _ _).mpr trivial⟩
    · split
      · refine searches _ _ fun place => ?_
        unfold rotateName
        dsimp only
        split
        · exact (ensures_done _ _ _).mpr trivial
        · split
          · exact (ensures_done _ _ _).mpr trivial
          · exact (ensures_done _ _ _).mpr trivial
      · exact searches _ _ fun _ => (ensures_done _ _ _).mpr trivial

/-- A file is renamed to a name of the inbound directory, found free last if it is no
request. -/
theorem move_obeys (recv : Received) (temporary : ∀ path ∈ recv.fname, Inside dirs.tinbound path)
    (single : 47 ∉ recv.localName) :
    Obeys (Careful dirs (hasType recv.type typeRequest)) trackFree (fun _ _ => True) free
      (pMove2inbound conf dirs recv) := by
  have renames : ∀ destname free, (Inside dirs.inbound destname ∨ ¬ FileName (fileGetname destname)) →
      (hasType recv.type typeRequest = true ∨ free = some destname) →
      Obeys (Careful dirs (hasType recv.type typeRequest)) trackFree (fun _ _ => True) free
        (renameInbound conf recv destname) := by
    intro destname free target found
    unfold renameInbound
    split
    · exact trivial
    · rename_i fname named
      refine ⟨⟨temporary fname named, target, found⟩, ?_⟩
      rintro (_ | _)
      · exact trivial
      · exact ⟨trivial, fun _ => trivial⟩
  refine ⟨trivial, ?_⟩
  rintro (_ | _)
  · refine renames _ _ ?_ (.inr rfl)
    by_cases name : FileName recv.localName
    · exact .inl ⟨recv.localName, rfl, name⟩
    · exact .inr (by rwa [getname_append _ _ dirs.separated single])
  · refine obeys_bind (obeys_and (uniqueName_obeys dirs _ dirs.inbound recv.localName recv.type)
      (@uniqueName_chosen (fun _ => True) dirs.inbound dirs.separated trivial (fun _ => trivial) recv.localName single
        recv.type)) ?_
    rintro (_ | uniqname) free ⟨found, target⟩
    · exact trivial
    · exact renames uniqname free (target uniqname rfl) (found uniqname rfl)

/-- Nothing else is done to the inbound directory when a file is closed. -/
theorem close_obeys (recv : Received) (temporary : ∀ path ∈ recv.fname, Inside dirs.tinbound path)
    (single : 47 ∉ recv.localName) :
    Obeys (Careful dirs (hasType recv.type typeRequest)) trackFree (fun _ _ => True) free
      (closeReceiving conf dirs recv) := by
  have commits : ∀ recv' : Received, recv'.type = recv.type → recv'.fname = recv.fname →
      recv'.localName = recv.localName → ∀ free,
      Obeys (Careful dirs (hasType recv.type typeRequest)) trackFree (fun _ _ => True) free
        (commitReceived conf dirs recv') := by
    intro recv' type fname localName free
    unfold commitReceived
    split
    · exact trivial
    · split
      · exact trivial
      · rename_i path named
        refine ⟨trivial, fun reply => ?_⟩
        dsimp only
        split
        · exact trivial
        · split
          · exact ⟨trivial, fun _ => ⟨temporary path (fname ▸ named), fun _ => trivial⟩⟩
          · rw [← type]
            refine obeys_bind (move_obeys conf dirs _ recv' (by rwa [fname]) (by rwa [localName])) ?_
            rintro (_ | _) free -
            · exact trivial
            · exact trivial
  have settles : ∀ recv' : Received, recv'.type = recv.type → recv'.fname = recv.fname →
      recv'.localName = recv.localName → ∀ free,
      Obeys (Careful dirs (hasType recv.type typeRequest)) trackFree (fun _ _ => True) free
        (settleReceived conf dirs recv') := by
    intro recv' type fname localName free
    have commits := commits recv' type fname localName
    unfold settleReceived
    split
    · exact commits _
    · rename_i path named
      dsimp only
      split
      · exact ⟨temporary path (fname ▸ named), fun _ => commits _⟩
      · split
        · exact ⟨trivial, fun _ => ⟨trivial, fun _ => commits _⟩⟩
        · exact ⟨trivial, fun _ => commits _⟩
  unfold closeReceiving
  split
  · refine ⟨trivial, ?_⟩
    rintro (_ | _)
    · exact trivial
    · exact settles { recv with opened := false } rfl rfl rfl _
  · exact settles recv rfl rfl rfl _

/-- The routine of a session. -/
theorem finish_obeys (file : Finished dirs) :
    Obeys (Careful dirs (hasType file.recv.type typeRequest)) trackFree (fun _ _ => True) free
      (file.finish conf) := by
  unfold Finished.finish
  split
  · exact obeys_bind (move_obeys conf dirs free file.recv file.temporary file.single)
      fun _ _ _ => trivial
  · exact obeys_bind (close_obeys conf dirs free file.recv file.temporary file.single)
      fun _ _ _ => trivial

end Routines

/-! ## The shared directory -/

namespace SharedInbound

variable {ι : Type} {dirs : InboundDirs}

/-- The invariant: every file has one name, the files put in place are where they were
put, every routine is careful, and what was found free and not taken since is free. -/
structure Sound (world : SharedInbound ι dirs) : Prop where
  distinct : ∀ first second content, world.files first = some content →
    world.files second = some content → first = second
  found : ∀ commit ∈ world.committed, Inside dirs.inbound commit.path ∧
    world.files commit.path = some commit.content
  obeys : ∀ index, Obeys (Careful dirs (world.sessions index).request) trackFree (fun _ _ => True)
    (world.sessions index).free (world.sessions index).rest
  vacant : ∀ index path, (world.sessions index).free = some path →
    (world.sessions index).raced = false → world.files path = none

/-- Every committed file is where it was put, under no other name. -/
theorem Sound.kept {world : SharedInbound ι dirs} (sound : Sound world) : world.Kept := by
  intro commit member
  obtain ⟨-, found⟩ := sound.found commit member
  exact ⟨found, fun other same => sound.distinct other commit.path commit.content same found⟩

/-- What holds at the start. -/
theorem Starts.sound {world : SharedInbound ι dirs} (starts : Starts world) : Sound world := by
  refine ⟨starts.distinct, starts.found, fun index => ?_, fun index path free => ?_⟩
  · rw [(starts.idle index).1]
    exact trivial
  · rw [(starts.idle index).2] at free
    cases free

variable [DecidableEq ι]

/-- What one call does to the files: nothing, or it removes a temporary file, or it
renames one to a name some file can take. -/
inductive Touches (dirs : InboundDirs) (request : Bool) (free : Option Bytes)
    (files after : Bytes → Option Nat) : Option Bytes → Prop where
  | idle (same : after = files) : Touches dirs request free files after none
  | removes (path : Bytes) (temporary : Inside dirs.tinbound path)
      (removed : after = update files path none) : Touches dirs request free files after none
  | renames (old new : Bytes) (content : Nat) (present : files old = some content)
      (temporary : Inside dirs.tinbound old) (inbound : Inside dirs.inbound new)
      (chosen : request = true ∨ free = some new)
      (renamed : after = update (update files old none) new (some content)) :
      Touches dirs request free files after (some new)

/-- A careful call touches the files in one of these ways. -/
theorem answerCall_touches (files : Bytes → Option Nat) (answer : InboundAnswer)
    (request : Bool) (free : Option Bytes) (call : InboundCall)
    (careful : Careful dirs request free call) :
    Touches dirs request free files (answerCall files answer call).1
      (call.takes (answerCall files answer call).2) := by
  cases call with
  | rename old new =>
    obtain ⟨temporary, target, chosen⟩ := careful
    unfold answerCall
    dsimp only
    cases present : files old with
    | none => exact .idle rfl
    | some content =>
      dsimp only
      split
      · exact .idle rfl
      · rename_i possible
        rw [not_or, not_not] at possible
        exact .renames old new content present temporary
          (target.resolve_right (not_not.mpr possible.2)) chosen rfl
  | unlink path =>
    unfold answerCall
    dsimp only
    split
    · exact .idle rfl
    · exact .removes path careful rfl
  | access path => exact .idle rfl
  | stat path => exact .idle rfl
  | fopen path append => exact .idle rfl
  | fclose => exact .idle rfl
  | chmod path mode => exact .idle rfl
  | utime path => exact .idle rfl
  | getfreespace path => exact .idle rfl
  | rand => exact .idle rfl
  | reqProc path => exact .idle rfl

/-- The name found free last is free, if the call does not fail for another reason. -/
theorem trackFree_vacant (files : Bytes → Option Nat) (answer : InboundAnswer) (free : Option Bytes)
    (raced : Bool) (call : InboundCall) (path : Bytes)
    (vacant : ∀ path, free = some path → raced = false → files path = none)
    (allowed : ∀ looked, call = .access looked → answer.fails = true → files looked = none)
    (found : trackFree free call (answerCall files answer call).2 = some path)
    (quiet : (raced && !call.renews) = false) : files path = none := by
  cases call with
  | access looked =>
    unfold answerCall at found
    dsimp only at found
    split at found
    · rename_i name
      cases present : files looked with
      | none =>
        simp only [present, Option.isSome_none, Bool.false_and, trackFree, Option.some.injEq] at found
        exact found ▸ present
      | some content =>
        cases failed : answer.fails with
        | false => simp [present, failed, trackFree] at found
        | true => exact absurd (allowed looked rfl failed) (by simp [present])
    · cases failed : answer.fails with
      | false => simp [failed, trackFree] at found
      | true =>
        simp only [failed, Bool.not_true, trackFree, Option.some.injEq] at found
        exact found ▸ allowed looked rfl failed
  | rename old new => simp [trackFree] at found
  | stat looked => exact vacant path found (by simpa [InboundCall.renews] using quiet)
  | fopen looked append => exact vacant path found (by simpa [InboundCall.renews] using quiet)
  | fclose => exact vacant path found (by simpa [InboundCall.renews] using quiet)
  | unlink looked => exact vacant path found (by simpa [InboundCall.renews] using quiet)
  | chmod looked mode => exact vacant path found (by simpa [InboundCall.renews] using quiet)
  | utime looked => exact vacant path found (by simpa [InboundCall.renews] using quiet)
  | getfreespace looked => exact vacant path found (by simpa [InboundCall.renews] using quiet)
  | rand => exact vacant path found (by simpa [InboundCall.renews] using quiet)
  | reqProc looked => exact vacant path found (by simpa [InboundCall.renews] using quiet)

section Touching

variable {files after : Bytes → Option Nat} {request : Bool} {free taken : Option Bytes}

/-- A file keeps having one name. -/
theorem Touches.distinct (touches : Touches dirs request free files after taken)
    (distinct : ∀ first second content, files first = some content →
      files second = some content → first = second) :
    ∀ first second content, after first = some content → after second = some content →
      first = second := by
  cases touches with
  | idle same => exact same ▸ distinct
  | removes path temporary removed =>
    subst removed
    intro first second content one other
    rw [update_apply] at one other
    split at one
    · cases one
    · split at other
      · cases other
      · exact distinct first second content one other
  | renames old new moved present temporary inbound chosen renamed =>
    subst renamed
    intro first second content one other
    simp only [update_apply] at one other
    -- no other name than the old one had the file that was moved
    have gone : ∀ path, path ≠ old → files path ≠ some moved := fun path apart found =>
      apart (distinct path old moved found present)
    split at one
    · rename_i here
      cases one
      split at other
      · rename_i there
        rw [here, there]
      · split at other
        · cases other
        · rename_i apart
          exact absurd other (gone second apart)
    · split at one
      · cases one
      · rename_i apart
        split at other
        · cases other
          exact absurd one (gone first apart)
        · split at other
          · cases other
          · exact distinct first second content one other

/-- A name under which there was no file has none, unless it was taken. -/
theorem Touches.vacant (touches : Touches dirs request free files after taken) (path : Bytes)
    (vacant : files path = none) (spared : taken ≠ some path) : after path = none := by
  cases touches with
  | idle same => rw [same, vacant]
  | removes other temporary removed =>
    rw [removed, update_apply]
    split
    · rfl
    · exact vacant
  | renames old new moved present temporary inbound chosen renamed =>
    rw [renamed, update_of_ne (fun same => spared (by rw [same])), update_apply]
    split
    · rfl
    · exact vacant

/-- A file in the inbound directory stays there, unless its name was taken. -/
theorem Touches.stays (touches : Touches dirs request free files after taken) (path : Bytes)
    (content : Nat) (inbound : Inside dirs.inbound path) (found : files path = some content)
    (spared : taken ≠ some path) : after path = some content := by
  cases touches with
  | idle same => rw [same, found]
  | removes other temporary removed =>
    rw [removed, update_of_ne, found]
    rintro rfl
    exact tinbound_apart dirs path temporary inbound
  | renames old new moved present temporary target chosen renamed =>
    rw [renamed, update_of_ne (fun same => spared (by rw [same])), update_of_ne, found]
    rintro rfl
    exact tinbound_apart dirs path temporary inbound

end Touching

omit [DecidableEq ι] in
/-- Only a rename takes a name. -/
theorem takes_rename (request : InboundCall) (reply : InboundReply request) (new : Bytes)
    (taken : request.takes reply = some new) :
    (∃ old, request = .rename old new) ∧ ∀ free, trackFree free request reply = none := by
  cases request with
  | rename old target =>
    cases reply with
    | false => cases taken
    | true =>
      cases taken
      exact ⟨⟨old, rfl⟩, fun _ => rfl⟩
  | _ => cases taken

/-- Files that were put in place stay there when a call is answered: a name is only taken
from a file for a file request. -/
theorem commit_found (world : SharedInbound ι dirs) (sound : Sound world) (request : Bool)
    (free : Option Bytes) (after : Bytes → Option Nat) (taken : Option Bytes)
    (touches : Touches dirs request free world.files after taken)
    (vacant : ∀ new, taken = some new → request = false → world.files new = none) :
    ∀ commit ∈ (match taken with
        | none => world.committed
        | some new => world.commit request after new),
      Inside dirs.inbound commit.path ∧ after commit.path = some commit.content := by
  cases taken with
  | none =>
    intro commit member
    obtain ⟨inbound, found⟩ := sound.found commit member
    exact ⟨inbound, touches.stays commit.path commit.content inbound found (by simp)⟩
  | some new =>
    intro commit member
    unfold SharedInbound.commit at member
    rcases List.mem_append.mp member with before | added
    · have earlier : commit ∈ world.committed ∧ commit.path ≠ new := by
        split at before
        · exact ⟨List.mem_of_mem_filter before, by simpa using List.of_mem_filter before⟩
        · rename_i plain
          refine ⟨before, fun same => ?_⟩
          have free := vacant new rfl (by simpa using plain)
          rw [← same, (sound.found commit before).2] at free
          cases free
      obtain ⟨inbound, found⟩ := sound.found commit earlier.1
      exact ⟨inbound, touches.stays commit.path commit.content inbound found
        (fun same => earlier.2 (Option.some.inj same).symm)⟩
    · cases touches with
      | renames old _ content present temporary inbound chosen renamed =>
        rw [renamed, update_self, Option.map_some, Option.toList_some, List.mem_singleton] at added
        subst added
        exact ⟨inbound, by rw [renamed, update_self]⟩

/-- Every step that is not disturbed keeps the invariant. -/
theorem step_sound (world after : SharedInbound ι dirs) (event : InboundEvent ι)
    (sound : Sound world) (undisturbed : world.Undisturbed event)
    (stepped : world.step event = .more after) : Sound after := by
  cases event with
  | begin index =>
    unfold step at stepped
    dsimp only at stepped
    split at stepped
    · rename_i file waiting _ _
      cases stepped
      refine ⟨sound.distinct, sound.found, fun other => ?_, fun other path => ?_⟩
      · by_cases same : other = index
        · subst same
          simp only [update_self]
          exact finish_obeys _ dirs none file
        · simp only [update_of_ne same]
          exact sound.obeys other
      · by_cases same : other = index
        · subst same
          simp only [update_self]
          exact nofun
        · simp only [update_of_ne same]
          exact sound.vacant other path
    · cases stepped
      exact sound
  | call index answer =>
    have obeys := sound.obeys index
    unfold step at stepped
    dsimp only at stepped
    cases rest : (world.sessions index).rest with
    | done value =>
      rw [rest] at stepped
      cases stepped
      exact sound
    | call request next =>
      rw [rest] at stepped obeys
      cases stepped
      obtain ⟨careful, onward⟩ := obeys
      have touches := answerCall_touches world.files answer _ _ request careful
      have allowed : ∀ looked, request = .access looked → answer.fails = true →
          world.files looked = none := by
        rintro looked rfl
        unfold Undisturbed at undisturbed
        dsimp only at undisturbed
        rw [rest] at undisturbed
        exact undisturbed
      refine ⟨touches.distinct sound.distinct, ?_, fun other => ?_, fun other path free raced => ?_⟩
      · refine commit_found world sound _ _ _ _ touches fun new taken plain => ?_
        obtain ⟨⟨old, rfl⟩, -⟩ := takes_rename request _ new taken
        unfold Undisturbed at undisturbed
        dsimp only at undisturbed
        rw [rest] at undisturbed
        exact sound.vacant index new (careful.2.2.resolve_left (by simp [plain]))
          (undisturbed.resolve_left (by simp [plain]))
      · dsimp only
        split
        · rename_i same
          subst same
          exact onward _
        · exact sound.obeys other
      · dsimp only at free raced
        split at free
        · rename_i same
          subst same
          rw [if_pos rfl] at raced
          refine touches.vacant path (trackFree_vacant world.files answer _ _ request path
            (sound.vacant other) allowed free raced) fun taken => ?_
          have used := (takes_rename request _ path taken).2 (world.sessions other).free
          rw [Session.called, used] at free
          cases free
        · rename_i apart
          rw [if_neg apart] at raced
          simp only [Session.notice, Bool.or_eq_false_iff, Bool.and_eq_false_iff,
            decide_eq_false_iff_not] at raced
          have free : (world.sessions other).free = some path := free
          refine touches.vacant path (sound.vacant other path free raced.1) fun taken => ?_
          rw [taken, free] at raced
          simp at raced

end SharedInbound

/-- In every run that is not disturbed, every file a session has put in place is found
under its name and no other. -/
theorem SharedInbound.committed_kept {ι : Type} [DecidableEq ι] {dirs : InboundDirs}
    (world final : SharedInbound ι dirs) (starts : world.Starts) (events : List (InboundEvent ι))
    (undisturbed : Along Undisturbed step world events)
    (reached : run step world events = .more final) : final.Kept :=
  Sound.kept (run_reaches Sound
    (fun before event after sound admitted stepped =>
      step_sound before after event sound admitted stepped)
    world starts.sound events undisturbed final reached)

/-- The inbound directory of the examples. -/
def spoolDirs : InboundDirs := ⟨ascii "/in/", by decide⟩

/-- A file that waits in the temporary directory. -/
def temporaryFile (number : UInt8) : Bytes := ascii "/in/tmp/a." ++ [number]

/-- A received file of the name `a` that is complete. -/
def receivedFile (number : UInt8) (digit : 48 ≤ number.toNat) : Finished spoolDirs where
  recv := {
    netName := ascii "a"
    localName := ascii "a"
    fname := some (temporaryFile number)
    type := 0
    modTime := 0
    bytesTotal := 0 }
  complete := true
  temporary := by
    rintro _ ⟨⟩
    refine ⟨ascii "a." ++ [number], rfl, fileName_numbered _ _ (by decide) (by simp) ?_⟩
    simpa using digit
  single := (by decide : (47 : UInt8) ∉ ascii "a")

/-- Two sessions, each with one file of that name. -/
def sharedSpool : SharedInbound Bool spoolDirs where
  files path :=
    if path = temporaryFile 49 then some 1 else if path = temporaryFile 50 then some 2 else none
  sessions second := {
    conf := plainInbound
    waiting := [if second then receivedFile 50 (by decide) else receivedFile 49 (by decide)] }
  committed := []

/-- The first session looks for a name and takes it, then the second. -/
def oneAfterOther : List (InboundEvent Bool) :=
  [.begin false, .call false {}, .call false {}, .call false {},
    .begin true, .call true {}, .call true {}, .call true {}, .call true {}]

/-- Both look for a name before one is taken. -/
def bothAtOnce : List (InboundEvent Bool) :=
  [.begin false, .begin true, .call false {}, .call true {}, .call false {}, .call true {}]

/-- The two sessions have not begun. -/
theorem sharedSpool_starts : sharedSpool.Starts := by
  refine ⟨?_, nofun, fun _ => ⟨rfl, rfl⟩⟩
  intro first second content one other
  unfold sharedSpool at one other
  dsimp only at one other
  split at one
  · rename_i here
    cases one
    split at other
    · rename_i there
      rw [here, there]
    · split at other <;> cases other
  · split at one
    · rename_i here
      cases one
      split at other
      · cases other
      · split at other
        · rename_i there
          rw [here, there]
        · cases other
    · cases one

/-- One after the other, the sessions keep both files. -/
theorem both_kept : ∃ final, run SharedInbound.step sharedSpool oneAfterOther = .more final ∧
    final.committed = [⟨ascii "/in/a", 1⟩, ⟨ascii "/in/a.1", 2⟩] ∧ final.Kept :=
  ⟨_, rfl, by decide, SharedInbound.committed_kept sharedSpool _ sharedSpool_starts oneAfterOther
    (by decide) rfl⟩

/-- At once, the second file replaces the first. -/
theorem first_replaced : sharedSpool.Starts ∧
    ∃ final, run SharedInbound.step sharedSpool bothAtOnce = .more final ∧ ¬ final.Kept := by
  refine ⟨sharedSpool_starts, _, rfl, fun kept => ?_⟩
  exact absurd (kept ⟨ascii "/in/a", 1⟩ (by decide)).1 (by decide)

end Binkleyforce
