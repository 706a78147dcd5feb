import Binkleyforce.Util.Text

/-!
# Lines to the network spool

A line is sent to the server in as many calls of `send` as the socket needs. Each call is
given what is thought to remain of the line, and the socket takes some of it.
-/

namespace Binkleyforce

/-- How the sending of a line ends; it `waits` where a call has not returned. -/
inductive LineSent where
  | done
  | failed
  | waits
  deriving DecidableEq, Repr

/-- `send`: it fails, or the socket takes at most what it is given. -/
def sendTaken (reply : Option Nat) (given : Nat) : Option Nat := reply.map (min · given)

/-- The newline behind the line. -/
def sendNewline : List (Option Nat) → Bytes × LineSent
  | [] => ([], .waits)
  | reply :: _ =>
    match sendTaken reply 1 with
    | none | some 0 => ([], .failed)
    | some _ => ([10], .done)

/-- The loop of `sendstr`: what goes out and how it ends, with `l` bytes left. The pointer
to the text stays where it is. -/
def sendLoop (buf : Bytes) : Nat → List (Option Nat) → Bytes × LineSent
  | 0, replies => sendNewline replies
  | _ + 1, [] => ([], .waits)
  | l + 1, reply :: replies =>
    match sendTaken reply (l + 1) with
    | none | some 0 => ([], .failed)
    | some c =>
      let (sent, result) := sendLoop buf (l + 1 - c) replies
      (buf.take c ++ sent, result)

/-- `sendstr`. -/
def sendstr (buf : Bytes) (replies : List (Option Nat)) : Bytes × LineSent :=
  sendLoop buf buf.length replies

/-- How much of a line the socket takes in each call. -/
def takenParts : Nat → List (Option Nat) → List Nat
  | 0, _ | _, [] => []
  | l + 1, reply :: replies =>
    match sendTaken reply (l + 1) with
    | none | some 0 => []
    | some c => c :: takenParts (l + 1 - c) replies

/-- Wherever the sending goes on in a line, the line goes on as it begins, for as much as the
socket takes there. -/
def GoesOnAlike (buf : Bytes) : Bytes → List Nat → Prop
  | _, [] => True
  | rest, c :: parts => rest.take c = buf.take c ∧ GoesOnAlike buf (rest.drop c) parts

instance (buf : Bytes) : (rest : Bytes) → (parts : List Nat) → Decidable (GoesOnAlike buf rest parts)
  | _, [] => isTrue trivial
  | rest, c :: parts =>
    have := instDecidableGoesOnAlike buf (rest.drop c) parts
    inferInstanceAs (Decidable (rest.take c = buf.take c ∧ GoesOnAlike buf (rest.drop c) parts))

/-- What the socket takes is no more than it is given. -/
theorem sendTaken_le {reply : Option Nat} {given c : Nat} (taken : sendTaken reply given = some c) :
    c ≤ given := by
  obtain ⟨count, _, rfl⟩ := Option.map_eq_some_iff.mp taken
  exact Nat.min_le_right _ _

/-- A call that the socket takes something in. -/
theorem sendLoop_taken (buf : Bytes) {l c : Nat} {reply : Option Nat} (replies : List (Option Nat))
    (taken : sendTaken reply (l + 1) = some (c + 1)) :
    sendLoop buf (l + 1) (reply :: replies) =
        (buf.take (c + 1) ++ (sendLoop buf (l - c) replies).1, (sendLoop buf (l - c) replies).2) ∧
      takenParts (l + 1) (reply :: replies) = (c + 1) :: takenParts (l - c) replies := by
  rw [sendLoop, takenParts, taken, ← Nat.add_sub_add_right l 1 c]
  exact ⟨rfl, rfl⟩

/-- A line is sent in parts, each of them from its beginning, and then the newline.

Induct over the replies as what is left of the line grows shorter. -/
theorem sendLoop_done {buf : Bytes} {l : Nat} {replies : List (Option Nat)}
    (done : (sendLoop buf l replies).2 = .done) :
    (takenParts l replies).sum = l ∧
      (sendLoop buf l replies).1 = (takenParts l replies).flatMap buf.take ++ [10] := by
  induction replies generalizing l with
  | nil => cases l <;> cases done
  | cons reply replies inductionHypothesis =>
    cases l with
    | zero =>
      unfold sendLoop sendNewline at done ⊢
      dsimp only at done ⊢
      split at done
      · cases done
      · cases done
      · exact ⟨rfl, rfl⟩
    | succ l =>
      cases taken : sendTaken reply (l + 1) with
      | none =>
        rw [sendLoop, taken] at done
        cases done
      | some c =>
        cases c with
        | zero =>
          rw [sendLoop, taken] at done
          cases done
        | succ c =>
          obtain ⟨step, parts⟩ := sendLoop_taken buf replies taken
          rw [step] at done
          obtain ⟨whole, sent⟩ := inductionHypothesis done
          have least := sendTaken_le taken
          rw [step, parts]
          constructor
          · rw [List.sum_cons, whole]
            omega
          · rw [sent, List.flatMap_cons, List.append_assoc]

/-- Parts that are all taken from the beginning of a text make up another one just where that
one goes on alike.

Induct over the parts. -/
theorem flatMap_take_iff {buf rest : Bytes} {parts : List Nat} (whole : parts.sum = rest.length)
    (shorter : rest.length ≤ buf.length) : parts.flatMap buf.take = rest ↔ GoesOnAlike buf rest parts := by
  induction parts generalizing rest with
  | nil =>
    rw [List.sum_nil] at whole
    rw [List.length_eq_zero_iff.mp whole.symm]
    exact iff_of_true rfl trivial
  | cons c parts inductionHypothesis =>
    rw [List.sum_cons] at whole
    have size : (buf.take c).length = c := by
      rw [List.length_take]
      omega
    have later : parts.flatMap buf.take = rest.drop c ↔ GoesOnAlike buf (rest.drop c) parts :=
      inductionHypothesis (by rw [List.length_drop]; omega) (by rw [List.length_drop]; omega)
    have apart : (c :: parts).flatMap buf.take = rest ↔
        rest.take c = buf.take c ∧ parts.flatMap buf.take = rest.drop c := by
      rw [List.flatMap_cons]
      constructor
      · rintro rfl
        exact ⟨List.take_left' size, (List.drop_left' size).symm⟩
      · rintro ⟨front, back⟩
        rw [back, ← front, List.take_append_drop]
    rw [apart, later]
    rfl

/-- A line whose sending is reported as done went out as it should, with a newline behind it,
just where it goes on alike wherever it was taken up again. -/
theorem sendstr_right (buf : Bytes) (replies : List (Option Nat)) (done : (sendstr buf replies).2 = .done) :
    (sendstr buf replies).1 = buf ++ [10] ↔ GoesOnAlike buf buf (takenParts buf.length replies) := by
  obtain ⟨whole, sent⟩ := sendLoop_done done
  unfold sendstr
  rw [sent, List.append_left_inj]
  exact flatMap_take_iff whole (Nat.le_refl _)

/-- A line taken in three parts that is right all the same. -/
theorem sendstr_right_dashes :
    (sendstr (ascii "----") [some 1, some 2, some 5, some 1]).1 = ascii "----" ++ [10] :=
  (sendstr_right (ascii "----") [some 1, some 2, some 5, some 1] (by decide)).mpr (by decide)

/-- Of `DONE a` the socket takes two characters first, and the server gets `DODONE`. -/
theorem line_repeated : ¬ ∀ (buf : Bytes) (replies : List (Option Nat)),
    (sendstr buf replies).2 = .done → (sendstr buf replies).1 = buf ++ [10] := by
  intro right
  have sent := right (ascii "DONE a") [some 2, some 4, some 1] (by decide)
  exact absurd sent (by decide)

end Binkleyforce
