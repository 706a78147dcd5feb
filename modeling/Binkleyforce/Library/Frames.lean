import Mathlib.Data.List.Basic

/-!
# Frames in a stream

A framing tells the first frame of a stream from the rest, as soon as the frame is
complete. Decoding splits frame after frame and leaves what is not complete yet.
How a stream is cut into pieces does not matter: what one piece leaves is decoded
together with the next.
-/

namespace Binkleyforce.Library

variable {α β : Type}

/-- A framing. A frame takes at least one symbol, and more of the stream does not
change a frame that is complete. -/
structure Framing (α β : Type) where
  split : List α → Option (β × List α)
  shorter : ∀ stream frame rest, split stream = some (frame, rest) → rest.length < stream.length
  stable : ∀ stream frame rest more, split stream = some (frame, rest) →
    split (stream ++ more) = some (frame, rest ++ more)

namespace Framing

/-- Split off at most so many frames. -/
def decodeWithin (framing : Framing α β) : Nat → List α → List β × List α
  | 0, stream => ([], stream)
  | frames + 1, stream =>
    match framing.split stream with
    | none => ([], stream)
    | some (frame, rest) =>
      (frame :: (framing.decodeWithin frames rest).1, (framing.decodeWithin frames rest).2)

/-- The frames of a stream, and what is left after them. -/
def decode (framing : Framing α β) (stream : List α) : List β × List α :=
  framing.decodeWithin stream.length stream

variable (framing : Framing α β)

/-- The bound does not matter when it is at least the length of the stream.

Induct over the bound: each frame takes a symbol of the stream. -/
theorem decodeWithin_enough (frames : Nat) (stream : List α) (enough : stream.length ≤ frames) :
    framing.decodeWithin frames stream = framing.decode stream := by
  induction frames using Nat.strongRecOn generalizing stream with
  | ind frames inductionHypothesis =>
    cases split : framing.split stream with
    | none =>
      unfold decode
      cases frames <;> cases stream.length <;> simp only [decodeWithin, split]
    | some found =>
      obtain ⟨frame, rest⟩ := found
      have short : rest.length < stream.length := framing.shorter stream frame rest split
      obtain ⟨room, rfl⟩ : ∃ room, frames = room + 1 := ⟨frames - 1, by omega⟩
      obtain ⟨length, long⟩ : ∃ length, stream.length = length + 1 := ⟨stream.length - 1, by omega⟩
      have left : framing.decodeWithin room rest = framing.decode rest :=
        inductionHypothesis room (by omega) rest (by omega)
      have right : framing.decodeWithin length rest = framing.decode rest :=
        inductionHypothesis length (by omega) rest (by omega)
      unfold decode
      simp only [long, decodeWithin, split, left, right]

/-- Without a complete frame everything is left. -/
theorem decode_none (stream : List α) (split : framing.split stream = none) :
    framing.decode stream = ([], stream) := by
  unfold decode
  cases stream.length <;> simp only [decodeWithin, split]

/-- The first frame is decoded, and then the rest. -/
theorem decode_some (stream rest : List α) (frame : β)
    (split : framing.split stream = some (frame, rest)) :
    framing.decode stream = (frame :: (framing.decode rest).1, (framing.decode rest).2) := by
  have short : rest.length < stream.length := framing.shorter stream frame rest split
  obtain ⟨length, long⟩ : ∃ length, stream.length = length + 1 := ⟨stream.length - 1, by omega⟩
  have enough : framing.decodeWithin length rest = framing.decode rest :=
    framing.decodeWithin_enough length rest (by omega)
  unfold decode
  simp only [long, decodeWithin, split, enough]
  rfl

/-- There is nothing to decode in an empty stream. -/
@[simp] theorem decode_nil : framing.decode [] = ([], []) := rfl

/-- More of the stream is decoded together with what was left.

Induct over the length of the stream and split its first frame off. -/
theorem decode_append (stream more : List α) :
    framing.decode (stream ++ more) =
      ((framing.decode stream).1 ++ (framing.decode ((framing.decode stream).2 ++ more)).1,
        (framing.decode ((framing.decode stream).2 ++ more)).2) := by
  induction length : stream.length using Nat.strongRecOn generalizing stream with
  | ind length inductionHypothesis =>
    subst length
    cases split : framing.split stream with
    | none => simp only [framing.decode_none stream split, List.nil_append]
    | some found =>
      obtain ⟨frame, rest⟩ := found
      have short : rest.length < stream.length := framing.shorter stream frame rest split
      have later := inductionHypothesis rest.length short rest rfl
      have whole := framing.stable stream frame rest more split
      rw [framing.decode_some _ _ _ whole, framing.decode_some _ _ _ split, later]
      simp only [List.cons_append]

/-- What follows a stream without a rest is decoded on its own. -/
theorem decode_append_complete (stream more : List α) (frames : List β)
    (complete : framing.decode stream = (frames, [])) :
    framing.decode (stream ++ more) =
      (frames ++ (framing.decode more).1, (framing.decode more).2) := by
  rw [framing.decode_append, complete, List.nil_append]

/-- A frame that is written in a form the framing recognises is decoded first. -/
theorem decode_encoded (encoded : List α) (frame : β) (rest : List α)
    (recognised : framing.split encoded = some (frame, [])) :
    framing.decode (encoded ++ rest) =
      (frame :: (framing.decode rest).1, (framing.decode rest).2) :=
  framing.decode_some _ _ _ (framing.stable encoded frame [] rest recognised)

end Framing

end Binkleyforce.Library
