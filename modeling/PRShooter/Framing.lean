import PRShooter.LittleEndian

/-!
# Length-prefixed frames

A frame is a body behind its length in four little-endian bytes. Every byte string splits in one
way into complete frames and a rest that is not a whole frame (`split`): the reader of a stream
that takes one frame after the other off its front gets exactly these.
-/

namespace Framing

open LittleEndian

/-- A body behind its length. -/
def frame (body : List UInt8) : List UInt8 := bytes 4 body.length ++ body

/-- Frame after frame. -/
def stream (bodies : List (List UInt8)) : List UInt8 := bodies.flatMap frame

/-- The length of the body is a number of four bytes. -/
def Fits (body : List UInt8) : Prop := body.length < 2 ^ 32

/-- The header or the body is cut off. -/
def Truncated (bs : List UInt8) : Prop := bs.length < 4 ∨ bs.length < 4 + value (bs.take 4)

instance : DecidablePred Fits := fun _ => Nat.decLt ..
instance : DecidablePred Truncated := fun _ => inferInstanceAs (Decidable (_ ∨ _))

/-- The bodies of the complete frames at the front, and what follows the last of them. -/
def split (bs : List UInt8) : List (List UInt8) × List UInt8 :=
  if Truncated bs then ([], bs)
  else
    let size := value (bs.take 4)
    let rest := split (bs.drop (4 + size))
    ((bs.drop 4).take size :: rest.1, rest.2)
termination_by bs.length
decreasing_by
  rename_i h
  have := not_or.mp h
  rw [List.length_drop]
  omega

/-- The bodies of the complete frames of a byte string. -/
def completeFrames (bs : List UInt8) : List (List UInt8) := (split bs).1

/-! ## One frame -/

@[simp] theorem length_frame (body : List UInt8) : (frame body).length = 4 + body.length := by
  simp [frame]

@[simp] theorem stream_nil : stream [] = [] := rfl

@[simp] theorem stream_cons (body : List UInt8) (bodies : List (List UInt8)) :
    stream (body :: bodies) = frame body ++ stream bodies := rfl

theorem stream_append (bodies bodies' : List (List UInt8)) :
    stream (bodies ++ bodies') = stream bodies ++ stream bodies' := by
  simp [stream]

theorem stream_singleton (body : List UInt8) : stream [body] = frame body := by
  simp [stream]

/-- The header of a frame is read back. -/
theorem value_header {body : List UInt8} (h : Fits body) (bs : List UInt8) :
    value ((frame body ++ bs).take 4) = body.length := by
  have htake : (frame body ++ bs).take 4 = bytes 4 body.length := by
    unfold frame
    rw [List.append_assoc, List.take_left' (length_bytes 4 _)]
  rw [htake]
  exact value_bytes_of_lt h

theorem not_truncated_frame {body : List UInt8} (h : Fits body) (bs : List UInt8) :
    ¬ Truncated (frame body ++ bs) := by
  unfold Truncated
  rw [value_header h, List.length_append, length_frame]
  omega

theorem body_of_frame (body bs : List UInt8) :
    ((frame body ++ bs).drop 4).take body.length = body := by
  unfold frame
  rw [List.append_assoc, List.drop_left' (length_bytes 4 _), List.take_left' rfl]

theorem rest_of_frame (body bs : List UInt8) :
    (frame body ++ bs).drop (4 + body.length) = bs :=
  List.drop_left' (length_frame body)

/-! ## Splitting -/

theorem split_of_truncated {bs : List UInt8} (h : Truncated bs) : split bs = ([], bs) := by
  unfold split
  rw [if_pos h]

theorem split_of_not_truncated {bs : List UInt8} (h : ¬ Truncated bs) :
    split bs = ((bs.drop 4).take (value (bs.take 4)) ::
      (split (bs.drop (4 + value (bs.take 4)))).1,
        (split (bs.drop (4 + value (bs.take 4)))).2) := by
  rw [split, if_neg h]

theorem split_frame_append {body : List UInt8} (h : Fits body) (bs : List UInt8) :
    split (frame body ++ bs) = (body :: (split bs).1, (split bs).2) := by
  rw [split_of_not_truncated (not_truncated_frame h bs), value_header h, body_of_frame,
    rest_of_frame]

theorem completeFrames_of_truncated {bs : List UInt8} (h : Truncated bs) :
    completeFrames bs = [] := by
  unfold completeFrames
  rw [split_of_truncated h]

theorem completeFrames_frame_append {body : List UInt8} (h : Fits body) (bs : List UInt8) :
    completeFrames (frame body ++ bs) = body :: completeFrames bs := by
  rw [completeFrames, split_frame_append h]
  rfl

/-! ## A header that has been read -/

/-- The first four bytes are the header of the length they spell. -/
theorem header_append_drop {bs : List UInt8} (h : 4 ≤ bs.length) :
    bytes 4 (value (bs.take 4)) ++ bs.drop 4 = bs := by
  have hlen : (bs.take 4).length = 4 := by simp [h]
  have hheader := bytes_value (bs.take 4)
  rw [hlen] at hheader
  rw [hheader, List.take_append_drop]

theorem value_take_lt (bs : List UInt8) : value (bs.take 4) < 2 ^ 32 := by
  have hlt := value_lt (bs.take 4)
  have hpow : 256 ^ (bs.take 4).length ≤ 256 ^ 4 :=
    Nat.pow_le_pow_right (by decide) (List.length_take_le ..)
  omega

/-- A header with less than the body behind it. -/
theorem truncated_of_short {size : ℕ} (h : size < 2 ^ 32) {bs : List UInt8}
    (hshort : bs.length < size) : Truncated (bytes 4 size ++ bs) := by
  right
  rw [List.take_left' (length_bytes 4 size), value_bytes_of_lt h, List.length_append, length_bytes]
  omega

/-- A header with the body behind it. -/
theorem completeFrames_header_append {size : ℕ} (h : size < 2 ^ 32) {bs : List UInt8}
    (hlen : size ≤ bs.length) :
    completeFrames (bytes 4 size ++ bs) = bs.take size :: completeFrames (bs.drop size) := by
  have htake : (bs.take size).length = size := by simp [hlen]
  have hframe : bytes 4 size ++ bs = frame (bs.take size) ++ bs.drop size := by
    unfold frame
    rw [htake, List.append_assoc, List.take_append_drop]
  rw [hframe, completeFrames_frame_append]
  unfold Fits
  rw [htake]
  exact h

/-- Frames and a rest that is not a whole frame split into the bodies and the rest. -/
theorem split_stream_append {bodies : List (List UInt8)} (h : ∀ body ∈ bodies, Fits body)
    {rest : List UInt8} (hrest : Truncated rest) :
    split (stream bodies ++ rest) = (bodies, rest) := by
  induction bodies with
  | nil => exact split_of_truncated hrest
  | cons body bodies ih =>
    rw [stream_cons, List.append_assoc, split_frame_append (h body (by simp)),
      ih fun b hb => h b (by simp [hb])]

theorem truncated_nil : Truncated [] := .inl (by simp)

theorem completeFrames_stream {bodies : List (List UInt8)} (h : ∀ body ∈ bodies, Fits body) :
    completeFrames (stream bodies) = bodies := by
  unfold completeFrames
  rw [← List.append_nil (stream bodies), split_stream_append h truncated_nil]

/-! ## A stream that is cut off -/

/-- The frames of the beginning of a stream are its first frames. -/
theorem completeFrames_mono {bs bs' : List UInt8} (h : bs <+: bs') :
    completeFrames bs <+: completeFrames bs' := by
  induction hlen : bs.length using Nat.strong_induction_on generalizing bs bs' with
  | _ n ih =>
    by_cases htruncated : Truncated bs
    · rw [completeFrames_of_truncated htruncated]
      exact List.nil_prefix
    · obtain ⟨more, rfl⟩ := h
      have hwhole : 4 ≤ bs.length ∧ 4 + value (bs.take 4) ≤ bs.length := by
        unfold Truncated at htruncated
        omega
      have htake : (bs ++ more).take 4 = bs.take 4 := List.take_append_of_le_length hwhole.1
      have htruncated' : ¬ Truncated (bs ++ more) := by
        unfold Truncated
        rw [htake, List.length_append]
        omega
      have hrest : bs.drop (4 + value (bs.take 4)) <+:
          (bs ++ more).drop (4 + value (bs.take 4)) := by
        rw [List.drop_append_of_le_length hwhole.2]
        exact List.prefix_append _ _
      have hbody : ((bs ++ more).drop 4).take (value (bs.take 4))
          = (bs.drop 4).take (value (bs.take 4)) := by
        rw [List.drop_append_of_le_length hwhole.1, List.take_append_of_le_length]
        rw [List.length_drop]
        omega
      unfold completeFrames
      rw [split_of_not_truncated htruncated, split_of_not_truncated htruncated', htake, hbody]
      refine (List.prefix_cons_inj _).mpr (ih _ ?_ hrest rfl)
      rw [List.length_drop]
      omega

end Framing
