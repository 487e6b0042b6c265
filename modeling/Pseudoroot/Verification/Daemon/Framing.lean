import Pseudoroot.Model.Wire

/-! # Frames on one stream

What is written with `write_framed` and what is read back with `read_framed`, from the
whole stream and from every part of it that a reader may get. -/

namespace Pseudoroot

open Framing

/-! ## Writing -/

namespace ByteSink

/-- Write byte strings one after the other, until a write fails. -/
def writeFrames (sink : ByteSink) : List (List UInt8) → Bool × ByteSink
  | [] => (true, sink)
  | bytes :: frames =>
    match sink.writeFramed bytes with
    | (true, sink) => sink.writeFrames frames
    | (false, sink) => (false, sink)

/-- Two writes, the second only after the first has succeeded, are one. -/
theorem writeAll_append (sink : ByteSink) (a b : List UInt8) :
    sink.writeAll (a ++ b) =
      match sink.writeAll a with
      | (true, sink) => sink.writeAll b
      | (false, sink) => (false, sink) := by
  by_cases ha : a.length ≤ sink.room
  · have hroom : a.length + b.length ≤ sink.room ↔ b.length ≤ sink.room - a.length := by omega
    simp only [writeAll, ha, decide_true, List.length_append, hroom, List.take_append,
      List.take_of_length_le ha, List.append_assoc, Nat.sub_sub]
  · have hab : ¬ a.length + b.length ≤ sink.room := by omega
    have hrest : sink.room - a.length = 0 := by omega
    have hrest' : sink.room - (a.length + b.length) = 0 := by omega
    simp only [writeAll, ha, hab, decide_false, List.length_append, List.take_append, hrest,
      hrest', List.take_zero, List.append_nil]

theorem writeFramed_eq (sink : ByteSink) (bytes : List UInt8) :
    sink.writeFramed bytes = sink.writeAll (frame 4 bytes) := by
  have hlen : Bytes.toBE 4 (UInt32.ofNat bytes.length).toNat = Bytes.toBE 4 bytes.length := by
    rw [UInt32.toNat_ofNat', ← Bytes.toBE_mod 4 bytes.length]
    rfl
  rw [frame, writeAll_append, ← hlen]
  rfl

/-- Frames written one after the other are one write of all of them. -/
theorem writeFrames_eq (sink : ByteSink) (frames : List (List UInt8)) :
    sink.writeFrames frames = sink.writeAll (frames.flatMap (frame 4)) := by
  induction frames generalizing sink with
  | nil => simp [writeFrames, writeAll]
  | cons bytes frames ih =>
      simp only [writeFrames, writeFramed_eq, ih, List.flatMap_cons, writeAll_append]

end ByteSink

/-! ## Reading -/

/-- Read byte strings until that fails, and what is left of the stream then. -/
def readFrames (stream : List UInt8) : List (List UInt8) × List UInt8 :=
  readMany 4 some stream.length stream

theorem readFramed_eq_unframe (stream : List UInt8) : readFramed stream = unframe 4 stream := rfl

theorem readFrames_eq_of_reads {stream rest : List UInt8} {frames : List (List UInt8)}
    (h : Reads 4 some stream frames rest) : readFrames stream = (frames, rest) :=
  h.readMany_eq (Nat.le_refl _)

/-- The loop ends because a read fails, and every string that it has read fits its length. -/
theorem readFrames_stops (stream : List UInt8) :
    readFramed (readFrames stream).2 = none ∧
      ∀ bytes ∈ (readFrames stream).1, bytes.length < 2 ^ 32 := by
  obtain ⟨frames, rest, hreads⟩ := exists_reads (k := 4) some stream
  obtain ⟨⟨frames', -, hfits, hmap⟩, hstop⟩ := hreads.split
  have hframes : frames' = frames := (List.map_inj_right fun _ _ => Option.some.inj).mp hmap
  rw [readFrames_eq_of_reads hreads]
  constructor
  · apply Option.eq_none_iff_forall_ne_some.mpr
    intro r hread
    cases hstop r.1 r.2 hread
  · intro bytes hbytes
    exact hfits bytes (hframes ▸ hbytes)

/-! ## Both ends -/

/-- The stream has the length prefix of a string, and this is not the length of the string. -/
def Misstated (stream : List UInt8) (frames : List (List UInt8)) : Prop :=
  ∃ before bytes after header rest, frames = before ++ bytes :: after ∧
    stream = before.flatMap (frame 4) ++ header ++ rest ∧ header.length = 4 ∧
    Bytes.ofBE header ≠ bytes.length

/-- What framing promises for byte strings written to a stream that takes `room` bytes. -/
structure FramingHolds (room : ℕ) (frames : List (List UInt8)) : Prop where
  /-- A write that fails has not written a wrong length. -/
  failed : (ByteSink.writeFrames ⟨[], room⟩ frames).1 = false →
    ¬ Misstated (ByteSink.writeFrames ⟨[], room⟩ frames).2.written frames
  /-- When all writes succeed, the strings are read back, up to the end of the stream. -/
  complete : (ByteSink.writeFrames ⟨[], room⟩ frames).1 = true →
    readFrames (ByteSink.writeFrames ⟨[], room⟩ frames).2.written = (frames, [])
  /-- Of a part of the stream, a part of the strings is read before an error. -/
  cut : ∀ stream, stream <+: (ByteSink.writeFrames ⟨[], room⟩ frames).2.written →
    (readFrames stream).1 <+: frames ∧ readFramed (readFrames stream).2 = none

/-- No string of `2 ^ 32` bytes or more gets its length onto the stream. -/
def LengthsFit (room : ℕ) (frames : List (List UInt8)) : Prop :=
  ∀ before bytes after, frames = before ++ bytes :: after → 2 ^ 32 ≤ bytes.length →
    room < (before.flatMap (frame 4)).length + 4

theorem written_isPrefix (room : ℕ) (frames : List (List UInt8)) :
    (ByteSink.writeFrames ⟨[], room⟩ frames).2.written <+: frames.flatMap (frame 4) := by
  rw [ByteSink.writeFrames_eq]
  exact List.take_prefix room _

theorem length_written_le (room : ℕ) (frames : List (List UInt8)) :
    (ByteSink.writeFrames ⟨[], room⟩ frames).2.written.length ≤ room := by
  rw [ByteSink.writeFrames_eq]
  exact List.length_take_le room _

section Both

variable {room : ℕ} {frames : List (List UInt8)}

/-- A wrong length is that of a string that is too long for its length prefix. -/
theorem LengthsFit.not_misstated (h : LengthsFit room frames) :
    ¬ Misstated (ByteSink.writeFrames ⟨[], room⟩ frames).2.written frames := by
  rintro ⟨before, bytes, after, header, rest, hframes, hstream, hlength, hne⟩
  have hprefix := written_isPrefix room frames
  rw [hstream, hframes, List.flatMap_append, List.append_assoc,
    List.prefix_append_right_inj, List.flatMap_cons, frame, List.append_assoc] at hprefix
  have hheader : header = Bytes.toBE 4 bytes.length := by
    have htake := (List.prefix_iff_eq_take.mp ((List.prefix_append header rest).trans hprefix))
    rwa [hlength, List.take_left' (Bytes.length_toBE 4 _)] at htake
  have hlong : 2 ^ 32 ≤ bytes.length := by
    by_contra hshort
    rw [hheader, Bytes.ofBE_toBE] at hne
    exact hne (Nat.mod_eq_of_lt (by omega))
  have hlt := h before bytes after hframes hlong
  have hle := length_written_le room frames
  rw [hstream, List.length_append, List.length_append] at hle
  omega

theorem LengthsFit.readFrames_written (h : LengthsFit room frames)
    (hok : (ByteSink.writeFrames ⟨[], room⟩ frames).1 = true) :
    readFrames (ByteSink.writeFrames ⟨[], room⟩ frames).2.written = (frames, []) := by
  rw [ByteSink.writeFrames_eq] at hok ⊢
  have hroom : (frames.flatMap (frame 4)).length ≤ room := of_decide_eq_true hok
  have hfits : ∀ bytes ∈ frames, bytes.length < 256 ^ 4 := by
    intro bytes hbytes
    by_contra hlong
    obtain ⟨before, after, hframes⟩ := List.append_of_mem hbytes
    have hlt := h before bytes after hframes (by omega)
    rw [hframes, List.flatMap_append, List.flatMap_cons, List.length_append, List.length_append,
      length_frame] at hroom
    omega
  have hstop : Reads 4 some [] ([] : List (List UInt8)) [] :=
    .stop fun _ _ hread => absurd (length_lt_of_unframe hread) (Nat.not_lt_zero _)
  have hreads := Reads.of_frames hfits rfl hstop
  rw [List.append_nil, List.append_nil] at hreads
  have hwritten : (ByteSink.writeAll ⟨[], room⟩ (frames.flatMap (frame 4))).2.written =
      frames.flatMap (frame 4) := List.take_of_length_le hroom
  rw [hwritten]
  exact readFrames_eq_of_reads hreads

theorem LengthsFit.framingHolds (h : LengthsFit room frames) : FramingHolds room frames where
  failed _ := h.not_misstated
  complete := h.readFrames_written
  cut stream hstream := by
    have hlength := hstream.length_le.trans (length_written_le room frames)
    obtain ⟨as, rest, hreads, has⟩ := exists_reads_of_isPrefix
      (hstream.trans (written_isPrefix room frames)) fun before bytes after hframes hlong =>
        lt_of_le_of_lt hlength (h before bytes after hframes hlong)
    refine ⟨?_, (readFrames_stops stream).1⟩
    rw [readFrames_eq_of_reads hreads]
    exact has

theorem FramingHolds.lengthsFit (h : FramingHolds room frames) : LengthsFit room frames := by
  intro before bytes after hframes hlong
  by_contra hroom
  cases hok : (ByteSink.writeFrames ⟨[], room⟩ frames).1 with
  | true =>
      -- Every string that can be read at all is short.
      have hread := h.complete hok
      have hshort := (readFrames_stops _).2 bytes
        (by rw [hread, hframes]; exact List.mem_append_right before List.mem_cons_self)
      omega
  | false =>
      have hprefix : before.flatMap (frame 4) ++ Bytes.toBE 4 bytes.length <+:
          (ByteSink.writeFrames ⟨[], room⟩ frames).2.written := by
        rw [ByteSink.writeFrames_eq, hframes, List.flatMap_append, List.flatMap_cons, frame]
        apply List.prefix_take_iff.mpr
        constructor
        · rw [List.prefix_append_right_inj, List.append_assoc]
          exact List.prefix_append _ _
        · show (before.flatMap (frame 4) ++ Bytes.toBE 4 bytes.length).length ≤ room
          rw [List.length_append, Bytes.length_toBE]
          omega
      obtain ⟨rest, hrest⟩ := hprefix
      apply h.failed hok
      refine ⟨before, bytes, after, Bytes.toBE 4 bytes.length, rest, hframes, hrest.symm,
        Bytes.length_toBE 4 _, ?_⟩
      have hlt := Nat.mod_lt bytes.length (Nat.two_pow_pos 32)
      rw [Bytes.ofBE_toBE]
      omega

end Both

/-- Framing is lossless for exactly the lists whose lengths fit. -/
theorem framing_lossless_iff (room : ℕ) (frames : List (List UInt8)) :
    FramingHolds room frames ↔ LengthsFit room frames :=
  ⟨FramingHolds.lengthsFit, LengthsFit.framingHolds⟩

/-- A string of `2 ^ 32` bytes is written behind the length zero. -/
theorem framing_wraps : ¬ FramingHolds (2 ^ 33) [List.replicate (2 ^ 32) 0] := by
  intro h
  have hlong : 2 ^ 32 ≤ (List.replicate (2 ^ 32) (0 : UInt8)).length := by
    rw [List.length_replicate]
  have hroom := h.lengthsFit [] (List.replicate (2 ^ 32) 0) [] rfl hlong
  rw [List.flatMap_nil, List.length_nil] at hroom
  omega

/-! ## Messages in frames -/

theorem framed_eq_frame (bytes : List UInt8) : framed bytes = frame 4 bytes := by
  rw [framed, frame, UInt32.toNat_ofNat', ← Bytes.toBE_mod 4 bytes.length]
  rfl

/-- The frame is what the writer puts on the stream. -/
theorem ByteSink.writeFramed_eq_framed (sink : ByteSink) (bytes : List UInt8) :
    sink.writeFramed bytes = sink.writeAll (framed bytes) := by
  rw [writeFramed_eq, framed_eq_frame]

theorem readFramed_nil : readFramed [] = none := by
  rw [readFramed_eq_unframe]
  exact unframe_eq_none_of_length_lt (by simp)

namespace MessageCodec

variable {codec : MessageCodec} {message : ProtocolMessage}

theorem framed_ne_nil (codec : MessageCodec) (message : ProtocolMessage) :
    codec.framed message ≠ [] := by
  intro h
  have hlength := congrArg List.length h
  rw [framed, framed_eq_frame, length_frame, List.length_nil] at hlength
  omega

theorem Carries.readFramed_framed (h : codec.Carries message) :
    readFramed (codec.framed message) = some (codec.toBytes message, []) := by
  have hread := unframe_frame (k := 4) h.length_lt []
  rwa [List.append_nil, ← framed_eq_frame, ← readFramed_eq_unframe] at hread

/-- Nothing is read of a frame that is not all there. -/
theorem Carries.readFramed_of_cut (h : codec.Carries message) {stream rest : List UInt8}
    (hframe : stream ++ rest = codec.framed message) (hrest : rest ≠ []) :
    readFramed stream = none := by
  have hcut : stream.length < (codec.framed message).length := by
    rw [← hframe, List.length_append]
    exact Nat.lt_add_of_pos_right (List.length_pos_iff.mpr hrest)
  have hprefix : stream <+: codec.framed message := ⟨rest, hframe⟩
  rw [framed, framed_eq_frame] at hprefix hcut
  rw [length_frame] at hcut
  rw [← List.append_nil (frame 4 _)] at hprefix
  rw [readFramed_eq_unframe]
  exact unframe_eq_none_of_isPrefix hprefix h.length_lt hcut

end MessageCodec

end Pseudoroot
