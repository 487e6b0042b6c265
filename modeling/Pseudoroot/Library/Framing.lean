import Pseudoroot.Library.Bytes

/-! # Length-prefixed frames

A frame is a byte string behind its length, which is written in `k` bytes with the most
significant one first. A reader takes frames from the front of a stream, until the stream
ends inside a frame or a frame does not decode. -/

namespace Framing

variable (k : ℕ)

/-- The frame of a byte string. A length that does not fit in `k` bytes wraps around. -/
def frame (bytes : List UInt8) : List UInt8 := Bytes.toBE k bytes.length ++ bytes

/-- The first `n` bytes, if there are so many. -/
def readExact (n : ℕ) (stream : List UInt8) : Option (List UInt8 × List UInt8) :=
  if n ≤ stream.length then some (stream.take n, stream.drop n) else none

/-- The byte string of the frame at the front of a stream, and what comes after it. -/
def unframe (stream : List UInt8) : Option (List UInt8 × List UInt8) :=
  (readExact k stream).bind fun (header, rest) => readExact (Bytes.ofBE header) rest

theorem readExact_append {n : ℕ} {bytes : List UInt8} (h : bytes.length = n) (rest : List UInt8) :
    readExact n (bytes ++ rest) = some (bytes, rest) := by
  subst h
  simp [readExact]

theorem readExact_eq_some {n : ℕ} {stream bytes rest : List UInt8}
    (h : readExact n stream = some (bytes, rest)) : stream = bytes ++ rest ∧ bytes.length = n := by
  unfold readExact at h
  split at h
  · rename_i hn
    cases h
    exact ⟨(List.take_append_drop n stream).symm, List.length_take_of_le hn⟩
  · cases h

variable {k}

/-- What is read from the front of a frame, when its length wraps around or not. -/
theorem unframe_frame_append (bytes rest : List UInt8) :
    unframe k (frame k bytes ++ rest) =
      readExact (bytes.length % 256 ^ k) (bytes ++ rest) := by
  rw [unframe, frame, List.append_assoc, readExact_append (Bytes.length_toBE k _)]
  simp only [Option.bind_some, Bytes.ofBE_toBE]

theorem unframe_frame {bytes : List UInt8} (h : bytes.length < 256 ^ k) (rest : List UInt8) :
    unframe k (frame k bytes ++ rest) = some (bytes, rest) := by
  rw [unframe_frame_append, Nat.mod_eq_of_lt h, readExact_append rfl]

/-- Only a frame is read as one. -/
theorem unframe_eq_some {stream bytes rest : List UInt8}
    (h : unframe k stream = some (bytes, rest)) :
    stream = frame k bytes ++ rest ∧ bytes.length < 256 ^ k := by
  obtain ⟨⟨header, body⟩, hheader, hbody⟩ := Option.bind_eq_some_iff.mp h
  obtain ⟨rfl, hlength⟩ := readExact_eq_some hheader
  obtain ⟨rfl, hbytes⟩ := readExact_eq_some hbody
  constructor
  · rw [frame, hbytes, ← hlength, Bytes.toBE_ofBE, List.append_assoc]
  · rw [hbytes, ← hlength]
    exact Bytes.ofBE_lt header

theorem length_lt_of_unframe [NeZero k] {stream bytes rest : List UInt8}
    (h : unframe k stream = some (bytes, rest)) : rest.length < stream.length := by
  obtain ⟨rfl, -⟩ := unframe_eq_some h
  have hk := Nat.pos_of_neZero k
  simp only [frame, List.length_append, Bytes.length_toBE]
  omega

@[simp] theorem length_frame (bytes : List UInt8) : (frame k bytes).length = k + bytes.length := by
  rw [frame, List.length_append, Bytes.length_toBE]

/-! ## Streams that are cut off -/

theorem unframe_eq_none_of_length_lt {stream : List UInt8} (h : stream.length < k) :
    unframe k stream = none := by
  have hheader : readExact k stream = none := if_neg (Nat.not_le_of_lt h)
  rw [unframe, hheader, Option.bind_none]

/-- A frame that is cut off is not read. -/
theorem unframe_eq_none_of_isPrefix {stream bytes rest : List UInt8}
    (h : stream <+: frame k bytes ++ rest) (hfits : bytes.length < 256 ^ k)
    (hcut : stream.length < k + bytes.length) : unframe k stream = none := by
  cases hread : unframe k stream with
  | none => rfl
  | some r =>
      obtain ⟨hstream, hlength⟩ := unframe_eq_some hread
      -- Both frames begin with the same length.
      have hheader : Bytes.toBE k r.1.length = Bytes.toBE k bytes.length := by
        have htake := List.prefix_iff_eq_take.mp h
        have hk : k ≤ stream.length := by
          rw [hstream, List.length_append, length_frame]
          omega
        have heq := congrArg (List.take k) htake
        rw [List.take_take, Nat.min_eq_left hk, hstream, frame, frame, List.append_assoc,
          List.append_assoc, List.take_left' (Bytes.length_toBE k _),
          List.take_left' (Bytes.length_toBE k _)] at heq
        exact heq
      have hsame := congrArg Bytes.ofBE hheader
      rw [Bytes.ofBE_toBE, Bytes.ofBE_toBE, Nat.mod_eq_of_lt hlength,
        Nat.mod_eq_of_lt hfits] at hsame
      rw [hstream, List.length_append, length_frame, hsame] at hcut
      omega

/-! ## Reading a stream -/

/-- Reading `stream` gives the values `as` one after the other, and stops before `rest`. -/
inductive Reads {α : Type} (k : ℕ) (decode : List UInt8 → Option α) :
    List UInt8 → List α → List UInt8 → Prop where
  | stop {stream} (h : ∀ bytes rest, unframe k stream = some (bytes, rest) → decode bytes = none) :
    Reads k decode stream [] stream
  | next {stream bytes rest a as rest'} (hframe : unframe k stream = some (bytes, rest))
      (hdecode : decode bytes = some a) :
    Reads k decode rest as rest' → Reads k decode stream (a :: as) rest'

section Reads

variable {α : Type} {decode : List UInt8 → Option α} {stream rest : List UInt8} {as : List α}

/-- Every stream is read in one way only. -/
theorem Reads.unique (h : Reads k decode stream as rest) {as' : List α} {rest' : List UInt8}
    (h' : Reads k decode stream as' rest') : as' = as ∧ rest' = rest := by
  induction h generalizing as' rest' with
  | stop hstop =>
      cases h' with
      | stop => exact ⟨rfl, rfl⟩
      | next hframe hdecode _ =>
          rw [hstop _ _ hframe] at hdecode
          cases hdecode
  | next hframe hdecode _ ih =>
      cases h' with
      | stop hstop =>
          rw [hstop _ _ hframe] at hdecode
          cases hdecode
      | next hframe' hdecode' hrest =>
          rw [hframe] at hframe'
          cases hframe'
          rw [hdecode] at hdecode'
          cases hdecode'
          obtain ⟨rfl, rfl⟩ := ih hrest
          exact ⟨rfl, rfl⟩

theorem exists_reads [NeZero k] (decode : List UInt8 → Option α) (stream : List UInt8) :
    ∃ as rest, Reads k decode stream as rest := by
  induction hn : stream.length using Nat.strong_induction_on generalizing stream with
  | _ n ih =>
      by_cases hstop : ∀ bytes rest, unframe k stream = some (bytes, rest) → decode bytes = none
      · exact ⟨[], stream, .stop hstop⟩
      · push Not at hstop
        obtain ⟨bytes, rest, hframe, hdecode⟩ := hstop
        obtain ⟨a, ha⟩ := Option.ne_none_iff_exists'.mp hdecode
        obtain ⟨as, rest', hrest⟩ := ih rest.length (hn ▸ length_lt_of_unframe hframe) rest rfl
        exact ⟨a :: as, rest', .next hframe ha hrest⟩

/-- What has been read is made of frames that decode, and what is left begins with no
such frame. -/
theorem Reads.split (h : Reads k decode stream as rest) :
    (∃ frames : List (List UInt8), stream = frames.flatMap (frame k) ++ rest ∧
      (∀ bytes ∈ frames, bytes.length < 256 ^ k) ∧ frames.map decode = as.map some) ∧
    ∀ bytes rest', unframe k rest = some (bytes, rest') → decode bytes = none := by
  induction h with
  | stop hstop => exact ⟨⟨[], rfl, by simp, rfl⟩, hstop⟩
  | @next _ bytes _ _ _ _ hframe hdecode _ ih =>
      obtain ⟨⟨frames, hrest, hfits, hdecodes⟩, hstop⟩ := ih
      obtain ⟨rfl, hlength⟩ := unframe_eq_some hframe
      refine ⟨⟨bytes :: frames, ?_, ?_, ?_⟩, hstop⟩
      · rw [hrest, List.flatMap_cons, List.append_assoc]
      · exact List.forall_mem_cons.mpr ⟨hlength, hfits⟩
      · rw [List.map_cons, List.map_cons, hdecode, hdecodes]

/-- Frames that decode are read, whatever follows them. -/
theorem Reads.of_frames {frames : List (List UInt8)} {bs : List α}
    (hfits : ∀ bytes ∈ frames, bytes.length < 256 ^ k) (hdecode : frames.map decode = bs.map some)
    (h : Reads k decode stream as rest) :
    Reads k decode (frames.flatMap (frame k) ++ stream) (bs ++ as) rest := by
  induction frames generalizing bs with
  | nil =>
      obtain rfl : bs = [] := by simpa using hdecode.symm
      exact h
  | cons bytes frames ih =>
      cases bs with
      | nil => cases hdecode
      | cons b bs =>
          rw [List.map_cons, List.map_cons, List.cons.injEq] at hdecode
          rw [List.forall_mem_cons] at hfits
          rw [List.flatMap_cons, List.append_assoc]
          exact .next (unframe_frame hfits.1 _) hdecode.1 (ih hfits.2 hdecode.2)

theorem Reads.isSuffix (h : Reads k decode stream as rest) : rest <:+ stream := by
  obtain ⟨⟨frames, hstream, -⟩, -⟩ := h.split
  exact ⟨_, hstream.symm⟩

/-- No other way to begin a stream with frames that decode goes beyond what is read. -/
theorem Reads.longest [NeZero k] (h : Reads k decode stream as rest)
    {frames : List (List UInt8)} {bs : List α} {rest' : List UInt8}
    (hstream : stream = frames.flatMap (frame k) ++ rest')
    (hfits : ∀ bytes ∈ frames, bytes.length < 256 ^ k) (hdecode : frames.map decode = bs.map some) :
    bs <+: as ∧ rest <:+ rest' := by
  obtain ⟨as', rest'', hrest⟩ := exists_reads (k := k) decode rest'
  have hreads := Reads.of_frames hfits hdecode hrest
  rw [← hstream] at hreads
  obtain ⟨rfl, rfl⟩ := h.unique hreads
  exact ⟨List.prefix_append bs as', hrest.isSuffix⟩

/-- Of a stream of frames that is cut off, a part of the byte strings is read, if the cut
comes before the length of any string that is too long. -/
theorem exists_reads_of_isPrefix [NeZero k] {stream : List UInt8} {frames : List (List UInt8)}
    (h : stream <+: frames.flatMap (frame k))
    (hfits : ∀ before bytes after, frames = before ++ bytes :: after → 256 ^ k ≤ bytes.length →
      stream.length < (before.flatMap (frame k)).length + k) :
    ∃ as rest, Reads k some stream as rest ∧ as <+: frames := by
  induction frames generalizing stream with
  | nil =>
      obtain rfl : stream = [] := List.prefix_nil.mp h
      exact ⟨[], [], .stop fun _ _ hread => absurd (length_lt_of_unframe hread) (Nat.not_lt_zero _),
        List.prefix_rfl⟩
  | cons bytes frames ih =>
      rw [List.flatMap_cons] at h
      by_cases hcut : stream.length < k + bytes.length
      · have hnone : unframe k stream = none := by
          by_cases hlong : 256 ^ k ≤ bytes.length
          · have hlt := hfits [] bytes frames rfl hlong
            exact unframe_eq_none_of_length_lt (by simpa using hlt)
          · exact unframe_eq_none_of_isPrefix h (Nat.lt_of_not_le hlong) hcut
        have hstop : ∀ bytes rest, unframe k stream = some (bytes, rest) → some bytes = none := by
          rw [hnone]
          exact fun _ _ hread => nomatch hread
        exact ⟨[], stream, .stop hstop, List.nil_prefix⟩
      · have hshort : bytes.length < 256 ^ k := by
          by_contra hlong
          have hlt := hfits [] bytes frames rfl (Nat.le_of_not_lt hlong)
          simp only [List.flatMap_nil, List.length_nil] at hlt
          omega
        obtain ⟨rest, rfl⟩ : frame k bytes <+: stream :=
          List.prefix_of_prefix_length_le (List.prefix_append _ _) h (by rw [length_frame]; omega)
        have hrest : rest <+: frames.flatMap (frame k) :=
          (List.prefix_append_right_inj (frame k bytes)).mp h
        have hfits' : ∀ before bytes' after, frames = before ++ bytes' :: after →
            256 ^ k ≤ bytes'.length → rest.length < (before.flatMap (frame k)).length + k := by
          intro before bytes' after hframes hlong
          have hlt := hfits (bytes :: before) bytes' after (by rw [hframes]; rfl) hlong
          rw [List.flatMap_cons, List.length_append, List.length_append] at hlt
          omega
        obtain ⟨as, rest', hreads, has⟩ := ih hrest hfits'
        exact ⟨bytes :: as, rest', .next (unframe_frame hshort rest) rfl hreads,
          List.cons_prefix_cons.mpr ⟨rfl, has⟩⟩

/-! ## The loop of a reader -/

/-- Take frames from the front of a stream, at most `fuel` of them. -/
def readMany (k : ℕ) (decode : List UInt8 → Option α) :
    ℕ → List UInt8 → List α × List UInt8
  | 0, stream => ([], stream)
  | fuel + 1, stream =>
    match unframe k stream with
    | none => ([], stream)
    | some (bytes, rest) =>
      match decode bytes with
      | none => ([], stream)
      | some a =>
        let (as, rest) := readMany k decode fuel rest
        (a :: as, rest)

theorem Reads.readMany_eq [NeZero k] (h : Reads k decode stream as rest) {fuel : ℕ}
    (hfuel : stream.length ≤ fuel) : readMany k decode fuel stream = (as, rest) := by
  induction h generalizing fuel with
  | @stop stream hstop =>
      cases fuel with
      | zero => rfl
      | succ fuel =>
          cases hread : unframe k stream with
          | none => simp only [readMany, hread]
          | some r => simp only [readMany, hread, hstop r.1 r.2 hread]
  | next hframe hdecode _ ih =>
      have hlt := length_lt_of_unframe hframe
      cases fuel with
      | zero => omega
      | succ fuel =>
          have hih := ih (Nat.le_of_lt_succ (hlt.trans_le hfuel))
          simp only [readMany, hframe, hdecode, hih]

end Reads

end Framing
