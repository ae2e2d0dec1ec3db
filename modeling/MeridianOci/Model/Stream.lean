import MeridianOci.Data.Pieces
import MeridianOci.Model.Client

/-!
# The reader of an open blob

`transport/stream.py`: the reader that `open_blob` yields takes chunks from the response as
reads ask for them. What the response raises then comes out of a read as it is.
-/
namespace MeridianOci.Model

open MeridianOci.Data

set_option autoImplicit false

/-- `IteratorReader`; `chunks` and `failure` are what its iterator still delivers and then raises. -/
structure IteratorReader where
  chunks : List Bytes
  failure : Option Err
  buffer : Bytes
  ended : Bool
  closed : Bool

namespace IteratorReader

def new (stream : Stream) : IteratorReader := ⟨stream.chunks, stream.failure, [], false, false⟩

def close (reader : IteratorReader) : IteratorReader := { reader with closed := true }

/-- The loop that fills the buffer, with what it raises. An iterator that has raised is exhausted. -/
def fill (size : Nat) (failure : Option Err) : List Bytes → Bytes → Option Err × IteratorReader
  | [], buffer =>
    if size ≤ buffer.length then (none, ⟨[], failure, buffer, false, false⟩)
    else
      match failure with
      | some error => (some error, ⟨[], none, buffer, false, false⟩)
      | none => (none, ⟨[], none, buffer, true, false⟩)
  | chunk :: rest, buffer =>
    if size ≤ buffer.length then (none, ⟨chunk :: rest, failure, buffer, false, false⟩)
    else fill size failure rest (buffer ++ chunk)

def read (reader : IteratorReader) (size : Int) : Except Err Bytes × IteratorReader :=
  if reader.closed then (.error (.of .valueError "I/O operation on closed registry stream"), reader)
  else if size = 0 then (.ok [], reader)
  else if size < 0 then
    let buffer := reader.buffer ++ reader.chunks.flatten
    match reader.failure with
    | some error => (.error error, { reader with chunks := [], failure := none, buffer })
    | none => (.ok buffer, { reader with chunks := [], buffer := [], ended := true })
  else
    let filled := if reader.ended then (none, reader)
      else fill size.toNat reader.failure reader.chunks reader.buffer
    match filled with
    | (some error, after) => (.error error, after)
    | (none, after) => (.ok (after.buffer.take size.toNat), { after with buffer := after.buffer.drop size.toNat })

/-- The readers that reading and closing lead to. -/
inductive Reached (first : IteratorReader) : IteratorReader → Prop where
  | refl : Reached first first
  | read (reader : IteratorReader) (size : Int) : Reached first reader → Reached first (reader.read size).2
  | close (reader : IteratorReader) : Reached first reader → Reached first reader.close

/-! ## What a read raises -/

theorem fill_raises {size : Nat} {failure : Option Err} {chunks : List Bytes} {buffer : Bytes} {error : Err}
    (h : (fill size failure chunks buffer).1 = some error) : failure = some error := by
  induction chunks generalizing buffer with
  | nil =>
    unfold fill at h
    split at h
    · cases h
    · cases failure with
      | none => cases h
      | some other => exact h
  | cons chunk rest ih =>
    unfold fill at h
    split at h
    · cases h
    · exact ih h

theorem fill_keeps {size : Nat} {failure : Option Err} {chunks : List Bytes} {buffer : Bytes} {error : Err}
    (h : (fill size failure chunks buffer).2.failure = some error) : failure = some error := by
  induction chunks generalizing buffer with
  | nil =>
    unfold fill at h
    split at h
    · exact h
    · cases failure with
      | none => cases h
      | some other => cases h
  | cons chunk rest ih =>
    unfold fill at h
    split at h
    · exact h
    · exact ih h

theorem fill_closed (size : Nat) (failure : Option Err) (chunks : List Bytes) (buffer : Bytes) :
    (fill size failure chunks buffer).2.closed = false := by
  induction chunks generalizing buffer with
  | nil =>
    unfold fill
    split
    · rfl
    · cases failure <;> rfl
  | cons chunk rest ih =>
    unfold fill
    split
    · rfl
    · exact ih _

variable {reader : IteratorReader}

/-- A read of an open reader raises nothing but what its iterator raises. -/
theorem read_raises (hopen : reader.closed = false) {size : Int} {error : Err}
    (h : (reader.read size).1 = .error error) : reader.failure = some error := by
  unfold read at h
  rw [hopen] at h
  simp only [Bool.false_eq_true, if_false] at h
  split at h
  · cases h
  split at h
  · cases hfailure : reader.failure with
    | none =>
      rw [hfailure] at h
      cases h
    | some other =>
      rw [hfailure] at h
      rw [Except.error.inj h]
  · split at h
    · rename_i raised after heq
      obtain rfl := Except.error.inj h
      split at heq
      · cases heq
      · exact fill_raises (congrArg Prod.fst heq)
    · cases h

/-- A read keeps what the iterator will raise, or has got it out. -/
theorem read_keeps {size : Int} {error : Err} (h : (reader.read size).2.failure = some error) :
    reader.failure = some error := by
  unfold read at h
  split at h
  · exact h
  split at h
  · exact h
  split at h
  · cases hfailure : reader.failure with
    | none =>
      rw [hfailure] at h
      simp at h
    | some other =>
      rw [hfailure] at h
      cases h
  · have hfilled : (if reader.ended then (none, reader)
        else fill size.toNat reader.failure reader.chunks reader.buffer).2.failure = some error →
        reader.failure = some error := by
      split
      · exact id
      · exact fill_keeps
    dsimp only at h
    generalize (if reader.ended then (none, reader)
      else fill size.toNat reader.failure reader.chunks reader.buffer) = filled at h hfilled
    obtain ⟨_ | raised, after⟩ := filled
    · exact hfilled h
    · exact hfilled h

theorem read_closed (hopen : reader.closed = false) (size : Int) : (reader.read size).2.closed = false := by
  unfold read
  rw [hopen]
  simp only [Bool.false_eq_true, if_false]
  split
  · exact hopen
  split
  · cases reader.failure <;> rfl
  · have hfilled : (if reader.ended then (none, reader)
        else fill size.toNat reader.failure reader.chunks reader.buffer).2.closed = false := by
      split
      · exact hopen
      · exact fill_closed _ _ _ _
    generalize (if reader.ended then (none, reader)
      else fill size.toNat reader.failure reader.chunks reader.buffer) = filled at hfilled
    obtain ⟨_ | raised, after⟩ := filled
    · exact hfilled
    · exact hfilled

theorem Reached.failure {first : IteratorReader} (h : Reached first reader) {error : Err}
    (hfailure : reader.failure = some error) : first.failure = some error := by
  induction h with
  | refl => exact hfailure
  | read reader size _ ih => exact ih (read_keeps hfailure)
  | close reader _ ih => exact ih hfailure

/-- A read of everything gets the failure out. -/
theorem read_all (hopen : reader.closed = false) {error : Err} (hfailure : reader.failure = some error) :
    (reader.read (-1)).1 = .error error := by
  unfold read
  rw [hopen, hfailure]
  rfl

/-! ## What reads deliver -/

/-- Reads of these sizes one after the other, up to the first that raises. -/
def readEach (reader : IteratorReader) : List Int → Except Err (List Bytes) × IteratorReader
  | [] => (.ok [], reader)
  | size :: sizes =>
    match reader.read size with
    | (.error error, after) => (.error error, after)
    | (.ok result, after) =>
      match after.readEach sizes with
      | (.error error, last) => (.error error, last)
      | (.ok results, last) => (.ok (result :: results), last)

/-- What the reader still has to deliver. -/
def left (reader : IteratorReader) : Bytes := reader.buffer ++ reader.chunks.flatten

/-- An open reader whose iterator raises nothing, and which has ended only with its chunks. -/
structure Sound (reader : IteratorReader) : Prop where
  opened : reader.closed = false
  failure : reader.failure = none
  ended : reader.ended = true → reader.chunks = []

theorem sound_new (chunks : List Bytes) : (new ⟨chunks, none⟩).Sound :=
  ⟨rfl, rfl, fun h => by cases h⟩

/-- The loop moves chunks into the buffer until it is long enough or no chunk is left. -/
theorem fill_spec (size : Nat) (chunks : List Bytes) (buffer : Bytes) :
    ∃ after, fill size none chunks buffer = (none, after) ∧ after.Sound ∧ after.left = buffer ++ chunks.flatten ∧
      (size ≤ after.buffer.length ∨ after.chunks = []) := by
  induction chunks generalizing buffer with
  | nil =>
    unfold fill
    split
    · rename_i hlong
      exact ⟨_, rfl, ⟨rfl, rfl, fun _ => rfl⟩, rfl, .inl hlong⟩
    · exact ⟨_, rfl, ⟨rfl, rfl, fun _ => rfl⟩, rfl, .inr rfl⟩
  | cons chunk rest ih =>
    unfold fill
    split
    · rename_i hlong
      exact ⟨_, rfl, ⟨rfl, rfl, fun h => by cases h⟩, rfl, .inl hlong⟩
    · obtain ⟨after, hfill, hsound, hleft, hend⟩ := ih (buffer ++ chunk)
      refine ⟨after, hfill, hsound, ?_, hend⟩
      rw [hleft, List.flatten_cons, List.append_assoc]

/-- A read takes its piece from what is left. -/
theorem read_spec (h : reader.Sound) (size : Int) : ∃ after, reader.read size = (.ok (takePiece size reader.left), after) ∧
    after.Sound ∧ after.left = dropPiece size reader.left := by
  unfold read
  rw [h.opened, h.failure]
  simp only [Bool.false_eq_true, if_false]
  by_cases hzero : size = 0
  · rw [if_pos hzero, hzero, show (0 : Int) = ((0 : Nat) : Int) from rfl, takePiece_ofNat, dropPiece_ofNat]
    exact ⟨reader, rfl, h, rfl⟩
  rw [if_neg hzero]
  by_cases hneg : size < 0
  · rw [if_pos hneg, takePiece, if_pos hneg, dropPiece_neg hneg]
    exact ⟨_, rfl, ⟨rfl, rfl, fun _ => rfl⟩, rfl⟩
  rw [if_neg hneg]
  obtain ⟨n, rfl⟩ := Int.eq_ofNat_of_zero_le (Int.not_lt.mp hneg)
  -- the buffer that the loop leaves, whether or not it ran
  obtain ⟨filled, hfilled, hsound, hleft, hend⟩ : ∃ filled : IteratorReader,
      (if reader.ended then (none, reader) else fill (n : Int).toNat none reader.chunks reader.buffer) = (none, filled) ∧
        filled.Sound ∧ filled.left = reader.left ∧ (n ≤ filled.buffer.length ∨ filled.chunks = []) := by
    cases hended : reader.ended with
    | true => exact ⟨reader, rfl, h, rfl, .inr (h.ended hended)⟩
    | false => exact fill_spec n reader.chunks reader.buffer
  rw [hfilled, Int.toNat_natCast, takePiece_ofNat, dropPiece_ofNat, ← hleft]
  refine ⟨{ filled with buffer := filled.buffer.drop n }, ?_, ⟨hsound.opened, hsound.failure, hsound.ended⟩, ?_⟩
  · have htake : filled.left.take n = filled.buffer.take n := by
      rcases hend with hlong | hnone
      · exact List.take_append_of_le_length hlong
      · rw [left, hnone, List.flatten_nil, List.append_nil]
    rw [htake]
  · show filled.buffer.drop n ++ filled.chunks.flatten = (filled.buffer ++ filled.chunks.flatten).drop n
    rcases hend with hlong | hnone
    · rw [List.drop_append_of_le_length hlong]
    · rw [hnone, List.flatten_nil, List.append_nil, List.append_nil]

/-- Reads take their pieces one after the other. -/
theorem readEach_pieces (h : reader.Sound) (sizes : List Int) :
    (reader.readEach sizes).1 = .ok (pieces sizes reader.left) := by
  induction sizes generalizing reader with
  | nil => rfl
  | cons size sizes ih =>
    obtain ⟨after, hread, hsound, hleft⟩ := read_spec h size
    have hrest := ih hsound
    rw [readEach, hread, pieces, ← hleft]
    dsimp only
    generalize after.readEach sizes = outcome at hrest
    obtain ⟨results, last⟩ := outcome
    obtain rfl : results = .ok (pieces sizes after.left) := hrest
    rfl

/-- A reader over chunks that come to an end returns from every read, and delivers them in order. -/
theorem reads_faithful (chunks : List Bytes) (sizes : List Int) : ∃ results,
    ((new ⟨chunks, none⟩).readEach sizes).1 = .ok results ∧ Faithful chunks.flatten sizes results :=
  ⟨_, readEach_pieces (sound_new chunks) sizes, faithful_pieces _ _⟩

/-- Zero, a sized, an oversized and an unbounded read. -/
example : ((new ⟨[[97, 98], [], [99, 100, 101]], none⟩).readEach [0, 3, 10, -1]).1 =
    .ok [[], [97, 98, 99], [100, 101], []] := by decide

end IteratorReader

end MeridianOci.Model
