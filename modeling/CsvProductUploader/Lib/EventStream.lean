import Mathlib.Data.List.Basic
import Mathlib.Tactic.Common

/-!
# Event streams

The format `text/event-stream`: lines that name a field and its value, and an empty line at
the end of every message.  The reader takes one byte after another, so it may be stopped
anywhere; what a message has not yet completed is lost.

## Main definitions

* `Message`, `frame` — a message and its bytes.
* `Reader`, `Reader.next`, `read` — the reader, and the messages that it has dispatched.
* `whole` — the messages whose bytes have all arrived.

## Main results

* `read_frames` — the messages that are written are read.
* `read_take` — of a stream that is cut off, those that are whole.
-/

namespace EventStream

/-- A message: the type of its event, and its data. -/
structure Message where
  event : List UInt8
  data : List UInt8
  deriving DecidableEq, Repr

/-- `event: ` -/
def eventField : List UInt8 := [0x65, 0x76, 0x65, 0x6E, 0x74]

/-- `data: ` -/
def dataField : List UInt8 := [0x64, 0x61, 0x74, 0x61]

/-- A line of a field. -/
def fieldLine (name value : List UInt8) : List UInt8 := name ++ 0x3A :: 0x20 :: value ++ [0x0A]

/-- The bytes of a message. -/
def frame (m : Message) : List UInt8 :=
  fieldLine eventField m.event ++ fieldLine dataField m.data ++ [0x0A]

/-! ### Reading -/

structure Reader where
  /-- The line that is being read. -/
  line : List UInt8
  /-- The last line ended with a carriage return, to which a line feed still belongs. -/
  cr : Bool
  event : List UInt8
  data : List UInt8
  /-- The messages that have been dispatched. -/
  messages : List Message

namespace Reader

def start : Reader := ⟨[], false, [], [], []⟩

/-- The end of a message; without data there is none. -/
def dispatch (r : Reader) : Reader :=
  if r.data = [] then { r with event := [] }
  else
    { r with
      event := []
      data := []
      messages := r.messages ++ [⟨if r.event = [] then [0x6D, 0x65, 0x73, 0x73, 0x61, 0x67, 0x65]
        else r.event, r.data.dropLast⟩] }

/-- A field; those of other names are passed over. -/
def field (r : Reader) (name value : List UInt8) : Reader :=
  if name = eventField then { r with event := value }
  else if name = dataField then { r with data := r.data ++ value ++ [0x0A] }
  else r

/-- A value without the space in front of it. -/
def value : List UInt8 → List UInt8
  | 0x20 :: s => s
  | s => s

/-- The end of a line. -/
def endLine (r : Reader) : Reader :=
  if r.line = [] then r.dispatch
  else
    { r with line := [] }.field (r.line.takeWhile (· ≠ 0x3A))
      (value (r.line.dropWhile (· ≠ 0x3A)).tail)

/-- The next byte. -/
def next (r : Reader) (b : UInt8) : Reader :=
  if b = 0x0A then if r.cr then { r with cr := false } else r.endLine
  else if b = 0x0D then { r.endLine with cr := true }
  else { r with line := r.line ++ [b], cr := false }

end Reader

/-- The messages in a stream. -/
def read (s : List UInt8) : List Message := (s.foldl Reader.next .start).messages

/-- The messages whose bytes are among the first `n`. -/
def whole : ℕ → List Message → List Message
  | _, [] => []
  | n, m :: ms => if (frame m).length ≤ n then m :: whole (n - (frame m).length) ms else []

/-! ### What is written is read -/

/-- Text on one line. -/
def OneLine (s : List UInt8) : Prop := ∀ b ∈ s, b ≠ 0x0A ∧ b ≠ 0x0D

instance (s : List UInt8) : Decidable (OneLine s) :=
  List.decidableBAll _ s

/-- A message that can be written. -/
structure Message.Plain (m : Message) : Prop where
  event_ne_nil : m.event ≠ []
  event : OneLine m.event
  data : OneLine m.data

/-- The reader between two messages. -/
def Reader.between (ms : List Message) : Reader := ⟨[], false, [], [], ms⟩

theorem foldl_oneLine {s : List UInt8} (h : OneLine s) (r : Reader) (hcr : r.cr = false) :
    s.foldl Reader.next r = { r with line := r.line ++ s } := by
  induction s generalizing r with
  | nil => rw [List.append_nil]; rfl
  | cons b s ih =>
    obtain ⟨hlf, hret⟩ := h b List.mem_cons_self
    have hnext : r.next b = { r with line := r.line ++ [b] } := by
      rw [Reader.next, if_neg hlf, if_neg hret, hcr]
    have hrest :=
      ih (fun c hc => h c (List.mem_cons_of_mem b hc)) { r with line := r.line ++ [b] } hcr
    rw [List.foldl_cons, hnext, hrest, List.append_assoc, List.singleton_append]

/-- The line of a field. -/
theorem foldl_fieldLine {name s : List UInt8} (hname : OneLine name) (hcolon : 0x3A ∉ name)
    (hs : OneLine s) (event data : List UInt8) (ms : List Message) :
    (fieldLine name s).foldl Reader.next ⟨[], false, event, data, ms⟩ =
      Reader.field ⟨[], false, event, data, ms⟩ name s := by
  have hline : OneLine (name ++ 0x3A :: 0x20 :: s) := by
    intro b hb
    simp only [List.mem_append, List.mem_cons] at hb
    rcases hb with hb | rfl | rfl | hb
    · exact hname b hb
    · decide
    · decide
    · exact hs b hb
  have hpos : ∀ b ∈ name, decide (b ≠ 0x3A) = true := by
    intro b hb
    exact decide_eq_true fun heq => hcolon (heq ▸ hb)
  -- The name holds no colon, so the line splits at the one behind it.
  have htake : (name ++ 0x3A :: 0x20 :: s).takeWhile (· ≠ 0x3A) = name := by
    rw [List.takeWhile_append_of_pos hpos]
    simp
  have hdrop : (name ++ 0x3A :: 0x20 :: s).dropWhile (· ≠ 0x3A) = 0x3A :: 0x20 :: s := by
    rw [List.dropWhile_append_of_pos hpos]
    simp
  have hnext : ∀ r : Reader, r.cr = false → r.next 0x0A = r.endLine := by
    intro r hcr
    rw [Reader.next, if_pos rfl, hcr]
    rfl
  rw [fieldLine, List.foldl_append, foldl_oneLine hline _ rfl, List.foldl_cons, List.foldl_nil,
    hnext _ rfl, Reader.endLine, if_neg (by simp)]
  simp only [List.nil_append, htake, hdrop, List.tail_cons, Reader.value]

/-- Reading what comes before the empty line of a message. -/
theorem foldl_fields {m : Message} (hm : m.Plain) (ms : List Message) :
    (fieldLine eventField m.event ++ fieldLine dataField m.data).foldl Reader.next
        (.between ms) = ⟨[], false, m.event, m.data ++ [0x0A], ms⟩ := by
  have hevent : OneLine eventField ∧ 0x3A ∉ eventField := by decide
  have hdata : OneLine dataField ∧ 0x3A ∉ dataField := by decide
  rw [List.foldl_append, Reader.between,
    foldl_fieldLine hevent.1 hevent.2 hm.event, Reader.field, if_pos rfl,
    foldl_fieldLine hdata.1 hdata.2 hm.data, Reader.field, if_neg (by decide),
    if_pos rfl, List.nil_append]

/-- A message that is written is read. -/
theorem foldl_frame {m : Message} (hm : m.Plain) (ms : List Message) :
    (frame m).foldl Reader.next (.between ms) = .between (ms ++ [m]) := by
  rw [frame, List.foldl_append, foldl_fields hm]
  simp [Reader.next, Reader.endLine, Reader.dispatch, hm.event_ne_nil, Reader.between]

/-- Whatever is read, the messages that have been dispatched remain. -/
theorem messages_next (r : Reader) (b : UInt8) : r.messages <+: (r.next b).messages := by
  have hdispatch : ∀ r : Reader, r.messages <+: r.dispatch.messages := by
    intro r
    unfold Reader.dispatch
    split
    · exact List.prefix_rfl
    · exact List.prefix_append _ _
  have hfield : ∀ (r : Reader) name s, (r.field name s).messages = r.messages := by
    intro r name s
    unfold Reader.field
    split_ifs <;> rfl
  have hend : r.messages <+: r.endLine.messages := by
    unfold Reader.endLine
    split
    · exact hdispatch r
    · exact (hfield ..).symm ▸ List.prefix_rfl
  unfold Reader.next
  split_ifs
  · exact List.prefix_rfl
  · exact hend
  · exact hend
  · exact List.prefix_rfl

theorem messages_foldl (s : List UInt8) (r : Reader) :
    r.messages <+: (s.foldl Reader.next r).messages := by
  induction s generalizing r with
  | nil => exact List.prefix_rfl
  | cons b s ih => exact (messages_next r b).trans (ih (r.next b))

/-- A message that is cut off is lost. -/
theorem foldl_cut {m : Message} (hm : m.Plain) (ms : List Message) {n : ℕ}
    (hn : n < (frame m).length) :
    (((frame m).take n).foldl Reader.next (.between ms)).messages = ms := by
  set fields := fieldLine eventField m.event ++ fieldLine dataField m.data with hfields
  have hle : n ≤ fields.length := by
    rw [frame, ← hfields, List.length_append, List.length_singleton] at hn
    omega
  have hcut : (frame m).take n = fields.take n := by rw [frame, List.take_append_of_le_length hle]
  have hall : (fields.foldl Reader.next (.between ms)).messages = ms := by rw [foldl_fields hm]
  have hbelow := messages_foldl (fields.take n) (.between ms)
  have habove := messages_foldl (fields.drop n) ((fields.take n).foldl Reader.next (.between ms))
  rw [← List.foldl_append, List.take_append_drop, hall] at habove
  rw [hcut]
  exact habove.eq_of_length_le hbelow.length_le

theorem foldl_frames_take {ms : List Message} (h : ∀ m ∈ ms, m.Plain) (done : List Message)
    (n : ℕ) :
    (((ms.flatMap frame).take n).foldl Reader.next (.between done)).messages =
      done ++ whole n ms := by
  induction ms generalizing done n with
  | nil => simp [whole, Reader.between]
  | cons m ms ih =>
    have hm := h m List.mem_cons_self
    rw [List.flatMap_cons, whole]
    split
    · next hle =>
      rw [List.take_append, List.take_of_length_le hle, List.foldl_append, foldl_frame hm,
        ih (fun m' hm' => h m' (List.mem_cons_of_mem m hm')), List.append_assoc,
        List.singleton_append]
    · next hgt =>
      rw [List.take_append_of_le_length (by omega), foldl_cut hm _ (by omega), List.append_nil]

/-- **Of a stream that is cut off the messages are read that are whole.** -/
theorem read_take {ms : List Message} (h : ∀ m ∈ ms, m.Plain) (n : ℕ) :
    read ((ms.flatMap frame).take n) = whole n ms := foldl_frames_take h [] n

theorem whole_length (ms : List Message) : whole (ms.flatMap frame).length ms = ms := by
  induction ms with
  | nil => rfl
  | cons m ms ih =>
    rw [whole, List.flatMap_cons, List.length_append, if_pos (Nat.le_add_right _ _),
      Nat.add_sub_cancel_left, ih]

/-- **The messages that are written are read.** -/
theorem read_frames {ms : List Message} (h : ∀ m ∈ ms, m.Plain) :
    read (ms.flatMap frame) = ms := by
  rw [← List.take_length (l := ms.flatMap frame), read_take h, whole_length]

/-- Those that are whole are the first ones. -/
theorem whole_isPrefixOf (n : ℕ) (ms : List Message) : whole n ms <+: ms := by
  induction ms generalizing n with
  | nil => exact List.prefix_rfl
  | cons m ms ih =>
    rw [whole]
    split
    · exact List.cons_prefix_cons.mpr ⟨rfl, ih _⟩
    · exact List.nil_prefix

end EventStream
