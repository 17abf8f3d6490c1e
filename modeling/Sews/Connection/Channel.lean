import Sews.Cpp.Bytes

/-!
# The plain text channel

A channel owns a descriptor and the response it is sending: `writeBuffer` and
how far into it the kernel has taken bytes.  The constructor leaves
`writeOffset` indeterminate, so a new channel holds some number nobody chose
and `offsetAssigned` says whether the code has stored one since.

`flush` writes until the buffer is sent or a `write` fails.  It is given the
results of its `write` calls in order, and `flush_spec` says what it sends and
what it leaves when the kernel takes at least one byte and at most what it is
offered.
-/

namespace Sews.Connection

open Cpp

/-- A descriptor: an `int`, negative when there is none. -/
abbrev Fd := Int32

/-- What a `write(2)` call returns: a count, or `-1` with `errno` saying that the
socket is full, or `-1` with another `errno`. -/
inductive WriteResult
  | written (count : Nat) | wouldBlock | error
deriving DecidableEq, Repr

/-- `core::connection::event::Write`. -/
inductive Write
  | DONE | WOULDBLOCK | FAILED
deriving DecidableEq, Repr

structure PlainTextChannel where
  fd : Fd
  writeOffset : Nat
  offsetAssigned : Bool := false
  writeBuffer : Bytes := []
deriving DecidableEq, Repr

namespace PlainTextChannel

/-- The buffer is sent: `writeBuffer.clear(); writeOffset = 0;`. -/
def cleared (channel : PlainTextChannel) : PlainTextChannel :=
  { channel with writeBuffer := [], writeOffset := 0, offsetAssigned := true }

/-- `PlainTextChannel::flush`, given the results of its `write` calls: the value
it returns, the channel it leaves, and the bytes the kernel took.  There is no
value while the loop still has to write and no result is left. -/
def flush (channel : PlainTextChannel) : List WriteResult →
    Option (Write × PlainTextChannel × Bytes)
  | [] =>
    if channel.writeOffset < channel.writeBuffer.length then none
    else some (.DONE, channel.cleared, [])
  | result :: results =>
    if channel.writeOffset < channel.writeBuffer.length then
      match result with
      | .wouldBlock => some (.WOULDBLOCK, channel, [])
      | .error => some (.FAILED, channel, [])
      | .written count =>
        match flush { channel with writeOffset := channel.writeOffset + count } results with
        | none => none
        | some (value, channel', bytes) =>
          some (value, channel',
            (channel.writeBuffer.drop channel.writeOffset).take count ++ bytes)
    else some (.DONE, channel.cleared, [])

/-- `getWriteBuffer().assign(...)` and `getWriteOffset() = 0`. -/
def queue (channel : PlainTextChannel) (serialized : Bytes) : PlainTextChannel :=
  { channel with writeBuffer := serialized, writeOffset := 0, offsetAssigned := true }

/-! ### What `flush` sends -/

/-- The results of successive writes, the first of which is offered `n` bytes:
each takes at least one byte and at most what it is offered, or fails. -/
def GoodWrites : Nat → List WriteResult → Prop
  | n, .written count :: results => n = 0 ∨ (1 ≤ count ∧ count ≤ n ∧ GoodWrites (n - count) results)
  | _, _ => True

instance : (n : Nat) → (results : List WriteResult) → Decidable (GoodWrites n results)
  | _, [] => .isTrue trivial
  | n, .written count :: results =>
    have : Decidable (GoodWrites (n - count) results) := instDecidableGoodWrites (n - count) results
    inferInstanceAs (Decidable (n = 0 ∨ (1 ≤ count ∧ count ≤ n ∧ GoodWrites (n - count) results)))
  | _, .wouldBlock :: _ | _, .error :: _ => .isTrue trivial

/-- The bytes still to be sent. -/
def unsent (channel : PlainTextChannel) : Bytes := channel.writeBuffer.drop channel.writeOffset

theorem flush_fd : ∀ (results : List WriteResult) (channel channel' : PlainTextChannel)
    (value : Write) (bytes : Bytes), channel.flush results = some (value, channel', bytes) →
      channel'.fd = channel.fd := by
  intro results
  induction results with
  | nil =>
    intro channel channel' value bytes h
    unfold flush at h
    split at h
    · cases h
    · cases h; rfl
  | cons result results ih =>
    intro channel channel' value bytes h
    unfold flush at h
    split at h
    · cases result with
      | wouldBlock => cases h; rfl
      | error => cases h; rfl
      | written count =>
        dsimp only at h
        split at h
        · cases h
        · rename_i value' channel'' bytes' hrec
          cases h
          exact ih { channel with writeOffset := channel.writeOffset + count } _ _ _ hrec
    · cases h; rfl

/-- **What `flush` sends.**  The bytes taken are the front of those unsent;
`DONE` means all of them, and otherwise the buffer stays and the offset moves
past them, short of the end. -/
theorem flush_spec : ∀ (results : List WriteResult) (channel channel' : PlainTextChannel)
    (value : Write) (bytes : Bytes), channel.writeOffset ≤ channel.writeBuffer.length →
      GoodWrites (channel.writeBuffer.length - channel.writeOffset) results →
      channel.flush results = some (value, channel', bytes) →
      (value = .DONE ∧ channel' = channel.cleared ∧ bytes = channel.unsent) ∨
      (value ≠ .DONE ∧ ∃ count, channel' = { channel with writeOffset := channel.writeOffset + count } ∧
        channel.writeOffset + count < channel.writeBuffer.length ∧
        bytes = channel.unsent.take count) := by
  intro results
  induction results with
  | nil =>
    intro channel channel' value bytes hle _ h
    unfold flush at h
    split at h
    · cases h
    · rename_i hlt
      cases h
      refine Or.inl ⟨rfl, rfl, ?_⟩
      rw [unsent, List.drop_eq_nil_of_le (by omega)]
  | cons result results ih =>
    intro channel channel' value bytes hle hgood h
    unfold flush at h
    split at h
    · rename_i hlt
      cases result with
      | wouldBlock => cases h; exact Or.inr ⟨by decide, 0, rfl, hlt, rfl⟩
      | error => cases h; exact Or.inr ⟨by decide, 0, rfl, hlt, rfl⟩
      | written count =>
        dsimp only at h
        obtain ⟨hpos, hcount, hrest⟩ :
            1 ≤ count ∧ count ≤ channel.writeBuffer.length - channel.writeOffset ∧
              GoodWrites (channel.writeBuffer.length - channel.writeOffset - count) results := by
          rcases hgood with h0 | hg
          · omega
          · exact hg
        split at h
        · cases h
        · rename_i value' channel'' bytes' hrec
          cases h
          have hsplit : channel.unsent
              = channel.unsent.take count ++ channel.writeBuffer.drop (channel.writeOffset + count) := by
            rw [unsent, ← List.drop_drop, List.take_append_drop]
          have hstep := ih { channel with writeOffset := channel.writeOffset + count } channel' value
            bytes' (by show channel.writeOffset + count ≤ channel.writeBuffer.length; omega)
            (by
              show GoodWrites (channel.writeBuffer.length - (channel.writeOffset + count)) results
              rwa [← Nat.sub_sub]) hrec
          rcases hstep with ⟨hv, hc, hb⟩ | ⟨hv, more, hc, hlt', hb⟩
          · refine Or.inl ⟨hv, hc, ?_⟩
            rw [hb, hsplit]
            rfl
          · refine Or.inr ⟨hv, count + more, ?_, ?_, ?_⟩
            · rw [hc, ← Nat.add_assoc]
            · show channel.writeOffset + (count + more) < channel.writeBuffer.length
              have : channel.writeOffset + count + more < channel.writeBuffer.length := hlt'
              omega
            · rw [hb]
              show _ = (channel.writeBuffer.drop channel.writeOffset).take (count + more)
              rw [List.take_add, List.drop_drop]
              rfl
    · rename_i hlt
      cases h
      refine Or.inl ⟨rfl, rfl, ?_⟩
      rw [unsent, List.drop_eq_nil_of_le (by omega)]

end PlainTextChannel
end Sews.Connection
