import Mathlib.Algebra.GroupWithZero.Nat
import Sews.Connection.Channel

/-!
# Sending over several calls

`flush_spec` is about one call.  A call that finds the socket full leaves the
buffer and how far it came, and the next call goes on from there.  `Flushes` is a
series of calls that ends in `DONE`; whatever its calls were offered and took, it
sends what one call sends that is never interrupted.
-/

namespace Sews.Connection.PlainTextChannel

open Cpp

variable {channel channel' : PlainTextChannel} {results : List WriteResult} {value : Write}
  {bytes : Bytes}

theorem length_unsent (channel : PlainTextChannel) :
    channel.unsent.length = channel.writeBuffer.length - channel.writeOffset := List.length_drop

theorem unsent_cleared (channel : PlainTextChannel) : channel.cleared.unsent = [] := rfl

/-- Calls of `flush` one after the other, all but the last of them interrupted by a
full socket, and the bytes the kernel took in all of them. -/
inductive Flushes : PlainTextChannel → PlainTextChannel → Bytes → Prop
  | done {channel channel' : PlainTextChannel} {results : List WriteResult} {bytes : Bytes}
      (good : GoodWrites channel.unsent.length results)
      (call : channel.flush results = some (.DONE, channel', bytes)) : Flushes channel channel' bytes
  | again {channel channel' channel'' : PlainTextChannel} {results : List WriteResult}
      {bytes more : Bytes} (good : GoodWrites channel.unsent.length results)
      (call : channel.flush results = some (.WOULDBLOCK, channel', bytes))
      (later : Flushes channel' channel'' more) : Flushes channel channel'' (bytes ++ more)

/-- **A call ends** after at most one write for each byte. -/
theorem flush_isSome : ∀ (results : List WriteResult) (channel : PlainTextChannel),
    GoodWrites channel.unsent.length results → channel.unsent.length ≤ results.length →
      (channel.flush results).isSome := by
  intro results
  induction results with
  | nil =>
    intro channel _ hlen
    rw [length_unsent, List.length_nil] at hlen
    rw [flush, if_neg (by omega)]
    rfl
  | cons result results ih =>
    intro channel hgood hlen
    unfold flush
    split
    · rename_i hlt
      cases result with
      | wouldBlock => rfl
      | error => rfl
      | written count =>
        rw [length_unsent] at hgood hlen
        rw [List.length_cons] at hlen
        -- the write took a byte, so the rest needs one result less
        obtain ⟨hpos, -, hrest⟩ := hgood.resolve_left (by omega)
        have hoffset : ({ channel with writeOffset := channel.writeOffset + count } :
            PlainTextChannel).unsent.length = channel.writeBuffer.length - channel.writeOffset - count := by
          rw [length_unsent, Nat.sub_sub]
        have hsome := ih { channel with writeOffset := channel.writeOffset + count }
          (by rw [hoffset]; exact hrest) (by rw [hoffset]; omega)
        obtain ⟨⟨value, channel', bytes⟩, hcall⟩ := Option.isSome_iff_exists.mp hsome
        dsimp only
        rw [hcall]
        rfl
    · rfl

/-- **A call loses nothing**, and `DONE` means that nothing is left. -/
theorem flush_keeps (hle : channel.writeOffset ≤ channel.writeBuffer.length)
    (hgood : GoodWrites channel.unsent.length results)
    (h : channel.flush results = some (value, channel', bytes)) :
    bytes ++ channel'.unsent = channel.unsent ∧ (value = .DONE ↔ channel'.unsent = []) ∧
      (value = .DONE → channel'.writeBuffer = [] ∧ channel'.writeOffset = 0) ∧
      (value ≠ .DONE → channel'.writeBuffer = channel.writeBuffer ∧
        channel'.writeOffset < channel'.writeBuffer.length) := by
  rw [length_unsent] at hgood
  rcases flush_spec results channel channel' value bytes hle hgood h with
    ⟨hdone, rfl, rfl⟩ | ⟨hdone, count, rfl, hlt, rfl⟩
  · refine ⟨?_, iff_of_true hdone (unsent_cleared channel), fun _ => ⟨rfl, rfl⟩,
      fun hne => absurd hdone hne⟩
    rw [unsent_cleared, List.append_nil]
  · have hrest : ({ channel with writeOffset := channel.writeOffset + count } : PlainTextChannel).unsent
        = channel.unsent.drop count := by
      rw [unsent, unsent, List.drop_drop]
    have hne : channel.unsent.drop count ≠ [] := by
      rw [← List.length_pos_iff, List.length_drop, length_unsent]
      omega
    rw [hrest]
    exact ⟨List.take_append_drop _ _, iff_of_false hdone hne, fun hd => absurd hd hdone,
      fun _ => ⟨rfl, hlt⟩⟩

/-- What ended a call whose writes had the results `rest` to come: the buffer was sent, or
the next write is refused, because the socket is full or for another reason. -/
def EndedBy : Write → List WriteResult → Prop
  | .DONE, _ => True
  | .WOULDBLOCK, rest => rest.head? = some .wouldBlock
  | .FAILED, rest => rest.head? = some .error

/-- **A call sends what its writes take**, up to the first that is refused. -/
theorem flush_writes : ∀ (results : List WriteResult) (channel channel' : PlainTextChannel) (value : Write)
    (bytes : Bytes), GoodWrites channel.unsent.length results →
      channel.flush results = some (value, channel', bytes) →
      ∃ (counts : List Nat) (rest : List WriteResult), results = counts.map .written ++ rest ∧
        bytes.length = counts.sum ∧ EndedBy value rest := by
  intro results
  induction results with
  | nil =>
    intro channel channel' value bytes _ h
    unfold flush at h
    split at h
    · cases h
    · cases h
      exact ⟨[], [], rfl, rfl, trivial⟩
  | cons result results ih =>
    intro channel channel' value bytes hgood h
    unfold flush at h
    split at h
    · rename_i hlt
      cases result with
      | wouldBlock => cases h; exact ⟨[], _, rfl, rfl, rfl⟩
      | error => cases h; exact ⟨[], _, rfl, rfl, rfl⟩
      | written count =>
        rw [length_unsent] at hgood
        obtain ⟨-, hcount, hrest⟩ := hgood.resolve_left (by omega)
        dsimp only at h
        split at h
        · cases h
        · rename_i value' channel'' bytes' hrec
          cases h
          have hgood' : GoodWrites ({ channel with writeOffset := channel.writeOffset + count } :
              PlainTextChannel).unsent.length results := by
            rw [length_unsent]
            show GoodWrites (channel.writeBuffer.length - (channel.writeOffset + count)) results
            rwa [← Nat.sub_sub]
          obtain ⟨counts, rest, rfl, hlength, hended⟩ := ih _ _ _ _ hgood' hrec
          refine ⟨count :: counts, rest, rfl, ?_, hended⟩
          rw [List.length_append, hlength, List.length_take, List.length_drop, List.sum_cons]
          omega
    · cases h
      exact ⟨[], _, rfl, rfl, trivial⟩

theorem flush_takes {count : Nat} (hgood : GoodWrites channel.unsent.length (.written count :: results))
    (hne : channel.unsent ≠ []) (h : channel.flush (.written count :: results) = some (value, channel', bytes)) :
    bytes ≠ [] := by
  have hpos : 0 < channel.unsent.length := List.length_pos_iff.mpr hne
  have hcount : 1 ≤ count ∧ count ≤ channel.unsent.length := by
    rcases hgood with h0 | ⟨h1, h2, -⟩
    · omega
    · exact ⟨h1, h2⟩
  rw [length_unsent] at hpos
  rw [flush, if_pos (by omega)] at h
  split at h
  · cases h
  · rename_i more _
    cases h
    intro hnil
    have hlength : (channel.unsent.take count).length = 0 :=
      List.length_eq_zero_iff.mpr (List.append_eq_nil_iff.mp hnil).1
    rw [List.length_take] at hlength
    omega

theorem flush_done (hle : channel.writeOffset ≤ channel.writeBuffer.length)
    (hgood : GoodWrites channel.unsent.length results)
    (h : channel.flush results = some (.DONE, channel', bytes)) :
    channel' = channel.cleared ∧ bytes = channel.unsent := by
  rw [length_unsent] at hgood
  rcases flush_spec results channel channel' _ bytes hle hgood h with ⟨-, hc, hb⟩ | ⟨hne, -⟩
  · exact ⟨hc, hb⟩
  · exact absurd rfl hne

/-- **A series of calls sends what is unsent at its start.** -/
theorem Flushes.spec (h : Flushes channel channel' bytes) :
    channel.writeOffset ≤ channel.writeBuffer.length →
      channel' = channel.cleared ∧ bytes = channel.unsent := by
  induction h with
  | done good call => exact fun hle => flush_done hle good call
  | @again channel channel' channel'' results bytes more good call _ ih =>
    intro hle
    rw [length_unsent] at good
    rcases flush_spec results channel channel' _ bytes hle good call with
      ⟨hdone, -⟩ | ⟨-, count, rfl, hlt, rfl⟩
    · cases hdone
    · obtain ⟨hc, rfl⟩ := ih (Nat.le_of_lt hlt)
      refine ⟨hc, ?_⟩
      rw [unsent, unsent, ← List.drop_drop, List.take_append_drop]

theorem flush_at_once (channel : PlainTextChannel) :
    ∃ results, GoodWrites channel.unsent.length results ∧
      channel.flush results = some (.DONE, channel.cleared, channel.unsent) := by
  by_cases hlt : channel.writeOffset < channel.writeBuffer.length
  · refine ⟨[.written channel.unsent.length], ?_, ?_⟩
    · rw [length_unsent]
      exact Or.inr ⟨by omega, Nat.le_refl _, trivial⟩
    · have hend : channel.writeOffset + channel.unsent.length = channel.writeBuffer.length := by
        rw [length_unsent]
        omega
      have hall : (channel.writeBuffer.drop channel.writeOffset).take channel.unsent.length ++ []
          = channel.unsent := by
        rw [List.append_nil]
        exact List.take_length
      rw [flush, if_pos hlt, flush, if_neg (by rw [hend]; exact lt_irrefl _)]
      dsimp only
      rw [hall]
      rfl
  · refine ⟨[], trivial, ?_⟩
    have hnil : channel.unsent = [] := List.drop_eq_nil_of_le (Nat.le_of_not_lt hlt)
    rw [flush, if_neg hlt, hnil]

/-- **`flush` can be resumed and loses nothing.**  A call ends; it sends as many bytes as its
writes take, from the front of those unsent, and a refused write decides between
`WOULDBLOCK` and `FAILED`; and a series of calls sends what one call sends. -/
theorem flush_resumes {channel : PlainTextChannel}
    (hle : channel.writeOffset ≤ channel.writeBuffer.length) :
    (∀ results, GoodWrites channel.unsent.length results →
      channel.unsent.length ≤ results.length → (channel.flush results).isSome) ∧
    (∀ results value channel' bytes, GoodWrites channel.unsent.length results →
      channel.flush results = some (value, channel', bytes) →
        bytes ++ channel'.unsent = channel.unsent ∧ (value = .DONE ↔ channel'.unsent = []) ∧
        (value = .DONE → channel'.writeBuffer = [] ∧ channel'.writeOffset = 0) ∧
        (value ≠ .DONE → channel'.writeBuffer = channel.writeBuffer ∧
          channel'.writeOffset < channel'.writeBuffer.length) ∧
        ∃ (counts : List Nat) (rest : List WriteResult), results = counts.map .written ++ rest ∧
          bytes.length = counts.sum ∧ EndedBy value rest) ∧
    (∀ channel' bytes, Flushes channel channel' bytes →
      (∀ results channel'' bytes', GoodWrites channel.unsent.length results →
        channel.flush results = some (.DONE, channel'', bytes') →
          bytes' = bytes ∧ channel'' = channel') ∧
      ∃ results, GoodWrites channel.unsent.length results ∧
        channel.flush results = some (.DONE, channel', bytes)) := by
  refine ⟨fun results => flush_isSome results channel, fun results value channel' bytes hgood h => ?_,
    fun channel' bytes h => ?_⟩
  · obtain ⟨hkeeps, hdone, hcleared, hkept⟩ := flush_keeps hle hgood h
    exact ⟨hkeeps, hdone, hcleared, hkept, flush_writes results channel channel' value bytes hgood h⟩
  obtain ⟨rfl, rfl⟩ := h.spec hle
  refine ⟨fun results channel'' bytes' hgood hcall => ?_, flush_at_once channel⟩
  obtain ⟨hc, hb⟩ := flush_done hle hgood hcall
  exact ⟨hb, hc⟩

/-- Five bytes, of which two are sent, and then one, two and none more. -/
theorem flush_resumes_partial :
    ∃ channel : PlainTextChannel, channel.unsent = ascii "cde" ∧
      Flushes channel channel.cleared (ascii "cde") ∧
      (channel.flush [.written 1, .written 2, .wouldBlock]).isSome ∧
      ∃ results, channel.flush results = some (.DONE, channel.cleared, ascii "cde") := by
  have hle : (⟨4, 2, true, ascii "abcde"⟩ : PlainTextChannel).writeOffset
      ≤ (⟨4, 2, true, ascii "abcde"⟩ : PlainTextChannel).writeBuffer.length := by decide +kernel
  obtain ⟨hends, -, hseries⟩ := flush_resumes hle
  have hfirst : (⟨4, 2, true, ascii "abcde"⟩ : PlainTextChannel).flush [.written 1, .wouldBlock]
      = some (.WOULDBLOCK, ⟨4, 3, true, ascii "abcde"⟩, ascii "c") := by decide +kernel
  have hsecond : (⟨4, 3, true, ascii "abcde"⟩ : PlainTextChannel).flush [.written 2]
      = some (.DONE, ⟨4, 0, true, []⟩, ascii "de") := by decide +kernel
  have hflushes := Flushes.again (by decide +kernel) hfirst (.done (by decide +kernel) hsecond)
  obtain ⟨-, results, -, hcall⟩ := hseries _ _ hflushes
  exact ⟨_, by decide +kernel, hflushes, hends _ (by decide +kernel) (by decide +kernel), results, hcall⟩

end Sews.Connection.PlainTextChannel
