import Mathlib.Data.List.Forall2
import Mathlib.Data.List.Infix

/-!
# Streams of self-delimiting texts

A reader takes one message off the front of a stream, or says that the message is not
all there yet.  It is `Stable` if it looks at nothing behind the message.  A text that
a stable reader takes as a whole is `Framed`: a longer stream that begins with it is
read the same, and a shorter one is not read at all.

`readAll` reads a stream message by message.  Of a stream of framed texts that is cut
anywhere it reads the messages that are whole, in order, and leaves the beginning of the
next one (`readAll_prefix`), so the texts of a stream are known from the stream
(`flatten_injective`).
-/

variable {α β : Type*}

/-- The reader does not look behind the message it takes. -/
def Stable (read : List α → Option (β × List α)) : Prop :=
  ∀ stream value rest more, read stream = some (value, rest) →
    read (stream ++ more) = some (value, rest ++ more)

/-- The text is one message, and all of it. -/
def Framed (read : List α → Option (β × List α)) (text : List α) (value : β) : Prop :=
  text ≠ [] ∧ read text = some (value, [])

namespace Framed

variable {read : List α → Option (β × List α)} {text text' : List α} {value value' : β}

theorem append (hread : Stable read) (h : Framed read text value) (rest : List α) :
    read (text ++ rest) = some (value, rest) := hread text value [] rest h.2

theorem of_prefix (hread : Stable read) (h : Framed read text value) {front : List α}
    (hfront : front <+: text) (hne : front ≠ text) : read front = none := by
  obtain ⟨more, rfl⟩ := hfront
  cases hf : read front with
  | none => rfl
  | some taken =>
    -- what is behind the message would be left over
    have hall := hread front taken.1 taken.2 more hf
    rw [h.2] at hall
    have hnil : taken.2 ++ more = [] := by
      injection hall with hpair
      exact (Prod.mk.inj hpair).2.symm
    rw [(List.append_eq_nil_iff.mp hnil).2, List.append_nil] at hne
    exact absurd rfl hne

/-- **No message begins with another one.** -/
theorem eq_of_prefix (hread : Stable read) (h : Framed read text value) (h' : Framed read text' value')
    {stream : List α} (hp : text <+: stream) (hp' : text' <+: stream) :
    text = text' ∧ value = value' := by
  obtain ⟨rest, rfl⟩ := hp
  obtain ⟨rest', heq⟩ := hp'
  have hsame := h'.append hread rest'
  rw [heq, h.append hread rest] at hsame
  obtain ⟨rfl, rfl⟩ := Prod.mk.inj (Option.some.inj hsame)
  exact ⟨(List.append_cancel_right heq).symm, rfl⟩

end Framed

/-! ### Reading a stream -/

/-- Reads at most `n` messages. -/
def readMany (read : List α → Option (β × List α)) : Nat → List α → List β × List α
  | 0, stream => ([], stream)
  | n + 1, stream =>
    match read stream with
    | none => ([], stream)
    | some (value, rest) => (value :: (readMany read n rest).1, (readMany read n rest).2)

/-- Reads all messages that are whole.  There are no more of them than elements. -/
def readAll (read : List α → Option (β × List α)) (stream : List α) : List β × List α :=
  readMany read stream.length stream

section
variable {read : List α → Option (β × List α)} {texts texts' : List (List α)} {values values' : List β}

theorem readMany_none {stream : List α} (h : read stream = none) (n : Nat) :
    readMany read n stream = ([], stream) := by
  cases n with
  | zero => rfl
  | succ n => rw [readMany, h]

/-- What a stream of messages is read as that is cut after the `k`-th message and `part`
of the next one. -/
def CutAfter (texts : List (List α)) (k : Nat) (part : List α) : Prop :=
  k ≤ texts.length ∧ (k = texts.length → part = []) ∧
    ∀ text ∈ texts[k]?, part <+: text ∧ part ≠ text

/-- **Reading a stream that is cut.**  The induction is on the messages; each takes at
least one element of the stream, so the bound on their number is no restriction. -/
theorem readMany_prefix (hread : Stable read) (hnil : read [] = none)
    (h : List.Forall₂ (Framed read) texts values) : ∀ {stream : List α} {n : Nat},
      stream <+: texts.flatten → stream.length ≤ n →
      ∃ k part, CutAfter texts k part ∧ stream = (texts.take k).flatten ++ part ∧
        readMany read n stream = (values.take k, part) := by
  induction h with
  | nil =>
    intro stream n hp _
    obtain rfl := List.prefix_nil.mp hp
    exact ⟨0, [], ⟨Nat.le_refl 0, fun _ => rfl, fun text htext => by cases htext⟩, rfl,
      readMany_none hnil n⟩
  | @cons text value texts values hframed _ ih =>
    intro stream n hp hn
    by_cases hwhole : text <+: stream
    · obtain ⟨rest, rfl⟩ := hwhole
      have hrest : rest <+: texts.flatten := by
        rwa [List.flatten_cons, List.prefix_append_right_inj] at hp
      have hlength : 0 < text.length := List.length_pos_iff.mpr hframed.1
      rw [List.length_append] at hn
      obtain ⟨m, rfl⟩ : ∃ m, n = m + 1 := ⟨n - 1, by omega⟩
      obtain ⟨k, part, ⟨hle, hend, hnext⟩, hstream, hmany⟩ := ih hrest (n := m) (by omega)
      refine ⟨k + 1, part, ⟨Nat.succ_le_succ hle, fun heq => hend (Nat.succ.inj heq), ?_⟩, ?_, ?_⟩
      · simpa using hnext
      · rw [hstream, List.take_succ_cons, List.flatten_cons, List.append_assoc]
      · rw [readMany, hframed.append hread rest]
        dsimp only
        rw [hmany, List.take_succ_cons]
    · -- the stream ends within the first message
      rw [List.flatten_cons] at hp
      have hpart : stream <+: text :=
        (List.prefix_or_prefix_of_prefix hp (List.prefix_append text _)).resolve_right hwhole
      have hne : stream ≠ text := by
        rintro rfl
        exact hwhole List.prefix_rfl
      have hcut : CutAfter (text :: texts) 0 stream :=
        ⟨Nat.zero_le _, fun heq => absurd heq (Nat.zero_ne_add_one _), fun text' htext => by
          obtain rfl := Option.some.inj htext
          exact ⟨hpart, hne⟩⟩
      exact ⟨0, stream, hcut, rfl, readMany_none (hframed.of_prefix hread hpart hne) n⟩

/-- A stream of messages that is cut is read up to the cut. -/
theorem readAll_prefix (hread : Stable read) (hnil : read [] = none)
    (h : List.Forall₂ (Framed read) texts values) {stream : List α} (hp : stream <+: texts.flatten) :
    ∃ k part, CutAfter texts k part ∧ stream = (texts.take k).flatten ++ part ∧
      readAll read stream = (values.take k, part) :=
  readMany_prefix hread hnil h hp (Nat.le_refl _)

/-- A stream that has the first `j` messages is not cut before the `j`-th one. -/
theorem CutAfter.le_of_prefix {k j : Nat} {part : List α} (hc : CutAfter texts k part)
    (hj : j ≤ texts.length) (hp : (texts.take j).flatten <+: (texts.take k).flatten ++ part) : j ≤ k := by
  by_contra hlt
  obtain ⟨hpart, hne⟩ := hc.2.2 texts[k] (List.getElem?_eq_getElem (by omega))
  -- the next message would be there, within its own beginning
  have hnext : texts.take (k + 1) <+: texts.take j := List.take_prefix_take_left (by omega)
  have hmore : (texts.take k).flatten ++ texts[k] <+: (texts.take k).flatten ++ part := by
    obtain ⟨rest, hrest⟩ := hnext
    rw [← hrest, List.take_succ_eq_append_getElem (by omega), List.flatten_append, List.flatten_append,
      List.flatten_singleton] at hp
    exact (List.prefix_append _ _).trans hp
  rw [List.prefix_append_right_inj] at hmore
  exact hne (hpart.eq_of_length_le hmore.length_le)

theorem CutAfter.eq_length {k : Nat} {part : List α} (hc : CutAfter texts k part)
    (heq : texts.flatten = (texts.take k).flatten ++ part) : k = texts.length ∧ part = [] := by
  have hle : texts.length ≤ k := hc.le_of_prefix le_rfl (by rw [List.take_length, heq])
  have hk := Nat.le_antisymm hc.1 hle
  exact ⟨hk, hc.2.1 hk⟩

/-- **A stream of whole messages is read as these messages.** -/
theorem readAll_flatten (hread : Stable read) (hnil : read [] = none)
    (h : List.Forall₂ (Framed read) texts values) : readAll read texts.flatten = (values, []) := by
  obtain ⟨k, part, hc, hstream, hall⟩ := readAll_prefix hread hnil h List.prefix_rfl
  obtain ⟨rfl, rfl⟩ := hc.eq_length hstream
  rw [hall, h.length_eq, List.take_length]

/-- **Messages that are there are read**, whatever comes behind them. -/
theorem readMany_append (hread : Stable read) (h : List.Forall₂ (Framed read) texts values)
    (rest : List α) : ∀ {n : Nat}, (texts.flatten ++ rest).length ≤ n →
      values <+: (readMany read n (texts.flatten ++ rest)).1 := by
  induction h with
  | nil => exact fun _ => List.nil_prefix
  | @cons text value texts values hframed _ ih =>
    intro n hn
    have hlength : 0 < text.length := List.length_pos_iff.mpr hframed.1
    rw [List.flatten_cons, List.append_assoc, List.length_append] at hn
    obtain ⟨m, rfl⟩ : ∃ m, n = m + 1 := ⟨n - 1, by omega⟩
    rw [List.flatten_cons, List.append_assoc, readMany, hframed.append hread]
    exact List.cons_prefix_cons.mpr ⟨rfl, ih (by omega)⟩

theorem readAll_append (hread : Stable read) (h : List.Forall₂ (Framed read) texts values)
    {stream : List α} (hp : texts.flatten <+: stream) : values <+: (readAll read stream).1 := by
  obtain ⟨rest, rfl⟩ := hp
  exact readMany_append hread h rest (Nat.le_refl _)

/-- **The messages of a stream are known from the stream.** -/
theorem flatten_injective (hread : Stable read) (h : List.Forall₂ (Framed read) texts values) :
    ∀ {texts' : List (List α)} {values' : List β}, List.Forall₂ (Framed read) texts' values' →
      texts.flatten = texts'.flatten → texts = texts' ∧ values = values' := by
  induction h with
  | nil =>
    intro texts' values' h' heq
    cases h' with
    | nil => exact ⟨rfl, rfl⟩
    | cons hframed _ => exact absurd (List.append_eq_nil_iff.mp heq.symm).1 hframed.1
  | @cons text value texts values hframed hrest ih =>
    intro texts' values' h' heq
    cases h' with
    | nil => exact absurd (List.append_eq_nil_iff.mp heq).1 hframed.1
    | @cons text' value' texts' values' hframed' hrest' =>
      rw [List.flatten_cons, List.flatten_cons] at heq
      obtain ⟨rfl, rfl⟩ := hframed.eq_of_prefix hread hframed' (List.prefix_append text _)
        (heq ▸ List.prefix_append text' _)
      obtain ⟨rfl, rfl⟩ := ih hrest' (List.append_cancel_left heq)
      exact ⟨rfl, rfl⟩

end
