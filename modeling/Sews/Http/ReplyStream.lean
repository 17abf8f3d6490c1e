import Sews.Http.ResponseLength
import Sews.Lib.SelfDelimiting

/-!
# Reading responses off a stream

A client gets the responses of a connection as one stream of bytes, cut wherever the
kernel cut it.  `readReply` is what a client does with the front of it: a line, lines up
to a blank one, the one length among them, whatever the case of its name, and that many
bytes.  It is a stable reader, so the texts of the encoder, read by it, are
self-delimiting, and a client that is sent the texts of any responses finds these, one
after the other (`reply_stream`).
-/

namespace Sews.Http

open Cpp IStringStream UnorderedMap RequestParser

/-! ### A client's reader -/

/-- A line, without its line end, and the bytes after it. -/
def cutLine (stream : Bytes) : Option (Bytes × Bytes) :=
  match stream.dropWhile (· != lf) with
  | [] => none
  | _ :: rest => some (popCr (stream.takeWhile (· != lf)), rest)

/-- The lines up to a blank one, at most `n` of them with the blank one, and the bytes
after it. -/
def cutHeader : Nat → Bytes → Option (List Bytes × Bytes)
  | 0, _ => none
  | n + 1, stream =>
    match cutLine stream with
    | none => none
    | some (line, rest) =>
      if line = [] then some ([], rest)
      else
        match cutHeader n rest with
        | none => none
        | some (lines, rest) => some (line :: lines, rest)

/-- The length that the header lines announce, if they announce one. -/
def announced (lines : List Bytes) : Option Nat :=
  match (lines.filter isLengthLine).map fieldValue with
  | [value] => if value ≠ [] ∧ value.all isdigit then some (digitsValue value) else none
  | _ => none

/-- What a client makes of a response. -/
structure Reply where
  statusLine : Bytes
  headers : HeaderMap
  body : Bytes
deriving DecidableEq

/-- Takes a response off the front of a stream. -/
def readReply (stream : Bytes) : Option (Reply × Bytes) :=
  match cutLine stream with
  | none => none
  | some (statusLine, rest) =>
    match cutHeader rest.length rest with
    | none => none
    | some (lines, rest) =>
      match announced lines with
      | none => none
      | some n =>
        if n ≤ rest.length then
          some (⟨statusLine, insertAll (lines.filterMap field) ∅, rest.take n⟩, rest.drop n)
        else none

/-! ### It is stable -/

theorem cutLine_line {line : Bytes} (h : lf ∉ line) (rest : Bytes) :
    cutLine (line ++ lf :: rest) = some (popCr line, rest) := by
  obtain ⟨htake, hdrop⟩ := takeWhile_delim h rest
  rw [cutLine, hdrop, htake]

theorem cutLine_some {stream line rest : Bytes} (h : cutLine stream = some (line, rest)) :
    ∃ text, lf ∉ text ∧ stream = text ++ lf :: rest ∧ line = popCr text := by
  induction stream using List.sep_induction lf with
  | last run hrun =>
    rw [cutLine, List.dropWhile_eq_nil_iff.mpr] at h
    · cases h
    · intro b hb
      have hne : b ≠ lf := by rintro rfl; exact hrun hb
      simpa using hne
  | more run rest' hrun _ =>
    rw [cutLine_line hrun] at h
    cases h
    exact ⟨run, hrun, rfl, rfl⟩

theorem cutLine_stable : Stable cutLine := by
  intro stream line rest more h
  obtain ⟨text, htext, rfl, rfl⟩ := cutLine_some h
  rw [List.append_assoc, List.cons_append, cutLine_line htext]

theorem cutHeader_stable : ∀ {n m : Nat} {stream rest : Bytes} {lines : List Bytes}, n ≤ m →
    cutHeader n stream = some (lines, rest) →
      ∀ more, cutHeader m (stream ++ more) = some (lines, rest ++ more) := by
  intro n
  induction n with
  | zero =>
    intro m stream rest lines _ h
    cases h
  | succ n ih =>
    intro m stream rest lines hle h more
    obtain ⟨m, rfl⟩ : ∃ k, m = k + 1 := ⟨m - 1, by omega⟩
    unfold cutHeader at h ⊢
    cases hl : cutLine stream with
    | none => rw [hl] at h; cases h
    | some cut =>
      obtain ⟨line, rest'⟩ := cut
      rw [cutLine_stable stream line rest' more hl]
      rw [hl] at h
      dsimp only at h ⊢
      by_cases hline : line = []
      · rw [if_pos hline] at h ⊢
        cases h
        rfl
      · rw [if_neg hline] at h ⊢
        cases hh : cutHeader n rest' with
        | none => rw [hh] at h; cases h
        | some header =>
          rw [hh] at h
          cases h
          rw [ih (Nat.le_of_succ_le_succ hle) hh more]

/-- **The reader does not look behind the body.** -/
theorem readReply_stable : Stable readReply := by
  intro stream reply rest more h
  unfold readReply at h ⊢
  cases hl : cutLine stream with
  | none => rw [hl] at h; cases h
  | some cut =>
    obtain ⟨statusLine, after⟩ := cut
    rw [cutLine_stable stream statusLine after more hl]
    rw [hl] at h
    dsimp only at h ⊢
    cases hh : cutHeader after.length after with
    | none => rw [hh] at h; cases h
    | some header =>
      obtain ⟨lines, tail⟩ := header
      rw [cutHeader_stable (by simp) hh more]
      rw [hh] at h
      dsimp only at h ⊢
      cases hn : announced lines with
      | none => rw [hn] at h; cases h
      | some n =>
        rw [hn] at h
        dsimp only at h ⊢
        split at h
        · rename_i hle
          cases h
          rw [if_pos (by rw [List.length_append]; omega), List.take_append_of_le_length hle,
            List.drop_append_of_le_length hle]
        · cases h

/-! ### The texts of the encoder -/

/-- A response that a client can take off a stream: its fields are on one line each, and
its own headers leave its length alone. -/
structure Deliverable (r : Response) : Prop extends Presentable r where
  trusted : LengthTrusted r

/-- What a client makes of the text of a response. -/
def replyOf (r : Response) : Reply where
  statusLine := writtenVersion r ++ sp :: (decimalInt r.status.toInt ++ sp :: r.statusText)
  headers := r.headers.insert contentLength (decimal r.body.length)
  body := r.body

theorem lf_not_mem_writtenLine {e : Σ _ : Bytes, Bytes} (hk : lf ∉ e.1) (hv : lf ∉ e.2) :
    lf ∉ writtenLine e ++ [cr] := by
  have hcolon : lf ≠ colon := by decide
  have hsp : lf ≠ sp := by decide
  have hcr : lf ≠ cr := by decide
  simp [writtenLine, hk, hv, hcolon, hsp, hcr]

theorem length_le_headerLines : ∀ order : HeaderOrder, order.length ≤ (headerLines order).length := by
  intro order
  induction order with
  | nil => exact Nat.le_refl 0
  | cons e order ih =>
    have hcons : headerLines (e :: order) = (e.1 ++ [colon, sp] ++ e.2 ++ crlf) ++ headerLines order := rfl
    rw [hcons, List.length_append, List.length_cons]
    simp only [List.length_append, List.length_cons]
    omega

/-- Written header lines are cut off as they were written. -/
theorem cutHeader_headerLines : ∀ (order : HeaderOrder) (rest : Bytes) (n : Nat),
    (∀ e ∈ order, lf ∉ e.1 ∧ lf ∉ e.2) → order.length < n →
      cutHeader n (headerLines order ++ cr :: lf :: rest) = some (order.map writtenLine, rest) := by
  intro order
  induction order with
  | nil =>
    intro rest n _ hn
    obtain ⟨n, rfl⟩ : ∃ k, n = k + 1 := ⟨n - 1, by omega⟩
    have hline : cutLine (headerLines [] ++ cr :: lf :: rest) = some ([], rest) :=
      @cutLine_line [cr] (by decide) rest
    rw [cutHeader, hline]
    rfl
  | cons e order ih =>
    intro rest n h hn
    obtain ⟨n, rfl⟩ : ∃ k, n = k + 1 := ⟨n - 1, by omega⟩
    have hmore := ih rest n (fun e' he' => h e' (List.mem_cons_of_mem _ he'))
      (Nat.lt_of_succ_lt_succ hn)
    have hsplit : headerLines (e :: order) ++ cr :: lf :: rest
        = (writtenLine e ++ [cr]) ++ lf :: (headerLines order ++ cr :: lf :: rest) := by
      simp [headerLines, crlf, writtenLine]
    have hlf : lf ∉ writtenLine e ++ [cr] := lf_not_mem_writtenLine (h e List.mem_cons_self).1 (h e List.mem_cons_self).2
    have hne : writtenLine e ≠ [] := by simp [writtenLine]
    rw [hsplit, cutHeader, cutLine_line hlf, popCr_append]
    dsimp only
    rw [if_neg hne, hmore, List.map_cons]

theorem lengthFields_writtenLine {order : HeaderOrder} (h : ∀ e ∈ order, colon ∉ e.1) :
    ((order.map writtenLine).filter isLengthLine).map fieldValue
      = (order.filter isLength).map (trim ·.2) := by
  have hfilter : order.filter (isLengthLine ∘ writtenLine) = order.filter isLength :=
    List.filter_congr fun e he => isLengthLine_writtenLine (h e he)
  rw [List.filter_map, hfilter, List.map_map]
  exact List.map_congr_left fun e he => fieldValue_writtenLine (h e (List.mem_filter.mp he).1)

theorem announced_writtenHeaders {r : Response} (h : Deliverable r) {order : HeaderOrder}
    (ho : Enumerates order r.headers) :
    announced ((writtenHeaders r order).map writtenLine) = some r.body.length := by
  have hclean := clean_writtenHeaders h.toPresentable ho
  have hsingle : ((writtenHeaders r order).filter isLength).map (trim ·.2) = [decimal r.body.length] := by
    cases hl : r.headers.lookup contentLength with
    | none => exact (single_length_of_none ho hl).mpr h.trusted
    | some value => exact (single_length_of_some ho hl).mpr h.trusted
  rw [announced, lengthFields_writtenLine fun e he => (hclean e he).1.1, hsingle]
  dsimp only
  rw [if_pos ⟨decimal_ne_nil _, List.all_eq_true.mpr (isdigit_decimal _)⟩, digitsValue_decimal]

theorem filterMap_field_writtenLine {order : HeaderOrder}
    (h : ∀ e ∈ order, colon ∉ e.1 ∧ Trimmed e.1 ∧ Trimmed e.2) :
    (order.map writtenLine).filterMap field = order := by
  rw [List.filterMap_map]
  conv_rhs => rw [← List.filterMap_some (l := order)]
  refine List.filterMap_congr fun e he => ?_
  exact field_header (h e he).1 (h e he).2.1 (h e he).2.2

/-- **A client reads the text of a response as that response.** -/
theorem framed_write {r : Response} (h : Deliverable r) {order : HeaderOrder}
    (ho : Enumerates order r.headers) :
    Framed readReply (ResponseSerializer.write r order) (replyOf r) := by
  have hclean := clean_writtenHeaders h.toPresentable ho
  have hversion : lf ∉ r.version := lf_not_mem_of_token h.version
  have hline : popCr (statusLine r) = (replyOf r).statusLine := by
    rw [show statusLine r = (replyOf r).statusLine ++ [cr] by simp [statusLine, replyOf]]
    exact popCr_append _
  have hlength : (writtenHeaders r order).length
      < (headerLines (writtenHeaders r order) ++ cr :: lf :: r.body).length := by
    have hone : (writtenHeaders r order).length ≤ (headerLines (writtenHeaders r order)).length :=
      length_le_headerLines _
    rw [List.length_append, List.length_cons]
    omega
  rw [write_eq]
  refine ⟨by simp, ?_⟩
  rw [readReply, cutLine_line (lf_not_mem_statusLine hversion h.statusText.1), hline]
  dsimp only
  rw [cutHeader_headerLines _ r.body _ (fun e he => ⟨(hclean e he).1.2.1, (hclean e he).2.1⟩) hlength]
  dsimp only
  rw [announced_writtenHeaders h ho]
  dsimp only
  rw [if_pos (Nat.le_refl _), List.take_length, List.drop_length,
    filterMap_field_writtenLine fun e he => ⟨(hclean e he).1.1, (hclean e he).1.2.2, (hclean e he).2.2⟩,
    insertAll_writtenHeaders h.toPresentable ho]
  rfl

/-! ### Streams of responses -/

/-- The text of a response, in some order of its headers. -/
def WrittenAs (r : Response) (text : Bytes) : Prop :=
  ∃ order, Enumerates order r.headers ∧ text = ResponseSerializer.write r order

theorem framed_texts {responses : List Response} (h : ∀ r ∈ responses, Deliverable r)
    {texts : List Bytes} (hw : List.Forall₂ WrittenAs responses texts) :
    List.Forall₂ (Framed readReply) texts (responses.map replyOf) := by
  induction hw with
  | nil => exact .nil
  | @cons r text responses texts hr _ ih =>
    obtain ⟨order, ho, rfl⟩ := hr
    exact .cons (framed_write (h r List.mem_cons_self) ho)
      (ih fun r' hr' => h r' (List.mem_cons_of_mem _ hr'))

/-- **A stream of responses.**  A client that is sent the texts of deliverable responses,
as far as the stream goes, reads those that are there as a whole, in order, and is left
with the beginning of the next one; and a stream of other deliverable responses is read
differently. -/
theorem reply_stream {responses : List Response} (h : ∀ r ∈ responses, Deliverable r)
    {texts : List Bytes} (hw : List.Forall₂ WrittenAs responses texts) :
    (∀ stream, stream <+: texts.flatten →
      ∃ k part, CutAfter texts k part ∧ stream = (texts.take k).flatten ++ part ∧
        readAll readReply stream = ((responses.map replyOf).take k, part)) ∧
    readAll readReply texts.flatten = (responses.map replyOf, []) ∧
    ∀ responses' texts', (∀ r ∈ responses', Deliverable r) →
      List.Forall₂ WrittenAs responses' texts' → texts'.flatten = texts.flatten →
        responses'.map replyOf = responses.map replyOf ∧ texts' = texts := by
  have hnil : readReply [] = none := rfl
  have hframed := framed_texts h hw
  refine ⟨fun stream hp => readAll_prefix readReply_stable hnil hframed hp,
    readAll_flatten readReply_stable hnil hframed, fun responses' texts' h' hw' heq => ?_⟩
  obtain ⟨htexts, hreplies⟩ := flatten_injective readReply_stable (framed_texts h' hw') hframed heq
  exact ⟨hreplies, htexts⟩

theorem deliverable_foundResponse : Deliverable foundResponse where
  toPresentable := presentable_foundResponse
  trusted k v hl hk := by
    obtain ⟨rfl, -⟩ := lookup_insert_empty.mp hl
    exact absurd hk (by decide +kernel)

def foundText : Bytes := ResponseSerializer.write foundResponse [⟨ascii "Connection", ascii "close"⟩]

/-- A redirection and the next one, of which three bytes are there. -/
theorem reply_stream_foundResponse :
    ∃ k part, CutAfter [foundText, foundText] k part ∧
      readAll readReply (foundText ++ ascii "HTT")
        = ([replyOf foundResponse, replyOf foundResponse].take k, part) := by
  have hw : WrittenAs foundResponse foundText := ⟨_, by decide +kernel, rfl⟩
  have hcut : foundText ++ ascii "HTT" <+: [foundText, foundText].flatten := by
    rw [List.flatten_cons, List.prefix_append_right_inj]
    decide +kernel
  have hdeliverable : ∀ r ∈ [foundResponse, foundResponse], Deliverable r := by
    simp [deliverable_foundResponse]
  obtain ⟨k, part, hafter, -, hall⟩ := (reply_stream hdeliverable (.cons hw (.cons hw .nil))).1 _ hcut
  exact ⟨k, part, hafter, hall⟩

end Sews.Http
