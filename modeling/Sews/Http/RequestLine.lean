import Sews.Http.HeaderSection

/-!
# The request line

The parser takes its three words wherever they stand: `>>` skips line feeds as
any other white space.  The line a request begins on (`startLine`) may have fewer
than three words, and then the next lines make up for it, header lines included.
The dispatcher has a branch for a request that could not be parsed, but the parser
never returns the null pointer that leads there.

`confined_iff` says that the request line is what it should be (`Confined`)
exactly when `startLine` has three words.
-/

namespace Sews.Http.RequestParser

open Cpp IStringStream UnorderedMap

/-- The line a request begins on: the first one with a word. -/
def startLine (raw : Bytes) : Bytes := ((lines lf raw).find? fun line => words line ≠ []).getD []

/-- The headers of `r` are made of the lines after the one that `raw` begins on. -/
def HeadersFollow (raw : Bytes) (r : Request) : Prop :=
  ∃ before text, raw = before ++ text ∧ (∀ b ∈ before, isspace b = true) ∧
    firstLine text = startLine raw ∧
    ∀ key value, r.headers.lookup key = some value ↔ LastWins (headerLinesOf text) key value

/-- Three words of one line are the method, the path and the version, none of the
lines after it is lost to them, and with fewer words on its line a request is
rejected. -/
def Confined (mem : Memory) (raw : Bytes) : Prop :=
  (∀ r, parse mem raw = .ok (some (.request r)) → r.method ≠ [] ∧ r.path ≠ [] ∧ r.version ≠ [] ∧
    startLine raw ∈ lines lf raw ∧ [r.method, r.path, r.version] <:+: words (startLine raw) ∧
    HeadersFollow raw r) ∧
  ((words (startLine raw)).length < 3 → parse mem raw = .ok none)

/-- The words of a list of lines begin with those of the first line that has any. -/
theorem flatMap_words : ∀ ls : List Bytes, ∃ more,
    ls.flatMap words = words ((ls.find? fun line => words line ≠ []).getD []) ++ more := by
  intro ls
  induction ls with
  | nil => exact ⟨[], rfl⟩
  | cons line ls ih =>
    by_cases h : words line = []
    · obtain ⟨more, hmore⟩ := ih
      refine ⟨more, ?_⟩
      rw [List.flatMap_cons, h, List.nil_append, List.find?_cons_of_neg (by simp [h]), hmore]
    · refine ⟨ls.flatMap words, ?_⟩
      rw [List.flatMap_cons, List.find?_cons_of_pos (by simp [h])]
      rfl

/-- The words of a message begin with those of the line it begins on. -/
theorem words_startLine (raw : Bytes) : ∃ more, words raw = words (startLine raw) ++ more := by
  have hlf : isspace lf = true := by decide
  rw [words_eq_flatMap hlf]
  exact flatMap_words (lines lf raw)

theorem startLine_mem {raw : Bytes} (h : words (startLine raw) ≠ []) : startLine raw ∈ lines lf raw := by
  rw [startLine] at h ⊢
  cases hf : (lines lf raw).find? fun line => words line ≠ [] with
  | none =>
    rw [hf] at h
    exact absurd rfl h
  | some line => exact List.mem_of_find?_eq_some hf

/-- The method, the path and the version are the first three words, as far as
there are three. -/
theorem requestLine_words (raw : Bytes) :
    (requestLine raw).1 = (words raw).headD [] ∧ (requestLine raw).2.1 = (words raw).tail.headD [] ∧
      (requestLine raw).2.2.1 = (words raw).tail.tail.headD [] := by
  obtain ⟨hm, hp⟩ := words_token raw
  obtain ⟨hp1, hv⟩ := words_token (token raw).2
  obtain ⟨hv1, -⟩ := words_token (token (token raw).2).2
  refine ⟨hm, ?_, ?_⟩
  · show (token (token raw).2).1 = _
    rw [hp1, hp]
  · show (token (token (token raw).2).2).1 = _
    rw [hv1, hv, hp]

/-- Before the line a message begins on there is nothing but white space. -/
theorem startLine_split {raw : Bytes} (h : words (startLine raw) ≠ []) :
    ∃ before text, raw = before ++ text ∧ (∀ b ∈ before, isspace b = true) ∧
      firstLine text = startLine raw := by
  induction raw using List.sep_induction lf with
  | last line hno =>
    have hne : line ≠ [] := by
      rintro rfl
      exact h rfl
    have hmem := startLine_mem h
    rw [lines, linesOf_last hno hne, List.map_singleton, List.mem_singleton] at hmem
    refine ⟨[], line, rfl, fun b hb => absurd hb List.not_mem_nil, ?_⟩
    rw [hmem, firstLine, (takeWhile_of_not_mem hno).1]
  | more line rest hl ih =>
    rw [startLine, lines_append hl] at h ⊢
    by_cases hw : words line = []
    · rw [List.find?_cons_of_neg (by simp [hw])] at h ⊢
      obtain ⟨before, text, rfl, hblank, hfirst⟩ := ih h
      have hlf : isspace lf = true := by decide
      refine ⟨line ++ lf :: before, text, by simp, fun b hb => ?_, hfirst⟩
      rcases List.mem_append.mp hb with hb | hb
      · exact isspace_of_words_nil hw b hb
      · rcases List.mem_cons.mp hb with rfl | hb
        · exact hlf
        · exact hblank b hb
    · rw [List.find?_cons_of_pos (by simp [hw])]
      refine ⟨[], _, rfl, fun b hb => absurd hb List.not_mem_nil, ?_⟩
      exact (takeWhile_delim hl rest).1

/-- With three words on the line a message begins on, its header section is the one
after this line. -/
theorem headersFollow {raw : Bytes} (h : 3 ≤ (words (startLine raw)).length) (body : Bytes) :
    HeadersFollow raw (requestOf raw body) := by
  obtain ⟨before, text, heq, hblank, hfirst⟩ :=
    startLine_split (List.ne_nil_of_length_pos (Nat.lt_of_lt_of_le (by decide) h))
  refine ⟨before, text, heq, hblank, hfirst, fun key value => ?_⟩
  have hfields : headerFields raw = headerFields text := by
    have hline : requestLine raw = requestLine text := by
      rw [heq, requestLine, token_append_blank hblank, requestLine]
    rw [headerFields, linesAfterRequestLine, hline, headerFields, linesAfterRequestLine]
  rw [← hfirst] at h
  show (insertAll (headerFields raw) (∅ : HeaderMap)).lookup key = some value ↔ _
  rw [hfields, headerFields_eq h, lastWins_iff]

/-- **When the request line is confined to a line.**  Exactly when the line the
request begins on has at least three words. -/
theorem confined_iff (mem : Memory) (raw : Bytes) :
    Confined mem raw ↔ 3 ≤ (words (startLine raw)).length := by
  constructor
  · rintro ⟨-, hnull⟩
    by_contra hfew
    have hnone := hnull (by omega)
    -- the parser has no way to return null
    rw [parse_eq] at hnone
    cases hb : bodyOf mem (contentLengthField raw) (bytesAfterHeaders raw) with
    | error e => rw [hb] at hnone; cases hnone
    | ok body => rw [hb] at hnone; cases hnone
  · intro hthree
    refine ⟨fun r h => ?_, fun hfew => absurd hfew (by omega)⟩
    obtain ⟨body, -, rfl⟩ := parse_ok_iff.mp h
    obtain ⟨hm, hp, hv⟩ := requestLine_words raw
    obtain ⟨more, hmore⟩ := words_startLine raw
    have hmem := @startLine_mem raw (List.ne_nil_of_length_pos (by omega))
    have hfollow := headersFollow hthree body
    cases hw : words (startLine raw) with
    | nil => rw [hw] at hthree; simp at hthree
    | cons method ws =>
      cases ws with
      | nil => rw [hw] at hthree; simp at hthree
      | cons path ws =>
        cases ws with
        | nil => rw [hw] at hthree; simp at hthree
        | cons version ws =>
          rw [hmore, hw] at hm hp hv
          have hne : ∀ w ∈ [method, path, version], w ≠ [] := by
            intro w hmemw
            have hword : w ∈ words (startLine raw) := by
              rw [hw]
              exact List.mem_append_left ws hmemw
            exact List.ne_nil_of_mem_runs hword
          have hrm : (requestOf raw body).method = method := hm
          have hrp : (requestOf raw body).path = path := hp
          have hrv : (requestOf raw body).version = version := hv
          rw [hrm, hrp, hrv]
          refine ⟨hne _ (by simp), hne _ (by simp), hne _ (by simp), hmem, ?_, hfollow⟩
          exact (List.prefix_append [method, path, version] ws).isInfix

/-- A request line of one word. -/
def oneWordText : Bytes := ascii "GET\r\nHost: x\r\n\r\n"

/-- The header line is taken for the path and the version. -/
theorem header_line_consumed :
    parse smallMemory oneWordText
        = .ok (some (.request { method := ascii "GET", path := ascii "Host:", version := ascii "x" })) ∧
      ¬ ∀ (mem : Memory) (raw : Bytes), Confined mem raw := by
  have hparse : parse smallMemory oneWordText
      = .ok (some (.request { method := ascii "GET", path := ascii "Host:", version := ascii "x" })) := by
    decide +kernel
  refine ⟨hparse, fun hall => ?_⟩
  have hnone := (hall smallMemory oneWordText).2 (by decide +kernel)
  rw [hparse] at hnone
  cases hnone

end Sews.Http.RequestParser
