import Sews.Http.Codec

/-!
# What the parser reads

`RequestParser.parse` threads one stream through three extractions, two kinds of
line reading and a counted read.  `parse_eq` says the same without the stream:

* `requestLine raw` is the three tokens and the bytes after them;
* `headerSection` cuts the lines after the request line at the first blank one,
  into the header lines and the bytes that follow;
* the header map is `insertAll` of the fields of these lines, so of two lines
  with one name the later wins;
* the body is `bodyOf`, the first `n` of the bytes that follow, padded with NUL
  bytes up to `n`, when a `Content-Length` says `n`.

Only the last item can throw, and `parse_returns_iff` says when it does not.
-/

namespace Sews.Http.RequestParser

open Cpp IStringStream UnorderedMap

/-! ### Header lines -/

/-- The name and value of a header line, if it has a colon. -/
def field (line : Bytes) : Option (Σ _ : Bytes, Bytes) :=
  match line.dropWhile (· != colon) with
  | [] => none
  | _ :: value => some ⟨trim (line.takeWhile (· != colon)), trim value⟩

theorem headerLine_eq (line : Bytes) (headers : HeaderMap) :
    headerLine line headers = if popCr line = [] then .done headers
      else .yield (insertAll (field (popCr line)).toList headers) := by
  rw [headerLine, field]
  by_cases h : popCr line = []
  · simp only [h, if_true]
  · simp only [if_neg h]
    cases (popCr line).dropWhile (· != colon) with
    | nil => rfl
    | cons c value => rfl

/-- The header lines, without their line ends, and the bytes after the blank
line.  There are none when the blank line is missing or not terminated. -/
def headerSection : List (Bytes × Bytes) → List Bytes × Bytes
  | [] => ([], [])
  | (line, rest) :: more =>
    if popCr line = [] then ([], rest)
    else (popCr line :: (headerSection more).1, (headerSection more).2)

theorem insertAll_append (l₁ l₂ : HeaderOrder) (headers : HeaderMap) :
    insertAll (l₁ ++ l₂) headers = insertAll l₂ (insertAll l₁ headers) :=
  List.foldl_append

theorem foldLines_headerLine : ∀ (lines : List (Bytes × Bytes)) (headers : HeaderMap),
    foldLines headerLine headers lines
      = (insertAll ((headerSection lines).1.filterMap field) headers, (headerSection lines).2) := by
  intro lines
  induction lines with
  | nil => intro headers; rfl
  | cons l more ih =>
    intro headers
    obtain ⟨line, rest⟩ := l
    rw [foldLines, headerLine_eq, headerSection]
    by_cases h : popCr line = []
    · simp only [if_pos h]
      rfl
    · simp only [if_neg h, ih]
      rw [← insertAll_append]
      cases hf : field (popCr line) with
      | none => simp [hf]
      | some e => simp [hf]

/-! ### The whole parser -/

/-- The method, the path, the version, and the bytes after the version. -/
def requestLine (raw : Bytes) : Bytes × Bytes × Bytes × Bytes :=
  ((token raw).1, (token (token raw).2).1, (token (token (token raw).2).2).1,
    (token (token (token raw).2).2).2)

/-- The lines after the request line. -/
def linesAfterRequestLine (raw : Bytes) : List (Bytes × Bytes) :=
  linesOf lf (afterDelim lf (requestLine raw).2.2.2)

/-- The fields of the header lines, in the order they stand in `raw`. -/
def headerFields (raw : Bytes) : HeaderOrder :=
  (headerSection (linesAfterRequestLine raw)).1.filterMap field

/-- The bytes after the blank line that ends the headers. -/
def bytesAfterHeaders (raw : Bytes) : Bytes := (headerSection (linesAfterRequestLine raw)).2

/-- The value of the last header line named `Content-Length`. -/
def contentLengthField (raw : Bytes) : Option Bytes :=
  (headerFields raw).reverse.dlookup contentLength

/-- The first `n` of `bytes`, padded with NUL bytes up to `n`. -/
def padTo (n : Nat) (bytes : Bytes) : Bytes :=
  bytes.take n ++ List.replicate (n - bytes.length) nul

@[simp] theorem length_padTo (n : Nat) (bytes : Bytes) : (padTo n bytes).length = n := by
  rw [padTo, List.length_append, List.length_take, List.length_replicate]
  omega

theorem padTo_append (body tail : Bytes) : padTo body.length (body ++ tail) = body := by
  simp [padTo]

/-- The body a `Content-Length` of `value` asks for. -/
def bodyOf (mem : Memory) (value : Option Bytes) (bytes : Bytes) : Except Exception Bytes :=
  match value with
  | none => .ok []
  | some value =>
    match stoul value with
    | .error e => .error e
    | .ok n => if mem.CanHold n then .ok (padTo n bytes)
        else .error (if mem.maxSize < n then .lengthError else .badAlloc)

theorem readBody_eq (mem : Memory) (headers : HeaderMap) {iss : IStringStream} (h : iss.Settled) :
    readBody mem headers iss = bodyOf mem (headers.lookup contentLength) iss.rest := by
  unfold readBody bodyOf
  cases headers.lookup contentLength with
  | none => rfl
  | some value =>
    dsimp only
    cases stoul value with
    | error e => rfl
    | ok n =>
      dsimp only
      by_cases hn : mem.CanHold n
      · rw [Memory.zeros_of_canHold hn, if_pos hn]
        dsimp only
        rw [read_spec h, padTo, List.drop_replicate, List.length_take]
        congr 3
        omega
      · rw [Memory.zeros, if_neg hn]
        by_cases hmax : mem.maxSize < n
        · simp only [if_pos hmax]
        · have ha : ¬ mem.available n = true := fun ha => hn ⟨by omega, ha⟩
          simp only [if_neg hmax, if_neg ha]

/-- The request `parse` builds around a body. -/
def requestOf (raw body : Bytes) : Request where
  method := (requestLine raw).1
  path := (requestLine raw).2.1
  version := (requestLine raw).2.2.1
  body := body
  headers := insertAll (headerFields raw) ∅

/-- The `Content-Length` of the map is that of the last line that has one. -/
theorem lookup_contentLength (raw body : Bytes) :
    (requestOf raw body).headers.lookup contentLength = contentLengthField raw := by
  rw [requestOf, lookup_insertAll, Finmap.lookup_empty, Option.or_none]
  rfl

/-- **The parser without the stream.** -/
theorem parse_eq (mem : Memory) (raw : Bytes) :
    parse mem raw = (bodyOf mem (contentLengthField raw) (bytesAfterHeaders raw)).map
      fun body => some (.request (requestOf raw body)) := by
  obtain ⟨m1, m2, m3⟩ := extract_spec (settled_ofBytes raw)
  obtain ⟨p1, p2, p3⟩ := extract_spec m3
  obtain ⟨v1, v2, v3⟩ := extract_spec p3
  obtain ⟨l1, l2⟩ := getline_spec v3 lf []
  obtain ⟨h1, h2, h3⟩ := whileGetline_spec l2 lf headerLine (∅ : HeaderMap)
  have hraw : (ofBytes raw).rest = raw := rfl
  rw [hraw] at m1 m2
  rw [m2] at p1 p2
  rw [p2] at v1 v2
  rw [v2] at l1
  rw [l1, foldLines_headerLine] at h1 h2
  have hlookup : (insertAll (headerFields raw) (∅ : HeaderMap)).lookup contentLength
      = contentLengthField raw := lookup_contentLength raw []
  have hh := h1.trans (show _ = insertAll (headerFields raw) ∅ from rfl)
  have ht := h2.trans (show _ = bytesAfterHeaders raw from rfl)
  unfold parse
  dsimp only
  rw [readBody_eq mem _ h3, m1, p1, v1, hh, ht, hlookup]
  cases bodyOf mem (contentLengthField raw) (bytesAfterHeaders raw) with
  | error e => rfl
  | ok body => rfl

/-! ### Exceptions -/

theorem bodyOf_ok_iff {mem : Memory} {value : Option Bytes} {bytes body : Bytes} :
    bodyOf mem value bytes = .ok body ↔
      (value = none ∧ body = []) ∨
        ∃ text n, value = some text ∧ stoul text = .ok n ∧ mem.CanHold n ∧ body = padTo n bytes := by
  unfold bodyOf
  cases value with
  | none => simp [eq_comm]
  | some text =>
    cases hs : stoul text with
    | error e => simp [hs]
    | ok n =>
      by_cases hn : mem.CanHold n
      · simp [hs, hn, eq_comm]
      · simp only [hs, if_neg hn]
        constructor
        · intro h; cases h
        · rintro (⟨h, _⟩ | ⟨_, m, h, hm, hc, _⟩)
          · cases h
          · cases h
            rw [hs] at hm
            cases hm
            exact absurd hc hn

/-- **When the parser returns.**  It does exactly when there is no
`Content-Length` line, or the value of the last one is a number that `std::stoul`
reads and a string of that length can be allocated. -/
theorem parse_returns_iff (mem : Memory) (raw : Bytes) :
    (∃ message, parse mem raw = .ok message) ↔
      ∀ text, contentLengthField raw = some text → ∃ n, stoul text = .ok n ∧ mem.CanHold n := by
  rw [parse_eq]
  constructor
  · rintro ⟨message, h⟩ text htext
    cases hb : bodyOf mem (contentLengthField raw) (bytesAfterHeaders raw) with
    | error e => rw [hb] at h; cases h
    | ok body =>
      rcases bodyOf_ok_iff.mp hb with ⟨hnone, _⟩ | ⟨text', n, htext', hn, hc, _⟩
      · rw [hnone] at htext; cases htext
      · rw [htext'] at htext
        cases htext
        exact ⟨n, hn, hc⟩
  · intro h
    cases hv : contentLengthField raw with
    | none => exact ⟨_, rfl⟩
    | some text =>
      obtain ⟨n, hn, hc⟩ := h text hv
      have hb : bodyOf mem (some text) (bytesAfterHeaders raw)
          = .ok (padTo n (bytesAfterHeaders raw)) :=
        bodyOf_ok_iff.mpr (Or.inr ⟨text, n, rfl, hn, hc, rfl⟩)
      rw [hb]
      exact ⟨_, rfl⟩

/-- A machine with room for every string up to a gigabyte. -/
def smallMemory : Memory := ⟨2 ^ 30, by decide, fun _ => true⟩

set_option maxRecDepth 10000 in
/-- A `Content-Length` that is not a number ends in `std::invalid_argument`. -/
theorem parse_throws :
    parse smallMemory (ascii "GET / HTTP/1.1\r\nContent-Length: abc\r\n\r\n")
        = .error .invalidArgument ∧
      ¬ ∀ (mem : Memory) (raw : Bytes), ∃ message, parse mem raw = .ok message := by
  have h : parse smallMemory (ascii "GET / HTTP/1.1\r\nContent-Length: abc\r\n\r\n")
      = .error .invalidArgument := by decide
  refine ⟨h, fun hall => ?_⟩
  obtain ⟨message, hm⟩ := hall smallMemory (ascii "GET / HTTP/1.1\r\nContent-Length: abc\r\n\r\n")
  rw [h] at hm
  cases hm

end Sews.Http.RequestParser
