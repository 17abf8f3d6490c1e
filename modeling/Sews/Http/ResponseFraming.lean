import Sews.Http.RequestLine

/-!
# Reading a response back

The encoder writes a status line, the headers, a `Content-Length` unless the
headers have one, and the body.  The decoder is written for requests, but it cuts
a message in the same way: `parse_serialize` reads the text of a response with the
request parser and finds the version, the status, the header map with the length
of the body, and the body.

The text is a first line and the text of a header list (`write_eq`), so what the
parser makes of it follows from the lemmas on these two.
-/

namespace Sews.Http

open Cpp IStringStream UnorderedMap RequestParser

/-- The fields of a response that its text shows again, and a `Content-Length`, if
there is one, that is the length of the body. -/
structure Presentable (r : Response) : Prop where
  version : ∀ b ∈ r.version, isspace b = false
  statusText : lf ∉ r.statusText ∧ ∃ b ∈ r.statusText, isspace b = false
  field : ∀ k v, r.headers.lookup k = some v →
    (colon ∉ k ∧ lf ∉ k ∧ Trimmed k) ∧ lf ∉ v ∧ Trimmed v
  framed : r.headers.lookup contentLength = none ∨
    r.headers.lookup contentLength = some (decimal r.body.length)

/-- The version as it is written. -/
def writtenVersion (r : Response) : Bytes := if r.version = [] then ascii "HTTP/1.1" else r.version

/-- The headers as they are written. -/
def writtenHeaders (r : Response) (order : HeaderOrder) : HeaderOrder :=
  order ++ if r.headers.lookup contentLength = none then [⟨contentLength, decimal r.body.length⟩] else []

/-- The status line, with the `\r` at its end. -/
def statusLine (r : Response) : Bytes :=
  writtenVersion r ++ sp :: (decimalInt r.status.toInt ++ sp :: (r.statusText ++ [cr]))

theorem write_eq (r : Response) (order : HeaderOrder) :
    ResponseSerializer.write r order
      = statusLine r ++ lf :: (headerLines (writtenHeaders r order) ++ cr :: lf :: r.body) := by
  have happend : ∀ xs ys : HeaderOrder, headerLines (xs ++ ys) = headerLines xs ++ headerLines ys :=
    fun xs ys => List.flatMap_append
  rw [ResponseSerializer.write, writtenHeaders, happend]
  by_cases h : r.headers.lookup contentLength = none
  · rw [if_pos h, if_pos h]
    have hlength : ascii "Content-Length: " = contentLength ++ [colon, sp] := by decide
    rw [hlength]
    simp [statusLine, writtenVersion, headerLines, crlf]
  · rw [if_neg h, if_neg h]
    simp [statusLine, writtenVersion, headerLines, crlf]

/-! ### The status line -/

theorem trimmed_of_no_space {s : Bytes} (h : ∀ b ∈ s, isspace b = false) : Trimmed s := by
  have hblank : ∀ b ∈ s, isBlank b = false := by
    intro b hb
    by_contra hne
    have hb' := h b hb
    simp only [isBlank, Bool.or_eq_true, beq_iff_eq, Bool.not_eq_false] at hne
    rcases hne with rfl | rfl <;> exact absurd hb' (by decide)
  exact ⟨fun b hb => hblank b (List.mem_of_head? hb), fun b hb => hblank b (List.mem_of_getLast? hb)⟩

theorem isspace_decimal (n : Nat) : ∀ b ∈ decimal n, isspace b = false :=
  fun b hb => isspace_eq_false_of_isdigit (isdigit_decimal n b hb)

theorem token_decimalInt (n : Int) : Token (decimalInt n) := by
  rw [decimalInt]
  split
  · refine ⟨by simp, fun b hb => ?_⟩
    rcases List.mem_cons.mp hb with rfl | hb
    · decide
    · exact isspace_decimal _ b hb
  · exact ⟨decimal_ne_nil _, isspace_decimal _⟩

theorem words_ne_nil {bs : Bytes} (h : ∃ b ∈ bs, isspace b = false) : words bs ≠ [] := by
  obtain ⟨b, hb, hns⟩ := h
  intro hnil
  rw [isspace_of_words_nil hnil b hb] at hns
  cases hns

theorem token_writtenVersion {r : Response} (h : Presentable r) : Token (writtenVersion r) := by
  rw [writtenVersion]
  split
  · decide +kernel
  · rename_i hne
    exact ⟨hne, h.version⟩

theorem words_statusLine {r : Response} (h : Presentable r) :
    words (statusLine r)
      = writtenVersion r :: decimalInt r.status.toInt :: words (r.statusText ++ [cr]) := by
  have hv := token_writtenVersion h
  have hs := token_decimalInt r.status.toInt
  rw [statusLine, words_append_space _ _ isspace_sp, words_of_word hv.1 hv.2,
    words_append_space _ _ isspace_sp, words_of_word hs.1 hs.2]
  rfl

theorem lf_not_mem_of_token {w : Bytes} (hw : ∀ b ∈ w, isspace b = false) : lf ∉ w :=
  fun hmem => absurd (hw lf hmem) (by decide)

theorem lf_not_mem_statusLine {r : Response} (hversion : lf ∉ r.version) (hstatus : lf ∉ r.statusText) :
    lf ∉ statusLine r := by
  have hsp : lf ≠ sp := by decide
  have hcr : lf ≠ cr := by decide
  have hwritten : lf ∉ writtenVersion r := by
    rw [writtenVersion]
    split
    · decide +kernel
    · exact hversion
  have hcode : lf ∉ decimalInt r.status.toInt := lf_not_mem_of_token (token_decimalInt _).2
  simp [statusLine, hwritten, hcode, hstatus, hsp, hcr]

/-! ### The headers -/

theorem insertAll_writtenHeaders {r : Response} (h : Presentable r) {order : HeaderOrder}
    (ho : Enumerates order r.headers) : insertAll (writtenHeaders r order) (∅ : HeaderMap)
      = r.headers.insert contentLength (decimal r.body.length) := by
  rw [writtenHeaders]
  split
  · rw [insertAll_append, ho.foldl_insert]
    rfl
  · rename_i hne
    have hsome := h.framed.resolve_left hne
    rw [List.append_nil, ho.foldl_insert]
    refine Finmap.ext_lookup fun k => ?_
    by_cases hk : k = contentLength
    · rw [hk, hsome, Finmap.lookup_insert]
    · rw [Finmap.lookup_insert_of_ne _ hk]

theorem clean_writtenHeaders {r : Response} (h : Presentable r) {order : HeaderOrder}
    (ho : Enumerates order r.headers) : ∀ e ∈ writtenHeaders r order,
      (colon ∉ e.1 ∧ lf ∉ e.1 ∧ Trimmed e.1) ∧ lf ∉ e.2 ∧ Trimmed e.2 := by
  intro e he
  rcases List.mem_append.mp he with he | he
  · exact h.field _ _ ((ho.mem_iff e.1 e.2).mp he)
  · split at he
    · have hname : colon ∉ contentLength ∧ lf ∉ contentLength ∧ Trimmed contentLength := by
        decide +kernel
      rw [List.mem_singleton.mp he]
      refine ⟨hname, fun hmem => ?_, trimmed_of_no_space (isspace_decimal _)⟩
      exact absurd (isspace_decimal _ lf hmem) (by decide)
    · cases he

/-! ### The text of a response -/

/-- The status line has the three words that the decoder takes from a first line. -/
theorem three_le_words_statusLine {r : Response} (h : Presentable r) : 3 ≤ (words (statusLine r)).length := by
  obtain ⟨b, hb, hns⟩ := h.statusText.2
  have hstatus : words (r.statusText ++ [cr]) ≠ [] := words_ne_nil ⟨b, List.mem_append_left _ hb, hns⟩
  have hpos := List.length_pos_iff.mpr hstatus
  rw [words_statusLine h, List.length_cons, List.length_cons]
  omega

/-- What the decoder finds after the status line. -/
theorem sections_write {r : Response} (h : Presentable r) {order : HeaderOrder}
    (ho : Enumerates order r.headers) :
    insertAll (headerFields (ResponseSerializer.write r order)) (∅ : HeaderMap)
        = r.headers.insert contentLength (decimal r.body.length) ∧
      bytesAfterHeaders (ResponseSerializer.write r order) = r.body := by
  obtain ⟨raw, hraw⟩ : ∃ raw, ResponseSerializer.write r order = raw := ⟨_, rfl⟩
  rw [hraw]
  rw [write_eq] at hraw
  have hno := lf_not_mem_statusLine (lf_not_mem_of_token h.version) h.statusText.1
  have hfirst : firstLine raw = statusLine r := by
    rw [firstLine, ← hraw]
    exact (takeWhile_delim hno _).1
  have hlines : linesAfterRequestLine raw
      = linesOf lf (headerLines (writtenHeaders r order) ++ cr :: lf :: r.body) := by
    have hthree : 3 ≤ (words (firstLine raw)).length := by
      rw [hfirst]
      exact three_le_words_statusLine h
    rw [linesAfterRequestLine, afterDelim_requestLine hthree, ← hraw, afterDelim_append hno]
  obtain ⟨hfields, hrest⟩ := headerSection_headerLines _ r.body (clean_writtenHeaders h ho)
  rw [← hlines] at hfields hrest
  refine ⟨?_, hrest⟩
  rw [headerFields, hfields, insertAll_writtenHeaders h ho]

theorem words_write {r : Response} (h : Presentable r) (order : HeaderOrder) :
    ∃ more, words (ResponseSerializer.write r order)
      = writtenVersion r :: decimalInt r.status.toInt :: more := by
  have hlf : isspace lf = true := by decide
  refine ⟨words (r.statusText ++ [cr])
    ++ words (headerLines (writtenHeaders r order) ++ cr :: lf :: r.body), ?_⟩
  rw [write_eq, words_append_space _ _ hlf, words_statusLine h]
  rfl

/-- **Encoder and decoder agree on the framing of a message.** -/
theorem parse_serialize (mem : Memory) {r : Response} (h : Presentable r)
    (hm : mem.CanHold r.body.length) {order : HeaderOrder} (ho : Enumerates order r.headers) :
    ∃ text q, ResponseSerializer.serialize (.response r) order = .ok text ∧
      parse mem text = .ok (some (.request q)) ∧
      q.method = (if r.version = [] then ascii "HTTP/1.1" else r.version) ∧
      q.path = decimalInt r.status.toInt ∧
      q.headers = r.headers.insert contentLength (decimal r.body.length) ∧ q.body = r.body := by
  obtain ⟨hheaders, hrest⟩ := sections_write h ho
  obtain ⟨more, hwords⟩ := words_write h order
  obtain ⟨raw, hraw⟩ : ∃ raw, ResponseSerializer.write r order = raw := ⟨_, rfl⟩
  have hserialize : ResponseSerializer.serialize (.response r) order = .ok raw := by
    rw [← hraw]
    rfl
  rw [hraw] at hheaders hrest hwords
  have hlength : contentLengthField raw = some (decimal r.body.length) := by
    rw [← lookup_contentLength raw []]
    show (insertAll (headerFields raw) (∅ : HeaderMap)).lookup contentLength = _
    rw [hheaders, Finmap.lookup_insert]
  have hbody : bodyOf mem (contentLengthField raw) (bytesAfterHeaders raw) = .ok r.body := by
    have hlt : r.body.length < ulongSize := by
      have hmax := hm.1
      have hsize := mem.maxSize_lt
      have hulong : (2 : Nat) ^ 63 < ulongSize := by decide
      omega
    have hpad := padTo_append r.body []
    rw [List.append_nil] at hpad
    rw [hrest, hlength]
    exact bodyOf_ok_iff.mpr (Or.inr ⟨_, _, rfl, stoul_decimal hlt, hm, hpad.symm⟩)
  obtain ⟨hmethod, hpath, -⟩ := requestLine_words raw
  rw [hwords] at hmethod hpath
  exact ⟨raw, requestOf raw r.body, hserialize, parse_ok_iff.mpr ⟨r.body, hbody, rfl⟩, hmethod, hpath,
    hheaders, rfl⟩

/-- A response of two words, without a version, whose body looks like a header. -/
def foundResponse : Response where
  status := 302
  statusText := ascii "Moved  on"
  version := []
  body := ascii "A: b\r\n\r\n"
  headers := Finmap.insert (ascii "Connection") (ascii "close") ∅

theorem presentable_foundResponse : Presentable foundResponse where
  version := by decide +kernel
  statusText := by decide +kernel
  field := by
    intro k v h
    obtain ⟨rfl, rfl⟩ := lookup_insert_empty.mp h
    decide +kernel
  framed := by decide +kernel

theorem parse_serialize_foundResponse :
    ∃ text q, ResponseSerializer.serialize (.response foundResponse)
        [⟨ascii "Connection", ascii "close"⟩] = .ok text ∧
      parse smallMemory text = .ok (some (.request q)) ∧
      q.method = (if foundResponse.version = [] then ascii "HTTP/1.1" else foundResponse.version) ∧
      q.path = decimalInt foundResponse.status.toInt ∧
      q.headers = foundResponse.headers.insert contentLength (decimal foundResponse.body.length) ∧
      q.body = foundResponse.body :=
  parse_serialize smallMemory presentable_foundResponse (by decide +kernel) (by decide +kernel)

end Sews.Http
