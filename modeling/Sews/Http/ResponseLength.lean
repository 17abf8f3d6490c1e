import Sews.Http.HeaderCase
import Sews.Http.ResponseFraming

/-!
# Does a response frame itself?

A receiver that takes header names in any letter case finds the end of the body by
the one `Content-Length` in the header section.  The encoder writes the headers of
the response as they are, and adds the length of the body unless there is a header
of the exact name `Content-Length`.  So a response of one-line fields frames itself
exactly when its own headers of that name, in any letter case, have this spelling
and say the length of the body (`framesItself_serialize_iff`).
-/

namespace Sews.Http

open Cpp IStringStream UnorderedMap RequestParser

/-! ### The length of a message, in its text -/

/-- A header line named `Content-Length` in some letter case. -/
def isLengthLine (line : Bytes) : Bool :=
  colon ∈ line ∧ lowered (line.takeWhile (· != colon)) = lowered contentLength

/-- The text after the first colon of a line, without the blanks around it. -/
def fieldValue (line : Bytes) : Bytes := trim (line.dropWhile (· != colon)).tail

/-- What the header section of `raw` says of the length, field by field. -/
def lengthValues (raw : Bytes) : List Bytes := ((headerLinesOf raw).filter isLengthLine).map fieldValue

/-- The bytes after the blank line that ends the header section. -/
def bytesAfterBlank (raw : Bytes) : Bytes := (headerSection (linesOf lf (afterDelim lf raw))).2

/-- There is one length, that of the bytes after the blank line. -/
def FramesItself (raw : Bytes) : Prop := lengthValues raw = [decimal (bytesAfterBlank raw).length]

instance (raw : Bytes) : Decidable (FramesItself raw) := inferInstanceAs (Decidable (_ = _))

/-- A header named `Content-Length` in some letter case. -/
def isLength (header : Σ _ : Bytes, Bytes) : Bool := lowered header.1 = lowered contentLength

theorem isLengthLine_writtenLine {header : Σ _ : Bytes, Bytes} (h : colon ∉ header.1) :
    isLengthLine (writtenLine header) = isLength header := by
  have hname := (takeWhile_delim h (sp :: header.2)).1
  rw [isLengthLine, isLength, writtenLine, hname]
  simp

theorem fieldValue_writtenLine {header : Σ _ : Bytes, Bytes} (h : colon ∉ header.1) :
    fieldValue (writtenLine header) = trim header.2 := by
  have hvalue := (takeWhile_delim h (sp :: header.2)).2
  rw [fieldValue, writtenLine, hvalue, List.tail_cons, trim_cons_sp]

/-- **The lengths in a written message** are those of its headers. -/
theorem lengthValues_headerLines {first : Bytes} (hfirst : lf ∉ first) {order : HeaderOrder}
    (h : ∀ e ∈ order, colon ∉ e.1 ∧ lf ∉ e.1 ∧ lf ∉ e.2) (body : Bytes) :
    lengthValues (first ++ lf :: (headerLines order ++ cr :: lf :: body))
        = (order.filter isLength).map (trim ·.2) ∧
      bytesAfterBlank (first ++ lf :: (headerLines order ++ cr :: lf :: body)) = body := by
  have hsection := headerSection_writtenLines order body fun e he => (h e he).2
  have hlines : headerLinesOf (first ++ lf :: (headerLines order ++ cr :: lf :: body))
      = order.map writtenLine := by
    rw [headerLinesOf, afterDelim_append hfirst, ← headerSection_fst, hsection]
  constructor
  · have hfilter : order.filter (isLengthLine ∘ writtenLine) = order.filter isLength :=
      List.filter_congr fun e he => isLengthLine_writtenLine (h e he).1
    rw [lengthValues, hlines, List.filter_map, hfilter, List.map_map]
    refine List.map_congr_left fun e he => ?_
    exact fieldValue_writtenLine (h e (List.mem_filter.mp he).1).1
  · rw [bytesAfterBlank, afterDelim_append hfirst, hsection]

/-! ### The headers that the encoder writes -/

/-- The headers of the response have the name `Content-Length` in this spelling
only, and with the length of the body. -/
def LengthTrusted (r : Response) : Prop :=
  ∀ k v, r.headers.lookup k = some v → lowered k = lowered contentLength →
    k = contentLength ∧ trim v = decimal r.body.length

/-- Without a header `Content-Length` the encoder's own is the only one if there is
no other spelling of it. -/
theorem single_length_of_none {r : Response} {order : HeaderOrder} (ho : Enumerates order r.headers)
    (hnone : r.headers.lookup contentLength = none) :
    ((writtenHeaders r order).filter isLength).map (trim ·.2) = [decimal r.body.length] ↔
      LengthTrusted r := by
  have hown : isLength ⟨contentLength, decimal r.body.length⟩ = true := by simp [isLength]
  have htrim : trim (decimal r.body.length) = decimal r.body.length :=
    trim_of_trimmed (trimmed_of_no_space (isspace_decimal _))
  rw [writtenHeaders, if_pos hnone, List.filter_append, List.map_append,
    List.filter_cons_of_pos hown, List.filter_nil, List.map_singleton, htrim,
    List.append_eq_singleton_iff]
  simp only [List.cons_ne_nil, and_false, or_false, and_true, List.map_eq_nil_iff,
    List.filter_eq_nil_iff]
  constructor
  · intro hno k v hl hk
    exact absurd (by simpa [isLength] using hk) (hno ⟨k, v⟩ ((ho.mem_iff k v).mpr hl))
  · intro htrust e he hlength
    obtain ⟨hname, -⟩ := htrust e.1 e.2 ((ho.mem_iff _ _).mp he) (by simpa [isLength] using hlength)
    have hl := (ho.mem_iff e.1 e.2).mp he
    rw [hname, hnone] at hl
    cases hl

/-- With a header `Content-Length` it is the only one if there is no other spelling
of it, and it is written as it is. -/
theorem single_length_of_some {r : Response} {order : HeaderOrder} (ho : Enumerates order r.headers)
    {value : Bytes} (hsome : r.headers.lookup contentLength = some value) :
    ((writtenHeaders r order).filter isLength).map (trim ·.2) = [decimal r.body.length] ↔
      LengthTrusted r := by
  have hhere : (⟨contentLength, value⟩ : Σ _ : Bytes, Bytes) ∈ order.filter isLength :=
    List.mem_filter.mpr ⟨(ho.mem_iff _ _).mpr hsome, by simp [isLength]⟩
  rw [writtenHeaders, if_neg (by rw [hsome]; simp), List.append_nil]
  constructor
  · intro hsingle k v hl hk
    obtain ⟨e, he, hvalue⟩ := List.map_eq_singleton_iff.mp hsingle
    have hother : (⟨k, v⟩ : Σ _ : Bytes, Bytes) ∈ order.filter isLength :=
      List.mem_filter.mpr ⟨(ho.mem_iff k v).mpr hl, by simpa [isLength] using hk⟩
    rw [he, List.mem_singleton] at hhere hother
    rw [← hhere] at hother hvalue
    cases hother
    exact ⟨rfl, hvalue⟩
  · intro htrust
    have hfilter : order.filter isLength = order.filter fun e => e.1 = contentLength := by
      refine List.filter_congr fun e he => ?_
      rw [Bool.eq_iff_iff, isLength, decide_eq_true_iff, decide_eq_true_iff]
      constructor
      · exact fun hname => (htrust e.1 e.2 ((ho.mem_iff _ _).mp he) hname).1
      · exact fun hname => congrArg lowered hname
    rw [hfilter, ho.filter_key, hsome]
    exact congrArg (fun v => [v]) (htrust contentLength value hsome rfl).2

/-- **When a response frames itself.** -/
theorem framesItself_serialize_iff {r : Response} (hversion : lf ∉ r.version)
    (hstatus : lf ∉ r.statusText)
    (hheader : ∀ k v, r.headers.lookup k = some v → colon ∉ k ∧ lf ∉ k ∧ lf ∉ v)
    {order : HeaderOrder} (ho : Enumerates order r.headers) :
    ∃ text, ResponseSerializer.serialize (.response r) order = .ok text ∧
      bytesAfterBlank text = r.body ∧
      (FramesItself text ↔ LengthTrusted r) := by
  have hwritten : ∀ e ∈ writtenHeaders r order, colon ∉ e.1 ∧ lf ∉ e.1 ∧ lf ∉ e.2 := by
    intro e he
    rcases List.mem_append.mp he with he | he
    · exact hheader _ _ ((ho.mem_iff e.1 e.2).mp he)
    · split at he
      · have hname : colon ∉ contentLength ∧ lf ∉ contentLength := by decide +kernel
        rw [List.mem_singleton.mp he]
        exact ⟨hname.1, hname.2, lf_not_mem_of_token (isspace_decimal _)⟩
      · cases he
  obtain ⟨hvalues, hbody⟩ :=
    lengthValues_headerLines (lf_not_mem_statusLine hversion hstatus) hwritten r.body
  rw [← write_eq] at hvalues hbody
  refine ⟨ResponseSerializer.write r order, rfl, hbody, ?_⟩
  rw [FramesItself, hvalues, hbody]
  cases hl : r.headers.lookup contentLength with
  | none => exact single_length_of_none ho hl
  | some value => exact single_length_of_some ho hl

/-- A response that says its own length, with blanks around it. -/
def measuredResponse : Response :=
  { body := ascii "ab", headers := Finmap.insert contentLength (ascii " 2\t") ∅ }

theorem framesItself_serialize_iff_measuredResponse :
    ∃ text, ResponseSerializer.serialize (.response measuredResponse) [⟨contentLength, ascii " 2\t"⟩]
        = .ok text ∧
      bytesAfterBlank text = measuredResponse.body ∧
      (FramesItself text ↔ LengthTrusted measuredResponse) := by
  refine framesItself_serialize_iff (by decide +kernel) (by decide +kernel) ?_ (by decide +kernel)
  intro k v h
  obtain ⟨rfl, rfl⟩ := lookup_insert_empty.mp h
  decide +kernel

/-- A response with clean header lines whose text does not frame itself. -/
def Unframed (r : Response) (order : HeaderOrder) : Prop :=
  Enumerates order r.headers ∧ (∀ e ∈ order, colon ∉ e.1 ∧ ∀ b ∈ e.1 ++ e.2, b ≠ cr ∧ b ≠ lf) ∧
    ResponseSerializer.serialize (.response r) order = .ok (ResponseSerializer.write r order) ∧
    ¬ FramesItself (ResponseSerializer.write r order)

instance (r : Response) (order : HeaderOrder) : Decidable (Unframed r order) :=
  inferInstanceAs (Decidable (_ ∧ _ ∧ _ ∧ _))

/-- Another spelling of the name, a length that is not that of the body, and a line
break in the status text or in the version. -/
theorem unframed_serialize :
    Unframed { headers := Finmap.insert (ascii "content-length") (ascii "0") ∅ }
      [⟨ascii "content-length", ascii "0"⟩] ∧
    Unframed { headers := Finmap.insert contentLength (ascii "5") ∅ } [⟨contentLength, ascii "5"⟩] ∧
    Unframed { statusText := ascii "OK\r\nContent-Length: 5" } [] ∧
    Unframed { version := ascii "HTTP/1.1\nContent-Length: 5" } [] := by
  refine ⟨?_, ?_, ?_, ?_⟩
  · decide +kernel
  · decide +kernel
  · decide +kernel
  · decide +kernel

end Sews.Http
