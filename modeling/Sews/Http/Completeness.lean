import Sews.Http.HeaderSection

/-!
# When a message is complete

The parser is given what one read brought, and it takes that as the whole message.  So
it matters whether more bytes would have made a difference.  They do not when the line
feed of the request line and a blank line after it are there, and as many bytes behind
it as `Content-Length` says (`Complete`).  In every other case they do: `complete_iff`
says that the parser's result is settled exactly for the complete messages.
-/

namespace Sews.Http.RequestParser

open Cpp IStringStream UnorderedMap

/-! ### Tokens and what follows them -/

/-- A token that is ended by white space stays as it is. -/
theorem token_more {bs : Bytes} (h : (token bs).2 ≠ []) (more : Bytes) :
    token (bs ++ more) = ((token bs).1, (token bs).2 ++ more) := by
  obtain ⟨ws, hws, heq, hns, hhead⟩ := token_split bs
  cases hrest : (token bs).2 with
  | nil => exact absurd hrest h
  | cons c rest =>
    have hc : isspace c = true := hhead c (by rw [hrest]; rfl)
    have hne : (token bs).1 ≠ [] := by
      intro hnil
      rw [token, dropWhile_of_token_nil hnil] at hrest
      cases hrest
    have hall : bs ++ more = ws ++ ((token bs).1 ++ c :: (rest ++ more)) := by
      calc bs ++ more = ws ++ ((token bs).1 ++ (token bs).2) ++ more := by rw [heq]
        _ = ws ++ ((token bs).1 ++ c :: (rest ++ more)) := by simp [hrest]
    rw [hall, token_append_blank hws, token_append ⟨hne, hns⟩ hc, List.cons_append]

theorem token_word {w : Bytes} (h : ∀ b ∈ w, isspace b = false) : token w = (w, []) := by
  have hdrop : w.dropWhile isspace = w := by
    cases w with
    | nil => rfl
    | cons b w => exact List.dropWhile_cons_of_neg (by simp [h b List.mem_cons_self])
  rw [token, hdrop, List.takeWhile_eq_self_iff.mpr fun b hb => by simp [h b hb],
    List.dropWhile_eq_nil_iff.mpr fun b hb => by simp [h b hb]]

theorem token_snoc {bs : Bytes} (h : (token bs).2 = []) {c : Byte} (hc : isspace c = false) :
    token (bs ++ [c]) = ((token bs).1 ++ [c], []) := by
  obtain ⟨ws, hws, heq, hns, -⟩ := token_split bs
  have hall : bs ++ [c] = ws ++ ((token bs).1 ++ [c]) := by
    calc bs ++ [c] = ws ++ ((token bs).1 ++ (token bs).2) ++ [c] := by rw [heq]
      _ = ws ++ ((token bs).1 ++ [c]) := by simp [h]
  rw [hall, token_append_blank hws]
  refine token_word fun b hb => ?_
  rcases List.mem_append.mp hb with hb | hb
  · exact hns b hb
  · rw [List.mem_singleton.mp hb, hc]

theorem requestLine_more {raw : Bytes} (h : (requestLine raw).2.2.2 ≠ []) (more : Bytes) :
    requestLine (raw ++ more) = ((requestLine raw).1, (requestLine raw).2.1, (requestLine raw).2.2.1,
      (requestLine raw).2.2.2 ++ more) := by
  have hpath : (token (token raw).2).2 ≠ [] := by
    intro hnil
    refine h ?_
    rw [requestLine, hnil]
    rfl
  have hmethod : (token raw).2 ≠ [] := by
    intro hnil
    rw [hnil] at hpath
    exact hpath rfl
  rw [requestLine, token_more hmethod]
  dsimp only
  rw [token_more hpath]
  dsimp only
  rw [token_more h]
  rfl

/-- When the version is not ended, one byte more changes a word of the request line. -/
theorem requestLine_snoc {raw : Bytes} (h : (requestLine raw).2.2.2 = []) {c : Byte}
    (hc : isspace c = false) : (requestLine (raw ++ [c])).2.2.2 = [] ∧
      ((requestLine (raw ++ [c])).1 ≠ (requestLine raw).1 ∨
        (requestLine (raw ++ [c])).2.1 ≠ (requestLine raw).2.1 ∨
        (requestLine (raw ++ [c])).2.2.1 ≠ (requestLine raw).2.2.1) := by
  have hgrows : ∀ w : Bytes, w ++ [c] ≠ w := by
    intro w heq
    have hlength := congrArg List.length heq
    rw [List.length_append, List.length_singleton] at hlength
    omega
  by_cases hmethod : (token raw).2 = []
  · have heq : requestLine (raw ++ [c]) = ((token raw).1 ++ [c], [], [], []) := by
      rw [requestLine, token_snoc hmethod hc]
      rfl
    rw [heq]
    exact ⟨rfl, Or.inl (hgrows _)⟩
  · by_cases hpath : (token (token raw).2).2 = []
    · have heq : requestLine (raw ++ [c]) = ((token raw).1, (token (token raw).2).1 ++ [c], [], []) := by
        rw [requestLine, token_more hmethod]
        dsimp only
        rw [token_snoc hpath hc]
        rfl
      rw [heq]
      exact ⟨rfl, Or.inr (Or.inl (hgrows _))⟩
    · have heq : requestLine (raw ++ [c]) = ((token raw).1, (token (token raw).2).1,
          (token (token (token raw).2).2).1 ++ [c], []) := by
        rw [requestLine, token_more hmethod]
        dsimp only
        rw [token_more hpath]
        dsimp only
        rw [token_snoc h hc]
      rw [heq]
      exact ⟨rfl, Or.inr (Or.inr (hgrows _))⟩

/-! ### Where the header lines end -/

/-- Some line of the text is blank, and ended by a line feed. -/
inductive Ended : Bytes → Prop
  | blank (line rest : Bytes) (hno : lf ∉ line) (hblank : popCr line = []) : Ended (line ++ lf :: rest)
  | later (line rest : Bytes) (hno : lf ∉ line) (h : Ended rest) : Ended (line ++ lf :: rest)

/-- What comes behind the blank line is not read as header lines. -/
theorem Ended.headerSection_more {bs : Bytes} (h : Ended bs) (more : Bytes) :
    headerSection (linesOf lf (bs ++ more))
      = ((headerSection (linesOf lf bs)).1, (headerSection (linesOf lf bs)).2 ++ more) := by
  induction h with
  | blank line rest hno hblank =>
    rw [List.append_assoc, List.cons_append, linesOf_append hno, linesOf_append hno, headerSection,
      if_pos hblank, headerSection, if_pos hblank]
  | later line rest hno _ ih =>
    rw [List.append_assoc, List.cons_append, linesOf_append hno, linesOf_append hno, headerSection,
      headerSection]
    split
    · rfl
    · rw [ih]

/-- Two lines, the first of which cannot be blank, whatever is in front of it. -/
def twoLines (line : Bytes) : Bytes := 0x78 :: lf :: (line ++ [lf])

/-- Without a blank line such lines are header lines. -/
theorem headerSection_twoLines {line : Bytes} (hno : lf ∉ line) (hline : popCr line = line)
    (hne : line ≠ []) {bs : Bytes} (h : ¬ Ended bs) :
    ∃ before, (headerSection (linesOf lf (bs ++ twoLines line))).1 = before ++ [line] := by
  induction bs using List.sep_induction lf with
  | last part hpart =>
    refine ⟨[part ++ [0x78]], ?_⟩
    have hfirst : lf ∉ part ++ [0x78] := by
      rw [List.mem_append, not_or]
      exact ⟨hpart, by decide⟩
    have hpop : popCr (part ++ [0x78]) = part ++ [0x78] := by
      simp [popCr, cr]
    have hall : part ++ twoLines line = (part ++ [0x78]) ++ lf :: (line ++ lf :: []) := by
      simp [twoLines]
    rw [hall, linesOf_append hfirst, linesOf_append hno, headerSection, hpop,
      if_neg (by simp), headerSection, hline, if_neg hne]
    rfl
  | more part rest hpart ih =>
    have hpop : popCr part ≠ [] := fun hblank => h (.blank part rest hpart hblank)
    obtain ⟨before, hbefore⟩ := ih fun hended => h (.later part rest hpart hended)
    refine ⟨popCr part :: before, ?_⟩
    rw [List.append_assoc, List.cons_append, linesOf_append hpart, headerSection, if_neg hpop]
    exact congrArg (popCr part :: ·) hbefore

/-! ### Complete messages -/

/-- The request line is ended, and a blank line after it. -/
def HeadersEnd (raw : Bytes) : Prop :=
  ∃ line after, (requestLine raw).2.2.2 = line ++ lf :: after ∧ lf ∉ line ∧ Ended after

/-- The headers are there, and as many bytes after them as `Content-Length` says, if it
says a number that a string can have as its length. -/
def Complete (mem : Memory) (raw : Bytes) : Prop :=
  HeadersEnd raw ∧ ∀ text n, contentLengthField raw = some text → stoul text = .ok n →
    mem.CanHold n → n ≤ (bytesAfterHeaders raw).length

section
variable {mem : Memory} {raw : Bytes}

theorem HeadersEnd.rest_ne_nil (h : HeadersEnd raw) : (requestLine raw).2.2.2 ≠ [] := by
  obtain ⟨line, after, heq, -, -⟩ := h
  rw [heq]
  simp

theorem HeadersEnd.section_more (h : HeadersEnd raw) (more : Bytes) :
    headerSection (linesAfterRequestLine (raw ++ more))
      = ((headerSection (linesAfterRequestLine raw)).1,
        (headerSection (linesAfterRequestLine raw)).2 ++ more) := by
  have hne := h.rest_ne_nil
  obtain ⟨line, after, heq, hno, hended⟩ := h
  rw [linesAfterRequestLine, linesAfterRequestLine, requestLine_more hne, heq, List.append_assoc,
    List.cons_append, afterDelim_append hno, afterDelim_append hno]
  exact hended.headerSection_more more

/-- **A complete message is read the same, whatever follows.** -/
theorem Complete.parse_more (h : Complete mem raw) (more : Bytes) :
    parse mem (raw ++ more) = parse mem raw := by
  obtain ⟨hend, hlength⟩ := h
  have hsection := hend.section_more more
  have hfields : headerFields (raw ++ more) = headerFields raw := by
    rw [headerFields, headerFields, hsection]
  have hvalue : contentLengthField (raw ++ more) = contentLengthField raw := by
    rw [contentLengthField, contentLengthField, hfields]
  have hafter : bytesAfterHeaders (raw ++ more) = bytesAfterHeaders raw ++ more := by
    rw [bytesAfterHeaders, bytesAfterHeaders, hsection]
  have hrequest : ∀ body, requestOf (raw ++ more) body = requestOf raw body := by
    intro body
    rw [requestOf, requestOf, hfields, requestLine_more hend.rest_ne_nil]
  have hbody : bodyOf mem (contentLengthField raw) (bytesAfterHeaders raw ++ more)
      = bodyOf mem (contentLengthField raw) (bytesAfterHeaders raw) := by
    unfold bodyOf
    cases htext : contentLengthField raw with
    | none => rfl
    | some text =>
      cases hn : stoul text with
      | error e => simp [hn]
      | ok n =>
        by_cases hhold : mem.CanHold n
        · have hle := hlength text n htext hn hhold
          have hpad : padTo n (bytesAfterHeaders raw ++ more) = padTo n (bytesAfterHeaders raw) := by
            rw [padTo, padTo, List.take_append_of_le_length hle, List.length_append,
              Nat.sub_eq_zero_of_le hle, Nat.sub_eq_zero_of_le (by omega)]
          simp [hn, hhold, hpad]
        · simp [hn, hhold]
  rw [parse_eq, parse_eq, hvalue, hafter, hbody]
  simp only [hrequest]

/-! ### Incomplete messages -/

theorem parse_snoc_ne (h : (requestLine raw).2.2.2 = []) : parse mem (raw ++ [0x78]) ≠ parse mem raw := by
  have hparse : ∀ raw', (requestLine raw').2.2.2 = [] →
      parse mem raw' = .ok (some (.request (requestOf raw' []))) := by
    intro raw' hnil
    have hfields : headerFields raw' = [] := by
      rw [headerFields, linesAfterRequestLine, hnil]
      rfl
    rw [parse_eq, contentLengthField, hfields]
    rfl
  obtain ⟨hnil, hdiffer⟩ := requestLine_snoc h (c := 0x78) (by decide)
  intro heq
  rw [hparse _ h, hparse _ hnil] at heq
  have hrequest : requestOf (raw ++ [0x78]) [] = requestOf raw [] := by
    injection heq with heq
    injection heq with heq
    injection heq
  rcases hdiffer with hne | hne | hne
  · exact hne (congrArg Request.method hrequest)
  · exact hne (congrArg Request.path hrequest)
  · exact hne (congrArg Request.version hrequest)

/-- When the request line's version is ended but not the headers, the value of
`Content-Length` can still be any. -/
theorem contentLengthField_twoLines (hne : (requestLine raw).2.2.2 ≠ []) (h : ¬ HeadersEnd raw) :
    ∃ front, ∀ line value, lf ∉ line → popCr line = line → line ≠ [] →
      field line = some ⟨contentLength, value⟩ →
        contentLengthField (raw ++ (front ++ twoLines line)) = some value := by
  obtain ⟨front, bs, hended, hafter⟩ : ∃ front bs, ¬ Ended bs ∧ ∀ more,
      afterDelim lf ((requestLine raw).2.2.2 ++ (front ++ more)) = bs ++ more := by
    rcases mem_split_delim lf (requestLine raw).2.2.2 with hno | ⟨line, after, heq, hno⟩
    · refine ⟨[lf], [], fun hended => ?_, fun more => ?_⟩
      · generalize hbs : ([] : Bytes) = bs at hended
        cases hended <;> simp at hbs
      · exact afterDelim_append hno more
    · refine ⟨[], after, fun hended => h ⟨line, after, heq, hno, hended⟩, fun more => ?_⟩
      rw [heq, List.append_assoc, List.cons_append, afterDelim_append hno]
      rfl
  refine ⟨front, fun line value hno hpop hline hfield => ?_⟩
  obtain ⟨before, hbefore⟩ := headerSection_twoLines hno hpop hline hended
  rw [contentLengthField, headerFields, linesAfterRequestLine, requestLine_more hne, hafter, hbefore,
    List.filterMap_append, List.filterMap_cons, hfield, List.reverse_append]
  exact List.dlookup_cons_eq _ _ _

theorem parse_of_stoul_error {text : Bytes} {e : Exception} (htext : contentLengthField raw = some text)
    (h : stoul text = .error e) : parse mem raw = .error e := by
  rw [parse_eq, htext, bodyOf]
  simp only [h]
  rfl

/-- A text whose headers are not ended can still come to throw one exception or
another. -/
theorem headersEnd_of_settled (h : ∀ more, parse mem (raw ++ more) = parse mem raw) : HeadersEnd raw := by
  by_contra hno
  by_cases hnil : (requestLine raw).2.2.2 = []
  · exact parse_snoc_ne hnil (h [0x78])
  · obtain ⟨front, hfront⟩ := contentLengthField_twoLines hnil hno
    have hinvalid : parse mem raw = .error .invalidArgument := by
      rw [← h (front ++ twoLines (ascii "Content-Length:x"))]
      exact parse_of_stoul_error (hfront _ (ascii "x") (by decide) (by decide) (by decide) (by decide)) (by decide)
    have hrange : parse mem raw = .error .outOfRange := by
      rw [← h (front ++ twoLines (ascii "Content-Length:99999999999999999999"))]
      exact parse_of_stoul_error (hfront _ (ascii "99999999999999999999") (by decide) (by decide) (by decide)
        (by decide)) (by decide)
    rw [hinvalid] at hrange
    cases hrange

/-- A body that is too short is filled up with other bytes than those that can follow. -/
theorem padTo_snoc_ne {n : Nat} {bytes : Bytes} (h : bytes.length < n) :
    padTo n (bytes ++ [0x78]) ≠ padTo n bytes := by
  obtain ⟨k, rfl⟩ : ∃ k, n = bytes.length + (k + 1) := ⟨n - bytes.length - 1, by omega⟩
  intro heq
  rw [padTo, padTo, List.take_of_length_le (by simp), List.take_of_length_le (by omega), List.append_assoc,
    List.append_cancel_left_eq, List.length_append] at heq
  have hcount : bytes.length + (k + 1) - bytes.length = k + 1 := by omega
  rw [hcount, List.replicate_succ] at heq
  exact absurd (List.cons.inj heq).1 (by decide)

/-- **When the parser's result is settled.**  No bytes that follow change what the parser
makes of a text, be it a request or an exception, exactly when the text is complete: its
headers are ended, and the body that `Content-Length` announces is there. -/
theorem complete_iff (mem : Memory) (raw : Bytes) :
    Complete mem raw ↔ ∀ more, parse mem (raw ++ more) = parse mem raw := by
  refine ⟨fun h => h.parse_more, fun h => ?_⟩
  have hend := headersEnd_of_settled h
  refine ⟨hend, fun text n htext hn hhold => ?_⟩
  by_contra hlt
  have hsection := hend.section_more [0x78]
  have hvalue : contentLengthField (raw ++ [0x78]) = some text := by
    rw [contentLengthField, headerFields, hsection]
    exact htext
  have hafter : bytesAfterHeaders (raw ++ [0x78]) = bytesAfterHeaders raw ++ [0x78] := by
    rw [bytesAfterHeaders, hsection]
    rfl
  have hbody : ∀ bytes, bodyOf mem (some text) bytes = .ok (padTo n bytes) := by
    intro bytes
    exact bodyOf_ok_iff.mpr (Or.inr ⟨text, n, rfl, hn, hhold, rfl⟩)
  have heq := h [0x78]
  rw [parse_eq, parse_eq, hvalue, htext, hafter, hbody, hbody] at heq
  have hpad : padTo n (bytesAfterHeaders raw ++ [0x78]) = padTo n (bytesAfterHeaders raw) := by
    injection heq with heq
    injection heq with heq
    injection heq with heq
    exact congrArg Request.body heq
  exact padTo_snoc_ne (by omega) hpad

end
end Sews.Http.RequestParser
