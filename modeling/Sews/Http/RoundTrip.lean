import Sews.Http.Parser

/-!
# Writing a request and reading it back

`parse_requestSerializer` is the one computation: on the text of a request with
clean fields, whatever follows it, the parser finds the three tokens, the header
map, and the body bytes.  Two laws rest on it:

* `parse_requestSerializer_of_wellFormed`: decoding undoes encoding;
* `parse_reparse`: a request that came out of the parser is clean, so writing it
  and parsing again gives the same request.  `clean_requestOf` is the image of
  the parser that this needs.

The header map comes back because a serializer writes each name once, and
inserting the entries in any order builds the map (`Enumerates.foldl_insert`).
-/

namespace Sews.Http

open Cpp IStringStream UnorderedMap RequestParser

/-! ### Clean fields -/

/-- Neither the first nor the last byte is a space or a tab. -/
def Trimmed (s : Bytes) : Prop :=
  (∀ b ∈ s.head?, isBlank b = false) ∧ (∀ b ∈ s.getLast?, isBlank b = false)

instance (s : Bytes) : Decidable (Trimmed s) := inferInstanceAs (Decidable (_ ∧ _))

/-- A token of the request line: not empty, and without white space. -/
def Token (s : Bytes) : Prop := s ≠ [] ∧ ∀ b ∈ s, isspace b = false

instance (s : Bytes) : Decidable (Token s) := inferInstanceAs (Decidable (_ ∧ _))

/-- The fields of a request that its text shows again: three tokens, names
without a colon, names and values on one line and trimmed. -/
structure Clean (r : Request) : Prop where
  method : Token r.method
  path : Token r.path
  version : Token r.version
  name : ∀ k v, r.headers.lookup k = some v → colon ∉ k ∧ lf ∉ k ∧ Trimmed k
  value : ∀ k v, r.headers.lookup k = some v → lf ∉ v ∧ Trimmed v

theorem trim_of_trimmed {s : Bytes} (h : Trimmed s) : trim s = s := by
  rw [trim]
  have hd : s.dropWhile isBlank = s := by
    cases s with
    | nil => rfl
    | cons b r => exact List.dropWhile_cons_of_neg (by simp [h.1 b rfl])
  rw [hd, List.rdropWhile_eq_self_iff]
  intro hl
  simpa using h.2 _ (List.getLast?_eq_some_getLast hl)

theorem trim_cons_sp (s : Bytes) : trim (sp :: s) = trim s := by
  unfold trim
  rw [List.dropWhile_cons_of_pos (by decide)]

theorem trimmed_trim (s : Bytes) : Trimmed (trim s) := by
  have hlast : ∀ b ∈ (trim s).getLast?, isBlank b = false := by
    intro b hb
    by_cases hn : trim s = []
    · rw [hn] at hb; cases hb
    · rw [Option.mem_def, List.getLast?_eq_some_getLast hn, Option.some.injEq] at hb
      have hl := List.rdropWhile_last_not isBlank (s.dropWhile isBlank) hn
      rw [← hb]
      exact Bool.not_eq_true _ ▸ hl
  refine ⟨fun b hb => ?_, hlast⟩
  -- the head survives trimming at the other end
  obtain ⟨t, ht⟩ := List.rdropWhile_prefix isBlank (s.dropWhile isBlank)
  have hhead : (s.dropWhile isBlank).head? = some b := by
    rw [← ht, List.head?_append]
    show (trim s).head?.or _ = _
    rw [Option.mem_def.mp hb]
    rfl
  have := List.head?_dropWhile_not isBlank s
  rw [hhead] at this
  simpa using this

theorem mem_of_mem_trim {s : Bytes} {b : Byte} (h : b ∈ trim s) : b ∈ s :=
  (List.dropWhile_sublist isBlank).subset
    ((List.rdropWhile_prefix isBlank (s.dropWhile isBlank)).subset h)

/-! ### The text of a request, line by line -/

theorem isspace_sp : isspace sp = true := by decide
theorem isspace_cr : isspace cr = true := by decide

theorem token_append {w : Bytes} (hw : Token w) {c : Byte} (hc : isspace c = true) (rest : Bytes) :
    token (w ++ c :: rest) = (w, c :: rest) := by
  obtain ⟨hne, hns⟩ := hw
  have hdrop : (w ++ c :: rest).dropWhile isspace = w ++ c :: rest := by
    cases w with
    | nil => exact absurd rfl hne
    | cons b r => exact List.dropWhile_cons_of_neg (by simp [hns b (by simp)])
  have hall : ∀ b ∈ w, (!isspace b) = true := fun b hb => by simp [hns b hb]
  rw [token]
  rw [hdrop, List.takeWhile_append_of_pos hall, List.dropWhile_append_of_pos hall,
    List.takeWhile_cons_of_neg (by simp [hc]), List.dropWhile_cons_of_neg (by simp [hc]),
    List.append_nil]

theorem token_cons {c : Byte} (hc : isspace c = true) (bs : Bytes) : token (c :: bs) = token bs := by
  unfold token
  rw [List.dropWhile_cons_of_pos hc]

theorem requestLine_requestSerializer {r : Request} (h : Clean r) (order : HeaderOrder)
    (tail : Bytes) :
    requestLine (requestSerializer r order ++ tail) = (r.method, r.path, r.version,
      cr :: lf :: (headerLines order ++ cr :: lf :: (r.body ++ tail))) := by
  have e : requestSerializer r order ++ tail = r.method ++ sp :: (r.path ++ sp :: (r.version ++
      cr :: lf :: (headerLines order ++ cr :: lf :: (r.body ++ tail)))) := by
    simp [requestSerializer, crlf]
  rw [requestLine, e, token_append h.method isspace_sp]
  dsimp only
  rw [token_cons isspace_sp, token_append h.path isspace_sp]
  dsimp only
  rw [token_cons isspace_sp, token_append h.version isspace_cr]

theorem popCr_append (line : Bytes) : popCr (line ++ [cr]) = line := by
  simp [popCr]

theorem field_header {k v : Bytes} (hk : colon ∉ k) (tk : Trimmed k) (tv : Trimmed v) :
    field (k ++ colon :: sp :: v) = some ⟨k, v⟩ := by
  obtain ⟨h1, h2⟩ := takeWhile_delim hk (sp :: v)
  rw [field, h1, h2]
  dsimp only
  rw [trim_of_trimmed tk, trim_cons_sp, trim_of_trimmed tv]

/-- The line that a header is written on. -/
def writtenLine (header : Σ _ : Bytes, Bytes) : Bytes := header.1 ++ colon :: sp :: header.2

/-- **The header section of a written message**: one line for each header, and what
stands after the blank line. -/
theorem headerSection_writtenLines : ∀ (order : HeaderOrder) (rest : Bytes),
    (∀ e ∈ order, lf ∉ e.1 ∧ lf ∉ e.2) →
    headerSection (linesOf lf (headerLines order ++ cr :: lf :: rest)) = (order.map writtenLine, rest) := by
  intro order
  induction order with
  | nil =>
    intro rest _
    have hl : linesOf lf (headerLines [] ++ cr :: lf :: rest) = ([cr], rest) :: linesOf lf rest :=
      @linesOf_append lf [cr] (by decide) rest
    rw [hl, headerSection, if_pos (by decide)]
    rfl
  | cons e order ih =>
    intro rest h
    obtain ⟨hlk, hlv⟩ := h e (by simp)
    have hmore := ih rest fun e' he' => h e' (by simp [he'])
    have hsplit : headerLines (e :: order) ++ cr :: lf :: rest
        = (writtenLine e ++ [cr]) ++ lf :: (headerLines order ++ cr :: lf :: rest) := by
      simp [headerLines, crlf, writtenLine]
    have hnl : lf ∉ writtenLine e ++ [cr] := by
      have h1 : lf ≠ colon := by decide
      have h2 : lf ≠ sp := by decide
      have h3 : lf ≠ cr := by decide
      simp [writtenLine, hlk, hlv, h1, h2, h3]
    have hne : writtenLine e ≠ [] := by simp [writtenLine]
    rw [hsplit, linesOf_append hnl, headerSection, popCr_append, if_neg hne, hmore]
    rfl

/-- Clean headers are read off their lines again. -/
theorem headerSection_headerLines (order : HeaderOrder) (rest : Bytes)
    (h : ∀ e ∈ order, (colon ∉ e.1 ∧ lf ∉ e.1 ∧ Trimmed e.1) ∧ lf ∉ e.2 ∧ Trimmed e.2) :
    (headerSection (linesOf lf (headerLines order ++ cr :: lf :: rest))).1.filterMap field = order ∧
      (headerSection (linesOf lf (headerLines order ++ cr :: lf :: rest))).2 = rest := by
  rw [headerSection_writtenLines order rest fun e he => ⟨(h e he).1.2.1, (h e he).2.1⟩]
  refine ⟨?_, rfl⟩
  have hfield : ∀ e ∈ order, (field ∘ writtenLine) e = some e := by
    intro e he
    obtain ⟨⟨hc, -, tk⟩, -, tv⟩ := h e he
    exact field_header hc tk tv
  rw [List.filterMap_map, List.filterMap_congr hfield, List.filterMap_some]

/-- **Reading the text of a clean request**, whatever follows it. -/
theorem parse_requestSerializer (mem : Memory) {r : Request} (h : Clean r) {order : HeaderOrder}
    (ho : Enumerates order r.headers) (tail : Bytes) :
    parse mem (requestSerializer r order ++ tail)
      = (bodyOf mem (r.headers.lookup contentLength) (r.body ++ tail)).map
        fun body => some (.request { r with body := body }) := by
  have hline := requestLine_requestSerializer h order tail
  have hclean : ∀ e ∈ order, (colon ∉ e.1 ∧ lf ∉ e.1 ∧ Trimmed e.1) ∧ lf ∉ e.2 ∧ Trimmed e.2 := by
    intro e he
    have hl := (ho.mem_iff e.1 e.2).mp he
    exact ⟨h.name _ _ hl, h.value _ _ hl⟩
  obtain ⟨h1, h2⟩ := headerSection_headerLines order (r.body ++ tail) hclean
  have hafter : afterDelim lf (requestLine (requestSerializer r order ++ tail)).2.2.2
      = headerLines order ++ cr :: lf :: (r.body ++ tail) := by
    rw [hline]
    exact @afterDelim_append lf [cr] (by decide) _
  have hf : headerFields (requestSerializer r order ++ tail) = order := by
    rw [headerFields, linesAfterRequestLine]
    rw [hafter, h1]
  have hb : bytesAfterHeaders (requestSerializer r order ++ tail) = r.body ++ tail := by
    rw [bytesAfterHeaders, linesAfterRequestLine, hafter, h2]
  have hrev : Enumerates order.reverse r.headers := by
    rw [Enumerates, Multiset.coe_reverse]
    exact ho
  have hreq : ∀ body, requestOf (requestSerializer r order ++ tail) body = { r with body := body } := by
    intro body
    rw [requestOf, hline, hf, ho.foldl_insert]
  rw [parse_eq, hb, contentLengthField, hf, hrev.dlookup]
  simp only [hreq]

/-! ### Decoding undoes encoding -/

/-- A clean request whose body is framed: no `Content-Length` and no body, or a
`Content-Length` that is the body's length in decimal. -/
structure WellFormed (r : Request) : Prop extends Clean r where
  framed : (r.headers.lookup contentLength = none ∧ r.body = []) ∨
    r.headers.lookup contentLength = some (decimal r.body.length)

theorem bodyOf_append {mem : Memory} {r : Request} (h : WellFormed r)
    (hm : mem.CanHold r.body.length) (tail : Bytes) :
    bodyOf mem (r.headers.lookup contentLength) (r.body ++ tail) = .ok r.body := by
  rw [bodyOf_ok_iff]
  rcases h.framed with ⟨hnone, hnil⟩ | hsome
  · exact Or.inl ⟨hnone, hnil⟩
  · have hlt : r.body.length < ulongSize := by
      have h1 := hm.1
      have h2 := mem.maxSize_lt
      have h3 : (2 : Nat) ^ 63 < ulongSize := by decide
      omega
    exact Or.inr ⟨_, _, hsome, stoul_decimal hlt, hm, (padTo_append r.body tail).symm⟩

/-- A well-formed request at the front of the bytes is what the parser reads,
whatever follows. -/
theorem parse_wellFormed_append {mem : Memory} {r : Request} (h : WellFormed r)
    (hm : mem.CanHold r.body.length) {order : HeaderOrder} (ho : Enumerates order r.headers)
    (tail : Bytes) :
    parse mem (requestSerializer r order ++ tail) = .ok (some (.request r)) := by
  rw [parse_requestSerializer mem h.toClean ho, bodyOf_append h hm]
  rfl

/-- **Decode undoes encode.**  A string as long as the body exists already, so
the memory can hold it. -/
theorem parse_requestSerializer_of_wellFormed (mem : Memory) (r : Request) (h : WellFormed r)
    (hm : mem.CanHold r.body.length) (order : HeaderOrder) (ho : Enumerates order r.headers) :
    parse mem (requestSerializer r order) = .ok (some (.request r)) := by
  have := parse_wellFormed_append h hm ho []
  rwa [List.append_nil] at this

/-- A request with one header, and a body that looks like the end of headers. -/
def postRequest : Request where
  method := ascii "POST"
  path := ascii "/test"
  version := ascii "HTTP/1.1"
  body := ascii "\r\n\r\nA: " ++ [nul]
  headers := Finmap.insert contentLength (ascii "8") ∅

theorem clean_postRequest : Clean postRequest where
  method := by decide +kernel
  path := by decide +kernel
  version := by decide +kernel
  name := by
    intro k v h
    obtain ⟨rfl, rfl⟩ := lookup_insert_empty.mp h
    decide +kernel
  value := by
    intro k v h
    obtain ⟨rfl, rfl⟩ := lookup_insert_empty.mp h
    decide +kernel

theorem parse_requestSerializer_postRequest :
    Enumerates [⟨contentLength, ascii "8"⟩] postRequest.headers ∧
      parse smallMemory (requestSerializer postRequest [⟨contentLength, ascii "8"⟩])
        = .ok (some (.request postRequest)) :=
  ⟨by decide, parse_requestSerializer_of_wellFormed smallMemory postRequest
    ⟨clean_postRequest, Or.inr (by decide)⟩ (by decide) _ (by decide)⟩

/-! ### The image of the parser -/

theorem mem_token {bs : Bytes} : ∀ b ∈ (token bs).1, isspace b = false := by
  intro b hb
  have h := List.mem_takeWhile_imp hb
  simpa using h

theorem lf_not_mem_headerSection : ∀ {lines : List (Bytes × Bytes)},
    (∀ l ∈ lines, lf ∉ l.1) → ∀ line ∈ (headerSection lines).1, lf ∉ line := by
  intro lines
  induction lines with
  | nil => intro _ line h; simp [headerSection] at h
  | cons l more ih =>
    intro h line hline
    obtain ⟨raw, rest⟩ := l
    rw [headerSection] at hline
    split at hline
    · simp at hline
    · rcases List.mem_cons.mp hline with he | hm
      · rw [he]
        intro hmem
        refine h (raw, rest) (by simp) ?_
        unfold popCr at hmem
        split at hmem
        · exact List.mem_of_mem_dropLast hmem
        · exact hmem
      · exact ih (fun l hl => h l (by simp [hl])) line hm

theorem field_clean {line : Bytes} (h : lf ∉ line) {e : Σ _ : Bytes, Bytes}
    (he : field line = some e) :
    (colon ∉ e.1 ∧ lf ∉ e.1 ∧ Trimmed e.1) ∧ lf ∉ e.2 ∧ Trimmed e.2 := by
  unfold field at he
  split at he
  · cases he
  · rename_i c value hd
    cases he
    have hv : ∀ b ∈ value, b ∈ line := fun b hb =>
      (List.dropWhile_sublist _).subset (by rw [hd]; exact List.mem_cons_of_mem c hb)
    have hk : ∀ b ∈ line.takeWhile (· != colon), b ∈ line ∧ b ≠ colon := fun b hb =>
      ⟨(List.takeWhile_sublist _).subset hb, by simpa using List.mem_takeWhile_imp hb⟩
    exact ⟨⟨fun hm => (hk _ (mem_of_mem_trim hm)).2 rfl, fun hm => h (hk _ (mem_of_mem_trim hm)).1,
      trimmed_trim _⟩, fun hm => h (hv _ (mem_of_mem_trim hm)), trimmed_trim _⟩

theorem mem_headerFields_of_lookup {raw k v : Bytes}
    (h : (insertAll (headerFields raw) (∅ : HeaderMap)).lookup k = some v) :
    (⟨k, v⟩ : Σ _ : Bytes, Bytes) ∈ headerFields raw := by
  rw [lookup_insertAll, Finmap.lookup_empty, Option.or_none] at h
  exact List.mem_reverse.mp (List.of_mem_dlookup h)

/-- **What comes out of the parser is clean.** -/
theorem clean_requestOf {raw body : Bytes} (hm : (requestOf raw body).method ≠ [])
    (hp : (requestOf raw body).path ≠ []) (hv : (requestOf raw body).version ≠ []) :
    Clean (requestOf raw body) := by
  have hfield : ∀ k v, (requestOf raw body).headers.lookup k = some v →
      (colon ∉ k ∧ lf ∉ k ∧ Trimmed k) ∧ lf ∉ v ∧ Trimmed v := by
    intro k v h
    obtain ⟨line, hline, hf⟩ := List.mem_filterMap.mp (mem_headerFields_of_lookup h)
    refine field_clean (lf_not_mem_headerSection (fun l hl => ?_) line hline) hf
    exact @not_mem_of_mem_linesOf lf _ l.1 l.2 hl
  exact ⟨⟨hm, mem_token⟩, ⟨hp, mem_token⟩, ⟨hv, mem_token⟩,
    fun k v h => (hfield k v h).1, fun k v h => (hfield k v h).2⟩

/-- **Parsing normalises once.**  A short body has been padded, and an odd
`Content-Length` is written as it was read, so the same number is read again. -/
theorem parse_reparse (mem : Memory) (raw : Bytes) (r : Request)
    (h : parse mem raw = .ok (some (.request r)))
    (hm : r.method ≠ []) (hp : r.path ≠ []) (hv : r.version ≠ []) :
    Clean r ∧ ∀ order, Enumerates order r.headers →
      parse mem (requestSerializer r order) = .ok (some (.request r)) := by
  rw [parse_eq] at h
  cases hb : bodyOf mem (contentLengthField raw) (bytesAfterHeaders raw) with
  | error e => rw [hb] at h; cases h
  | ok body =>
    rw [hb] at h
    cases h
    have hclean := clean_requestOf hm hp hv
    refine ⟨hclean, fun order ho => ?_⟩
    have hbody : bodyOf mem (contentLengthField raw) body = .ok body := by
      rw [bodyOf_ok_iff] at hb ⊢
      rcases hb with ⟨hnone, hnil⟩ | ⟨text, n, htext, hn, hc, hpad⟩
      · exact Or.inl ⟨hnone, hnil⟩
      · refine Or.inr ⟨text, n, htext, hn, hc, ?_⟩
        have hlen : body.length = n := by rw [hpad, length_padTo]
        rw [← hlen]
        simpa using (padTo_append body []).symm
    have := parse_requestSerializer mem hclean ho []
    rw [List.append_nil, List.append_nil, lookup_contentLength] at this
    rw [this]
    show (bodyOf mem (contentLengthField raw) body).map _ = _
    rw [hbody]
    rfl

set_option maxRecDepth 20000 in
/-- A colon-less line, a repeated name, an odd count and a short body. -/
theorem parse_reparse_short :
    parse smallMemory (requestSerializer
        (requestOf (ascii "GET  / HTTP/1.1\nA\nContent-Length: 1\nContent-Length:+3x \n\nab")
          (ascii "ab" ++ [nul])) [⟨contentLength, ascii "+3x"⟩])
      = .ok (some (.request
        (requestOf (ascii "GET  / HTTP/1.1\nA\nContent-Length: 1\nContent-Length:+3x \n\nab")
          (ascii "ab" ++ [nul])))) :=
  (parse_reparse smallMemory
    (ascii "GET  / HTTP/1.1\nA\nContent-Length: 1\nContent-Length:+3x \n\nab") _
    (by decide) (by decide) (by decide) (by decide)).2 _ (by decide)

end Sews.Http
