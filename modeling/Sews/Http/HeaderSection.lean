import Sews.Cpp.Words
import Sews.Http.RoundTrip

/-!
# The sections of a message

`parse_eq` describes the parser by its own helper functions.  Here the header map
and the body are said in terms of the lines of `raw`:

* `Stripped` is what is left of a string without the blanks at its ends, and a
  line `Contributes` the stripped text before its first colon and the stripped
  text after it;
* `LastWins` is the map of a list of lines in which a later line replaces an
  earlier one of the same name;
* `Sections` cuts `raw` into the first line, more complete lines, a blank line and
  the bytes after it.

`header_section` is the semantics of the header section for a message whose first
line has the three words of a request line; `body_in_raw_iff` says when the body
is made of bytes of the message at all.
-/

namespace Sews.Http.RequestParser

open Cpp IStringStream UnorderedMap

/-! ### Lines and what they contribute -/

/-- `t` is `s` without the blanks at its ends. -/
def Stripped (s t : Bytes) : Prop :=
  ∃ front back, s = front ++ (t ++ back) ∧ (∀ b ∈ front, isBlank b = true) ∧
    (∀ b ∈ back, isBlank b = true) ∧ Trimmed t

/-- A line contributes a name and a value, those before and after its first
colon. -/
def Contributes (line key value : Bytes) : Prop :=
  ∃ before after, line = before ++ colon :: after ∧ colon ∉ before ∧ Stripped before key ∧
    Stripped after value

/-- The map in which the last line of a name wins. -/
def LastWins (lines : List Bytes) (key value : Bytes) : Prop :=
  ∃ before line after, lines = before ++ line :: after ∧ Contributes line key value ∧
    ∀ later ∈ after, ∀ value', ¬ Contributes later key value'

/-- The first line, up to the first line feed or the end. -/
def firstLine (raw : Bytes) : Bytes := raw.takeWhile (· != lf)

/-- The header lines: those after the first line, each without one `\r` at its end,
up to the first that is empty. -/
def headerLinesOf (raw : Bytes) : List Bytes :=
  ((lines lf (afterDelim lf raw)).map popCr).takeWhile fun line => line ≠ []

theorem trim_append_blank : ∀ {back : Bytes}, (∀ b ∈ back, isBlank b = true) → ∀ s : Bytes,
    (s ++ back).rdropWhile isBlank = s.rdropWhile isBlank := by
  intro back
  induction back using List.reverseRecOn with
  | nil => intro _ s; rw [List.append_nil]
  | append_singleton back b ih =>
    intro h s
    rw [← List.append_assoc, List.rdropWhile_concat_pos _ _ _ (h b (by simp))]
    exact ih (fun c hc => h c (by simp [hc])) s

theorem stripped_iff {s t : Bytes} : Stripped s t ↔ trim s = t := by
  constructor
  · rintro ⟨front, back, rfl, hf, hb, ht⟩
    rw [trim, List.dropWhile_append_of_pos hf]
    cases t with
    | nil =>
      rw [List.nil_append, List.dropWhile_eq_nil_iff.mpr hb]
      rfl
    | cons c t =>
      have hc : isBlank c = false := ht.1 c rfl
      rw [List.cons_append, List.dropWhile_cons_of_neg (by simp [hc]), ← List.cons_append,
        trim_append_blank hb, List.rdropWhile_eq_self_iff]
      intro hne
      simpa using ht.2 _ (List.getLast?_eq_some_getLast hne)
  · rintro rfl
    refine ⟨s.takeWhile isBlank, (s.dropWhile isBlank).rtakeWhile isBlank, ?_,
      fun b hb => List.mem_takeWhile_imp hb, fun b hb => List.mem_rtakeWhile_imp hb, trimmed_trim s⟩
    rw [trim, List.rdropWhile_append_rtakeWhile, List.takeWhile_append_dropWhile]

theorem contributes_iff {line key value : Bytes} :
    Contributes line key value ↔ field line = some ⟨key, value⟩ := by
  rw [field]
  constructor
  · rintro ⟨before, after, rfl, hno, hkey, hvalue⟩
    obtain ⟨htake, hdrop⟩ := takeWhile_delim hno after
    rw [hdrop, htake]
    dsimp only
    rw [stripped_iff.mp hkey, stripped_iff.mp hvalue]
  · intro h
    rcases mem_split_delim colon line with hno | ⟨before, after, rfl, hno⟩
    · rw [(takeWhile_of_not_mem hno).2] at h
      cases h
    · obtain ⟨htake, hdrop⟩ := takeWhile_delim hno after
      rw [hdrop, htake] at h
      cases h
      exact ⟨before, after, rfl, hno, stripped_iff.mpr rfl, stripped_iff.mpr rfl⟩

/-- The last line contributes, or what wins is among the lines before it. -/
theorem lastWins_append_singleton {lines : List Bytes} {line key value : Bytes} :
    LastWins (lines ++ [line]) key value ↔ Contributes line key value ∨
      ((∀ value', ¬ Contributes line key value') ∧ LastWins lines key value) := by
  constructor
  · rintro ⟨before, line', after, heq, hc, hlater⟩
    rcases List.eq_nil_or_concat after with rfl | ⟨after, last, rfl⟩
    · obtain ⟨-, hlast⟩ := List.append_inj' heq rfl
      cases hlast
      exact Or.inl hc
    · have hassoc : lines ++ [line] = (before ++ line' :: after) ++ [last] := by simpa using heq
      obtain ⟨hlines, hlast⟩ := List.append_inj' hassoc rfl
      cases hlast
      refine Or.inr ⟨hlater line (by simp), before, line', after, hlines, hc, fun l hl => ?_⟩
      exact hlater l (by simp [hl])
  · rintro (hc | ⟨hno, before, line', after, rfl, hc, hlater⟩)
    · exact ⟨lines, line, [], rfl, hc, fun l hl => absurd hl List.not_mem_nil⟩
    · refine ⟨before, line', after ++ [line], by simp, hc, fun l hl => ?_⟩
      rcases List.mem_append.mp hl with hl | hl
      · exact hlater l hl
      · rw [List.mem_singleton.mp hl]
        exact hno

/-- Inserting the fields of the lines one after the other lets the last one win. -/
theorem lastWins_iff : ∀ (lines : List Bytes) (key value : Bytes),
    LastWins lines key value ↔
      (insertAll (lines.filterMap field) (∅ : HeaderMap)).lookup key = some value := by
  intro lines
  induction lines using List.reverseRecOn with
  | nil =>
    intro key value
    refine iff_of_false ?_ (by simp [insertAll])
    rintro ⟨before, line, after, heq, -⟩
    simp at heq
  | append_singleton lines line ih =>
    intro key value
    rw [lastWins_append_singleton, ih, List.filterMap_append, insertAll_append]
    simp only [contributes_iff]
    cases hf : field line with
    | none => simp [hf, insertAll]
    | some e =>
      obtain ⟨k, v⟩ := e
      have hone : insertAll ([line].filterMap field)
          (insertAll (lines.filterMap field) (∅ : HeaderMap))
          = (insertAll (lines.filterMap field) (∅ : HeaderMap)).insert k v := by
        simp [hf, insertAll]
      rw [hone]
      by_cases hk : key = k
      · subst hk
        rw [Finmap.lookup_insert]
        simp
      · rw [Finmap.lookup_insert_of_ne _ hk]
        simp [Ne.symm hk]

/-! ### The parser's header section -/

theorem headerSection_fst : ∀ bs : Bytes, (headerSection (linesOf lf bs)).1
    = ((lines lf bs).map popCr).takeWhile fun line => line ≠ [] := by
  intro bs
  rw [lines]
  induction linesOf lf bs with
  | nil => rfl
  | cons l more ih =>
    obtain ⟨line, rest⟩ := l
    rw [headerSection, List.map_cons, List.map_cons]
    by_cases h : popCr line = []
    · rw [if_pos h, List.takeWhile_cons_of_neg (by simpa using h)]
    · rw [if_neg h, List.takeWhile_cons_of_pos (by simpa using h)]
      exact congrArg _ ih

/-- **The three words of the request line are taken off its own line**, when that
is the first line. -/
theorem afterDelim_requestLine {raw : Bytes} (h : 3 ≤ (words (firstLine raw)).length) :
    afterDelim lf (requestLine raw).2.2.2 = afterDelim lf raw := by
  rcases mem_split_delim lf raw with hno | ⟨line, rest, rfl, hl⟩
  · -- no line feed at all
    have hsuffix : (requestLine raw).2.2.2 <:+ raw :=
      ((token_suffix _).trans (token_suffix _)).trans (token_suffix raw)
    have hno' : lf ∉ (requestLine raw).2.2.2 := fun hmem => hno (hsuffix.subset hmem)
    rw [afterDelim, (takeWhile_of_not_mem hno').2, afterDelim, (takeWhile_of_not_mem hno).2]
  · have hlf : isspace lf = true := by decide
    rw [firstLine, (takeWhile_delim hl rest).1] at h
    have h1 := (words_token line).2
    have h2 := (words_token (token line).2).2
    rw [h1] at h2
    have hne : words line ≠ [] := by
      intro hnil
      rw [hnil] at h
      simp at h
    have hne1 : words (token line).2 ≠ [] := by
      intro hnil
      rw [h1] at hnil
      have hlen := congrArg List.length hnil
      rw [List.length_tail, List.length_nil] at hlen
      omega
    have hne2 : words (token (token line).2).2 ≠ [] := by
      intro hnil
      rw [h2] at hnil
      have hlen := congrArg List.length hnil
      rw [List.length_tail, List.length_tail, List.length_nil] at hlen
      omega
    have hno : lf ∉ (token (token (token line).2).2).2 := by
      have hsuffix : (token (token (token line).2).2).2 <:+ line :=
        ((token_suffix _).trans (token_suffix _)).trans (token_suffix line)
      exact fun hmem => hl (hsuffix.subset hmem)
    rw [requestLine, token_line hne hlf]
    dsimp only
    rw [token_line hne1 hlf]
    dsimp only
    rw [token_line hne2 hlf]
    dsimp only
    rw [afterDelim_append hno, afterDelim_append hl]

theorem headerFields_eq {raw : Bytes} (h : 3 ≤ (words (firstLine raw)).length) :
    headerFields raw = (headerLinesOf raw).filterMap field := by
  rw [headerFields, linesAfterRequestLine, afterDelim_requestLine h, headerSection_fst]
  rfl

/-- `raw` is a first line, complete lines `header`, a blank line, and `tail`. -/
structure Sections (raw first header blank tail : Bytes) : Prop where
  text : raw = first ++ lf :: (header ++ (blank ++ lf :: tail))
  first : lf ∉ first
  complete : header = [] ∨ header.getLast? = some lf
  blank : blank = [] ∨ blank = [cr]

namespace Sections

variable {raw first header blank tail : Bytes}

theorem lf_not_mem_blank (h : Sections raw first header blank tail) : lf ∉ blank := by
  rcases h.blank with rfl | rfl <;> decide

theorem popCr_blank (h : Sections raw first header blank tail) : popCr blank = [] := by
  rcases h.blank with rfl | rfl <;> decide

theorem firstLine_eq (h : Sections raw first header blank tail) : firstLine raw = first := by
  rw [firstLine, h.text]
  exact (takeWhile_delim h.first _).1

theorem afterDelim_eq (h : Sections raw first header blank tail) :
    afterDelim lf raw = header ++ (blank ++ lf :: tail) := by
  rw [h.text, afterDelim_append h.first]

/-- The header lines end at the blank line at the latest, so the bytes after it do
not matter. -/
theorem headerLinesOf_eq (h : Sections raw first header blank tail) :
    headerLinesOf raw = ((lines lf header).map popCr).takeWhile fun line => line ≠ [] := by
  rw [headerLinesOf, h.afterDelim_eq, lines_append_of_ends h.complete,
    lines_append h.lf_not_mem_blank, List.map_append, List.map_cons, h.popCr_blank,
    List.takeWhile_append]
  split
  · rename_i hall
    rw [List.takeWhile_cons_of_neg (by simp), List.append_nil]
    exact ((List.takeWhile_prefix _).eq_of_length hall).symm
  · rfl

end Sections

/-- Header lines that are not blank are passed over. -/
theorem headerSection_snd {header : Bytes} (hends : header = [] ∨ header.getLast? = some lf)
    (hlines : ∀ line ∈ lines lf header, popCr line ≠ []) (rest : Bytes) :
    (headerSection (linesOf lf (header ++ rest))).2 = (headerSection (linesOf lf rest)).2 := by
  induction header using List.sep_induction lf with
  | last line hno =>
    rcases hends with rfl | hlast
    · rfl
    · exact absurd (List.mem_of_getLast? hlast) hno
  | more line more hl ih =>
    rw [lines_append hl] at hlines
    rw [List.append_assoc, List.cons_append, linesOf_append hl, headerSection,
      if_neg (hlines line List.mem_cons_self)]
    exact ih (ends_of_append hends) fun l hl' => hlines l (List.mem_cons_of_mem _ hl')

theorem Sections.bytesAfterHeaders_eq {raw first header blank tail : Bytes}
    (h : Sections raw first header blank tail) (hline : 3 ≤ (words (firstLine raw)).length)
    (hlines : ∀ line ∈ lines lf header, popCr line ≠ []) : bytesAfterHeaders raw = tail := by
  rw [bytesAfterHeaders, linesAfterRequestLine, afterDelim_requestLine hline, h.afterDelim_eq,
    headerSection_snd h.complete hlines, linesOf_append h.lf_not_mem_blank, headerSection,
    if_pos h.popCr_blank]

theorem parse_ok_iff {mem : Memory} {raw : Bytes} {r : Request} :
    parse mem raw = .ok (some (.request r)) ↔
      ∃ body, bodyOf mem (contentLengthField raw) (bytesAfterHeaders raw) = .ok body ∧
        r = requestOf raw body := by
  rw [parse_eq]
  cases bodyOf mem (contentLengthField raw) (bytesAfterHeaders raw) with
  | error e => simp [Except.map]
  | ok body => simp [Except.map, eq_comm]

/-- **What the header section means.**  For a message whose first line has at
least three words, and on which the parser returns: in the header map the last
header line of a name wins; no byte after a blank line matters to it; and with a
`Content-Length` of `n`, of which `n` bytes at least follow the first blank line,
the body is the first `n` of them. -/
theorem header_section {mem : Memory} {raw : Bytes} {r : Request}
    (hline : 3 ≤ (words (firstLine raw)).length) (h : parse mem raw = .ok (some (.request r))) :
    (∀ key value, r.headers.lookup key = some value ↔ LastWins (headerLinesOf raw) key value) ∧
    (∀ first header blank tail tail' r', Sections raw first header blank tail →
      parse mem (first ++ lf :: (header ++ (blank ++ lf :: tail'))) = .ok (some (.request r')) →
      r'.headers = r.headers) ∧
    (∀ first header blank tail text n, Sections raw first header blank tail →
      (∀ line ∈ lines lf header, popCr line ≠ []) →
      r.headers.lookup contentLength = some text → stoul text = .ok n → n ≤ tail.length →
      r.body = tail.take n) := by
  obtain ⟨body, hbody, rfl⟩ := parse_ok_iff.mp h
  refine ⟨fun key value => ?_, fun first header blank tail tail' r' hs h' => ?_,
    fun first header blank tail text n hs hlines htext hn hle => ?_⟩
  · rw [lastWins_iff, ← headerFields_eq hline]
    rfl
  · obtain ⟨body', -, rfl⟩ := parse_ok_iff.mp h'
    have hs' : Sections (first ++ lf :: (header ++ (blank ++ lf :: tail'))) first header blank tail' :=
      ⟨rfl, hs.first, hs.complete, hs.blank⟩
    have hline' := hline
    rw [hs.firstLine_eq, ← hs'.firstLine_eq] at hline'
    show insertAll (headerFields _) ∅ = insertAll (headerFields raw) ∅
    rw [headerFields_eq hline', headerFields_eq hline, hs'.headerLinesOf_eq, hs.headerLinesOf_eq]
  · rw [lookup_contentLength] at htext
    rcases bodyOf_ok_iff.mp hbody with ⟨hnone, -⟩ | ⟨text', n', htext', hn', -, hb⟩
    · rw [hnone] at htext
      cases htext
    · rw [htext'] at htext
      cases htext
      rw [hn'] at hn
      cases hn
      show body = tail.take n
      rw [hb, hs.bytesAfterHeaders_eq hline hlines, padTo, Nat.sub_eq_zero_of_le hle]
      exact List.append_nil _

/-- A message with a colon-less line, a name given twice, and bytes behind the body. -/
def twiceText : Bytes :=
  ascii "GET / HTTP/1.1\nA: 1\nno colon\nA\t:\t3 \r\nContent-Length: 2\r\n\r\nabcd"

set_option maxRecDepth 10000 in
theorem header_section_twice :
    LastWins (headerLinesOf twiceText) (ascii "A") (ascii "3") ∧
      ∀ first header blank tail, Sections twiceText first header blank tail →
        (∀ line ∈ lines lf header, popCr line ≠ []) → 2 ≤ tail.length → ascii "ab" = tail.take 2 := by
  have hparse : parse smallMemory twiceText
      = .ok (some (.request (requestOf twiceText (ascii "ab")))) := by decide +kernel
  have hsection := header_section (by decide +kernel) hparse
  refine ⟨(hsection.1 _ _).mp (by decide +kernel), fun first header blank tail hs hlines hle => ?_⟩
  exact hsection.2.2 first header blank tail (ascii "2") 2 hs hlines (by decide +kernel) (by decide) hle

/-! ### Where the body comes from -/

theorem bytesAfterHeaders_suffix (raw : Bytes) : bytesAfterHeaders raw <:+ raw := by
  have hline : afterDelim lf (requestLine raw).2.2.2 <:+ raw :=
    (((afterDelim_suffix lf _).trans (token_suffix _)).trans (token_suffix _)).trans (token_suffix raw)
  have hsection : ∀ lines : List (Bytes × Bytes), (∀ l ∈ lines, l.2 <:+ raw) →
      (headerSection lines).2 <:+ raw := by
    intro lines
    induction lines with
    | nil => exact fun _ => List.nil_suffix
    | cons l more ih =>
      intro h
      obtain ⟨line, rest⟩ := l
      rw [headerSection]
      split
      · exact h (line, rest) List.mem_cons_self
      · exact ih fun l' hl' => h l' (List.mem_cons_of_mem _ hl')
  refine hsection _ fun l hl => ?_
  exact (@suffix_of_mem_linesOf lf _ l.1 l.2 hl).trans hline

/-- **When the body is made of bytes of the message.**  It is a block of the bytes
after the blank line exactly when there are as many of them as `Content-Length`
says; otherwise it is filled up with NUL bytes. -/
theorem body_in_raw_iff {mem : Memory} {raw : Bytes} {r : Request}
    (h : parse mem raw = .ok (some (.request r))) :
    (r.body <:+: bytesAfterHeaders raw ∧ r.body <:+: raw ∧ r.body.length ≤ raw.length) ↔
      ∀ text n, contentLengthField raw = some text → stoul text = .ok n →
        n ≤ (bytesAfterHeaders raw).length := by
  obtain ⟨body, hbody, rfl⟩ := parse_ok_iff.mp h
  have hin : body <:+: bytesAfterHeaders raw → body <:+: raw ∧ body.length ≤ raw.length := by
    intro hb
    have hraw := hb.trans (bytesAfterHeaders_suffix raw).isInfix
    exact ⟨hraw, hraw.length_le⟩
  constructor
  · rintro ⟨hblock, -, -⟩ text n htext hn
    rcases bodyOf_ok_iff.mp hbody with ⟨hnone, -⟩ | ⟨text', n', htext', hn', -, hb⟩
    · rw [hnone] at htext
      cases htext
    · rw [htext'] at htext
      cases htext
      rw [hn'] at hn
      cases hn
      have hle := hblock.length_le
      change body.length ≤ _ at hle
      rwa [hb, length_padTo] at hle
  · intro hall
    rcases bodyOf_ok_iff.mp hbody with ⟨-, hb⟩ | ⟨text, n, htext, hn, -, hb⟩
    · have hnil : body <:+: bytesAfterHeaders raw := by
        rw [hb]
        exact List.nil_infix
      exact ⟨hnil, hin hnil⟩
    · have hle := hall text n htext hn
      have htake : body <:+: bytesAfterHeaders raw := by
        rw [hb, padTo, Nat.sub_eq_zero_of_le hle, List.replicate_zero, List.append_nil]
        exact (List.take_prefix _ _).isInfix
      exact ⟨htake, hin htake⟩

/-- With two bytes announced and two there, the body is these. -/
theorem body_in_raw_iff_twice :
    (ascii "ab" <:+: bytesAfterHeaders twiceText ∧ ascii "ab" <:+: twiceText ∧
        (ascii "ab").length ≤ twiceText.length) ↔
      ∀ text n, contentLengthField twiceText = some text → stoul text = .ok n →
        n ≤ (bytesAfterHeaders twiceText).length :=
  @body_in_raw_iff smallMemory twiceText (requestOf twiceText (ascii "ab")) (by decide +kernel)

/-- A `Content-Length` of 50 and no body. -/
def shortText : Bytes := ascii "POST / HTTP/1.1\r\nContent-Length: 50\r\n\r\n"

/-- The body is fifty NUL bytes, more than the whole message has. -/
theorem body_invented :
    parse smallMemory shortText = .ok (some (.request (requestOf shortText (List.replicate 50 nul)))) ∧
      ¬ ∀ (mem : Memory) (raw : Bytes) (r : Request), parse mem raw = .ok (some (.request r)) →
        r.headers.lookup contentLength ≠ none →
        r.body <:+: bytesAfterHeaders raw ∧ r.body <:+: raw ∧ r.body.length ≤ raw.length := by
  have hparse : parse smallMemory shortText
      = .ok (some (.request (requestOf shortText (List.replicate 50 nul)))) := by decide +kernel
  refine ⟨hparse, fun hall => ?_⟩
  obtain ⟨-, -, hle⟩ := hall smallMemory shortText _ hparse (by decide +kernel)
  exact absurd hle (by decide +kernel)

end Sews.Http.RequestParser
