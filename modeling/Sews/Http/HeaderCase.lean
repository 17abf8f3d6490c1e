import Sews.Http.HeaderSection

/-!
# The letter case of header names

The header map is keyed by the names as they are written, and the parser looks for
`Content-Length` in this spelling only.  So a request whose names are spelled in
other letter cases (`Recased`) is read with the same fields, but its body is read
only if the name `Content-Length` kept its spelling (`parse_recased`).
-/

namespace Sews.Http

open Cpp UnorderedMap RequestParser

/-- The lower-case form of a letter. -/
def lower (b : Byte) : Byte := if 65 ≤ b ∧ b ≤ 90 then b + 32 else b

def lowered (s : Bytes) : Bytes := s.map lower

/-- The same request, with the letters of its header names in any case. -/
structure Recased (r r' : Request) : Prop where
  method : r'.method = r.method
  path : r'.path = r.path
  version : r'.version = r.version
  body : r'.body = r.body
  headers : ∃ order order', Enumerates order r.headers ∧ Enumerates order' r'.headers ∧
    List.Forall₂ (fun e e' => lowered e'.1 = lowered e.1 ∧ e'.2 = e.2) order order'

/-- No two header names differ in letter case only. -/
def CaseDistinct (headers : HeaderMap) : Prop :=
  ∀ k k' v v', headers.lookup k = some v → headers.lookup k' = some v' → lowered k = lowered k' → k = k'

theorem lower_eq_iff {b c : Byte} (hc : c < 65) : lower b = c ↔ b = c := by
  rw [lower]
  split
  · rename_i h
    have hc' : c.toNat < 65 := UInt8.lt_iff_toNat_lt.mp hc
    have hb : 65 ≤ b.toNat ∧ b.toNat ≤ 90 :=
      ⟨UInt8.le_iff_toNat_le.mp h.1, UInt8.le_iff_toNat_le.mp h.2⟩
    refine iff_of_false (fun heq => ?_) (fun heq => ?_)
    · have hsum := congrArg UInt8.toNat heq
      rw [UInt8.toNat_add] at hsum
      have h32 : (32 : UInt8).toNat = 32 := rfl
      omega
    · rw [heq] at hb
      omega
  · rfl

theorem isBlank_lower (b : Byte) : isBlank (lower b) = isBlank b := by
  have hsp : lower b = sp ↔ b = sp := lower_eq_iff (by decide)
  have hht : lower b = ht ↔ b = ht := lower_eq_iff (by decide)
  rw [Bool.eq_iff_iff]
  simp only [isBlank, Bool.or_eq_true, beq_iff_eq, hsp, hht]

theorem mem_lowered {c : Byte} (hc : c < 65) (s : Bytes) : c ∈ lowered s ↔ c ∈ s := by
  rw [lowered, List.mem_map]
  constructor
  · rintro ⟨b, hb, heq⟩
    rwa [← (lower_eq_iff hc).mp heq]
  · exact fun hmem => ⟨c, hmem, (lower_eq_iff hc).mpr rfl⟩

theorem trimmed_lowered (s : Bytes) : Trimmed (lowered s) ↔ Trimmed s := by
  rw [Trimmed, Trimmed, lowered, List.head?_map, List.getLast?_map]
  simp [isBlank_lower]

theorem clean_name {k k' : Bytes} (h : lowered k' = lowered k) :
    (colon ∉ k' ∧ lf ∉ k' ∧ Trimmed k') ↔ (colon ∉ k ∧ lf ∉ k ∧ Trimmed k) := by
  have hcolon : colon < 65 := by decide
  have hlf : lf < 65 := by decide
  rw [← mem_lowered hcolon k', ← mem_lowered hlf k', ← trimmed_lowered k', h, mem_lowered hcolon,
    mem_lowered hlf, trimmed_lowered]

namespace Recased

variable {r r' : Request}

/-- Every header of the new request is an old one in other letter case. -/
theorem header (h : Recased r r') {k' v : Bytes} (hl : r'.headers.lookup k' = some v) :
    ∃ k, r.headers.lookup k = some v ∧ lowered k' = lowered k := by
  obtain ⟨order, order', ho, ho', hall⟩ := h.headers
  have hmem := (ho'.mem_iff k' v).mpr hl
  obtain ⟨i, hi, heq⟩ := List.mem_iff_getElem.mp hmem
  have hi' : i < order.length := by rw [hall.length_eq]; exact hi
  obtain ⟨hname, hvalue⟩ := hall.get hi' hi
  rw [List.get_eq_getElem, List.get_eq_getElem, heq] at hname hvalue
  refine ⟨order[i].1, (ho.mem_iff _ _).mp ?_, hname⟩
  have hself : (⟨order[i].1, v⟩ : Σ _ : Bytes, Bytes) = order[i] := Sigma.ext rfl (heq_of_eq hvalue)
  rw [hself]
  exact List.getElem_mem hi'

theorem clean (h : Recased r r') (hr : Clean r) : Clean r' where
  method := by rw [h.method]; exact hr.method
  path := by rw [h.path]; exact hr.path
  version := by rw [h.version]; exact hr.version
  name := by
    intro k' v hl
    obtain ⟨k, hl', hk⟩ := h.header hl
    exact (clean_name hk).mpr (hr.name k v hl')
  value := by
    intro k' v hl
    obtain ⟨k, hl', -⟩ := h.header hl
    exact hr.value k v hl'

end Recased

/-- **Reading a request in other letter case.**  All fields are as they are
written; the body is there if the name `Content-Length` kept its spelling, and
otherwise it is empty. -/
theorem parse_recased (mem : Memory) {r r' : Request} (hr : Clean r)
    (hlength : r.headers.lookup contentLength = some (decimal r.body.length))
    (hdistinct : CaseDistinct r.headers) (hm : mem.CanHold r.body.length) (h : Recased r r')
    {order : HeaderOrder} (ho : Enumerates order r'.headers) :
    parse mem (requestSerializer r' order) = .ok (some (.request
      { r' with body := if r'.headers.lookup contentLength = none then [] else r.body })) := by
  have hparse := parse_requestSerializer mem (h.clean hr) ho []
  rw [List.append_nil, List.append_nil] at hparse
  rw [hparse]
  cases hl : r'.headers.lookup contentLength with
  | none =>
    rw [if_pos rfl]
    rfl
  | some text =>
    -- the name comes from one that differs in letter case only, which is itself
    obtain ⟨k, hk, hname⟩ := h.header hl
    have hkey : k = contentLength := hdistinct k contentLength _ _ hk hlength hname.symm
    rw [hkey, hlength] at hk
    cases hk
    have hwf : WellFormed r := ⟨hr, Or.inr hlength⟩
    have hbody := bodyOf_append hwf hm []
    rw [List.append_nil, hlength] at hbody
    rw [if_neg (by simp), h.body, hbody]
    rfl

/-- A posted body whose length is announced in lower case. -/
def lowerCaseRequest : Request :=
  { postRequest with headers := Finmap.insert (ascii "content-length") (ascii "8") ∅ }

theorem recased_lowerCaseRequest : Recased postRequest lowerCaseRequest where
  method := rfl
  path := rfl
  version := rfl
  body := rfl
  headers := by
    refine ⟨[⟨contentLength, ascii "8"⟩], [⟨ascii "content-length", ascii "8"⟩], by decide +kernel,
      by decide +kernel, ?_⟩
    exact .cons (by decide +kernel) .nil

theorem caseDistinct_postRequest : CaseDistinct postRequest.headers := by
  intro k k' v v' hk hk' _
  rw [(lookup_insert_empty.mp hk).1, (lookup_insert_empty.mp hk').1]

theorem parse_recased_lowerCaseRequest :
    parse smallMemory (requestSerializer lowerCaseRequest [⟨ascii "content-length", ascii "8"⟩])
      = .ok (some (.request { lowerCaseRequest with
          body := if lowerCaseRequest.headers.lookup contentLength = none then [] else postRequest.body })) :=
  parse_recased smallMemory clean_postRequest (by decide +kernel) caseDistinct_postRequest
    (by decide +kernel) recased_lowerCaseRequest (by decide +kernel)

/-- The body of eight bytes is read as `Content-Length` says, and not at all as
`content-length` says. -/
theorem body_lost_in_lower_case :
    WellFormed postRequest ∧ CaseDistinct postRequest.headers ∧
      postRequest.headers.lookup contentLength = some (decimal postRequest.body.length) ∧
      Recased postRequest lowerCaseRequest ∧
      parse smallMemory (requestSerializer postRequest [⟨contentLength, ascii "8"⟩])
        = .ok (some (.request postRequest)) ∧
      parse smallMemory (requestSerializer lowerCaseRequest [⟨ascii "content-length", ascii "8"⟩])
        = .ok (some (.request { lowerCaseRequest with body := [] })) ∧
      postRequest.body ≠ [] := by
  refine ⟨⟨clean_postRequest, Or.inr (by decide +kernel)⟩, caseDistinct_postRequest,
    by decide +kernel, recased_lowerCaseRequest, ?_, ?_, ?_⟩
  · decide +kernel
  · decide +kernel
  · decide +kernel

end Sews.Http
