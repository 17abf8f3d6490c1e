import Sews.Cpp.Bytes

/-!
# Input string streams

`IStringStream` is a `std::istringstream`: the bytes not yet extracted and the
two state bits that matter here.  Every formatted or unformatted input function
first builds a `sentry`, which fails on a stream that is not good; `extract` is
`operator>>` into a `std::string`, `getline` is `std::getline`, `read` is
`istream::read`.

A program reads lines with

    while (std::getline(is, line, delim)) body

and `whileGetline` is that loop, for a body that may `break` (`ForInStep.done`)
or go on (`ForInStep.yield`).  The loop runs on the stream; what it does is
easier to say on the lines: `linesOf delim bs` cuts `bs` into its lines, each
with the bytes after its delimiter, and `whileGetline_spec` says the loop is a
fold over that list, which stops at the first `break` with the stream standing
right after that line.
-/

namespace Cpp

structure IStringStream where
  rest : Bytes
  eofbit : Bool := false
  failbit : Bool := false
deriving DecidableEq, Repr

namespace IStringStream

/-- `std::istringstream is(bs)`. -/
def ofBytes (bs : Bytes) : IStringStream := { rest := bs }

def good (is : IStringStream) : Bool := !is.eofbit && !is.failbit

/-- `istream::sentry(is, noskipws)`: skips white space unless told not to, and
says whether the input function may go on. -/
def sentry (noskipws : Bool) (is : IStringStream) : Bool × IStringStream :=
  if is.good then
    if noskipws then (true, is)
    else
      let rest := is.rest.dropWhile isspace
      if rest = [] then (false, { rest := [], eofbit := true, failbit := true })
      else (true, { is with rest := rest })
  else (false, { is with failbit := true })

/-- `is >> target`. -/
def extract (target : Bytes) (is : IStringStream) : Bytes × IStringStream :=
  match is.sentry false with
  | (false, is) => (target, is)
  | (true, is) =>
    let token := is.rest.takeWhile (!isspace ·)
    let rest := is.rest.dropWhile (!isspace ·)
    (token, { rest := rest, eofbit := rest = [], failbit := token = [] })

/-- `std::getline(is, target, delim)`.  The delimiter is extracted and not
stored; extracting nothing at all is a failure. -/
def getline (delim : Byte) (target : Bytes) (is : IStringStream) : Bytes × IStringStream :=
  match is.sentry true with
  | (false, is) => (target, is)
  | (true, is) =>
    let line := is.rest.takeWhile (· != delim)
    match is.rest.dropWhile (· != delim) with
    | [] => (line, { rest := [], eofbit := true, failbit := line = [] })
    | _ :: rest => (line, { is with rest := rest })

/-- `is.read(target, n)`: overwrites the front of `target` with what there is. -/
def read (target : Bytes) (n : Nat) (is : IStringStream) : Bytes × IStringStream :=
  match is.sentry true with
  | (false, is) => (target, is)
  | (true, is) =>
    let got := is.rest.take n
    (got ++ target.drop got.length,
      if got.length = n then { is with rest := is.rest.drop n }
      else { rest := [], eofbit := true, failbit := true })

/-! ### What the input functions extract

A stream that is no longer good has no bytes left, and then every input function
fails; so only `rest` matters for what a program reads. -/

/-- A stream that still has bytes is good. -/
def Settled (is : IStringStream) : Prop := is.good = true ∨ is.rest = []

theorem settled_ofBytes (bs : Bytes) : (ofBytes bs).Settled := Or.inl rfl

theorem eq_ofBytes {is : IStringStream} (h : is.good = true) : is = ofBytes is.rest := by
  obtain ⟨rest, eofbit, failbit⟩ := is
  simp only [good, Bool.and_eq_true, Bool.not_eq_true'] at h
  obtain ⟨rfl, rfl⟩ := h
  rfl

/-- The first token of `bs`, and what follows it. -/
def token (bs : Bytes) : Bytes × Bytes :=
  ((bs.dropWhile isspace).takeWhile (!isspace ·), (bs.dropWhile isspace).dropWhile (!isspace ·))

@[simp] theorem token_nil : token [] = ([], []) := rfl

theorem settled_mk (rest : Bytes) : ({ rest := rest, eofbit := rest = [] } : IStringStream).Settled := by
  by_cases h : rest = []
  · exact Or.inr h
  · exact Or.inl (by simp [good, h])

/-- **`>>` takes the next token**, and leaves a fresh string empty when there is
none. -/
theorem extract_spec {is : IStringStream} (h : is.Settled) :
    (is.extract []).1 = (token is.rest).1 ∧ (is.extract []).2.rest = (token is.rest).2 ∧
      (is.extract []).2.Settled := by
  by_cases hg : is.good = true
  · by_cases hr : is.rest.dropWhile isspace = []
    · simp [extract, sentry, hg, hr, token, Settled]
    · have htok : (is.rest.dropWhile isspace).takeWhile (!isspace ·) ≠ [] := by
        cases hd : is.rest.dropWhile isspace with
        | nil => exact absurd hd hr
        | cons c rest =>
          have hc := List.head?_dropWhile_not isspace is.rest
          rw [hd] at hc
          simp only [List.head?_cons] at hc
          rw [List.takeWhile_cons_of_pos (by simpa using hc)]
          simp
      simp only [extract, sentry, hg, if_true, Bool.false_eq_true, if_false, if_neg hr, token,
        true_and, htok, decide_false]
      exact settled_mk _
  · have hr : is.rest = [] := h.resolve_left hg
    simp [extract, sentry, hg, hr, Settled]

theorem mem_split_delim (delim : Byte) (bs : Bytes) :
    delim ∉ bs ∨ ∃ line rest, bs = line ++ delim :: rest ∧ delim ∉ line := by
  by_cases h : delim ∈ bs
  · exact Or.inr (List.eq_append_cons_of_mem h)
  · exact Or.inl h

theorem takeWhile_delim {delim : Byte} {line : Bytes} (h : delim ∉ line) (rest : Bytes) :
    (line ++ delim :: rest).takeWhile (· != delim) = line ∧
      (line ++ delim :: rest).dropWhile (· != delim) = delim :: rest := by
  have hp : ∀ c ∈ line, (c != delim) = true := by
    intro c hc
    have hne : c ≠ delim := by rintro rfl; exact h hc
    simpa using hne
  rw [List.takeWhile_append_of_pos hp, List.dropWhile_append_of_pos hp]
  simp

theorem takeWhile_of_not_mem {delim : Byte} {line : Bytes} (h : delim ∉ line) :
    line.takeWhile (· != delim) = line ∧ line.dropWhile (· != delim) = [] := by
  have hp : ∀ c ∈ line, (c != delim) = true := by
    intro c hc
    have hne : c ≠ delim := by rintro rfl; exact h hc
    simpa using hne
  exact ⟨List.takeWhile_eq_self_iff.mpr hp, List.dropWhile_eq_nil_iff.mpr hp⟩

theorem getline_delim {delim : Byte} {line : Bytes} (h : delim ∉ line) (target rest : Bytes) :
    (ofBytes (line ++ delim :: rest)).getline delim target = (line, ofBytes rest) := by
  obtain ⟨h1, h2⟩ := takeWhile_delim h rest
  simp only [getline, sentry, ofBytes, good, Bool.not_false, Bool.and_self, if_true, h1, h2]

theorem getline_last {delim : Byte} {line : Bytes} (h : delim ∉ line) (target : Bytes) :
    (ofBytes line).getline delim target
      = (line, { rest := [], eofbit := true, failbit := line = [] }) := by
  obtain ⟨h1, h2⟩ := takeWhile_of_not_mem h
  simp only [getline, sentry, ofBytes, good, Bool.not_false, Bool.and_self, if_true, h1, h2]

theorem getline_not_good {is : IStringStream} {delim : Byte} {target : Bytes}
    (hg : is.good = false) : is.getline delim target = (target, { is with failbit := true }) := by
  simp [getline, sentry, hg]

/-- The bytes after the first delimiter. -/
def afterDelim (delim : Byte) (bs : Bytes) : Bytes := (bs.dropWhile (· != delim)).tail

theorem afterDelim_append {delim : Byte} {line : Bytes} (h : delim ∉ line) (rest : Bytes) :
    afterDelim delim (line ++ delim :: rest) = rest := by
  rw [afterDelim, (takeWhile_delim h rest).2, List.tail_cons]

theorem getline_spec {is : IStringStream} (h : is.Settled) (delim : Byte) (target : Bytes) :
    (is.getline delim target).2.rest = afterDelim delim is.rest ∧
      (is.getline delim target).2.Settled := by
  by_cases hg : is.good = true
  · rw [eq_ofBytes hg]
    rcases mem_split_delim delim is.rest with hl | ⟨line, rest, hr, hl⟩
    · rw [getline_last hl, ofBytes, afterDelim, (takeWhile_of_not_mem hl).2]
      exact ⟨rfl, Or.inr rfl⟩
    · rw [hr, getline_delim hl]
      exact ⟨(afterDelim_append hl rest).symm, settled_ofBytes rest⟩
  · have hr := h.resolve_left hg
    rw [getline_not_good (by simpa using hg)]
    refine ⟨?_, Or.inr hr⟩
    show is.rest = afterDelim delim is.rest
    rw [hr]
    rfl

/-- **`read` overwrites the front of its target with the bytes there are.** -/
theorem read_spec {is : IStringStream} (h : is.Settled) (target : Bytes) (n : Nat) :
    (is.read target n).1 = is.rest.take n ++ target.drop (is.rest.take n).length := by
  by_cases hg : is.good = true
  · simp [read, sentry, hg]
  · simp [read, sentry, hg, h.resolve_left hg]

end IStringStream

/-! ### The line-reading loop -/

open IStringStream

variable {σ : Type*}

/-- The loop of `whileGetline`, with a bound on the number of rounds. -/
def whileGetlineAux (delim : Byte) (body : Bytes → σ → ForInStep σ) :
    Nat → σ → IStringStream → σ × IStringStream
  | 0, a, is => (a, is)
  | fuel + 1, a, is =>
    match is.getline delim [] with
    | (line, is) =>
      if is.failbit then (a, is)
      else match body line a with
        | .done a => (a, is)
        | .yield a => whileGetlineAux delim body fuel a is

/-- `while (std::getline(is, line, delim)) body`.  Each round but the last takes
at least one byte off the stream, so the bound is never the reason to stop
(`whileGetline_spec`). -/
def whileGetline (delim : Byte) (body : Bytes → σ → ForInStep σ) (a : σ) (is : IStringStream) :
    σ × IStringStream :=
  whileGetlineAux delim body (is.rest.length + 1) a is

/-- The lines of `bs`, each with the bytes after its delimiter.  A last line
without a delimiter counts unless it is empty. -/
def linesOf (delim : Byte) : Bytes → List (Bytes × Bytes)
  | [] => []
  | c :: cs =>
    if c = delim then ([], cs) :: linesOf delim cs
    else match linesOf delim cs with
      | [] => [([c], [])]
      | (line, rest) :: more => (c :: line, rest) :: more

theorem linesOf_append {delim : Byte} : ∀ {line : Bytes}, delim ∉ line → ∀ rest : Bytes,
    linesOf delim (line ++ delim :: rest) = (line, rest) :: linesOf delim rest := by
  intro line
  induction line with
  | nil => intro _ rest; simp [linesOf]
  | cons c cs ih =>
    intro h rest
    rw [List.cons_append, linesOf, if_neg (fun he => h (by simp [he])),
      ih (fun hm => h (by simp [hm])) rest]

theorem linesOf_last {delim : Byte} : ∀ {line : Bytes}, delim ∉ line → line ≠ [] →
    linesOf delim line = [(line, [])] := by
  intro line
  induction line with
  | nil => intro _ h; exact absurd rfl h
  | cons c cs ih =>
    intro h _
    rw [linesOf, if_neg (fun he => h (by simp [he]))]
    cases cs with
    | nil => rfl
    | cons d ds => rw [ih (fun hm => h (by simp [hm])) (by simp)]

theorem not_mem_of_mem_linesOf {delim : Byte} : ∀ {bs line rest : Bytes},
    (line, rest) ∈ linesOf delim bs → delim ∉ line := by
  intro bs
  induction bs with
  | nil => intro line rest h; simp [linesOf] at h
  | cons c cs ih =>
    intro line rest h
    rw [linesOf] at h
    split at h
    · rcases List.mem_cons.mp h with he | hm
      · rw [Prod.mk.injEq] at he
        simp [he.1]
      · exact ih hm
    · rename_i hc
      split at h
      · simp only [List.mem_singleton, Prod.mk.injEq] at h
        simp [h.1, Ne.symm hc]
      · rename_i line' rest' more hcs
        rcases List.mem_cons.mp h with he | hm
        · rw [Prod.mk.injEq] at he
          have := @ih line' rest' (by rw [hcs]; simp)
          simp [he.1, this, Ne.symm hc]
        · exact ih (by rw [hcs]; exact List.mem_cons_of_mem _ hm)

/-- The loop on the lines: the result, and the bytes left when it stops. -/
def foldLines (body : Bytes → σ → ForInStep σ) : σ → List (Bytes × Bytes) → σ × Bytes
  | a, [] => (a, [])
  | a, (line, rest) :: more =>
    match body line a with
    | .done a => (a, rest)
    | .yield a => foldLines body a more

theorem whileGetlineAux_spec (delim : Byte) (body : Bytes → σ → ForInStep σ) :
    ∀ (fuel : Nat) (a : σ) (is : IStringStream), is.Settled → is.rest.length < fuel →
      (whileGetlineAux delim body fuel a is).1 = (foldLines body a (linesOf delim is.rest)).1 ∧
      (whileGetlineAux delim body fuel a is).2.rest = (foldLines body a (linesOf delim is.rest)).2 ∧
      (whileGetlineAux delim body fuel a is).2.Settled := by
  intro fuel
  induction fuel with
  | zero => intro a is _ h; omega
  | succ fuel ih =>
    intro a is hs hlen
    by_cases hg : is.good = true
    · rw [eq_ofBytes hg]
      show _ = (foldLines body a (linesOf delim is.rest)).1 ∧
        _ = (foldLines body a (linesOf delim is.rest)).2 ∧ _
      rcases mem_split_delim delim is.rest with hl | ⟨line, rest, hr, hl⟩
      · -- a last line, or nothing at all
        rw [whileGetlineAux, getline_last hl]
        by_cases hnil : is.rest = []
        · simp [hnil, linesOf, foldLines, Settled]
        · rw [linesOf_last hl hnil]
          simp only [hnil, decide_false, Bool.false_eq_true, if_false, foldLines]
          cases hb : body is.rest a with
          | done b => exact ⟨rfl, rfl, Or.inr rfl⟩
          | yield b =>
            have hpos : 0 < is.rest.length := List.length_pos_iff.mpr hnil
            exact ih b { rest := [], eofbit := true, failbit := false } (Or.inr rfl)
              (by simp only [List.length_nil]; omega)
      · rw [whileGetlineAux, hr, getline_delim hl, linesOf_append hl]
        simp only [ofBytes, Bool.false_eq_true, if_false, foldLines]
        cases hb : body line a with
        | done b => exact ⟨rfl, rfl, settled_ofBytes rest⟩
        | yield b =>
          refine ih b (ofBytes rest) (settled_ofBytes rest) ?_
          rw [hr, List.length_append, List.length_cons] at hlen
          show rest.length < fuel
          omega
    · have hr := hs.resolve_left hg
      rw [whileGetlineAux, getline_not_good (by simpa using hg)]
      simp [hr, linesOf, foldLines, Settled]

/-- **The line-reading loop is a fold over the lines.** -/
theorem whileGetline_spec {is : IStringStream} (h : is.Settled) (delim : Byte)
    (body : Bytes → σ → ForInStep σ) (a : σ) :
    (whileGetline delim body a is).1 = (foldLines body a (linesOf delim is.rest)).1 ∧
    (whileGetline delim body a is).2.rest = (foldLines body a (linesOf delim is.rest)).2 ∧
    (whileGetline delim body a is).2.Settled :=
  whileGetlineAux_spec delim body _ a is h (Nat.lt_succ_self _)

end Cpp
