import Sews.Cpp.Stream
import Sews.Lib.Runs

/-!
# Words and lines

Two ways to cut a byte string that say nothing of streams: `words bs` is the
maximal runs of bytes that are not white space, and `lines delim bs` what stands
between delimiters.

`words_token` says that `>>` takes the words one by one (`token`), and
`words_eq_flatMap` that no word crosses the end of a line.  A program that mixes
the two needs `token_line`: while the first line still has a word, `>>` stays on
it.
-/

namespace Cpp

open IStringStream

/-! ### Words -/

/-- The words of a byte string: its runs between white space. -/
def words (bs : Bytes) : List Bytes := bs.runs isspace

@[simp] theorem words_nil : words [] = [] := rfl

theorem words_append_space (xs ys : Bytes) {c : Byte} (hc : isspace c = true) :
    words (xs ++ c :: ys) = words xs ++ words ys := List.runs_append_cons xs ys hc

theorem words_cons_space {c : Byte} (hc : isspace c = true) (bs : Bytes) :
    words (c :: bs) = words bs := List.runs_cons hc bs

theorem words_append_blank : ∀ {ws : Bytes}, (∀ b ∈ ws, isspace b = true) → ∀ bs : Bytes,
    words (ws ++ bs) = words bs := by
  intro ws
  induction ws with
  | nil => intro _ bs; rfl
  | cons c ws ih =>
    intro h bs
    rw [List.cons_append, words_cons_space (h c List.mem_cons_self)]
    exact ih (fun b hb => h b (List.mem_cons_of_mem _ hb)) bs

theorem words_of_word {w : Bytes} (hne : w ≠ []) (hns : ∀ b ∈ w, isspace b = false) :
    words w = [w] := List.runs_of_run hne hns

/-! ### `>>` takes words -/

theorem dropWhile_of_token_nil {bs : Bytes} (h : (token bs).1 = []) : bs.dropWhile isspace = [] := by
  cases hd : bs.dropWhile isspace with
  | nil => rfl
  | cons c rest =>
    have hc := List.head?_dropWhile_not isspace bs
    rw [hd] at hc
    rw [token, hd, List.takeWhile_cons_of_pos (by simpa using hc)] at h
    cases h

/-- `token` skips blanks, takes a word, and leaves what begins with a blank. -/
theorem token_split (bs : Bytes) : ∃ ws, (∀ b ∈ ws, isspace b = true) ∧
    ws ++ ((token bs).1 ++ (token bs).2) = bs ∧ (∀ b ∈ (token bs).1, isspace b = false) ∧
      ∀ b ∈ (token bs).2.head?, isspace b = true := by
  refine ⟨bs.takeWhile isspace, fun b hb => List.mem_takeWhile_imp hb, ?_, fun b hb => ?_,
    fun b hb => ?_⟩
  · rw [token, List.takeWhile_append_dropWhile, List.takeWhile_append_dropWhile]
  · have h := List.mem_takeWhile_imp hb
    simpa using h
  · have h := List.head?_dropWhile_not (!isspace ·) (bs.dropWhile isspace)
    rw [token, Option.mem_def] at hb
    rw [hb] at h
    simpa using h

/-- **`token` takes the first word and leaves the others.** -/
theorem words_eq (bs : Bytes) :
    words bs = if (token bs).1 = [] then [] else (token bs).1 :: words (token bs).2 := by
  obtain ⟨ws, hws, heq, hns, hhead⟩ := token_split bs
  have hwords : words bs = words ((token bs).1 ++ (token bs).2) := by
    calc words bs = words (ws ++ ((token bs).1 ++ (token bs).2)) := by rw [heq]
      _ = words ((token bs).1 ++ (token bs).2) := words_append_blank hws _
  split
  · rename_i hnil
    have hrest : (token bs).2 = [] := by rw [token, dropWhile_of_token_nil hnil]; rfl
    rw [hwords, hnil, hrest]
    rfl
  · rename_i hne
    rw [hwords]
    cases hrest : (token bs).2 with
    | nil => rw [List.append_nil, words_of_word hne hns, words_nil]
    | cons c rest =>
      have hc : isspace c = true := hhead c (by rw [hrest]; rfl)
      rw [words_append_space _ _ hc, words_of_word hne hns, words_cons_space hc]
      rfl

theorem token_eq_nil_iff {bs : Bytes} : (token bs).1 = [] ↔ words bs = [] := by
  rw [words_eq]
  split
  · rename_i h
    exact iff_of_true h rfl
  · rename_i h
    exact iff_of_false h (by simp)

theorem words_token (bs : Bytes) :
    (token bs).1 = (words bs).headD [] ∧ words (token bs).2 = (words bs).tail := by
  rw [words_eq bs]
  split
  · rename_i h
    have hrest : (token bs).2 = [] := by rw [token, dropWhile_of_token_nil h]; rfl
    rw [h, hrest]
    exact ⟨rfl, rfl⟩
  · exact ⟨rfl, rfl⟩

theorem isspace_of_words_nil {bs : Bytes} (h : words bs = []) : ∀ b ∈ bs, isspace b = true :=
  List.dropWhile_eq_nil_iff.mp (dropWhile_of_token_nil (token_eq_nil_iff.mpr h))

theorem token_append_blank {ws : Bytes} (h : ∀ b ∈ ws, isspace b = true) (bs : Bytes) :
    token (ws ++ bs) = token bs := by
  rw [token, List.dropWhile_append_of_pos h, token]

theorem token_suffix (bs : Bytes) : (token bs).2 <:+ bs := by
  rw [token]
  exact (List.dropWhile_suffix _).trans (List.dropWhile_suffix _)

theorem afterDelim_suffix (delim : Byte) (bs : Bytes) : afterDelim delim bs <:+ bs :=
  (List.tail_suffix _).trans (List.dropWhile_suffix _)

/-- **On a line with a word `>>` does not leave the line.** -/
theorem token_line {line : Bytes} (h : words line ≠ []) {c : Byte} (hc : isspace c = true)
    (rest : Bytes) : token (line ++ c :: rest) = ((token line).1, (token line).2 ++ c :: rest) := by
  have hd : (line.dropWhile isspace).isEmpty = false := by
    cases hd : line.dropWhile isspace with
    | nil =>
      refine absurd (token_eq_nil_iff.mp ?_) h
      rw [token, hd]
      rfl
    | cons d ds => rfl
  obtain ⟨htake, hstop⟩ : (c :: rest).takeWhile (!isspace ·) = [] ∧
      (c :: rest).dropWhile (!isspace ·) = c :: rest := by simp [hc]
  have hdrop : (line ++ c :: rest).dropWhile isspace = line.dropWhile isspace ++ c :: rest := by
    rw [List.dropWhile_append, hd]
    rfl
  rw [token, hdrop, token, List.takeWhile_append, List.dropWhile_append]
  refine Prod.ext ?_ ?_
  · show (if _ then _ else _) = _
    split
    · rename_i hall
      rw [htake, List.append_nil]
      exact ((List.takeWhile_prefix _).eq_of_length hall).symm
    · rfl
  · show (if _ then _ else _) = _
    split
    · rename_i hnil
      rw [hstop, List.isEmpty_iff.mp hnil, List.nil_append]
    · rfl

/-! ### Lines -/

/-- The lines of a byte string. -/
def lines (delim : Byte) (bs : Bytes) : List Bytes := (linesOf delim bs).map Prod.fst

theorem lines_append {delim : Byte} {line : Bytes} (h : delim ∉ line) (rest : Bytes) :
    lines delim (line ++ delim :: rest) = line :: lines delim rest := by
  rw [lines, linesOf_append h]
  rfl

/-- What stands after a line of a string that ends with a delimiter is empty or
ends with it too. -/
theorem ends_of_append {delim : Byte} {line more : Bytes}
    (h : line ++ delim :: more = [] ∨ (line ++ delim :: more).getLast? = some delim) :
    more = [] ∨ more.getLast? = some delim := by
  rcases h with hnil | hlast
  · simp at hnil
  · cases more with
    | nil => exact Or.inl rfl
    | cons c cs =>
      refine Or.inr ?_
      rwa [List.getLast?_append, List.getLast?_cons_cons, Option.or_of_isSome (by simp)] at hlast

/-- The lines of a string that ends with a delimiter, and then those of another. -/
theorem lines_append_of_ends {delim : Byte} {bs : Bytes} (hends : bs = [] ∨ bs.getLast? = some delim)
    (rest : Bytes) : lines delim (bs ++ rest) = lines delim bs ++ lines delim rest := by
  induction bs using List.sep_induction delim with
  | last line hno =>
    rcases hends with rfl | hlast
    · rfl
    · exact absurd (List.mem_of_getLast? hlast) hno
  | more line more hl ih =>
    rw [List.append_assoc, List.cons_append, lines_append hl, lines_append hl, ih (ends_of_append hends)]
    rfl

/-- **No word crosses the end of a line.** -/
theorem words_eq_flatMap {delim : Byte} (hd : isspace delim = true) (bs : Bytes) :
    words bs = (lines delim bs).flatMap words := by
  induction bs using List.sep_induction delim with
  | last line hno =>
    by_cases hnil : line = []
    · rw [hnil]
      rfl
    · rw [lines, linesOf_last hno hnil]
      simp
  | more line more hl ih => rw [words_append_space line more hd, lines_append hl, List.flatMap_cons, ih]

theorem suffix_of_mem_linesOf {delim : Byte} : ∀ {bs line rest : Bytes},
    (line, rest) ∈ linesOf delim bs → rest <:+ bs := by
  intro bs
  induction bs with
  | nil => intro line rest h; simp [linesOf] at h
  | cons c cs ih =>
    intro line rest h
    rw [linesOf] at h
    split at h
    · rcases List.mem_cons.mp h with he | hm
      · rw [Prod.mk.injEq] at he
        rw [he.2]
        exact List.suffix_cons c cs
      · exact (ih hm).trans (List.suffix_cons c cs)
    · split at h
      · simp only [List.mem_singleton, Prod.mk.injEq] at h
        rw [h.2]
        exact List.nil_suffix
      · rename_i line' rest' more hcs
        rcases List.mem_cons.mp h with he | hm
        · rw [Prod.mk.injEq] at he
          rw [he.2]
          exact (@ih line' rest' (by rw [hcs]; exact List.mem_cons_self)).trans (List.suffix_cons c cs)
        · exact (ih (by rw [hcs]; exact List.mem_cons_of_mem _ hm)).trans (List.suffix_cons c cs)

end Cpp
