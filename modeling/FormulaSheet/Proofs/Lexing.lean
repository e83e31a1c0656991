/-
  Lexemes: what tokens are made of, and texts that are made of tokens.

  * `IsLexeme v t`: `t` is a word, or one keyword character.  Every token is a
    lexeme (`isLexeme_of_mem_scan`).
  * `RunTogether t rest`: a word before a character that continues it.  Unless it
    runs together with what follows, a lexeme is read as it stands
    (`scan_append`).
  * `scan_flatten_eq_iff`: lexemes without blanks between them are read back
    exactly if no neighbours run together.
  * `scan_append_comment` and `scan_append_space`: texts with a `%` or a space
    between them.
-/
import FormulaSheet.Token
import Mathlib.Data.List.Chain

namespace FormulaSheet.Token

open Text (isBlank isLetterOrNumber)

variable {v : Vocabulary} {t rest : List Char}

/-- A word, or a keyword character. -/
inductive IsLexeme (v : Vocabulary) : List Char → Prop
  | word {c : Char} {cs : List Char} (hb : isBlank c = false) (hc : isLetterOrNumber c = true)
      (hcs : ∀ x ∈ cs, isWordChar x = true) : IsLexeme v (c :: cs)
  | symbol {c : Char} (hb : isBlank c = false) (hl : isLetterOrNumber c = false) (hp : c ≠ '%')
      (hk : v.isKeyword c = true) : IsLexeme v [c]

theorem IsLexeme.ne_nil (h : IsLexeme v t) : t ≠ [] := by
  cases h <;> simp

theorem isLexeme_of_mem_scan {cs : List Char} (h : t ∈ scan v cs) : IsLexeme v t := by
  fun_induction scan v cs with
  | case1 => cases h
  | case2 c rest hb ih => exact ih h
  | case3 c rest hb hc ih =>
    rcases List.mem_cons.1 h with rfl | h
    · exact .word (by simpa using hb) hc fun x hx => List.all_eq_true.1 List.all_takeWhile x hx
    · exact ih h
  | case4 => cases h
  | case5 c rest hb hc hp hk ih =>
    rcases List.mem_cons.1 h with rfl | h
    · exact .symbol (by simpa using hb) (by simpa using hc) hp hk
    · exact ih h
  | case6 c rest hb hc hp hk ih => exact ih h

theorem isLexeme_of_mem_tokenize {text token : String} (h : token ∈ tokenize v text) :
    IsLexeme v token.toList := by
  obtain ⟨cs, hcs, rfl⟩ := List.mem_map.1 h
  rw [String.toList_ofList]
  exact isLexeme_of_mem_scan hcs

theorem scan_blank {c : Char} (h : isBlank c = true) (rest : List Char) :
    scan v (c :: rest) = scan v rest := by
  rw [scan, if_pos h]

/-- The first token of a text that starts with a word takes in all that
    continues the word. -/
theorem scan_word {c : Char} {cs : List Char} (hb : isBlank c = false)
    (hc : isLetterOrNumber c = true) (hcs : ∀ x ∈ cs, isWordChar x = true) (rest : List Char) :
    scan v (c :: cs ++ rest) =
      (c :: (cs ++ rest.takeWhile isWordChar)) :: scan v (rest.dropWhile isWordChar) := by
  rw [List.cons_append, scan, if_neg (by simp [hb]), if_pos hc, List.takeWhile_append_of_pos hcs,
    List.dropWhile_append_of_pos hcs]

theorem scan_symbol {c : Char} (hb : isBlank c = false) (hl : isLetterOrNumber c = false)
    (hp : c ≠ '%') (hk : v.isKeyword c = true) (rest : List Char) :
    scan v (c :: rest) = [c] :: scan v rest := by
  rw [scan, if_neg (by simp [hb]), if_neg (by simp [hl]), if_neg hp, if_pos hk]

/-- A word before a character that continues it. -/
def RunTogether (t rest : List Char) : Prop :=
  t.head?.any isLetterOrNumber = true ∧ rest.head?.any isWordChar = true

instance (t rest : List Char) : Decidable (RunTogether t rest) :=
  inferInstanceAs (Decidable (_ ∧ _))

/-- A lexeme is the first token of a text in which nothing continues it, and of
    no other text that starts with it. -/
theorem scan_append_eq_iff (h : IsLexeme v t) (tokens : List (List Char)) :
    scan v (t ++ rest) = t :: tokens ↔ ¬ RunTogether t rest ∧ scan v rest = tokens := by
  cases h with
  | @word c cs hb hc hcs =>
    rw [scan_word hb hc hcs, List.cons.injEq, List.cons.injEq]
    cases rest with
    | nil => simp [RunTogether]
    | cons x rest =>
      cases hx : isWordChar x with
      | true => simp [RunTogether, hc, hx]
      | false => simp [RunTogether, hx]
  | @symbol c hb hl hp hk =>
    rw [List.singleton_append, scan_symbol hb hl hp hk]
    simp [RunTogether, hl]

theorem scan_append (h : IsLexeme v t) (hr : ¬ RunTogether t rest) :
    scan v (t ++ rest) = t :: scan v rest :=
  (scan_append_eq_iff h _).2 ⟨hr, rfl⟩

/-- **Tokens without blanks between them** are read back exactly if no
    neighbours run together. -/
theorem scan_flatten_eq_iff {tokens : List (List Char)} (h : ∀ t ∈ tokens, IsLexeme v t) :
    scan v tokens.flatten = tokens ↔ tokens.IsChain fun t next => ¬ RunTogether t next := by
  induction tokens with
  | nil => simp [scan]
  | cons t tokens ih =>
    obtain ⟨ht, htokens⟩ := List.forall_mem_cons.1 h
    rw [List.flatten_cons, scan_append_eq_iff ht, ih htokens]
    cases tokens with
    | nil => simp [RunTogether]
    | cons next tokens =>
      have hhead : (next :: tokens).flatten.head? = next.head? := by
        cases next with
        | nil => exact absurd rfl (htokens [] List.mem_cons_self).ne_nil
        | cons c cs => rfl
      rw [List.isChain_cons_cons, RunTogether, hhead, RunTogether]

/-! ## Texts one after another -/

theorem takeWhile_isWordChar_append {c : Char} (h : isWordChar c = false) (cs rest : List Char) :
    (cs ++ c :: rest).takeWhile isWordChar = cs.takeWhile isWordChar ∧
      (cs ++ c :: rest).dropWhile isWordChar = cs.dropWhile isWordChar ++ c :: rest := by
  induction cs with
  | nil => simp [h]
  | cons d cs ih =>
    cases hd : isWordChar d with
    | true => simp [hd, ih]
    | false => simp [hd]

theorem scan_append_comment (cs rest : List Char) : scan v (cs ++ '%' :: rest) = scan v cs := by
  have hpercent : isBlank '%' = false ∧ isLetterOrNumber '%' = false ∧ isWordChar '%' = false := by
    decide
  fun_induction scan v cs with
  | case1 => simp [scan, hpercent]
  | case2 c cs hb ih => rw [List.cons_append, scan_blank hb, ih]
  | case3 c cs hb hc ih =>
    obtain ⟨htake, hdrop⟩ := takeWhile_isWordChar_append hpercent.2.2 cs rest
    rw [List.cons_append, scan, if_neg hb, if_pos hc, htake, hdrop, ih]
  | case4 => simp [scan, hpercent]
  | case5 c cs hb hc hp hk ih =>
    rw [List.cons_append, scan_symbol (by simpa using hb) (by simpa using hc) hp hk, ih]
  | case6 c cs hb hc hp hk ih =>
    rw [List.cons_append, scan, if_neg hb, if_neg hc, if_neg hp, if_neg hk, ih]

/-- A space keeps the tokens around it apart. -/
theorem scan_append_space {cs : List Char} (h : '%' ∉ cs) (rest : List Char) :
    scan v (cs ++ ' ' :: rest) = scan v cs ++ scan v rest := by
  have hspace : isBlank ' ' = true ∧ isWordChar ' ' = false := by decide
  fun_induction scan v cs with
  | case1 => rw [List.nil_append, List.nil_append, scan_blank hspace.1]
  | case2 c cs hb ih => rw [List.cons_append, scan_blank hb, ih (by simp_all)]
  | case3 c cs hb hc ih =>
    obtain ⟨htake, hdrop⟩ := takeWhile_isWordChar_append hspace.2 cs rest
    have hcs : '%' ∉ cs.dropWhile isWordChar := fun hm =>
      h (List.mem_cons_of_mem c ((List.dropWhile_sublist _).subset hm))
    rw [List.cons_append, scan, if_neg hb, if_pos hc, htake, hdrop, ih hcs, List.cons_append]
  | case4 => simp at h
  | case5 c cs hb hc hp hk ih =>
    rw [List.cons_append, scan_symbol (by simpa using hb) (by simpa using hc) hp hk,
      ih (by simp_all), List.cons_append]
  | case6 c cs hb hc hp hk ih =>
    rw [List.cons_append, scan, if_neg hb, if_neg hc, if_neg hp, if_neg hk, ih (by simp_all)]

/-- A bracket before the comment of a text is a token. -/
theorem mem_scan_of_mem_code {v : Vocabulary} {cs : List Char} {c : Char}
    (hc : c = '[' ∨ c = ']') (h : c ∈ cs.takeWhile (· != '%')) : [c] ∈ scan v cs := by
  have hchar : Text.isBlank c = false ∧ Text.isLetterOrNumber c = false ∧ isWordChar c = false := by
    rcases hc with rfl | rfl <;> decide
  have hkeyword : v.isKeyword c = true := by
    rcases hc with rfl | rfl <;> simp [Vocabulary.isKeyword, Vocabulary.structural]
  have step : ∀ {d : Char} {rest : List Char}, c ∈ (d :: rest).takeWhile (· != '%') →
      d ≠ '%' ∧ (c = d ∨ c ∈ rest.takeWhile (· != '%')) := by
    intro d rest h
    rw [List.takeWhile_cons] at h
    split at h
    · rename_i hd
      exact ⟨bne_iff_ne.1 hd, List.mem_cons.1 h⟩
    · cases h
  fun_induction scan v cs with
  | case1 => cases h
  | case2 d rest hb ih =>
    obtain ⟨-, rfl | h⟩ := step h
    · simp [hchar] at hb
    · exact ih h
  | case3 d rest hb hd ih =>
    obtain ⟨-, rfl | h⟩ := step h
    · simp [hchar] at hd
    · -- The bracket is behind the word.
      have hword : ∀ x ∈ rest.takeWhile isWordChar, isWordChar x = true :=
        fun x hx => List.all_eq_true.1 List.all_takeWhile x hx
      have hcode : ∀ x ∈ rest.takeWhile isWordChar, (x != '%') = true := by
        intro x hx
        rw [bne_iff_ne]
        rintro rfl
        exact absurd (hword _ hx) (by decide)
      rw [← List.takeWhile_append_dropWhile (p := isWordChar) (l := rest),
        List.takeWhile_append_of_pos hcode] at h
      rcases List.mem_append.1 h with h | h
      · rw [hword c h] at hchar
        simp at hchar
      · exact List.mem_cons_of_mem _ (ih h)
  | case4 => exact absurd rfl (step h).1
  | case5 d rest hb hd hp hk ih =>
    obtain ⟨-, rfl | h⟩ := step h
    · exact List.mem_cons_self
    · exact List.mem_cons_of_mem _ (ih h)
  | case6 d rest hb hd hp hk ih =>
    obtain ⟨-, rfl | h⟩ := step h
    · exact absurd hkeyword hk
    · exact ih h

end FormulaSheet.Token
