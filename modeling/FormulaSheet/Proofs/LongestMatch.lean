/-
  Tokenizing takes longest matches, and respects the pieces of a text.

  * `Pattern`: blanks, words, comments and symbols, each given by the characters
    that start it and those that continue it.  Exactly one pattern starts at each
    character (`starts_unique`), so the longest match is a run of characters
    (`takes_iff`).
  * `Lexes v cs tokens`: the longest match is taken again and again; words and
    keywords are kept, and a comment ends the text.  That is what `scan` does
    (`lexes_iff`).
  * `tokenize_pieces`: a space or a `%` cuts a text into pieces that can be read on
    their own, and tokens with spaces between them are read back.
-/
import FormulaSheet.Proofs.Joining
import Mathlib.Data.List.TakeWhile

namespace FormulaSheet

namespace Text

theorem isLetterOrNumber_of_isBlank {c : Char} (h : isBlank c = true) :
    isLetterOrNumber c = false := by
  let blanks := blankRanges.flatMap fun range => List.range' range.1 (range.2 + 1 - range.1)
  have hblanks : blanks.all (fun n => !isLetterOrNumber (Char.ofNat n)) = true := by
    decide +kernel
  obtain ⟨range, hrange, hlo, hhi⟩ := inRanges_iff.1 h
  have hmem : c.toNat ∈ blanks :=
    List.mem_flatMap.2 ⟨range, hrange, List.mem_range'_1.2 ⟨hlo, by omega⟩⟩
  have hc := List.all_eq_true.1 hblanks c.toNat hmem
  rw [Char.ofNat_toNat] at hc
  simpa using hc

end Text

namespace Token

open Text (isBlank isLetterOrNumber isLetterOrNumber_of_isBlank)

/-! ## Patterns -/

/-- What a text is made of. -/
inductive Pattern where
  | blanks
  | word
  | comment
  /-- Any other character. -/
  | symbol
  deriving DecidableEq

namespace Pattern

/-- The characters that a match starts with. -/
def starts : Pattern → Char → Bool
  | blanks, c => isBlank c
  | word, c => isLetterOrNumber c
  | comment, c => c == '%'
  | symbol, c => !isBlank c && !isLetterOrNumber c && c != '%'

/-- The characters that a match goes on with. -/
def continues : Pattern → Char → Bool
  | blanks, c => isBlank c
  | word, c => isWordChar c
  | comment, c => c != '\n'
  | symbol, _ => false

/-- The text is a match of the pattern. -/
def Matches (p : Pattern) (t : List Char) : Prop :=
  ∃ c cs, t = c :: cs ∧ p.starts c = true ∧ ∀ x ∈ cs, p.continues x = true

/-- The tokens that a match leaves. -/
def kept (v : Vocabulary) : Pattern → List Char → List (List Char)
  | blanks, _ | comment, _ => []
  | word, t => [t]
  | symbol, t => if t.all v.isKeyword then [t] else []

variable {p q : Pattern} {c : Char} {t cs rest : List Char}

theorem starts_unique (hp : p.starts c = true) (hq : q.starts c = true) : p = q := by
  have hblank : isBlank c = true → isLetterOrNumber c = false := isLetterOrNumber_of_isBlank
  have hpercent : c = '%' → isBlank c = false ∧ isLetterOrNumber c = false := by
    rintro rfl
    decide
  cases p <;> cases q <;> simp_all [starts]

end Pattern

open Pattern

/-- `t` is the longest match of any pattern at the front of `cs`, and it is a match
    of `p`. -/
structure Takes (cs : List Char) (p : Pattern) (t rest : List Char) : Prop where
  split : cs = t ++ rest
  isMatch : p.Matches t
  longest : ∀ q u, Pattern.Matches q u → u <+: cs → u.length ≤ t.length

variable {v : Vocabulary} {p : Pattern} {c : Char} {t cs rest : List Char}

theorem length_le_of_matches (hp : p.starts c = true) {q : Pattern} {u : List Char}
    (hq : q.Matches u) (hu : u <+: c :: cs) :
    u.length ≤ (c :: cs.takeWhile p.continues).length := by
  obtain ⟨d, ds, rfl, hd, hds⟩ := hq
  obtain ⟨rfl, tail, rfl⟩ := List.cons_prefix_cons.1 hu
  obtain rfl := starts_unique hp hd
  rw [List.takeWhile_append_of_pos hds]
  simp

/-- **The longest match** is the run of characters that go on with the first one. -/
theorem takes_iff : Takes (c :: cs) p t rest ↔
    p.starts c = true ∧ t = c :: cs.takeWhile p.continues ∧ rest = cs.dropWhile p.continues := by
  constructor
  · rintro ⟨hsplit, ⟨d, ds, rfl, hd, hds⟩, hlongest⟩
    rw [List.cons_append, List.cons.injEq] at hsplit
    obtain ⟨rfl, rfl⟩ := hsplit
    -- The run is a match itself, so nothing of it is in the rest.
    have hrun : (ds ++ rest).takeWhile p.continues = ds := by
      have hmatch : p.Matches (c :: (ds ++ rest).takeWhile p.continues) :=
        ⟨c, _, rfl, hd, fun x hx => List.all_eq_true.1 List.all_takeWhile x hx⟩
      have hle := hlongest p _ hmatch
        (List.cons_prefix_cons.2 ⟨rfl, List.takeWhile_prefix _⟩)
      rw [List.takeWhile_append_of_pos hds] at hle ⊢
      have hnil : rest.takeWhile p.continues = [] := by
        rw [← List.length_eq_zero_iff]
        simp only [List.length_cons, List.length_append] at hle
        omega
      rw [hnil, List.append_nil]
    have hafter := List.takeWhile_append_dropWhile (p := p.continues) (l := ds ++ rest)
    rw [hrun, List.append_cancel_left_eq] at hafter
    exact ⟨hd, by rw [hrun], hafter.symm⟩
  · rintro ⟨hc, rfl, rfl⟩
    refine ⟨by rw [List.cons_append, List.takeWhile_append_dropWhile],
      ⟨c, _, rfl, hc, fun x hx => List.all_eq_true.1 List.all_takeWhile x hx⟩, ?_⟩
    exact fun q u hq hu => length_le_of_matches hc hq hu

/-! ## Taking matches -/

/-- The tokens that are left if the longest match is taken again and again, up to the
    end of the text or to a comment. -/
inductive Lexes (v : Vocabulary) : List Char → List (List Char) → Prop
  | done : Lexes v [] []
  | comment {cs t rest : List Char} (h : Takes cs .comment t rest) : Lexes v cs []
  | step {cs t rest : List Char} {p : Pattern} {tokens : List (List Char)} (h : Takes cs p t rest)
      (hp : p ≠ .comment) (hr : Lexes v rest tokens) : Lexes v cs (p.kept v t ++ tokens)

theorem scan_dropWhile_isBlank (cs : List Char) : scan v (cs.dropWhile isBlank) = scan v cs := by
  induction cs with
  | nil => rfl
  | cons c cs ih =>
    cases hc : isBlank c with
    | true => rw [List.dropWhile_cons_of_pos hc, ih, scan_blank hc]
    | false => rw [List.dropWhile_cons_of_neg (by simp [hc])]

/-- Scanning takes the longest match: it ends at a comment, and goes on behind
    everything else. -/
theorem scan_of_starts (hc : p.starts c = true) : scan v (c :: cs) =
    if p = .comment then []
    else p.kept v (c :: cs.takeWhile p.continues) ++ scan v (cs.dropWhile p.continues) := by
  rw [scan]
  cases p with
  | blanks =>
    have hc : isBlank c = true := hc
    rw [if_pos hc, if_neg (by simp)]
    exact (scan_dropWhile_isBlank cs).symm
  | word =>
    have hc : isLetterOrNumber c = true := hc
    have hblank : ¬ isBlank c = true := fun hb => by
      rw [isLetterOrNumber_of_isBlank hb] at hc
      cases hc
    rw [if_neg hblank, if_pos hc, if_neg (by simp)]
    rfl
  | comment =>
    obtain rfl := beq_iff_eq.1 hc
    rw [if_neg (by decide), if_neg (by decide), if_pos rfl, if_pos rfl]
  | symbol =>
    simp only [starts, Bool.and_eq_true, Bool.not_eq_true', bne_iff_ne] at hc
    obtain ⟨⟨hblank, hletter⟩, hpercent⟩ := hc
    have htake : cs.takeWhile (continues .symbol) = [] := by cases cs <;> rfl
    have hdrop : cs.dropWhile (continues .symbol) = cs := by cases cs <;> rfl
    rw [if_neg (by simp [hblank]), if_neg (by simp [hletter]), if_neg hpercent, htake, hdrop]
    cases hk : v.isKeyword c <;> simp [kept, hk]

theorem exists_starts (c : Char) : ∃ p : Pattern, p.starts c = true := by
  by_cases hblank : isBlank c = true
  · exact ⟨.blanks, hblank⟩
  by_cases hletter : isLetterOrNumber c = true
  · exact ⟨.word, hletter⟩
  by_cases hpercent : c = '%'
  · exact ⟨.comment, by simp [starts, hpercent]⟩
  · exact ⟨.symbol, by simp_all [starts]⟩

theorem lexes_scan (v : Vocabulary) (cs : List Char) : Lexes v cs (scan v cs) := by
  induction hn : cs.length using Nat.strongRecOn generalizing cs with
  | _ n ih =>
    cases cs with
    | nil =>
      rw [scan]
      exact .done
    | cons c cs =>
      obtain ⟨p, hp⟩ := exists_starts c
      have htakes : Takes (c :: cs) p _ _ := takes_iff.2 ⟨hp, rfl, rfl⟩
      rw [scan_of_starts hp]
      split
      · rename_i hcomment
        subst hcomment
        exact .comment htakes
      · rename_i hcomment
        refine .step htakes hcomment (ih _ ?_ _ rfl)
        have := List.length_dropWhile_le p.continues cs
        rw [← hn, List.length_cons]
        omega

/-- **Scanning is taking longest matches.** -/
theorem lexes_iff {tokens : List (List Char)} : Lexes v cs tokens ↔ tokens = scan v cs := by
  constructor
  · intro h
    induction h with
    | done => rw [scan]
    | @comment cs t rest h =>
      cases cs with
      | nil =>
        obtain ⟨c, ds, rfl, -⟩ := h.isMatch
        cases h.split
      | cons c cs => rw [scan_of_starts (takes_iff.1 h).1, if_pos rfl]
    | @step cs t rest p tokens h hp _ ih =>
      cases cs with
      | nil =>
        obtain ⟨c, ds, rfl, -⟩ := h.isMatch
        cases h.split
      | cons c cs =>
        obtain ⟨hc, rfl, rfl⟩ := takes_iff.1 h
        rw [scan_of_starts hc, if_neg hp, ih]
  · rintro rfl
    exact lexes_scan v cs

/-! ## Tokens with spaces between them -/

theorem IsLexeme.not_mem_percent (h : IsLexeme v t) : '%' ∉ t := by
  cases h with
  | word hb hc hcs =>
    rw [List.mem_cons, not_or]
    refine ⟨?_, fun hm => absurd (hcs _ hm) (by decide)⟩
    rintro rfl
    exact absurd hc (by decide)
  | symbol hb hl hp hk => simpa using hp.symm

theorem tokenize_token {token : String} (h : IsLexeme v token.toList) :
    tokenize v token = [token] := by
  have hscan : scan v (token.toList ++ []) = token.toList :: scan v [] :=
    scan_append h (by simp [RunTogether])
  rw [List.append_nil, scan] at hscan
  rw [tokenize, hscan, List.map_singleton, String.ofList_toList]

theorem tokenize_intercalate_tokens {tokens : List String}
    (h : ∀ token ∈ tokens, IsLexeme v token.toList) :
    tokenize v (" ".intercalate tokens) = tokens := by
  rw [LogicalLine.tokenize_intercalate]
  induction tokens with
  | nil => rfl
  | cons token tokens ih =>
    obtain ⟨htoken, htokens⟩ := List.forall_mem_cons.1 h
    rw [LogicalLine.upToComment, if_neg htoken.not_mem_percent, List.flatMap_cons,
      tokenize_token htoken, ih htokens, List.singleton_append]

end Token

open Token

/-- **Tokenizing respects the pieces of a text.**  It takes the longest match of a pattern
    again and again.  The tokens of a text without `%`, a space and another text are those
    of the two texts; what follows a `%` does not matter; and the tokens of a text with
    single spaces between them have the same tokens. -/
theorem tokenize_pieces (v : Vocabulary) :
    (∀ text tokens, Lexes v text.toList tokens ↔ tokens = (tokenize v text).map String.toList) ∧
    (∀ a b : String, '%' ∉ a.toList →
      tokenize v (a ++ " " ++ b) = tokenize v a ++ tokenize v b) ∧
    (∀ a b : String, tokenize v (a ++ "%" ++ b) = tokenize v a) ∧
    ∀ t : String, tokenize v (" ".intercalate (tokenize v t)) = tokenize v t := by
  refine ⟨fun text tokens => ?_, fun a b ha => ?_, fun a b => ?_, fun t => ?_⟩
  · have htokens : (tokenize v text).map String.toList = scan v text.toList := by
      simp [tokenize, Function.comp_def]
    rw [htokens, lexes_iff]
  · have htext : (a ++ " " ++ b).toList = a.toList ++ ' ' :: b.toList := by simp
    rw [tokenize, htext, scan_append_space ha, List.map_append]
    rfl
  · have htext : (a ++ "%" ++ b).toList = a.toList ++ '%' :: b.toList := by simp
    rw [tokenize, htext, scan_append_comment]
    rfl
  · exact tokenize_intercalate_tokens fun token htoken => isLexeme_of_mem_tokenize htoken

/-- A point that is dropped before a word, kept in a word and a keyword on its own, beside
    letters of another alphabet and two comments. -/
theorem tokenize_pieces_points :
    let v : Vocabulary := { binary := ['.', 'x', '%'] }
    let a := "β.2_x=.5' "
    let b := ".x!1..% y % z"
    '%' ∉ a.toList ∧ tokenize v (a ++ " " ++ b) = tokenize v a ++ tokenize v b ∧
      tokenize v (a ++ " " ++ b) = ["β.2_x", "=", ".", "5", ".", "x", "1.."] ∧
      tokenize v (" ".intercalate (tokenize v b)) = tokenize v b ∧
      tokenize v (b ++ "%" ++ a) = tokenize v b := by
  intro v a b
  have ha : '%' ∉ a.toList := by decide +kernel
  obtain ⟨-, hspace, hcomment, hjoined⟩ := tokenize_pieces v
  exact ⟨ha, hspace a b ha, by decide +kernel, hjoined b, hcomment b a⟩

end FormulaSheet
