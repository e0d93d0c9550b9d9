import Mathlib.Data.List.Basic

/-!
# Shell words

The POSIX mode of `shlex` without comments: `split` takes a command apart into words, `quote` and
`join` write words so that a shell reads them back.
-/

namespace MiryFormal

set_option autoImplicit false

namespace ShellWords

def isSpace (c : Char) : Bool := c = ' ' ∨ c = '\t' ∨ c = '\r' ∨ c = '\n'

def singleQuote : Char := Char.ofNat 39
def doubleQuote : Char := Char.ofNat 34
def backslash : Char := Char.ofNat 92

def isQuote (c : Char) : Bool := c = singleQuote ∨ c = doubleQuote

/-- The state of the lexer with the characters of the word so far. A backslash remembers the
double quotes that it stands in. -/
inductive Mode where
  | blank
  | word (token : List Char)
  | quoted (mark : Char) (token : List Char)
  | escaped (inside : Option Char) (token : List Char)

/-- `read_token`, again and again up to the end of the text. A word has begun with a character
or with quotes, so that the space after it always gives a token. -/
def scan : Mode → List Char → Except String (List (List Char))
  | .blank, [] => .ok []
  | .blank, c :: rest =>
      if isSpace c then scan .blank rest
      else if c = backslash then scan (.escaped none []) rest
      else if isQuote c then scan (.quoted c []) rest
      else scan (.word [c]) rest
  | .word token, [] => .ok [token]
  | .word token, c :: rest =>
      if isSpace c then do
        let words ← scan .blank rest
        .ok (token :: words)
      else if isQuote c then scan (.quoted c token) rest
      else if c = backslash then scan (.escaped none token) rest
      else scan (.word (token ++ [c])) rest
  | .quoted _ _, [] => .error "No closing quotation"
  | .quoted mark token, c :: rest =>
      if c = mark then scan (.word token) rest
      else if c = backslash ∧ mark = doubleQuote then scan (.escaped (some mark) token) rest
      else scan (.quoted mark (token ++ [c])) rest
  | .escaped _ _, [] => .error "No escaped character"
  | .escaped none token, c :: rest => scan (.word (token ++ [c])) rest
  | .escaped (some mark) token, c :: rest =>
      -- within double quotes a backslash hides nothing but the quotes and itself
      let kept := if c ≠ backslash ∧ c ≠ mark then [backslash] else []
      scan (.quoted mark (token ++ kept ++ [c])) rest

section Steps
variable (token rest : List Char) (mark c : Char)

theorem scan_blank_cons :
    scan .blank (c :: rest) =
      if isSpace c then scan .blank rest
      else if c = backslash then scan (.escaped none []) rest
      else if isQuote c then scan (.quoted c []) rest
      else scan (.word [c]) rest := rfl

theorem scan_word_nil : scan (.word token) [] = .ok [token] := rfl

theorem scan_word_cons :
    scan (.word token) (c :: rest) =
      if isSpace c then do
        let words ← scan .blank rest
        .ok (token :: words)
      else if isQuote c then scan (.quoted c token) rest
      else if c = backslash then scan (.escaped none token) rest
      else scan (.word (token ++ [c])) rest := rfl

theorem scan_quoted_cons :
    scan (.quoted mark token) (c :: rest) =
      if c = mark then scan (.word token) rest
      else if c = backslash ∧ mark = doubleQuote then scan (.escaped (some mark) token) rest
      else scan (.quoted mark (token ++ [c])) rest := rfl

end Steps

def split (text : List Char) : Except String (List (List Char)) := scan .blank text

/-- The characters that need no quotes. -/
def isSafe (c : Char) : Bool :=
  c.isAlphanum || ['_', '@', '%', '+', '=', ':', ',', '.', '/', '-'].contains c

/-- The text that takes a single quote through single quotes. -/
def escapedQuote : List Char := [singleQuote, doubleQuote, singleQuote, doubleQuote, singleQuote]

def quoteBody (word : List Char) : List Char :=
  word.flatMap fun c => if c = singleQuote then escapedQuote else [c]

def quote (word : List Char) : List Char :=
  if word = [] then [singleQuote, singleQuote]
  else if word.all isSafe then word
  else singleQuote :: quoteBody word ++ [singleQuote]

def join (words : List (List Char)) : List Char := [' '].intercalate (words.map quote)

/-! ## A joined command splits into its words -/

theorem isSafe_plain {c : Char} (h : isSafe c = true) :
    isSpace c = false ∧ isQuote c = false ∧ c ≠ backslash := by
  refine ⟨?_, ?_, ?_⟩
  · by_contra hspace
    rw [Bool.not_eq_false] at hspace
    unfold isSpace at hspace
    rcases of_decide_eq_true hspace with rfl | rfl | rfl | rfl <;> exact absurd h (by decide)
  · by_contra hquote
    rw [Bool.not_eq_false] at hquote
    unfold isQuote at hquote
    rcases of_decide_eq_true hquote with rfl | rfl <;> exact absurd h (by decide)
  · rintro rfl
    exact absurd h (by decide)

theorem scan_word_plain {token rest : List Char} {c : Char} (hspace : isSpace c = false)
    (hquote : isQuote c = false) (hbackslash : c ≠ backslash) :
    scan (.word token) (c :: rest) = scan (.word (token ++ [c])) rest := by
  rw [scan_word_cons, if_neg (by simp [hspace]), if_neg (by simp [hquote]), if_neg hbackslash]

theorem scan_word_safe {token word rest : List Char} (h : ∀ c ∈ word, isSafe c = true) :
    scan (.word token) (word ++ rest) = scan (.word (token ++ word)) rest := by
  induction word generalizing token with
  | nil => rw [List.nil_append, List.append_nil]
  | cons c word ih =>
    obtain ⟨hspace, hquote, hbackslash⟩ := isSafe_plain (h c List.mem_cons_self)
    rw [List.cons_append, scan_word_plain hspace hquote hbackslash,
      ih fun d hd => h d (List.mem_cons_of_mem c hd), List.append_assoc, List.singleton_append]

theorem scan_word_quote {token rest : List Char} {mark : Char} (h : isQuote mark = true) :
    scan (.word token) (mark :: rest) = scan (.quoted mark token) rest := by
  have hspace : isSpace mark = false := by
    unfold isQuote at h
    rcases of_decide_eq_true h with rfl | rfl <;> decide
  rw [scan_word_cons, if_neg (by simp [hspace]), if_pos h]

theorem scan_quoted_mark (mark : Char) (token rest : List Char) :
    scan (.quoted mark token) (mark :: rest) = scan (.word token) rest := by
  rw [scan_quoted_cons, if_pos rfl]

theorem scan_single_other {token rest : List Char} {c : Char} (h : c ≠ singleQuote) :
    scan (.quoted singleQuote token) (c :: rest) =
      scan (.quoted singleQuote (token ++ [c])) rest := by
  rw [scan_quoted_cons, if_neg h, if_neg fun hmark => absurd hmark.2 (by decide)]

/-- The quotes close, a single quote stands in double quotes, and the quotes open again. -/
theorem scan_escapedQuote (token rest : List Char) :
    scan (.quoted singleQuote token) (escapedQuote ++ rest) =
      scan (.quoted singleQuote (token ++ [singleQuote])) rest := by
  have hsingle : isQuote singleQuote = true := by decide
  have hdouble : isQuote doubleQuote = true := by decide
  have hinside : scan (.quoted doubleQuote token) (singleQuote :: doubleQuote :: singleQuote :: rest)
      = scan (.quoted doubleQuote (token ++ [singleQuote])) (doubleQuote :: singleQuote :: rest) := by
    rw [scan_quoted_cons, if_neg (by decide), if_neg fun hmark => absurd hmark.1 (by decide)]
  calc scan (.quoted singleQuote token) (escapedQuote ++ rest)
    _ = scan (.word token) (doubleQuote :: singleQuote :: doubleQuote :: singleQuote :: rest) :=
        scan_quoted_mark singleQuote token _
    _ = scan (.quoted doubleQuote token) (singleQuote :: doubleQuote :: singleQuote :: rest) :=
        scan_word_quote hdouble
    _ = scan (.word (token ++ [singleQuote])) (singleQuote :: rest) :=
        hinside.trans (scan_quoted_mark doubleQuote _ _)
    _ = scan (.quoted singleQuote (token ++ [singleQuote])) rest := scan_word_quote hsingle

theorem scan_quoteBody (token word rest : List Char) :
    scan (.quoted singleQuote token) (quoteBody word ++ rest) =
      scan (.quoted singleQuote (token ++ word)) rest := by
  induction word generalizing token with
  | nil => rw [quoteBody, List.flatMap_nil, List.nil_append, List.append_nil]
  | cons c word ih =>
    have hbody : quoteBody (c :: word) =
        (if c = singleQuote then escapedQuote else [c]) ++ quoteBody word := List.flatMap_cons
    have htoken : token ++ c :: word = token ++ [c] ++ word := by simp
    rw [hbody, List.append_assoc, htoken]
    by_cases hc : c = singleQuote
    · rw [if_pos hc, scan_escapedQuote, ih, hc]
    · rw [if_neg hc, List.singleton_append, scan_single_other hc, ih]

/-- At a blank, a quoted word has the effect of its characters in a word. -/
theorem scan_blank_quote (word rest : List Char) :
    scan .blank (quote word ++ rest) = scan (.word word) rest := by
  have hsingle : isQuote singleQuote = true := by decide
  have hopen : ∀ rest, scan .blank (singleQuote :: rest) = scan (.quoted singleQuote []) rest := by
    intro rest
    rw [scan_blank_cons, if_neg (by decide), if_neg (by decide), if_pos hsingle]
  unfold quote
  split
  · rename_i hempty
    rw [hempty]
    exact (hopen _).trans (scan_quoted_mark singleQuote [] rest)
  · rename_i hne
    split
    · rename_i hall
      obtain ⟨c, tail, rfl⟩ := List.exists_cons_of_ne_nil hne
      have hsafe := List.all_eq_true.mp hall
      obtain ⟨hspace, hquote, hbackslash⟩ := isSafe_plain (hsafe c List.mem_cons_self)
      rw [List.cons_append, scan_blank_cons, if_neg (by simp [hspace]), if_neg hbackslash,
        if_neg (by simp [hquote]),
        scan_word_safe fun d hd => hsafe d (List.mem_cons_of_mem c hd), List.singleton_append]
    · rw [List.cons_append, List.cons_append, hopen, List.append_assoc, scan_quoteBody,
        List.nil_append]
      exact scan_quoted_mark singleQuote word rest

/-- `split(join(words)) == words`, for any words. -/
theorem split_join (words : List (List Char)) : split (join words) = .ok words := by
  unfold split join
  induction words with
  | nil => rfl
  | cons word words ih =>
    cases words with
    | nil =>
      have hquote := scan_blank_quote word []
      rw [List.append_nil] at hquote
      rw [List.map_cons, List.map_nil, List.intercalate_singleton, hquote,
        scan_word_nil]
    | cons next words =>
      have hspace : isSpace ' ' = true := by decide
      rw [List.map_cons, List.map_cons, List.intercalate_cons_cons, List.append_assoc,
        scan_blank_quote, List.singleton_append, scan_word_cons, if_pos hspace, ← List.map_cons, ih]
      rfl

end ShellWords

end MiryFormal
