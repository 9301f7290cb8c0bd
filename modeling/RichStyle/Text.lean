/-!
# Texts

Texts are lists of characters.  Blanks are trimmed off their ends, fixed parts are taken off, and runs
of characters that belong together are split off.
-/

namespace RichStyle

/-!
## Blank characters and trimming

A blank is a character with the Unicode property `White_Space`.  Trimming removes blanks at the
ends of a text; the text in between is kept as it stands.
-/

namespace Text

/-- Characters with the Unicode property `White_Space`. -/
def isBlank (c : Char) : Bool :=
  let n := c.toNat
  (0x09 ≤ n && n ≤ 0x0D) || n == 0x20 || n == 0x85 || n == 0xA0 || n == 0x1680 ||
    (0x2000 ≤ n && n ≤ 0x200A) || n == 0x2028 || n == 0x2029 || n == 0x202F || n == 0x205F ||
    n == 0x3000

def trimStart (s : List Char) : List Char :=
  s.dropWhile isBlank

def trimEnd (s : List Char) : List Char :=
  (s.reverse.dropWhile isBlank).reverse

def trim (s : List Char) : List Char :=
  trimEnd (trimStart s)

@[simp] theorem isBlank_newline : isBlank '\n' = true := by decide

@[simp] theorem isBlank_space : isBlank ' ' = true := by decide

@[simp] theorem trimStart_nil : trimStart [] = [] := rfl

@[simp] theorem trimEnd_nil : trimEnd [] = [] := rfl

@[simp] theorem trim_nil : trim [] = [] := rfl

end Text

/-!
## Leading and trailing parts of a text

`dropLeading?` and `dropTrailing?` take a fixed text off one end of another and fail if it is not
there.  `unwrapQuotes?` takes one pair of equal quotes off both ends.
-/

namespace Text

/-- What follows `lead` in a text that starts with it. -/
def dropLeading? : List Char → List Char → Option (List Char)
  | [], s => some s
  | _ :: _, [] => none
  | l :: lead, c :: s => if l = c then dropLeading? lead s else none

/-- What stands before `trail` in a text that ends with it. -/
def dropTrailing? (trail s : List Char) : Option (List Char) :=
  (dropLeading? trail.reverse s.reverse).map List.reverse

/-- The characters that open and close a quoted string. -/
def isQuote (c : Char) : Bool :=
  c == '"' || c == '\''

/-- The inside of a text that starts and ends with the same quote. -/
def unwrapQuotes? : List Char → Option (List Char)
  | [] => none
  | q :: s => if isQuote q && s.getLast? == some q then some s.dropLast else none

def startsWith (lead s : List Char) : Bool :=
  (dropLeading? lead s).isSome

theorem dropLeading?_eq_some_iff {lead s r : List Char} :
    dropLeading? lead s = some r ↔ s = lead ++ r := by
  induction lead generalizing s with
  | nil => simp [dropLeading?]
  | cons l lead ih =>
      cases s with
      | nil => simp [dropLeading?]
      | cons c s =>
          by_cases h : l = c
          · subst h
            simp [dropLeading?, ih]
          · have h' : ¬ c = l := fun e => h e.symm
            simp [dropLeading?, h, h']

theorem dropTrailing?_eq_some_iff {trail s r : List Char} :
    dropTrailing? trail s = some r ↔ s = r ++ trail := by
  unfold dropTrailing?
  constructor
  · intro h
    obtain ⟨t, ht, rfl⟩ := Option.map_eq_some_iff.1 h
    have hs := congrArg List.reverse (dropLeading?_eq_some_iff.1 ht)
    simpa using hs
  · rintro rfl
    refine Option.map_eq_some_iff.2 ⟨r.reverse, ?_, by simp⟩
    exact dropLeading?_eq_some_iff.2 (by simp)

theorem startsWith_iff {lead s : List Char} :
    startsWith lead s = true ↔ ∃ r, s = lead ++ r := by
  unfold startsWith
  constructor
  · intro h
    obtain ⟨r, hr⟩ := Option.isSome_iff_exists.1 h
    exact ⟨r, dropLeading?_eq_some_iff.1 hr⟩
  · rintro ⟨r, hr⟩
    rw [dropLeading?_eq_some_iff.2 hr]
    rfl

theorem unwrapQuotes?_eq_some_iff {s inside : List Char} :
    unwrapQuotes? s = some inside ↔ ∃ q, isQuote q = true ∧ s = q :: (inside ++ [q]) := by
  cases s with
  | nil => simp [unwrapQuotes?]
  | cons q s =>
      rw [unwrapQuotes?]
      constructor
      · intro h
        by_cases hends : (isQuote q && s.getLast? == some q) = true
        · rw [if_pos hends] at h
          simp only [Bool.and_eq_true, beq_iff_eq] at hends
          obtain ⟨x, rfl⟩ := List.getLast?_eq_some_iff.1 hends.2
          obtain rfl : x = inside := by simpa using h
          exact ⟨q, hends.1, rfl⟩
        · rw [if_neg hends] at h
          cases h
      · rintro ⟨q', hq, heq⟩
        obtain ⟨rfl, rfl⟩ := List.cons.inj heq
        simp [hq]

end Text

/-!
## Runs of characters

Each function here splits a text into a first run and the rest: a quoted string after its opening
quote, a comment after its opening `/*`, and a run of ordinary characters.  Nothing is lost: run
and rest together are the text.
-/

namespace Text

/--
The rest of a string that was opened by `q`, up to and including the closing quote.  A backslash
takes the next character with it.  An unclosed string runs to the end of the text.
-/
def quotedRun (q : Char) : List Char → List Char × List Char
  | [] => ([], [])
  | '\\' :: c :: s =>
      let run := quotedRun q s
      ('\\' :: c :: run.1, run.2)
  | c :: s =>
      if c = q then ([c], s)
      else
        let run := quotedRun q s
        (c :: run.1, run.2)

/--
The rest of a comment after its `/*`, up to and including the first `*/`.  An unclosed comment
runs to the end of the text.
-/
def commentRun : List Char → List Char × List Char
  | [] => ([], [])
  | '*' :: '/' :: s => (['*', '/'], s)
  | c :: s =>
      let run := commentRun s
      (c :: run.1, run.2)

def startsComment : List Char → Bool
  | '/' :: '*' :: _ => true
  | _ => false

/-- Characters that are a token of their own. -/
def isPunctuation (c : Char) : Bool :=
  c == '{' || c == '}' || c == '(' || c == ')' || c == ':' || c == ';'

/-- Characters at which a run of ordinary characters ends. -/
def isDelimiter (c : Char) : Bool :=
  isPunctuation c || isQuote c || isBlank c

/-- The ordinary characters in front of the next delimiter or comment. -/
def plainRun : List Char → List Char × List Char
  | [] => ([], [])
  | c :: s =>
      if isDelimiter c || startsComment (c :: s) then ([], c :: s)
      else
        let run := plainRun s
        (c :: run.1, run.2)

def blankRun (s : List Char) : List Char × List Char :=
  (s.takeWhile isBlank, s.dropWhile isBlank)

theorem quotedRun_append (q : Char) (s : List Char) :
    (quotedRun q s).1 ++ (quotedRun q s).2 = s := by
  fun_induction quotedRun q s with
  | case1 => rfl
  | case2 c s run ih => simpa [run] using ih
  | case3 => rfl
  | case4 c s _ _ run ih => simpa [run] using ih

theorem commentRun_append (s : List Char) :
    (commentRun s).1 ++ (commentRun s).2 = s := by
  fun_induction commentRun s with
  | case1 => rfl
  | case2 => rfl
  | case3 c s _ run ih => simpa [run] using ih

theorem plainRun_append (s : List Char) :
    (plainRun s).1 ++ (plainRun s).2 = s := by
  fun_induction plainRun s with
  | case1 => rfl
  | case2 => rfl
  | case3 c s _ run ih => simpa [run] using ih

theorem blankRun_append (s : List Char) :
    (blankRun s).1 ++ (blankRun s).2 = s := by
  simp [blankRun]

/-- A rest is never longer than the text it is the rest of. -/
theorem length_rest_le {run : List Char × List Char} {s : List Char}
    (h : run.1 ++ run.2 = s) : run.2.length ≤ s.length := by
  have hlen := congrArg List.length h
  rw [List.length_append] at hlen
  omega

theorem quotedRun_rest_le (q : Char) (s : List Char) :
    (quotedRun q s).2.length ≤ s.length :=
  length_rest_le (quotedRun_append q s)

theorem commentRun_rest_le (s : List Char) :
    (commentRun s).2.length ≤ s.length :=
  length_rest_le (commentRun_append s)

end Text

end RichStyle
