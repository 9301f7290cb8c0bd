import Mathlib.Tactic.ByContra
import RichStyle.Proofs.Tables
import RichStyle.Record

/-!
# Records and their texts

A record is read back from its text.  Strings and counts are read back wherever they stand in an
object; tables and records follow by induction on their entries, with the text that is left after
each of them.  Only what has to be escaped is escaped, and the keys of a table are written in the order
of their bytes.
-/

namespace RichStyle

/-! ## Digits -/

namespace Number

theorem isDigit_of_mem_digits {n : Nat} {c : Char} (h : c ∈ digits n) : c.isDigit = true :=
  Nat.isDigit_of_mem_toDigits (by decide) (by decide) h

theorem head?_digits {n : Nat} (h : 0 < n) : (digits n).head? ≠ some '0' := by
  induction n using Nat.strongRecOn with
  | ind n ih =>
      unfold digits
      by_cases hlt : n < 10
      · rw [Nat.toDigits_of_lt_base hlt]
        have hdigit : ∀ n < 10, 0 < n → [Nat.digitChar n].head? ≠ some '0' := by decide
        exact hdigit n hlt h
      · rw [Nat.toDigits_of_base_le (by decide) (Nat.not_lt.1 hlt),
          List.head?_append_of_ne_nil _ Nat.toDigits_ne_nil]
        exact ih (n / 10) (by omega) (by omega)

theorem le_ofDigitChars (s : List Char) (n : Nat) : n ≤ Nat.ofDigitChars 10 s n := by
  rw [Nat.ofDigitChars_eq_ofDigitChars_zero]
  have := Nat.le_mul_of_pos_left n (Nat.pow_pos (show 0 < 10 by decide) (n := s.length))
  omega

end Number

namespace Json

/-! ## Strings -/

theorem codeEscape_eq {n : Nat} (h : n < 0x20) :
    codeEscape n = ['\\', 'u', '0', '0', Nat.digitChar (n / 16), Nat.digitChar (n % 16)] := by
  revert n
  decide

theorem hexDigit?_digitChar {n : Nat} (h : n < 16) : hexDigit? (Nat.digitChar n) = some n := by
  revert n
  decide

theorem readHex_code {n : Nat} (h : n < 0x20) (s : List Char) :
    readHex ('0' :: '0' :: Nat.digitChar (n / 16) :: Nat.digitChar (n % 16) :: s) = .ok (n, s) := by
  have hhigh := hexDigit?_digitChar (show n / 16 < 16 by omega)
  have hlow := hexDigit?_digitChar (show n % 16 < 16 by omega)
  have hzero : hexDigit? '0' = some 0 := by decide
  have hsize : ¬ 0 + '0'.utf8Size + '0'.utf8Size + (Nat.digitChar (n / 16)).utf8Size +
      (Nat.digitChar (n % 16)).utf8Size < 4 := by
    have := Char.utf8Size_pos (Nat.digitChar (n / 16))
    have := Char.utf8Size_pos (Nat.digitChar (n % 16))
    have : '0'.utf8Size = 1 := by decide
    omega
  simp only [readHex, List.take_succ_cons, List.take_zero, List.foldl_cons, List.foldl_nil,
    if_neg hsize, hzero, hhigh, hlow, Except.ok.injEq, Prod.mk.injEq, and_true]
  omega

theorem readEscape_code {c : Char} (h : c.toNat < 0x20) (s : List Char) :
    readEscape ('u' :: '0' :: '0' :: Nat.digitChar (c.toNat / 16) ::
      Nat.digitChar (c.toNat % 16) :: s) = .ok (c, s) := by
  have hcode : readCode ('0' :: '0' :: Nat.digitChar (c.toNat / 16) ::
      Nat.digitChar (c.toNat % 16) :: s) = .ok (c, s) := by
    have hlow : ¬ (0xDC00 ≤ c.toNat ∧ c.toNat ≤ 0xDFFF) := by omega
    have hhigh : c.toNat < 0xD800 ∨ 0xDBFF < c.toNat := by omega
    simp only [readCode, readHex_code h, bind, Except.bind, if_neg hlow, if_pos hhigh,
      Char.ofNat_toNat]
  simpa [readEscape, escaped?] using hcode

/-- A character is written as it is, or as a backslash and something that stands for it. -/
theorem escape_cases (c : Char) :
    (escape c = [c] ∧ c ≠ '"' ∧ c ≠ '\\' ∧ ¬ c.toNat < 0x20) ∨
      ∃ e, escape c = '\\' :: e ∧ ∀ s, readEscape (e ++ s) = .ok (c, s) := by
  unfold escape
  iterate 7
    split
    · next h =>
        subst h
        exact .inr ⟨_, rfl, fun s => rfl⟩
  split
  · next h => exact .inr ⟨_, codeEscape_eq h, readEscape_code h⟩
  · next hquote hslash _ _ _ _ _ h => exact .inl ⟨rfl, hquote, hslash, h⟩

/-- The characters that are written as a backslash and one more, and what follows the backslash. -/
def shortEscapes : List (Char × Char) :=
  [('"', '"'), ('\\', '\\'), ('\x08', 'b'), ('\x0c', 'f'), ('\n', 'n'), ('\r', 'r'), ('\t', 't')]

/-- How a character is spelled inside quotes. -/
inductive Spells : Char → List Char → Prop
  | short {c e : Char} (h : (c, e) ∈ shortEscapes) : Spells c ['\\', e]
  | code {c : Char} (h : c.toNat < 0x20) (hshort : ∀ e, (c, e) ∉ shortEscapes) :
      Spells c ['\\', 'u', '0', '0', Nat.digitChar (c.toNat / 16), Nat.digitChar (c.toNat % 16)]
  | plain {c : Char} (h : 0x20 ≤ c.toNat) (hshort : ∀ e, (c, e) ∉ shortEscapes) : Spells c [c]

theorem escape_of_not_short {c : Char} (h : ∀ e, (c, e) ∉ shortEscapes) :
    escape c = if c.toNat < 0x20 then codeEscape c.toNat else [c] := by
  have hne : ∀ p ∈ shortEscapes, c ≠ p.1 := by
    rintro ⟨d, e⟩ hmem rfl
    exact h e hmem
  obtain ⟨hquote, hslash, hback, hform, hfeed, hreturn, htab⟩ : c ≠ '"' ∧ c ≠ '\\' ∧ c ≠ '\x08' ∧
      c ≠ '\x0c' ∧ c ≠ '\n' ∧ c ≠ '\r' ∧ c ≠ '\t' := by
    simpa [shortEscapes] using hne
  rw [escape, if_neg hquote, if_neg hslash, if_neg hfeed, if_neg hreturn, if_neg htab, if_neg hback,
    if_neg hform]

theorem eq_escape_of_spells {c : Char} {s : List Char} (h : Spells c s) : s = escape c := by
  cases h with
  | @short e h =>
      have hall : ∀ p ∈ shortEscapes, ['\\', p.2] = escape p.1 := by decide
      exact hall (c, e) h
  | code h hshort => rw [escape_of_not_short hshort, if_pos h, codeEscape_eq h]
  | plain h hshort => rw [escape_of_not_short hshort, if_neg (Nat.not_lt.2 h)]

/-- Every character is written in its only spelling. -/
theorem spells_iff (c : Char) (s : List Char) : Spells c s ↔ s = escape c := by
  have hexists : ∃ u, Spells c u := by
    by_cases hshort : ∃ e, (c, e) ∈ shortEscapes
    · obtain ⟨e, h⟩ := hshort
      exact ⟨_, .short h⟩
    · rw [not_exists] at hshort
      by_cases h : c.toNat < 0x20
      · exact ⟨_, .code h hshort⟩
      · exact ⟨_, .plain (Nat.not_lt.1 h) hshort⟩
  constructor
  · exact eq_escape_of_spells
  · intro hs
    obtain ⟨u, hu⟩ := hexists
    rw [hs, ← eq_escape_of_spells hu]
    exact hu

theorem readString_escape (c : Char) {s text rest : List Char}
    (h : readString s = .ok (text, rest)) :
    readString (escape c ++ s) = .ok (c :: text, rest) := by
  rcases escape_cases c with ⟨hc, hquote, hslash, hcontrol⟩ | ⟨e, hc, hread⟩
  · rw [hc, List.singleton_append, readString.eq_def]
    simp [hquote, hslash, hcontrol, h, bind, Except.bind]
  · rw [hc, List.cons_append, readString.eq_def]
    simp only [show ('\\' : Char) ≠ '"' by decide, if_false, if_true]
    split
    · next heq =>
        rw [hread] at heq
        cases heq
    · next heq =>
        rw [hread] at heq
        cases heq
        simp [h, bind, Except.bind]

theorem readString_quoted (s rest : List Char) :
    readString (s.flatMap escape ++ '"' :: rest) = .ok (s, rest) := by
  induction s with
  | nil =>
      rw [List.flatMap_nil, List.nil_append, readString]
      rfl
  | cons c s ih => rw [List.flatMap_cons, List.append_assoc, readString_escape c ih]

/-! ## Counts -/

/-- What comes after a value of an object. -/
inductive Follows : List Char → Prop where
  | comma (rest : List Char) : Follows (',' :: rest)
  | line (rest : List Char) : Follows ('\n' :: rest)

namespace Numeral

theorem extend_eq {limit n : Nat} {digits : List Char}
    (h : Nat.ofDigitChars 10 digits n < limit) :
    extend limit n digits = (Nat.ofDigitChars 10 digits n, []) := by
  induction digits generalizing n with
  | nil => rfl
  | cons c digits ih =>
      rw [Nat.ofDigitChars_cons, Nat.mul_comm] at h ⊢
      have hnext := Nat.lt_of_le_of_lt (Number.le_ofDigitChars digits _) h
      rw [extend, extend?, if_pos hnext]
      exact ih h

theorem readAfterWhole_of_follows {rest : List Char} (h : Follows rest) (n : Nat) :
    readAfterWhole false n rest = .ok (natural n, rest) := by
  cases h <;> rfl

theorem read_digits {n : Nat} {rest : List Char} (hn : n < Nat.pow 2 64) (h : Follows rest) :
    read false (Number.digits n ++ rest) = .ok (natural n, rest) := by
  have hrest : rest.takeWhile Char.isDigit = [] ∧ rest.dropWhile Char.isDigit = rest := by
    cases h <;> exact ⟨rfl, rfl⟩
  by_cases hzero : n = 0
  · subst hzero
    show read false ('0' :: rest) = _
    rw [read, hrest.1]
    exact readAfterWhole_of_follows h 0
  · have hdigits : ∀ c ∈ Number.digits n, c.isDigit = true := fun c hc =>
      Number.isDigit_of_mem_digits hc
    have htake : (Number.digits n ++ rest).takeWhile Char.isDigit = Number.digits n := by
      rw [List.takeWhile_append_of_pos hdigits, hrest.1, List.append_nil]
    have hdrop : (Number.digits n ++ rest).dropWhile Char.isDigit = rest := by
      rw [List.dropWhile_append_of_pos hdigits, hrest.2]
    have hvalue : Nat.ofDigitChars 10 (Number.digits n) 0 = n := Nat.ofDigitChars_ten_toDigits
    have hextend := extend_eq (hvalue.symm ▸ hn : Nat.ofDigitChars 10 (Number.digits n) 0 < _)
    rw [hvalue] at hextend
    have hhead := Number.head?_digits (Nat.pos_of_ne_zero hzero)
    have hne : Number.digits n ≠ [] := Nat.toDigits_ne_nil
    rw [read.eq_def]
    split
    · next heq => exact absurd (List.append_eq_nil_iff.1 heq).1 hne
    · next heq =>
        have := congrArg List.head? heq
        rw [List.head?_append_of_ne_nil _ hne] at this
        exact absurd this hhead
    · simp only [htake, hdrop, hextend, List.isEmpty_iff, hne, if_false, if_true]
      exact readAfterWhole_of_follows h n

end Numeral

/-! ## Values -/

/-- A reader gets a value back from its text, after the blank that stands behind a colon. -/
def ReadsBack {α : Type} (read : List Char → Except Stop (α × List Char)) (text : List Char)
    (value : α) : Prop :=
  ∀ rest, Follows rest → read (' ' :: (text ++ rest)) = .ok (value, rest)

theorem ReadsBack.map {α β : Type} {read : List Char → Except Stop (α × List Char)}
    {text : List Char} {value : α} (h : ReadsBack read text value) (put : α → β) :
    ReadsBack (fun s => do let (v, rest) ← read s; .ok (put v, rest)) text (put value) := by
  intro rest hrest
  simp only [h rest hrest, bind, Except.bind]

theorem skipSpace_of_isSpace {c : Char} (h : isSpace c = true) (s : List Char) :
    skipSpace (c :: s) = skipSpace s := by
  rw [skipSpace, List.dropWhile_cons_of_pos h, skipSpace]

theorem skipSpace_of_not_isSpace {c : Char} (h : isSpace c = false) (s : List Char) :
    skipSpace (c :: s) = c :: s := by
  rw [skipSpace, List.dropWhile_cons_of_neg (by simp [h])]

theorem isSpace_of_isDigit {c : Char} (h : c.isDigit = true) : isSpace c = false := by
  by_contra hspace
  simp only [isSpace, Bool.not_eq_false, Bool.or_eq_true, beq_iff_eq] at hspace
  rcases hspace with ((rfl | rfl) | rfl) | rfl <;> revert h <;> decide

theorem readsBack_quote (expected : String) (s : String) :
    ReadsBack (readText expected) (quote s.toList) s := by
  intro rest _
  have hquote : quote s.toList ++ rest = '"' :: (s.toList.flatMap escape ++ '"' :: rest) := by
    simp [quote]
  rw [readText, skipSpace_of_isSpace rfl, hquote, skipSpace_of_not_isSpace rfl]
  simp only [readString_quoted, bind, Except.bind, String.ofList_toList]

theorem readsBack_digits (n : UInt64) : ReadsBack readCount (Number.digits n.toNat) n := by
  intro rest hrest
  have hread := Numeral.read_digits n.toNat_lt hrest
  cases hd : Number.digits n.toNat with
  | nil => exact absurd hd Nat.toDigits_ne_nil
  | cons c digits =>
      have hc : c.isDigit = true := Number.isDigit_of_mem_digits (hd ▸ List.mem_cons_self)
      rw [hd, List.cons_append] at hread
      rw [readCount, skipSpace_of_isSpace rfl, List.cons_append,
        skipSpace_of_not_isSpace (isSpace_of_isDigit hc)]
      split
      · next heq => cases heq
      · next heq =>
          cases heq
          exact absurd hc (by decide)
      · next heq =>
          cases heq
          rw [if_pos hc, hread]
          exact congrArg (fun n => Except.ok (n, rest)) UInt64.ofNat_toNat

/-! ## The text of an object -/

/-- The text of an object after its brace, if `first`, or after one of its fields. -/
def bodyText (level : Nat) (first : Bool) (fields : List (String × List Char))
    (rest : List Char) : List Char :=
  match first, fields with
  | true, [] => '}' :: rest
  | false, [] => newLine level ++ '}' :: rest
  | true, field :: fields => printField (level + 1) field ++ bodyText level false fields rest
  | false, field :: fields =>
      ',' :: printField (level + 1) field ++ bodyText level false fields rest

/-- The text of an object after the quote of one of its keys. -/
def keyText (field : String × List Char) (s : List Char) : List Char :=
  field.1.toList.flatMap escape ++ '"' :: ':' :: ' ' :: (field.2 ++ s)

section Objects

variable (level : Nat) (first : Bool) (field : String × List Char)
  (fields : List (String × List Char)) (s rest : List Char)

theorem intercalate_comma (text : List Char) (texts : List (List Char)) :
    [','].intercalate (text :: texts) = text ++ texts.flatMap (',' :: ·) := by
  induction texts generalizing text with
  | nil => simp
  | cons next texts ih => simp [ih]

theorem bodyText_false :
    bodyText level false fields rest =
      fields.flatMap (fun field => ',' :: printField (level + 1) field) ++
        (newLine level ++ '}' :: rest) := by
  induction fields with
  | nil => rfl
  | cons field fields ih => simp [bodyText, ih]

theorem printObject_append :
    printObject level fields ++ rest = '{' :: bodyText level true fields rest := by
  cases fields with
  | nil => rfl
  | cons field fields =>
      simp [printObject, intercalate_comma, bodyText, bodyText_false, List.flatMap_map]

theorem skipSpace_printObject :
    skipSpace (printObject level fields ++ rest) = printObject level fields ++ rest := by
  rw [printObject_append, skipSpace_of_not_isSpace rfl]

theorem follows_bodyText : Follows (bodyText level false fields rest) := by
  cases fields with
  | nil => exact .line _
  | cons field fields => exact .comma _

theorem length_lt_bodyText : fields.length < (bodyText level first fields rest).length := by
  induction fields generalizing first with
  | nil => cases first <;> simp [bodyText, newLine]
  | cons field fields ih =>
      have hrest := ih false
      have hfield : 0 < (printField (level + 1) field).length := by simp [printField, newLine]
      cases first <;> simp only [bodyText, List.length_append, List.length_cons] <;> omega

theorem skipSpace_newLine : skipSpace (newLine level ++ s) = skipSpace s := by
  unfold skipSpace newLine
  rw [List.dropWhile_append_of_pos]
  intro c hc
  rcases List.mem_cons.1 hc with rfl | hc
  · rfl
  · rw [(List.mem_replicate.1 hc).2]
    rfl

theorem nextKey_nil : nextKey first (bodyText level first [] rest) = .ok (.done rest) := by
  cases first with
  | true => rfl
  | false =>
      rw [nextKey, bodyText, skipSpace_newLine]
      rfl

theorem printField_append :
    printField level field ++ s = newLine level ++ '"' :: keyText field s := by
  simp [printField, quote, keyText]

theorem nextKey_cons :
    nextKey first (bodyText level first (field :: fields) rest) =
      .ok (.key (keyText field (bodyText level false fields rest))) := by
  cases first with
  | true =>
      rw [nextKey, bodyText, printField_append, skipSpace_newLine]
      rfl
  | false =>
      rw [nextKey, bodyText, List.cons_append, printField_append, skipSpace_of_not_isSpace rfl]
      simp only [skipSpace_newLine]
      rfl

theorem readString_keyText :
    readString (keyText field s) = .ok (field.1.toList, ':' :: ' ' :: (field.2 ++ s)) :=
  readString_quoted _ _

theorem readColon_blank : readColon (':' :: ' ' :: s) = .ok (' ' :: s) := rfl

end Objects

/-! ## Tables -/

section Tables

variable {α : Type} {readValue : List Char → Except Stop (α × List Char)} {text : α → List Char}

-- Each entry takes one unit of fuel, and the closing brace another.
theorem readEntries_bodyText (level : Nat) {entries : List (String × α)}
    (h : ∀ e ∈ entries, ReadsBack readValue (text e.2) e.2) (rest : List Char) {fuel : Nat}
    (hfuel : entries.length < fuel) (first : Bool) (table : Table α) :
    readEntries readValue fuel first table
        (bodyText level first (entries.map fun e => (e.1, text e.2)) rest) =
      .ok (entries.foldl (fun acc e => acc.insert e.1 e.2) table, rest) := by
  induction entries generalizing fuel first table with
  | nil =>
      cases fuel with
      | zero => exact absurd hfuel (Nat.not_lt_zero _)
      | succ fuel =>
          simp only [readEntries, List.map_nil, nextKey_nil, bind, Except.bind, List.foldl_nil]
  | cons e entries ih =>
      cases fuel with
      | zero => exact absurd hfuel (Nat.not_lt_zero _)
      | succ fuel =>
          have hvalue := h e (by simp) _
            (follows_bodyText level (entries.map fun e => (e.1, text e.2)) rest)
          simp only [readEntries, List.map_cons, nextKey_cons, bind, Except.bind,
            readString_keyText, readColon_blank, hvalue, String.ofList_toList, List.foldl_cons]
          exact ih (fun e he => h e (by simp [he])) (Nat.lt_of_succ_lt_succ hfuel) _ _

theorem readsBack_table (level : Nat) {table : Table α}
    (h : ∀ e ∈ table.entries, ReadsBack readValue (text e.2) e.2) :
    ReadsBack (readTable readValue)
      (printObject level (table.entries.map fun e => (e.1, text e.2))) table := by
  intro rest _
  have hfuel := length_lt_bodyText level true (table.entries.map fun e => (e.1, text e.2)) rest
  rw [List.length_map] at hfuel
  rw [readTable, skipSpace_of_isSpace rfl, skipSpace_printObject, printObject_append]
  show readEntries readValue _ true .empty _ = _
  rw [readEntries_bodyText level h rest (Nat.lt_succ_of_lt hfuel)]
  exact congrArg (fun t => Except.ok (t, rest)) table.empty_merge

end Tables

/-! ## Forms -/

namespace Form

variable {δ α : Type} {form : Form δ α} {fields : List (String × List Char)} {value : α}

/-- Reading fields one after the other takes one draft to another. -/
inductive Fills (form : Form δ α) : δ → List (String × List Char) → δ → Prop where
  | nil (draft : δ) : Fills form draft [] draft
  | cons {name : String} {text : List Char} {fields : List (String × List Char)}
      {field : Field δ} {draft next last : δ}
      (hfind : (form.fields.find? fun f => f.name == name) = some field)
      (hopen : field.isFilled draft = false)
      (hread : ReadsBack (field.read draft) text next)
      (hrest : Fills form next fields last) : Fills form draft ((name, text) :: fields) last

theorem readObject_bodyText (level : Nat) {draft last : δ} (h : Fills form draft fields last)
    (rest : List Char) {fuel : Nat} (hfuel : fields.length < fuel) (first : Bool) :
    form.readObject fuel first draft (bodyText level first fields rest) =
      form.conclude last rest := by
  induction h generalizing fuel first with
  | nil draft =>
      cases fuel with
      | zero => exact absurd hfuel (Nat.not_lt_zero _)
      | succ fuel => simp only [readObject, nextKey_nil, bind, Except.bind]
  | @cons _ _ fields _ _ _ _ hfind hopen hread _ ih =>
      cases fuel with
      | zero => exact absurd hfuel (Nat.not_lt_zero _)
      | succ fuel =>
          have hvalue := hread _ (follows_bodyText level fields rest)
          simp only [readObject, nextKey_cons, bind, Except.bind, readString_keyText,
            String.ofList_toList, hfind, hopen, Bool.false_eq_true, if_false, readColon_blank,
            hvalue]
          exact ih (Nat.lt_of_succ_lt_succ hfuel) false

/-- A record is read back from an object with fields that fill its draft. -/
theorem read_of_fills (level : Nat) {last : δ} (h : Fills form form.blank fields last)
    (hfinish : form.finish last = .ok value)
    {s rest : List Char} (hs : skipSpace s = printObject level fields ++ rest) :
    form.read s = .ok (value, rest) := by
  have hfuel := length_lt_bodyText level true fields rest
  rw [read, hs, printObject_append]
  show form.readObject _ true _ _ = _
  rw [readObject_bodyText level h rest (Nat.lt_succ_of_lt hfuel), conclude, hfinish]

theorem readsBack_of_fills (level : Nat) (last : δ) (h : Fills form form.blank fields last)
    (hfinish : form.finish last = .ok value) :
    ReadsBack form.read (printObject level fields) value := by
  intro rest _
  apply read_of_fills level h hfinish
  rw [skipSpace_of_isSpace rfl, skipSpace_printObject]

theorem readDocument_of_fills (last : δ) (h : Fills form form.blank fields last)
    (hfinish : form.finish last = .ok value) :
    form.readDocument (printObject 0 fields) = .ok value := by
  have hskip : skipSpace (printObject 0 fields) = printObject 0 fields ++ [] := by
    simpa using skipSpace_printObject 0 fields []
  rw [readDocument, read_of_fills 0 h hfinish hskip]
  rfl

end Form

end Json

/-! ## The text of a record -/

namespace Record

open Json Json.Form

theorem readsBack_section (level : Nat) (bindings : Section) :
    ReadsBack readSection (printSection level bindings) bindings :=
  readsBack_table level fun _ _ => readsBack_table (level + 1) fun e _ => readsBack_quote _ e.2

theorem readsBack_assets (level : Nat) (assets : Assets) :
    ReadsBack assetsForm.read (printAssets level assets) assets := by
  obtain ⟨audio, textures, materials⟩ := assets
  have hsection := readsBack_section (level + 1)
  apply readsBack_of_fills level ⟨some audio, some textures, some materials⟩ _ rfl
  apply Fills.cons rfl rfl ((hsection audio).map fun v => AssetsDraft.mk (some v) none none)
  apply Fills.cons rfl rfl ((hsection textures).map fun v => AssetsDraft.mk _ (some v) none)
  apply Fills.cons rfl rfl ((hsection materials).map fun v => AssetsDraft.mk _ _ (some v))
  exact .nil _

theorem readsBack_counts (level : Nat) (counts : Counts) :
    ReadsBack countsForm.read (printCounts level counts) counts := by
  obtain ⟨rules, errors, warnings⟩ := counts
  apply readsBack_of_fills level ⟨some rules, some errors, some warnings⟩ _ rfl
  apply Fills.cons rfl rfl ((readsBack_digits rules).map fun v => CountsDraft.mk (some v) none none)
  apply Fills.cons rfl rfl ((readsBack_digits errors).map fun v => CountsDraft.mk _ (some v) none)
  apply Fills.cons rfl rfl ((readsBack_digits warnings).map fun v => CountsDraft.mk _ _ (some v))
  exact .nil _

/-- A record is read back from its text. -/
theorem read_print (r : Record) : read r.print = .ok r := by
  obtain ⟨version, timestamp, assets, counts⟩ := r
  rw [read, print, String.toList_ofList]
  apply readDocument_of_fills ⟨some version, some timestamp, some assets, some counts⟩ _ rfl
  apply Fills.cons rfl rfl
    ((readsBack_quote _ version).map fun v => Draft.mk (some v) none none none)
  apply Fills.cons rfl rfl
    ((readsBack_quote _ timestamp).map fun v => Draft.mk _ (some v) none none)
  apply Fills.cons rfl rfl ((readsBack_assets 1 assets).map fun v => Draft.mk _ _ (some v) none)
  apply Fills.cons rfl rfl ((readsBack_counts 1 counts).map fun v => Draft.mk _ _ _ (some v))
  exact .nil _

/-- An object whose fields are written in the order of the bytes of their names. -/
def IsSorted (text : List Char) : Prop :=
  ∃ level fields, text = printObject level fields ∧
    (fields.map fun f => Text.bytes f.1).Pairwise (· < ·)

theorem isSorted_table {α : Type} (level : Nat) (t : Table α) (value : α → List Char) :
    IsSorted (printObject level (t.entries.map fun e => (e.1, value e.2))) := by
  refine ⟨level, _, rfl, ?_⟩
  rw [List.map_map]
  exact t.pairwise_bytes

/-- A record is read back from its text, so reading, writing and reading again gives what reading gave.
Selectors and properties are written in the order of their bytes, and characters in their only
spelling. -/
theorem survives_writing :
    (∀ r : Record, read r.print = .ok r) ∧
    (∀ text, (read text >>= fun r => read r.print) = read text) ∧
    (∀ level (bindings : Section), IsSorted (printSection level bindings)) ∧
    (∀ level (properties : Table String), IsSorted (printProperties level properties)) ∧
    ∀ (c : Char) (s : List Char), Spells c s ↔ s = escape c := by
  refine ⟨read_print, fun text => ?_, fun level bindings => ?_, fun level properties => ?_, spells_iff⟩
  · cases read text with
    | error failure => rfl
    | ok r =>
        simp only [bind, Except.bind]
        exact read_print r
  · exact isSorted_table level bindings (printProperties (level + 1))
  · exact isSorted_table level properties printText

end Record

end RichStyle
