import RichStyle.Proofs.Seams

/-!
# Import lines

An import line leaves a comment with the path between double quotes, and the path goes on record.
The comment does nothing more exactly if the path leaves no string open for the themes after it and
lets nothing out of the comment.
-/

namespace RichStyle

open Text

namespace Source

/-- The line that imports a path. -/
def importLine (path : List Char) : List Char :=
  "@import '".toList ++ path ++ "';".toList ++ ['\n']

/-! ## Marking an import line -/

theorem absent_quoted_iff {here : List Char → Bool} {q : Char} {t : List Char} (s : List Char)
    (hq : isQuote q = true) (ht : closesQuote q t = true) :
    Absent here (q :: (t ++ s)) ↔ Absent here s := by
  rw [absent_quote_iff hq, quotedRun_of_closes s hq ht]

theorem trim_of_solid {c d : Char} {s : List Char} (hc : isBlank c = false)
    (hd : isBlank d = false) : trim (c :: (s ++ [d])) = c :: (s ++ [d]) := by
  unfold trim trimStart trimEnd
  rw [List.dropWhile_cons_of_neg (by simp [hc])]
  simp [hd]

theorem splitLines_single {x : List Char} (h : '\n' ∉ x) :
    splitLines (x ++ ['\n']) = [x ++ ['\n']] := by
  induction x with
  | nil => rfl
  | cons c x ih =>
      rw [List.mem_cons, not_or] at h
      rw [List.cons_append, splitLines, if_neg fun hc => h.1 hc.symm, ih h.2]

theorem importLine_eq (path : List Char) :
    importLine path = "@import ".toList ++ '\'' :: ((path ++ ['\'']) ++ [';', '\n']) := by
  have hlead : "@import '".toList = "@import ".toList ++ ['\''] := by decide
  have hend : "';".toList = ['\'', ';'] := by decide
  change "@import '".toList ++ path ++ "';".toList ++ ['\n'] = _
  rw [hlead, hend]
  simp only [List.append_assoc, List.cons_append, List.nil_append]

theorem importTarget_importLine (path : List Char) :
    importTarget? ("@import '".toList ++ path ++ "';".toList) = some path := by
  have htrim : trim ("@import '".toList ++ path ++ "';".toList) =
      "@import".toList ++ (' ' :: ('\'' :: (path ++ ['\''])) ++ [';']) := by
    have hsolid := trim_of_solid (c := '@') (d := ';') (s := "import '".toList ++ path ++ ['\''])
      (by decide) (by decide)
    simpa using hsolid
  have hlead : dropLeading? "@import".toList (trim ("@import '".toList ++ path ++ "';".toList)) =
      some (' ' :: ('\'' :: (path ++ ['\''])) ++ [';']) := by
    rw [htrim, dropLeading?_eq_some_iff]
  have htrail : dropTrailing? [';'] (trimStart (' ' :: ('\'' :: (path ++ ['\''])) ++ [';'])) =
      some ('\'' :: (path ++ ['\''])) := by
    rw [dropTrailing?_eq_some_iff]
    rfl
  have hliteral : trim ('\'' :: (path ++ ['\''])) = '\'' :: (path ++ ['\'']) :=
    trim_of_solid (by decide) (by decide)
  have hurl : unwrapUrl ('\'' :: (path ++ ['\''])) = '\'' :: (path ++ ['\'']) := rfl
  unfold importTarget?
  simp only [hlead, Option.bind_eq_bind, Option.bind_some, htrail, hliteral, hurl]
  simp [unwrapQuotes?, isQuote]

section ImportLine

variable {path : List Char} (hquote : '\'' ∉ path) (hslash : '\\' ∉ path)

include hquote hslash

theorem settled_importLine : Settled (importLine path) := by
  have hlead : Settled "@import ".toList := settled_literal (by decide)
  have hend : Settled [';', '\n'] := settled_literal (by decide)
  rw [importLine_eq]
  exact hlead.append (.quoted (by decide) (closesQuote_of_plain (by decide) hquote hslash) hend)

theorem absent_importLine : Absent startsComment (importLine path) := by
  have hslash' : '/' ∈ ['/', '*'] := by simp
  have hend : Absent (startsWith ['/', '*']) [';', '\n'] := absent_of_not_mem hslash' (by simp)
  rw [startsComment_eq, importLine_eq]
  refine Absent.append (settled_literal (by decide)) (seesOnly_startsWith (by simp))
    (absent_of_not_mem hslash' (by simp)) ?_
  rwa [absent_quoted_iff _ (by decide) (closesQuote_of_plain (by decide) hquote hslash)]

variable (hfeed : '\n' ∉ path)

include hfeed

theorem marked_importLine : marked (importLine path) = ⟨importMark path ++ ['\n'], [path]⟩ := by
  have hsingle : '\n' ∉ "@import '".toList ++ path ++ "';".toList := by
    simpa using hfeed
  have hcut : cutLineFeed (importLine path) =
      ("@import '".toList ++ path ++ "';".toList, ['\n']) := by
    have hdrop : dropTrailing? ['\n'] (importLine path) =
        some ("@import '".toList ++ path ++ "';".toList) := dropTrailing?_eq_some_iff.2 rfl
    rw [cutLineFeed, hdrop]
  have hmark : markLine (importLine path) = ⟨importMark path ++ ['\n'], [path]⟩ := by
    simp only [markLine, hcut, importTarget_importLine]
  have hlines : splitLines (importLine path) = [importLine path] := splitLines_single hsingle
  rw [marked, withoutComments_of_absent (absent_importLine hquote hslash), markImports, hlines]
  simp only [List.map_cons, List.map_nil, hmark, List.flatMap_cons, List.flatMap_nil,
    List.append_nil]

theorem marked_importLine_append (s : List Char) :
    marked (importLine path ++ s) =
      ⟨importMark path ++ ['\n'] ++ (marked s).text, path :: (marked s).imports⟩ := by
  have hmarked := marked_importLine hquote hslash hfeed
  have hboth := marked_append s (settled_importLine hquote hslash) (absent_importLine hquote hslash)
  change marked (importLine path ++ s) = ⟨(marked (importLine path)).text ++ (marked s).text,
    (marked (importLine path)).imports ++ (marked s).imports⟩ at hboth
  rw [hboth, hmarked]
  rfl

end ImportLine

theorem marked_feed (s : List Char) :
    marked ('\n' :: s) = ⟨'\n' :: (marked s).text, (marked s).imports⟩ := by
  have hsettled : Settled ([] ++ ['\n']) := settled_literal (by decide)
  have habsent : Absent startsComment ([] ++ ['\n']) := by
    rw [startsComment_eq]
    exact absent_of_not_mem (c := '/') (by simp) (by simp)
  have hempty : marked ([] ++ ['\n']) = ⟨['\n'], []⟩ := by
    have hnone : ∀ line ∈ splitLines ['\n'], importTarget? (cutLineFeed line).1 = none := by
      simp only [splitLines, if_true, List.mem_singleton, forall_eq]
      decide
    rw [marked, withoutComments_of_absent habsent]
    exact markImports_of_none hnone
  have hmarked := marked_append s hsettled habsent
  rw [hempty] at hmarked
  exact hmarked

/-! ## Strings in the mark of an import -/

section Strings

variable {q : Char} {s : List Char}

theorem settled_string_iff {t : List Char} (hq : isQuote q = true) (hquote : q ∉ s)
    (hslash : '\\' ∉ s) : Settled (q :: (s ++ q :: t)) ↔ Settled t := by
  have hcloses := closesQuote_of_plain hq hquote hslash
  have hshape : s ++ q :: t = (s ++ [q]) ++ t := by simp
  rw [hshape, settled_quote_iff hq, quotedRun_of_closes t hq hcloses]
  exact and_iff_right hcloses

theorem not_settled_lone_quote (hq : isQuote q = true) (hquote : q ∉ s) : ¬ Settled (q :: s) := by
  rw [settled_quote_iff hq]
  rintro ⟨hcloses, -⟩
  have hlast := List.mem_of_getLast? (closesQuote_getLast hcloses)
  rw [← quotedRun_append q s] at hquote
  exact hquote (List.mem_append_left _ hlast)

/-- Where only double quotes delimit strings, a text is settled if they come in pairs. -/
theorem settled_iff_even (hquote : '\'' ∉ s) (hslash : '\\' ∉ s) :
    Settled s ↔ s.count '"' % 2 = 0 := by
  induction hlen : s.length using Nat.strong_induction_on generalizing s with
  | _ n ih =>
      cases s with
      | nil => simp [Settled.nil]
      | cons c s =>
          rw [List.mem_cons, not_or] at hquote hslash
          rw [List.length_cons] at hlen
          by_cases hc : c = '"'
          · subst hc
            by_cases hmem : '"' ∈ s
            · -- a string is taken off at once, with both of its quotes
              obtain ⟨x, y, rfl, hx⟩ := List.eq_append_cons_of_mem hmem
              simp only [List.mem_append, List.mem_cons, not_or] at hquote hslash
              rw [List.length_append, List.length_cons] at hlen
              have hrest := ih y.length (by omega) hquote.2.2.2 hslash.2.2.2 rfl
              rw [settled_string_iff (by decide) hx hslash.2.1, hrest, List.count_cons_self,
                List.count_append, List.count_cons_self, List.count_eq_zero_of_not_mem hx]
              omega
            · rw [List.count_cons_self, List.count_eq_zero_of_not_mem hmem]
              simpa using not_settled_lone_quote (by decide) hmem
          · have hplain : isQuote c = false := by simp [isQuote, hc, Ne.symm hquote.1]
            rw [settled_cons_iff hplain, List.count_cons_of_ne hc]
            exact ih s.length (by omega) hquote.2 hslash.2 rfl

end Strings

theorem not_mem_importMark {c : Char} {path : List Char} (hc : c ∉ importMark []) (h : c ∉ path) :
    c ∉ importMark path := by
  unfold importMark at hc ⊢
  simp only [List.mem_append, not_or] at hc ⊢
  exact ⟨⟨hc.1.1, h⟩, hc.2⟩

theorem settled_importMark_iff {path : List Char} (hquote : '\'' ∉ path) (hslash : '\\' ∉ path) :
    Settled (importMark path ++ ['\n']) ↔ path.count '"' % 2 = 0 := by
  have hquote' := List.not_mem_append (not_mem_importMark (by decide) hquote)
    (show '\'' ∉ ['\n'] by decide)
  have hslash' := List.not_mem_append (not_mem_importMark (by decide) hslash)
    (show '\\' ∉ ['\n'] by decide)
  have hcount : (importMark path ++ ['\n']).count '"' = path.count '"' + 2 := by
    have hlead : "/* @import \"".toList.count '"' = 1 := by decide
    have hend : "\" (not inlined) */".toList.count '"' = 1 := by decide
    have hfeed : ['\n'].count '"' = 0 := by decide
    unfold importMark
    rw [List.count_append, List.count_append, List.count_append, hlead, hend, hfeed]
    omega
  rw [settled_iff_even hquote' hslash', hcount]
  omega

theorem absent_importMark {path : List Char} (hdouble : '"' ∉ path) (hslash : '\\' ∉ path) :
    Absent (startsWith themeKeyword) (importMark path ++ ['\n']) := by
  have hmark : importMark path ++ ['\n'] =
      "/* @import ".toList ++ '"' :: ((path ++ ['"']) ++ " (not inlined) */\n".toList) := by
    have hlead : "/* @import \"".toList = "/* @import ".toList ++ ['"'] := by decide
    have hend : "\" (not inlined) */".toList ++ ['\n'] = '"' :: " (not inlined) */\n".toList := by
      decide
    unfold importMark
    rw [List.append_assoc, hlead, hend]
    simp only [List.append_assoc, List.cons_append, List.nil_append]
  have hstring := closesQuote_of_plain (by decide) hdouble hslash
  have hkeyword : 'h' ∈ themeKeyword := by simp [themeKeyword_eq]
  have hend : Absent (startsWith themeKeyword) " (not inlined) */\n".toList :=
    absent_of_not_mem hkeyword (by simp)
  rw [hmark]
  refine .append (settled_literal (by decide)) (seesOnly_startsWith (by simp [themeKeyword_eq]))
    (absent_of_not_mem hkeyword (by simp)) ?_
  rwa [absent_quoted_iff _ (by decide) hstring]

end Source

/-! ## The comment of an import -/

namespace Text

theorem suffix_commentRun (x y : List Char) : y <:+ (commentRun (x ++ '*' :: '/' :: y)).2 := by
  induction x with
  | nil => exact List.suffix_rfl
  | cons c x ih =>
      by_cases hstop : ∃ r, c = '*' ∧ x ++ '*' :: '/' :: y = '/' :: r
      · obtain ⟨r, rfl, hr⟩ := hstop
        rw [List.cons_append, hr]
        cases x with
        | nil => cases hr
        | cons d x =>
            obtain ⟨-, rfl⟩ := List.cons.inj hr
            change y <:+ x ++ '*' :: '/' :: y
            exact ⟨x ++ ['*', '/'], by simp⟩
      · rw [List.cons_append, commentRun_cons fun r hc hr => hstop ⟨r, hc, hr⟩]
        exact ih

end Text

namespace Lexeme

theorem exists_comment_end {s : List Char} {l : Lexeme} (h : l ∈ (split s).getLast?)
    (hl : l.kind = .comment) : ∃ r, '/' :: '*' :: r <:+ s ∧ (commentRun r).2 = [] := by
  fun_induction split s with
  | case1 => simp at h
  | case2 c s ih =>
      have hjoin := join_split (first c s).2
      have happend := first_append c s
      cases hrest : split (first c s).2 with
      | nil =>
          rw [hrest] at h hjoin
          obtain rfl : (first c s).1 = l := by simpa using h
          have hfirst := first_spec c s
          generalize first c s = found at hfirst hl hjoin
          cases hfirst with
          | mark hk => exact absurd hl (mark_kind hk).2.2.2
          | quoted hq => cases hl
          | @comment u hc hs =>
              subst hc hs
              exact ⟨u, List.suffix_rfl, hjoin.symm⟩
          | blank hb => cases hl
          | plain hd hs => cases hl
      | cons m lexemes =>
          rw [hrest] at h
          obtain ⟨r, hr, hrun⟩ := ih (by simpa [hrest] using h)
          exact ⟨r, hr.trans ⟨_, happend⟩, hrun⟩

/-- A comment that is closed in front of the last line feed does not run to the end. -/
theorem not_comment_end {s : List Char} (h : [' ', '*', '/', '\n'] <:+ s) :
    ∀ l ∈ (split s).getLast?, l.kind ≠ .comment := by
  intro l hmem hl
  obtain ⟨r, hr, hrun⟩ := exists_comment_end hmem hl
  have htail : [' ', '*', '/', '\n'] <:+ r := by
    rcases List.suffix_or_suffix_of_suffix h hr with hsuffix | hsuffix
    · simpa [List.suffix_cons_iff] using hsuffix
    · simp [List.suffix_cons_iff] at hsuffix
  obtain ⟨x, rfl⟩ := htail
  have hafter := suffix_commentRun (x ++ [' ']) ['\n']
  rw [List.append_assoc, List.singleton_append, hrun] at hafter
  simp at hafter

theorem split_importMark {path : List Char} (h : ¬ ['*', '/'] <:+: path) :
    split (Source.importMark path ++ ['\n']) =
      [⟨.comment, Source.importMark path⟩, ⟨.blank, ['\n']⟩] := by
  have hopen : ¬ ['*', '/'] <:+: " @import ".toList ++ '"' ::
      (path ++ '"' :: " (not inlined) *".toList) :=
    not_infix_append (by decide) (by decide) (not_infix_append (by decide) h (by decide))
  have hcloses := closesComment_of_not_isInfix (x := " @import ".toList ++ '"' ::
    (path ++ '"' :: " (not inlined) ".toList)) (by simpa using hopen)
  have hmark : Source.importMark path = '/' :: '*' :: (" @import ".toList ++ '"' ::
      (path ++ '"' :: " (not inlined) ".toList) ++ ['*', '/']) := by
    have hlead : "/* @import \"".toList = '/' :: '*' :: (" @import ".toList ++ ['"']) := by decide
    have hend : "\" (not inlined) */".toList = '"' :: (" (not inlined) ".toList ++ ['*', '/']) := by
      decide
    unfold Source.importMark
    rw [hlead, hend]
    simp only [List.append_assoc, List.cons_append, List.nil_append]
  have hcomment : Whole ⟨.comment, Source.importMark path⟩ := by
    rw [hmark]
    exact .comment hcloses
  have hblank : Whole ⟨.blank, ['\n']⟩ := .blank (by simp)
  have hsegmented : Segmented [⟨.comment, Source.importMark path⟩, ⟨.blank, ['\n']⟩] :=
    ⟨by simp [hcomment, hblank], by simp [Follows]⟩
  have hsplit := split_join hsegmented
  simpa using hsplit

end Lexeme

/-! ## Reading after an import -/

namespace Sheet

/-- A reading with one more path in front of its imports. -/
def Reading.withImport (path : List Char) (reading : Reading) : Reading :=
  { reading with sheet.imports := String.ofList path :: reading.sheet.imports }

theorem read_eq (s : List Char) :
    read s = Source.expandThemes .start (Source.marked s).text >>= fun t =>
      (ofTokens (Token.ofText t)).map fun built =>
        ⟨⟨built.rules, (Source.marked s).imports.map String.ofList⟩, built.warnings⟩ := by
  rw [read, Source.prepare]
  cases Source.expandThemes .start (Source.marked s).text with
  | error e => rfl
  | ok t =>
      simp only [bind, Except.bind]
      cases ofTokens (Token.ofText t) <;> rfl

theorem advance_first_line {y : List Char} (hy : '\n' ∉ y) :
    Span.start.advance (y ++ ['\n']) = ⟨2, 1⟩ := by
  rw [Span.advance_append, Span.advance_of_single_line _ hy]
  rfl

theorem ofTokens_after_line {t y w : List Char} {before : List Lexeme} (hy : '\n' ∉ y)
    (hsplit : Lexeme.split (y ++ ['\n']) = before ++ [⟨.blank, w⟩])
    (h : ofTokens (Token.ofText (y ++ ['\n'])) = .ok .empty) :
    ofTokens (Token.ofText (y ++ ['\n'] ++ t)) =
      buildTokens .outside (Token.place ⟨2, 1⟩ (Lexeme.split t)) := by
  rw [ofTokens_append t hsplit h, advance_first_line hy]
  cases buildTokens .outside (Token.place ⟨2, 1⟩ (Lexeme.split t)) <;> rfl

theorem ofTokens_feed (t : List Char) :
    ofTokens (Token.ofText ('\n' :: t)) =
      buildTokens .outside (Token.place ⟨2, 1⟩ (Lexeme.split t)) := by
  have hsegmented : Lexeme.Segmented [⟨.blank, ['\n']⟩] := ⟨by simpa using .blank (by simp), by simp⟩
  have hsplit : Lexeme.split ([] ++ ['\n']) = [] ++ [⟨.blank, ['\n']⟩] :=
    Lexeme.split_join hsegmented
  have hempty : ofTokens (Token.ofText ([] ++ ['\n'])) = .ok .empty := by
    rw [Token.ofText, hsplit]
    rfl
  exact ofTokens_after_line List.not_mem_nil hsplit hempty

theorem expandThemes_feed (s : List Char) :
    Source.expandThemes .start ('\n' :: s) =
      (Source.expandThemes ⟨2, 1⟩ s).map ('\n' :: ·) := by
  have hdone : Source.Expanded ['\n'] ['\n'] :=
    .done (Source.absent_of_not_mem (c := '@') (by simp [Source.themeKeyword_eq]) (by simp))
  exact hdone.append .start s (Source.settled_literal (by decide))
    (by simp [Source.themeKeyword_eq])

theorem fault_of_step {scope : Scope} {c : Clause} {m : Malformed}
    (h : step scope c = .error m) : m.fault ≠ .themeWithoutName := by
  obtain ⟨body, ending, mark⟩ := c
  cases scope with
  | outside =>
      cases ending with
      | semicolon => cases h
      | closeBrace =>
          obtain rfl := Except.error.inj h
          simp only
          split <;> simp
      | openBrace =>
          unfold step at h
          simp only at h
          split at h
          · obtain rfl := Except.error.inj h
            simp
          · cases h
  | inside rule => cases ending <;> cases h
  | nested rule depth => cases ending <;> cases depth <;> cases h

/-- Reading tokens never gives a fault about themes. -/
theorem fault_of_build {tail : List Token} {scope : Scope} {clauses : List Clause} {m : Malformed}
    (h : build tail scope clauses = .error m) : m.fault ≠ .themeWithoutName := by
  induction clauses generalizing scope with
  | nil =>
      cases scope with
      | outside =>
          unfold build at h
          split at h
          · cases h
          · obtain rfl := Except.error.inj h
            simp
      | inside rule =>
          obtain rfl := Except.error.inj h
          simp
      | nested rule depth =>
          obtain rfl := Except.error.inj h
          simp
  | cons c clauses ih =>
      rw [build_cons] at h
      cases hstep : step scope c with
      | error e =>
          rw [hstep] at h
          obtain rfl := Except.error.inj h
          exact fault_of_step hstep
      | ok next =>
          rw [hstep] at h
          change (build tail next.1 clauses).map _ = _ at h
          cases hrest : build tail next.1 clauses with
          | error e =>
              rw [hrest] at h
              exact ih (hrest.trans h)
          | ok later =>
              rw [hrest] at h
              cases h

theorem expandThemes_of_themeWithoutName {p : Span} {s : List Char}
    (h : read s = .error ⟨.themeWithoutName, p⟩) :
    Source.expandThemes .start (Source.marked s).text = .error ⟨.themeWithoutName, p⟩ := by
  rw [read_eq] at h
  cases hexpanded : Source.expandThemes .start (Source.marked s).text with
  | error e =>
      rw [hexpanded] at h
      exact congrArg Except.error (Except.error.inj h)
  | ok t =>
      rw [hexpanded] at h
      change (ofTokens (Token.ofText t)).map _ = _ at h
      cases hbuilt : ofTokens (Token.ofText t) with
      | ok built =>
          rw [hbuilt] at h
          cases h
      | error e =>
          rw [hbuilt] at h
          obtain rfl := Except.error.inj h
          exact absurd rfl (fault_of_build hbuilt)

/-- Of the beginnings of two lines only the first line ends where the second starts. -/
theorem eq_first_line {y z before after : List Char} (hy : '\n' ∉ y) (hz : '\n' ∉ z)
    (heq : y ++ ['\n'] ++ z = before ++ after) (hplace : Span.start.advance before = ⟨2, 1⟩) :
    before = y ++ ['\n'] := by
  rcases List.append_eq_append_iff.1 heq with ⟨x, hbefore, hx⟩ | ⟨x, hline, hx⟩
  · have hxfeed : '\n' ∉ x := fun hmem => hz (hx ▸ List.mem_append_left _ hmem)
    rw [hbefore, Span.advance_append, advance_first_line hy,
      Span.advance_of_single_line _ hxfeed] at hplace
    have hlen : 1 + x.length = 1 := (Span.mk.inj hplace).2
    have hnil : x = [] := List.eq_nil_of_length_eq_zero (by omega)
    rw [hbefore, hnil, List.append_nil]
  · rcases List.eq_nil_or_concat x with rfl | ⟨w, c, rfl⟩
    · rw [hline, List.append_nil]
    · rw [List.concat_eq_append, ← List.append_assoc] at hline
      have hsame := (List.append_inj' hline rfl).1
      rw [hsame] at hy
      have hfeed : '\n' ∉ before := fun hmem => hy (List.mem_append_left w hmem)
      rw [Span.advance_of_single_line _ hfeed] at hplace
      cases (Span.mk.inj hplace).1

section Import

variable {path : List Char} (hfeed : '\n' ∉ path) (hquote : '\'' ∉ path) (hslash : '\\' ∉ path)

include hfeed hquote hslash

theorem read_importLine_append (heven : path.count '"' % 2 = 0)
    (halone : read (Source.importLine path) = .ok ⟨⟨[], [String.ofList path]⟩, []⟩)
    (s : List Char) :
    read (Source.importLine path ++ s) = (read ('\n' :: s)).map (Reading.withImport path) := by
  have hmark : '\n' ∉ Source.importMark path := Source.not_mem_importMark (by decide) hfeed
  obtain ⟨t, built, ht, hbuilt, hreading⟩ := read_eq_ok_iff.1 halone
  rw [Source.marked_importLine hquote hslash hfeed] at ht hreading
  have hempty : built = .empty := by
    obtain ⟨rules, warnings⟩ := built
    simp only [Reading.mk.injEq, Sheet.mk.injEq] at hreading
    obtain ⟨⟨rfl, -⟩, rfl⟩ := hreading
    rfl
  subst hempty
  have hclosed : [' ', '*', '/', '\n'] <:+ t := by
    refine ht.suffix (by decide) (by decide) ⟨"/* @import \"".toList ++ path ++
      "\" (not inlined)".toList, ?_⟩
    have hend : "\" (not inlined) */".toList = "\" (not inlined)".toList ++ [' ', '*', '/'] := by
      decide
    unfold Source.importMark
    rw [hend]
    simp only [List.append_assoc, List.cons_append, List.nil_append]
  -- the line is closed in front of its line feed, so the line feed is read as a blank
  obtain ⟨y, rfl, hy⟩ := ht.single_line rfl hmark
  obtain ⟨before, w, hsplit⟩ := exists_blank_end hbuilt (List.suffix_append y _)
    (Lexeme.not_comment_end hclosed)
  have hthemes := ht.append .start (Source.marked s).text
    ((Source.settled_importMark_iff hquote hslash).2 heven) (by simp [Source.themeKeyword_eq])
  rw [read_eq, read_eq, Source.marked_importLine_append hquote hslash hfeed, Source.marked_feed,
    hthemes, expandThemes_feed, advance_first_line hmark]
  cases Source.expandThemes ⟨2, 1⟩ (Source.marked s).text with
  | error e => rfl
  | ok u =>
      simp only [Except.map, bind, Except.bind, ofTokens_after_line hy hsplit hbuilt, ofTokens_feed]
      cases buildTokens .outside (Token.place ⟨2, 1⟩ (Lexeme.split u)) <;> rfl

theorem even_of_inert (h : ∀ s, read (Source.importLine path ++ s) =
    (read ('\n' :: s)).map (Reading.withImport path)) : path.count '"' % 2 = 0 := by
  have hmark : '\n' ∉ Source.importMark path := Source.not_mem_importMark (by decide) hfeed
  have hfault : read ('\n' :: "@theme ".toList) = .error ⟨.themeWithoutName, ⟨2, 1⟩⟩ := by
    decide +kernel
  have htext : (Source.marked "@theme ".toList).text = "@theme ".toList := by decide +kernel
  -- the fault shows that the keyword after the line is seen, so no string is open there
  have hread := h "@theme ".toList
  rw [hfault] at hread
  have hthemes := expandThemes_of_themeWithoutName hread
  rw [Source.marked_importLine_append hquote hslash hfeed, htext] at hthemes
  obtain ⟨before, after, heq, hsettled, hplace⟩ := Source.exists_of_themeWithoutName hthemes
  have hbefore := eq_first_line hmark (by decide) heq hplace.symm
  rw [hbefore] at hsettled
  exact (Source.settled_importMark_iff hquote hslash).1 hsettled

/-- A path without double quotes and without the end of a comment stays in its comment. -/
theorem read_importLine_of_closed (hdouble : '"' ∉ path) (hclosed : ¬ ['*', '/'] <:+: path) :
    read (Source.importLine path) = .ok ⟨⟨[], [String.ofList path]⟩, []⟩ := by
  have htrivia : ∀ t ∈ Token.ofText (Source.importMark path ++ ['\n']), t.isTrivia = true := by
    rw [Token.ofText, Lexeme.split_importMark hclosed]
    simp [Token.place, Token.isTrivia, Kind.isTrivia]
  have hbuilt : ofTokens (Token.ofText (Source.importMark path ++ ['\n'])) = .ok .empty := by
    have hlead := buildTokens_lead htrivia []
    rw [List.append_nil] at hlead
    exact hlead
  refine read_eq_ok_iff.2 ⟨_, .empty, ?_, hbuilt, ?_⟩
  · rw [Source.marked_importLine hquote hslash hfeed]
    exact .done (Source.absent_importMark hdouble hslash)
  · rw [Source.marked_importLine hquote hslash hfeed]
    rfl

/-- An import does nothing but go on record exactly if the double quotes of its path come in pairs
and its line, read alone, gives nothing else; paths without double quotes and without the end of a
comment are of this kind. -/
theorem import_inert_iff :
    ((∀ s, read (Source.importLine path ++ s) =
        (read ('\n' :: s)).map (Reading.withImport path)) ↔
      path.count '"' % 2 = 0 ∧
        read (Source.importLine path) = .ok ⟨⟨[], [String.ofList path]⟩, []⟩) ∧
    ('"' ∉ path → ¬ "*/".toList <:+: path →
      ∀ s, read (Source.importLine path ++ s) =
        (read ('\n' :: s)).map (Reading.withImport path)) := by
  refine ⟨⟨fun h => ⟨even_of_inert hfeed hquote hslash h, ?_⟩, ?_⟩, ?_⟩
  · have hempty : read ['\n'] = .ok ⟨⟨[], []⟩, []⟩ := by decide +kernel
    have halone := h []
    rw [List.append_nil, hempty] at halone
    exact halone
  · rintro ⟨heven, halone⟩
    exact read_importLine_append hfeed hquote hslash heven halone
  · intro hdouble hclosed
    refine read_importLine_append hfeed hquote hslash ?_
      (read_importLine_of_closed hfeed hquote hslash hdouble hclosed)
    rw [List.count_eq_zero_of_not_mem hdouble]

end Import

/-- A path may close the comment and open it again. -/
theorem import_inert_iff_reopened :
    let path := "\"*/ /*\"".toList
    let theme := "@theme x \x7ba:b\x7d".toList
    (∀ s, read (Source.importLine "a/b.css".toList ++ s) =
      (read ('\n' :: s)).map (Reading.withImport "a/b.css".toList)) ∧
    path.count '"' % 2 = 0 ∧
    read (Source.importLine path) = .ok ⟨⟨[], ["\"*/ /*\""]⟩, []⟩ ∧
    read (Source.importLine path ++ theme) =
      .ok ⟨⟨[⟨":root[data-theme=\"x\"]", [⟨"--theme-a", "b", false, ⟨2, 25⟩⟩], ⟨2, 1⟩⟩],
        ["\"*/ /*\""]⟩, []⟩ := by
  intro path theme
  have hplain := (@import_inert_iff "a/b.css".toList (by decide) (by decide) (by decide)).2
    (by decide) (by decide)
  have heven : path.count '"' % 2 = 0 := by decide
  have halone : read (Source.importLine path) = .ok ⟨⟨[], ["\"*/ /*\""]⟩, []⟩ := by decide +kernel
  have hinert := (@import_inert_iff path (by decide) (by decide) (by decide)).1.2
    ⟨heven, halone⟩ theme
  have htheme : read ('\n' :: theme) =
      .ok ⟨⟨[⟨":root[data-theme=\"x\"]", [⟨"--theme-a", "b", false, ⟨2, 25⟩⟩], ⟨2, 1⟩⟩], []⟩, []⟩ := by
    decide +kernel
  rw [htheme] at hinert
  exact ⟨hplain, heven, halone, hinert⟩

/-- A path with the end of a comment lets what follows it out of the comment, and a single double
quote hides the themes after it. -/
theorem import_not_inert :
    let path := "*/ .x\x7ba:b\x7d /*".toList
    let quote := "\"".toList
    let theme := "@theme x \x7ba:b\x7d\n".toList
    read (Source.importLine path) ≠ (read ['\n']).map (Reading.withImport path) ∧
      read (Source.importLine quote ++ theme) ≠
        (read ('\n' :: theme)).map (Reading.withImport quote) := by
  decide +kernel

end Sheet

end RichStyle
