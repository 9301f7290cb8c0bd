import RichStyle.Proofs.Clauses
import RichStyle.Proofs.Scanners

/-!
# Pieces of a sheet

A piece is what stands between the braces, colons and semicolons of a sheet: a selector, a property
or a value.  Pieces are written with single spaces and without comments.  Writing out the tokens of
such a piece gives the piece back; and what is written out from any tokens is such a piece.
-/

namespace RichStyle

open Text
open Source (startsBlank Absent absent_cons_iff absent_quote_iff)

/-! ## Last characters -/

theorem Text.closesQuote_getLast {q : Char} {t : List Char} (h : closesQuote q t = true) :
    t.getLast? = some q := by
  fun_induction closesQuote q t with
  | case1 => contradiction
  | case2 c s ih =>
      have hs := ih h
      cases s with
      | nil => contradiction
      | cons d s => simpa using hs
  | case3 s =>
      obtain rfl : s = [] := by simpa using h
      rfl
  | case4 c s hne hcq ih =>
      have hs := ih h
      cases s with
      | nil => contradiction
      | cons d s => simpa using hs

theorem Text.closesComment_getLast {t : List Char} (h : closesComment t = true) :
    t.getLast? = some '/' := by
  fun_induction closesComment t with
  | case1 => contradiction
  | case2 s =>
      obtain rfl : s = [] := by simpa using h
      rfl
  | case3 c s hne ih =>
      have hs := ih h
      cases s with
      | nil => contradiction
      | cons d s => simpa using hs

theorem Text.not_blank_of_ordinary {c : Char} (h : isDelimiter c = false) : isBlank c = false := by
  simp only [isDelimiter, Bool.or_eq_false_iff] at h
  exact h.2

theorem Text.trimEnd_append {x b : List Char} (hx : ∀ c ∈ x.getLast?, isBlank c = false)
    (hb : ∀ c ∈ b, isBlank c = true) : trimEnd (x ++ b) = x := by
  have hdrop : x.reverse.dropWhile isBlank = x.reverse := by
    cases hrev : x.reverse with
    | nil => rfl
    | cons c s =>
        have hc : isBlank c = false := hx c (by simp [← List.head?_reverse, hrev])
        simp [hc]
  have hrev : ∀ c ∈ b.reverse, isBlank c = true := by simpa using hb
  rw [trimEnd, List.reverse_append, List.dropWhile_append_of_pos hrev, hdrop, List.reverse_reverse]

namespace Lexeme

theorem Whole.getLast {l : Lexeme} (h : Whole l) (hl : l.kind ≠ .blank) :
    ∃ c, l.text.getLast? = some c ∧ isBlank c = false := by
  cases h with
  | @mark c kind hk => exact ⟨c, rfl, not_blank_of_punctuation (isPunctuation_of_kind hk)⟩
  | @quoted q s hq hs =>
      refine ⟨q, ?_, not_blank_of_quote hq⟩
      have hlast := closesQuote_getLast hs
      cases s with
      | nil => contradiction
      | cons d s => simpa using hlast
  | @comment s hs =>
      refine ⟨'/', ?_, by decide⟩
      have hlast := closesComment_getLast hs
      cases s with
      | nil => contradiction
      | cons d s => simpa using hlast
  | blank hs => contradiction
  | @plain c s hs =>
      refine ⟨(c :: s).getLast (by simp), List.getLast?_eq_some_getLast (by simp), ?_⟩
      exact not_blank_of_ordinary (hs.ordinary _ (List.getLast_mem _))

/-- Lexemes without braces and comments, with single spaces between them and none in front. -/
structure Neat (lexemes : List Lexeme) : Prop where
  segmented : Segmented lexemes
  inner : ∀ l ∈ lexemes, l.kind ≠ .openBrace ∧ l.kind ≠ .closeBrace ∧ l.kind ≠ .comment
  spaced : ∀ l ∈ lexemes, l.kind = .blank → l.text = [' ']
  head : ∀ l ∈ lexemes.head?, l.kind ≠ .blank

/-- Lexemes as they stand in a piece that has been written out: no space is left at the end. -/
structure Tidy (lexemes : List Lexeme) : Prop extends Neat lexemes where
  last : ∀ l ∈ lexemes.getLast?, l.kind ≠ .blank

theorem Neat.left {a b : List Lexeme} (h : Neat (a ++ b)) : Neat a where
  segmented := ⟨fun l hl => h.segmented.whole l (by simp [hl]),
    (List.isChain_append.1 h.segmented.chain).1⟩
  inner := fun l hl => h.inner l (by simp [hl])
  spaced := fun l hl => h.spaced l (by simp [hl])
  head := by
    intro l hl
    obtain ⟨rest, rfl⟩ := List.head?_eq_some_iff.1 hl
    exact h.head l (by simp)

/-- The text of tidy lexemes does not end with a blank. -/
theorem Tidy.getLast {lexemes : List Lexeme} (h : Tidy lexemes) {c : Char}
    (hc : (join lexemes).getLast? = some c) : isBlank c = false := by
  rcases List.eq_nil_or_concat lexemes with rfl | ⟨before, l, rfl⟩
  · simp [join] at hc
  · have hl : Whole l := h.segmented.whole l (by simp)
    obtain ⟨d, hd, hblank⟩ := hl.getLast (h.last l (by simp))
    have hjoin : join (before ++ [l]) = join before ++ l.text := by simp [join]
    rw [List.concat_eq_append, hjoin, List.getLast?_append, hd] at hc
    obtain rfl : d = c := by simpa using hc
    exact hblank

end Lexeme

/-! ## Writing out a piece -/

namespace Token

theorem endsSpaced_of_whole {t : Token} (h : Lexeme.Whole t.toLexeme) (ht : t.kind ≠ .blank)
    (spaced : Bool) : endsSpaced spaced t.text = false := by
  obtain ⟨c, hc, hblank⟩ := h.getLast ht
  have hspace : c ≠ ' ' := by
    rintro rfl
    contradiction
  simp [endsSpaced, hc, hspace]

theorem joinFrom_solid {t : Token} (ht : t.kind ≠ .blank) (hc : t.kind ≠ .comment) (spaced : Bool)
    (tokens : List Token) :
    joinFrom spaced (t :: tokens) = t.text ++ joinFrom (endsSpaced spaced t.text) tokens := by
  rw [joinFrom]
  split <;> first | contradiction | rfl

theorem joinFrom_blank {t : Token} (ht : t.kind = .blank) (spaced : Bool) (tokens : List Token) :
    joinFrom spaced (t :: tokens) =
      if spaced then joinFrom true tokens else ' ' :: joinFrom true tokens := by
  rw [joinFrom, ht]

/-- Tidy tokens are written out as they stand, whatever follows them. -/
theorem joinFrom_append {tokens : List Token}
    (hwhole : ∀ t ∈ tokens, Lexeme.Whole t.toLexeme)
    (hchain : (tokens.map toLexeme).IsChain Lexeme.Follows)
    (hcomment : ∀ t ∈ tokens, t.kind ≠ .comment)
    (hspace : ∀ t ∈ tokens, t.kind = .blank → t.text = [' ']) (spaced : Bool)
    (hhead : spaced = true → ∀ t ∈ tokens.head?, t.kind ≠ .blank) (rest : List Token) :
    ∃ after, joinFrom spaced (tokens ++ rest) =
      Lexeme.join (tokens.map toLexeme) ++ joinFrom after rest := by
  induction tokens generalizing spaced with
  | nil => exact ⟨spaced, rfl⟩
  | cons t tokens ih =>
      have hrest := ih (fun u hu => hwhole u (by simp [hu])) (by simpa using hchain.tail)
        (fun u hu => hcomment u (by simp [hu])) (fun u hu => hspace u (by simp [hu]))
      by_cases hb : t.kind = .blank
      · have hfalse : spaced = false := by
          cases spaced with
          | false => rfl
          | true => exact absurd hb (hhead rfl t (by simp))
        have hnext : ∀ u ∈ tokens.head?, u.kind ≠ .blank := by
          intro u hu
          rw [List.map_cons, List.isChain_cons] at hchain
          exact (hchain.1 u.toLexeme (by simpa using ⟨u, hu, rfl⟩)).2 hb
        obtain ⟨after, hafter⟩ := hrest true (fun _ => hnext)
        refine ⟨after, ?_⟩
        rw [List.cons_append, joinFrom_blank hb, hfalse, hafter]
        simp [Lexeme.join, hspace t (by simp) hb]
      · have hsolid := endsSpaced_of_whole (hwhole t (by simp)) hb spaced
        obtain ⟨after, hafter⟩ := hrest false (by simp)
        refine ⟨after, ?_⟩
        rw [List.cons_append, joinFrom_solid hb (hcomment t (by simp)), hsolid, hafter]
        simp [Lexeme.join]

theorem exists_joinFrom_append (spaced : Bool) (a b : List Token) :
    ∃ after, joinFrom spaced (a ++ b) = joinFrom spaced a ++ joinFrom after b := by
  induction a generalizing spaced with
  | nil => exact ⟨spaced, rfl⟩
  | cons t a ih =>
      simp only [List.cons_append, joinFrom]
      split
      · exact ih spaced
      · obtain ⟨after, hafter⟩ := ih true
        refine ⟨after, ?_⟩
        split <;> simp [hafter]
      · obtain ⟨after, hafter⟩ := ih (endsSpaced spaced t.text)
        exact ⟨after, by rw [hafter, List.append_assoc]⟩

theorem isTrivia_of_blank {t : Token} (h : t.kind = .blank) : t.isTrivia = true := by
  rw [isTrivia, h]
  rfl

theorem joinFrom_lead {lead : List Token} (hlead : ∀ t ∈ lead, t.isTrivia = true)
    (tokens : List Token) : joinFrom true (lead ++ tokens) = joinFrom true tokens := by
  induction lead with
  | nil => rfl
  | cons t lead ih =>
      have ht := hlead t (by simp)
      have hrest := ih fun u hu => hlead u (by simp [hu])
      rw [List.cons_append, joinFrom]
      cases hk : t.kind <;> simp_all [isTrivia, Kind.isTrivia]

theorem joinFrom_trail {trail : List Token} (htrail : ∀ t ∈ trail, t.kind = .blank)
    (spaced : Bool) : ∀ c ∈ joinFrom spaced trail, isBlank c = true := by
  induction trail generalizing spaced with
  | nil => simp [joinFrom]
  | cons t trail ih =>
      have hrest := ih (fun u hu => htrail u (by simp [hu])) true
      rw [joinFrom_blank (htrail t (by simp))]
      split
      · exact hrest
      · exact List.forall_mem_cons.2 ⟨by decide, hrest⟩

/-- Neat tokens after blanks are written out as they stand, whatever follows them. -/
theorem joinFrom_neat {tokens : List Token} (lead : List Token)
    (hlead : ∀ t ∈ lead, t.kind = .blank) (h : Lexeme.Neat (tokens.map toLexeme))
    (rest : List Token) :
    ∃ spaced, joinFrom true (lead ++ (tokens ++ rest)) =
      Lexeme.join (tokens.map toLexeme) ++ joinFrom spaced rest := by
  have hwhole : ∀ t ∈ tokens, Lexeme.Whole t.toLexeme := fun t ht =>
    h.segmented.whole _ (List.mem_map_of_mem ht)
  have hcomment : ∀ t ∈ tokens, t.kind ≠ .comment := fun t ht =>
    (h.inner _ (List.mem_map_of_mem ht)).2.2
  have hspace : ∀ t ∈ tokens, t.kind = .blank → t.text = [' '] := fun t ht =>
    h.spaced _ (List.mem_map_of_mem ht)
  have hhead : ∀ t ∈ tokens.head?, t.kind ≠ .blank := fun t ht =>
    h.head t.toLexeme (by simpa using ⟨t, ht, rfl⟩)
  rw [joinFrom_lead fun t ht => isTrivia_of_blank (hlead t ht)]
  exact joinFrom_append hwhole h.segmented.chain hcomment hspace true (fun _ => hhead) rest

/-- Neat tokens after a blank are written out without the blank at their end. -/
theorem render_neat {gap : Token} {tokens : List Token} (hgap : gap.kind = .blank)
    (h : Lexeme.Neat (tokens.map toLexeme)) :
    (render (gap :: tokens)).toList = trimEnd (Lexeme.join (tokens.map toLexeme)) := by
  obtain ⟨spaced, hjoin⟩ := joinFrom_neat [gap] (by simpa using hgap) h []
  rw [render, String.toList_ofList]
  simpa [joinFrom] using congrArg trimEnd hjoin

/-- Tidy tokens between blanks are written out as they stand. -/
theorem render_tidy {lead tokens : List Token} (trail : List Token)
    (hlead : ∀ t ∈ lead, t.kind = .blank) (htrail : ∀ t ∈ trail, t.kind = .blank)
    (h : Lexeme.Tidy (tokens.map toLexeme)) :
    render (lead ++ (tokens ++ trail)) = String.ofList (Lexeme.join (tokens.map toLexeme)) := by
  obtain ⟨spaced, hjoin⟩ := joinFrom_neat lead hlead h.toNeat trail
  rw [render, hjoin]
  rw [trimEnd_append (fun c hc => h.getLast hc) (joinFrom_trail htrail spaced)]

end Token

/-! ## Orderly texts -/

/--
Texts whose strings are closed, whose blanks are single spaces and which have no braces outside
strings.  The list holds the kinds of the punctuation marks outside strings, in order.
-/
inductive Orderly : List Kind → List Char → Prop
  | nil : Orderly [] []
  | mark {c : Char} {kind : Kind} {marks : List Kind} {s : List Char}
      (hk : Kind.ofPunctuation? c = some kind) (hopen : kind ≠ .openBrace)
      (hclose : kind ≠ .closeBrace) (hs : Orderly marks s) : Orderly (kind :: marks) (c :: s)
  | plain {c : Char} {marks : List Kind} {s : List Char} (hc : isDelimiter c = false)
      (hs : Orderly marks s) : Orderly marks (c :: s)
  | space {marks : List Kind} {s : List Char} (hb : startsBlank s = false)
      (hs : Orderly marks s) : Orderly marks (' ' :: s)
  | quoted {q : Char} {t : List Char} {marks : List Kind} {s : List Char} (hq : isQuote q = true)
      (ht : closesQuote q t = true) (hs : Orderly marks s) : Orderly marks (q :: (t ++ s))

namespace Orderly

variable {marks : List Kind} {s : List Char}

theorem plainRun (h : Orderly marks s) : Orderly marks (Text.plainRun s).2 := by
  fun_induction Text.plainRun s with
  | case1 => exact h
  | case2 c s hcond => exact h
  | case3 c s hcond run ih =>
      have hc : isDelimiter c = false := by
        simp only [Bool.or_eq_true, not_or, Bool.not_eq_true] at hcond
        exact hcond.1
      cases h with
      | mark hk hopen hclose hs =>
          simp [isDelimiter, Lexeme.isPunctuation_of_kind hk] at hc
      | plain hc hs => exact ih hs
      | space hb hs => contradiction
      | quoted hq ht hs => simp [isDelimiter, hq] at hc

/-- The first lexeme of an orderly text and what it leaves. -/
theorem first {c : Char} (h : Orderly marks (c :: s)) (hcomment : Absent startsComment (c :: s)) :
    ∃ rest, Orderly rest (Lexeme.first c s).2 ∧ Lexeme.Whole (Lexeme.first c s).1 ∧
      ((Lexeme.first c s).1.kind ≠ .openBrace ∧ (Lexeme.first c s).1.kind ≠ .closeBrace ∧
        (Lexeme.first c s).1.kind ≠ .comment) ∧
      ((Lexeme.first c s).1.kind = .blank → (Lexeme.first c s).1.text = [' ']) ∧
      marks = [(Lexeme.first c s).1.kind].filter Kind.isMark ++ rest := by
  cases h with
  | @mark _ kind rest _ hk hopen hclose hs =>
      have hkind := Lexeme.mark_kind hk
      have hstop : Lexeme.StopsAt ⟨kind, [c]⟩ s :=
        ⟨fun e => absurd e hkind.1, fun e => absurd e hkind.2.1⟩
      have hfirst := Lexeme.first_of_whole (.mark hk) rfl hstop
      have hmark : kind.isMark = true := by
        cases kind <;> simp_all [Kind.isMark]
      rw [List.nil_append] at hfirst
      rw [hfirst]
      exact ⟨rest, hs, .mark hk, ⟨hopen, hclose, hkind.2.2.2⟩, fun e => absurd e hkind.2.1,
        by simp [hmark]⟩
  | plain hc hs =>
      have hd := hc
      simp only [isDelimiter, Bool.or_eq_false_iff] at hd
      have hstart := ((absent_cons_iff hd.1.2).1 hcomment).1
      have hfirst : Lexeme.first c s = (⟨.plain, c :: (Text.plainRun s).1⟩, (Text.plainRun s).2) := by
        simp [Lexeme.first, Lexeme.ofPunctuation_of_ordinary hd.1.1, hd.1.2, hd.2, hstart]
      have hplain := plain_plainRun (c :: s)
      simp only [Text.plainRun, hc, hstart, Bool.or_self] at hplain
      rw [hfirst]
      exact ⟨marks, hs.plainRun, .plain hplain, by simp, by simp, rfl⟩
  | space hb hs =>
      have hstop : Lexeme.StopsAt ⟨.blank, [' ']⟩ s := by
        refine ⟨fun e => by contradiction, fun _ => ?_⟩
        cases s with
        | nil => rfl
        | cons d s =>
            have hd : isBlank d = false := hb
            simp [hd]
      have hwhole : Lexeme.Whole ⟨.blank, [' ']⟩ := .blank (by simp)
      have hfirst := Lexeme.first_of_whole hwhole rfl hstop
      rw [List.nil_append] at hfirst
      rw [hfirst]
      exact ⟨marks, hs, hwhole, by simp, by simp, rfl⟩
  | @quoted _ t _ s hq ht hs =>
      have hstop : Lexeme.StopsAt ⟨.quoted, c :: t⟩ s :=
        ⟨fun e => by contradiction, fun e => by contradiction⟩
      rw [Lexeme.first_of_whole (.quoted hq ht) rfl hstop]
      exact ⟨marks, hs, .quoted hq ht, by simp, by simp, rfl⟩

/-- The lexemes of an orderly text in which no comment opens. -/
theorem split (h : Orderly marks s) (hcomment : Absent startsComment s) :
    (∀ l ∈ Lexeme.split s, Lexeme.Whole l ∧
      (l.kind ≠ .openBrace ∧ l.kind ≠ .closeBrace ∧ l.kind ≠ .comment) ∧
      (l.kind = .blank → l.text = [' '])) ∧
    ((Lexeme.split s).map Lexeme.kind).filter Kind.isMark = marks := by
  fun_induction Lexeme.split s generalizing marks with
  | case1 =>
      cases h
      simp
  | case2 c s ih =>
      obtain ⟨rest, hrest, hwhole, hinner, hspace, rfl⟩ := h.first hcomment
      obtain ⟨hall, hmarks⟩ := ih hrest ((Source.absent_startsComment_first c s).1 hcomment).2
      refine ⟨List.forall_mem_cons.2 ⟨⟨hwhole, hinner, hspace⟩, hall⟩, ?_⟩
      rw [List.map_cons, ← List.singleton_append, List.filter_append, hmarks]

/-! ### Taking orderly texts apart and putting them together -/

theorem tail {c : Char} (h : Orderly marks (c :: s)) (hc : isQuote c = false) :
    ∃ rest, Orderly rest s ∧ marks = (Kind.ofPunctuation? c).toList ++ rest := by
  cases h with
  | @mark _ kind rest _ hk hopen hclose hs => exact ⟨rest, hs, by simp [hk]⟩
  | plain hd hs =>
      simp only [isDelimiter, Bool.or_eq_false_iff] at hd
      exact ⟨marks, hs, by simp [Lexeme.ofPunctuation_of_ordinary hd.1.1]⟩
  | space hb hs => exact ⟨marks, hs, rfl⟩
  | quoted hq ht hs =>
      rw [hq] at hc
      contradiction

theorem dropLast {c : Char} (h : Orderly marks (s ++ [c])) (hc : isQuote c = false) :
    ∃ rest, Orderly rest s ∧ marks = rest ++ (Kind.ofPunctuation? c).toList := by
  generalize hsc : s ++ [c] = t at h
  induction h generalizing s with
  | nil => simp at hsc
  | @mark d kind rest t hk hopen hclose hs ih =>
      cases s with
      | nil =>
          obtain ⟨rfl, rfl⟩ := List.cons.inj hsc
          cases hs
          exact ⟨[], .nil, by simp [hk]⟩
      | cons e s =>
          obtain ⟨rfl, htail⟩ := List.cons.inj hsc
          obtain ⟨before, hbefore, rfl⟩ := ih htail
          exact ⟨kind :: before, .mark hk hopen hclose hbefore, rfl⟩
  | @plain d rest t hd hs ih =>
      cases s with
      | nil =>
          obtain ⟨rfl, rfl⟩ := List.cons.inj hsc
          cases hs
          simp only [isDelimiter, Bool.or_eq_false_iff] at hd
          exact ⟨[], .nil, by simp [Lexeme.ofPunctuation_of_ordinary hd.1.1]⟩
      | cons e s =>
          obtain ⟨rfl, htail⟩ := List.cons.inj hsc
          obtain ⟨before, hbefore, rfl⟩ := ih htail
          exact ⟨before, .plain hd hbefore, rfl⟩
  | @space rest t hb hs ih =>
      cases s with
      | nil =>
          obtain ⟨rfl, rfl⟩ := List.cons.inj hsc
          cases hs
          exact ⟨[], .nil, rfl⟩
      | cons e s =>
          obtain ⟨rfl, htail⟩ := List.cons.inj hsc
          obtain ⟨before, hbefore, rfl⟩ := ih htail
          refine ⟨before, .space ?_ hbefore, rfl⟩
          cases s with
          | nil => rfl
          | cons f s =>
              subst htail
              exact hb
  | @quoted q u rest t hq hu hs ih =>
      -- The string ends with a quote, so the last character stands after it.
      rcases List.eq_nil_or_concat t with rfl | ⟨t', d, rfl⟩
      · have hlast := congrArg List.getLast? hsc
        have hclose := closesQuote_getLast hu
        rw [List.append_nil, List.getLast?_concat] at hlast
        cases u with
        | nil => contradiction
        | cons f u =>
            rw [List.getLast?_cons_cons, hclose] at hlast
            obtain rfl : c = q := by simpa using hlast
            rw [hq] at hc
            contradiction
      · rw [List.concat_eq_append] at hsc
        have hcat : s ++ [c] = (q :: (u ++ t')) ++ [d] := by simpa using hsc
        obtain ⟨rfl, hcd⟩ := List.append_inj' hcat rfl
        obtain rfl : c = d := by simpa using hcd
        obtain ⟨before, hbefore, rfl⟩ := ih (s := t') (by simp)
        exact ⟨before, .quoted hq hu hbefore, rfl⟩

theorem not_mark_of_blank {c : Char} (hc : isBlank c = true) :
    isQuote c = false ∧ Kind.ofPunctuation? c = none := by
  constructor
  · rw [Bool.eq_false_iff]
    intro hq
    rw [Lexeme.not_blank_of_quote hq] at hc
    contradiction
  · cases hk : Kind.ofPunctuation? c with
    | none => rfl
    | some kind =>
        rw [Lexeme.not_blank_of_punctuation (Lexeme.isPunctuation_of_kind hk)] at hc
        contradiction

theorem trimStart (h : Orderly marks s) : Orderly marks (Text.trimStart s) := by
  unfold Text.trimStart
  induction s with
  | nil => exact h
  | cons c s ih =>
      cases hc : isBlank c with
      | false => rwa [List.dropWhile_cons_of_neg (by simp [hc])]
      | true =>
          obtain ⟨rest, hrest, hmarks⟩ := h.tail (not_mark_of_blank hc).1
          rw [(not_mark_of_blank hc).2] at hmarks
          obtain rfl : marks = rest := hmarks
          rw [List.dropWhile_cons_of_pos hc]
          exact ih hrest

theorem trimEnd (h : Orderly marks s) : Orderly marks (Text.trimEnd s) := by
  induction s using List.reverseRecOn with
  | nil => exact h
  | append_singleton s c ih =>
      unfold Text.trimEnd at ih ⊢
      rw [List.reverse_append, List.reverse_singleton, List.singleton_append]
      cases hc : isBlank c with
      | false =>
          rw [List.dropWhile_cons_of_neg (by simp [hc])]
          simpa using h
      | true =>
          obtain ⟨rest, hrest, hmarks⟩ := h.dropLast (not_mark_of_blank hc).1
          rw [(not_mark_of_blank hc).2, Option.toList_none, List.append_nil] at hmarks
          subst hmarks
          rw [List.dropWhile_cons_of_pos hc]
          exact ih hrest

theorem append {more : List Kind} {t : List Char} (hs : Orderly marks s) (ht : Orderly more t)
    (hjoint : s.getLast? = some ' ' → startsBlank t = false) : Orderly (marks ++ more) (s ++ t) := by
  induction hs with
  | nil => exact ht
  | @mark c kind rest s hk hopen hclose hs ih =>
      refine .mark hk hopen hclose (ih fun hlast => hjoint ?_)
      cases s with
      | nil => contradiction
      | cons d s => simpa using hlast
  | @plain c rest s hc hs ih =>
      refine .plain hc (ih fun hlast => hjoint ?_)
      cases s with
      | nil => contradiction
      | cons d s => simpa using hlast
  | @space rest s hb hs ih =>
      cases s with
      | nil => 
          refine .space (hjoint rfl) (ih fun hlast => ?_)
          contradiction
      | cons d s =>
          exact .space hb (ih fun hlast => hjoint (by simpa using hlast))
  | @quoted q u rest s hq hu hs ih =>
      rw [List.cons_append, List.append_assoc]
      refine .quoted hq hu (ih fun hlast => hjoint ?_)
      rw [List.getLast?_cons]
      simp [List.getLast?_append, hlast]

theorem plain_append {t : List Char} (ht : ∀ c ∈ t, isDelimiter c = false) (hs : Orderly marks s) :
    Orderly marks (t ++ s) := by
  induction t with
  | nil => exact hs
  | cons c t ih => exact .plain (ht c (by simp)) (ih fun d hd => ht d (by simp [hd]))

end Orderly

/-- Texts without blanks at their ends. -/
structure Unpadded (s : List Char) : Prop where
  start : startsBlank s = false
  finish : ∀ c ∈ s.getLast?, isBlank c = false

instance (s : List Char) : Decidable (Unpadded s) :=
  decidable_of_iff (startsBlank s = false ∧ (s.getLast?.all fun c => !isBlank c) = true)
    ⟨fun h => ⟨h.1, by simpa [Option.all_eq_true] using h.2⟩,
      fun h => ⟨h.start, by simpa [Option.all_eq_true] using h.finish⟩⟩

namespace Lexeme

/-- Harmless whole lexemes are neat if their text does not start with a blank. -/
theorem neat_of_start {s : List Char}
    (h : ∀ l ∈ split s, Whole l ∧
      (l.kind ≠ .openBrace ∧ l.kind ≠ .closeBrace ∧ l.kind ≠ .comment) ∧
      (l.kind = .blank → l.text = [' ']))
    (hs : startsBlank s = false) : Neat (split s) := by
  refine ⟨⟨fun l hl => (h l hl).1, split_chain s⟩, fun l hl => (h l hl).2.1,
    fun l hl => (h l hl).2.2, ?_⟩
  intro l hl hblank
  have htext := (h l (List.mem_of_mem_head? hl)).2.2 hblank
  obtain ⟨rest, hrest⟩ : ∃ rest, split s = l :: rest := List.head?_eq_some_iff.1 hl
  have hjoin := join_split s
  rw [hrest, join, List.flatMap_cons, htext] at hjoin
  rw [← hjoin] at hs
  contradiction

theorem Neat.tidy {s : List Char} (h : Neat (split s)) (hs : Unpadded s) : Tidy (split s) := by
  refine ⟨h, ?_⟩
  intro l hl hblank
  have htext := h.spaced l (List.mem_of_mem_getLast? hl) hblank
  obtain ⟨before, hbefore⟩ : ∃ before, split s = before ++ [l] :=
    List.getLast?_eq_some_iff.1 hl
  have hjoin := join_split s
  rw [hbefore, join, List.flatMap_append] at hjoin
  have hlast : s.getLast? = some ' ' := by
    rw [← hjoin]
    simp [htext]
  have := hs.finish ' ' hlast
  contradiction

end Lexeme

theorem Orderly.neat {marks : List Kind} {s : List Char} (h : Orderly marks s)
    (hcomment : Absent startsComment s) (hs : startsBlank s = false) :
    Lexeme.Neat (Lexeme.split s) :=
  Lexeme.neat_of_start (h.split hcomment).1 hs

/-! ## What is written out is orderly -/

theorem Lexeme.Whole.orderly_append {l : Lexeme} (h : Whole l) (hblank : l.kind ≠ .blank)
    (hcomment : l.kind ≠ .comment) (hopen : l.kind ≠ .openBrace) (hclose : l.kind ≠ .closeBrace)
    {marks : List Kind} {s : List Char} (hs : Orderly marks s) :
    Orderly ([l.kind].filter Kind.isMark ++ marks) (l.text ++ s) ∧
      startsBlank (l.text ++ s) = false := by
  cases h with
  | @mark c kind hk =>
      have hkind := mark_kind hk
      have hmark : kind.isMark = true := by
        cases kind <;> simp_all [Kind.isMark]
      refine ⟨?_, not_blank_of_punctuation (isPunctuation_of_kind hk)⟩
      simpa [hmark] using Orderly.mark hk hopen hclose hs
  | quoted hq ht => exact ⟨.quoted hq ht hs, not_blank_of_quote hq⟩
  | comment ht => contradiction
  | blank ht => contradiction
  | @plain c t ht =>
      exact ⟨Orderly.plain_append ht.ordinary hs, not_blank_of_ordinary (ht.ordinary c (by simp))⟩

theorem Token.orderly_joinFrom {tokens : List Token}
    (hwhole : ∀ t ∈ tokens, Lexeme.Whole t.toLexeme)
    (hbrace : ∀ t ∈ tokens, t.kind ≠ .openBrace ∧ t.kind ≠ .closeBrace) (spaced : Bool) :
    Orderly ((tokens.map (·.kind)).filter Kind.isMark) (joinFrom spaced tokens) ∧
      (spaced = true → startsBlank (joinFrom spaced tokens) = false) := by
  induction tokens generalizing spaced with
  | nil => exact ⟨.nil, fun _ => rfl⟩
  | cons t tokens ih =>
      have hrest := ih (fun u hu => hwhole u (by simp [hu])) (fun u hu => hbrace u (by simp [hu]))
      have ht := hwhole t (by simp)
      obtain ⟨hopen, hclose⟩ := hbrace t (by simp)
      rw [List.map_cons, List.filter_cons]
      by_cases hblank : t.kind = .blank
      · rw [joinFrom_blank hblank, hblank]
        cases spaced with
        | true => exact hrest true
        | false => exact ⟨.space ((hrest true).2 rfl) (hrest true).1, by simp⟩
      by_cases hcomment : t.kind = .comment
      · rw [joinFrom, hcomment]
        exact hrest spaced
      rw [joinFrom_solid hblank hcomment, endsSpaced_of_whole ht hblank]
      obtain ⟨horder, hstart⟩ := ht.orderly_append hblank hcomment hopen hclose (hrest false).1
      refine ⟨?_, fun _ => hstart⟩
      cases hmark : t.kind.isMark with
      | true => simpa [hmark] using horder
      | false => simpa [hmark] using horder

theorem Text.getLast_trimEnd (s : List Char) : ∀ c ∈ (trimEnd s).getLast?, isBlank c = false := by
  intro c hc
  have hhead := List.head?_dropWhile_not isBlank s.reverse
  rw [trimEnd, List.getLast?_reverse] at hc
  rw [hc] at hhead
  exact hhead

theorem Text.unpadded_trimEnd {s : List Char} (h : startsBlank s = false) : Unpadded (trimEnd s) := by
  constructor
  · have hprefix : trimEnd s <+: s := by
      have hsuffix := List.dropWhile_suffix isBlank (l := s.reverse)
      have hprefix := List.reverse_prefix.2 hsuffix
      rwa [List.reverse_reverse] at hprefix
    obtain ⟨t, ht⟩ := hprefix
    cases hs : trimEnd s with
    | nil => rfl
    | cons c u =>
        rw [hs] at ht
        rw [← ht] at h
        exact h
  · exact getLast_trimEnd s

/-- What is written out from whole tokens is orderly, with the marks of the tokens. -/
theorem Token.orderly_render {tokens : List Token}
    (hwhole : ∀ t ∈ tokens, Lexeme.Whole t.toLexeme)
    (hbrace : ∀ t ∈ tokens, t.kind ≠ .openBrace ∧ t.kind ≠ .closeBrace) :
    Orderly ((tokens.map (·.kind)).filter Kind.isMark) (render tokens).toList ∧
      Unpadded (render tokens).toList := by
  obtain ⟨horder, hstart⟩ := orderly_joinFrom hwhole hbrace true
  rw [render, String.toList_ofList]
  exact ⟨horder.trimEnd, unpadded_trimEnd (hstart rfl)⟩

end RichStyle
