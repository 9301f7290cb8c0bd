import Mathlib.Data.List.Chain
import RichStyle.Token

/-!
# The lexical grammar

What a lexeme of each kind looks like when it is whole, and which lexemes may stand side by side.
Every lexeme of a text but the last is whole.  Whole lexemes that may stand side by side are found
again in the text they make up.
-/

namespace RichStyle

namespace Text

/-- Whether a text is the rest of a string opened by `q`, its closing quote at the very end. -/
def closesQuote (q : Char) : List Char → Bool
  | [] => false
  | '\\' :: _ :: s => closesQuote q s
  | c :: s => if c = q then s.isEmpty else closesQuote q s

/-- Whether a text is the rest of a comment, its first `*/` at the very end. -/
def closesComment : List Char → Bool
  | [] => false
  | '*' :: '/' :: s => s.isEmpty
  | _ :: s => closesComment s

theorem quote_ne_backslash {q : Char} (hq : isQuote q = true) : q ≠ '\\' := by
  rintro rfl
  revert hq
  decide

theorem closesQuote_cons {q c : Char} (hc : c ≠ '\\') (s : List Char) :
    closesQuote q (c :: s) = if c = q then s.isEmpty else closesQuote q s := by
  rw [closesQuote.eq_def]
  split
  · contradiction
  · next heq => exact absurd (List.cons.inj heq).1 hc
  · next heq =>
      obtain ⟨rfl, rfl⟩ := List.cons.inj heq
      rfl

theorem quotedRun_cons {q c : Char} (hc : c ≠ '\\') (s : List Char) :
    quotedRun q (c :: s) =
      if c = q then ([c], s) else (c :: (quotedRun q s).1, (quotedRun q s).2) := by
  rw [quotedRun.eq_def]
  split
  · contradiction
  · next heq => exact absurd (List.cons.inj heq).1 hc
  · next heq =>
      obtain ⟨rfl, rfl⟩ := List.cons.inj heq
      rfl

theorem quotedRun_of_closes {q : Char} {t : List Char} (r : List Char) (hq : isQuote q = true)
    (h : closesQuote q t = true) : quotedRun q (t ++ r) = (t, r) := by
  have hslash := quote_ne_backslash hq
  fun_induction closesQuote q t with
  | case1 => contradiction
  | case2 c s ih => simp [quotedRun, ih h]
  | case3 s =>
      obtain rfl : s = [] := by simpa using h
      simp [quotedRun_cons hslash]
  | case4 c s hne hcq ih =>
      cases s with
      | nil => simp [closesQuote] at h
      | cons d s =>
          have hc : c ≠ '\\' := fun e => hne d s e rfl
          have hrun := ih h
          rw [List.cons_append, quotedRun_cons hc, if_neg hcq, hrun]

theorem closesQuote_of_rest {q : Char} {s : List Char} (h : (quotedRun q s).2 ≠ []) :
    closesQuote q (quotedRun q s).1 = true := by
  fun_induction quotedRun q s with
  | case1 => contradiction
  | case2 c s run ih => simpa [closesQuote] using ih h
  | case3 s => simp [closesQuote]
  | case4 c s hne hcq run ih =>
      cases s with
      | nil => exact absurd rfl h
      | cons d s =>
          have hc : c ≠ '\\' := fun e => hne d s e rfl
          rw [closesQuote_cons hc, if_neg hcq]
          exact ih h

theorem commentRun_cons {c : Char} {s : List Char} (h : ∀ r, c = '*' → s = '/' :: r → False) :
    commentRun (c :: s) = (c :: (commentRun s).1, (commentRun s).2) := by
  rw [commentRun.eq_def]
  split
  · contradiction
  · next heq => exact absurd (List.cons.inj heq).2 (h _ (List.cons.inj heq).1)
  · next heq =>
      obtain ⟨rfl, rfl⟩ := List.cons.inj heq
      rfl

theorem closesComment_cons {c : Char} {s : List Char} (h : ∀ r, c = '*' → s = '/' :: r → False) :
    closesComment (c :: s) = closesComment s := by
  rw [closesComment.eq_def]
  split
  · contradiction
  · next heq => exact absurd (List.cons.inj heq).2 (h _ (List.cons.inj heq).1)
  · next heq =>
      obtain ⟨rfl, rfl⟩ := List.cons.inj heq
      rfl

theorem commentRun_of_closes {t : List Char} (r : List Char) (h : closesComment t = true) :
    commentRun (t ++ r) = (t, r) := by
  fun_induction closesComment t with
  | case1 => contradiction
  | case2 s =>
      obtain rfl : s = [] := by simpa using h
      rfl
  | case3 c s hne ih =>
      cases s with
      | nil => simp [closesComment] at h
      | cons d s =>
          have hopen : ∀ u, c = '*' → d :: s ++ r = '/' :: u → False := by
            intro u hc hd
            have hd' : d = '/' := by simpa using congrArg List.head? hd
            exact hne s hc (by rw [hd'])
          rw [List.cons_append, commentRun_cons hopen, ih h]

theorem closesComment_of_rest {s : List Char} (h : (commentRun s).2 ≠ []) :
    closesComment (commentRun s).1 = true := by
  fun_induction commentRun s with
  | case1 => contradiction
  | case2 s => rfl
  | case3 c s hne run ih =>
      have hopen : ∀ u, c = '*' → run.1 = '/' :: u → False := by
        intro u hc hu
        have hs := commentRun_append s
        have hrun : (commentRun s).1 = '/' :: u := hu
        rw [hrun] at hs
        exact hne _ hc hs.symm
      rw [closesComment_cons hopen]
      exact ih h

theorem closesComment_of_not_isInfix {x : List Char} (h : ¬ ['*', '/'] <:+: x ++ ['*']) :
    closesComment (x ++ ['*', '/']) = true := by
  induction x with
  | nil => rfl
  | cons c x ih =>
      have hrest : ¬ ['*', '/'] <:+: x ++ ['*'] := fun hw => h (List.infix_cons hw)
      rw [List.cons_append, closesComment_cons, ih hrest]
      rintro r rfl hr
      cases x with
      | nil => cases hr
      | cons d x =>
          obtain ⟨rfl, -⟩ := List.cons.inj hr
          exact h ⟨[], x ++ ['*'], by simp⟩

/-- Whether a run of ordinary characters ends in front of a text. -/
def stopsPlain : List Char → Bool
  | [] => true
  | c :: s => isDelimiter c || startsComment (c :: s)

/-- Ordinary characters among which no comment opens. -/
structure Plain (t : List Char) : Prop where
  ordinary : ∀ c ∈ t, isDelimiter c = false
  noComment : ¬ ['/', '*'] <:+: t

theorem Plain.tail {c : Char} {t : List Char} (h : Plain (c :: t)) : Plain t :=
  ⟨fun d hd => h.ordinary d (List.mem_cons_of_mem c hd), fun hi => h.noComment (List.infix_cons hi)⟩

theorem startsComment_cons_append {c : Char} {t r : List Char} (ht : Plain (c :: t))
    (hr : stopsPlain r = true) : startsComment (c :: (t ++ r)) = false := by
  rw [Bool.eq_false_iff]
  intro h
  obtain ⟨u, hu⟩ := Lexeme.startsComment_iff.1 h
  obtain ⟨rfl, hv⟩ := List.cons.inj hu
  cases t with
  | nil =>
      obtain rfl : r = '*' :: u := hv
      revert hr
      simp [stopsPlain, startsComment, isDelimiter, isPunctuation, isQuote, isBlank]
  | cons d t =>
      obtain ⟨rfl, -⟩ := List.cons.inj hv
      exact ht.noComment ⟨[], t, rfl⟩

theorem plainRun_of_plain {t r : List Char} (ht : Plain t) (hr : stopsPlain r = true) :
    plainRun (t ++ r) = (t, r) := by
  induction t with
  | nil =>
      cases r with
      | nil => rfl
      | cons c s =>
          have hstop : (isDelimiter c || startsComment (c :: s)) = true := hr
          simp only [List.nil_append, plainRun, hstop, if_true]
  | cons c t ih =>
      have hcomment := startsComment_cons_append ht hr
      rw [List.cons_append]
      simp only [plainRun, ht.ordinary c (by simp), hcomment, Bool.or_self, ih ht.tail]
      rfl

theorem plain_plainRun (s : List Char) : Plain (plainRun s).1 := by
  fun_induction plainRun s with
  | case1 => exact ⟨by simp, by simp⟩
  | case2 => exact ⟨by simp, by simp⟩
  | case3 c s hcond run ih =>
      have hc : isDelimiter c = false ∧ startsComment (c :: s) = false := by simpa using hcond
      refine ⟨?_, ?_⟩
      · intro d hd
        rcases List.mem_cons.1 hd with rfl | hd
        · exact hc.1
        · exact ih.ordinary d hd
      · intro hi
        rcases List.infix_cons_iff.1 hi with hpre | hi
        · -- A comment that opens at `c` would open there in the text as well.
          obtain ⟨rfl, u, hu⟩ : c = '/' ∧ ∃ u, run.1 = '*' :: u := by
            obtain ⟨u, hu⟩ := hpre
            obtain ⟨hc', hu⟩ := List.cons.inj hu
            exact ⟨hc'.symm, u, hu.symm⟩
          have hs := plainRun_append s
          have hrun : (plainRun s).1 = '*' :: u := hu
          rw [hrun] at hs
          rw [← hs] at hc
          exact absurd hc.2 (by simp [startsComment])
        · exact ih.noComment hi

theorem stopsPlain_plainRun (s : List Char) : stopsPlain (plainRun s).2 = true := by
  fun_induction plainRun s with
  | case1 => rfl
  | case2 c s hcond => exact hcond
  | case3 c s hcond run ih => exact ih

end Text

open Text

namespace Lexeme

/-- Lexemes that are complete in themselves, one case for each kind. -/
inductive Whole : Lexeme → Prop
  | mark {c : Char} {kind : Kind} (h : Kind.ofPunctuation? c = some kind) : Whole ⟨kind, [c]⟩
  | quoted {q : Char} {s : List Char} (hq : isQuote q = true) (hs : closesQuote q s = true) :
      Whole ⟨.quoted, q :: s⟩
  | comment {s : List Char} (h : closesComment s = true) : Whole ⟨.comment, '/' :: '*' :: s⟩
  | blank {c : Char} {s : List Char} (h : ∀ x ∈ c :: s, isBlank x = true) : Whole ⟨.blank, c :: s⟩
  | plain {c : Char} {s : List Char} (h : Plain (c :: s)) : Whole ⟨.plain, c :: s⟩

/-- Two runs of one kind do not stand side by side: they would be one run. -/
def Follows (l m : Lexeme) : Prop :=
  (l.kind = .plain → m.kind ≠ .plain) ∧ (l.kind = .blank → m.kind ≠ .blank)

/-- Whole lexemes, each of which may follow the one before it. -/
structure Segmented (lexemes : List Lexeme) : Prop where
  whole : ∀ l ∈ lexemes, Whole l
  chain : lexemes.IsChain Follows

/-! ## Whole lexemes are found again -/

theorem Whole.text_ne_nil {l : Lexeme} (h : Whole l) : l.text ≠ [] := by
  cases h <;> simp

theorem isPunctuation_of_kind {c : Char} {kind : Kind} (h : Kind.ofPunctuation? c = some kind) :
    isPunctuation c = true := by
  unfold Kind.ofPunctuation? at h
  split at h <;> first | rfl | contradiction

theorem eq_of_kind {c d : Char} {kind : Kind} (hc : Kind.ofPunctuation? c = some kind)
    (hd : Kind.ofPunctuation? d = some kind) : c = d := by
  unfold Kind.ofPunctuation? at hc hd
  split at hc <;> cases hc <;> split at hd <;> first | rfl | contradiction

theorem Whole.text_semicolon {l : Lexeme} (h : Whole l) (hl : l.kind = .semicolon) :
    l.text = [';'] := by
  cases h with
  | mark hk =>
      obtain rfl := hl
      rw [eq_of_kind hk (d := ';') rfl]
  | quoted => contradiction
  | comment => contradiction
  | blank => contradiction
  | plain => contradiction

theorem ofPunctuation_of_ordinary {c : Char} (h : isPunctuation c = false) :
    Kind.ofPunctuation? c = none := by
  cases hk : Kind.ofPunctuation? c with
  | none => rfl
  | some kind => rw [isPunctuation_of_kind hk] at h; contradiction

/-- A run of ordinary characters ends in front of a whole lexeme of another kind. -/
theorem Whole.stopsPlain {m : Lexeme} (h : Whole m) (hm : m.kind ≠ .plain) (r : List Char) :
    stopsPlain (m.text ++ r) = true := by
  cases h with
  | mark h => simp [Text.stopsPlain, isDelimiter, isPunctuation_of_kind h]
  | quoted hq hs => simp [Text.stopsPlain, isDelimiter, hq]
  | comment h => simp [Text.stopsPlain, startsComment]
  | blank h => simp [Text.stopsPlain, isDelimiter, h]
  | plain h => exact absurd rfl hm

theorem not_blank_of_punctuation {c : Char} (h : isPunctuation c = true) : isBlank c = false := by
  simp only [isPunctuation, Bool.or_eq_true, beq_iff_eq] at h
  rcases h with ((((rfl | rfl) | rfl) | rfl) | rfl) | rfl <;> decide

theorem not_quote_of_punctuation {c : Char} (h : isPunctuation c = true) : isQuote c = false := by
  simp only [isPunctuation, Bool.or_eq_true, beq_iff_eq] at h
  rcases h with ((((rfl | rfl) | rfl) | rfl) | rfl) | rfl <;> decide

theorem not_blank_of_quote {c : Char} (h : isQuote c = true) : isBlank c = false := by
  simp only [isQuote, Bool.or_eq_true, beq_iff_eq] at h
  rcases h with rfl | rfl <;> decide

theorem not_punctuation_of_quote {c : Char} (h : isQuote c = true) : isPunctuation c = false := by
  simp only [isQuote, Bool.or_eq_true, beq_iff_eq] at h
  rcases h with rfl | rfl <;> decide

/-- A run of blanks ends in front of a whole lexeme of another kind. -/
theorem Whole.stopsBlank {m : Lexeme} (h : Whole m) (hm : m.kind ≠ .blank) (r : List Char) :
    (m.text ++ r).takeWhile isBlank = [] := by
  cases h with
  | mark h => simp [not_blank_of_punctuation (isPunctuation_of_kind h)]
  | quoted hq hs => simp [not_blank_of_quote hq]
  | comment h => simp [show isBlank '/' = false by decide]
  | blank h => exact absurd rfl hm
  | @plain c s h =>
      have hc : isBlank c = false := by
        have hd := h.ordinary c (by simp)
        simp only [isDelimiter, Bool.or_eq_false_iff] at hd
        exact hd.2
      simp [hc]

/-- What a text must be like for a lexeme in front of it to end there. -/
def StopsAt (l : Lexeme) (r : List Char) : Prop :=
  (l.kind = .plain → Text.stopsPlain r = true) ∧ (l.kind = .blank → r.takeWhile isBlank = [])

theorem stopsAt_nil (l : Lexeme) : StopsAt l [] :=
  ⟨fun _ => rfl, fun _ => rfl⟩

theorem Follows.stopsAt {l m : Lexeme} (h : Follows l m) (hm : Whole m) (r : List Char) :
    StopsAt l (m.text ++ r) :=
  ⟨fun hl => hm.stopsPlain (h.1 hl) r, fun hl => hm.stopsBlank (h.2 hl) r⟩

theorem first_of_whole {l : Lexeme} {c : Char} {s : List Char} (h : Whole l)
    (ht : l.text = c :: s) {r : List Char} (hr : StopsAt l r) : first c (s ++ r) = (l, r) := by
  cases h with
  | mark h =>
      obtain ⟨rfl, rfl⟩ := List.cons.inj ht
      simp [first, h]
  | quoted hq hs =>
      obtain ⟨rfl, rfl⟩ := List.cons.inj ht
      have hp := ofPunctuation_of_ordinary (not_punctuation_of_quote hq)
      simp [first, hp, hq, quotedRun_of_closes r hq hs]
  | comment h =>
      obtain ⟨rfl, rfl⟩ := List.cons.inj ht
      simp [first, Kind.ofPunctuation?, isQuote, startsComment, commentRun_of_closes r h]
  | @blank d t h =>
      obtain ⟨rfl, rfl⟩ := List.cons.inj ht
      have hd := h d (by simp)
      have ht : ∀ x ∈ t, isBlank x = true := fun x hx => h x (by simp [hx])
      have hp : isPunctuation d = false := by
        rw [Bool.eq_false_iff]
        intro hp
        rw [not_blank_of_punctuation hp] at hd
        contradiction
      have hq : isQuote d = false := by
        rw [Bool.eq_false_iff]
        intro hq
        rw [not_blank_of_quote hq] at hd
        contradiction
      have hcomment : startsComment (d :: (t ++ r)) = false := by
        rw [Bool.eq_false_iff]
        intro hcomment
        obtain ⟨u, hu⟩ := startsComment_iff.1 hcomment
        obtain ⟨rfl, -⟩ := List.cons.inj hu
        revert hd
        decide
      have hstop := hr.2 rfl
      have hdrop : r.dropWhile isBlank = r := by
        have := List.takeWhile_append_dropWhile (p := isBlank) (l := r)
        rwa [hstop] at this
      simp [first, ofPunctuation_of_ordinary hp, hq, hcomment, hd, blankRun,
        List.takeWhile_append_of_pos ht, List.dropWhile_append_of_pos ht, hstop, hdrop]
  | @plain d t h =>
      obtain ⟨rfl, rfl⟩ := List.cons.inj ht
      have hd := h.ordinary d (by simp)
      simp only [isDelimiter, Bool.or_eq_false_iff] at hd
      have hcomment := startsComment_cons_append h (hr.1 rfl)
      have hrun := plainRun_of_plain h.tail (hr.1 rfl)
      simp [first, ofPunctuation_of_ordinary hd.1.1, hd.1.2, hd.2, hcomment, hrun]

theorem split_join_append {lexemes : List Lexeme} {r : List Char} (h : Segmented lexemes)
    (hr : ∀ l ∈ lexemes.getLast?, StopsAt l r) : split (join lexemes ++ r) = lexemes ++ split r := by
  obtain ⟨hwhole, hchain⟩ := h
  induction lexemes with
  | nil => simp [join]
  | cons l lexemes ih =>
      have hl := hwhole l (by simp)
      obtain ⟨c, s, ht⟩ := List.exists_cons_of_ne_nil hl.text_ne_nil
      have hstop : StopsAt l (join lexemes ++ r) := by
        cases lexemes with
        | nil => exact hr l (by simp)
        | cons m lexemes =>
            have hm := (List.isChain_cons_cons.1 hchain).1.stopsAt (hwhole m (by simp))
              (join lexemes ++ r)
            simpa [join] using hm
      have hlast : ∀ m ∈ lexemes.getLast?, StopsAt m r := by
        cases lexemes with
        | nil => simp
        | cons m lexemes => simpa using hr
      have hrest := ih hlast (fun m hm => hwhole m (by simp [hm])) hchain.tail
      have hjoin : join (l :: lexemes) ++ r = c :: (s ++ (join lexemes ++ r)) := by
        simp [join, ht]
      rw [hjoin, split, first_of_whole hl ht hstop, hrest]
      rfl

theorem split_join {lexemes : List Lexeme} (h : Segmented lexemes) :
    split (join lexemes) = lexemes := by
  have hsplit := split_join_append h (r := []) fun l _ => stopsAt_nil l
  simpa [split] using hsplit

theorem Whole.split_append {l : Lexeme} (hl : Whole l) {r : List Char} (hr : StopsAt l r) :
    split (l.text ++ r) = l :: split r := by
  have hsegmented : Segmented [l] := ⟨by simpa using hl, by simp⟩
  have hsplit := split_join_append hsegmented (by simpa using hr)
  simpa [join] using hsplit

/-! ## The lexemes of a text -/

theorem mark_kind {c : Char} {kind : Kind} (h : Kind.ofPunctuation? c = some kind) :
    kind ≠ .plain ∧ kind ≠ .blank ∧ kind ≠ .quoted ∧ kind ≠ .comment := by
  unfold Kind.ofPunctuation? at h
  split at h <;> first | contradiction | (cases h; decide)

theorem Whole.of_plain {l : Lexeme} (h : Whole l) (hl : l.kind = .plain) : Plain l.text := by
  cases h with
  | mark hk => exact absurd hl (mark_kind hk).1
  | quoted | comment | blank => cases hl
  | plain h => exact h

theorem Whole.of_blank {l : Lexeme} (h : Whole l) (hl : l.kind = .blank) :
    ∀ c ∈ l.text, isBlank c = true := by
  cases h with
  | mark hk => exact absurd hl (mark_kind hk).2.1
  | quoted | comment | plain => cases hl
  | blank h => exact h

theorem not_punctuation_of_kind {c : Char} (h : Kind.ofPunctuation? c = none) :
    isPunctuation c = false := by
  rw [Bool.eq_false_iff]
  intro hp
  simp only [isPunctuation, Bool.or_eq_true, beq_iff_eq] at hp
  rcases hp with ((((rfl | rfl) | rfl) | rfl) | rfl) | rfl <;> contradiction

/-- The ways in which the first lexeme of a text and the rest of the text come about. -/
inductive First (c : Char) (s : List Char) : Lexeme × List Char → Prop
  | mark {kind : Kind} (h : Kind.ofPunctuation? c = some kind) : First c s (⟨kind, [c]⟩, s)
  | quoted (hq : isQuote c = true) :
      First c s (⟨.quoted, c :: (quotedRun c s).1⟩, (quotedRun c s).2)
  | comment {u : List Char} (hc : c = '/') (hs : s = '*' :: u) :
      First c s (⟨.comment, '/' :: '*' :: (commentRun u).1⟩, (commentRun u).2)
  | blank (hb : isBlank c = true) :
      First c s (⟨.blank, c :: s.takeWhile isBlank⟩, s.dropWhile isBlank)
  | plain (hd : isDelimiter c = false) (hs : startsComment (c :: s) = false) :
      First c s (⟨.plain, c :: (plainRun s).1⟩, (plainRun s).2)

theorem first_spec (c : Char) (s : List Char) : First c s (first c s) := by
  unfold first
  split
  · next kind hk => exact .mark hk
  · next hk =>
      split
      · next hq => exact .quoted hq
      · next hq =>
          split
          · next hcomment =>
              obtain ⟨u, hu⟩ := startsComment_iff.1 hcomment
              obtain ⟨rfl, rfl⟩ := List.cons.inj hu
              exact .comment rfl rfl
          · next hcomment =>
              split
              · next hb => exact .blank hb
              · next hb =>
                  refine .plain ?_ (by simpa using hcomment)
                  simp [isDelimiter, not_punctuation_of_kind hk, hq, hb]

/-- Whether a lexeme ends with the quote or comment end that it opens with, if it opens with one. -/
def isClosed (l : Lexeme) : Bool :=
  match l.kind, l.text with
  | .quoted, q :: s => closesQuote q s
  | .comment, _ :: _ :: s => closesComment s
  | _, _ => true

/-- A lexeme is whole unless the text ends with it. -/
theorem first_whole {c : Char} {s : List Char}
    (h : (first c s).2 ≠ [] ∨ (first c s).1.isClosed = true) : Whole (first c s).1 := by
  have hfirst := first_spec c s
  revert h
  generalize first c s = found at hfirst
  intro h
  cases hfirst with
  | mark hk => exact .mark hk
  | quoted hq => exact .quoted hq (h.elim closesQuote_of_rest id)
  | comment hc hs => exact .comment (h.elim closesComment_of_rest id)
  | blank hb =>
      refine .blank fun x hx => ?_
      rcases List.mem_cons.1 hx with rfl | hx
      · exact hb
      · exact List.all_eq_true.1 List.all_takeWhile x hx
  | plain hd hs =>
      have hplain := plain_plainRun (c :: s)
      simp only [plainRun, hd, hs, Bool.or_self] at hplain
      exact .plain hplain

theorem first_stopsAt (c : Char) (s : List Char) : StopsAt (first c s).1 (first c s).2 := by
  have hfirst := first_spec c s
  generalize first c s = found at hfirst
  cases hfirst with
  | mark hk =>
      obtain ⟨hplain, hblank, -⟩ := mark_kind hk
      exact ⟨fun h => absurd h hplain, fun h => absurd h hblank⟩
  | quoted hq => exact ⟨fun h => by contradiction, fun h => by contradiction⟩
  | comment hc hs => exact ⟨fun h => by contradiction, fun h => by contradiction⟩
  | blank hb =>
      refine ⟨fun h => by contradiction, fun _ => ?_⟩
      have hhead := List.head?_dropWhile_not isBlank s
      cases hrest : s.dropWhile isBlank with
      | nil => rfl
      | cons d t =>
          rw [hrest] at hhead
          simp [show isBlank d = false from hhead]
  | plain hd hs => exact ⟨fun _ => stopsPlain_plainRun s, fun h => by contradiction⟩

/-- What stops a run is not itself the start of such a run. -/
theorem StopsAt.follows {l : Lexeme} {c : Char} {s : List Char} (h : StopsAt l (c :: s)) :
    Follows l (first c s).1 := by
  have hfirst := first_spec c s
  generalize first c s = found at hfirst
  cases hfirst with
  | mark hk =>
      obtain ⟨hplain, hblank, -⟩ := mark_kind hk
      exact ⟨fun _ => hplain, fun _ => hblank⟩
  | quoted hq => exact ⟨fun _ => by simp, fun _ => by simp⟩
  | comment hc hs => exact ⟨fun _ => by simp, fun _ => by simp⟩
  | blank hb =>
      refine ⟨fun _ => by simp, fun hl => ?_⟩
      have hstop := h.2 hl
      simp [hb] at hstop
  | plain hd hs =>
      refine ⟨fun hl => ?_, fun _ => by simp⟩
      have hstop := h.1 hl
      simp [Text.stopsPlain, hd, hs] at hstop

theorem split_chain (s : List Char) : (split s).IsChain Follows := by
  fun_induction split s with
  | case1 => simp
  | case2 c s ih =>
      refine List.isChain_cons.2 ⟨?_, ih⟩
      intro m hm
      have hstop := first_stopsAt c s
      cases hrest : (first c s).2 with
      | nil => simp [hrest, split] at hm
      | cons d t =>
          rw [hrest] at hstop
          rw [hrest, split] at hm
          obtain rfl : (first d t).1 = m := by simpa using hm
          exact hstop.follows

/-- A text of whole lexemes is cut as it is alone in front of a text where its last one stops. -/
theorem split_append_of_whole {s r : List Char} (h : ∀ l ∈ split s, Whole l)
    (hr : ∀ l ∈ (split s).getLast?, StopsAt l r) : split (s ++ r) = split s ++ split r := by
  have happ := split_join_append ⟨h, split_chain s⟩ hr
  rwa [join_split] at happ

/-- Every lexeme of a text that another one follows is whole. -/
theorem split_whole {s : List Char} {before after : List Lexeme} {m : Lexeme}
    (h : split s = before ++ m :: after) : ∀ l ∈ before, Whole l := by
  fun_induction split s generalizing before with
  | case1 => simp at h
  | case2 c s ih =>
      cases before with
      | nil => simp
      | cons l before =>
          obtain ⟨rfl, hrest⟩ := List.cons.inj h
          intro k hk
          rcases List.mem_cons.1 hk with rfl | hk
          · refine first_whole (.inl fun hnil => ?_)
            rw [hnil, split] at hrest
            simp at hrest
          · exact ih hrest k hk

theorem whole_of_isClosed {s : List Char} {l : Lexeme} (h : l ∈ split s)
    (hl : l.isClosed = true) : Whole l := by
  fun_induction split s with
  | case1 => simp at h
  | case2 c s ih =>
      rcases List.mem_cons.1 h with rfl | h
      · exact first_whole (.inr hl)
      · exact ih h

end Lexeme

end RichStyle
