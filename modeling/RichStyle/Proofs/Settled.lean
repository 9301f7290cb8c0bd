import Mathlib.Data.List.TakeWhile
import RichStyle.Proofs.Scanners

/-!
# Texts with closed strings

After a settled text every scanner stands outside quoted strings again, so that it goes on with the
next text as if it started there.  Writing out themes neither opens nor closes strings, even where
the colon of a variable stands inside one.
-/

namespace RichStyle

open Text

namespace Source

/-- Texts whose quoted strings are all closed. -/
inductive Settled : List Char → Prop
  | nil : Settled []
  | plain {c : Char} {s : List Char} (hc : isQuote c = false) (hs : Settled s) : Settled (c :: s)
  | quoted {q : Char} {t s : List Char} (hq : isQuote q = true) (ht : closesQuote q t = true)
      (hs : Settled s) : Settled (q :: (t ++ s))

section Settled

variable {c q : Char} {a b s t u v : List Char}

theorem settled_cons_iff (hc : isQuote c = false) : Settled (c :: s) ↔ Settled s := by
  constructor
  · intro h
    cases h with
    | plain hc hs => exact hs
    | quoted hq ht hs =>
        rw [hc] at hq
        contradiction
  · exact .plain hc

theorem settled_quote_iff (hq : isQuote q = true) :
    Settled (q :: s) ↔ closesQuote q (quotedRun q s).1 = true ∧ Settled (quotedRun q s).2 := by
  constructor
  · intro h
    cases h with
    | plain hc hs =>
        rw [hq] at hc
        contradiction
    | quoted hq ht hs =>
        rw [quotedRun_of_closes _ hq ht]
        exact ⟨ht, hs⟩
  · rintro ⟨ht, hs⟩
    rw [← quotedRun_append q s]
    exact .quoted hq ht hs

theorem Settled.append_iff (ha : Settled a) : Settled (a ++ b) ↔ Settled b := by
  induction ha with
  | nil => rfl
  | plain hc hs ih => rw [List.cons_append, settled_cons_iff hc, ih]
  | quoted hq ht hs ih =>
      rw [List.cons_append, List.append_assoc, settled_quote_iff hq, quotedRun_of_closes _ hq ht, ih]
      simp [ht]

theorem Settled.append (ha : Settled a) (hb : Settled b) : Settled (a ++ b) :=
  ha.append_iff.2 hb

theorem settled_of_unquoted (h : ∀ c ∈ s, isQuote c = false) : Settled s := by
  induction s with
  | nil => exact .nil
  | cons c s ih => exact .plain (h c (by simp)) (ih fun d hd => h d (by simp [hd]))

theorem settled_literal (h : s.any isQuote = false) : Settled s :=
  settled_of_unquoted (by simpa using h)

theorem Settled.flatMap {α : Type} {xs : List α} {f : α → List Char}
    (h : ∀ x ∈ xs, Settled (f x)) : Settled (xs.flatMap f) := by
  induction xs with
  | nil => exact .nil
  | cons x xs ih =>
      rw [List.flatMap_cons]
      exact (h x (by simp)).append (ih fun y hy => h y (by simp [hy]))

theorem closesQuote_of_plain {x : List Char} (hq : isQuote q = true) (hx : q ∉ x)
    (hslash : '\\' ∉ x) : closesQuote q (x ++ [q]) = true := by
  induction x with
  | nil => simp [closesQuote_cons (quote_ne_backslash hq)]
  | cons c x ih =>
      rw [List.mem_cons, not_or] at hx hslash
      rw [List.cons_append, closesQuote_cons (Ne.symm hslash.1), if_neg (Ne.symm hx.1)]
      exact ih hx.2 hslash.2

/-! ## Open strings -/

/-- Whether a text after a quote does not close the string. -/
def leavesOpen (q : Char) (u : List Char) : Bool :=
  !closesQuote q (quotedRun q u).1

theorem quotedRun_append_of_closes (b : List Char) (hq : isQuote q = true)
    (h : leavesOpen q s = false) :
    quotedRun q (s ++ b) = ((quotedRun q s).1, (quotedRun q s).2 ++ b) := by
  have hrun := quotedRun_append q s
  conv_lhs => rw [← hrun, List.append_assoc]
  exact quotedRun_of_closes _ hq (by simpa [leavesOpen] using h)

/-- Inside a string, nothing depends on what stands in front of an ordinary character. -/
theorem quotedRun_of_leavesOpen (hu : leavesOpen q u = true) (hc : c ≠ q) (hslash : c ≠ '\\') :
    quotedRun q (u ++ c :: v) = (u ++ c :: (quotedRun q v).1, (quotedRun q v).2) ∧
      closesQuote q (u ++ c :: (quotedRun q v).1) = closesQuote q (quotedRun q v).1 := by
  unfold leavesOpen at hu
  fun_induction quotedRun q u with
  | case1 => simp [quotedRun_cons hslash, closesQuote_cons hslash, hc]
  | case2 d u run ih =>
      have hrest := ih (by simpa [closesQuote, run] using hu)
      simp [quotedRun, closesQuote, hrest]
  | case3 u => simp [closesQuote] at hu
  | case4 d u hne hdq run ih =>
      cases u with
      | nil =>
          by_cases hd : d = '\\'
          · subst hd
            simp [quotedRun, closesQuote]
          · simp [quotedRun_cons hd, closesQuote_cons hd, hdq, quotedRun_cons hslash,
              closesQuote_cons hslash, hc]
      | cons e u =>
          have hd : d ≠ '\\' := fun h => hne e u h rfl
          have hrest := ih (by simpa [closesQuote_cons hd, hdq, run] using hu)
          simp only [List.cons_append] at hrest ⊢
          rw [quotedRun_cons hd, closesQuote_cons hd, if_neg hdq, if_neg hdq, hrest.1, hrest.2]
          exact ⟨rfl, rfl⟩

theorem settled_leavesOpen_iff (hq : isQuote q = true) (hu : leavesOpen q u = true) (hc : c ≠ q)
    (hslash : c ≠ '\\') : Settled (q :: (u ++ c :: v)) ↔ Settled (q :: v) := by
  obtain ⟨hrun, hcloses⟩ := quotedRun_of_leavesOpen (v := v) hu hc hslash
  rw [settled_quote_iff hq, settled_quote_iff hq, hrun, hcloses]

/-- A text that is not settled ends inside a string. -/
theorem settled_or_leavesOpen (s : List Char) :
    Settled s ∨ ∃ a q u, s = a ++ q :: u ∧ Settled a ∧ isQuote q = true ∧ leavesOpen q u = true := by
  fun_induction cutOutsideQuotes (fun _ => false) s with
  | case1 => exact .inl .nil
  | case2 c s hq ih =>
      cases hopen : leavesOpen c s with
      | true => exact .inr ⟨[], c, s, rfl, .nil, hq, hopen⟩
      | false =>
          have hcloses : closesQuote c (quotedRun c s).1 = true := by
            simpa [leavesOpen] using hopen
          rcases ih with ih | ⟨a, q, u, hs, ha, hq', hu⟩
          · exact .inl ((settled_quote_iff hq).2 ⟨hcloses, ih⟩)
          · refine .inr ⟨c :: ((quotedRun c s).1 ++ a), q, u, ?_, .quoted hq hcloses ha, hq', hu⟩
            rw [List.cons_append, List.append_assoc, ← hs, quotedRun_append]
  | case3 c s hq hhere => contradiction
  | case4 c s hq hhere ih =>
      have hc : isQuote c = false := by simpa using hq
      rcases ih with ih | ⟨a, q, u, rfl, ha, hq', hu⟩
      · exact .inl (.plain hc ih)
      · exact .inr ⟨c :: a, q, u, rfl, .plain hc ha, hq', hu⟩

theorem not_settled_leavesOpen (hq : isQuote q = true) (hu : leavesOpen q u = true) :
    ¬ Settled (q :: u) := by
  rw [settled_quote_iff hq]
  simp_all [leavesOpen]

/-! ## Other characters in between -/

theorem not_quote_of_blank (hc : isBlank c = true) : isQuote c = false ∧ c ≠ '\\' := by
  refine ⟨?_, ?_⟩
  · cases hq : isQuote c with
    | false => rfl
    | true =>
        rw [Lexeme.not_blank_of_quote hq] at hc
        contradiction
  · rintro rfl
    revert hc
    decide

/-- Whether a character neither opens nor closes a string and does not escape the next one. -/
def isPassive (c : Char) : Bool :=
  !isQuote c && c != '\\'

theorem isPassive_of_blank (hc : isBlank c = true) : isPassive c = true := by
  obtain ⟨hquote, hslash⟩ := not_quote_of_blank hc
  simp [isPassive, hquote, hslash]

theorem settled_of_passive (h : ∀ c ∈ s, isPassive c = true) : Settled s := by
  refine settled_of_unquoted fun c hc => ?_
  have hpassive := h c hc
  simp only [isPassive, Bool.and_eq_true, Bool.not_eq_true'] at hpassive
  exact hpassive.1

/-- Inside a string, passive characters may be left out once one of them is there. -/
theorem settled_quote_passive_iff (hq : isQuote q = true) (hu : leavesOpen q u = true)
    (hs : ∀ c ∈ s, isPassive c = true) (hne : s ≠ []) :
    Settled (q :: (u ++ (s ++ v))) ↔ Settled (q :: v) := by
  induction s generalizing u with
  | nil => exact absurd rfl hne
  | cons c s ih =>
      have hc := hs c (by simp)
      simp only [isPassive, Bool.and_eq_true, Bool.not_eq_true', bne_iff_ne] at hc
      have hcq : c ≠ q := by
        rintro rfl
        rw [hq] at hc
        cases hc.1
      rw [List.cons_append, settled_leavesOpen_iff hq hu hcq hc.2]
      by_cases hnil : s = []
      · rw [hnil, List.nil_append]
      · have hopen : leavesOpen q [] = true := rfl
        have hrest := ih hopen (fun d hd => hs d (by simp [hd])) hnil
        rwa [List.nil_append] at hrest

/-- Between two texts it does not matter which passive characters stand, as long as one does. -/
theorem settled_gap_iff {x y gap gap' : List Char} (h : ∀ c ∈ gap, isPassive c = true)
    (h' : ∀ c ∈ gap', isPassive c = true) (hne : gap ≠ []) (hne' : gap' ≠ []) :
    Settled (x ++ (gap ++ y)) ↔ Settled (x ++ (gap' ++ y)) := by
  rcases settled_or_leavesOpen x with hx | ⟨a, q, u, rfl, ha, hq, hu⟩
  · rw [hx.append_iff, hx.append_iff, (settled_of_passive h).append_iff,
      (settled_of_passive h').append_iff]
  · simp only [List.append_assoc, List.cons_append]
    rw [ha.append_iff, ha.append_iff, settled_quote_passive_iff hq hu h hne,
      settled_quote_passive_iff hq hu h' hne']

/-- Passive characters at the end of a text do not matter. -/
theorem settled_trail_iff {x trail : List Char} (h : ∀ c ∈ trail, isPassive c = true) :
    Settled (x ++ trail) ↔ Settled x := by
  by_cases hne : trail = []
  · rw [hne, List.append_nil]
  · rcases settled_or_leavesOpen x with hx | ⟨a, q, u, rfl, ha, hq, hu⟩
    · exact iff_of_true (hx.append (settled_of_passive h)) hx
    · have hopen : leavesOpen q [] = true := rfl
      have htrail := settled_quote_passive_iff (v := []) hq hu h hne
      rw [List.append_nil] at htrail
      rw [List.append_assoc, List.cons_append, ha.append_iff, ha.append_iff, htrail]
      exact iff_of_false (not_settled_leavesOpen hq hopen) (not_settled_leavesOpen hq hu)

end Settled

/-! ## Looking for a place across a seam -/

section Seam

variable {here : List Char → Bool} {a b before rest s u word : List Char}

/-- Whether something stands somewhere in `a` does not depend on the text `b` after it. -/
def SeesOnly (here : List Char → Bool) (a b : List Char) : Prop :=
  ∀ u, u <:+ a → u ≠ [] → here (u ++ b) = here u

theorem SeesOnly.of_suffix (h : SeesOnly here a b) (hu : u <:+ a) : SeesOnly here u b :=
  fun v hv hne => h v (hv.trans hu) hne

theorem getLast?_of_suffix (hu : u <:+ a) (hne : u ≠ []) : u.getLast? = a.getLast? := by
  obtain ⟨x, rfl⟩ := hu
  rw [List.getLast?_append_of_ne_nil x hne]

/-- A word cannot start in a text and end after it if the text ends with a foreign character. -/
theorem seesOnly_startsWith (ha : ∀ c ∈ a.getLast?, c ∉ word) :
    SeesOnly (startsWith word) a b := by
  intro u hu hne
  have hlast : u.getLast hne ∉ word := by
    refine ha _ ?_
    rw [← getLast?_of_suffix hu hne, List.getLast?_eq_some_getLast hne]
    rfl
  rw [Bool.eq_iff_iff, startsWith_iff, startsWith_iff]
  constructor
  · rintro ⟨r, hr⟩
    rcases List.prefix_or_prefix_of_prefix ⟨b, rfl⟩ ⟨r, hr.symm⟩ with hpre | ⟨v, hv⟩
    · exact absurd (hpre.subset (List.getLast_mem hne)) hlast
    · exact ⟨v, hv.symm⟩
  · rintro ⟨r, rfl⟩
    exact ⟨r ++ b, List.append_assoc word r b⟩

theorem seesOnly_char (c : Char) (a b : List Char) : SeesOnly (startsWith [c]) a b := by
  intro u _ hne
  obtain ⟨d, v, rfl⟩ := List.exists_cons_of_ne_nil hne
  by_cases h : c = d <;> simp [startsWith, dropLeading?, h]

theorem startsComment_eq : startsComment = startsWith ['/', '*'] := by
  funext s
  rw [Bool.eq_iff_iff, Lexeme.startsComment_iff, startsWith_iff]
  rfl

theorem closesQuote_of_cut {cut : List Char × List Char}
    (h : cutOutsideQuotes here (quotedRun q s).2 = some cut) :
    closesQuote q (quotedRun q s).1 = true := by
  refine closesQuote_of_rest fun hnil => ?_
  rw [hnil, cutOutsideQuotes] at h
  cases h

/-- What stands before a place outside quoted strings is settled. -/
theorem settled_of_cut (h : cutOutsideQuotes here s = some (before, rest)) : Settled before := by
  fun_induction cutOutsideQuotes here s generalizing before rest with
  | case1 => simp at h
  | case2 c s hq ih =>
      obtain ⟨cut, hcut, heq⟩ := Option.map_eq_some_iff.1 h
      obtain ⟨rfl, rfl⟩ := Prod.mk.inj heq
      exact .quoted hq (closesQuote_of_cut hcut) (ih hcut)
  | case3 c s hq hhere =>
      obtain ⟨rfl, rfl⟩ := Prod.mk.inj (Option.some.inj h)
      exact .nil
  | case4 c s hq hhere ih =>
      obtain ⟨cut, hcut, heq⟩ := Option.map_eq_some_iff.1 h
      obtain ⟨rfl, rfl⟩ := Prod.mk.inj heq
      exact .plain (by simpa using hq) (ih hcut)

theorem cutOutsideQuotes_append_of_some (hsees : SeesOnly here a b)
    (h : cutOutsideQuotes here a = some (before, rest)) :
    cutOutsideQuotes here (a ++ b) = some (before, rest ++ b) := by
  fun_induction cutOutsideQuotes here a generalizing before rest with
  | case1 => simp at h
  | case2 c s hq ih =>
      obtain ⟨cut, hcut, heq⟩ := Option.map_eq_some_iff.1 h
      obtain ⟨rfl, rfl⟩ := Prod.mk.inj heq
      have hopen : leavesOpen c s = false := by simp [leavesOpen, closesQuote_of_cut hcut]
      have hsuffix : (quotedRun c s).2 <:+ c :: s :=
        (List.IsSuffix.trans ⟨_, quotedRun_append c s⟩ (List.suffix_cons c s))
      rw [List.cons_append, cutOutsideQuotes, if_pos hq, quotedRun_append_of_closes b hq hopen,
        ih (hsees.of_suffix hsuffix) hcut]
      rfl
  | case3 c s hq hhere =>
      obtain ⟨rfl, rfl⟩ := Prod.mk.inj (Option.some.inj h)
      have hseam := hsees (c :: s) List.suffix_rfl (by simp)
      rw [List.cons_append, cutOutsideQuotes, if_neg hq, ← List.cons_append, hseam, if_pos hhere]
  | case4 c s hq hhere ih =>
      obtain ⟨cut, hcut, heq⟩ := Option.map_eq_some_iff.1 h
      obtain ⟨rfl, rfl⟩ := Prod.mk.inj heq
      have hseam := hsees (c :: s) List.suffix_rfl (by simp)
      rw [List.cons_append, cutOutsideQuotes, if_neg hq, ← List.cons_append, hseam, if_neg hhere,
        ih (hsees.of_suffix (List.suffix_cons c s)) hcut]
      rfl

theorem cutOutsideQuotes_append_of_none (ha : Settled a) (hsees : SeesOnly here a b)
    (h : Absent here a) :
    cutOutsideQuotes here (a ++ b) =
      (cutOutsideQuotes here b).map fun cut => (a ++ cut.1, cut.2) := by
  induction ha with
  | nil => cases hb : cutOutsideQuotes here b <;> simp [hb]
  | @plain c s hc hs ih =>
      obtain ⟨hhere, hrest⟩ := (absent_cons_iff hc).1 h
      have hseam := hsees (c :: s) List.suffix_rfl (by simp)
      rw [List.cons_append, cutOutsideQuotes, if_neg (by simp [hc]), ← List.cons_append, hseam,
        if_neg (by simp [hhere]), ih (hsees.of_suffix (List.suffix_cons c s)) hrest, Option.map_map]
      rfl
  | @quoted q t s hq ht hs ih =>
      rw [absent_quote_iff hq, quotedRun_of_closes s hq ht] at h
      have hsuffix : s <:+ q :: (t ++ s) :=
        (List.suffix_append t s).trans (List.suffix_cons q _)
      rw [List.cons_append, List.append_assoc, cutOutsideQuotes, if_pos hq,
        quotedRun_of_closes _ hq ht, ih (hsees.of_suffix hsuffix) h, Option.map_map]
      simp [Function.comp_def]

theorem Absent.append (ha : Settled a) (hsees : SeesOnly here a b) (h : Absent here a)
    (hb : Absent here b) : Absent here (a ++ b) := by
  unfold Absent at hb ⊢
  rw [cutOutsideQuotes_append_of_none ha hsees h, hb]
  rfl

/-- A text is cut at the first place. -/
theorem Absent.of_cut_before (h : cutOutsideQuotes here s = some (before, rest))
    (hsees : SeesOnly here before rest) (hnil : here [] = false) : Absent here before := by
  unfold Absent
  cases hcut : cutOutsideQuotes here before with
  | none => rfl
  | some cut =>
      have hlong := cutOutsideQuotes_append_of_some hsees hcut
      rw [cutOutsideQuotes_append h, h] at hlong
      have hrest : rest = cut.2 ++ rest := (Prod.mk.inj (Option.some.inj hlong)).2
      have hempty : cut.2 = [] := by simpa using hrest
      have hhere := cutOutsideQuotes_here hcut
      rw [hempty, hnil] at hhere
      cases hhere

theorem Absent.of_settled_append (ha : Settled a) (h : Absent here (a ++ b)) : Absent here b := by
  induction ha with
  | nil => exact h
  | plain hc hs ih => exact ih ((absent_cons_iff hc).1 h).2
  | quoted hq ht hs ih =>
      rw [List.cons_append, List.append_assoc, absent_quote_iff hq, quotedRun_of_closes _ hq ht] at h
      exact ih h

/-- A word is found exactly where the text in front of it is settled. -/
theorem absent_word_iff (hc : isQuote c = false) :
    Absent (startsWith (c :: word)) s ↔ ∀ a b, s = a ++ (c :: word ++ b) → ¬ Settled a := by
  constructor
  · intro h a b hs ha
    rw [hs] at h
    have hword := h.of_settled_append ha
    have hstart : startsWith (c :: word) (c :: word ++ b) = true := startsWith_iff.2 ⟨b, rfl⟩
    rw [List.cons_append, absent_cons_iff hc, ← List.cons_append, hstart] at hword
    cases hword.1
  · intro h
    unfold Absent
    cases hcut : cutOutsideQuotes (startsWith (c :: word)) s with
    | none => rfl
    | some cut =>
        obtain ⟨r, hr⟩ := startsWith_iff.1 (cutOutsideQuotes_here hcut)
        have hs := cutOutsideQuotes_append hcut
        rw [hr] at hs
        exact absurd (settled_of_cut hcut) (h cut.1 r hs.symm)

theorem withoutComments_append (ha : Settled a) (hsees : SeesOnly startsComment a b)
    (h : Absent startsComment a) : withoutComments (a ++ b) = a ++ withoutComments b := by
  induction ha with
  | nil => rfl
  | @plain c s hc hs ih =>
      obtain ⟨hhere, hrest⟩ := (absent_cons_iff hc).1 h
      have hseam := hsees (c :: s) List.suffix_rfl (by simp)
      rw [List.cons_append, withoutComments, if_neg (by simp [hc]), ← List.cons_append, hseam,
        if_neg (by simp [hhere]), ih (hsees.of_suffix (List.suffix_cons c s)) hrest]
      rfl
  | @quoted q t s hq ht hs ih =>
      rw [absent_quote_iff hq, quotedRun_of_closes s hq ht] at h
      have hsuffix : s <:+ q :: (t ++ s) :=
        (List.suffix_append t s).trans (List.suffix_cons q _)
      rw [List.cons_append, List.append_assoc, withoutComments, if_pos hq,
        quotedRun_of_closes _ hq ht, ih (hsees.of_suffix hsuffix) h]
      simp

end Seam

end Source

end RichStyle
