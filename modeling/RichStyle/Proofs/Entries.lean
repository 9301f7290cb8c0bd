import RichStyle.Proofs.Lossless
import RichStyle.Proofs.Seams
import RichStyle.Proofs.Segments

/-!
# Entries written out

What stands in an entry outside strings stands outside strings when its variable is written out, and
nothing else does.  So the variables of a theme hold no brace that would end the rule they are
written in, and no comment that the block did not hold.  The lexemes of a theme written out are those
of a rule.
-/

namespace RichStyle

open Text

/-! ## Words in a text -/

section Word

variable {a b r w x : List Char} {e : Char}

/-- A word does not reach across a character that it does not hold. -/
theorem word_cases (he : e ∉ w) (h : x ++ e :: r = a ++ (w ++ b)) :
    (∃ v, x = a ++ (w ++ v)) ∨ ∃ u, a = x ++ e :: u ∧ r = u ++ (w ++ b) := by
  rcases List.append_eq_append_iff.1 h with ⟨u, rfl, hr⟩ | ⟨u, rfl, hwb⟩
  · cases u with
    | cons d u =>
        obtain ⟨rfl, rfl⟩ := List.cons.inj hr
        exact .inr ⟨u, rfl, rfl⟩
    | nil =>
        cases w with
        | nil => exact .inl ⟨[], by simp⟩
        | cons d w =>
            obtain ⟨rfl, -⟩ := List.cons.inj hr
            exact absurd List.mem_cons_self he
  · rcases List.append_eq_append_iff.1 hwb with ⟨v, rfl, -⟩ | ⟨v, rfl, hr⟩
    · exact .inl ⟨v, rfl⟩
    · cases v with
      | nil => exact .inl ⟨[], by simp⟩
      | cons d v =>
          obtain ⟨rfl, -⟩ := List.cons.inj hr
          exact absurd (by simp) he

theorem word_after (hx : ∀ d ∈ x, d ∉ w) (hw : w ≠ []) (h : x ++ r = a ++ (w ++ b)) :
    ∃ u, a = x ++ u ∧ r = u ++ (w ++ b) := by
  induction x generalizing a with
  | nil => exact ⟨a, rfl, h⟩
  | cons d x ih =>
      rcases word_cases (x := []) (hx d (by simp)) h with ⟨v, hv⟩ | ⟨u, rfl, hr⟩
      · exact absurd (List.append_eq_nil_iff.1 (List.append_eq_nil_iff.1 hv.symm).2).1 hw
      · obtain ⟨v, rfl, hv⟩ := ih (fun c hc => hx c (by simp [hc])) hr
        exact ⟨v, rfl, hv⟩

end Word

namespace Source

theorem absent_word_of_append {c : Char} {word a b : List Char} (hc : isQuote c = false)
    (h : Absent (startsWith (c :: word)) (a ++ b)) : Absent (startsWith (c :: word)) a := by
  rw [absent_word_iff hc] at h ⊢
  intro x y hxy
  exact h x (y ++ b) (by rw [hxy]; simp)

/-! ## Variables -/

namespace Theme

theorem assignment_eq (v : List Char × List Char) :
    assignment v = "--theme-".toList ++ (v.1 ++ ':' :: ' ' :: (v.2 ++ [';', ' '])) := by
  unfold assignment
  simp

section Absent

variable {c : Char} {word : List Char} (hc : isQuote c = false)
  (hglue : ∀ d ∈ "--theme-: ;".toList, d ∉ c :: word)

include hc hglue

/-- A word that is not in an entry, outside strings, is not in its variable. -/
theorem absent_variable {entry : List Char} {v : List Char × List Char}
    (hentry : Absent (startsWith (c :: word)) entry) (h : variableOf? entry = some v) :
    Absent (startsWith (c :: word)) (assignment v) := by
  obtain ⟨lead, gap, trail, rfl, hne, hlead, hgap, -⟩ := exists_parts h
  rw [absent_word_iff hc] at hentry ⊢
  intro a b htext ha
  rw [assignment_eq] at htext
  have hsub : "--theme-".toList ⊆ "--theme-: ;".toList := by decide
  have hplain : Settled "--theme-".toList := settled_literal (by decide)
  have hspace : ∀ d ∈ [' '], d ∉ c :: word := by simpa using hglue ' ' (by decide)
  obtain ⟨a₁, rfl, hkey⟩ := word_after (fun d hd => hglue d (hsub hd)) (by simp) htext
  rw [hplain.append_iff] at ha
  rcases word_cases (hglue ':' (by decide)) hkey with ⟨y, hy⟩ | ⟨a₂, rfl, hgap'⟩
  · -- the word is in the key
    apply hentry (lead ++ a₁) (y ++ (gap ++ (v.2 ++ trail)))
    · rw [hy]
      simp
    · exact (settled_of_passive hlead).append ha
  · obtain ⟨a₃, rfl, hvalue⟩ := word_after (x := [' ']) hspace (by simp) hgap'
    rcases word_cases (hglue ';' (by decide)) hvalue with ⟨y, hy⟩ | ⟨a₄, -, hend⟩
    · -- the word is in the value; what is written between key and value is as good as what was there
      have hsep : ∀ d ∈ ": ".toList, isPassive d = true := by simp [isPassive, isQuote]
      have hsettled : Settled (v.1 ++ (gap ++ a₃)) :=
        (settled_gap_iff hgap hsep hne (by decide)).2 (by simpa using ha)
      apply hentry (lead ++ (v.1 ++ (gap ++ a₃))) (y ++ trail)
      · rw [hy]
        simp
      · exact (settled_of_passive hlead).append hsettled
    · obtain ⟨a₅, -, hnil⟩ := word_after (x := [' ']) (r := []) hspace (by simp) hend
      simp at hnil

theorem absent_assignments {body : List Char} (hbody : Settled body)
    (h : Absent (startsWith (c :: word)) body) :
    Absent (startsWith (c :: word)) ((variablesOf body).flatMap assignment) := by
  have hall : ∀ v ∈ variablesOf body, Settled (assignment v) ∧
      Absent (startsWith (c :: word)) (assignment v) := by
    intro v hv
    obtain ⟨e, he, hvar⟩ := List.mem_filterMap.1 hv
    obtain ⟨a, b, hs, ha⟩ := exists_of_mem_splitEntries he
    rw [hs] at h
    exact ⟨settled_assignment hbody hv,
      absent_variable hc hglue (absent_word_of_append hc (h.of_settled_append ha)) hvar⟩
  generalize variablesOf body = entries at hall ⊢
  induction entries with
  | nil => exact absent_nil
  | cons v entries ih =>
      obtain ⟨hsettled, habsent⟩ := hall v (by simp)
      have hlast : ∀ d ∈ (assignment v).getLast?, d ∉ c :: word := by
        have hend : assignment v = ("--theme-".toList ++ (v.1 ++ ':' :: ' ' :: (v.2 ++ [';']))) ++ [' '] := by
          rw [assignment_eq]
          simp
        rw [hend, List.getLast?_concat]
        simpa using hglue ' ' (by decide)
      rw [List.flatMap_cons]
      exact .append hsettled (seesOnly_startsWith hlast) habsent
        (ih fun u hu => hall u (by simp [hu]))

end Absent

end Theme

end Source

/-! ## Lexemes -/

namespace Lexeme

open Source

theorem plain_of_ordinary {t : List Char} (h : ∀ c ∈ t, isDelimiter c = false) (hslash : '/' ∉ t) :
    Plain t :=
  ⟨h, fun hcomment => hslash (hcomment.subset (by simp))⟩

theorem whole_of_plain {t : List Char} (hne : t ≠ []) (h : Plain t) : Whole ⟨.plain, t⟩ := by
  cases t with
  | nil => exact absurd rfl hne
  | cons c t => exact .plain h

theorem isClosed_of_kind {l : Lexeme} (hquoted : l.kind ≠ .quoted) (hcomment : l.kind ≠ .comment) :
    l.isClosed = true := by
  unfold isClosed
  split
  · contradiction
  · contradiction
  · rfl

theorem settled_first {c : Char} {s : List Char} (hs : Settled (c :: s))
    (hkind : (first c s).1.kind ≠ .comment) :
    (first c s).1.isClosed = true ∧ Settled (first c s).2 := by
  by_cases hquoted : (first c s).1.kind = .quoted
  · have hfirst := first_spec c s
    generalize first c s = found at hfirst hquoted
    cases hfirst with
    | mark hk => exact absurd hquoted (mark_kind hk).2.2.1
    | quoted hq => exact (settled_quote_iff hq).1 hs
    | comment | blank | plain => cases hquoted
  · have hclosed := isClosed_of_kind hquoted hkind
    have hunquoted := (first_whole (.inr hclosed)).unquoted hquoted hkind
    rw [← first_append c s, (settled_of_unquoted hunquoted).append_iff] at hs
    exact ⟨hclosed, hs⟩

/-- In a settled text without comments all lexemes are whole. -/
theorem whole_of_settled {s : List Char} (hs : Settled s) (hcomment : Absent startsComment s) :
    ∀ l ∈ split s, Whole l := by
  fun_induction split s with
  | case1 => simp
  | case2 c s ih =>
      obtain ⟨hkind, hrest⟩ := (absent_startsComment_first c s).1 hcomment
      obtain ⟨hclosed, hsettled⟩ := settled_first hs hkind
      exact List.forall_mem_cons.2 ⟨first_whole (.inr hclosed), ih hsettled hrest⟩

theorem ne_closeBrace_of_absent {s : List Char} (h : Absent (startsWith ['}']) s)
    (hcomment : Absent startsComment s) : ∀ l ∈ split s, l.kind ≠ .closeBrace := by
  intro l hl hkind
  obtain ⟨before, after, hsplit⟩ := List.append_of_mem hl
  have hkinds := absent_startsComment_iff.1 hcomment
  have hbefore : Settled (join before) := settled_join (split_whole hsplit) fun k hk =>
    hkinds k (by rw [hsplit]; simp [hk])
  have hmark : l = ⟨.closeBrace, ['}']⟩ := by
    rw [eq_mark (c := '}') hl (by rw [hkind]; rfl), hkind]
  have hs : s = join before ++ (['}'] ++ join after) := by
    have hjoin := join_split s
    rw [hsplit, hmark] at hjoin
    simpa using hjoin.symm
  exact (absent_word_iff (by decide)).1 h _ _ hs hbefore

theorem split_append_mark {s : List Char} {c : Char} {kind : Kind} (h : ∀ l ∈ split s, Whole l)
    (hk : Kind.ofPunctuation? c = some kind) (r : List Char) :
    split (s ++ c :: r) = split s ++ ⟨kind, [c]⟩ :: split r := by
  have hstop : ∀ l ∈ (split s).getLast?, StopsAt l (c :: r) := by
    intro l _
    have hfollows : Follows l ⟨kind, [c]⟩ := ⟨fun _ => (mark_kind hk).1, fun _ => (mark_kind hk).2.1⟩
    exact hfollows.stopsAt (.mark hk) r
  have hmark : split (c :: r) = ⟨kind, [c]⟩ :: split r := by
    simp [split, first, hk]
  rw [split_append_of_whole h hstop, hmark]

end Lexeme

namespace Source.Theme

open Lexeme (split Whole Segmented)

/-- The lexemes of the selector of a theme, with the blank after it. -/
def header (theme : Theme) : List Lexeme :=
  [⟨.colon, [':']⟩, ⟨.plain, "root[data-theme=".toList⟩,
    ⟨.quoted, '"' :: (theme.name ++ ['"'])⟩, ⟨.plain, [']']⟩, ⟨.blank, [' ']⟩]

theorem segmented_header {theme : Theme} (hname : ∀ c ∈ theme.name, isNameChar c = true) :
    Segmented theme.header := by
  have hcolon : Whole ⟨.colon, [':']⟩ := .mark rfl
  have hroot : Whole ⟨.plain, "root[data-theme=".toList⟩ :=
    Lexeme.whole_of_plain (by simp) (Lexeme.plain_of_ordinary
      (by simp [isDelimiter, isPunctuation, isQuote, isBlank]) (by simp))
  have hquoted : Whole ⟨.quoted, '"' :: (theme.name ++ ['"'])⟩ :=
    .quoted (by decide) (closesQuote_name hname)
  have hbracket : Whole ⟨.plain, [']']⟩ :=
    Lexeme.whole_of_plain (by simp) (Lexeme.plain_of_ordinary
      (by simp [isDelimiter, isPunctuation, isQuote, isBlank]) (by simp))
  have hblank : Whole ⟨.blank, [' ']⟩ := .blank (by simp [isBlank])
  constructor
  · simp only [header, List.forall_mem_cons]
    exact ⟨hcolon, hroot, hquoted, hbracket, hblank, by simp⟩
  · simp [header, Lexeme.Follows]

/-- The lexemes of a theme written out behind a text are those of a rule. -/
theorem split_render {theme : Theme} {x : List Char} (hx : ∀ l ∈ split x, Whole l)
    (hname : ∀ c ∈ theme.name, isNameChar c = true)
    (hentries : ∀ l ∈ split (' ' :: theme.entries.flatMap assignment), Whole l) (y : List Char) :
    split (x ++ (theme.render ++ y)) =
      split x ++ (theme.header ++ ⟨.openBrace, ['{']⟩ ::
        (split (' ' :: theme.entries.flatMap assignment) ++ ⟨.closeBrace, ['}']⟩ :: split y)) := by
  have hsegmented := segmented_header hname
  have htail : Segmented theme.header.tail := hsegmented.of_infix (List.tail_suffix _).isInfix
  have hsplit := Lexeme.split_join htail
  have hrender : theme.render ++ y = ':' :: (Lexeme.join theme.header.tail ++ '{' ::
      (' ' :: theme.entries.flatMap assignment ++ '}' :: y)) := by
    have hjoin : Lexeme.join theme.header.tail =
        "root[data-theme=\"".toList ++ theme.name ++ "\"] ".toList := by
      simp [header]
    change ":root[data-theme=\"".toList ++ theme.name ++ "\"] \x7b ".toList ++
      theme.entries.flatMap assignment ++ ['}'] ++ y = _
    rw [hjoin]
    simp
  rw [hrender, Lexeme.split_append_mark hx rfl,
    Lexeme.split_append_mark (by rw [hsplit]; exact htail.whole) rfl,
    Lexeme.split_append_mark hentries rfl, hsplit]
  rfl

end Source.Theme

end RichStyle
