import RichStyle.Proofs.Modes
import RichStyle.Proofs.Seams

/-!
# Places in the source

Tokens are cut out of a source without comments, and their places are counted there.  In the source
itself a token stands further right, by the characters of comments in front of it on its line.  Rules
and declarations are placed where they stand in the source exactly if there are no such characters.
-/

namespace RichStyle

open Text

/-! ## Places of characters -/

namespace Span

/-- The places of the characters of a text that starts here. -/
def places (p : Span) : List Char → List Span
  | [] => []
  | c :: s => p :: (p.step c).places s

/-- `p` is on an earlier line than `q`, or on its line further left. -/
def Before (p q : Span) : Prop :=
  p.line < q.line ∨ p.line = q.line ∧ p.column < q.column

/-- How many of some places are on the line of `q`, further left. -/
def leftOf (q : Span) (places : List Span) : Nat :=
  places.countP fun r => r.line == q.line && decide (r.column < q.column)

/-- Where `q` comes to stand when the characters at some places are taken away. -/
def without (gone : List Span) (q : Span) : Span :=
  ⟨q.line, q.column - q.leftOf gone⟩

theorem Before.trans {p q r : Span} (hpq : p.Before q) (hqr : q.Before r) : p.Before r := by
  unfold Before at *
  omega

theorem before_step (p : Span) (c : Char) : p.Before (p.step c) := by
  unfold step
  split
  · exact .inl (Nat.lt_succ_self _)
  · exact .inr ⟨rfl, Nat.lt_succ_self _⟩

theorem leftOf_append (q : Span) (a b : List Span) : q.leftOf (a ++ b) = q.leftOf a + q.leftOf b :=
  List.countP_append

theorem leftOf_eq_zero {q : Span} {places : List Span} (h : ∀ r ∈ places, ¬ r.Before q) :
    q.leftOf places = 0 := by
  refine List.countP_eq_zero.2 fun r hr hleft => h r hr ?_
  exact .inr (by simpa using hleft)

theorem without_eq_iff {gone : List Span} {q : Span} (hq : 0 < q.column) :
    q.without gone = q ↔ q.leftOf gone = 0 := by
  have hcolumn : q.column - q.leftOf gone = q.column ↔ q.leftOf gone = 0 := by omega
  rw [← hcolumn, without]
  generalize q.column - q.leftOf gone = column
  cases q
  simp

theorem column_pos_of_advance {p : Span} (hp : 0 < p.column) (s : List Char) :
    0 < (p.advance s).column := by
  induction s generalizing p with
  | nil => exact hp
  | cons c s ih =>
      refine ih ?_
      unfold step
      split <;> simp

theorem drop_places (p : Span) (a b : List Char) :
    (p.places (a ++ b)).drop a.length = (p.advance a).places b := by
  induction a generalizing p with
  | nil => rfl
  | cons c a ih => exact ih (p.step c)

/-- `Drift past p q`: the characters at the places `past`, all of them in front of `q`, are taken
away, which brings `q` to `p`. -/
structure Drift (past : List Span) (p q : Span) : Prop where
  before : ∀ r ∈ past, r.Before q
  line : p.line = q.line
  column : p.column + q.leftOf past = q.column

namespace Drift

variable {past later : List Span} {p q : Span} {c : Char}

theorem leftOf_step (h : Drift past p q) (hc : c ≠ '\n') : (q.step c).leftOf past = q.leftOf past := by
  refine List.countP_congr fun r hr => ?_
  have hbefore := h.before r hr
  simp only [step, if_neg hc, Bool.and_eq_true, beq_iff_eq, decide_eq_true_eq]
  unfold Before at hbefore
  omega

theorem leftOf_feed (h : Drift past p q) : (q.step '\n').leftOf past = 0 := by
  refine List.countP_eq_zero.2 fun r hr => ?_
  have hbefore := h.before r hr
  simp only [step, if_pos, Bool.and_eq_true, beq_iff_eq, decide_eq_true_eq]
  unfold Before at hbefore
  omega

/-- A character that stays moves both places. -/
theorem step_kept (h : Drift past p q) (c : Char) : Drift past (p.step c) (q.step c) where
  before r hr := (h.before r hr).trans (q.before_step c)
  line := by
    have hline := h.line
    unfold step
    split <;> simp [hline]
  column := by
    by_cases hc : c = '\n'
    · subst hc
      rw [h.leftOf_feed]
      rfl
    · have hcolumn := h.column
      rw [h.leftOf_step hc]
      simp only [step, if_neg hc]
      omega

/-- A character that is taken away moves the place in the source only. -/
theorem step_removed (h : Drift past p q) (hc : c ≠ '\n') : Drift (past ++ [q]) p (q.step c) where
  before r hr := by
    rcases List.mem_append.1 hr with hr | hr
    · exact (h.before r hr).trans (q.before_step c)
    · rw [List.mem_singleton.1 hr]
      exact q.before_step c
  line := by
    rw [h.line, step, if_neg hc]
  column := by
    have hcolumn := h.column
    have hself : (q.step c).leftOf [q] = 1 := by simp [leftOf, step, if_neg hc]
    rw [leftOf_append, h.leftOf_step hc, hself]
    simp only [step, if_neg hc]
    omega

theorem eq_without (h : Drift past p q) (hlater : ∀ r ∈ later, ¬ r.Before q) :
    p = q.without (past ++ later) := by
  obtain ⟨line, column⟩ := p
  have hline : line = q.line := h.line
  have hcolumn : column + q.leftOf past = q.column := h.column
  rw [without, leftOf_append, leftOf_eq_zero hlater, Span.mk.injEq]
  omega

end Drift

end Span

namespace Mode

/-- The places of the characters that stay when comments are removed from a text that starts at
`p`. -/
def stays (m : Mode) (p : Span) : List Char → List Span
  | [] => []
  | c :: s =>
      if m.keeps c s then p :: stays (m.step c) (p.step c) s else stays (m.step c) (p.step c) s

/-- The places of the characters that go. -/
def goes (m : Mode) (p : Span) : List Char → List Span
  | [] => []
  | c :: s =>
      if m.keeps c s then goes (m.step c) (p.step c) s else p :: goes (m.step c) (p.step c) s

theorem keeps_feed (m : Mode) (s : List Char) : m.keeps '\n' s = true := by
  cases m <;> rfl

theorem not_before_of_goes (m : Mode) (p : Span) (s : List Char) :
    ∀ r ∈ m.goes p s, ¬ r.Before p := by
  induction s generalizing m p with
  | nil => simp [goes]
  | cons c s ih =>
      have hrest : ∀ r ∈ (m.step c).goes (p.step c) s, ¬ r.Before p := fun r hr hbefore =>
        ih _ _ r hr (hbefore.trans (p.before_step c))
      rw [goes]
      split
      · exact hrest
      · rw [List.forall_mem_cons]
        exact ⟨by simp [Span.Before], hrest⟩

/-- The characters that stay, placed in the text that is left, are where their places in the source
come to stand. -/
theorem places_kept {past : List Span} {p q : Span} (m : Mode) (s : List Char)
    (h : Span.Drift past p q) :
    p.places (m.kept s) = (m.stays q s).map (Span.without (past ++ m.goes q s)) := by
  induction s generalizing m past p q with
  | nil => rfl
  | cons c s ih =>
      rw [kept_cons, stays, goes]
      cases hkeeps : m.keeps c s with
      | true =>
          have hlater : ∀ r ∈ (m.step c).goes (q.step c) s, ¬ r.Before q := fun r hr hbefore =>
            not_before_of_goes _ _ s r hr (hbefore.trans (q.before_step c))
          simp only [if_true, Span.places, List.map_cons]
          rw [ih _ (h.step_kept c), ← h.eq_without hlater]
      | false =>
          have hc : c ≠ '\n' := by
            rintro rfl
            rw [keeps_feed] at hkeeps
            cases hkeeps
          have hrest := ih (m.step c) (h.step_removed hc)
          rw [List.append_assoc] at hrest
          exact hrest

/-- The places of the characters that stay are their places in the source. -/
theorem stands_of_kept (m : Mode) (p : Span) (s : List Char) :
    ∀ x ∈ (m.kept s).zip (m.stays p s), ∃ before after,
      s = before ++ x.1 :: after ∧ x.2 = p.advance before := by
  induction s generalizing m p with
  | nil => simp [stays]
  | cons c s ih =>
      have hrest : ∀ x ∈ ((m.step c).kept s).zip ((m.step c).stays (p.step c) s), ∃ before after,
          c :: s = before ++ x.1 :: after ∧ x.2 = p.advance before := by
        intro x hx
        obtain ⟨before, after, hs, hplace⟩ := ih _ _ x hx
        exact ⟨c :: before, after, by rw [hs]; rfl, hplace⟩
      rw [kept_cons, stays]
      cases m.keeps c s with
      | true =>
          simp only [if_true, List.zip_cons_cons, List.forall_mem_cons]
          exact ⟨⟨[], s, rfl, rfl⟩, hrest⟩
      | false => exact hrest

end Mode

/-! ## Tokens in the source -/

/-- The number of characters of comments in front of a place of the source, on its line. -/
def Source.hidden (s : List Char) (q : Span) : Nat :=
  q.leftOf (Mode.code.goes .start s)

/-- The place that is reported for a place of the source. -/
def Source.reported (s : List Char) : Span → Span :=
  Span.without (Mode.code.goes .start s)

namespace Token

/-- Gives each lexeme the place of its first character, out of the places of all characters. -/
def placeAt : List Span → List Lexeme → List Token
  | p :: ps, l :: ls => ⟨l, p⟩ :: placeAt ((p :: ps).drop l.text.length) ls
  | _, _ => []

/-- The tokens of a source without its comments, each placed where it stands in the source. -/
def inSource (s : List Char) : List Token :=
  placeAt (Mode.code.stays .start s) (Lexeme.split (Source.withoutComments s))

theorem placeAt_map (f : Span → Span) (places : List Span) (lexemes : List Lexeme) :
    placeAt (places.map f) lexemes = (placeAt places lexemes).map (move f) := by
  induction lexemes generalizing places with
  | nil => cases places <;> rfl
  | cons l lexemes ih =>
      cases places with
      | nil => rfl
      | cons p places =>
          simp only [List.map_cons, placeAt]
          rw [← List.map_cons, ← List.map_drop, ih]
          rfl

theorem place_eq_placeAt (p : Span) {lexemes : List Lexeme} (h : ∀ l ∈ lexemes, l.text ≠ []) :
    place p lexemes = placeAt (p.places (Lexeme.join lexemes)) lexemes := by
  induction lexemes generalizing p with
  | nil => rfl
  | cons l lexemes ih =>
      have hrest := p.drop_places l.text (Lexeme.join lexemes)
      obtain ⟨c, w, hw⟩ := List.exists_cons_of_ne_nil (h l (by simp))
      rw [place, Lexeme.join_cons, ih _ fun m hm => h m (by simp [hm]), ← hrest]
      rw [hw, List.cons_append, Span.places, placeAt, hw]

theorem mem_placeAt {places : List Span} {lexemes : List Lexeme} (h : ∀ l ∈ lexemes, l.text ≠ [])
    {t : Token} (ht : t ∈ placeAt places lexemes) :
    ∃ c w, t.text = c :: w ∧ (c, t.span) ∈ (Lexeme.join lexemes).zip places := by
  induction lexemes generalizing places with
  | nil => cases places <;> cases ht
  | cons l lexemes ih =>
      cases places with
      | nil => cases ht
      | cons p places =>
          obtain ⟨c, w, hw⟩ := List.exists_cons_of_ne_nil (h l (by simp))
          rw [Lexeme.join_cons]
          rcases List.mem_cons.1 ht with rfl | ht
          · exact ⟨c, w, hw, by simp [hw]⟩
          · obtain ⟨d, v, hv, hmem⟩ := ih (fun m hm => h m (by simp [hm])) ht
            refine ⟨d, v, hv, ?_⟩
            have hdrop : ((l.text ++ Lexeme.join lexemes).zip (p :: places)).drop l.text.length =
                (Lexeme.join lexemes).zip ((p :: places).drop l.text.length) := by
              rw [List.zip, List.drop_zipWith, List.drop_left]
            rw [← hdrop] at hmem
            exact List.mem_of_mem_drop hmem

theorem text_ne_nil_of_split (s : List Char) : ∀ l ∈ Lexeme.split s, l.text ≠ [] := by
  fun_induction Lexeme.split s with
  | case1 => simp
  | case2 c s ih => exact List.forall_mem_cons.2 ⟨Lexeme.first_text_ne_nil c s, ih⟩

theorem ofText_withoutComments (s : List Char) :
    ofText (Source.withoutComments s) = (inSource s).map (move (Source.reported s)) := by
  have hdrift : Span.Drift [] .start .start := ⟨by simp, rfl, rfl⟩
  have hplaces := Mode.places_kept .code s hdrift
  rw [Mode.kept_code, List.nil_append] at hplaces
  rw [ofText, place_eq_placeAt _ (text_ne_nil_of_split _), Lexeme.join_split, hplaces, placeAt_map]
  rfl

/-- The first character of a token stands in the source at the place of the token. -/
def StandsIn (t : Token) (s : List Char) : Prop :=
  ∃ c w before after, t.text = c :: w ∧ s = before ++ c :: after ∧
    t.span = Span.start.advance before

theorem standsIn_of_inSource {s : List Char} {t : Token} (h : t ∈ inSource s) : t.StandsIn s := by
  obtain ⟨c, w, hw, hmem⟩ := mem_placeAt (text_ne_nil_of_split _) h
  rw [Lexeme.join_split, ← Mode.kept_code] at hmem
  obtain ⟨before, after, hs, hplace⟩ := Mode.stands_of_kept _ _ _ _ hmem
  exact ⟨c, w, before, after, hw, hs, hplace⟩

end Token

/-! ## Rules in the source -/

/-- The first token of a clause that means something is at a place, and stands in the source there. -/
def Clause.BeginsAt (c : Clause) (s : List Char) (p : Span) : Prop :=
  ∃ t, Token.firstSolid? c.body = some t ∧ t.span = p ∧ t.StandsIn s

/-- A rule is placed where its selector begins in the source, and each of its declarations where the
clause begins that gives it. -/
structure Rule.PlacedIn (r : Rule) (s : List Char) : Prop where
  selector : ∃ c ∈ (Clauses.split 0 (Token.inSource s)).ended,
    c.ending = .openBrace ∧ Token.render c.body = r.selector ∧ c.BeginsAt s r.span
  declarations : ∀ d ∈ r.declarations, ∃ c ∈ (Clauses.split 0 (Token.inSource s)).ended,
    Declaration.ofTokens? c.body d.span = some d ∧ c.BeginsAt s d.span

theorem Token.firstSolid?_of_render {tokens : List Token} (h : render tokens ≠ "") :
    ∃ t, firstSolid? tokens = some t := by
  cases hfirst : firstSolid? tokens with
  | some t => exact ⟨t, rfl⟩
  | none =>
      refine absurd ?_ h
      have hlead := render_lead (firstSolid?_eq_none_iff.1 hfirst) []
      rw [List.append_nil] at hlead
      rw [hlead]
      rfl

namespace Sheet

variable {s : List Char}

theorem beginsAt_of_firstSolid {c : Clause} {t : Token}
    (hc : c ∈ (Clauses.split 0 (Token.inSource s)).ended) (ht : Token.firstSolid? c.body = some t) :
    c.BeginsAt s t.span :=
  ⟨t, ht, rfl, Token.standsIn_of_inSource
    ((Clauses.body_isInfix hc).subset (Token.firstSolid?_mem ht))⟩

theorem extendRule_placedIn {c : Clause} {rule : Rule}
    (hc : c ∈ (Clauses.split 0 (Token.inSource s)).ended) (hrule : rule.PlacedIn s) :
    (extendRule rule c.body).1.PlacedIn s := by
  refine ⟨hrule.selector, fun d hd => ?_⟩
  rcases mem_extendRule hd with hd | ⟨t, ht, hd⟩
  · exact hrule.declarations d hd
  · obtain ⟨before, colon, after, -, -, hclassified⟩ := Declaration.exists_of_ofTokens hd
    have hspan : d.span = t.span := by rw [hclassified, Declaration.classified]
    rw [← hspan] at hd
    exact ⟨c, hc, hd, by rw [hspan]; exact beginsAt_of_firstSolid hc ht⟩

theorem placedIn_of_ofTokens {built : Built} (h : ofTokens (Token.inSource s) = .ok built) :
    ∀ r ∈ built.rules, r.PlacedIn s := by
  have hscope : Scope.Holds (Rule.PlacedIn · s) .outside := trivial
  refine buildTokens_holds (fun c hc hending hne => ?_)
    (fun c hc rule hrule => extendRule_placedIn hc hrule) hscope h
  obtain ⟨t, ht⟩ := Token.firstSolid?_of_render hne
  have hstart : c.start = t.span := by rw [Clause.start, ht]
  exact ⟨⟨c, hc, hending, rfl, by rw [hstart]; exact beginsAt_of_firstSolid hc ht⟩, by simp⟩

theorem ofTokens_withoutComments {given : Built}
    (h : ofTokens (Token.ofText (Source.withoutComments s)) = .ok given) :
    ∃ built, ofTokens (Token.inSource s) = .ok built ∧ given = built.move (Source.reported s) := by
  have hline : ∀ t ∈ Token.inSource s, 0 < t.span.line := by
    intro t ht
    obtain ⟨c, w, before, after, -, -, hspan⟩ := Token.standsIn_of_inSource ht
    rw [hspan]
    exact Span.line_le_advance .start before
  have hscope : Scope.Placed .outside := trivial
  have hmove := buildTokens_move (f := Source.reported s) (fun _ hp => hp) hline hscope
  rw [← Token.ofText_withoutComments] at hmove
  have hgiven : buildTokens .outside (Token.ofText (Source.withoutComments s)) = .ok given := h
  rw [Scope.move, hgiven] at hmove
  cases hbuilt : buildTokens .outside (Token.inSource s) with
  | error e =>
      rw [hbuilt] at hmove
      cases hmove
  | ok built =>
      rw [hbuilt] at hmove
      exact ⟨built, hbuilt, Except.ok.inj hmove⟩

end Sheet

theorem Declaration.move_eq_iff {f : Span → Span} {d : Declaration} :
    d.move f = d ↔ f d.span = d.span := by
  cases d
  simp [move]

theorem Rule.move_eq_iff {f : Span → Span} {r : Rule} :
    r.move f = r ↔ f r.span = r.span ∧ ∀ d ∈ r.declarations, f d.span = d.span := by
  have hdeclarations : r.declarations.map (Declaration.move f) = r.declarations ↔
      ∀ d ∈ r.declarations, f d.span = d.span := by
    conv_lhs => rhs; rw [← List.map_id r.declarations]
    rw [List.map_inj_left]
    exact forall₂_congr fun d _ => Declaration.move_eq_iff
  rw [← hdeclarations, and_comm]
  cases r
  simp [move]

theorem Clause.BeginsAt.reported_eq_iff {c : Clause} {s : List Char} {p : Span}
    (h : c.BeginsAt s p) : Source.reported s p = p ↔ Source.hidden s p = 0 := by
  obtain ⟨t, -, rfl, first, w, before, after, -, -, hspan⟩ := h
  have hcolumn : 0 < t.span.column := by
    rw [hspan]
    exact Span.column_pos_of_advance Nat.one_pos before
  exact Span.without_eq_iff hcolumn

/-- Where no theme opens and no line is an import, the tokens are those of the source without its
comments.  A rule or a declaration is then reported on the line where it stands in the source, further
left by the characters of comments in front of it on that line; so all of them are reported where they
stand exactly if no comment has a character in front of one of them on its line. -/
theorem Sheet.read_placed_iff {s : List Char} {reading : Reading}
    (htheme : Source.Absent Source.startsTheme (Source.withoutComments s))
    (himport : ∀ line ∈ Source.splitLines (Source.withoutComments s),
      Source.importTarget? (Source.cutLineFeed line).1 = none)
    (h : read s = .ok reading) :
    ∃ built, ofTokens (Token.inSource s) = .ok built ∧ (∀ r ∈ built.rules, r.PlacedIn s) ∧
      reading.sheet.rules = built.rules.map (Rule.move (Source.reported s)) ∧
      (reading.sheet.rules = built.rules ↔
        ∀ r ∈ built.rules, Source.hidden s r.span = 0 ∧
          ∀ d ∈ r.declarations, Source.hidden s d.span = 0) := by
  obtain ⟨t, given, ht, hgiven, rfl⟩ := read_eq_ok_iff.1 h
  have hmarked : Source.marked s = ⟨Source.withoutComments s, []⟩ := Source.markImports_of_none himport
  have htext : t = Source.withoutComments s := by
    have hexpand := (Source.expandThemes_eq_ok_iff (p := .start)).2 ht
    rw [hmarked, Source.expandThemes_of_absent _ htheme] at hexpand
    exact (Except.ok.inj hexpand).symm
  subst htext
  obtain ⟨built, hbuilt, rfl⟩ := ofTokens_withoutComments hgiven
  have hplaced := placedIn_of_ofTokens hbuilt
  refine ⟨built, hbuilt, hplaced, rfl, ?_⟩
  simp only [Built.move]
  conv_lhs => rhs; rw [← List.map_id built.rules]
  rw [List.map_inj_left]
  refine forall₂_congr fun r hr => ?_
  obtain ⟨⟨c, -, -, -, hbegins⟩, hdeclarations⟩ := hplaced r hr
  refine Rule.move_eq_iff.trans (and_congr hbegins.reported_eq_iff (forall₂_congr fun d hd => ?_))
  obtain ⟨c, -, -, hbegins⟩ := hdeclarations d hd
  exact hbegins.reported_eq_iff

/-- Comments on lines of their own and behind all else keep the places; comments in front of the
selector and of a declaration do not. -/
theorem Sheet.read_placed_iff_comments :
    let s := "/* c\n */\n.a \x7b b: c; /* d */\n f: g\x7d".toList
    let t := "/* c\n */ .a \x7b b: c; /* d */\n/**/ f: g\x7d".toList
    let rule (selector first second : Span) : Rule :=
      ⟨".a", [⟨"b", "c", false, first⟩, ⟨"f", "g", false, second⟩], selector⟩
    (read s = .ok ⟨⟨[rule ⟨3, 1⟩ ⟨3, 6⟩ ⟨4, 2⟩], []⟩, []⟩ ∧
      (rule ⟨3, 1⟩ ⟨3, 6⟩ ⟨4, 2⟩).PlacedIn s ∧ Source.hidden s ⟨4, 2⟩ = 0) ∧
    read t = .ok ⟨⟨[rule ⟨2, 2⟩ ⟨2, 7⟩ ⟨3, 2⟩], []⟩, []⟩ ∧
      (rule ⟨2, 5⟩ ⟨2, 10⟩ ⟨3, 6⟩).PlacedIn t ∧
      rule ⟨2, 2⟩ ⟨2, 7⟩ ⟨3, 2⟩ = (rule ⟨2, 5⟩ ⟨2, 10⟩ ⟨3, 6⟩).move (Source.reported t) := by
  intro s t rule
  have himport (u : List Char) (hu : ¬ "@import".toList <:+: Source.withoutComments u) :
      ∀ line ∈ Source.splitLines (Source.withoutComments u),
        Source.importTarget? (Source.cutLineFeed line).1 = none :=
    fun line hline => Source.importTarget_of_not_infix hu hline
  have hs : read s = .ok ⟨⟨[rule ⟨3, 1⟩ ⟨3, 6⟩ ⟨4, 2⟩], []⟩, []⟩ := by decide +kernel
  have ht : read t = .ok ⟨⟨[rule ⟨2, 2⟩ ⟨2, 7⟩ ⟨3, 2⟩], []⟩, []⟩ := by decide +kernel
  have hsource : ofTokens (Token.inSource s) = .ok ⟨[rule ⟨3, 1⟩ ⟨3, 6⟩ ⟨4, 2⟩], []⟩ := by
    decide +kernel
  have hshifted : ofTokens (Token.inSource t) = .ok ⟨[rule ⟨2, 5⟩ ⟨2, 10⟩ ⟨3, 6⟩], []⟩ := by
    decide +kernel
  obtain ⟨_, hbuilt, hplaced, -, heq⟩ :=
    read_placed_iff (by decide +kernel) (himport s (by decide +kernel)) hs
  obtain rfl := Except.ok.inj (hsource.symm.trans hbuilt)
  obtain ⟨_, hbuilt, hplaced', hmoved, -⟩ :=
    read_placed_iff (by decide +kernel) (himport t (by decide +kernel)) ht
  obtain rfl := Except.ok.inj (hshifted.symm.trans hbuilt)
  have hhidden := (heq.1 rfl _ List.mem_cons_self).2 _ (List.mem_cons_of_mem _ List.mem_cons_self)
  exact ⟨⟨hs, hplaced _ List.mem_cons_self, hhidden⟩, ht, hplaced' _ List.mem_cons_self,
    (List.cons.inj hmoved).1⟩

/-- A comment in front of a selector or of a declaration shifts its place. -/
theorem Sheet.read_misplaced :
    let s := "/* c */ .a\x7b/* d */ b:c\x7d".toList
    read s = .ok ⟨⟨[⟨".a", [⟨"b", "c", false, ⟨1, 6⟩⟩], ⟨1, 2⟩⟩], []⟩, []⟩ ∧
      ofTokens (Token.inSource s) = .ok ⟨[⟨".a", [⟨"b", "c", false, ⟨1, 20⟩⟩], ⟨1, 9⟩⟩], []⟩ := by
  decide +kernel

end RichStyle
