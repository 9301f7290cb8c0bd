import RichStyle.Proofs.Pieces

/-!
# The lexemes of a printed sheet

A printed sheet is made of tidy pieces and of fixed marks and blanks between them.  Cutting its text
gives the lexemes of the pieces and the marks and blanks in their order.
-/

namespace RichStyle

open Text

namespace Lexeme

/-- The kinds of the lexemes of a text. -/
def kinds (s : List Char) : List Kind :=
  (split s).map Lexeme.kind

@[simp] theorem join_nil : join [] = [] := rfl

@[simp] theorem join_append (a b : List Lexeme) : join (a ++ b) = join a ++ join b := by
  simp [join]

@[simp] theorem join_cons (l : Lexeme) (lexemes : List Lexeme) :
    join (l :: lexemes) = l.text ++ join lexemes := by
  simp [join]

theorem Segmented.cons {l : Lexeme} {lexemes : List Lexeme} (hl : Whole l)
    (h : Segmented lexemes) (hnext : ∀ m ∈ lexemes.head?, Follows l m) :
    Segmented (l :: lexemes) :=
  ⟨List.forall_mem_cons.2 ⟨hl, h.whole⟩, List.isChain_cons.2 ⟨hnext, h.chain⟩⟩

theorem follows_of_mark {l : Lexeme} (hl : l.kind.isMark = true) (m : Lexeme) : Follows l m := by
  constructor
  · intro h
    rw [h] at hl
    contradiction
  · intro h
    rw [h] at hl
    contradiction

theorem Segmented.append {piece rest : List Lexeme} (h : Segmented piece) (hrest : Segmented rest)
    (hjoint : ∀ l ∈ piece.getLast?, ∀ m ∈ rest.head?, Follows l m) : Segmented (piece ++ rest) := by
  refine ⟨?_, List.isChain_append.2 ⟨h.chain, hrest.chain, hjoint⟩⟩
  intro l hl
  rcases List.mem_append.1 hl with hl | hl
  · exact h.whole l hl
  · exact hrest.whole l hl

/-- A tidy piece in front of a lexeme that is not ordinary text. -/
theorem Tidy.segmented_append {piece rest : List Lexeme} {n : Lexeme} (h : Tidy piece)
    (hrest : Segmented (n :: rest)) (hn : n.kind ≠ .plain) : Segmented (piece ++ n :: rest) := by
  refine h.segmented.append hrest fun l hl m hm => ?_
  obtain rfl : n = m := by simpa using hm
  exact ⟨fun _ => hn, fun hblank => absurd hblank (h.last l hl)⟩

/-- A neat piece between a blank and a lexeme that is neither ordinary text nor a blank. -/
theorem Neat.segmented_blank {piece rest : List Lexeme} {b n : Lexeme} (h : Neat piece)
    (hb : Whole b) (hblank : b.kind = .blank) (hrest : Segmented (n :: rest))
    (hn : n.kind ≠ .plain ∧ n.kind ≠ .blank) : Segmented (b :: (piece ++ n :: rest)) := by
  have happend : Segmented (piece ++ n :: rest) := by
    refine h.segmented.append hrest fun l _ m hm => ?_
    obtain rfl : n = m := by simpa using hm
    exact ⟨fun _ => hn.1, fun _ => hn.2⟩
  refine Segmented.cons hb happend ?_
  intro m hm
  refine ⟨fun e => ?_, fun _ => ?_⟩
  · rw [hblank] at e
    contradiction
  · cases piece with
    | nil =>
        obtain rfl : n = m := by simpa using hm
        exact hn.2
    | cons l piece =>
        obtain rfl : l = m := by simpa using hm
        exact h.head l (by simp)

end Lexeme

open Lexeme (kinds Neat Tidy Whole Segmented)

namespace Declaration

/-- The lexemes of a printed declaration, from the line feed in front of it on. -/
def lexemes (d : Declaration) : List Lexeme :=
  ⟨.blank, ['\n', ' ', ' ']⟩ :: (Lexeme.split d.property.toList ++
    ⟨.colon, [':']⟩ :: ⟨.blank, [' ']⟩ :: (Lexeme.split d.value.toList ++ [⟨.semicolon, [';']⟩]))

/-- Declarations whose property and value can be told apart in print. -/
structure Printable (d : Declaration) : Prop where
  property : Tidy (Lexeme.split d.property.toList)
  property_ne : d.property.toList ≠ []
  property_closed : Kind.depthAfter? 0 (kinds d.property.toList) = some 0
  property_colons : Kind.hidesColons 0 (kinds d.property.toList) = true
  value : Neat (Lexeme.split d.value.toList)

/-- Declarations whose value ends where the semicolon is printed: it leaves no parenthesis open,
has no semicolon outside them and no blank at its end. -/
structure Closed (d : Declaration) : Prop where
  depth : Kind.depthAfter? 0 (kinds d.value.toList) = some 0
  unpadded : Unpadded d.value.toList

instance (d : Declaration) : Decidable d.Closed :=
  decidable_of_iff
    (Kind.depthAfter? 0 (kinds d.value.toList) = some 0 ∧ Unpadded d.value.toList)
    ⟨fun h => ⟨h.1, h.2⟩, fun h => ⟨h.depth, h.unpadded⟩⟩

theorem Printable.property_ne_empty {d : Declaration} (h : d.Printable) : d.property ≠ "" := by
  intro hempty
  exact h.property_ne (by simp [hempty])

theorem join_lexemes (d : Declaration) :
    Lexeme.join d.lexemes = '\n' :: ' ' :: ' ' :: (d.property.toList ++ ':' :: ' ' ::
      (d.value.toList ++ [';'])) := by
  simp [lexemes, Lexeme.join_split]

theorem Printable.segmented {d : Declaration} (h : d.Printable) {rest : List Lexeme}
    (hrest : Segmented rest) : Segmented (d.lexemes ++ rest) := by
  have hsemicolon : Segmented (⟨.semicolon, [';']⟩ :: rest) :=
    .cons (.mark rfl) hrest fun m _ => Lexeme.follows_of_mark rfl m
  have hvalue := h.value.segmented_blank (b := ⟨.blank, [' ']⟩) (.blank (by simp)) rfl
    hsemicolon (by decide)
  have hcolon : Segmented (⟨.colon, [':']⟩ :: ⟨.blank, [' ']⟩ ::
      (Lexeme.split d.value.toList ++ ⟨.semicolon, [';']⟩ :: rest)) :=
    .cons (.mark rfl) hvalue fun m _ => Lexeme.follows_of_mark rfl m
  have hproperty := h.property.toNeat.segmented_blank (b := ⟨.blank, ['\n', ' ', ' ']⟩)
    (.blank (by simp)) rfl hcolon (by decide)
  simpa [lexemes] using hproperty

end Declaration

namespace Rule

/-- The lexemes of a printed rule. -/
def lexemes (r : Rule) : List Lexeme :=
  Lexeme.split r.selector.toList ++ ⟨.blank, [' ']⟩ :: ⟨.openBrace, ['{']⟩ ::
    (r.declarations.flatMap Declaration.lexemes ++
      [⟨.blank, ['\n']⟩, ⟨.closeBrace, ['}']⟩, ⟨.blank, ['\n', '\n']⟩])

/-- Rules whose selector and declarations can be told apart in print. -/
structure Printable (r : Rule) : Prop where
  selector : Tidy (Lexeme.split r.selector.toList)
  selector_ne : r.selector.toList ≠ []
  selector_open : ∃ depth, Kind.depthAfter? 0 (kinds r.selector.toList) = some depth
  declarations : ∀ d ∈ r.declarations, d.Printable

theorem join_declarations (ds : List Declaration) :
    Lexeme.join (ds.flatMap Declaration.lexemes) ++ ['\n'] =
      '\n' :: (String.join (ds.map Sheet.printDeclaration)).toList := by
  induction ds with
  | nil => simp [Lexeme.join]
  | cons d ds ih =>
      rw [List.flatMap_cons, Lexeme.join_append, List.append_assoc, ih, Declaration.join_lexemes]
      simp [Sheet.printDeclaration, String.toList_join]

theorem join_lexemes (r : Rule) : Lexeme.join r.lexemes = (Sheet.printRule r).toList := by
  have hdecls := join_declarations r.declarations
  have htail : Lexeme.join r.lexemes = r.selector.toList ++ ' ' :: '{' ::
      (Lexeme.join (r.declarations.flatMap Declaration.lexemes) ++ ['\n']) ++ ['}', '\n', '\n'] := by
    simp [lexemes, Lexeme.join_split]
  rw [htail, hdecls]
  simp [Sheet.printRule]

theorem segmented_declarations {ds : List Declaration} (h : ∀ d ∈ ds, d.Printable)
    {rest : List Lexeme} (hrest : Segmented rest) :
    Segmented (ds.flatMap Declaration.lexemes ++ rest) := by
  induction ds with
  | nil => exact hrest
  | cons d ds ih =>
      rw [List.flatMap_cons, List.append_assoc]
      exact (h d (by simp)).segmented (ih fun e he => h e (by simp [he]))

theorem Printable.split_ne_nil {r : Rule} (h : r.Printable) :
    Lexeme.split r.selector.toList ≠ [] := by
  intro hnil
  have hjoin := Lexeme.join_split r.selector.toList
  rw [hnil] at hjoin
  exact h.selector_ne hjoin.symm

theorem Printable.segmented {r : Rule} (h : r.Printable) {rest : List Lexeme}
    (hrest : Segmented rest) (hhead : ∀ m ∈ rest.head?, m.kind ≠ .blank) :
    Segmented (r.lexemes ++ rest) := by
  have hgap : Segmented (⟨.blank, ['\n', '\n']⟩ :: rest) :=
    .cons (.blank (by simp)) hrest fun m hm => ⟨fun e => by contradiction, fun _ => hhead m hm⟩
  have hclose : Segmented (⟨.closeBrace, ['}']⟩ :: ⟨.blank, ['\n', '\n']⟩ :: rest) :=
    .cons (.mark rfl) hgap fun m _ => Lexeme.follows_of_mark rfl m
  have hline : Segmented (⟨.blank, ['\n']⟩ :: ⟨.closeBrace, ['}']⟩ ::
      ⟨.blank, ['\n', '\n']⟩ :: rest) := by
    refine .cons (.blank (by simp)) hclose fun m hm => ?_
    obtain rfl : (⟨.closeBrace, ['}']⟩ : Lexeme) = m := by simpa using hm
    exact ⟨by simp, by simp⟩
  have hbody := segmented_declarations h.declarations hline
  have hopen := Segmented.cons (l := ⟨.openBrace, ['{']⟩) (.mark rfl) hbody
    fun m _ => Lexeme.follows_of_mark rfl m
  have hspace : Segmented (⟨.blank, [' ']⟩ :: ⟨.openBrace, ['{']⟩ ::
      (r.declarations.flatMap Declaration.lexemes ++ ⟨.blank, ['\n']⟩ :: ⟨.closeBrace, ['}']⟩ ::
        ⟨.blank, ['\n', '\n']⟩ :: rest)) := by
    refine .cons (.blank (by simp)) hopen fun m hm => ?_
    obtain rfl : (⟨.openBrace, ['{']⟩ : Lexeme) = m := by simpa using hm
    exact ⟨by simp, by simp⟩
  simpa [lexemes] using h.selector.segmented_append hspace (by simp)

end Rule

namespace Sheet

theorem lexemes_head {rules : List Rule} (h : ∀ r ∈ rules, r.Printable) :
    ∀ m ∈ (rules.flatMap Rule.lexemes).head?, m.kind ≠ .blank := by
  intro m hm
  cases rules with
  | nil => simp at hm
  | cons r rules =>
      have hr := h r (by simp)
      obtain ⟨l, ls, hl⟩ := List.exists_cons_of_ne_nil hr.split_ne_nil
      have hm' : l = m := by simpa [Rule.lexemes, hl] using hm
      exact hr.selector.head m (by simp [hl, hm'])

theorem segmented_lexemes {rules : List Rule} (h : ∀ r ∈ rules, r.Printable) :
    Segmented (rules.flatMap Rule.lexemes) := by
  induction rules with
  | nil => exact ⟨by simp, by simp⟩
  | cons r rules ih =>
      have hrules : ∀ r ∈ rules, r.Printable := fun q hq => h q (by simp [hq])
      exact (h r (by simp)).segmented (ih hrules) (lexemes_head hrules)

theorem join_lexemes (rules : List Rule) :
    Lexeme.join (rules.flatMap Rule.lexemes) = (print rules false).toList := by
  have hrules : Lexeme.join (rules.flatMap Rule.lexemes) =
      rules.flatMap fun r => (printRule r).toList := by
    induction rules with
    | nil => rfl
    | cons r rules ih => simp [ih, Rule.join_lexemes]
  simp [hrules, print, String.toList_join, List.flatMap_map]

/-- The lexemes of a printed sheet are those of its pieces and of what is printed between them. -/
theorem split_print {rules : List Rule} (h : ∀ r ∈ rules, r.Printable) :
    Lexeme.split (print rules false).toList = rules.flatMap Rule.lexemes := by
  rw [← join_lexemes]
  exact Lexeme.split_join (segmented_lexemes h)

/-- Line feeds in front of a printed sheet are one more blank. -/
theorem split_feeds {rules : List Rule} (h : ∀ r ∈ rules, r.Printable) :
    Lexeme.split ('\n' :: '\n' :: (print rules false).toList) =
      ⟨.blank, ['\n', '\n']⟩ :: rules.flatMap Rule.lexemes := by
  have hseg : Segmented (⟨.blank, ['\n', '\n']⟩ :: rules.flatMap Rule.lexemes) :=
    .cons (.blank (by simp)) (segmented_lexemes h)
      fun m hm => ⟨fun e => by contradiction, fun _ => lexemes_head h m hm⟩
  have hjoin := Lexeme.split_join hseg
  rwa [Lexeme.join_cons, join_lexemes] at hjoin

end Sheet

end RichStyle
