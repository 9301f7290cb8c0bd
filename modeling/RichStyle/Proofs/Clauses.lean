import RichStyle.Sheet.Build

/-!
# Marks, clauses and colons

Where a clause ends and where a declaration is cut depends on the punctuation marks alone.
`depthAfter?` follows the parenthesis depth through kinds that end no clause; `hidesColons` says
that every colon stands inside parentheses.
-/

namespace RichStyle

namespace Kind

/-- The kinds of punctuation marks. -/
def isMark : Kind → Bool
  | openBrace | closeBrace | openParen | closeParen | colon | semicolon => true
  | quoted | blank | comment | plain => false

/-- The parenthesis depth after some kinds, if none of them ends a clause. -/
def depthAfter? (depth : Nat) : List Kind → Option Nat
  | [] => some depth
  | k :: ks =>
      match Ending.of? depth k with
      | some _ => none
      | none => depthAfter? (k.parenDepth depth) ks

/-- Whether all colons stand inside parentheses. -/
def hidesColons (depth : Nat) : List Kind → Bool
  | [] => true
  | k :: ks => !(k == colon && depth == 0) && hidesColons (k.parenDepth depth) ks

@[simp] theorem depthAfter?_blank (depth : Nat) (ks : List Kind) :
    depthAfter? depth (blank :: ks) = depthAfter? depth ks := rfl

@[simp] theorem hidesColons_blank (depth : Nat) (ks : List Kind) :
    hidesColons depth (blank :: ks) = hidesColons depth ks := rfl

theorem depthAfter?_blanks {ks : List Kind} (h : ∀ k ∈ ks, k = blank) (depth : Nat) :
    depthAfter? depth ks = some depth := by
  induction ks with
  | nil => rfl
  | cons k ks ih =>
      obtain rfl : k = blank := h k (by simp)
      exact ih fun j hj => h j (by simp [hj])

theorem ending_of_not_mark {k : Kind} (hk : k.isMark = false) (depth : Nat) :
    Ending.of? depth k = none := by
  cases k <;> first | rfl | contradiction

theorem parenDepth_of_not_mark {k : Kind} (hk : k.isMark = false) (depth : Nat) :
    k.parenDepth depth = depth := by
  cases k <;> first | rfl | contradiction

theorem depthAfter?_append (depth : Nat) (a b : List Kind) :
    depthAfter? depth (a ++ b) = (depthAfter? depth a).bind fun d => depthAfter? d b := by
  induction a generalizing depth with
  | nil => rfl
  | cons k a ih =>
      simp only [List.cons_append, depthAfter?]
      cases Ending.of? depth k with
      | none => exact ih (k.parenDepth depth)
      | some e => rfl

theorem depthAfter?_filter (depth : Nat) (ks : List Kind) :
    depthAfter? depth (ks.filter isMark) = depthAfter? depth ks := by
  induction ks generalizing depth with
  | nil => rfl
  | cons k ks ih =>
      cases hk : k.isMark with
      | true => simp only [List.filter_cons, hk, if_true, depthAfter?, ih]
      | false =>
          rw [List.filter_cons, hk]
          simp [depthAfter?, ending_of_not_mark hk, parenDepth_of_not_mark hk, ih]

theorem hidesColons_filter (depth : Nat) (ks : List Kind) :
    hidesColons depth (ks.filter isMark) = hidesColons depth ks := by
  induction ks generalizing depth with
  | nil => rfl
  | cons k ks ih =>
      cases hk : k.isMark with
      | true => simp only [List.filter_cons, hk, if_true, hidesColons, ih]
      | false =>
          have hcolon : k ≠ colon := by
            rintro rfl
            contradiction
          rw [List.filter_cons, hk]
          simp [hidesColons, hcolon, parenDepth_of_not_mark hk, ih]

theorem depthAfter?_eq_foldl {depth final : Nat} {ks : List Kind}
    (h : depthAfter? depth ks = some final) : ks.foldl parenDepth depth = final := by
  induction ks generalizing depth with
  | nil => exact Option.some.inj h
  | cons k ks ih =>
      simp only [depthAfter?] at h
      cases he : Ending.of? depth k with
      | none =>
          rw [he] at h
          exact ih h
      | some e =>
          rw [he] at h
          contradiction

end Kind

theorem Ending.eq_kind {depth : Nat} {k : Kind} {e : Ending} (h : Ending.of? depth k = some e) :
    (e = .openBrace ∧ k = .openBrace) ∨ (e = .closeBrace ∧ k = .closeBrace) ∨
      (e = .semicolon ∧ k = .semicolon ∧ depth = 0) := by
  unfold Ending.of? at h
  split at h
  · exact .inl ⟨(Option.some.inj h).symm, rfl⟩
  · exact .inr (.inl ⟨(Option.some.inj h).symm, rfl⟩)
  · split at h
    · next hdepth => exact .inr (.inr ⟨(Option.some.inj h).symm, rfl, hdepth⟩)
    · contradiction
  · contradiction

namespace Clauses

theorem split_ended {depth final : Nat} {body rest : List Token} {t : Token} {ending : Ending}
    (hbody : Kind.depthAfter? depth (body.map (·.kind)) = some final)
    (ht : Ending.of? final t.kind = some ending) :
    split depth (body ++ t :: rest) =
      ⟨⟨body, ending, t.span⟩ :: (split 0 rest).ended, (split 0 rest).tail⟩ := by
  induction body generalizing depth with
  | nil =>
      obtain rfl : depth = final := Option.some.inj hbody
      simp [split, ht]
  | cons u body ih =>
      simp only [List.map_cons, Kind.depthAfter?] at hbody
      cases he : Ending.of? depth u.kind with
      | none =>
          rw [he] at hbody
          rw [List.cons_append, split, he]
          simp only [ih hbody, push]
      | some e =>
          rw [he] at hbody
          contradiction

theorem split_tail {depth final : Nat} {tokens : List Token}
    (h : Kind.depthAfter? depth (tokens.map (·.kind)) = some final) :
    split depth tokens = ⟨[], tokens⟩ := by
  induction tokens generalizing depth with
  | nil => rfl
  | cons u tokens ih =>
      simp only [List.map_cons, Kind.depthAfter?] at h
      cases he : Ending.of? depth u.kind with
      | none =>
          rw [he] at h
          rw [split, he]
          simp only [ih h, push]
      | some e =>
          rw [he] at h
          contradiction

/-- Tokens either end no clause or are a clause, its mark and further tokens. -/
theorem exists_ended (depth : Nat) (tokens : List Token) :
    (∃ final, Kind.depthAfter? depth (tokens.map (·.kind)) = some final) ∨
      ∃ body t rest final ending, tokens = body ++ t :: rest ∧
        Kind.depthAfter? depth (body.map (·.kind)) = some final ∧
        Ending.of? final t.kind = some ending := by
  induction tokens generalizing depth with
  | nil => exact .inl ⟨depth, rfl⟩
  | cons u tokens ih =>
      cases he : Ending.of? depth u.kind with
      | some e => exact .inr ⟨[], u, tokens, depth, e, rfl, rfl, he⟩
      | none =>
          rcases ih (u.kind.parenDepth depth) with ⟨final, h⟩ | ⟨body, t, rest, final, e, rfl, h, ht⟩
          · refine .inl ⟨final, ?_⟩
            simp only [List.map_cons, Kind.depthAfter?, he, h]
          · refine .inr ⟨u :: body, t, rest, final, e, rfl, ?_, ht⟩
            simp only [List.map_cons, Kind.depthAfter?, he, h]

/-- Induction over the clauses of a token list, the first clause taken off at each step. -/
@[elab_as_elim]
theorem induction_on {motive : List Token → Prop} (tokens : List Token)
    (tail : ∀ tokens final, Kind.depthAfter? 0 (tokens.map (·.kind)) = some final → motive tokens)
    (ended : ∀ body t rest final ending, Kind.depthAfter? 0 (body.map (·.kind)) = some final →
      Ending.of? final t.kind = some ending → motive rest → motive (body ++ t :: rest)) :
    motive tokens := by
  induction hn : tokens.length using Nat.strongRecOn generalizing tokens with
  | _ n ih =>
      rcases exists_ended 0 tokens with ⟨final, h⟩ | ⟨body, t, rest, final, e, rfl, h, ht⟩
      · exact tail tokens final h
      · have hlt : rest.length < n := by
          simp [← hn]
          omega
        exact ended body t rest final e h ht (ih rest.length hlt rest rfl)

/-- No token after the last clause ends a clause. -/
theorem depthAfter?_tail (tokens : List Token) :
    ∃ final, Kind.depthAfter? 0 ((split 0 tokens).tail.map (·.kind)) = some final := by
  induction tokens using Clauses.induction_on with
  | tail tokens final h =>
      rw [split_tail h]
      exact ⟨final, h⟩
  | ended body t rest final ending hbody ht ih => rwa [split_ended hbody ht]

theorem body_isInfix {tokens : List Token} {c : Clause} (h : c ∈ (split 0 tokens).ended) :
    c.body <:+: tokens := by
  induction tokens using Clauses.induction_on with
  | tail tokens final hdepth =>
      rw [split_tail hdepth] at h
      cases h
  | ended body t rest final ending hbody ht ih =>
      rw [split_ended hbody ht] at h
      rcases List.mem_cons.1 h with rfl | h
      · exact ⟨[], t :: rest, rfl⟩
      · exact (ih h).trans ⟨body ++ [t], [], by simp⟩

/-- A closing brace ends the clause in front of it. -/
theorem tail_append_closing {front : List Token} {t : Token} (ht : t.kind = .closeBrace)
    (rest : List Token) : (split 0 (front ++ t :: rest)).tail = (split 0 rest).tail := by
  induction front using Clauses.induction_on with
  | tail front final hdepth =>
      have hending : Ending.of? final t.kind = some .closeBrace := by
        rw [ht]
        rfl
      rw [split_ended hdepth hending]
  | ended body u front final ending hbody hu ih =>
      rw [List.append_assoc, List.cons_append, split_ended hbody hu]
      exact ih

end Clauses

namespace Declaration

theorem cutColon?_append {depth : Nat} {before : List Token} {t : Token} (after : List Token)
    (ht : t.kind = .colon) (hhide : Kind.hidesColons depth (before.map (·.kind)) = true)
    (hdepth : (before.map (·.kind)).foldl Kind.parenDepth depth = 0) :
    cutColon? depth (before ++ t :: after) = some (before, after) := by
  induction before generalizing depth with
  | nil =>
      obtain rfl : depth = 0 := hdepth
      simp [cutColon?, ht]
  | cons u before ih =>
      simp only [List.map_cons, Kind.hidesColons, Bool.and_eq_true, Bool.not_eq_true',
        Bool.and_eq_false_iff, beq_eq_false_iff_ne] at hhide
      have hu : ¬ (u.kind = .colon ∧ depth = 0) := fun h =>
        hhide.1.elim (fun hk => hk h.1) (fun hd => hd h.2)
      rw [List.cons_append, cutColon?, if_neg hu, ih hhide.2 hdepth]
      rfl

theorem cutColon?_spec {depth : Nat} {tokens before after : List Token}
    (h : cutColon? depth tokens = some (before, after)) :
    ∃ t, tokens = before ++ t :: after ∧ t.kind = .colon ∧
      Kind.hidesColons depth (before.map (·.kind)) = true ∧
      (before.map (·.kind)).foldl Kind.parenDepth depth = 0 := by
  induction tokens generalizing depth before with
  | nil => simp [cutColon?] at h
  | cons u tokens ih =>
      rw [cutColon?] at h
      split at h
      · next hu =>
          obtain ⟨rfl, rfl⟩ := Prod.mk.inj (Option.some.inj h)
          exact ⟨u, rfl, hu.1, rfl, hu.2⟩
      · next hu =>
          obtain ⟨⟨b, a⟩, hcut, heq⟩ := Option.map_eq_some_iff.1 h
          obtain ⟨rfl, rfl⟩ := Prod.mk.inj heq
          obtain ⟨t, rfl, ht, hhide, hdepth⟩ := ih hcut
          refine ⟨t, rfl, ht, ?_, hdepth⟩
          have hcolon : (u.kind == .colon && depth == 0) = false := by
            rw [Bool.eq_false_iff]
            intro hboth
            exact hu (by simpa using hboth)
          simp only [List.map_cons, Kind.hidesColons, hcolon, hhide, Bool.not_false, Bool.and_self]

theorem exists_of_ofTokens {tokens : List Token} {p : Span} {d : Declaration}
    (h : ofTokens? tokens p = some d) :
    ∃ before t after, tokens = before ++ t :: after ∧ t.kind = .colon ∧
      d = classified (Token.render before) (Token.render after) p := by
  obtain ⟨⟨before, after⟩, hcut, hd⟩ := Option.bind_eq_some_iff.1 h
  obtain ⟨t, rfl, ht, -, -⟩ := cutColon?_spec hcut
  simp only at hd
  split at hd
  · cases hd
  · exact ⟨before, t, after, rfl, ht, (Option.some.inj hd).symm⟩

end Declaration

theorem Sheet.mem_extendRule {rule : Rule} {tokens : List Token} {d : Declaration}
    (h : d ∈ (extendRule rule tokens).1.declarations) :
    d ∈ rule.declarations ∨
      ∃ t, Token.firstSolid? tokens = some t ∧ Declaration.ofTokens? tokens t.span = some d := by
  rcases List.mem_append.1 h with h | h
  · exact .inl h
  · unfold clauseContent at h
    split at h
    · cases h
    · next t ht =>
        split at h
        · next e he =>
            obtain rfl := List.mem_singleton.1 h
            exact .inr ⟨t, ht, he⟩
        · cases h

end RichStyle
