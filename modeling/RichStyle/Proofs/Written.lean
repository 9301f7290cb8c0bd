import RichStyle.Proofs.Printing

/-!
# What a reading gives

Selectors, properties and values are written out from the tokens of clauses, and so are orderly
texts.  Every reading gives rules of this form.
-/

namespace RichStyle

open Text
open Source (Absent startsBlank)

/-- Declarations whose property and value are written out from tokens. -/
structure Declaration.Written (d : Declaration) : Prop where
  property : ∃ marks, Orderly marks d.property.toList ∧
    Kind.depthAfter? 0 marks = some 0 ∧ Kind.hidesColons 0 marks = true
  property_unpadded : Unpadded d.property.toList
  property_ne : d.property ≠ ""
  value : ∃ marks, Orderly marks d.value.toList
  value_start : startsBlank d.value.toList = false

/-- Rules whose selector and declarations are written out from tokens. -/
structure Rule.Written (r : Rule) : Prop where
  selector : ∃ marks, Orderly marks r.selector.toList ∧
    ∃ depth, Kind.depthAfter? 0 marks = some depth
  selector_unpadded : Unpadded r.selector.toList
  selector_ne : r.selector ≠ ""
  declarations : ∀ d ∈ r.declarations, d.Written

/-- Declarations as they are read: the value has no blanks at its ends and no semicolon that would
have ended it, and the property says whether the declaration is rich. -/
structure Declaration.AsRead (d : Declaration) : Prop extends d.Written where
  value_unpadded : Unpadded d.value.toList
  value_open : ∃ marks, Orderly marks d.value.toList ∧
    ∃ depth, Kind.depthAfter? 0 marks = some depth
  rich_eq : d.rich = Property.isRich d.property

/-- Rules as they are read. -/
structure Rule.AsRead (r : Rule) : Prop extends r.Written where
  asRead : ∀ d ∈ r.declarations, d.AsRead

theorem Kind.not_brace_of_depthAfter? {depth final : Nat} {ks : List Kind}
    (h : depthAfter? depth ks = some final) : ∀ k ∈ ks, k ≠ openBrace ∧ k ≠ closeBrace := by
  induction ks generalizing depth with
  | nil => simp
  | cons k ks ih =>
      rw [depthAfter?] at h
      split at h
      · contradiction
      · next hk =>
          refine List.forall_mem_cons.2 ⟨⟨?_, ?_⟩, ih h⟩
          · rintro rfl
            contradiction
          · rintro rfl
            contradiction

theorem except_bind_eq_ok {ε α β : Type} {x : Except ε α} {f : α → Except ε β} {b : β} :
    x >>= f = .ok b ↔ ∃ a, x = .ok a ∧ f a = .ok b := by
  cases x with
  | error e => simp [bind, Except.bind]
  | ok a => simp [bind, Except.bind]

/-! ## Sound clauses -/

/-- Clauses of whole tokens, none of which ends the clause. -/
structure Clause.Sound (c : Clause) : Prop where
  whole : ∀ t ∈ c.body, Lexeme.Whole t.toLexeme
  depth : ∃ final, Kind.depthAfter? 0 (c.body.map (·.kind)) = some final

/-- The clauses of a text are sound: what is not whole stands after the last mark. -/
theorem Clauses.sound_of_split {s : List Char} {before tokens : List Token}
    (h : (before ++ tokens).map Token.toLexeme = Lexeme.split s) :
    ∀ c ∈ (split 0 tokens).ended, c.Sound := by
  induction hn : tokens.length using Nat.strongRecOn generalizing before tokens with
  | _ n ih =>
      rcases exists_ended 0 tokens with ⟨final, hdepth⟩ | ⟨body, t, rest, final, e, rfl, hdepth, ht⟩
      · rw [split_tail hdepth]
        simp
      · rw [split_ended hdepth ht]
        refine List.forall_mem_cons.2 ⟨⟨fun u hu => ?_, final, hdepth⟩, ?_⟩
        · have hcut : Lexeme.split s = (before ++ body).map Token.toLexeme ++
              t.toLexeme :: rest.map Token.toLexeme := by
            rw [← h]
            simp
          exact Lexeme.split_whole hcut _ (List.mem_map_of_mem (List.mem_append_right _ hu))
        · have hlt : rest.length < n := by
            simp [← hn]
            omega
          have hrest : (before ++ body ++ [t] ++ rest).map Token.toLexeme = Lexeme.split s := by
            rw [← h]
            simp
          exact ih rest.length hlt hrest rfl

theorem Clause.Sound.render {tokens : List Token}
    (hwhole : ∀ t ∈ tokens, Lexeme.Whole t.toLexeme) {depth final : Nat}
    (hdepth : Kind.depthAfter? depth (tokens.map (·.kind)) = some final) :
    Orderly ((tokens.map (·.kind)).filter Kind.isMark) (Token.render tokens).toList ∧
      Unpadded (Token.render tokens).toList := by
  refine Token.orderly_render hwhole fun t ht => ?_
  exact Kind.not_brace_of_depthAfter? hdepth t.kind (List.mem_map_of_mem ht)

/-! ## Sound clauses give written rules -/

theorem Declaration.asRead_of_tokens {tokens : List Token} {p : Span} {d : Declaration}
    {final : Nat} (hwhole : ∀ t ∈ tokens, Lexeme.Whole t.toLexeme)
    (hdepth : Kind.depthAfter? 0 (tokens.map (·.kind)) = some final)
    (h : ofTokens? tokens p = some d) : d.AsRead := by
  obtain ⟨⟨before, after⟩, hcut, hd⟩ := Option.bind_eq_some_iff.1 h
  obtain ⟨t, rfl, ht, hhide, hzero⟩ := cutColon?_spec hcut
  simp only at hd
  split at hd
  · contradiction
  next hne =>
    obtain rfl := Option.some.inj hd
    rw [List.map_append, Kind.depthAfter?_append] at hdepth
    obtain ⟨mid, hbefore, hrest⟩ := Option.bind_eq_some_iff.1 hdepth
    obtain rfl : 0 = mid := by rw [← hzero, Kind.depthAfter?_eq_foldl hbefore]
    have hafter : Kind.depthAfter? 0 (after.map (·.kind)) = some final := by
      simpa [Kind.depthAfter?, ht, Ending.of?, Kind.parenDepth] using hrest
    obtain ⟨hproperty, hpad⟩ := Clause.Sound.render (fun u hu => hwhole u (by simp [hu])) hbefore
    obtain ⟨hvalue, hvaluePad⟩ := Clause.Sound.render (fun u hu => hwhole u (by simp [hu])) hafter
    refine ⟨⟨⟨_, hproperty, ?_, ?_⟩, hpad, ?_, ⟨_, hvalue⟩, hvaluePad.start⟩, hvaluePad,
      ⟨_, hvalue, final, ?_⟩, ?_⟩
    · rw [Kind.depthAfter?_filter, hbefore]
    · rw [Kind.hidesColons_filter, hhide]
    · simpa [classified] using hne
    · rw [Kind.depthAfter?_filter, hafter]
    · simp only [classified]

namespace Sheet

theorem extendRule_asRead {rule : Rule} {c : Clause} (hrule : rule.AsRead) (hc : c.Sound) :
    (extendRule rule c.body).1.AsRead := by
  obtain ⟨final, hdepth⟩ := hc.depth
  have hcontent : ∀ d ∈ (clauseContent rule.selector c.body).1, d.AsRead := by
    intro d hd
    unfold clauseContent at hd
    split at hd
    · simp at hd
    · split at hd
      · next e he =>
          obtain rfl : d = e := by simpa using hd
          exact Declaration.asRead_of_tokens hc.whole hdepth he
      · simp at hd
  have hall : ∀ d ∈ (extendRule rule c.body).1.declarations, d.AsRead := by
    intro d hd
    rcases List.mem_append.1 hd with hd | hd
    · exact hrule.asRead d hd
    · exact hcontent d hd
  exact ⟨⟨hrule.selector, hrule.selector_unpadded, hrule.selector_ne,
    fun d hd => (hall d hd).toWritten⟩, hall⟩

/-- The rule that is being read, if there is one, is as read so far. -/
def Scope.AsRead : Scope → Prop
  | .outside => True
  | .inside rule | .nested rule _ => rule.AsRead

theorem asRead_of_selector {c : Clause} (hc : c.Sound) (hne : Token.render c.body ≠ "") :
    Rule.AsRead ⟨Token.render c.body, [], c.start⟩ := by
  obtain ⟨final, hdepth⟩ := hc.depth
  obtain ⟨horderly, hpad⟩ := Clause.Sound.render hc.whole hdepth
  refine ⟨⟨⟨_, horderly, final, ?_⟩, hpad, hne, by simp⟩, by simp⟩
  rw [Kind.depthAfter?_filter, hdepth]

/-- Reading sound clauses gives rules as read. -/
theorem build_asRead {tail : List Token} {scope : Scope} {cs : List Clause} {built : Built}
    (hscope : Scope.AsRead scope) (hcs : ∀ c ∈ cs, c.Sound)
    (h : build tail scope cs = .ok built) : ∀ r ∈ built.rules, r.AsRead := by
  fun_induction build tail scope cs generalizing built
  case case1 =>
    obtain rfl := Except.ok.inj h
    simp [Built.empty]
  case case5 c cs text hend ih =>
    obtain ⟨b, hb, hbuilt⟩ := except_bind_eq_ok.1 h
    obtain rfl := Except.ok.inj hbuilt
    have hrules := ih trivial (List.forall_mem_cons.1 hcs).2 hb
    exact hrules
  case case8 c cs text hend hne ih =>
    obtain ⟨hc, hcs⟩ := List.forall_mem_cons.1 hcs
    exact ih (asRead_of_selector hc (by simpa [text] using hne)) hcs h
  case case9 rule c cs hend extended ih =>
    obtain ⟨hc, hcs⟩ := List.forall_mem_cons.1 hcs
    obtain ⟨b, hb, hbuilt⟩ := except_bind_eq_ok.1 h
    obtain rfl := Except.ok.inj hbuilt
    have hrules := ih (extendRule_asRead hscope hc) hcs hb
    exact hrules
  case case10 rule c cs hend extended ih =>
    obtain ⟨hc, hcs⟩ := List.forall_mem_cons.1 hcs
    obtain ⟨b, hb, hbuilt⟩ := except_bind_eq_ok.1 h
    obtain rfl := Except.ok.inj hbuilt
    exact List.forall_mem_cons.2 ⟨extendRule_asRead hscope hc, ih trivial hcs hb⟩
  case case11 rule c cs hend finding ih =>
    obtain ⟨b, hb, hbuilt⟩ := except_bind_eq_ok.1 h
    obtain rfl := Except.ok.inj hbuilt
    have hrules := ih hscope (List.forall_mem_cons.1 hcs).2 hb
    exact hrules
  case case12 ih | case13 ih | case14 ih | case15 ih =>
    exact ih hscope (List.forall_mem_cons.1 hcs).2 h
  -- the remaining cases are faults
  all_goals contradiction

/-- Every rule of a source is as read. -/
theorem read_asRead {source : List Char} {reading : Reading} (h : read source = .ok reading) :
    ∀ r ∈ reading.sheet.rules, r.AsRead := by
  obtain ⟨prepared, hprepared, h⟩ := except_bind_eq_ok.1 h
  obtain ⟨built, hbuilt, h⟩ := except_bind_eq_ok.1 h
  obtain rfl := Except.ok.inj h
  have hplace : ([] ++ Token.ofText prepared.text).map Token.toLexeme =
      Lexeme.split prepared.text := Token.place_map_toLexeme .start _
  have hscope : Scope.AsRead .outside := trivial
  exact build_asRead hscope (Clauses.sound_of_split hplace) hbuilt

end Sheet

end RichStyle
