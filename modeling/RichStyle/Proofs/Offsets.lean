import RichStyle.Proofs.Warnings

/-!
# Byte offsets of tokens

A token gets its place by stepping along the text, one character after the other.  `Span.locate?`
finds a place from an offset in bytes, by counting line feeds and characters.  A token starts at the
offset that the texts in front of it take up, and there both agree.
-/

namespace RichStyle

/-! ## Bytes of a text -/

namespace Text

/-- The number of bytes of a text in UTF-8. -/
def byteSize (s : List Char) : Nat :=
  (String.ofList s).utf8ByteSize

@[simp] theorem byteSize_append (s t : List Char) :
    byteSize (s ++ t) = byteSize s + byteSize t := by
  rw [byteSize, String.ofList_append, String.utf8ByteSize_append]
  rfl

@[simp] theorem byteSize_cons (c : Char) (s : List Char) :
    byteSize (c :: s) = c.utf8Size + byteSize s := by
  have hsingle : byteSize [c] = c.utf8Size := by
    rw [byteSize, ← String.singleton_eq_ofList, String.utf8ByteSize_singleton]
  rw [← hsingle, ← byteSize_append, List.singleton_append]

theorem byteSize_pos {s : List Char} (h : s ≠ []) : 0 < byteSize s := by
  obtain ⟨c, rest, rfl⟩ := List.exists_cons_of_ne_nil h
  rw [byteSize_cons]
  exact Nat.add_pos_left c.utf8Size_pos _

theorem byteSize_toList (s : String) : byteSize s.toList = s.utf8ByteSize := by
  rw [byteSize, String.ofList_toList]

end Text

open Text

namespace Span

/-! ## Counting and stepping -/

theorem step_after (s : List Char) (c : Char) : (after s).step c = after (s ++ [c]) := by
  unfold step after
  rw [List.reverse_append, List.reverse_singleton, List.singleton_append, List.count_append]
  by_cases hc : c = '\n'
  · subst hc
    simp
  · simp [hc]

/-- What is counted after a text is where stepping along it leads. -/
theorem advance_start (s : List Char) : start.advance s = after s := by
  suffices h : ∀ before : List Char, (after before).advance s = after (before ++ s) from h []
  induction s with
  | nil => intro before; simp
  | cons c s ih =>
      intro before
      rw [advance_cons, step_after, ih, List.append_assoc, List.singleton_append]

/-! ## Cuts between characters -/

/-- A cut takes the characters that fill it exactly, or the whole of a text that does not reach it. -/
theorem takeBytes?_eq_some_iff {s taken : List Char} {n : Nat} :
    takeBytes? s n = some taken ↔
      (taken <+: s ∧ byteSize taken = n) ∨ (taken = s ∧ byteSize s ≤ n) := by
  induction s generalizing taken n with
  | nil =>
      rw [takeBytes?, List.prefix_nil]
      constructor
      · intro h
        exact .inr ⟨(Option.some.inj h).symm, Nat.zero_le n⟩
      · rintro (⟨rfl, -⟩ | ⟨rfl, -⟩) <;> rfl
  | cons c s ih =>
      have hpos := c.utf8Size_pos
      rw [takeBytes?]
      by_cases hn : n = 0
      · subst hn
        rw [if_pos rfl, byteSize_cons]
        constructor
        · intro h
          obtain rfl := Option.some.inj h
          exact .inl ⟨List.nil_prefix, rfl⟩
        · rintro (⟨-, hsize⟩ | ⟨-, hsize⟩)
          · cases taken with
            | nil => rfl
            | cons d taken =>
                have hd := d.utf8Size_pos
                rw [byteSize_cons] at hsize
                omega
          · omega
      · rw [if_neg hn]
        by_cases hfits : c.utf8Size ≤ n
        · rw [if_pos hfits, Option.map_eq_some_iff]
          constructor
          · rintro ⟨rest, hrest, rfl⟩
            rw [List.prefix_cons_inj, byteSize_cons, byteSize_cons, List.cons_inj_right]
            rcases ih.1 hrest with ⟨hlead, hsize⟩ | ⟨rfl, hsize⟩
            · exact .inl ⟨hlead, by omega⟩
            · exact .inr ⟨rfl, by omega⟩
          · rintro (⟨hlead, hsize⟩ | ⟨rfl, hsize⟩)
            · rcases List.prefix_cons_iff.1 hlead with rfl | ⟨rest, rfl, hrest⟩
              · exact absurd hsize.symm hn
              · rw [byteSize_cons] at hsize
                exact ⟨rest, ih.2 (.inl ⟨hrest, by omega⟩), rfl⟩
            · rw [byteSize_cons] at hsize
              exact ⟨s, ih.2 (.inr ⟨rfl, by omega⟩), rfl⟩
        · rw [if_neg hfits]
          constructor
          · intro h
            cases h
          · rintro (⟨hlead, hsize⟩ | ⟨-, hsize⟩)
            · rcases List.prefix_cons_iff.1 hlead with rfl | ⟨rest, rfl, -⟩
              · exact absurd hsize.symm hn
              · rw [byteSize_cons] at hsize
                omega
            · rw [byteSize_cons] at hsize
              omega

/-- An offset has a place exactly if it lies between characters or behind the text. -/
theorem isSome_locate?_iff {source : String} {offset : Nat} :
    (locate? source.toList offset).isSome = true ↔
      String.Pos.Raw.IsValid source ⟨offset⟩ ∨ source.utf8ByteSize ≤ offset := by
  rw [locate?, Option.isSome_map, Option.isSome_iff_exists, String.Pos.Raw.isValid_iff_exists_append]
  simp only [takeBytes?_eq_some_iff, ← byteSize_toList]
  constructor
  · rintro ⟨taken, ⟨⟨rest, hrest⟩, hsize⟩ | ⟨-, hsize⟩⟩
    · refine .inl ⟨String.ofList taken, String.ofList rest, ?_, ?_⟩
      · rw [← String.ofList_append, hrest, String.ofList_toList]
      · rw [← hsize]
        rfl
    · exact .inr hsize
  · rintro (⟨before, rest, rfl, hoffset⟩ | hsize)
    · refine ⟨before.toList, .inl ⟨?_, ?_⟩⟩
      · rw [String.toList_append]
        exact List.prefix_append _ _
      · rw [byteSize_toList]
        exact (congrArg String.Pos.Raw.byteIdx hoffset).symm
    · exact ⟨source.toList, .inr ⟨rfl, hsize⟩⟩

/-- Behind a first part of a text, counting finds the place to which stepping leads. -/
theorem locate?_append (s t : List Char) :
    locate? (s ++ t) (byteSize s) = some (start.advance s) := by
  have hcut : takeBytes? (s ++ t) (byteSize s) = some s :=
    takeBytes?_eq_some_iff.2 (.inl ⟨List.prefix_append s t, rfl⟩)
  rw [locate?, hcut, Option.map_some, advance_start]

end Span

namespace Token

/-! ## Tokens and their offsets -/

/-- The number of bytes of some tokens. -/
def bytes : List Token → Nat
  | [] => 0
  | t :: tokens => byteSize t.text + bytes tokens

theorem bytes_eq (tokens : List Token) :
    bytes tokens = byteSize (Lexeme.join (tokens.map Token.toLexeme)) := by
  induction tokens with
  | nil => rfl
  | cons t tokens ih =>
      rw [bytes, List.map_cons, Lexeme.join_cons, byteSize_append, ih]

/-- The texts of tokens are the text, and a token is placed where those in front of it lead. -/
theorem ofText_cut {s : List Char} {before later : List Token} {t : Token}
    (h : ofText s = before ++ t :: later) :
    s = Lexeme.join (before.map Token.toLexeme) ++
        Lexeme.join ((t :: later).map Token.toLexeme) ∧
      t.span = Span.start.advance (Lexeme.join (before.map Token.toLexeme)) := by
  have hlexemes : Lexeme.split s =
      before.map Token.toLexeme ++ (t :: later).map Token.toLexeme := by
    rw [← place_map_toLexeme .start (Lexeme.split s), ← List.map_append, ← h]
    rfl
  have htext := Lexeme.join_split s
  rw [hlexemes, Lexeme.join_append] at htext
  refine ⟨htext.symm, ?_⟩
  rw [ofText, hlexemes, place_append] at h
  have hlength : (place .start (before.map Token.toLexeme)).length = before.length := by
    rw [← List.length_map Token.toLexeme, place_map_toLexeme, List.length_map]
  have hrest := (List.append_inj h hlength).2
  rw [List.map_cons, place] at hrest
  exact (congrArg Token.span (List.cons.inj hrest).1).symm

theorem text_ne_nil_of_ofText {s : List Char} {t : Token} (h : t ∈ ofText s) : t.text ≠ [] := by
  refine text_ne_nil_of_split s t.toLexeme ?_
  rw [← place_map_toLexeme .start (Lexeme.split s)]
  exact List.mem_map_of_mem h

/--
The byte offset at which a token starts lies between two characters of the source and is located
where the token is placed, and tokens are placed one after the other.
-/
theorem span_located (source : String) :
    (∀ before t later, ofText source.toList = before ++ t :: later →
      String.Pos.Raw.IsValid source ⟨bytes before⟩ ∧
        Span.locate? source.toList (bytes before) = some t.span) ∧
      (ofText source.toList).Pairwise fun t u => t.span.Before u.span := by
  refine ⟨fun before t later h => ?_, pairwise_ofText source.toList⟩
  obtain ⟨htext, hspan⟩ := ofText_cut h
  have hlocated : Span.locate? source.toList (bytes before) = some t.span := by
    rw [bytes_eq, hspan, htext]
    exact Span.locate?_append _ _
  refine ⟨?_, hlocated⟩
  -- an offset behind the source is located as well, but the token has bytes of its own
  have hne : t.text ≠ [] := text_ne_nil_of_ofText (s := source.toList) (by simp [h])
  have hinside : bytes before < source.utf8ByteSize := by
    have hpos := byteSize_pos hne
    rw [← byteSize_toList, htext, byteSize_append, ← bytes_eq, List.map_cons, Lexeme.join_cons,
      byteSize_append]
    omega
  have hplace := Span.isSome_locate?_iff.1 (Option.isSome_of_eq_some hlocated)
  exact hplace.resolve_right (Nat.not_le.2 hinside)

/-- A string over two lines and a comment, with characters of two and of four bytes. -/
theorem span_located_wide :
    let source := "é\"ü\n😀\"/*\n*/x"
    let before : List Token := [⟨⟨.plain, ['é']⟩, ⟨1, 1⟩⟩,
      ⟨⟨.quoted, ['"', 'ü', '\n', '😀', '"']⟩, ⟨1, 2⟩⟩, ⟨⟨.comment, "/*\n*/".toList⟩, ⟨2, 3⟩⟩]
    let t : Token := ⟨⟨.plain, ['x']⟩, ⟨3, 3⟩⟩
    ofText source.toList = before ++ [t] ∧ bytes before = 16 ∧
      String.Pos.Raw.IsValid source ⟨16⟩ ∧ Span.locate? source.toList 16 = some ⟨3, 3⟩ := by
  intro source before t
  have h : ofText source.toList = before ++ [t] := by decide +kernel
  have hbytes : bytes before = 16 := by decide +kernel
  have hlocated := (span_located source).1 before t [] h
  rw [hbytes] at hlocated
  exact ⟨h, hbytes, hlocated⟩

end Token

end RichStyle
