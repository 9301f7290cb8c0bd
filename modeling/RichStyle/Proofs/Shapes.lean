import RichStyle.Proofs.ImportTokens
import RichStyle.Proofs.Numerals

/-!
# The grammar of shapes

A shape is `circle`, or a call of `rounded-rect` or `polygon` with blanks around the parentheses and
inside them.  `Shape.Spelled` writes these texts out, and reading a shape accepts exactly them.
-/

namespace RichStyle

open Text

/-! ## Calls -/

namespace Value

/-- The text of a call, with blanks in front of the parentheses and around the argument. -/
def call (name : List Char) (gap lead : Blanks) (argument : List Char) (trail : Blanks) : List Char :=
  name ++ (gap.1 ++ '(' :: (lead.1 ++ (argument ++ trail.1) ++ [')']))

theorem argument?_call (name : List Char) (gap lead : Blanks) {argument : List Char} (trail : Blanks)
    (h : Unpadded argument) : argument? name (call name gap lead argument trail) = some argument := by
  have hopen : trimStart (gap.1 ++ '(' :: (lead.1 ++ (argument ++ trail.1) ++ [')'])) =
      ['('] ++ (lead.1 ++ (argument ++ trail.1) ++ [')']) := by
    rw [trimStart, List.dropWhile_append_of_pos gap.2, List.dropWhile_cons_of_neg (by decide)]
    rfl
  unfold argument? call
  rw [dropLeading?_eq_some_iff.2 rfl]
  simp only [bind, Option.bind]
  rw [hopen, dropLeading?_eq_some_iff.2 rfl]
  simp only
  rw [dropTrailing?_eq_some_iff.2 rfl]
  simp only
  rw [Lexeme.trim_of_unpadded h lead.2 trail.2]

/-- The argument of a call is the text between its parentheses without the blanks around it. -/
theorem argument?_eq_some_iff {name value argument : List Char} :
    argument? name value = some argument ↔
      ∃ gap lead trail, Unpadded argument ∧ value = call name gap lead argument trail := by
  constructor
  · intro h
    have hpad := unpadded_argument h
    obtain ⟨afterName, hname, h⟩ := Option.bind_eq_some_iff.1 h
    obtain ⟨opened, hopened, h⟩ := Option.bind_eq_some_iff.1 h
    obtain ⟨inside, hinside, h⟩ := Option.bind_eq_some_iff.1 h
    obtain rfl := Option.some.inj h
    obtain ⟨gap, hgap, hblank⟩ := Source.exists_trimStart afterName
    obtain ⟨lead, trail, htrim, hlead, htrail⟩ := Source.exists_trim inside
    rw [dropLeading?_eq_some_iff.1 hopened, dropTrailing?_eq_some_iff.1 hinside] at hgap
    refine ⟨⟨gap, hblank⟩, ⟨lead, hlead⟩, ⟨trail, htrail⟩, hpad, ?_⟩
    rw [dropLeading?_eq_some_iff.1 hname, hgap, call, ← htrim]
    rfl
  · rintro ⟨gap, lead, trail, hpad, rfl⟩
    exact argument?_call name gap lead trail hpad

theorem head?_call (name : List Char) (hname : name ≠ []) (gap lead : Blanks)
    (argument : List Char) (trail : Blanks) : (call name gap lead argument trail).head? = name.head? := by
  obtain ⟨c, rest, rfl⟩ := List.exists_cons_of_ne_nil hname
  rfl

/-- A text that starts otherwise than the name is no call. -/
theorem argument?_eq_none {name value : List Char} (hname : name ≠ [])
    (h : value.head? ≠ name.head?) : argument? name value = none := by
  rw [Option.eq_none_iff_forall_ne_some]
  intro argument hargument
  obtain ⟨gap, lead, trail, -, rfl⟩ := argument?_eq_some_iff.1 hargument
  exact h (head?_call name hname gap lead argument trail)

end Value

namespace Shape

open Value

/-! ## Texts of shapes -/

/-- The texts that stand for a shape. -/
inductive Spelled : List Char → Shape → Prop
  | circle : Spelled "circle".toList circle
  | roundedRect (gap lead : Blanks) {radius : List Char} (trail : Blanks) (hne : radius ≠ [])
      (hpad : Unpadded radius) :
      Spelled (call "rounded-rect".toList gap lead radius trail) (roundedRect (String.ofList radius))
  | polygon (gap lead : Blanks) {sign digits : List Char} (trail : Blanks)
      (hsign : sign = [] ∨ sign = ['+']) (hne : digits ≠ [])
      (hdigits : ∀ c ∈ digits, c.isDigit = true) (hleast : 3 ≤ Number.value digits)
      (hmost : Number.value digits ≤ 1000) :
      Spelled (call "polygon".toList gap lead (sign ++ digits) trail) (polygon (Number.value digits))

theorem unpadded_count {sign digits : List Char} (hsign : sign = [] ∨ sign = ['+'])
    (hdigits : ∀ c ∈ digits, c.isDigit = true) : Unpadded (sign ++ digits) := by
  refine unpadded_of_isOrdinary (isOrdinary_append ?_ (isOrdinary_of_digits hdigits))
  rcases hsign with rfl | rfl <;> decide

/-- The sides of a polygon are counted by the number in its parentheses. -/
theorem sides?_eq_some_iff {value : List Char} {sides : Nat} :
    sides? value = some sides ↔
      ∃ gap lead trail, ∃ sign digits : List Char, (sign = [] ∨ sign = ['+']) ∧ digits ≠ [] ∧
        (∀ c ∈ digits, c.isDigit = true) ∧ Number.value digits = sides ∧ sides < 2 ^ 64 ∧
          value = call "polygon".toList gap lead (sign ++ digits) trail := by
  unfold sides?
  rw [Option.bind_eq_some_iff]
  constructor
  · rintro ⟨argument, hargument, hcount⟩
    obtain ⟨gap, lead, trail, -, rfl⟩ := argument?_eq_some_iff.1 hargument
    obtain ⟨sign, digits, hsign, rfl, hne, hdigits, hvalue, hlt⟩ := Number.count?_eq_some_iff.1 hcount
    exact ⟨gap, lead, trail, sign, digits, hsign, hne, hdigits, hvalue, hlt, rfl⟩
  · rintro ⟨gap, lead, trail, sign, digits, hsign, hne, hdigits, hvalue, hlt, rfl⟩
    exact ⟨sign ++ digits, argument?_call _ gap lead trail (unpadded_count hsign hdigits),
      Number.count?_eq_some_iff.2 ⟨sign, digits, hsign, rfl, hne, hdigits, hvalue, hlt⟩⟩

theorem spelled_of_read? {value : List Char} {shape : Shape} (h : read? value = some shape) :
    Spelled value shape := by
  unfold read? at h
  split at h
  · next hcircle =>
      obtain rfl := Option.some.inj h
      rw [hcircle]
      exact .circle
  · split at h
    · next radius hradius =>
        split at h
        · cases h
        · next hne =>
            obtain rfl := Option.some.inj h
            obtain ⟨gap, lead, trail, hpad, rfl⟩ := argument?_eq_some_iff.1 hradius
            exact .roundedRect gap lead trail (by simpa using hne) hpad
    · split at h
      · next sides hsides =>
          split at h
          · next hbounds =>
              obtain rfl := Option.some.inj h
              obtain ⟨gap, lead, trail, sign, digits, hsign, hne, hdigits, rfl, -, rfl⟩ :=
                sides?_eq_some_iff.1 hsides
              exact .polygon gap lead trail hsign hne hdigits hbounds.1 hbounds.2
          · cases h
      · cases h

theorem read?_of_spelled {value : List Char} {shape : Shape} (h : Spelled value shape) :
    read? value = some shape := by
  unfold read?
  -- the three forms start with different letters, so that no text is taken for another form
  cases h with
  | circle => rfl
  | @roundedRect gap lead radius trail hne hpad =>
      have hhead := head?_call "rounded-rect".toList (by simp) gap lead radius trail
      have hcircle : call "rounded-rect".toList gap lead radius trail ≠ "circle".toList := by
        intro heq
        rw [heq] at hhead
        exact absurd hhead (by decide)
      rw [if_neg hcircle, argument?_call _ gap lead trail hpad]
      simp [hne]
  | @polygon gap lead sign digits trail hsign hne hdigits hleast hmost =>
      have hhead := head?_call "polygon".toList (by simp) gap lead (sign ++ digits) trail
      have hcircle : call "polygon".toList gap lead (sign ++ digits) trail ≠ "circle".toList := by
        intro heq
        rw [heq] at hhead
        exact absurd hhead (by decide)
      have hrect : argument? "rounded-rect".toList
          (call "polygon".toList gap lead (sign ++ digits) trail) = none := by
        refine argument?_eq_none (by simp) ?_
        rw [hhead]
        decide
      have hlt : Number.value digits < 2 ^ 64 := by omega
      have hsides := sides?_eq_some_iff.2
        ⟨gap, lead, trail, sign, digits, hsign, hne, hdigits, rfl, hlt, rfl⟩
      rw [if_neg hcircle, hrect]
      simp only [hsides]
      exact if_pos ⟨hleast, hmost⟩

/--
A shape is read from exactly the texts that are written out for it, and all other texts are refused.
-/
theorem read?_spelled (value : List Char) :
    (∀ shape, read? value = some shape ↔ Spelled value shape) ∧
      (read? value = none ↔ ∀ shape, ¬ Spelled value shape) := by
  have hread : ∀ shape, read? value = some shape ↔ Spelled value shape :=
    fun _ => ⟨spelled_of_read?, read?_of_spelled⟩
  refine ⟨hread, ?_⟩
  rw [Option.eq_none_iff_forall_ne_some]
  exact forall_congr' fun shape => not_congr (hread shape)

end Shape

end RichStyle
