import RichStyle.Proofs.Grammar
import RichStyle.Proofs.Modes
import RichStyle.Proofs.Origins

/-!
# Tokens of a text without its comments

Where a comment is taken out, its neighbours move together.  Line feeds of the comment keep them
apart; without a line feed two runs of ordinary characters become one.  Nothing else happens to the
tokens of a text, unless a slash comes to stand in front of a star.
-/

namespace RichStyle

open Text

namespace Lexeme

/-! ## Lexemes that move together -/

/-- What a comment leaves behind is a blank of its line feeds, if it has any. -/
def stripped? (l : Lexeme) : Option Lexeme :=
  if l.kind = .comment then
    if '\n' ∈ l.text then some ⟨.blank, l.uncommented⟩ else none
  else some l

/-- Two runs of one kind. -/
def sameRun (l m : Lexeme) : Bool :=
  l.kind == m.kind && (l.kind == .plain || l.kind == .blank)

/-- Puts a lexeme in front of others; it becomes one with a run of its own kind. -/
def attach (l : Lexeme) : List Lexeme → List Lexeme
  | [] => [l]
  | m :: lexemes =>
      if sameRun l m then ⟨l.kind, l.text ++ m.text⟩ :: lexemes else l :: m :: lexemes

/-- Makes one run of runs of one kind that stand side by side. -/
def fuse (lexemes : List Lexeme) : List Lexeme :=
  lexemes.foldr attach []

/-- A slash and a star that would open a comment if two lexemes came to stand side by side. -/
def opensComment (l m : Lexeme) : Prop :=
  l.text.getLast? = some '/' ∧ m.text.head? = some '*'

instance (l m : Lexeme) : Decidable (opensComment l m) :=
  inferInstanceAs (Decidable (_ ∧ _))

/-- Two runs of ordinary characters with only comments between them, none with a line feed. -/
def Meets (lexemes : List Lexeme) (l m : Lexeme) : Prop :=
  l.kind = .plain ∧ m.kind = .plain ∧ ∃ before between after,
    lexemes = before ++ l :: (between ++ m :: after) ∧
      ∀ k ∈ between, k.kind = .comment ∧ '\n' ∉ k.text

@[simp] theorem fuse_cons (l : Lexeme) (lexemes : List Lexeme) :
    fuse (l :: lexemes) = attach l (fuse lexemes) := rfl

theorem stripped?_eq_none_iff {l : Lexeme} :
    l.stripped? = none ↔ l.kind = .comment ∧ '\n' ∉ l.text := by
  unfold stripped?
  by_cases hk : l.kind = .comment <;> by_cases hf : '\n' ∈ l.text <;> simp [hk, hf]

theorem stripped?_of_ne {l : Lexeme} (h : l.kind ≠ .comment) : l.stripped? = some l := by
  simp [stripped?, h]

/-- The ways in which a lexeme leaves something behind. -/
theorem stripped_cases {l m : Lexeme} (h : l.stripped? = some m) :
    (l.kind ≠ .comment ∧ l = m) ∨
      (l.kind = .comment ∧ '\n' ∈ l.text ∧ m = ⟨.blank, l.uncommented⟩) := by
  unfold stripped? at h
  by_cases hk : l.kind = .comment
  · by_cases hf : '\n' ∈ l.text
    · rw [if_pos hk, if_pos hf] at h
      exact .inr ⟨hk, hf, (Option.some.inj h).symm⟩
    · simp [hk, hf] at h
  · rw [if_neg hk] at h
    exact .inl ⟨hk, Option.some.inj h⟩

theorem not_comment_of_stripped {l m : Lexeme} (h : l.stripped? = some m) : m.kind ≠ .comment := by
  rcases stripped_cases h with ⟨hk, rfl⟩ | ⟨-, -, rfl⟩
  · exact hk
  · simp

theorem eq_of_stripped {l m : Lexeme} (h : l.stripped? = some m) (hm : m.kind = .plain) : l = m := by
  rcases stripped_cases h with ⟨-, rfl⟩ | ⟨-, -, rfl⟩
  · rfl
  · cases hm

theorem uncommented_of_stripped {l m : Lexeme} (h : l.stripped? = some m) :
    l.uncommented = m.text := by
  rcases stripped_cases h with ⟨hk, rfl⟩ | ⟨-, -, rfl⟩
  · simp [uncommented, hk]
  · rfl

theorem uncommented_ne_nil {l : Lexeme} (hk : l.kind = .comment) (hf : '\n' ∈ l.text) :
    l.uncommented ≠ [] := by
  simpa [uncommented, hk, List.count_eq_zero] using hf

theorem isBlank_uncommented {l : Lexeme} (hk : l.kind = .comment) :
    ∀ c ∈ l.uncommented, isBlank c = true := by
  intro c hc
  rw [uncommented, if_pos hk] at hc
  rw [(List.mem_replicate.1 hc).2]
  decide

/-- The pairs of ordinary runs that move together are those with only such comments between. -/
theorem chain_stripped_iff {R : Lexeme → Lexeme → Prop} (lexemes : List Lexeme) :
    (lexemes.filterMap stripped?).IsChain
        (fun l m => l.kind = .plain → m.kind = .plain → R l m) ↔
      ∀ l m, Meets lexemes l m → R l m := by
  constructor
  · rintro hchain l m ⟨hl, hm, before, between, after, rfl, hbetween⟩
    have hnone : between.filterMap stripped? = [] :=
      List.filterMap_eq_nil_iff.2 fun k hk => stripped?_eq_none_iff.2 (hbetween k hk)
    have hl' : l.stripped? = some l := stripped?_of_ne (by rw [hl]; decide)
    have hm' : m.stripped? = some m := stripped?_of_ne (by rw [hm]; decide)
    rw [List.filterMap_append, List.filterMap_cons_some hl', List.filterMap_append, hnone,
      List.nil_append, List.filterMap_cons_some hm'] at hchain
    exact (List.isChain_cons_cons.1 hchain.right_of_append).1 hl hm
  · intro hmeets
    induction lexemes with
    | nil => simp
    | cons k lexemes ih =>
        have hrest : ∀ l m, Meets lexemes l m → R l m := by
          rintro l m ⟨hl, hm, before, between, after, rfl, hbetween⟩
          exact hmeets l m ⟨hl, hm, k :: before, between, after, rfl, hbetween⟩
        cases hk : k.stripped? with
        | none =>
            rw [List.filterMap_cons_none hk]
            exact ih hrest
        | some l =>
            rw [List.filterMap_cons_some hk]
            refine List.isChain_cons.2 ⟨?_, ih hrest⟩
            intro m hm hl hplain
            -- the next lexeme that leaves something behind comes after comments that leave nothing
            rw [Option.mem_def, List.head?_filterMap] at hm
            obtain ⟨between, m', after, rfl, hm', hbetween⟩ := List.findSome?_eq_some_iff.1 hm
            obtain rfl := eq_of_stripped hk hl
            obtain rfl := eq_of_stripped hm' hplain
            exact hmeets k m' ⟨hl, hplain, [], between, after, rfl,
              fun c hc => stripped?_eq_none_iff.1 (hbetween c hc)⟩

/-! ## The lexemes of a text behind another lexeme -/

theorem plain_append {a b : List Char} (ha : Plain a) (hb : Plain b)
    (h : ¬ (a.getLast? = some '/' ∧ b.head? = some '*')) : Plain (a ++ b) := by
  constructor
  · intro c hc
    rcases List.mem_append.1 hc with hc | hc
    · exact ha.ordinary c hc
    · exact hb.ordinary c hc
  · intro hi
    rcases List.infix_append_iff.1 hi with hi | hi | ⟨u, v, huv, hu, hv⟩
    · exact ha.noComment hi
    · exact hb.noComment hi
    · -- the slash ends the first run and the star starts the second, or one run has both
      rcases List.cons_eq_append_iff.1 huv with ⟨rfl, rfl⟩ | ⟨w, rfl, hw⟩
      · exact hb.noComment hv.isInfix
      · rcases List.cons_eq_append_iff.1 hw with ⟨rfl, rfl⟩ | ⟨w, rfl, hw⟩
        · obtain ⟨x, rfl⟩ := hu
          obtain ⟨y, rfl⟩ := hv
          exact h (by simp)
        · obtain ⟨rfl, rfl⟩ : w = [] ∧ v = [] := by simpa using hw.symm
          exact ha.noComment hu.isInfix

/-- Two runs of one kind make one run. -/
theorem whole_append {l m : Lexeme} (hl : Whole l) (hm : Whole m) (hrun : sameRun l m = true)
    (h : l.kind = .plain → ¬ opensComment l m) : Whole ⟨l.kind, l.text ++ m.text⟩ := by
  obtain ⟨hkind, hl' | hl'⟩ : l.kind = m.kind ∧ (l.kind = .plain ∨ l.kind = .blank) := by
    simpa [sameRun] using hrun
  · have hplain := plain_append (hl.of_plain hl') (hm.of_plain (hkind ▸ hl')) (h hl')
    obtain ⟨c, s, ht⟩ := List.exists_cons_of_ne_nil hl.text_ne_nil
    rw [hl', ht, List.cons_append]
    rw [ht, List.cons_append] at hplain
    exact .plain hplain
  · have hblank : ∀ c ∈ l.text ++ m.text, isBlank c = true := by
      intro c hc
      rcases List.mem_append.1 hc with hc | hc
      · exact hl.of_blank hl' c hc
      · exact hm.of_blank (hkind ▸ hl') c hc
    obtain ⟨c, s, ht⟩ := List.exists_cons_of_ne_nil hl.text_ne_nil
    rw [hl', ht, List.cons_append]
    rw [ht, List.cons_append] at hblank
    exact .blank hblank

theorem follows_of_sameRun {l m : Lexeme} (h : sameRun l m = false) : Follows l m := by
  constructor
  · intro hl hm
    simp [sameRun, hl, hm] at h
  · intro hl hm
    simp [sameRun, hl, hm] at h

/-- A text behind a whole lexeme is cut as it is alone, but for a run that goes on in it. -/
theorem split_whole_append {l : Lexeme} (hl : Whole l) (r : List Char)
    (h : ∀ m ∈ (split r).head?, l.kind = .plain → m.kind = .plain → ¬ opensComment l m) :
    split (l.text ++ r) = attach l (split r) := by
  cases r with
  | nil =>
      rw [hl.split_append (stopsAt_nil l), split]
      rfl
  | cons c s =>
      have hcut : split (c :: s) = (first c s).1 :: split (first c s).2 := split.eq_2 c s
      have hform := first_form c s
      have hstop := first_stopsAt c s
      have hwhole := first_whole (c := c) (s := s)
      have htext := first_append c s
      rw [hcut] at h
      rw [hcut, attach]
      generalize first c s = found at *
      obtain ⟨m, rest⟩ := found
      cases hrun : sameRun l m with
      | false =>
          have hr : StopsAt l (c :: s) := by
            rw [← htext]
            rcases hform with hm | ⟨hrest, hm⟩
            · exact (follows_of_sameRun hrun).stopsAt hm.whole rest
            · rw [show rest = [] from hrest, List.append_nil]
              exact hm.stopsAt l
          rw [hl.split_append hr, hcut]
          simp
      | true =>
          have hkind : l.kind = m.kind ∧ (l.kind = .plain ∨ l.kind = .blank) := by
            simpa [sameRun] using hrun
          have hm : Whole m := by
            refine hwhole (.inr ?_)
            rcases hkind with ⟨hkind, hl' | hl'⟩ <;> simp [isClosed, ← hkind, hl']
          have hone := whole_append hl hm hrun fun hl' => h m (by simp) hl' (hkind.1 ▸ hl')
          have hr : StopsAt ⟨l.kind, l.text ++ m.text⟩ rest := by
            rw [hkind.1]
            exact hstop
          have hsplit := hone.split_append hr
          rw [← htext, ← List.append_assoc, hsplit]
          simp

/-! ## Removing comments -/

theorem exists_attach (l : Lexeme) (lexemes : List Lexeme) :
    ∃ s rest, attach l lexemes = ⟨l.kind, l.text ++ s⟩ :: rest := by
  cases lexemes with
  | nil => exact ⟨[], [], by simp [attach]⟩
  | cons m lexemes =>
      by_cases hrun : sameRun l m = true
      · exact ⟨m.text, lexemes, by simp [attach, hrun]⟩
      · exact ⟨[], m :: lexemes, by simp [attach, hrun]⟩

/-- Fusing leaves the kind and the first character of the first lexeme. -/
theorem head_fuse {lexemes : List Lexeme} (hne : ∀ l ∈ lexemes, l.text ≠ []) {m : Lexeme}
    (hm : m ∈ (fuse lexemes).head?) :
    ∃ l ∈ lexemes.head?, l.kind = m.kind ∧ l.text.head? = m.text.head? := by
  cases lexemes with
  | nil => simp [fuse] at hm
  | cons l lexemes =>
      obtain ⟨s, rest, hattach⟩ := exists_attach l (fuse lexemes)
      obtain ⟨c, t, ht⟩ := List.exists_cons_of_ne_nil (hne l (by simp))
      rw [fuse_cons, hattach] at hm
      obtain rfl : (⟨l.kind, l.text ++ s⟩ : Lexeme) = m := by simpa using hm
      exact ⟨l, by simp, rfl, by simp [ht]⟩

/-- What the first lexeme of a text leaves behind is whole, unless the text ends with it. -/
theorem form_of_stripped {c : Char} {s : List Char} {m : Lexeme}
    (hm : (first c s).1.stripped? = some m) : Whole m ∨ (first c s).2 = [] ∧ CutOff m := by
  rcases stripped_cases hm with ⟨-, rfl⟩ | ⟨hk, hf, rfl⟩
  · exact (first_form c s).imp_left Complete.whole
  · exact .inl (Complete.blank (uncommented_ne_nil hk hf) (isBlank_uncommented hk)).whole

theorem split_kept (s : List Char)
    (h : ((split s).filterMap stripped?).IsChain
      fun l m => l.kind = .plain → m.kind = .plain → ¬ opensComment l m) :
    split (Mode.code.kept s) = fuse ((split s).filterMap stripped?) := by
  fun_induction split s with
  | case1 => simp [fuse, split]
  | case2 c s ih =>
      rw [kept_first]
      cases hl : (first c s).1.stripped? with
      | none =>
          rw [List.filterMap_cons_none hl] at h ⊢
          have hnone := stripped?_eq_none_iff.1 hl
          rw [← ih h, uncommented, if_pos hnone.1, List.count_eq_zero_of_not_mem hnone.2]
          rfl
      | some m =>
          rw [List.filterMap_cons_some hl] at h ⊢
          rw [List.isChain_cons] at h
          rw [fuse_cons, ← ih h.2, uncommented_of_stripped hl]
          rcases form_of_stripped hl with hm | ⟨hrest, hm⟩
          · refine split_whole_append hm _ fun k hk hm hplain => ?_
            rw [ih h.2] at hk
            have hne : ∀ l ∈ (split (first c s).2).filterMap stripped?, l.text ≠ [] := by
              intro l hl
              obtain ⟨l', hl', hstrip⟩ := List.mem_filterMap.1 hl
              rcases stripped_cases hstrip with ⟨-, rfl⟩ | ⟨hk, hf, rfl⟩
              · exact Token.text_ne_nil_of_split _ l' hl'
              · exact uncommented_ne_nil hk hf
            obtain ⟨l, hl, hkind, hhead⟩ := head_fuse hne hk
            unfold opensComment
            rw [← hhead]
            exact h.1 l hl hm (hkind.trans hplain)
          · rw [hrest, Mode.kept_nil, List.append_nil, hm.split_text, split]
            rfl

/-! ## Tokens that mean something -/

/-- The lexemes that are neither blanks nor comments. -/
def solid (lexemes : List Lexeme) : List Lexeme :=
  lexemes.filter fun l => !l.kind.isTrivia

theorem solid_append (a b : List Lexeme) : solid (a ++ b) = solid a ++ solid b :=
  List.filter_append a b

theorem solid_cons (l : Lexeme) (lexemes : List Lexeme) :
    solid (l :: lexemes) = solid [l] ++ solid lexemes :=
  solid_append [l] lexemes

theorem solid_filterMap (lexemes : List Lexeme) :
    solid (lexemes.filterMap stripped?) = solid lexemes := by
  induction lexemes with
  | nil => rfl
  | cons l lexemes ih =>
      rw [solid_cons l, ← ih]
      cases hl : l.stripped? with
      | none =>
          have hnone := stripped?_eq_none_iff.1 hl
          simp [List.filterMap_cons_none hl, solid, hnone.1, Kind.isTrivia]
      | some m =>
          rw [List.filterMap_cons_some hl, solid_cons m]
          rcases stripped_cases hl with ⟨-, rfl⟩ | ⟨hk, -, rfl⟩
          · rfl
          · simp [solid, hk, Kind.isTrivia]

/-- Two ordinary runs become one; else a lexeme that is put in front changes no other. -/
theorem solid_attach (l : Lexeme) (lexemes : List Lexeme) :
    (l.kind = .plain ∧ (∃ m ∈ lexemes.head?, m.kind = .plain) ∧
      (solid (attach l lexemes)).length = (solid lexemes).length) ∨
    ((∀ m ∈ lexemes.head?, l.kind = .plain → m.kind ≠ .plain) ∧
      solid (attach l lexemes) = solid (l :: lexemes)) := by
  cases lexemes with
  | nil => exact .inr ⟨by simp, rfl⟩
  | cons m lexemes =>
      by_cases hl : l.kind = .plain
      · by_cases hm : m.kind = .plain
        · refine .inl ⟨hl, ⟨m, by simp, hm⟩, ?_⟩
          simp [attach, sameRun, solid, hl, hm, Kind.isTrivia]
        · refine .inr ⟨by simpa using fun _ => hm, ?_⟩
          have hne : (Kind.plain == m.kind) = false := by simpa using Ne.symm hm
          simp [attach, sameRun, hl, hne]
      · refine .inr ⟨by simp [hl], ?_⟩
        by_cases hrun : sameRun l m = true
        · have hkind : l.kind = m.kind ∧ l.kind = .blank := by simpa [sameRun, hl] using hrun
          have hm : m.kind = .blank := hkind.1 ▸ hkind.2
          simp [attach, hrun, solid, hkind.2, hm, Kind.isTrivia]
        · simp [attach, hrun]

theorem length_solid_attach_le (l : Lexeme) (lexemes : List Lexeme) :
    (solid (attach l lexemes)).length ≤ (solid (l :: lexemes)).length := by
  rcases solid_attach l lexemes with ⟨-, -, hlen⟩ | ⟨-, hsolid⟩
  · rw [hlen, solid_cons, List.length_append]
    omega
  · rw [hsolid]

theorem length_solid_fuse_le (lexemes : List Lexeme) :
    (solid (fuse lexemes)).length ≤ (solid lexemes).length := by
  induction lexemes with
  | nil => simp [fuse]
  | cons l lexemes ih =>
      have hattach := length_solid_attach_le l (fuse lexemes)
      rw [solid_cons, List.length_append] at hattach ⊢
      rw [fuse_cons]
      omega

/-- Fusing leaves the tokens as they are exactly if no two ordinary runs stand side by side. -/
theorem solid_fuse_eq_iff (lexemes : List Lexeme) :
    solid (fuse lexemes) = solid lexemes ↔
      lexemes.IsChain fun l m => l.kind = .plain → m.kind = .plain → False := by
  induction lexemes with
  | nil => simp [fuse]
  | cons l lexemes ih =>
      have hhead : (∀ m ∈ (fuse lexemes).head?, l.kind = .plain → m.kind ≠ .plain) ↔
          ∀ m ∈ lexemes.head?, l.kind = .plain → m.kind = .plain → False := by
        cases lexemes with
        | nil => simp [fuse]
        | cons m lexemes =>
            obtain ⟨s, rest, hattach⟩ := exists_attach m (fuse lexemes)
            simp [hattach]
      rw [fuse_cons, List.isChain_cons, ← ih, ← hhead]
      rcases solid_attach l (fuse lexemes) with ⟨hl, ⟨m, hm, hplain⟩, hlen⟩ | ⟨hno, hsolid⟩
      · constructor
        · intro heq
          have hle := length_solid_fuse_le lexemes
          rw [heq, solid_cons, List.length_append] at hlen
          have hone : (solid [l]).length = 1 := by simp [solid, hl, Kind.isTrivia]
          omega
        · intro h
          exact absurd hplain (h.1 m hm hl)
      · rw [hsolid, solid_cons l, solid_cons l lexemes, List.append_cancel_left_eq]
        exact ⟨fun heq => ⟨hno, heq⟩, fun h => h.2⟩

theorem kind_attach {l m : Lexeme} {lexemes : List Lexeme} (hm : m ∈ attach l lexemes) :
    m.kind = l.kind ∨ m ∈ lexemes := by
  cases lexemes with
  | nil => exact .inl (by rw [List.mem_singleton.1 hm])
  | cons k lexemes =>
      by_cases hrun : sameRun l k = true
      · rw [attach, if_pos hrun] at hm
        rcases List.mem_cons.1 hm with rfl | hm
        · exact .inl rfl
        · exact .inr (List.mem_cons_of_mem k hm)
      · rw [attach, if_neg hrun] at hm
        rcases List.mem_cons.1 hm with rfl | hm
        · exact .inl rfl
        · exact .inr hm

theorem kind_fuse {m : Lexeme} {lexemes : List Lexeme} (hm : m ∈ fuse lexemes) :
    ∃ l ∈ lexemes, m.kind = l.kind := by
  induction lexemes with
  | nil => simp [fuse] at hm
  | cons l lexemes ih =>
      rcases kind_attach hm with hk | hm
      · exact ⟨l, by simp, hk⟩
      · obtain ⟨k, hk, hkind⟩ := ih hm
        exact ⟨k, by simp [hk], hkind⟩

/-- Nothing that comments leave behind is a comment. -/
theorem not_comment_fuse (lexemes : List Lexeme) :
    ∀ m ∈ fuse (lexemes.filterMap stripped?), m.kind ≠ .comment := by
  intro m hm
  obtain ⟨l, hl, hkind⟩ := kind_fuse hm
  obtain ⟨k, -, hk⟩ := List.mem_filterMap.1 hl
  rw [hkind]
  exact not_comment_of_stripped hk

/-! ## Comments that come about -/

theorem kept_eq_join (s : List Char) :
    Mode.code.kept s = join ((split s).filterMap stripped?) := by
  rw [kept_split]
  induction split s with
  | nil => rfl
  | cons l lexemes ih =>
      rw [List.flatMap_cons, ih]
      cases hl : l.stripped? with
      | none =>
          have hnone := stripped?_eq_none_iff.1 hl
          rw [List.filterMap_cons_none hl, uncommented, if_pos hnone.1,
            List.count_eq_zero_of_not_mem hnone.2]
          rfl
      | some m =>
          rw [List.filterMap_cons_some hl, join_cons, uncommented_of_stripped hl]

/-- A slash in front of a star opens a comment. -/
theorem not_absent_of_opensComment {l : Lexeme} {r : List Char} (hl : Plain l.text)
    (hslash : l.text.getLast? = some '/') : ¬ Source.Absent startsComment (l.text ++ '*' :: r) := by
  intro h
  obtain ⟨x, hx⟩ := List.getLast?_eq_some_iff.1 hslash
  have hquote : ∀ c ∈ x, isQuote c = false := by
    intro c hc
    have hd := hl.ordinary c (by simp [hx, hc])
    simp only [isDelimiter, Bool.or_eq_false_iff] at hd
    exact hd.1.2
  rw [hx, List.append_assoc] at h
  have hopen := ((Source.absent_cons_iff (by decide)).1 (h.of_append hquote)).1
  cases hopen

theorem chain_of_absent (s : List Char) (h : Source.Absent startsComment (Mode.code.kept s)) :
    ((split s).filterMap stripped?).IsChain
      fun l m => l.kind = .plain → m.kind = .plain → ¬ opensComment l m := by
  fun_induction split s with
  | case1 => simp
  | case2 c s ih =>
      rw [kept_first] at h
      cases hl : (first c s).1.stripped? with
      | none =>
          have hnone := stripped?_eq_none_iff.1 hl
          rw [List.filterMap_cons_none hl]
          rw [uncommented, if_pos hnone.1, List.count_eq_zero_of_not_mem hnone.2] at h
          exact ih h
      | some m =>
          rw [List.filterMap_cons_some hl, List.isChain_cons]
          rw [uncommented_of_stripped hl] at h
          rcases form_of_stripped hl with hm | ⟨hrest, hm⟩
          · constructor
            · intro k hk hplain _ hopen
              rw [kept_eq_join] at h
              obtain ⟨lexemes, hlexemes⟩ := List.head?_eq_some_iff.1 hk
              obtain ⟨r, hr⟩ := List.head?_eq_some_iff.1 hopen.2
              rw [hlexemes, join_cons, hr] at h
              exact not_absent_of_opensComment (hm.of_plain hplain) hopen.1 h
            · have hcomment := not_comment_of_stripped hl
              have hsettled : Source.Settled (join [m]) :=
                settled_join (by simpa using hm) (by simpa using hcomment)
              rw [join_cons, join_nil, List.append_nil] at hsettled
              exact ih (h.of_settled_append hsettled)
          · rw [hrest]
            simp [split]

/-- The number of characters other than blanks. -/
def weight (lexemes : List Lexeme) : Nat :=
  (join lexemes).countP fun c => !isBlank c

theorem weight_cons (l : Lexeme) (lexemes : List Lexeme) :
    weight (l :: lexemes) = weight [l] + weight lexemes := by
  simp [weight]

/-- Blanks weigh nothing, so that what tokens lack in weight is in comments. -/
theorem weight_solid (lexemes : List Lexeme)
    (h : ∀ l ∈ lexemes, l.kind = .blank → ∀ c ∈ l.text, isBlank c = true) :
    weight lexemes =
      weight (solid lexemes) + weight (lexemes.filter fun l => l.kind = .comment) := by
  induction lexemes with
  | nil => rfl
  | cons l lexemes ih =>
      have hrest := ih fun m hm => h m (by simp [hm])
      rw [weight_cons]
      by_cases hcomment : l.kind = .comment
      · have hsolid : solid (l :: lexemes) = solid lexemes := by simp [solid, hcomment, Kind.isTrivia]
        rw [hsolid, List.filter_cons_of_pos (by simpa using hcomment),
          weight_cons l (lexemes.filter _)]
        omega
      · rw [List.filter_cons_of_neg (by simpa using hcomment)]
        by_cases hblank : l.kind = .blank
        · have hsolid : solid (l :: lexemes) = solid lexemes := by simp [solid, hblank, Kind.isTrivia]
          have hnone : weight [l] = 0 := by
            simpa [weight, List.countP_eq_zero] using h l (by simp) hblank
          rw [hsolid]
          omega
        · have hsolid : solid (l :: lexemes) = l :: solid lexemes := by
            cases hk : l.kind <;> simp_all [solid, Kind.isTrivia]
          rw [hsolid, weight_cons l (solid lexemes)]
          omega

theorem blank_of_split {s : List Char} {l : Lexeme} (hl : l ∈ split s) (hk : l.kind = .blank) :
    ∀ c ∈ l.text, isBlank c = true :=
  (whole_of_isClosed hl (by simp [isClosed, hk])).of_blank hk

theorem slash_mem_of_comment {s : List Char} {l : Lexeme} (hl : l ∈ split s)
    (hk : l.kind = .comment) : '/' ∈ l.text := by
  fun_induction split s with
  | case1 => cases hl
  | case2 c s ih =>
      rcases List.mem_cons.1 hl with rfl | hl
      · have hfirst := first_spec c s
        generalize first c s = found at hfirst hk
        cases hfirst with
        | mark h => exact absurd hk (mark_kind h).2.2.2
        | quoted | blank | plain => cases hk
        | comment => simp
      · exact ih hl

/-- Where the tokens stay the same no comment comes about: it would have to be made of them. -/
theorem not_comment_of_solid_eq {s : List Char}
    (h : solid (split (Mode.code.kept s)) = solid (split s)) :
    ∀ l ∈ split (Mode.code.kept s), l.kind ≠ .comment := by
  have hblank : ∀ l ∈ (split s).filterMap stripped?, l.kind = .blank →
      ∀ c ∈ l.text, isBlank c = true := by
    intro l hl hk
    obtain ⟨m, hm, hstrip⟩ := List.mem_filterMap.1 hl
    rcases stripped_cases hstrip with ⟨-, rfl⟩ | ⟨hcomment, -, rfl⟩
    · exact blank_of_split hm hk
    · exact isBlank_uncommented hcomment
  have hnone : ((split s).filterMap stripped?).filter (fun l => l.kind = .comment) = [] := by
    rw [List.filter_eq_nil_iff]
    intro l hl hk
    obtain ⟨m, -, hstrip⟩ := List.mem_filterMap.1 hl
    exact not_comment_of_stripped hstrip (by simpa using hk)
  have hbefore := weight_solid _ hblank
  have hafter := weight_solid (split (Mode.code.kept s)) fun l hl => blank_of_split hl
  have htext : weight (split (Mode.code.kept s)) = weight ((split s).filterMap stripped?) := by
    unfold weight
    rw [join_split, kept_eq_join]
  rw [hnone, solid_filterMap] at hbefore
  rw [h] at hafter
  have hzero : weight ((split (Mode.code.kept s)).filter fun l => l.kind = .comment) = 0 := by
    have hnil : weight [] = 0 := rfl
    omega
  intro l hl hk
  have hslash : '/' ∈ join ((split (Mode.code.kept s)).filter fun l => l.kind = .comment) :=
    List.mem_flatMap.2 ⟨l, List.mem_filter.2 ⟨hl, by simpa using hk⟩, slash_mem_of_comment hl hk⟩
  have hall := List.countP_eq_zero.1 hzero '/' hslash
  revert hall
  decide

theorem solid_kept_eq_iff (s : List Char) :
    solid (split (Mode.code.kept s)) = solid (split s) ↔ ∀ l m, ¬ Meets (split s) l m := by
  constructor
  · intro h
    have habsent := Source.absent_startsComment_iff.2 (not_comment_of_solid_eq h)
    rw [split_kept s (chain_of_absent s habsent), ← solid_filterMap (split s)] at h
    exact (chain_stripped_iff _).1 ((solid_fuse_eq_iff _).1 h)
  · intro h
    have hchain := (chain_stripped_iff (split s)).2 fun l m hm => h l m hm
    have hkept := split_kept s (hchain.imp fun l m hlm hl hm => (hlm hl hm).elim)
    rw [hkept, (solid_fuse_eq_iff _).2 hchain, solid_filterMap]

end Lexeme

namespace Token

/-- The kinds and texts of the tokens that are neither blanks nor comments. -/
def solid (tokens : List Token) : List Lexeme :=
  (tokens.filter fun t => !t.isTrivia).map Token.toLexeme

theorem solid_ofText (s : List Char) : solid (ofText s) = Lexeme.solid (Lexeme.split s) := by
  have hlexemes := place_map_toLexeme .start (Lexeme.split s)
  conv_rhs => rw [← hlexemes, Lexeme.solid, List.filter_map]
  rfl

theorem forall_ofText (s : List Char) (P : Lexeme → Prop) :
    (∀ t ∈ ofText s, P t.toLexeme) ↔ ∀ l ∈ Lexeme.split s, P l := by
  conv_rhs => rw [← place_map_toLexeme .start (Lexeme.split s), List.forall_mem_map]
  rfl

end Token

/--
The tokens that mean something are the same after comments are removed exactly if no two ordinary
runs have only comments without a line feed between them.  Such runs become one run, and nothing
else happens to the tokens, unless a slash comes to stand in front of a star: each comment is
replaced by a blank of its line feeds, no comment is left, and there is nothing to remove again.
-/
theorem Source.tokens_withoutComments (s : List Char) :
    (Token.solid (Token.ofText (withoutComments s)) = Token.solid (Token.ofText s) ↔
      ∀ l m, ¬ Lexeme.Meets (Lexeme.split s) l m) ∧
    ((∀ l m, Lexeme.Meets (Lexeme.split s) l m → ¬ Lexeme.opensComment l m) →
      (Token.ofText (withoutComments s)).map Token.toLexeme =
          Lexeme.fuse ((Lexeme.split s).filterMap Lexeme.stripped?) ∧
        (∀ t ∈ Token.ofText (withoutComments s), t.kind ≠ .comment) ∧
        withoutComments (withoutComments s) = withoutComments s) := by
  rw [Token.solid_ofText, Token.solid_ofText, ← Mode.kept_code s]
  refine ⟨Lexeme.solid_kept_eq_iff s, fun h => ?_⟩
  have hsplit := Lexeme.split_kept s ((Lexeme.chain_stripped_iff _).2 h)
  have hcomment : ∀ l ∈ Lexeme.split (Mode.code.kept s), l.kind ≠ .comment := by
    rw [hsplit]
    exact Lexeme.not_comment_fuse _
  refine ⟨?_, ?_, ?_⟩
  · rw [Token.ofText, Token.place_map_toLexeme, hsplit]
  · exact (Token.forall_ofText _ fun l => l.kind ≠ .comment).2 hcomment
  · exact withoutComments_of_absent (absent_startsComment_iff.2 hcomment)

/-- Two names that meet become one name, a comment with a line feed becomes a blank. -/
theorem Source.tokens_withoutComments_names :
    let s := "a/**/b/*\n*/c".toList
    (∀ l m, Lexeme.Meets (Lexeme.split s) l m → ¬ Lexeme.opensComment l m) ∧
      (Token.ofText (withoutComments s)).map Token.toLexeme =
        [⟨.plain, ['a', 'b']⟩, ⟨.blank, ['\n']⟩, ⟨.plain, ['c']⟩] := by
  intro s
  have h : ∀ l m, Lexeme.Meets (Lexeme.split s) l m → ¬ Lexeme.opensComment l m :=
    (Lexeme.chain_stripped_iff (Lexeme.split s)).1 (by decide +kernel)
  refine ⟨h, ?_⟩
  rw [((tokens_withoutComments s).2 h).1]
  decide +kernel

/--
Two names with a comment between them become one name, and a slash and a star become the start of a
comment, which is left and goes only if comments are removed once more.
-/
theorem Source.withoutComments_joins_names :
    let s := "a/**/b".toList
    let t := "//**/* x */".toList
    (Token.solid (Token.ofText s) = [⟨.plain, ['a']⟩, ⟨.plain, ['b']⟩] ∧
      Token.solid (Token.ofText (withoutComments s)) = [⟨.plain, ['a', 'b']⟩]) ∧
    (Lexeme.split (withoutComments t) = [⟨.comment, "/* x */".toList⟩] ∧
      withoutComments (withoutComments t) = []) := by
  decide +kernel

end RichStyle
