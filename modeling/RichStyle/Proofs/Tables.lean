import Mathlib.Data.List.Nodup
import RichStyle.Table

/-!
# Tables as finite maps

Looking up in a table, and what a table holds after entries are put into it.  A table is fixed by
its look-ups.  The order of its keys is also the order of their bytes.
-/

namespace RichStyle

/-! ## Bytes of texts -/

namespace Text

/-- The bytes of a text in UTF-8. -/
def bytes (s : String) : List UInt8 :=
  s.toUTF8.data.toList

theorem bytes_eq (s : String) : bytes s = s.toList.flatMap String.utf8EncodeChar := by
  have hbytes : s.toUTF8 = s.toList.utf8Encode := by
    rw [String.toUTF8_eq_toByteArray, ← String.toByteArray_ofList, String.ofList_toList]
  rw [bytes, hbytes, List.utf8Encode, List.data_toByteArray]

/-- A character in front of another one has bytes in front of its bytes, whatever follows them: the first
byte of each tells how many there are, and the others hold six bits each, the high ones first. -/
theorem utf8EncodeChar_append_lt {c d : Char} (h : c < d) (s t : List UInt8) :
    String.utf8EncodeChar c ++ s < String.utf8EncodeChar d ++ t := by
  have hlt : c.val.toNat < d.val.toNat := h
  have hmax : d.val.toNat < 0x110000 := by
    rcases d.valid with hd | hd
    · omega
    · omega
  have hbyte {m n : Nat} (hm : m < 256) (hn : n < 256) : UInt8.ofNat m < UInt8.ofNat n ↔ m < n := by
    simp [UInt8.lt_iff_toNat_lt, Nat.mod_eq_of_lt, hm, hn]
  have hsame {m n : Nat} (hm : m < 256) (hn : n < 256) : UInt8.ofNat m = UInt8.ofNat n ↔ m = n := by
    simp [← UInt8.toNat_inj, Nat.mod_eq_of_lt, hm, hn]
  have hdigits {k : Nat} (hk : k < 0x110000) :
      k / 64 / 64 = k / 4096 ∧ k / 4096 / 64 = k / 262144 ∧ k / 262144 % 8 = k / 262144 := by
    omega
  unfold String.utf8EncodeChar
  simp only
  generalize c.val.toNat = m at hlt ⊢
  generalize d.val.toNat = n at hlt hmax ⊢
  have hm := hdigits (Nat.lt_trans hlt hmax)
  have hn := hdigits hmax
  repeat' split
  all_goals
    simp (disch := omega) only [List.cons_append, List.nil_append, List.cons_lt_cons_iff, hbyte, hsame]
    omega

theorem flatMap_utf8EncodeChar_lt {s t : List Char} (h : s < t) :
    s.flatMap String.utf8EncodeChar < t.flatMap String.utf8EncodeChar := by
  induction h with
  | @nil c t =>
      obtain ⟨b, bs, hcons⟩ := List.exists_cons_of_ne_nil (String.utf8EncodeChar_ne_nil (c := c))
      rw [List.flatMap_nil, List.flatMap_cons, hcons]
      exact List.nil_lt_cons _ _
  | cons _ ih =>
      rw [List.flatMap_cons, List.flatMap_cons]
      exact List.append_left_lt ih
  | rel hlt =>
      rw [List.flatMap_cons, List.flatMap_cons]
      exact utf8EncodeChar_append_lt hlt _ _

/-- Texts in increasing order have bytes in increasing order. -/
theorem bytes_lt {s t : String} (h : s < t) : bytes s < bytes t := by
  rw [bytes_eq, bytes_eq]
  exact flatMap_utf8EncodeChar_lt (String.lt_iff.1 h)

end Text

namespace Table

variable {α : Type} {key other : String} {value : α} {entries : List (String × α)}

theorem lookup_eq_some_iff (hsorted : entries.Pairwise fun a b => a.1 < b.1) :
    lookup key entries = some value ↔ (key, value) ∈ entries := by
  induction entries with
  | nil => simp [lookup]
  | cons e entries ih =>
      obtain ⟨hhead, htail⟩ := List.pairwise_cons.1 hsorted
      rw [lookup, List.mem_cons]
      by_cases he : e.1 = key
      · subst he
        have hnot : (e.1, value) ∉ entries := fun hmem =>
          String.lt_irrefl e.1 (hhead (e.1, value) hmem)
        simp [hnot, Prod.ext_iff, eq_comm]
      · have hne : (key, value) ≠ e := fun h => he (congrArg Prod.fst h).symm
        simp [he, hne, ih htail]

/-- The keys of a table stand in the order of their bytes. -/
theorem pairwise_bytes (t : Table α) :
    (t.entries.map fun e => Text.bytes e.1).Pairwise (· < ·) :=
  List.pairwise_map.2 (t.sorted.imp Text.bytes_lt)

theorem get?_eq_some_iff {t : Table α} : t.get? key = some value ↔ (key, value) ∈ t.entries :=
  lookup_eq_some_iff t.sorted

theorem lookup_insertEntry (hsorted : entries.Pairwise fun a b => a.1 < b.1) :
    lookup other (insertEntry key value entries) =
      if key = other then some value else lookup other entries := by
  induction entries with
  | nil => simp [insertEntry, lookup]
  | cons e entries ih =>
      obtain ⟨k, v⟩ := e
      obtain ⟨hhead, htail⟩ := List.pairwise_cons.1 hsorted
      rw [insertEntry]
      by_cases hlt : key < k
      · rw [if_pos hlt, lookup]
      · rw [if_neg hlt]
        by_cases hgt : k < key
        · have hne : k ≠ key := by
            rintro rfl
            exact hlt hgt
          rw [if_pos hgt, lookup, lookup, ih htail]
          by_cases hk : k = other
          · subst hk
            simp [hne.symm]
          · simp [hk]
        · obtain rfl : k = key :=
            String.le_antisymm (String.not_lt.1 hlt) (String.not_lt.1 hgt)
          rw [if_neg hgt, lookup, lookup]
          split <;> rfl

theorem get?_insert (t : Table α) :
    (t.insert key value).get? other = if key = other then some value else t.get? other :=
  lookup_insertEntry t.sorted

/-- An entry that is put into a table takes the place of the one with its key. -/
theorem insertEntry_perm (key : String) (value : α) (hsorted : entries.Pairwise fun a b => a.1 < b.1) :
    (insertEntry key value entries).Perm ((key, value) :: entries.filter fun e => e.1 ≠ key) := by
  induction entries with
  | nil => simp [insertEntry]
  | cons e entries ih =>
      obtain ⟨k, v⟩ := e
      obtain ⟨hhead, htail⟩ := List.pairwise_cons.1 hsorted
      have hkeep : (∀ e ∈ entries, key < e.1) →
          (entries.filter fun e => e.1 ≠ key) = entries := by
        intro hlt
        rw [List.filter_eq_self]
        intro e he
        have hne : e.1 ≠ key := fun heq => String.lt_irrefl key (heq ▸ hlt e he)
        simpa using hne
      rw [insertEntry]
      by_cases hlt : key < k
      · have hne : k ≠ key := fun heq => String.lt_irrefl key (heq ▸ hlt)
        have hrest := hkeep fun e he => String.lt_trans hlt (hhead e he)
        rw [if_pos hlt, List.filter_cons_of_pos (by simpa using hne), hrest]
      · rw [if_neg hlt]
        by_cases hgt : k < key
        · have hne : k ≠ key := by
            rintro rfl
            exact hlt hgt
          rw [if_pos hgt, List.filter_cons_of_pos (by simpa using hne)]
          exact ((ih htail).cons _).trans (List.Perm.swap _ _ _)
        · obtain rfl : k = key :=
            String.le_antisymm (String.not_lt.1 hlt) (String.not_lt.1 hgt)
          rw [if_neg hgt, List.filter_cons_of_neg (by simp), hkeep hhead]

/-! ## Tables with the same look-ups -/

theorem nodup_entries (t : Table α) : t.entries.Nodup := by
  apply t.sorted.imp
  rintro e _ hlt rfl
  exact String.lt_irrefl e.1 hlt

theorem nodup_keys (t : Table α) : (t.entries.map Prod.fst).Nodup := by
  apply List.pairwise_map.2
  apply t.sorted.imp
  intro e f hlt heq
  rw [heq] at hlt
  exact String.lt_irrefl f.1 hlt

theorem ext_get? {t u : Table α} (h : ∀ key, t.get? key = u.get? key) : t = u := by
  have hperm : t.entries.Perm u.entries := by
    rw [List.perm_ext_iff_of_nodup t.nodup_entries u.nodup_entries]
    rintro ⟨key, value⟩
    rw [← get?_eq_some_iff, ← get?_eq_some_iff, h key]
  have hentries : t.entries = u.entries := by
    apply hperm.eq_of_pairwise _ t.sorted u.sorted
    intro a b _ _ hab hba
    exact absurd (String.lt_trans hab hba) (String.lt_irrefl a.1)
  cases t
  cases u
  cases hentries
  rfl

@[simp] theorem get?_empty (key : String) : (empty : Table α).get? key = none := rfl

theorem get?_foldl_insert (hsorted : entries.Pairwise fun a b => a.1 < b.1) (t : Table α) :
    (entries.foldl (fun acc e => acc.insert e.1 e.2) t).get? key =
      (lookup key entries).or (t.get? key) := by
  induction entries generalizing t with
  | nil => rfl
  | cons e entries ih =>
      obtain ⟨hhead, htail⟩ := List.pairwise_cons.1 hsorted
      rw [List.foldl_cons, ih htail, get?_insert, lookup]
      by_cases he : e.1 = key
      · -- no later entry has the key of `e`
        subst he
        have hnone : lookup e.1 entries = none := by
          rw [Option.eq_none_iff_forall_ne_some]
          intro v hv
          exact String.lt_irrefl e.1 (hhead (e.1, v) ((lookup_eq_some_iff htail).1 hv))
        simp [hnone]
      · simp [he]

theorem get?_merge (t other : Table α) (key : String) :
    (t.merge other).get? key = (other.get? key).or (t.get? key) :=
  get?_foldl_insert other.sorted t

theorem empty_merge (t : Table α) : (empty : Table α).merge t = t := by
  apply ext_get?
  intro key
  simp [get?_merge]

end Table

end RichStyle
