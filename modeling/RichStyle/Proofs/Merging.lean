import Mathlib.Data.List.Induction
import RichStyle.Proofs.Tables
import RichStyle.Session

/-!
# Merging assets and modules

Modules are merged by their numbers, and their assets one after the other.
-/

namespace RichStyle

/-!
## Merging modules

Modules are merged by their numbers: as long as these differ, it does not matter in which order the
modules are found.  Assets that bind different selectors may be merged in either order.
-/

namespace Assets

theorem ext_ofKind {a b : Assets} (h : ∀ kind, a.ofKind kind = b.ofKind kind) : a = b := by
  cases a
  cases b
  have haudio := h .audio
  have htextures := h .texture
  have hmaterials := h .material
  simp only [ofKind] at haudio htextures hmaterials
  rw [haudio, htextures, hmaterials]

theorem ofKind_merge (a b : Assets) (kind : AssetKind) :
    (a.merge b).ofKind kind = (a.ofKind kind).merge (b.ofKind kind) := by
  cases kind <;> rfl

theorem ext_get? {a b : Assets}
    (h : ∀ kind selector, (a.ofKind kind).get? selector = (b.ofKind kind).get? selector) : a = b :=
  ext_ofKind fun kind => Table.ext_get? fun selector => h kind selector

theorem get?_merge (a b : Assets) (kind : AssetKind) (selector : String) :
    ((a.merge b).ofKind kind).get? selector =
      ((b.ofKind kind).get? selector).or ((a.ofKind kind).get? selector) := by
  rw [ofKind_merge, Table.get?_merge]

/-- In no section is a selector bound by both. -/
def Apart (a b : Assets) : Prop :=
  ∀ kind selector, (a.ofKind kind).get? selector = none ∨ (b.ofKind kind).get? selector = none

theorem Apart.symm {a b : Assets} (h : a.Apart b) : b.Apart a :=
  fun kind selector => (h kind selector).symm

theorem merge_right_comm {a b c : Assets} (h : b.Apart c) :
    (a.merge b).merge c = (a.merge c).merge b := by
  apply ext_get?
  intro kind selector
  simp only [get?_merge]
  rcases h kind selector with hnone | hnone
  · simp [hnone]
  · simp [hnone]

end Assets

theorem Counts.add_right_comm (a b c : Counts) : (a.add b).add c = (a.add c).add b := by
  simp [add, UInt64.add_assoc, UInt64.add_comm c.rules, UInt64.add_comm c.errors,
    UInt64.add_comm c.warnings]

namespace Session

theorem sorted_inOrder (modules : List Retained) :
    (inOrder modules).Pairwise fun a b => a.seq ≤ b.seq := by
  have hmerge : (inOrder modules).Pairwise fun a b => decide (a.seq ≤ b.seq) = true :=
    List.pairwise_mergeSort (by simp; omega) (by simp; omega) _
  simpa using hmerge

/-- Modules with different numbers have one order only. -/
theorem inOrder_eq_of_perm {modules sorted : List Retained} (hperm : modules.Perm sorted)
    (hsorted : sorted.Pairwise fun a b => a.seq < b.seq) : inOrder modules = sorted := by
  have horder : (inOrder modules).Perm sorted := (List.mergeSort_perm _ _).trans hperm
  have hseq : (sorted.map Retained.seq).Nodup :=
    List.pairwise_map.2 (hsorted.imp fun hab => Nat.ne_of_lt hab)
  apply horder.eq_of_pairwise _ (sorted_inOrder modules) (hsorted.imp Nat.le_of_lt)
  intro a b ha hb hab hba
  exact List.inj_on_of_nodup_map hseq (horder.mem_iff.1 ha) hb (Nat.le_antisymm hab hba)

theorem mergeModules_eq_of_perm {modules others : List Retained} (hperm : modules.Perm others)
    (hseq : (others.map Retained.seq).Nodup) : mergeModules modules = mergeModules others := by
  have hothers : (inOrder others).Perm others := List.mergeSort_perm _ _
  have hstrict : (inOrder others).Pairwise fun a b => a.seq < b.seq := by
    have hne : (inOrder others).Pairwise fun a b => a.seq ≠ b.seq :=
      List.pairwise_map.1 ((hothers.map Retained.seq).nodup_iff.2 hseq)
    apply ((sorted_inOrder others).and hne).imp
    intro a b hab
    omega
  rw [mergeModules, mergeModules, inOrder_eq_of_perm (hperm.trans hothers.symm) hstrict]

end Session

/-!
## Merging many assets

The look-ups of merged assets say which of them comes last.  From this follow the laws of merging:
it can be grouped in any way, empty assets and repeated ones change nothing.
-/

namespace Assets

theorem get?_empty (kind : AssetKind) (selector : String) :
    (empty.ofKind kind).get? selector = none := by
  cases kind <;> rfl

/-! ## Laws of merging -/

theorem merge_assoc (a b c : Assets) : (a.merge b).merge c = a.merge (b.merge c) := by
  apply ext_get?
  intro kind selector
  simp only [get?_merge, Option.or_assoc]

theorem merge_self (a : Assets) : a.merge a = a := by
  apply ext_get?
  intro kind selector
  rw [get?_merge, Option.or_self]

theorem empty_merge (a : Assets) : empty.merge a = a := by
  apply ext_get?
  intro kind selector
  rw [get?_merge, get?_empty, Option.or_none]

theorem merge_empty (a : Assets) : a.merge empty = a := by
  apply ext_get?
  intro kind selector
  rw [get?_merge, get?_empty, Option.none_or]

/-! ## Merging a list -/

/-- Assets merged one after the other, from none. -/
def mergeAll (maps : List Assets) : Assets :=
  maps.foldl merge empty

theorem mergeAll_concat (maps : List Assets) (a : Assets) :
    mergeAll (maps ++ [a]) = (mergeAll maps).merge a := by
  simp [mergeAll]

theorem mergeAll_append (maps more : List Assets) :
    mergeAll (maps ++ more) = (mergeAll maps).merge (mergeAll more) := by
  induction more using List.reverseRecOn with
  | nil => rw [List.append_nil, mergeAll, mergeAll, List.foldl_nil, merge_empty]
  | append_singleton more a ih =>
      rw [← List.append_assoc, mergeAll_concat, mergeAll_concat, ih, merge_assoc]

/-- Of all entries of a selector the last one stays. -/
theorem get?_mergeAll (maps : List Assets) (kind : AssetKind) (selector : String) :
    ((mergeAll maps).ofKind kind).get? selector =
      maps.reverse.findSome? fun a => (a.ofKind kind).get? selector := by
  induction maps using List.reverseRecOn with
  | nil => exact get?_empty kind selector
  | append_singleton maps a ih =>
      rw [mergeAll_concat, get?_merge, ih, List.reverse_concat, List.findSome?_cons]
      cases (a.ofKind kind).get? selector <;> rfl

theorem get?_mergeAll_eq_some_iff {maps : List Assets} {kind : AssetKind} {selector : String}
    {entry : Table String} :
    ((mergeAll maps).ofKind kind).get? selector = some entry ↔
      ∃ before a after, maps = before ++ a :: after ∧
        (a.ofKind kind).get? selector = some entry ∧
        ∀ b ∈ after, (b.ofKind kind).get? selector = none := by
  rw [get?_mergeAll, List.findSome?_eq_some_iff]
  constructor
  · rintro ⟨after, a, before, hmaps, ha, hafter⟩
    refine ⟨before.reverse, a, after.reverse, ?_, ha, by simpa using hafter⟩
    simpa using congrArg List.reverse hmaps
  · rintro ⟨before, a, after, rfl, ha, hafter⟩
    exact ⟨after.reverse, a, before.reverse, by simp, ha, by simpa using hafter⟩

theorem get?_mergeAll_eq_none_iff {maps : List Assets} {kind : AssetKind} {selector : String} :
    ((mergeAll maps).ofKind kind).get? selector = none ↔
      ∀ a ∈ maps, (a.ofKind kind).get? selector = none := by
  rw [get?_mergeAll, List.findSome?_eq_none_iff]
  simp

/-! ## Merging in groups -/

/-- A way to merge assets that keeps their order: groups are merged on their own before they are
merged with their neighbours. -/
inductive Grouping where
  | none
  | one (a : Assets)
  | both (left right : Grouping)

namespace Grouping

/-- All assets of a grouping, in order. -/
def members : Grouping → List Assets
  | none => []
  | one a => [a]
  | both left right => left.members ++ right.members

/-- What the groups come to. -/
def merged : Grouping → Assets
  | none => .empty
  | one a => a
  | both left right => left.merged.merge right.merged

theorem merged_eq (g : Grouping) : g.merged = mergeAll g.members := by
  induction g with
  | none => rfl
  | one a => exact (empty_merge a).symm
  | both left right hleft hright => rw [merged, members, hleft, hright, mergeAll_append]

end Grouping

end Assets

/-- A session merges the assets of its modules in the order in which they finished. -/
theorem Session.mergeModules_assets (modules : List Retained) :
    (mergeModules modules).1 = Assets.mergeAll ((inOrder modules).map Retained.assets) := by
  have hfold (acc : Assets × Counts) (rs : List Retained) :
      (rs.foldl (fun acc r => (acc.1.merge r.assets, acc.2.add r.counts)) acc).1 =
        (rs.map Retained.assets).foldl Assets.merge acc.1 := by
    induction rs generalizing acc with
    | nil => rfl
    | cons r rs ih => exact ih _
  exact hfold _ _

/--
Merging keeps, section by section, the entry of a selector that comes last, as a whole.  It is a
monoid of idempotents, so that a list of assets may be merged in any groups; the modules of a
session are merged like this.
-/
theorem Assets.merge_lastWins (maps : List Assets) :
    (∀ kind selector entry, ((maps.foldl merge empty).ofKind kind).get? selector = some entry ↔
      ∃ before a after, maps = before ++ a :: after ∧
        (a.ofKind kind).get? selector = some entry ∧
        ∀ b ∈ after, (b.ofKind kind).get? selector = none) ∧
    (∀ kind selector, ((maps.foldl merge empty).ofKind kind).get? selector = none ↔
      ∀ a ∈ maps, (a.ofKind kind).get? selector = none) ∧
    (∀ a b c : Assets, (a.merge b).merge c = a.merge (b.merge c)) ∧
    (∀ a : Assets, a.merge a = a) ∧
    (∀ a : Assets, empty.merge a = a ∧ a.merge empty = a) ∧
    (∀ g : Grouping, g.merged = g.members.foldl merge empty) ∧
    ∀ modules, (Session.mergeModules modules).1 =
      ((Session.inOrder modules).map Retained.assets).foldl merge empty :=
  ⟨fun _ _ _ => get?_mergeAll_eq_some_iff, fun _ _ => get?_mergeAll_eq_none_iff, merge_assoc,
    merge_self, fun a => ⟨empty_merge a, merge_empty a⟩, Grouping.merged_eq,
    Session.mergeModules_assets⟩

end RichStyle
