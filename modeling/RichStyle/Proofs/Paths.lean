import Mathlib.Data.List.TakeWhile
import RichStyle.Proofs.Files

/-!
# Names of paths

A path cut at a slash has the names of both sides.  So a path in a directory has the names of the
directory and one more, and the path of a file has the names of the directory that holds it and its
own.  Where the two lead in a tree follows from their names.
-/

namespace RichStyle

namespace Path

/-! ## Cutting at slashes -/

theorem splitNames_ne_nil (s : List Char) : splitNames s ≠ [] := by
  fun_induction splitNames s <;> simp

theorem splitNames_append (s rest : List Char) :
    splitNames (s ++ '/' :: rest) = splitNames s ++ splitNames rest := by
  induction s with
  | nil => simp [splitNames]
  | cons c s ih =>
      rw [List.cons_append, splitNames, splitNames]
      by_cases hc : c = '/'
      · rw [if_pos hc, if_pos hc, ih]
        rfl
      · obtain ⟨name, names, hnames⟩ := List.exists_cons_of_ne_nil (splitNames_ne_nil s)
        rw [if_neg hc, if_neg hc, ih, hnames]
        rfl

theorem splitNames_of_not_mem {s : List Char} (h : '/' ∉ s) : splitNames s = [s] := by
  induction s with
  | nil => rfl
  | cons c s ih =>
      rw [List.mem_cons, not_or] at h
      rw [splitNames, if_neg (Ne.symm h.1), ih h.2]

theorem names_append_slash (s rest : List Char) :
    names (.ofList (s ++ '/' :: rest)) = names (.ofList s) ++ names (.ofList rest) := by
  simp [names, splitNames_append]

theorem names_of_slash_end (s : List Char) : names (.ofList (s ++ ['/'])) = names (.ofList s) := by
  rw [names_append_slash]
  exact List.append_nil _

/-- What can be the name of a file: a text without slashes that is not empty and neither stands for a
directory itself nor for the one that holds it. -/
structure IsName (name : String) : Prop where
  ne_empty : name.toList ≠ []
  no_slash : '/' ∉ name.toList
  ne_dot : name.toList ≠ ['.']
  ne_up : name ≠ ".."

theorem names_of_no_slash {s : List Char} (hslash : '/' ∉ s) (hempty : s ≠ []) (hdot : s ≠ ['.']) :
    names (.ofList s) = [.ofList s] := by
  simp [names, splitNames_of_not_mem hslash, hempty, hdot]

theorem IsName.names {name : String} (h : IsName name) : Path.names name = [name] := by
  simpa using names_of_no_slash h.no_slash h.ne_empty h.ne_dot

/-! ## Paths in directories -/

section Join

variable {name : String} (h : IsName name) (directory : String)
include h

theorem IsName.not_isAbsolute : isAbsolute name = false := by
  have hhead : name.toList.head? ≠ some '/' := fun heq => h.no_slash (List.mem_of_mem_head? heq)
  simpa [isAbsolute] using hhead

/-- A name is put behind nothing or behind a slash. -/
theorem IsName.toList_join :
    (directory = "" ∧ join directory name = name) ∨
      ∃ s, (join directory name).toList = s ++ '/' :: name.toList ∧
        (directory.toList = s ∧ directory ≠ "" ∨ directory.toList = s ++ ['/']) := by
  by_cases hempty : directory = ""
  · left
    simp [join, h.not_isAbsolute, hempty]
  · right
    by_cases hlast : directory.toList.getLast? = some '/'
    · obtain ⟨s, hs⟩ := List.getLast?_eq_some_iff.1 hlast
      refine ⟨s, ?_, .inr hs⟩
      simp [join, h.not_isAbsolute, hs]
    · refine ⟨directory.toList, ?_, .inl ⟨rfl, hempty⟩⟩
      simp [join, h.not_isAbsolute, hempty, hlast]

theorem IsName.names_join : Path.names (join directory name) = Path.names directory ++ [name] := by
  rcases h.toList_join directory with ⟨rfl, heq⟩ | ⟨s, heq, hs⟩
  · rw [heq, h.names]
    rfl
  · have hdirectory : Path.names directory = Path.names (.ofList s) := by
      rcases hs with ⟨hs, -⟩ | hs
      · rw [← hs, String.ofList_toList]
      · rw [← names_of_slash_end, ← hs, String.ofList_toList]
    rw [← String.ofList_toList (s := join directory name), heq, names_append_slash,
      String.ofList_toList, h.names, hdirectory]

theorem IsName.isAbsolute_join : isAbsolute (join directory name) = isAbsolute directory := by
  rcases h.toList_join directory with ⟨rfl, heq⟩ | ⟨s, heq, hs⟩
  · rw [heq, h.not_isAbsolute]
    rfl
  · rcases hs with ⟨rfl, hne⟩ | hs
    · obtain ⟨c, s, hcons⟩ := List.exists_cons_of_ne_nil (by simpa using hne : directory.toList ≠ [])
      simp [isAbsolute, heq, hcons]
    · cases s with
      | nil => simp [isAbsolute, heq, hs]
      | cons c s => simp [isAbsolute, heq, hs]

theorem IsName.join_ne_empty : join directory name ≠ "" := by
  intro hempty
  have hnil : (join directory name).toList = [] := by rw [hempty]; rfl
  rcases h.toList_join directory with ⟨-, heq⟩ | ⟨s, heq, -⟩
  · exact h.ne_empty (heq ▸ hnil)
  · rw [heq] at hnil
    simp at hnil

/-- The last name of such a path stands at its very end. -/
theorem IsName.reverse_join :
    ∃ c more rest, name.toList.reverse = c :: more ∧ c ≠ '/' ∧
      (join directory name).toList.reverse = c :: (more ++ rest) := by
  obtain ⟨c, more, hcons⟩ :=
    List.exists_cons_of_ne_nil (List.reverse_ne_nil_iff.2 h.ne_empty)
  have hc : c ≠ '/' := by
    rintro rfl
    exact h.no_slash (List.mem_reverse.1 (hcons ▸ List.mem_cons_self))
  rcases h.toList_join directory with ⟨-, heq⟩ | ⟨s, heq, -⟩
  · exact ⟨c, more, [], hcons, hc, by rw [heq, hcons, List.append_nil]⟩
  · exact ⟨c, more, '/' :: s.reverse, hcons, hc, by simp [heq, hcons]⟩

theorem IsName.endsWithSlash_join : endsWithSlash (join directory name) = false := by
  obtain ⟨c, more, rest, -, hc, heq⟩ := h.reverse_join directory
  simp [endsWithSlash, ← List.head?_reverse, heq, hc]

theorem IsName.endsWithDot_join : endsWithDot (join directory name) = false := by
  obtain ⟨c, more, rest, hname, hc, heq⟩ := h.reverse_join directory
  have hdot : c = '.' → more ≠ [] := by
    rintro rfl rfl
    exact h.ne_dot (by simpa using congrArg List.reverse hname)
  have hmore : '/' ∉ more := fun hmem =>
    h.no_slash (List.mem_reverse.1 (hname ▸ List.mem_cons_of_mem c hmem))
  rw [endsWithDot, heq, List.dropWhile_cons_of_neg (by simpa using hc)]
  split
  · next hsingle =>
      simp only [List.cons.injEq, List.append_eq_nil_iff] at hsingle
      exact absurd hsingle.2.1 (hdot hsingle.1)
  · next hpair =>
      simp only [List.cons.injEq] at hpair
      obtain ⟨d, ds, rfl⟩ := List.exists_cons_of_ne_nil (hdot hpair.1)
      simp only [List.cons_append, List.cons.injEq] at hpair
      exact absurd hpair.2.1 (fun heq => hmore (heq ▸ List.mem_cons_self))
  · rfl

end Join

/-! ## Directories of paths -/

theorem names_trimTail (s : List Char) :
    names (.ofList (trimTail s).reverse) = names (.ofList s.reverse) := by
  fun_induction trimTail s with
  | case1 s ih => rw [ih, List.reverse_cons, names_of_slash_end]
  | case2 s ih =>
      have hdot : names (.ofList ['.']) = [] := by decide
      rw [ih, List.reverse_cons, List.reverse_cons, List.append_assoc, List.singleton_append,
        names_append_slash, hdot, List.append_nil]
  | case3 => rfl

theorem trimTail_suffix (s : List Char) : trimTail s <:+ s := by
  fun_induction trimTail s with
  | case1 s ih => exact ih.trans (List.suffix_cons _ _)
  | case2 s ih => exact ih.trans ((List.suffix_cons _ _).trans (List.suffix_cons _ _))
  | case3 => exact List.suffix_rfl

/-- Only a path from the root has nothing left without the slashes and dots at its end. -/
theorem getLast?_of_trimTail {s : List Char} (h : trimTail s = []) (hne : s ≠ []) :
    s.getLast? = some '/' := by
  fun_induction trimTail s with
  | case1 s ih =>
      cases s with
      | nil => rfl
      | cons c s => simpa using ih h (by simp)
  | case2 s ih =>
      cases s with
      | nil => rfl
      | cons c s => simpa using ih h (by simp)
  | case3 => exact absurd h hne

theorem trimTail_reverse {path : String} (hslash : endsWithSlash path = false)
    (hdot : endsWithDot path = false) : trimTail path.toList.reverse = path.toList.reverse := by
  have hhead : path.toList.reverse.head? ≠ some '/' := by
    simpa [endsWithSlash, List.head?_reverse] using hslash
  unfold endsWithDot at hdot
  generalize path.toList.reverse = s at hhead hdot ⊢
  unfold trimTail
  split
  · exact absurd rfl hhead
  · simp at hdot
  · rfl

/-- What stands in front of the last name, without slashes and dots at its end, keeps its names and the
place where it starts. -/
theorem names_directory {before : List Char} (hne : before ≠ []) {directory : String}
    (h : directory = if (trimTail before).isEmpty then "/" else .ofList (trimTail before).reverse) :
    names directory = names (.ofList before.reverse) ∧
      isAbsolute directory = (before.getLast? == some '/') := by
  rw [← names_trimTail]
  by_cases htrim : trimTail before = []
  · rw [h, htrim, getLast?_of_trimTail htrim hne]
    decide
  · rw [h, if_neg (by simpa using htrim)]
    obtain ⟨front, hfront⟩ := trimTail_suffix before
    have hlast : before.getLast? = (trimTail before).getLast? := by
      obtain ⟨last, hlast⟩ := Option.ne_none_iff_exists'.1 (mt List.getLast?_eq_none_iff.1 htrim)
      calc before.getLast? = (front ++ trimTail before).getLast? := by rw [hfront]
        _ = (trimTail before).getLast? := by rw [List.getLast?_append, hlast, Option.some_or]
    rw [isAbsolute, String.toList_ofList, List.head?_reverse, hlast]
    exact ⟨rfl, rfl⟩

section Parent

variable {path : String} (hne : path ≠ "") (hslash : endsWithSlash path = false)
  (hdot : endsWithDot path = false)
include hne hslash hdot

/-- Such a path ends with a name that counts. -/
theorem exists_last_name :
    ∃ tail, '/' ∉ tail ∧ names (.ofList tail.reverse) = [.ofList tail.reverse] ∧
      path.toList.reverse = tail ++ path.toList.reverse.dropWhile (· ≠ '/') := by
  have hempty : path.toList.reverse ≠ [] := by simpa using hne
  have hhead : path.toList.reverse.head? ≠ some '/' := by
    simpa [endsWithSlash, List.head?_reverse] using hslash
  unfold endsWithDot at hdot
  generalize path.toList.reverse = s at hempty hhead hdot ⊢
  have hcut : s = s.takeWhile (· ≠ '/') ++ s.dropWhile (· ≠ '/') := List.takeWhile_append_dropWhile.symm
  have hmem : '/' ∉ s.takeWhile (· ≠ '/') := by
    intro hmem
    simpa using List.mem_takeWhile_imp hmem
  refine ⟨s.takeWhile (· ≠ '/'), hmem, ?_, hcut⟩
  obtain ⟨c, rest, rfl⟩ := List.exists_cons_of_ne_nil hempty
  have hc : c ≠ '/' := by simpa using hhead
  apply names_of_no_slash
  · simpa using hmem
  · simp [hc]
  · intro hsingle
    rw [List.takeWhile_cons_of_pos (by simpa using hc), List.reverse_eq_iff] at hsingle
    obtain ⟨rfl, hnil⟩ : c = '.' ∧ rest.takeWhile (· ≠ '/') = [] := by simpa using hsingle
    cases rest with
    | nil => simp at hdot
    | cons d rest =>
        obtain rfl : d = '/' := by
          by_contra hd
          simp [hd] at hnil
        simp at hdot

/-- It has the names of its directory and one more, and both start at the same place. -/
theorem names_parent :
    ∃ directory last, parent? path = some directory ∧ names path = names directory ++ [last] ∧
      isAbsolute directory = isAbsolute path := by
  have htrim := trimTail_reverse hslash hdot
  obtain ⟨tail, hmem, hnames, hcut⟩ := exists_last_name hne hslash hdot
  have hempty : path.toList.reverse.isEmpty = false := by simpa using hne
  have habsolute : isAbsolute path = (path.toList.reverse.getLast? == some '/') := by
    rw [isAbsolute, List.getLast?_reverse]
  have hpath : path = .ofList path.toList.reverse.reverse := by simp
  cases hbefore : path.toList.reverse.dropWhile (· ≠ '/') with
  | nil =>
      -- a single name, which stands in the working directory
      rw [hbefore, List.append_nil] at hcut
      have hlast : tail.getLast? ≠ some '/' := fun heq => hmem (List.mem_of_getLast? heq)
      refine ⟨"", .ofList tail.reverse, ?_, ?_, ?_⟩
      · simp only [parent?, htrim, hempty, hbefore]
        rfl
      · rw [hpath, hcut, hnames]
        rfl
      · rw [habsolute, hcut, beq_false_of_ne hlast]
        rfl
  | cons c more =>
      obtain rfl : c = '/' := by
        have hhead := List.head?_dropWhile_not (· ≠ '/') path.toList.reverse
        rw [hbefore] at hhead
        simpa using hhead
      obtain ⟨hdirectory, hstart⟩ := names_directory (List.cons_ne_nil '/' more) rfl
      refine ⟨_, .ofList tail.reverse, ?_, ?_, hstart.trans ?_⟩
      · simp only [parent?, htrim, hempty, hbefore]
        rfl
      · rw [hdirectory, List.reverse_cons, names_of_slash_end, ← hnames, ← names_append_slash]
        rw [hpath, hcut, hbefore]
        simp
      · rw [habsolute, hcut, hbefore, List.getLast?_append]
        simp [List.getLast?_cons]

end Parent

end Path

/-! ## Places in a tree -/

namespace FileTree

variable {t : FileTree} {names : List String} {path : String}

/-- The directory that a path leads to; an empty path leads to the working directory. -/
def directory? (t : FileTree) (path : String) : Option (List String) :=
  (t.follow (t.origin path) (Path.names path)).toOption

/-- A file stands in the directory to which all names but the last lead. -/
theorem place?_iff :
    t.place? path = some names ↔
      path ≠ "" ∧ Path.endsWithSlash path = false ∧ Path.endsWithDot path = false ∧
      ∃ found last, (Path.names path).getLast? = some last ∧ last ≠ ".." ∧
        t.follow (t.origin path) (Path.names path).dropLast = .ok found ∧ names = found ++ [last] := by
  unfold place? target
  by_cases hempty : path = ""
  · simp [hempty]
  cases hlast : (Path.names path).getLast? with
  | none => simp [hempty, hlast]
  | some last =>
      simp only [hempty, hlast, String.isEmpty_iff, if_false]
      by_cases hdirectory : (last = ".." || Path.endsWithDot path) = true
      · rw [if_pos hdirectory]
        constructor
        · intro h
          cases hfound : t.follow (t.origin path) (Path.names path) with
          | error cause => simp [hfound, bind, Except.bind] at h
          | ok found => simp [hfound, bind, Except.bind] at h
        · rintro ⟨-, -, hdot, found, other, hother, hup, -⟩
          obtain rfl := Option.some.inj hother
          simp [hup, hdot] at hdirectory
      · rw [if_neg hdirectory]
        have hfile : last ≠ ".." ∧ Path.endsWithDot path = false := by simpa using hdirectory
        cases t.follow (t.origin path) (Path.names path).dropLast with
        | error cause => simp [bind, Except.bind]
        | ok found =>
            cases hslash : Path.endsWithSlash path with
            | true => simp [bind, Except.bind]
            | false => simp [bind, Except.bind, Target.names, hempty, hfile, eq_comm]

/-- A file in a directory stands where the directory is. -/
theorem place?_join {name : String} (h : Path.IsName name) (directory : String) :
    t.place? (Path.join directory name) = (t.directory? directory).map (· ++ [name]) := by
  have horigin : t.origin (Path.join directory name) = t.origin directory := by
    rw [origin, origin, h.isAbsolute_join]
  apply Option.ext
  intro names
  rw [place?_iff, horigin, h.names_join, List.getLast?_concat, List.dropLast_concat]
  have hne := h.join_ne_empty directory
  have hslash := h.endsWithSlash_join directory
  have hdot := h.endsWithDot_join directory
  have hup := h.ne_up
  unfold directory?
  cases t.follow (t.origin directory) (Path.names directory) with
  | error cause => simp [Except.toOption]
  | ok found => simp [Except.toOption, hne, hslash, hdot, hup, eq_comm]

/-- The directory of a file is the one that its path names. -/
theorem directory?_parent (h : t.place? path = some names) :
    ∃ directory, Path.parent? path = some directory ∧ t.directory? directory = some names.dropLast := by
  obtain ⟨hne, hslash, hdot, found, last, hlast, -, hfound, rfl⟩ := place?_iff.1 h
  obtain ⟨directory, name, hparent, hnames, habsolute⟩ := Path.names_parent hne hslash hdot
  refine ⟨directory, hparent, ?_⟩
  rw [origin, ← habsolute, hnames, List.dropLast_concat] at hfound
  rw [directory?, origin, hfound, List.dropLast_concat]
  rfl

end FileTree

end RichStyle
