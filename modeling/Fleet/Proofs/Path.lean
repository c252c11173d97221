/-
Paths that are joined: where they lead, seen from where the first one leads.

- `words_join`: the words of a joined path are those of its parts, up to a separator at the end of the first one.
- `components_join`, `isAbsolute_join`: what moves in a joined path is what moves in its parts.
- `of_mem_ancestors`: the directories on the way to a path are the fronts of what moves in it.
- `samePlace_join_twice_iff`: a directory that is joined twice denotes the same place just if the second time adds
  nothing.
-/
import Mathlib.Data.List.Basic
import Fleet.Path

namespace Fleet.Path

variable {sep : Char} {part cs rest : List Char} {dir rel : String}

/-! ## Words -/

theorem splitFrom_append (h : sep ∉ cs) : splitFrom sep part (cs ++ sep :: rest) =
    (part.reverse ++ cs) :: splitFrom sep [] rest := by
  induction cs generalizing part with
  | nil => simp [splitFrom]
  | cons c cs ih =>
    rw [List.mem_cons, not_or] at h
    rw [List.cons_append, splitFrom, if_neg (Ne.symm h.1), ih h.2]
    simp

/-- a separator divides the words before it from those behind it -/
theorem splitFrom_separated (sep : Char) (part cs rest : List Char) :
    splitFrom sep part (cs ++ sep :: rest) = splitFrom sep part cs ++ splitFrom sep [] rest := by
  induction cs generalizing part with
  | nil => simp [splitFrom]
  | cons c cs ih =>
    rw [List.cons_append, splitFrom, splitFrom]
    split
    · rw [ih, List.cons_append]
    · exact ih _

/-- the words of a path -/
def words (path : String) : List (List Char) := splitFrom '/' [] path.toList

theorem join_of_isAbsolute (h : isAbsolute rel = true) : join dir rel = rel := by
  rw [isAbsolute, decide_eq_true_eq] at h
  simp [join, h]

theorem join_of_isEmpty (h : dir = "") : join dir rel = rel := by simp [join, h]

/-- a path goes on behind the directory that it is joined to -/
theorem join_eq_append (hrel : isAbsolute rel = false) (hdir : dir ≠ "") : ∃ rest, join dir rel = dir ++ rest := by
  have hrel' : rel.toList.head? ≠ some '/' := by simpa [isAbsolute] using hrel
  have hempty : dir.isEmpty = false := by simpa using hdir
  rw [join, if_neg (by simp [hrel', hempty])]
  split
  · exact ⟨rel, rfl⟩
  · exact ⟨"/" ++ rel, String.append_assoc⟩

/-- **The words of a joined path.** An end of the first path in a separator is a word without characters. -/
theorem words_join (hrel : isAbsolute rel = false) (hdir : dir ≠ "") :
    ∃ front, words (join dir rel) = front ++ words rel ∧ (words dir = front ∨ words dir = front ++ [[]]) := by
  have hrel' : rel.toList.head? ≠ some '/' := by simpa [isAbsolute] using hrel
  have hempty : dir.isEmpty = false := by simpa using hdir
  unfold join words
  rw [if_neg (by simp [hrel', hempty])]
  split
  · rename_i hlast
    obtain ⟨front, hfront⟩ := List.getLast?_eq_some_iff.1 hlast
    refine ⟨splitFrom '/' [] front, ?_, .inr ?_⟩
    · rw [String.toList_append, hfront, List.append_assoc, List.singleton_append, splitFrom_separated]
    · rw [hfront, splitFrom_separated]
      rfl
  · refine ⟨splitFrom '/' [] dir.toList, ?_, .inl rfl⟩
    rw [String.toList_append, String.toList_append, List.append_assoc]
    exact splitFrom_separated '/' [] dir.toList rel.toList

theorem splitFrom_of_not_mem (h : sep ∉ cs) : splitFrom sep part cs = [part.reverse ++ cs] := by
  induction cs generalizing part with
  | nil => simp [splitFrom]
  | cons c cs ih =>
    rw [List.mem_cons, not_or] at h
    rw [splitFrom, if_neg (Ne.symm h.1), ih h.2]
    simp

theorem not_mem_of_mem_splitFrom {word : List Char} (hpart : sep ∉ part) (h : word ∈ splitFrom sep part cs) :
    sep ∉ word := by
  induction cs generalizing part with
  | nil =>
    obtain rfl := List.mem_singleton.1 h
    rwa [List.mem_reverse]
  | cons c cs ih =>
    rw [splitFrom] at h
    split at h
    · rcases List.mem_cons.1 h with rfl | h
      · rwa [List.mem_reverse]
      · exact ih List.not_mem_nil h
    · rename_i hc
      refine ih ?_ h
      rw [List.mem_cons, not_or]
      exact ⟨Ne.symm hc, hpart⟩

theorem words_intercalate {names : List String} (hne : names ≠ []) (hnames : ∀ name ∈ names, '/' ∉ name.toList) :
    words ("/".intercalate names) = names.map String.toList := by
  induction names with
  | nil => exact absurd rfl hne
  | cons name names ih =>
    obtain ⟨hname, hrest⟩ := List.forall_mem_cons.1 hnames
    by_cases hnil : names = []
    · subst hnil
      rw [String.intercalate_singleton, words, splitFrom_of_not_mem hname]
      rfl
    · have hread := ih hnil hrest
      have hslash : "/".toList = ['/'] := rfl
      rw [words] at hread ⊢
      rw [String.intercalate_cons_of_ne_nil hnil, String.toList_append, String.toList_append, List.append_assoc, hslash,
        List.singleton_append, splitFrom_append hname, hread]
      rfl

/-! ## Places -/

theorem components_eq (path : String) :
    components path = ((words path).filter fun p => p != [] && p != ['.']).map String.ofList := rfl

theorem components_join (hrel : isAbsolute rel = false) :
    components (join dir rel) = components dir ++ components rel := by
  by_cases hdir : dir = ""
  · rw [join_of_isEmpty hdir, hdir]
    rfl
  · obtain ⟨front, hjoin, hfront⟩ := words_join hrel hdir
    rw [components_eq, components_eq, components_eq, hjoin, List.filter_append, List.map_append]
    rcases hfront with rfl | hfront
    · rfl
    · rw [hfront, List.filter_append]
      simp

theorem isAbsolute_join (dir rel : String) : isAbsolute (join dir rel) = (isAbsolute rel || isAbsolute dir) := by
  cases hrel : isAbsolute rel with
  | true => rw [join_of_isAbsolute hrel, hrel, Bool.true_or]
  | false =>
    rw [Bool.false_or]
    by_cases hdir : dir = ""
    · rw [join_of_isEmpty hdir, hrel, hdir]
      rfl
    · have hne : dir.toList ≠ [] := by simpa using hdir
      obtain ⟨c, cs, hcs⟩ := List.exists_cons_of_ne_nil hne
      have hrel' : rel.toList.head? ≠ some '/' := by simpa [isAbsolute] using hrel
      have hempty : dir.isEmpty = false := by simpa using hdir
      unfold join
      rw [if_neg (by simp [hrel', hempty])]
      split <;> simp [isAbsolute, hcs]

/-- a component moves, and leads to one place -/
theorem of_mem_components {path name : String} (h : name ∈ components path) :
    name ≠ "" ∧ name ≠ "." ∧ '/' ∉ name.toList := by
  rw [components_eq, List.mem_map] at h
  obtain ⟨word, hword, rfl⟩ := h
  obtain ⟨hword, hmoves⟩ := List.mem_filter.1 hword
  rw [Bool.and_eq_true, bne_iff_ne, bne_iff_ne] at hmoves
  refine ⟨fun h => hmoves.1 ?_, fun h => hmoves.2 ?_, ?_⟩
  · simpa using congrArg String.toList h
  · simpa using congrArg String.toList h
  · rw [String.toList_ofList]
    exact not_mem_of_mem_splitFrom List.not_mem_nil hword

theorem words_rooted (path : String) : words ("/" ++ path) = [] :: words path := by
  rw [words, String.toList_append]
  rfl

theorem components_rooted (path : String) : components ("/" ++ path) = components path := by
  rw [components_eq, words_rooted]
  rfl

/-- names that lead to one place each, spelled as a relative path -/
theorem components_intercalate {names : List String} (hne : names ≠ [])
    (hnames : ∀ name ∈ names, name ≠ "" ∧ name ≠ "." ∧ '/' ∉ name.toList) :
    components ("/".intercalate names) = names ∧ isAbsolute ("/".intercalate names) = false := by
  have hwords := words_intercalate hne fun name h => (hnames name h).2.2
  constructor
  · have hkept : ∀ word ∈ names.map String.toList, (word != [] && word != ['.']) = true := by
      intro word hword
      obtain ⟨name, hname, rfl⟩ := List.mem_map.1 hword
      obtain ⟨hempty, hdot, -⟩ := hnames name hname
      have hdot' : name.toList ≠ ".".toList := fun h => hdot (String.toList_inj.1 h)
      rw [Bool.and_eq_true, bne_iff_ne, bne_iff_ne]
      exact ⟨by simpa using hempty, hdot'⟩
    rw [components_eq, hwords, List.filter_eq_self.2 hkept, List.map_map]
    exact (List.map_congr_left fun name _ => String.ofList_toList).trans (List.map_id names)
  · obtain ⟨name, names, rfl⟩ := List.exists_cons_of_ne_nil hne
    cases hpath : ("/".intercalate (name :: names)).toList with
    | nil => simp [isAbsolute, hpath]
    | cons c cs =>
      rw [isAbsolute, hpath, List.head?_cons, decide_eq_false_iff_not]
      rintro hc
      cases hc
      -- a path from the root would start with a word without characters
      rw [words, hpath, splitFrom, if_pos rfl, List.map_cons, List.cons.injEq] at hwords
      refine (hnames name List.mem_cons_self).1 ?_
      simpa using hwords.1.symm

/-- **The way to a path** goes along the front of its components, from the same place. -/
theorem of_mem_ancestors {path above : String} (h : above ∈ ancestors path) :
    components above <+: components path ∧ isAbsolute above = isAbsolute path := by
  rw [ancestors, List.mem_map] at h
  obtain ⟨n, hn, rfl⟩ := h
  obtain ⟨hpositive, hlt⟩ : 0 < n ∧ n < (components path).length := by
    rw [List.mem_reverse, List.mem_drop_iff_getElem] at hn
    obtain ⟨i, hi, rfl⟩ := hn
    rw [List.getElem_range]
    rw [List.length_range] at hi
    omega
  have hne : (components path).take n ≠ [] := by
    rw [Ne, List.take_eq_nil_iff]
    rintro (rfl | hnil)
    · exact Nat.lt_irrefl _ hpositive
    · simp [hnil] at hlt
  obtain ⟨hsame, hrelative⟩ := components_intercalate hne fun name h => of_mem_components (List.mem_of_mem_take h)
  cases habsolute : isAbsolute path with
  | true =>
    rw [if_pos rfl, components_rooted, hsame]
    exact ⟨List.take_prefix _ _, by simp [isAbsolute]⟩
  | false =>
    rw [if_neg (by decide), String.empty_append, hsame]
    exact ⟨List.take_prefix _ _, hrelative⟩

/-- two spellings of one place: what does not move is left aside -/
def SamePlace (a b : String) : Prop := isAbsolute a = isAbsolute b ∧ components a = components b

instance (a b : String) : Decidable (SamePlace a b) := inferInstanceAs (Decidable (_ ∧ _))

/-- **A directory joined twice** denotes the same place just if the second time adds nothing: because what is joined to
it stands alone, because it is absolute itself, or because it leads nowhere. -/
theorem samePlace_join_twice_iff (dir rel : String) : SamePlace (join dir (join dir rel)) (join dir rel) ↔
    isAbsolute rel = true ∨ isAbsolute dir = true ∨ components dir = [] := by
  have habsolute := isAbsolute_join dir rel
  cases hjoin : isAbsolute (join dir rel) with
  | true =>
    rw [hjoin, Bool.true_eq, Bool.or_eq_true] at habsolute
    rw [join_of_isAbsolute hjoin]
    exact iff_of_true ⟨rfl, rfl⟩ (habsolute.imp_right .inl)
  | false =>
    rw [hjoin, Bool.false_eq, Bool.or_eq_false_iff] at habsolute
    obtain ⟨hrel, hdir⟩ := habsolute
    have hcomponents := @components_join dir _ hjoin
    simp [SamePlace, isAbsolute_join, hjoin, hrel, hdir, hcomponents]

end Fleet.Path
