import Mathlib.Data.List.Basic
import Mathlib.Data.List.TakeWhile
import ScriptFrontEnd.Text.Line

namespace ScriptFrontEnd.Text

theorem trimLeft_append {cs : List Char} (h : ∃ b ∈ cs, ¬ isBlank b) (ds : List Char) :
    trimLeft (cs ++ ds) = trimLeft cs ++ ds := by
  rw [trimLeft, List.dropWhile_append, if_neg]
  · rfl
  · rw [List.isEmpty_iff, List.dropWhile_eq_nil_iff]
    simpa using h

theorem trimLeft_eq_drop (cs : List Char) :
    trimLeft cs = cs.drop (cs.takeWhile isBlank).length := by
  have hdrop : (cs.takeWhile isBlank ++ cs.dropWhile isBlank).drop (cs.takeWhile isBlank).length =
      cs.dropWhile isBlank := List.drop_left
  rw [List.takeWhile_append_dropWhile] at hdrop
  exact hdrop.symm

theorem trim_sublist (cs : List Char) : (trim cs).Sublist cs := by
  have hleft (ds : List Char) : (trimLeft ds).Sublist ds := List.dropWhile_sublist isBlank
  have hright := (hleft (trimLeft cs).reverse).reverse
  rw [List.reverse_reverse] at hright
  exact hright.trans (hleft cs)

theorem trim_concat_of_isBlank {c : Char} (hc : isBlank c) (cs : List Char) :
    trim (cs ++ [c]) = trim cs := by
  have hnil : trimLeft [c] = [] := List.dropWhile_cons_of_pos hc
  by_cases h : ∃ b ∈ cs, ¬ isBlank b
  · rw [trim, trimLeft_append h, List.reverse_concat]
    exact congrArg List.reverse (List.dropWhile_cons_of_pos hc)
  · have hall : ∀ b ∈ cs, isBlank b := by simpa using h
    have hcs : trimLeft cs = [] := List.dropWhile_eq_nil_iff.mpr hall
    have hboth : trimLeft (cs ++ [c]) = [] := (List.dropWhile_append_of_pos hall).trans hnil
    rw [trim, trim, hcs, hboth]

theorem newline_not_mem_trim {line : List Char} (h : '\n' ∉ line.dropLast) : '\n' ∉ trim line := by
  obtain rfl | ⟨body, c, rfl⟩ := List.eq_nil_or_concat' line
  · exact List.not_mem_nil
  rw [List.dropLast_concat] at h
  by_cases hc : c = '\n'
  · subst hc
    rw [trim_concat_of_isBlank (by decide)]
    exact fun hmem => h ((trim_sublist body).subset hmem)
  · intro hmem
    obtain hbody | hlast := List.mem_append.mp ((trim_sublist _).subset hmem)
    · exact h hbody
    · exact hc (List.mem_singleton.mp hlast).symm

theorem exists_trim_eq {before after : List Char} {c : Char}
    (hbefore : ∃ b ∈ before ++ [c], ¬ isBlank b) (hafter : ∃ b ∈ c :: after, ¬ isBlank b) :
    let indentation := ((before ++ c :: after).takeWhile isBlank).length
    indentation ≤ before.length ∧
      ∃ rest, trim (before ++ c :: after) = before.drop indentation ++ c :: rest := by
  intro indentation
  have hle : indentation ≤ before.length := by
    by_contra hlong
    have hfront : before ++ [c] <+: (before ++ c :: after).takeWhile isBlank := by
      refine List.prefix_of_prefix_length_le ?_ (List.takeWhile_prefix isBlank) ?_
      · exact ⟨after, List.append_cons before c after ▸ rfl⟩
      · rw [List.length_append, List.length_singleton]
        omega
    obtain ⟨b, hb, hblank⟩ := hbefore
    exact hblank (List.mem_takeWhile_imp (hfront.subset hb))
  have hleft : trimLeft (before ++ c :: after) = before.drop indentation ++ c :: after := by
    rw [trimLeft_eq_drop, List.drop_append_of_le_length hle]
  obtain ⟨b, hb, hblank⟩ := hafter
  have hb : b ∈ (c :: after).reverse := List.mem_reverse.mpr hb
  have hright : ∃ rest, (trimLeft (c :: after).reverse).reverse = c :: rest := by
    have hfront : (trimLeft (c :: after).reverse).reverse <+: c :: after := by
      rw [← List.reverse_suffix, List.reverse_reverse]
      exact List.dropWhile_suffix isBlank
    obtain hnil | ⟨rest, hrest, -⟩ := List.prefix_cons_iff.mp hfront
    · have hall := List.dropWhile_eq_nil_iff.mp (List.reverse_eq_nil_iff.mp hnil)
      exact absurd (hall b hb) hblank
    · exact ⟨rest, hrest⟩
  obtain ⟨rest, hrest⟩ := hright
  refine ⟨hle, rest, ?_⟩
  rw [trim, hleft, List.reverse_append, trimLeft_append ⟨b, hb, hblank⟩, List.reverse_append,
    List.reverse_reverse, hrest]

end ScriptFrontEnd.Text
