import Mathlib.Data.List.Basic
import ScriptFrontEnd.Text.Line

namespace ScriptFrontEnd.Text

structure IsLine (pre line post : List Char) : Prop where
  begins : pre = [] ∨ pre.getLast? = some '\n'
  whole : '\n' ∉ line.dropLast
  ends : post = [] ∨ line.getLast? = some '\n'

theorem IsLine.behind {pre line post : List Char} (h : IsLine pre line post) (body : List Char) :
    IsLine (body ++ ['\n'] ++ pre) line post where
  begins := by
    refine .inr ?_
    obtain rfl | hlast := h.begins
    · rw [List.append_nil, List.getLast?_concat]
    · rw [List.getLast?_append, hlast, Option.some_or]
  whole := h.whole
  ends := h.ends

theorem IsLine.exists_body {pre line post : List Char} (h : IsLine pre line post) :
    ∃ body, '\n' ∉ body ∧ (line = body ∨ line = body ++ ['\n']) ∧
      body ∈ (pre ++ line ++ post).splitOn '\n' := by
  have hbody : ∃ body rest, '\n' ∉ body ∧ (line = body ∨ line = body ++ ['\n']) ∧
      line ++ post = body ++ rest ∧ (rest = [] ∨ rest.head? = some '\n') := by
    obtain rfl | ⟨front, c, rfl⟩ := List.eq_nil_or_concat' line
    · obtain rfl : post = [] := h.ends.resolve_right nofun
      exact ⟨[], [], List.not_mem_nil, .inl rfl, rfl, .inl rfl⟩
    · have hfront := h.whole
      rw [List.dropLast_concat] at hfront
      by_cases hc : c = '\n'
      · subst hc
        exact ⟨front, '\n' :: post, hfront, .inr rfl, by simp, .inr rfl⟩
      · obtain rfl : post = [] := h.ends.resolve_right (by simpa using hc)
        refine ⟨front ++ [c], [], ?_, .inl rfl, rfl, .inl rfl⟩
        rw [List.mem_append, List.mem_singleton, not_or]
        exact ⟨hfront, Ne.symm hc⟩
  obtain ⟨body, rest, hmem, hline, hcut, hrest⟩ := hbody
  refine ⟨body, hmem, hline, ?_⟩
  have hfirst : body ∈ (body ++ rest).splitOn '\n' := by
    obtain rfl | hhead := hrest
    · rw [List.append_nil, List.splitOn_eq_singleton hmem]
      exact List.mem_singleton_self body
    · obtain ⟨rest, rfl⟩ := List.head?_eq_some_iff.mp hhead
      rw [List.splitOn_append_cons_self_of_not_mem hmem]
      exact List.mem_cons_self
  rw [List.append_assoc, hcut]
  obtain rfl | hlast := h.begins
  · exact hfirst
  · obtain ⟨front, rfl⟩ := List.getLast?_eq_some_iff.mp hlast
    rw [List.append_assoc, List.singleton_append, List.splitOn_append_cons_self]
    exact List.mem_append_right _ hfirst

theorem IsLine.column_le {pre line post : List Char} (h : IsLine pre line post) {n column : Nat}
    (hlines : ∀ l ∈ (pre ++ line ++ post).splitOn '\n', byteLength l ≤ n)
    (hcolumn : column < byteLength line) : column ≤ n := by
  obtain ⟨body, -, hline, hbody⟩ := h.exists_body
  have hle := hlines body hbody
  have hbreak : byteLength (body ++ ['\n']) = byteLength body + 1 := byteLength_append body ['\n']
  obtain rfl | rfl := hline
  · omega
  · omega

inductive Lined : List (List Char) → Prop where
  | nil : Lined []
  | last {body} : body ≠ [] → '\n' ∉ body → Lined [body]
  | cons {body ls} : '\n' ∉ body → Lined ls → Lined ((body ++ ['\n']) :: ls)

theorem Lined.consLine {ls : List (List Char)} (h : Lined ls) (c : Char) :
    Lined (consLine c ls) := by
  by_cases hc : c = '\n'
  · subst hc
    cases ls with
    | nil => exact .cons List.not_mem_nil .nil
    | cons l ls => exact .cons List.not_mem_nil h
  · cases h with
    | nil => exact .last (List.cons_ne_nil _ _) (mt List.mem_singleton.mp (Ne.symm hc))
    | last hne hbody =>
      rw [Text.consLine, if_neg hc]
      exact .last (List.cons_ne_nil _ _) (List.not_mem_cons_of_ne_of_not_mem (Ne.symm hc) hbody)
    | cons hbody hls =>
      rw [Text.consLine, if_neg hc, ← List.cons_append]
      exact .cons (List.not_mem_cons_of_ne_of_not_mem (Ne.symm hc) hbody) hls

theorem lined_lines (cs : List Char) : Lined (lines cs) := by
  induction cs with
  | nil => exact .nil
  | cons c cs ih => exact ih.consLine c

theorem byteLength_toList (s : String) : byteLength s.toList = s.utf8ByteSize := by
  have hsum (cs : List Char) : byteLength cs = (cs.map Char.utf8Size).sum := by
    induction cs with
    | nil => rfl
    | cons c cs ih => rw [byteLength_cons, ih, List.map_cons, List.sum_cons]
  rw [← String.size_toByteArray, ← String.utf8Encode_toList, List.utf8Encode, hsum]
  simp [List.length_flatMap]

section Locate

variable {l : List Char} {ls : List (List Char)} {number offset : Nat}

theorem locate_of_lt (h : offset < byteLength l) :
    locate (l :: ls) number offset = some ⟨number, l, offset⟩ := by
  unfold locate
  exact if_pos h

theorem locate_of_le (h : byteLength l ≤ offset) (hls : ls ≠ []) :
    locate (l :: ls) number offset = locate ls (number + 1) (offset - byteLength l) := by
  unfold locate
  cases ls with
  | nil => exact absurd rfl hls
  | cons => exact if_neg (Nat.not_lt.mpr h)

theorem locate_singleton_of_le (h : byteLength l ≤ offset) : locate [l] number offset =
    if offset = byteLength l then some ⟨number, l, byteLength (l.filter (· ≠ '\n'))⟩ else none := by
  unfold locate
  exact if_neg (Nat.not_lt.mpr h)

theorem locate_eq_none_iff : locate ls number offset = none ↔ byteLength ls.flatten < offset := by
  induction ls generalizing number offset with
  | nil =>
    rw [locate, ite_eq_right_iff, List.flatten_nil, byteLength_nil, Nat.pos_iff_ne_zero]
    simp
  | cons l ls ih =>
    rw [List.flatten_cons, byteLength_append]
    by_cases hlt : offset < byteLength l
    · rw [locate_of_lt hlt]
      exact iff_of_false nofun (by omega)
    · have hle := Nat.le_of_not_lt hlt
      by_cases hls : ls = []
      · subst hls
        rw [locate_singleton_of_le hle, ite_eq_right_iff, List.flatten_nil, byteLength_nil,
          Nat.add_zero, Nat.lt_iff_le_and_ne, and_iff_right hle]
        simp [eq_comm]
      · rw [locate_of_le hle hls, ih]
        omega

theorem le_number_of_locate {p : Place} (h : locate ls number offset = some p) :
    number ≤ p.number := by
  induction ls generalizing number offset with
  | nil =>
    obtain ⟨-, hp⟩ := Option.ite_none_right_eq_some.mp h
    cases hp
    exact Nat.le_refl number
  | cons l ls ih =>
    by_cases hlt : offset < byteLength l
    · cases (locate_of_lt hlt).symm.trans h
      exact Nat.le_refl number
    · have hle := Nat.le_of_not_lt hlt
      by_cases hls : ls = []
      · subst hls
        rw [locate_singleton_of_le hle] at h
        obtain ⟨-, hp⟩ := Option.ite_none_right_eq_some.mp h
        cases hp
        exact Nat.le_refl number
      · rw [locate_of_le hle hls] at h
        exact Nat.le_of_succ_le (ih h)

theorem number_le_of_locate {offset' : Nat} {p q : Place} (hle : offset ≤ offset')
    (hp : locate ls number offset = some p) (hq : locate ls number offset' = some q) :
    p.number ≤ q.number := by
  induction ls generalizing number offset offset' with
  | nil =>
    obtain ⟨-, hp⟩ := Option.ite_none_right_eq_some.mp hp
    cases hp
    exact le_number_of_locate hq
  | cons l ls ih =>
    by_cases hlt : offset < byteLength l
    · cases (locate_of_lt hlt).symm.trans hp
      exact le_number_of_locate hq
    · have hlong := Nat.le_of_not_lt hlt
      by_cases hls : ls = []
      · subst hls
        rw [locate_singleton_of_le hlong] at hp
        obtain ⟨-, hp⟩ := Option.ite_none_right_eq_some.mp hp
        cases hp
        exact le_number_of_locate hq
      · rw [locate_of_le hlong hls] at hp
        rw [locate_of_le (Nat.le_trans hlong hle) hls] at hq
        exact ih (Nat.sub_le_sub_right hle _) hp hq

theorem Lined.exists_locate_of_lt (h : Lined ls) (hlt : offset < byteLength ls.flatten)
    (number : Nat) :
    ∃ pre line post column, ls.flatten = pre ++ line ++ post ∧ IsLine pre line post ∧
      byteLength pre + column = offset ∧ column < byteLength line ∧
      locate ls number offset = some ⟨number + pre.count '\n', line, column⟩ := by
  induction h generalizing number offset with
  | nil => exact absurd hlt (Nat.not_lt_zero offset)
  | @last body hne hbody =>
    rw [List.flatten_singleton] at hlt ⊢
    refine ⟨[], body, [], offset, (List.append_nil body).symm, ⟨.inl rfl, ?_, .inl rfl⟩,
      Nat.zero_add offset, hlt, locate_of_lt hlt⟩
    exact fun hmem => hbody (List.dropLast_subset _ hmem)
  | @cons body ls hbody hls ih =>
    rw [List.flatten_cons] at hlt ⊢
    by_cases hfirst : offset < byteLength (body ++ ['\n'])
    · refine ⟨[], body ++ ['\n'], ls.flatten, offset, rfl, ⟨.inl rfl, ?_, .inr ?_⟩,
        Nat.zero_add offset, hfirst, locate_of_lt hfirst⟩
      · rwa [List.dropLast_concat]
      · exact List.getLast?_concat
    · have hle := Nat.le_of_not_lt hfirst
      rw [byteLength_append] at hlt
      have hmore : offset - byteLength (body ++ ['\n']) < byteLength ls.flatten := by omega
      have hne : ls ≠ [] := by
        rintro rfl
        exact absurd hmore (Nat.not_lt_zero _)
      obtain ⟨pre, line, post, column, hflat, hline, hoffset, hcolumn, hlocate⟩ :=
        ih hmore (number + 1)
      refine ⟨body ++ ['\n'] ++ pre, line, post, column, ?_, hline.behind body, ?_, hcolumn, ?_⟩
      · simp [hflat]
      · rw [byteLength_append]
        omega
      · rw [locate_of_le hle hne, hlocate, List.count_append, List.count_append,
          List.count_eq_zero_of_not_mem hbody]
        simp [Nat.add_assoc]

theorem Lined.exists_locate_end (h : Lined ls) (number : Nat) :
    ∃ pre line body, ls.flatten = pre ++ line ∧ IsLine pre line [] ∧ (ls ≠ [] → line ≠ []) ∧
      (line = body ∨ line = body ++ ['\n']) ∧ '\n' ∉ body ∧
      locate ls number (byteLength ls.flatten) =
        some ⟨number + pre.count '\n', line, byteLength body⟩ := by
  have hfilter {body : List Char} (hbody : '\n' ∉ body) : body.filter (· ≠ '\n') = body := by
    refine List.filter_eq_self.mpr fun c hc => ?_
    exact decide_eq_true (ne_of_mem_of_not_mem hc hbody)
  induction h generalizing number with
  | nil => exact ⟨[], [], [], rfl, ⟨.inl rfl, List.not_mem_nil, .inl rfl⟩, nofun, .inl rfl,
      List.not_mem_nil, rfl⟩
  | @last body hne hbody =>
    refine ⟨[], body, body, List.flatten_singleton, ⟨.inl rfl, ?_, .inl rfl⟩, fun _ => hne,
      .inl rfl, hbody, ?_⟩
    · exact fun hmem => hbody (List.dropLast_subset _ hmem)
    · rw [List.flatten_singleton, locate_singleton_of_le (Nat.le_refl _), if_pos rfl, hfilter hbody]
      rfl
  | @cons body ls hbody hls ih =>
    by_cases hne : ls = []
    · subst hne
      refine ⟨[], body ++ ['\n'], body, List.flatten_singleton, ⟨.inl rfl, ?_, .inl rfl⟩,
        fun _ => List.concat_ne_nil _ _, .inr rfl, hbody, ?_⟩
      · rwa [List.dropLast_concat]
      · rw [List.flatten_singleton, locate_singleton_of_le (Nat.le_refl _), if_pos rfl,
          List.filter_append, hfilter hbody]
        simp
    · obtain ⟨pre, line, last, hflat, hline, hsome, hbreak, hlast, hlocate⟩ :=
        ih (number + 1)
      refine ⟨body ++ ['\n'] ++ pre, line, last, ?_, hline.behind body, fun _ => hsome hne, hbreak,
        hlast, ?_⟩
      · rw [List.flatten_cons, hflat, List.append_assoc (body ++ ['\n'])]
      · rw [List.flatten_cons, byteLength_append, locate_of_le (Nat.le_add_right _ _) hne,
          Nat.add_sub_cancel_left, hlocate, List.count_append, List.count_append,
          List.count_eq_zero_of_not_mem hbody]
        simp [Nat.add_assoc]

end Locate

section Place

variable {content : String} {position : UInt32}

theorem place?_eq_none_iff :
    place? content position = none ↔ content.utf8ByteSize < position.toNat := by
  rw [place?, locate_eq_none_iff, flatten_lines, byteLength_toList]

theorem exists_place?_of_lt (h : position.toNat < content.utf8ByteSize) :
    ∃ pre line post column, content.toList = pre ++ line ++ post ∧ IsLine pre line post ∧
      byteLength pre + column = position.toNat ∧ column < byteLength line ∧
      place? content position = some ⟨1 + pre.count '\n', line, column⟩ := by
  have hflat := flatten_lines content.toList
  rw [← byteLength_toList, ← hflat] at h
  obtain ⟨pre, line, post, column, hplace⟩ :=
    (lined_lines content.toList).exists_locate_of_lt h 1
  exact ⟨pre, line, post, column, hflat ▸ hplace⟩

theorem exists_place?_end (h : position.toNat = content.utf8ByteSize) :
    ∃ pre line body, content.toList = pre ++ line ∧ IsLine pre line [] ∧
      (content ≠ "" → line ≠ []) ∧ (line = body ∨ line = body ++ ['\n']) ∧ '\n' ∉ body ∧
      place? content position = some ⟨1 + pre.count '\n', line, byteLength body⟩ := by
  have hflat := flatten_lines content.toList
  obtain ⟨pre, line, body, hcut, hline, hne, hbreak, hbody, hlocate⟩ :=
    (lined_lines content.toList).exists_locate_end 1
  rw [hflat] at hcut hlocate
  rw [byteLength_toList, ← h] at hlocate
  refine ⟨pre, line, body, hcut, hline, fun hcontent => hne fun hnil => hcontent ?_, hbreak, hbody,
    hlocate⟩
  rw [hnil, List.flatten_nil] at hflat
  exact String.toList_eq_nil_iff.mp hflat.symm

end Place

theorem place?_exact (content : String) (position : UInt32) :
    (place? content position = none ↔ content.utf8ByteSize < position.toNat) ∧
      (position.toNat < content.utf8ByteSize → ∃ pre line post column,
        content.toList = pre ++ line ++ post ∧ IsLine pre line post ∧
        byteLength pre + column = position.toNat ∧ column < byteLength line ∧
        place? content position = some ⟨1 + pre.count '\n', line, column⟩) ∧
      (position.toNat = content.utf8ByteSize → ∃ pre line body,
        content.toList = pre ++ line ∧ IsLine pre line [] ∧ (content ≠ "" → line ≠ []) ∧
        (line = body ∨ line = body ++ ['\n']) ∧ '\n' ∉ body ∧
        place? content position = some ⟨1 + pre.count '\n', line, byteLength body⟩) ∧
      ∀ later p q, position ≤ later → place? content position = some p →
        place? content later = some q → p.number ≤ q.number := by
  refine ⟨place?_eq_none_iff, exists_place?_of_lt, exists_place?_end, fun later p q hle hp hq => ?_⟩
  exact number_le_of_locate (UInt32.le_iff_toNat_le.mp hle) hp hq

theorem place?_exact_inside_character :
    (∃ pre line post column, "é\nb".toList = pre ++ line ++ post ∧ IsLine pre line post ∧
        byteLength pre + column = 1 ∧ column < byteLength line ∧
        place? "é\nb" 1 = some ⟨1 + pre.count '\n', line, column⟩) ∧
      (∃ pre line body, "é\nb".toList = pre ++ line ∧ IsLine pre line [] ∧ line ≠ [] ∧
        (line = body ∨ line = body ++ ['\n']) ∧ '\n' ∉ body ∧
        place? "é\nb" 4 = some ⟨1 + pre.count '\n', line, byteLength body⟩) ∧
      ∀ p q, place? "é\nb" 1 = some p → place? "é\nb" 4 = some q → p.number ≤ q.number := by
  obtain ⟨-, hinside, -, hmonotone⟩ := place?_exact "é\nb" 1
  obtain ⟨-, -, hlast, -⟩ := place?_exact "é\nb" 4
  obtain ⟨pre, line, body, hcut, hline, hne, h⟩ := hlast (by decide)
  exact ⟨hinside (by decide), ⟨pre, line, body, hcut, hline, hne (by decide), h⟩,
    fun p q => hmonotone 4 p q (by decide)⟩

end ScriptFrontEnd.Text
