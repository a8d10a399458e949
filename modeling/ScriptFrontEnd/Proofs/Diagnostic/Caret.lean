import ScriptFrontEnd.Proofs.Diagnostic.Snippet
import ScriptFrontEnd.Proofs.Parser.Sentence

namespace ScriptFrontEnd

namespace Text

def overhang (line : List Char) : Nat :=
  (line.takeWhile isBlank).length - leadingSpaces line

theorem leadingSpaces_le (line : List Char) :
    leadingSpaces line ≤ (line.takeWhile isBlank).length := by
  induction line with
  | nil => exact Nat.le_refl 0
  | cons c line ih =>
    by_cases hc : c = ' '
    · subst hc
      exact Nat.succ_le_succ ih
    · rw [leadingSpaces, List.takeWhile_cons_of_neg (by simpa using hc)]
      exact Nat.zero_le _

theorem overhang_eq_zero {line : List Char} (h : ∀ b ∈ line.takeWhile isBlank, b = ' ') :
    overhang line = 0 := by
  have hle : (line.takeWhile isBlank).length ≤ leadingSpaces line := by
    induction line with
    | nil => exact Nat.le_refl 0
    | cons c line ih =>
      by_cases hc : isBlank c
      · rw [List.takeWhile_cons_of_pos hc] at h ⊢
        obtain ⟨rfl, hline⟩ := List.forall_mem_cons.mp h
        exact Nat.succ_le_succ (ih hline)
      · rw [List.takeWhile_cons_of_neg hc]
        exact Nat.zero_le _
  exact Nat.sub_eq_zero_of_le hle

theorem exists_not_blank {before after : List Char} {c : Char} (hc : ¬ c.isWhitespace)
    (h : ∀ b ∈ (before ++ c :: after).takeWhile isBlank, b = ' ') :
    ∃ b ∈ before ++ [c], ¬ isBlank b := by
  by_contra hnone
  have hall : ∀ b ∈ before ++ [c], isBlank b := by
    intro b hb
    by_contra hblank
    exact hnone ⟨b, hb, hblank⟩
  rw [List.append_cons, List.takeWhile_append_of_pos hall] at h
  have hspace : c = ' ' := h c (by simp)
  subst hspace
  exact hc (by decide)

theorem byteLength_of_ascii {cs : List Char} (h : ∀ c ∈ cs, c.toNat < 128) :
    byteLength cs = cs.length := by
  induction cs with
  | nil => rfl
  | cons c cs ih =>
    obtain ⟨hc, hcs⟩ := List.forall_mem_cons.mp h
    have hsize := length_charUnits c
    rw [charUnits, if_pos hc, List.length_singleton] at hsize
    rw [byteLength_cons, ih hcs, ← hsize, List.length_cons, Nat.add_comm]

theorem Place.getElem?_shown_caret {p : Place} {before after : List Char} {c : Char}
    (hline : p.line = before ++ c :: after) (hcolumn : p.column = before.length)
    (hbefore : ∃ b ∈ before ++ [c], ¬ isBlank b) (hafter : ∃ b ∈ c :: after, ¬ isBlank b) :
    overhang p.line ≤ p.arrow.idxOf '^' ∧
      p.shown[p.arrow.idxOf '^' - overhang p.line]? = some c := by
  obtain ⟨hle, rest, htrim⟩ := exists_trim_eq hbefore hafter
  rw [← hline] at hle htrim
  have hspaces := leadingSpaces_le p.line
  have hindex : p.arrow.idxOf '^' - overhang p.line = (toString p.number).toList.length + 3 +
      (before.length - (p.line.takeWhile isBlank).length) := by
    rw [idxOf_arrow, hcolumn, overhang]
    omega
  refine ⟨?_, ?_⟩
  · rw [idxOf_arrow, hcolumn, overhang]
    omega
  · rw [hindex, getElem?_shown, htrim, ← List.length_drop]
    simp

end Text

open Text

theorem not_isWhitespace_of_mem_parse {source : String} {file : Option String}
    (hsize : source.utf8ByteSize < 2 ^ 32) (hascii : ∀ c ∈ source.toList, c.toNat < 128)
    {d : Diagnostic} (hd : d ∈ (parse source file).2) {front rest : List Char} {c : Char}
    (hcut : source.toList = front ++ c :: rest)
    (hoffset : front.length = d.position.offset.toNat) : ¬ c.isWhitespace := by
  obtain ⟨passed, t, ht, hposition, -⟩ := exists_fits_of_mem_parse hd
  have hunits : units source = source.toList := units_of_ascii hascii
  rw [hposition] at hoffset
  have hlt : t.start.offset.toNat < source.utf8ByteSize := by
    rw [← hoffset, ← length_units, hunits, hcut, List.length_append, List.length_cons]
    omega
  obtain ⟨u, hu, hblank⟩ := exists_unit_at_start hsize ht hlt
  have hc : source.toList[front.length]? = some c := by
    simp [hcut]
  rw [hunits, ← hoffset, hc] at hu
  exact Option.some.inj hu ▸ hblank

theorem mem_parse_of_indented_plus (blanks : List Char) (h : ∀ b ∈ blanks, b.isWhitespace)
    (file : Option String) : ⟨.noOperand .plus, ⟨blanks.length.toUInt32, file.getD "shell"⟩⟩ ∈
      (parse (String.ofList (blanks ++ ['+'])) file).2 := by
  have hplus : ('+', Kind.plus) ∈ Kind.punctuation := by decide
  have htokens := dropLast_tokenize_between_blanks hplus h (List.forall_mem_nil _) file
  rw [parse_of_refused htokens rfl (.unknown rfl)]
  exact List.mem_singleton.mpr rfl

theorem exists_character_above_caret {source : String} {file : Option String}
    (hsize : source.utf8ByteSize < 2 ^ 32) (hascii : ∀ c ∈ source.toList, c.toNat < 128)
    (hlines : ∀ line ∈ source.toList.splitOn '\n', byteLength line ≤ 65534)
    (hfile : '\n' ∉ (file.getD "shell").toList) {d : Diagnostic} (hd : d ∈ (parse source file).2)
    (hp : d.position.offset.toNat < source.utf8ByteSize) :
    ∃ picture row arrow pre before c after post,
      d.render source = .ok picture ∧ (picture.toList.splitOn '\n')[3]? = some row ∧
      (picture.toList.splitOn '\n').getLast? = some arrow ∧ arrow.getLast? = some '^' ∧
      source.toList = pre ++ (before ++ c :: after) ++ post ∧
      IsLine pre (before ++ c :: after) post ∧
      (pre ++ before).length = d.position.offset.toNat ∧
      ((∃ b ∈ before ++ [c], ¬ isBlank b) → (∃ b ∈ c :: after, ¬ isBlank b) →
        overhang (before ++ c :: after) ≤ arrow.idxOf '^' ∧
          row[arrow.idxOf '^' - overhang (before ++ c :: after)]? = some c) ∧
      ((∀ b ∈ (before ++ c :: after).takeWhile isBlank, b = ' ') →
        (∃ b ∈ c :: after, ¬ isBlank b) → row[arrow.idxOf '^']? = some c) := by
  obtain ⟨pre, line, post, column, hcut, hline, hoffset, hcolumn, hplace⟩ := exists_place?_of_lt hp
  have hbytes {cs : List Char} (h : cs ⊆ source.toList) : byteLength cs = cs.length :=
    byteLength_of_ascii fun c hc => hascii c (h hc)
  have hlength : byteLength line = line.length := hbytes (by simp [hcut])
  obtain ⟨before, c, after, rfl, rfl⟩ : ∃ before c after, line = before ++ c :: after ∧
      column = before.length := by
    refine ⟨line.take column, (line)[column], line.drop (column + 1), ?_, ?_⟩
    · rw [List.getElem_cons_drop, List.take_append_drop]
    · rw [List.length_take]
      omega
  rw [hcut] at hlines
  obtain ⟨picture, hrender, hrows⟩ :=
    Diagnostic.exists_rows hd hfile hplace hline.whole (hline.column_le hlines hcolumn)
  have hposition : (pre ++ before).length = d.position.offset.toNat := by
    rw [List.length_append, ← hoffset, hbytes (by simp [hcut])]
  let p : Place := ⟨1 + pre.count '\n', before ++ c :: after, before.length⟩
  have hp : p.line = before ++ c :: after := rfl
  have hshown := p.getElem?_shown_caret hp rfl
  refine ⟨picture, p.shown, p.arrow, pre, before, c, after, post, hrender, ?_, ?_,
    List.getLast?_concat, hcut, hline, hposition, hshown, fun hspaces hafter => ?_⟩
  · rw [hrows, List.getElem?_cons_succ, List.getElem?_cons_succ, List.getElem?_cons_succ,
      List.getElem?_cons_zero]
  · rw [hrows]
    rfl
  have hwhole : source.toList = pre ++ before ++ c :: (after ++ post) := by
    simp [hcut]
  have hc := not_isWhitespace_of_mem_parse hsize hascii hd hwhole hposition
  obtain ⟨-, hcaret⟩ := hshown (exists_not_blank hc hspaces) hafter
  have hzero : overhang p.line = 0 := overhang_eq_zero hspaces
  rw [hzero, Nat.sub_zero] at hcaret
  exact hcaret

theorem exists_character_above_caret_of_indented :
    let d : Diagnostic := ⟨.noOperand .plus, ⟨2, "shell"⟩⟩
    d ∈ (parse "  +" none).2 ∧ ∃ picture row arrow,
      d.render "  +" = .ok picture ∧ (picture.toList.splitOn '\n')[3]? = some row ∧
      (picture.toList.splitOn '\n').getLast? = some arrow ∧
      row[arrow.idxOf '^']? = some '+' := by
  intro d
  have hd : d ∈ (parse "  +" none).2 := mem_parse_of_indented_plus [' ', ' '] (by simp) none
  obtain ⟨picture, row, arrow, pre, before, c, after, post, hrender, hrow, harrow, -, hcut, -,
    hlength, -, hcaret⟩ :=
    exists_character_above_caret (by decide) (by simp) (by decide) (by decide) hd (by decide)
  have hc : c = '+' := by
    have hget : "  +".toList[(pre ++ before).length]? = some c := by
      simp [hcut]
    rw [hlength] at hget
    exact Option.some.inj (hget.symm.trans rfl)
  have hspaces : ∀ b ∈ (before ++ c :: after).takeWhile isBlank, b = ' ' := by
    intro b hb
    have hmem : b ∈ "  +".toList := by
      have hline : b ∈ before ++ c :: after := (List.takeWhile_sublist isBlank).subset hb
      rw [hcut]
      exact List.mem_append_left _ (List.mem_append_right _ hline)
    have hall : ∀ u ∈ "  +".toList, isBlank u → u = ' ' := by
      simp [isBlank, blankRanges]
    exact hall b hmem (List.mem_takeWhile_imp hb)
  subst hc
  exact ⟨hd, picture, row, arrow, hrender, hrow, harrow,
    hcaret hspaces ⟨'+', List.mem_cons_self, by decide⟩⟩

theorem not_forall_caret_under_character :
    ¬ ∀ (source : String) (d : Diagnostic), source.utf8ByteSize < 2 ^ 32 →
      (∀ c ∈ source.toList, c.toNat < 128) →
      (∀ line ∈ source.toList.splitOn '\n', byteLength line ≤ 65534) →
      d ∈ (parse source none).2 → d.position.offset.toNat < source.utf8ByteSize →
      ∃ picture row arrow, d.render source = .ok picture ∧
        (picture.toList.splitOn '\n')[3]? = some row ∧
        (picture.toList.splitOn '\n').getLast? = some arrow ∧
        row[arrow.idxOf '^']? = source.toList[d.position.offset.toNat]? := by
  intro h
  let d : Diagnostic := ⟨.noOperand .plus, ⟨1, "shell"⟩⟩
  let p : Place := ⟨1, ['\t', '+'], 1⟩
  have hd : d ∈ (parse "\t+" none).2 := mem_parse_of_indented_plus ['\t'] (by simp) none
  obtain ⟨picture, row, arrow, hrender, hrow, harrow, hcaret⟩ :=
    h "\t+" d (by decide) (by simp) (by decide) hd (by decide)
  have hplace : place? "\t+" d.position.offset = some p := rfl
  obtain ⟨picture', hrender', hrows⟩ :=
    Diagnostic.exists_rows hd (by decide) hplace (by decide) (by decide)
  obtain rfl := Except.ok.inj (hrender.symm.trans hrender')
  rw [hrows] at hrow harrow
  obtain rfl : p.shown = row := Option.some.inj hrow
  obtain rfl : p.arrow = arrow := Option.some.inj harrow
  rw [p.idxOf_arrow, p.getElem?_shown] at hcaret
  exact absurd hcaret (by decide)

end ScriptFrontEnd
