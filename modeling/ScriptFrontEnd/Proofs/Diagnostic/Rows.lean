import ScriptFrontEnd.Proofs.Diagnostic.Caret
import ScriptFrontEnd.Proofs.Token.Tokenisation

namespace ScriptFrontEnd

namespace Text

def lineNumber (source : String) (offset : Nat) : Nat :=
  if offset < source.utf8ByteSize then 1 + ((utf8 source).take offset).count '\n'.toUInt8
  else max 1 (lines source.toList).length

theorem length_splitOn (cs : List Char) (c : Char) : (cs.splitOn c).length = cs.count c + 1 := by
  induction cs with
  | nil => rfl
  | cons d cs ih =>
    rw [List.splitOn] at ih ⊢
    rw [List.splitOnP_cons_eq_if_modifyHead, List.count_cons]
    split
    · rw [List.length_cons, ih]
    · rw [List.length_modifyHead, ih, Nat.add_zero]

theorem count_utf8EncodeChar {c : Char} (hc : c.toNat < 128) (d : Char) :
    (String.utf8EncodeChar d).count c.toUInt8 = [d].count c := by
  by_cases hd : d.toNat < 128
  · rw [utf8EncodeChar_of_lt hd]
    by_cases hdc : d = c
    · rw [hdc, List.count_singleton_self, List.count_singleton_self]
    · have hbyte : d.toUInt8 ≠ c.toUInt8 := fun h =>
        hdc (by rw [← Byte.unit_toUInt8 hd, h, Byte.unit_toUInt8 hc])
      rw [List.count_singleton, List.count_singleton, if_neg (by simpa using hbyte),
        if_neg (by simpa using hdc)]
  · have hbyte : c.toUInt8 ∉ String.utf8EncodeChar d := fun h => by
      have hle := le_of_mem_utf8EncodeChar hd _ h
      rw [Byte.toNat_toUInt8 hc] at hle
      omega
    have hdc : d ≠ c := fun h => hd (h ▸ hc)
    rw [List.count_eq_zero_of_not_mem hbyte, List.count_singleton, if_neg (by simpa using hdc)]

theorem count_flatMap_utf8EncodeChar {c : Char} (hc : c.toNat < 128) (cs : List Char) :
    (cs.flatMap String.utf8EncodeChar).count c.toUInt8 = cs.count c := by
  induction cs with
  | nil => rfl
  | cons d cs ih =>
    rw [List.flatMap_cons, List.count_append, ih, count_utf8EncodeChar hc, ← List.count_append,
      List.singleton_append]

theorem length_flatMap_utf8EncodeChar (cs : List Char) :
    (cs.flatMap String.utf8EncodeChar).length = byteLength cs := by
  induction cs with
  | nil => rfl
  | cons c cs ih =>
    rw [List.flatMap_cons, List.length_append, ih, String.length_utf8EncodeChar, byteLength_cons]

theorem IsLine.body_mem {pre line post body : List Char} (h : IsLine pre line post)
    (hbody : '\n' ∉ body) (hline : line = body ∨ line = body ++ ['\n']) :
    body ∈ (pre ++ line ++ post).splitOn '\n' := by
  obtain ⟨body', hbody', hline', hmem⟩ := h.exists_body
  obtain rfl | rfl := hline
  · obtain rfl | rfl := hline'
    · exact hmem
    · exact absurd List.mem_concat_self hbody
  · obtain rfl | hline' := hline'
    · exact absurd List.mem_concat_self hbody'
    · obtain rfl := List.append_cancel_right hline'
      exact hmem

theorem IsLine.count_take {pre line post : List Char} (h : IsLine pre line post) {column : Nat}
    (hcolumn : column < byteLength line) :
    ((line.flatMap String.utf8EncodeChar).take column).count '\n'.toUInt8 = 0 := by
  obtain ⟨body, hbody, hline, -⟩ := h.exists_body
  have hcount : (body.flatMap String.utf8EncodeChar).count '\n'.toUInt8 = 0 := by
    rw [count_flatMap_utf8EncodeChar (by decide), List.count_eq_zero_of_not_mem hbody]
  have htake : (line.flatMap String.utf8EncodeChar).take column =
      (body.flatMap String.utf8EncodeChar).take column := by
    obtain rfl | rfl := hline
    · rfl
    · rw [byteLength_append] at hcolumn
      have hlength := length_flatMap_utf8EncodeChar body
      rw [List.flatMap_append, List.take_append_of_le_length]
      rw [hlength]
      exact Nat.le_of_lt_succ hcolumn
  rw [htake]
  exact Nat.eq_zero_of_le_zero (hcount ▸ (List.take_sublist column _).count_le _)

theorem number_of_locate_end {ls : List (List Char)} {number : Nat} {p : Place}
    (h : locate ls number (byteLength ls.flatten) = some p) :
    p.number = number + (ls.length - 1) := by
  induction ls generalizing number with
  | nil => cases h; rfl
  | cons l ls ih =>
    rw [List.flatten_cons, byteLength_append] at h
    by_cases hls : ls = []
    · subst hls
      rw [locate_singleton_of_le (Nat.le_add_right _ _)] at h
      obtain ⟨-, hp⟩ := Option.ite_none_right_eq_some.mp h
      cases hp
      rfl
    · rw [locate_of_le (Nat.le_add_right _ _) hls, Nat.add_sub_cancel_left] at h
      rw [ih h, List.length_cons]
      have hpos := List.length_pos_iff.mpr hls
      omega

theorem exists_place?_of_le {source : String} {position : UInt32} {n : Nat}
    (hlines : ∀ line ∈ source.toList.splitOn '\n', byteLength line ≤ n)
    (h : position.toNat ≤ source.utf8ByteSize) :
    ∃ p, place? source position = some p ∧ p.number = lineNumber source position.toNat ∧
      '\n' ∉ p.line.dropLast ∧ p.column ≤ n := by
  rcases Nat.lt_or_eq_of_le h with hlt | heq
  · obtain ⟨pre, line, post, column, hcut, hline, hoffset, hcolumn, hplace⟩ :=
      exists_place?_of_lt hlt
    rw [hcut] at hlines
    refine ⟨_, hplace, ?_, hline.whole, hline.column_le hlines hcolumn⟩
    have hlength := length_flatMap_utf8EncodeChar pre
    have htake : (utf8 source).take position.toNat = pre.flatMap String.utf8EncodeChar ++
        (line.flatMap String.utf8EncodeChar).take column := by
      rw [utf8_eq_flatMap, hcut, List.append_assoc, List.flatMap_append, List.flatMap_append,
        ← hoffset, ← hlength, List.take_length_add_append, List.take_append_of_le_length]
      rw [length_flatMap_utf8EncodeChar]
      exact Nat.le_of_lt hcolumn
    rw [lineNumber, if_pos hlt, htake, List.count_append, hline.count_take hcolumn,
      count_flatMap_utf8EncodeChar (by decide), Nat.add_zero]
  · obtain ⟨pre, line, body, hcut, hline, -, hbreak, hbody, hplace⟩ := exists_place?_end heq
    rw [hcut, ← List.append_nil (pre ++ line)] at hlines
    refine ⟨_, hplace, ?_, hline.whole, hlines body (hline.body_mem hbody hbreak)⟩
    have hend : position.toNat = byteLength (lines source.toList).flatten := by
      rw [flatten_lines, byteLength_toList, heq]
    rw [place?, hend] at hplace
    rw [number_of_locate_end hplace, lineNumber, if_neg (Nat.not_lt.mpr (Nat.le_of_eq heq.symm))]
    omega

theorem place?_end_of_line {source : String} {position : UInt32}
    (h : position.toNat = source.utf8ByteSize) (hline : '\n' ∉ source.toList) :
    place? source position = some ⟨1, source.toList, source.utf8ByteSize⟩ := by
  obtain ⟨pre, line, body, hcut, hwhole, -, hbreak, -, hplace⟩ := exists_place?_end h
  rw [hcut, List.mem_append, not_or] at hline
  obtain rfl : pre = [] := by
    refine hwhole.begins.resolve_right fun hlast => hline.1 ?_
    exact List.mem_of_getLast? hlast
  obtain rfl : line = body := by
    refine hbreak.resolve_right ?_
    rintro rfl
    exact hline.2 List.mem_concat_self
  rw [hplace, ← byteLength_toList, hcut]
  rfl

end Text

open Text

theorem Diagnostic.render_at_end {source : String} {d : Diagnostic}
    (hoffset : d.position.offset.toNat = source.utf8ByteSize) (hline : '\n' ∉ source.toList)
    (hspaces : leadingSpaces source.toList = 0) (hwide : widestArrow ≤ source.utf8ByteSize) :
    d.render source = .error (.arrowTooWide (source.utf8ByteSize + 1)) := by
  have hwidth : (⟨1, source.toList, source.utf8ByteSize⟩ : Place).arrowWidth =
      source.utf8ByteSize + 1 := by
    rw [Place.arrowWidth, hspaces, Nat.sub_zero]
  rw [render, place?_end_of_line hoffset hline]
  dsimp only
  rw [hwidth, if_neg (Nat.not_le_of_lt (Nat.lt_succ_of_le hwide))]

theorem parse_of_lone_parenthesis {blanks : List Char} (h : ∀ b ∈ blanks, b.isWhitespace)
    (file : Option String) {source : String} (hsource : source = String.ofList ('(' :: blanks)) :
    (parse source file).2 = [⟨.noOperand .eof, (Lexer.ofSource source file).eofToken.start⟩] := by
  let eof := (Lexer.ofSource source file).eofToken
  let opening := Token.mark (file.getD "shell") 0 '('
  have htokens : (tokenize source file).dropLast = [opening] := by
    rw [hsource]
    exact dropLast_tokenize_between_blanks (k := .openParen) (by decide) (List.forall_mem_nil _) h
      file
  have hfault : Fault .standard nestingLimit eof [opening] [] (.noOperand .eof) [] :=
    .expression (f := .group opening .operand) rfl rfl (.group rfl (.refused (.unknown rfl)))
  have hread : Transcript .standard nestingLimit eof ([opening] ++ [])
      [.error ⟨.noOperand .eof, eof.start⟩] := .dropped hfault .nil
  rw [List.append_nil, ← htokens] at hread
  rw [parse_of_transcript hread]
  rfl

theorem exists_arrow_too_wide : ∃ source d line, source.utf8ByteSize < 2 ^ 32 ∧
    source.toList.splitOn '\n' = [line] ∧ byteLength line = 65535 ∧ d ∈ (parse source none).2 ∧
    d.render source = .error (.arrowTooWide 65536) := by
  let blanks := List.replicate 65534 ' '
  let source := String.ofList ('(' :: blanks)
  have hblanks : ∀ b ∈ blanks, b = ' ' := fun b hb => List.eq_of_mem_replicate hb
  have hline : source.toList = '(' :: blanks := String.toList_ofList
  have hbytes : byteLength source.toList = 65535 := by
    rw [byteLength_of_ascii, hline, List.length_cons, List.length_replicate]
    rw [hline]
    exact List.forall_mem_cons.mpr ⟨by decide, fun c hc => hblanks c hc ▸ by decide⟩
  have hsize : source.utf8ByteSize = 65535 := byteLength_toList source ▸ hbytes
  have hbreak : '\n' ∉ source.toList := by
    rw [hline]
    exact List.not_mem_cons_of_ne_of_not_mem (by decide) fun h => absurd (hblanks _ h) (by decide)
  have hspaces : leadingSpaces source.toList = 0 := by
    rw [hline, leadingSpaces, List.takeWhile_cons_of_neg (by decide), List.length_nil]
  let d : Diagnostic := ⟨.noOperand .eof, (Lexer.ofSource source none).eofToken.start⟩
  have hd : (parse source none).2 = [d] :=
    parse_of_lone_parenthesis (fun b hb => hblanks b hb ▸ by decide) none rfl
  have hoffset : d.position.offset.toNat = source.utf8ByteSize := by
    change (Lexer.ofSource source none).eofToken.start.offset.toNat = source.utf8ByteSize
    rw [eofToken_ofSource]
    exact UInt32.toNat_ofNat_of_lt' (by rw [hsize]; decide)
  refine ⟨source, d, source.toList, by omega, List.splitOn_eq_singleton hbreak, hbytes,
    hd ▸ List.mem_singleton_self d, ?_⟩
  rw [Diagnostic.render_at_end hoffset hbreak hspaces hsize.ge, hsize]

theorem drawn_of_mem_parse :
    (∀ (source : String) (file : Option String) (d : Diagnostic),
      (∀ line ∈ source.toList.splitOn '\n', byteLength line ≤ 65534) →
      '\n' ∉ (file.getD "shell").toList → d ∈ (parse source file).2 →
      ∃ picture row arrow, d.render source = .ok picture ∧ picture.toList.count '\n' = 4 ∧
        (picture.toList.splitOn '\n')[1]? = some ("-> " ++ file.getD "shell").toList ∧
        (picture.toList.splitOn '\n')[3]? = some row ∧
        (toString (lineNumber source d.position.offset.toNat) ++ " | ").toList <+: row ∧
        (picture.toList.splitOn '\n').getLast? = some arrow ∧ arrow.getLast? = some '^') ∧
    ∃ source d line, source.utf8ByteSize < 2 ^ 32 ∧ source.toList.splitOn '\n' = [line] ∧
      byteLength line = 65535 ∧ d ∈ (parse source none).2 ∧
      d.render source = .error (.arrowTooWide 65536) := by
  refine ⟨fun source file d hlines hfile hd => ?_, exists_arrow_too_wide⟩
  obtain ⟨p, hplace, hnumber, hline, hcolumn⟩ :=
    exists_place?_of_le hlines (Diagnostic.offset_le_of_mem_parse hd)
  obtain ⟨picture, hrender, hrows⟩ := Diagnostic.exists_rows hd hfile hplace hline hcolumn
  refine ⟨picture, p.shown, p.arrow, hrender, ?_, ?_, ?_, ?_, ?_, List.getLast?_concat⟩
  · have hlength := length_splitOn picture.toList '\n'
    rw [hrows] at hlength
    exact Nat.succ.inj hlength.symm
  · rw [hrows, Diagnostic.file_of_mem_parse hd]
    rfl
  · rw [hrows]
    rfl
  · rw [← hnumber, String.toList_append]
    exact List.prefix_append _ _
  · rw [hrows]
    rfl

theorem drawn_of_indented_plus :
    let d : Diagnostic := ⟨.noOperand .plus, ⟨3, "shell"⟩⟩
    d ∈ (parse "\t\n +" none).2 ∧ ∃ picture row arrow,
      d.render "\t\n +" = .ok picture ∧ picture.toList.count '\n' = 4 ∧
      (picture.toList.splitOn '\n')[3]? = some row ∧ "2 | ".toList <+: row ∧
      (picture.toList.splitOn '\n').getLast? = some arrow ∧ arrow.getLast? = some '^' := by
  intro d
  have hd : d ∈ (parse "\t\n +" none).2 :=
    mem_parse_of_indented_plus ['\t', '\n', ' '] (by simp) none
  obtain ⟨picture, row, arrow, hrender, hcount, -, hrow, hnumber, harrow, hcaret⟩ :=
    drawn_of_mem_parse.1 "\t\n +" none d (by decide) (by decide) hd
  have hsecond : lineNumber "\t\n +" d.position.offset.toNat = 2 := by decide
  rw [hsecond] at hnumber
  exact ⟨hd, picture, row, arrow, hrender, hcount, hrow, hnumber, harrow, hcaret⟩

end ScriptFrontEnd
