import ScriptFrontEnd.Diagnostic.Snippet
import ScriptFrontEnd.Proofs.Parser.Report
import ScriptFrontEnd.Proofs.Text.Blank
import ScriptFrontEnd.Proofs.Text.Line

namespace ScriptFrontEnd

namespace Text

theorem isDigit_of_mem_toString {n : Nat} {c : Char} (h : c ∈ (toString n).toList) : c.isDigit := by
  rw [Nat.toString_eq_repr, Nat.toList_repr] at h
  exact Nat.isDigit_of_mem_toDigits (by decide) (by decide) h

theorem newline_not_mem_toString (n : Nat) : '\n' ∉ (toString n).toList :=
  fun h => absurd (isDigit_of_mem_toString h) (by decide)

namespace Place

variable (p : Place)

def margin : List Char :=
  alignRight ((toString p.number).toList.length + 2) ['|']

def shown : List Char :=
  (toString p.number).toList ++ [' ', '|', ' '] ++ trim p.line

def arrow : List Char :=
  p.margin ++ [' '] ++ List.replicate (p.arrowWidth - 1) '-' ++ ['^']

theorem snippet_eq : p.snippet p.arrowWidth =
    p.margin ++ '\n' :: (p.shown ++ '\n' :: p.arrow) := by
  simp [snippet, margin, shown, arrow]

theorem length_margin : p.margin.length = (toString p.number).toList.length + 2 := by
  simp [margin, alignRight]

theorem margin_eq :
    p.margin = List.replicate ((toString p.number).toList.length + 1) ' ' ++ ['|'] := rfl

theorem idxOf_arrow : p.arrow.idxOf '^' =
    (toString p.number).toList.length + 3 + (p.column - leadingSpaces p.line) := by
  have hfront : '^' ∉ p.margin ++ [' '] ++ List.replicate (p.arrowWidth - 1) '-' := by
    simp [margin_eq]
  rw [arrow, List.idxOf_append_of_notMem hfront]
  simp [length_margin, arrowWidth]
  omega

theorem getElem?_shown (i : Nat) :
    p.shown[(toString p.number).toList.length + 3 + i]? = (trim p.line)[i]? := by
  rw [shown, List.getElem?_append_right]
  · simp
  · simp

end Place

end Text

theorem Kind.newline_not_mem_name (k : Kind) : '\n' ∉ k.name.toList := by
  cases k <;> decide

theorem Token.isDigit_of_mem_text {source : String} {file : Option String} {t : Token}
    (ht : t ∈ tokenize source file) (hk : t.kind = .int) : ∀ c ∈ t.text.toList, c.isDigit := by
  have hmem : t ∈ (tokenize source file).dropLast := by
    rw [tokenize, List.dropLast_concat]
    refine (List.mem_append.mp ht).resolve_right fun heof => ?_
    rw [List.mem_singleton.mp heof] at hk
    cases hk
  have hlegal : t.lexeme.Legal := spelled_of_mem_tokenize hmem (by simp [hk])
  obtain ⟨c, cs, hunits, hdigits⟩ := hlegal.digits_of_int hk
  rw [← hunits] at hdigits
  exact hdigits

theorem Cause.Fits.newline_not_mem_tip {passed : List Token} {t : Token} {cause : Cause}
    (h : cause.Fits passed t) (ht : t.kind = .int → '\n' ∉ t.text.toList) :
    ∀ tip ∈ cause.tip, '\n' ∉ tip.toList := by
  cases cause with
  | unexpectedToken expected found =>
    have hexpected := expected.newline_not_mem_name
    have hfound := found.newline_not_mem_name
    simp [tip, hexpected, hfound]
  | badNumeral text =>
    obtain ⟨hk, rfl, -⟩ := h
    by_cases hoctal : Numeral.isOctal t.text.toList <;> simp [tip, hoctal, ht hk]
  | noOperand kind => cases kind <;> simp [tip]
  | nestingTooDeep limit =>
    have hlimit := Text.newline_not_mem_toString limit
    simpa [tip] using hlimit

namespace Diagnostic

theorem file_of_mem_parse {source : String} {file : Option String} {d : Diagnostic}
    (hd : d ∈ (parse source file).2) : d.position.file = file.getD "shell" := by
  obtain ⟨passed, t, ht, hposition, -⟩ := exists_fits_of_mem_parse hd
  rw [hposition]
  exact (files_of_mem_tokenize ht).1

theorem offset_le_of_mem_parse {source : String} {file : Option String} {d : Diagnostic}
    (hd : d ∈ (parse source file).2) : d.position.offset.toNat ≤ source.utf8ByteSize := by
  obtain ⟨passed, t, ht, hposition, -⟩ := exists_fits_of_mem_parse hd
  rw [hposition]
  exact Token.offset_start_le ht

def title (d : Diagnostic) : String :=
  "Error: " ++ d.cause.name ++ ((d.cause.tip.map (" (" ++ · ++ ")")).getD "")

theorem newline_not_mem_title {source : String} {file : Option String} {d : Diagnostic}
    (hd : d ∈ (parse source file).2) : '\n' ∉ d.title.toList := by
  obtain ⟨passed, t, ht, -, hfits⟩ := exists_fits_of_mem_parse hd
  have htip := hfits.newline_not_mem_tip fun hk h =>
    absurd (Token.isDigit_of_mem_text ht hk _ h) (by decide)
  have hname : '\n' ∉ d.cause.name.toList := by
    cases d.cause <;> simp [Cause.name]
  unfold title
  cases hcause : d.cause.tip with
  | none => simp [hname]
  | some tip => simp [hname, htip tip hcause]

theorem splitOn_render {source : String} {d : Diagnostic} {p : Text.Place}
    (hplace : Text.place? source d.position.offset = some p) (hwidth : p.arrowWidth ≤ widestArrow)
    (htitle : '\n' ∉ d.title.toList) (hfile : '\n' ∉ d.position.file.toList)
    (hline : '\n' ∉ p.line.dropLast) :
    ∃ picture, d.render source = .ok picture ∧ picture.toList.splitOn '\n' =
      [d.title.toList, ("-> " ++ d.position.file).toList, p.margin, p.shown, p.arrow] := by
  refine ⟨d.heading ++ String.ofList (p.snippet p.arrowWidth), ?_, ?_⟩
  · simp only [render, hplace, if_pos hwidth]
  have hrows : (d.heading ++ String.ofList (p.snippet p.arrowWidth)).toList =
      ['\n'].intercalate
        [d.title.toList, ("-> " ++ d.position.file).toList, p.margin, p.shown, p.arrow] := by
    simp [heading, title, Text.Place.snippet_eq, List.intercalate]
  rw [hrows]
  refine List.splitOn_intercalate '\n' ?_ (List.cons_ne_nil _ _)
  have hmargin : '\n' ∉ p.margin := by
    simp [Text.Place.margin_eq]
  have hshown : '\n' ∉ p.shown := by
    have hnumber := Text.newline_not_mem_toString p.number
    have htrim := Text.newline_not_mem_trim hline
    simp only [Text.Place.shown, List.mem_append, hnumber, htrim]
    decide
  have harrow : '\n' ∉ p.arrow := by
    simp [Text.Place.arrow, Text.Place.margin_eq]
  simp [htitle, hfile, hmargin, hshown, harrow]

theorem exists_rows {source : String} {file : Option String} {d : Diagnostic} {p : Text.Place}
    (hd : d ∈ (parse source file).2) (hfile : '\n' ∉ (file.getD "shell").toList)
    (hplace : Text.place? source d.position.offset = some p) (hline : '\n' ∉ p.line.dropLast)
    (hcolumn : p.column ≤ 65534) :
    ∃ picture, d.render source = .ok picture ∧ picture.toList.splitOn '\n' =
      [d.title.toList, ("-> " ++ d.position.file).toList, p.margin, p.shown, p.arrow] := by
  have hname := file_of_mem_parse hd
  have hwidth : p.arrowWidth ≤ widestArrow := by
    unfold Text.Place.arrowWidth widestArrow
    omega
  exact splitOn_render hplace hwidth (newline_not_mem_title hd) (hname ▸ hfile) hline

end Diagnostic

end ScriptFrontEnd
