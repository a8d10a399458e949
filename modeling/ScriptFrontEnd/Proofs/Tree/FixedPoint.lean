import ScriptFrontEnd.Proofs.Tree.RoundTrip

namespace ScriptFrontEnd

namespace Statement

theorem Alike.render_eq {s s' : Statement} (h : s.Alike s') : s.render = s'.render := by
  have hkeep (t : Token) : t.unplaced.text = t.text := rfl
  rw [← s.render_mapTokens hkeep, ← s'.render_mapTokens hkeep]
  cases s with
  | letBinding t n v =>
    have h : (letBinding t n v).mapTokens Token.unplaced = s'.mapTokens Token.unplaced := h
    rw [h]
  | returning t v =>
    have h : (returning t v).mapTokens Token.unplaced = s'.mapTokens Token.unplaced := h
    rw [h]
  | expression t e =>
    obtain ⟨t', e', rfl, he⟩ := alike_expression_iff.mp h
    exact congrArg Expr.render he

theorem render_eq_of_alike {ss ss' : List Statement} (h : List.Forall₂ Alike ss ss') :
    Program.render ⟨ss⟩ = Program.render ⟨ss'⟩ := by
  induction h with
  | nil => rfl
  | cons hs _ ih => rw [Program.render_cons, Program.render_cons, hs.render_eq, ih]

theorem Genuine.textNesting_le_of_segments {t : Token} {e : Expr} {limit : Nat}
    (h : (Statement.expression t e).Genuine) {read : List Statement}
    (hread : Segments .standard limit
      (bareTokens (units (Statement.expression t e).render)) read) : e.textNesting ≤ limit := by
  rw [h.bareTokens_render, ← List.append_nil (written _)] at hread
  cases read with
  | nil =>
    generalize htokens : written _ ++ [] = tokens at hread
    cases hread
    rw [List.append_nil] at htokens
    exact absurd htokens (Phrase.tokens_ne_nil _)
  | cons s read =>
    obtain ⟨rest, hseg, -⟩ := segments_cons.mp hread
    have hnone : Begins [] := by simp [Begins]
    have hn := (h.unplaced.segment_inv hnone hseg).2
    rwa [textNesting_mapTokens] at hn

end Statement

section SingleExpression

variable {source : String} {file file' : Option String} {t : Token} {e : Expr}
  (h : (parse source file).1.statements = [.expression t e])

include h

theorem render_of_expression : (parse source file).1.render = e.render := by
  have hrender : (parse source file).1.render = Program.render ⟨[.expression t e]⟩ :=
    congrArg Program.render (congrArg Program.mk h)
  have hempty : Program.render ⟨[]⟩ = "" := rfl
  rw [hrender, Program.render_cons, hempty, String.append_empty, Statement.render]

theorem textNesting_le_of_parse_render (hclean : (parse e.render file').2 = []) :
    e.textNesting ≤ nestingLimit := by
  have hgenuine : (Statement.expression t e).Genuine :=
    genuine_of_mem_parse (h ▸ List.mem_singleton_self _)
  have hread := (segments_iff_parse e.render file' _).mpr ⟨hclean, rfl⟩
  exact hgenuine.textNesting_le_of_segments hread

end SingleExpression

theorem parse_render_of_expression (source : String) (file file' : Option String) {t : Token}
    {e : Expr} (h : (parse source file).1.statements = [.expression t e]) :
    ((parse (parse source file).1.render file').2 = [] ↔ e.textNesting ≤ nestingLimit) ∧
      ((parse (parse source file).1.render file').2 = [] →
        (parse (parse source file).1.render file').1.render = (parse source file).1.render) := by
  have htext : (parse source file).1.render = e.render := render_of_expression h
  have hdeep (hclean : (parse e.render file').2 = []) : e.textNesting ≤ nestingLimit :=
    textNesting_le_of_parse_render h hclean
  have hshallow (hle : e.textNesting ≤ nestingLimit) :
      (parse e.render file').2 = [] ∧ (parse e.render file').1.render = e.render := by
    have hgenuine : ∀ s ∈ [Statement.expression t e], s.Genuine :=
      fun s hs => genuine_of_mem_parse (h ▸ hs)
    have hsingle : Program.render ⟨[.expression t e]⟩ = e.render :=
      (congrArg Program.render (congrArg Program.mk h)).symm.trans htext
    have hnesting : ∀ s ∈ [Statement.expression t e], s.textNesting ≤ nestingLimit :=
      List.forall_mem_singleton.mpr hle
    have hread := (readsAgain_iff hgenuine).mpr ⟨hnesting, .singleton _⟩
    rw [readsAgain_iff_parse file', hsingle] at hread
    exact ⟨hread.1, (Statement.render_eq_of_alike hread.2).symm.trans hsingle⟩
  rw [htext]
  exact ⟨⟨hdeep, fun hle => (hshallow hle).1⟩, fun hclean => (hshallow (hdeep hclean)).2⟩

theorem exists_parse_render_of_product : ∃ t e,
    (parse "-a * b" none).1.statements = [.expression t e] ∧
      (parse "((-a) * b)" none).2 = [] ∧
      (parse "((-a) * b)" none).1.render = "((-a) * b)" := by
  let token (kind : Kind) (text : String) (start stop : Nat) : Token :=
    ⟨kind, text, Span.ofOffsets start stop "shell"⟩
  let sign := token .dash "-" 0 1
  let e : Expr := .binary (token .star "*" 3 4)
    (.unary sign "-" (.identifier ⟨token .identifier "a" 1 2, "a"⟩)) "*"
    (.identifier ⟨token .identifier "b" 5 6, "b"⟩)
  have hstatements : (parse "-a * b" none).1.statements = [.expression sign e] := by decide +kernel
  have htext : (parse "-a * b" none).1.render = "((-a) * b)" := by decide +kernel
  have h := parse_render_of_expression "-a * b" none none hstatements
  rw [htext] at h
  have hclean := h.1.mpr (by decide)
  exact ⟨sign, e, hstatements, hclean, h.2 hclean⟩

theorem not_forall_parse_render_of_expression :
    ¬ ∀ (source : String) (file file' : Option String) (t : Token) (e : Expr),
      (parse source file).2 = [] → (parse source file).1.statements = [.expression t e] →
      (parse (parse source file).1.render file').2 = [] ∧
        (parse (parse source file).1.render file').1.render = (parse source file).1.render := by
  intro h
  let source := String.ofList (List.replicate 128 '-' ++ ['1'])
  have hsource : (parse source none).2 = [] ∧
      (parse source none).1.statements.map Statement.textNesting = [257] := by decide +kernel
  obtain ⟨hclean, hone⟩ := hsource
  obtain ⟨s, hs, hnesting⟩ := List.map_eq_singleton_iff.mp hone
  have hgenuine : s.Genuine := genuine_of_mem_parse (hs ▸ List.mem_singleton_self s)
  cases hgenuine with
  | letBinding => cases hnesting
  | returning => cases hnesting
  | @expression t e _ =>
    have hreparse := (h source none none t e hclean hs).1
    rw [render_of_expression hs] at hreparse
    have hle := textNesting_le_of_parse_render hs hreparse
    have hnesting : e.textNesting = 257 := hnesting
    rw [hnesting] at hle
    exact absurd hle (by decide)

end ScriptFrontEnd
