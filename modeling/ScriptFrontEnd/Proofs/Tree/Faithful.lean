import ScriptFrontEnd.Proofs.Tree.Genuine
import ScriptFrontEnd.Proofs.Tree.Written

namespace ScriptFrontEnd

namespace Expr.Genuine

variable {e f : Expr}

theorem bareTokens_render (h : e.Genuine) :
    bareTokens (units e.render) = (e.mapTokens Token.unplaced).phrase.tokens :=
  (Statement.Genuine.expression (t := .opening) h).bareTokens_render

theorem unplaced_eq_of_render_eq (he : e.Genuine) (hf : f.Genuine) (h : e.render = f.render) :
    e.mapTokens Token.unplaced = f.mapTokens Token.unplaced := by
  have htokens : (e.mapTokens Token.unplaced).phrase.tokens =
      (f.mapTokens Token.unplaced).phrase.tokens := by
    rw [← he.bareTokens_render, ← hf.bareTokens_render, h]
  have hphrase := he.unplaced.wellFormed_phrase.unique Rules.regular_standard
    hf.unplaced.wellFormed_phrase htokens
  have hdenotes := hf.unplaced.denotes_phrase
  rw [← hphrase] at hdenotes
  exact he.unplaced.denotes_phrase.unique hdenotes

end Expr.Genuine

theorem render_eq_iff_of_mem_nodes {source source' : String} {file file' : Option String}
    {e f : Expr} (he : .expression e ∈ (parse source file).1.nodes)
    (hf : .expression f ∈ (parse source' file').1.nodes) :
    e.render = f.render ↔ e.mapTokens Token.unplaced = f.mapTokens Token.unplaced := by
  have hkeep (t : Token) : t.unplaced.text = t.text := rfl
  constructor
  · exact (genuine_of_mem_nodes he).unplaced_eq_of_render_eq (genuine_of_mem_nodes hf)
  · intro h
    rw [← e.render_mapTokens hkeep, h, f.render_mapTokens hkeep]

theorem unplaced_eq_of_render_sum :
    let sum (one plus x : Token) : Expr :=
      .binary plus (.integer one 1) "+" (.identifier ⟨x, "x"⟩)
    let token (kind : Kind) (text : String) (start stop : Nat) : Token :=
      ⟨kind, text, Span.ofOffsets start stop "shell"⟩
    let e := sum (token .int "1" 1 2) (token .plus "+" 3 4) (token .identifier "x" 5 6)
    let f := sum (token .int "1" 2 3) (token .plus "+" 3 4) (token .identifier "x" 4 5)
    .expression e ∈ (parse "(1 + x) * 2" none).1.nodes ∧
      .expression f ∈ (parse ") 1+x" none).1.nodes ∧
      e.mapTokens Token.unplaced = f.mapTokens Token.unplaced := by
  intro sum token e f
  have he : .expression e ∈ (parse "(1 + x) * 2" none).1.nodes := by decide +kernel
  have hf : .expression f ∈ (parse ") 1+x" none).1.nodes := by decide +kernel
  have hrender : e.render = f.render := by decide +kernel
  exact ⟨he, hf, (render_eq_iff_of_mem_nodes he hf).mp hrender⟩

end ScriptFrontEnd
