import Mathlib.Data.List.Basic
import ScriptFrontEnd.Proofs.Token.Spelling

namespace ScriptFrontEnd

theorem takeWhile_eq_of_prefix {α : Type} {p : α → Bool} {a b : List α} (h : a <+: b)
    (hp : b.takeWhile p <+: a) : a.takeWhile p = b.takeWhile p := by
  induction a generalizing b with
  | nil => rw [List.prefix_nil.mp hp, List.takeWhile_nil]
  | cons u a ih =>
    obtain ⟨more, rfl⟩ := h
    by_cases hu : p u
    · rw [List.cons_append, List.takeWhile_cons_of_pos hu] at hp ⊢
      rw [List.takeWhile_cons_of_pos hu]
      exact congrArg (List.cons u) (ih (List.prefix_append a more) (List.cons_prefix_cons.mp hp).2)
    · rw [List.cons_append, List.takeWhile_cons_of_neg hu, List.takeWhile_cons_of_neg hu]

theorem Lexeme.first_eq_of_prefix {c : Char} {rest rest' : List Char} (h : rest' <+: rest)
    (hx : (first c rest).units <+: c :: rest') : first c rest' = first c rest := by
  have hhead (hcc : c = '=' ∨ c = '!') : rest'.head? = some '=' ↔ rest.head? = some '=' := by
    constructor
    · intro hr
      obtain ⟨more, rfl⟩ := h
      rw [List.head?_append, hr]
      rfl
    · intro hr
      have hunits : (first c rest).units = [c, '='] := by
        rcases hcc with rfl | rfl
        · exact congrArg Lexeme.units (if_pos hr : first '=' rest = ⟨.equals, ['=', '=']⟩)
        · exact congrArg Lexeme.units (if_pos hr : first '!' rest = ⟨.notEquals, ['!', '=']⟩)
      rw [hunits] at hx
      obtain ⟨more, hmore⟩ := (List.cons_prefix_cons.mp hx).2
      rw [← hmore]
      rfl
  have htake {p : Char → Bool} (hunits : (first c rest).units = c :: rest.takeWhile p) :
      rest'.takeWhile p = rest.takeWhile p := by
    rw [hunits] at hx
    exact takeWhile_eq_of_prefix h (List.cons_prefix_cons.mp hx).2
  cases hk : Kind.ofPunctuation? c with
  | some k => rw [first_of_punctuation hk, first_of_punctuation hk]
  | none =>
    by_cases heq : c = '='
    · simp only [first, hk, if_pos heq, hhead (.inl heq)]
    · by_cases hbang : c = '!'
      · simp only [first, hk, if_neg heq, if_pos hbang, hhead (.inr hbang)]
      · by_cases hword : isWordChar c
        · rw [first_of_word hword, first_of_word hword,
            htake (congrArg Lexeme.units (first_of_word hword rest))]
        · by_cases hdigit : c.isDigit
          · rw [first_of_digit hdigit, first_of_digit hdigit,
              htake (congrArg Lexeme.units (first_of_digit hdigit rest))]
          · simp only [first, hk, if_neg heq, if_neg hbang, if_neg hword, if_neg hdigit]

theorem exists_prefix_of_lexemes {cs : List Char} {xs ys : List Lexeme}
    (h : lexemes cs = xs ++ ys) : ∃ a, a <+: cs ∧ lexemes a = xs := by
  induction cs using lexemes_induction generalizing xs with
  | nil =>
    rw [lexemes_nil] at h
    obtain ⟨rfl, -⟩ := List.append_eq_nil_iff.mp h.symm
    exact ⟨[], List.prefix_refl _, lexemes_nil⟩
  | blank c cs hc ih =>
    obtain ⟨a, ha, hxs⟩ := ih ((lexemes_cons_of_blank hc cs).symm.trans h)
    exact ⟨c :: a, List.cons_prefix_cons.mpr ⟨rfl, ha⟩, (lexemes_cons_of_blank hc a).trans hxs⟩
  | lexeme c rest hc ih =>
    rw [lexemes_cons hc] at h
    cases xs with
    | nil => exact ⟨[], List.nil_prefix, lexemes_nil⟩
    | cons y xs =>
      obtain ⟨rfl, hmore⟩ := List.cons.inj h
      obtain ⟨a, ⟨b, hb⟩, hxs⟩ := ih hmore
      let x := Lexeme.first c rest
      have hsplit : (x.units ++ a) ++ b = c :: rest := by
        rw [List.append_assoc, hb]
        exact Lexeme.units_first_append_drop c rest
      obtain ⟨front, hfront⟩ : ∃ front, x.units ++ a = c :: front := by
        cases hu : x.units with
        | nil => exact absurd hu (Lexeme.units_first_ne_nil c rest)
        | cons d units =>
          rw [hu] at hsplit
          exact ⟨units ++ a, by rw [← (List.cons.inj hsplit).1, List.cons_append]⟩
      have hprefix : front <+: rest := by
        rw [hfront] at hsplit
        exact ⟨b, (List.cons.inj hsplit).2⟩
      have hfirst : Lexeme.first c front = x :=
        Lexeme.first_eq_of_prefix hprefix (hfront ▸ List.prefix_append _ _)
      refine ⟨x.units ++ a, ⟨b, hsplit⟩, ?_⟩
      rw [hfront, lexemes_cons hc, hfirst, ← hfront, List.drop_left, hxs]

theorem toNat_of_getLast {a : List Char} (h : ∀ x ∈ (lexemes a).getLast?, x.kind ≠ .illegal) :
    ∀ c ∈ a.getLast?, c.toNat < 128 := by
  intro c hc
  by_cases hblank : c.isWhitespace
  · exact toNat_of_isWhitespace hblank
  · obtain ⟨x, hx, hxc⟩ := getLast_units_of_not_blank hc hblank
    have hlegal := Lexeme.legal_of_mem_lexemes (List.mem_of_getLast? hx) (h x hx)
    exact hlegal.ascii c (List.mem_of_getLast? hxc)

theorem exists_prefix_of_flatMap_charUnits {cs : List Char} {a : List Char}
    (h : a <+: cs.flatMap charUnits) (ha : ∀ c ∈ a.getLast?, c.toNat < 128) :
    ∃ front, front <+: cs ∧ front.flatMap charUnits = a := by
  induction cs generalizing a with
  | nil => exact ⟨[], List.prefix_refl _, (List.prefix_nil.mp h).symm⟩
  | cons c cs ih =>
    obtain ⟨b, hb⟩ := h
    rw [List.flatMap_cons] at hb
    rcases List.append_eq_append_iff.mp hb with ⟨inside, hc, -⟩ | ⟨more, rfl, hmore⟩
    · cases hl : a.getLast? with
      | none => exact ⟨[], List.nil_prefix, (List.getLast?_eq_none_iff.mp hl).symm⟩
      | some d =>
        have hd : d ∈ charUnits c := hc ▸ List.mem_append_left _ (List.mem_of_getLast? hl)
        by_cases hascii : c.toNat < 128
        · rw [charUnits, if_pos hascii] at hc
          have hne : a ≠ [] := by
            rintro rfl
            cases hl
          have ha : a = [c] := by
            obtain ⟨u, a, rfl⟩ := List.exists_cons_of_ne_nil hne
            obtain ⟨rfl, hnil⟩ := List.cons.inj hc
            rw [(List.append_eq_nil_iff.mp hnil.symm).1]
          exact ⟨[c], ⟨cs, rfl⟩, by rw [ha]; simp [charUnits, hascii]⟩
        -- the cut would be inside of `c`, right behind a byte that is no character
        · rw [charUnits, if_neg hascii] at hd
          rw [(List.mem_replicate.mp hd).2] at hl
          exact absurd (ha _ hl) (by decide)
    · have hlast : ∀ d ∈ more.getLast?, d.toNat < 128 :=
        fun d hd => ha d (List.mem_getLast?_append_of_mem_getLast? hd)
      obtain ⟨front, hfront, rfl⟩ := ih ⟨b, hmore.symm⟩ hlast
      exact ⟨c :: front, List.cons_prefix_cons.mpr ⟨rfl, hfront⟩, List.flatMap_cons⟩

namespace Token

def spaced (tokens : List Token) : String :=
  String.join (tokens.map fun t => " " ++ t.text)

theorem lexemes_append_spaced {tokens : List Token} (h : ∀ t ∈ tokens, t.Spelled) (a : List Char) :
    lexemes (a ++ units (spaced tokens)) = lexemes a ++ tokens.map Token.lexeme := by
  induction tokens generalizing a with
  | nil =>
    have hempty : units (spaced []) = [] := rfl
    rw [hempty, List.append_nil, List.map_nil, List.append_nil]
  | cons t tokens ih =>
    obtain ⟨ht, htokens⟩ := List.forall_mem_cons.mp h
    have hunits : a ++ units (spaced (t :: tokens)) =
        (a ++ (units " " ++ units t.text)) ++ units (spaced tokens) := by
      simp [spaced, String.join_cons]
    rw [hunits, ih htokens, lexemes_append (not_fuses_space a _), lexemes_space_append,
      ht.lexemes_units_text, List.append_assoc]
    rfl

end Token

theorem exists_source_of_tokens {source : String} {file : Option String}
    {before after more : List Token} (h : (tokenize source file).dropLast = before ++ after)
    (hlast : ∀ t ∈ before.getLast?, t.kind ≠ .illegal) (hmore : ∀ t ∈ more, t.Spelled) :
    ∃ source', bareTokens (units source') = (before ++ more).map Token.unplaced := by
  have hbare := map_unplaced_tokenize source file
  rw [h, List.map_append, bareTokens] at hbare
  obtain ⟨xs, ys, hsplit, hxs, -⟩ := List.map_eq_append_iff.mp hbare.symm
  obtain ⟨a, ha, hlexemes⟩ := exists_prefix_of_lexemes hsplit
  have hlegal : ∀ x ∈ (lexemes a).getLast?, x.kind ≠ .illegal := by
    intro x hx
    have hmap := congrArg List.getLast? hxs
    rw [List.getLast?_map, List.getLast?_map, ← hlexemes, Option.mem_def.mp hx] at hmap
    obtain ⟨t, ht, htx⟩ := Option.map_eq_some_iff.mp hmap.symm
    have hkind : t.kind = x.kind := congrArg Token.kind htx
    exact hkind ▸ hlast t ht
  obtain ⟨front, -, hfront⟩ := exists_prefix_of_flatMap_charUnits ha (toNat_of_getLast hlegal)
  refine ⟨String.ofList front ++ Token.spaced more, ?_⟩
  have hcomp : Lexeme.unplaced ∘ Token.lexeme = Token.unplaced := funext Token.unplaced_lexeme
  rw [bareTokens, units_append, units_ofList, hfront, Token.lexemes_append_spaced hmore, hlexemes,
    List.map_append, hxs, List.map_map, hcomp, List.map_append]

end ScriptFrontEnd
