import ScriptFrontEnd.Proofs.Token.Bytes

namespace ScriptFrontEnd

open Byte

theorem takeWhile_map_unit {p : Char → Bool} {run rest : List UInt8}
    (hrun : ∀ b ∈ run, p (unit b)) (hrest : ∀ b ∈ rest.head?, ¬ p (unit b)) :
    ((run ++ rest).map unit).takeWhile p = run.map unit := by
  have hrun : ∀ c ∈ run.map unit, p c := by
    simpa using hrun
  rw [List.map_append, List.takeWhile_append_of_pos hrun]
  cases rest with
  | nil => simp
  | cons b rest =>
    have hb : ¬ p (unit b) := hrest b rfl
    rw [List.map_cons, List.takeWhile_cons_of_neg hb, List.append_nil]

theorem exists_run (p : UInt8 → Prop) [DecidablePred p] (bytes : List UInt8) :
    ∃ run rest, bytes = run ++ rest ∧ (∀ b ∈ run, p b) ∧ ∀ b ∈ rest.head?, ¬ p b := by
  refine ⟨bytes.takeWhile p, bytes.dropWhile p, List.takeWhile_append_dropWhile.symm, ?_, ?_⟩
  · exact fun b hb => by simpa using List.mem_takeWhile_imp hb
  · intro b hb
    have h := List.head?_dropWhile_not (fun b => decide (p b)) bytes
    rw [Option.mem_def.mp hb] at h
    simpa using h

namespace Lexeme

variable {b : UInt8} {run rest : List UInt8}

theorem first_of_word_run (hrun : ∀ x ∈ b :: run, IsWord x) (hrest : ∀ x ∈ rest.head?, ¬ IsWord x) :
    first (unit b) ((run ++ rest).map unit) =
      ⟨Kind.ofWord (String.ofList ((b :: run).map unit)), (b :: run).map unit⟩ := by
  obtain ⟨hb, hrun⟩ := List.forall_mem_cons.mp hrun
  have htake : ((run ++ rest).map unit).takeWhile isWordChar = run.map unit :=
    takeWhile_map_unit (fun x hx => (isWordChar_unit x).mpr (hrun x hx))
      fun x hx h => hrest x hx ((isWordChar_unit x).mp h)
  rw [first_of_word ((isWordChar_unit b).mpr hb), htake, List.map_cons]

theorem first_of_digit_run (hrun : ∀ x ∈ b :: run, IsDigit x)
    (hrest : ∀ x ∈ rest.head?, ¬ IsDigit x) :
    first (unit b) ((run ++ rest).map unit) = ⟨.int, (b :: run).map unit⟩ := by
  obtain ⟨hb, hrun⟩ := List.forall_mem_cons.mp hrun
  have htake : ((run ++ rest).map unit).takeWhile Char.isDigit = run.map unit :=
    takeWhile_map_unit (fun x hx => (isDigit_unit x).mpr (hrun x hx))
      fun x hx h => hrest x hx ((isDigit_unit x).mp h)
  rw [first_of_digit ((isDigit_unit b).mpr hb), htake, List.map_cons]

end Lexeme

theorem not_isBlank_of_class {b : UInt8} (h : IsWord b ∨ IsDigit b) : ¬ IsBlank b := by
  rw [← isWhitespace_unit]
  rw [← isWordChar_unit, ← isDigit_unit] at h
  exact not_isWhitespace_of_class h

theorem head?_map_unit {c : Char} (hc : c.toNat < 128) (bytes : List UInt8) :
    (bytes.map unit).head? = some c ↔ bytes.head? = some c.toUInt8 := by
  simp [List.head?_map, Option.map_eq_some_iff, unit_eq_iff hc]

namespace Munch

variable {covered rest : List UInt8} {next : Option UInt8} {kind : Kind}

theorem ofWord_of_reserved {word : String} (h : (word, kind) ∈ Kind.reserved) :
    utf8 word ≠ [] ∧ (∀ b ∈ utf8 word, IsWord b) ∧
      Kind.ofWord (String.ofList ((utf8 word).map unit)) = kind := by
  have hall : ∀ p ∈ Kind.reserved, utf8 p.1 ≠ [] ∧ (∀ b ∈ utf8 p.1, IsWord b) ∧
      Kind.ofWord (String.ofList ((utf8 p.1).map unit)) = p.2 := by
    decide +kernel
  exact hall _ h

theorem ofWord_of_not_reserved (hrun : ∀ b ∈ covered, IsWord b)
    (hnone : ∀ p ∈ Kind.reserved, covered ≠ utf8 p.1) :
    Kind.ofWord (String.ofList (covered.map unit)) = .identifier := by
  have hascii : ∀ b ∈ covered, b < 128 := fun b hb => lt_of_class (.inl (hrun b hb))
  rcases Kind.ofWord_eq_identifier_or (String.ofList (covered.map unit)) with ⟨hk, -⟩ | hmem
  · exact hk
  · exact absurd (utf8_ofList_map_unit hascii).symm (hnone _ hmem)

theorem first_eq (h : Munch rest.head? covered kind) :
    ∃ b run, covered = b :: run ∧ ¬ IsBlank b ∧
      Lexeme.first (unit b) ((run ++ rest).map unit) = ⟨kind, covered.map unit⟩ := by
  have hword {covered : List UInt8} {kind : Kind} (hne : covered ≠ [])
      (hrun : ∀ b ∈ covered, IsWord b)
      (hkind : Kind.ofWord (String.ofList (covered.map unit)) = kind)
      (hrest : ∀ b ∈ rest.head?, ¬ IsWord b) :
      ∃ b run, covered = b :: run ∧ ¬ IsBlank b ∧
        Lexeme.first (unit b) ((run ++ rest).map unit) = ⟨kind, covered.map unit⟩ := by
    obtain ⟨b, run, rfl⟩ := List.exists_cons_of_ne_nil hne
    exact ⟨b, run, rfl, not_isBlank_of_class (.inl (hrun b (List.mem_cons_self ..))),
      hkind ▸ Lexeme.first_of_word_run hrun hrest⟩
  cases h with
  | @keyword word kind hmem hrest =>
    obtain ⟨hne, hrun, hkind⟩ := ofWord_of_reserved hmem
    exact hword hne hrun hkind hrest
  | name hne hrun hnone hrest => exact hword hne hrun (ofWord_of_not_reserved hrun hnone) hrest
  | numeral hne hrun hrest =>
    obtain ⟨b, run, rfl⟩ := List.exists_cons_of_ne_nil hne
    exact ⟨b, run, rfl, not_isBlank_of_class (.inr (hrun b (List.mem_cons_self ..))),
      Lexeme.first_of_digit_run hrun hrest⟩
  | equals => exact ⟨_, _, rfl, by decide, rfl⟩
  | notEquals => exact ⟨_, _, rfl, by decide, rfl⟩
  | assignment hrest =>
    have hhead := (head?_map_unit (c := '=') (by decide) rest).not.mpr hrest
    exact ⟨_, _, rfl, by decide, if_neg hhead⟩
  | not hrest =>
    have hhead := (head?_map_unit (c := '=') (by decide) rest).not.mpr hrest
    exact ⟨_, _, rfl, by decide, if_neg hhead⟩
  | @punctuation c kind hmem =>
    have hblank : ∀ p ∈ Kind.punctuation, ¬ IsBlank p.1.toUInt8 := by decide
    refine ⟨c.toUInt8, [], rfl, hblank _ hmem, ?_⟩
    exact Lexeme.first_of_punctuation (ofPunctuation?_unit.mpr ⟨c, hmem, rfl⟩) _
  | @illegal b hblank hletter hdigit heq hbang hnone =>
    refine ⟨b, [], rfl, hblank, ?_⟩
    have hpunctuation : Kind.ofPunctuation? (unit b) = none := by
      cases hk : Kind.ofPunctuation? (unit b) with
      | none => rfl
      | some k =>
        obtain ⟨c, hmem, hb⟩ := ofPunctuation?_unit.mp hk
        exact absurd hb (hnone _ hmem)
    have heq := (unit_eq_iff (c := '=') (by decide) b).not.mpr heq
    have hbang := (unit_eq_iff (c := '!') (by decide) b).not.mpr hbang
    rw [← isWordChar_unit] at hletter
    rw [← isDigit_unit] at hdigit
    simp only [Lexeme.first, hpunctuation, if_neg heq, if_neg hbang, if_neg hletter,
      if_neg hdigit]
    rfl

theorem ascii_or_stray (h : Munch next covered kind) :
    (∀ b ∈ covered, b < 128) ∨ ∃ b, 128 ≤ b ∧ covered = [b] ∧ kind = .illegal := by
  have hsign (sign : String) (hs : (utf8 sign).all (· < 128)) : ∀ b ∈ utf8 sign, b < 128 := by
    simpa using hs
  cases h with
  | keyword hmem =>
    obtain ⟨-, hrun, -⟩ := ofWord_of_reserved hmem
    exact .inl fun b hb => lt_of_class (.inl (hrun b hb))
  | name hne hrun => exact .inl fun b hb => lt_of_class (.inl (hrun b hb))
  | numeral hne hrun => exact .inl fun b hb => lt_of_class (.inr (hrun b hb))
  | equals => exact .inl (hsign "==" rfl)
  | notEquals => exact .inl (hsign "!=" rfl)
  | assignment => exact .inl (hsign "=" rfl)
  | not => exact .inl (hsign "!" rfl)
  | punctuation hmem =>
    have hall : ∀ p ∈ Kind.punctuation, p.1.toUInt8 < 128 := by decide
    exact .inl (List.forall_mem_singleton.mpr (hall _ hmem))
  | @illegal b =>
    by_cases hb : b < 128
    · exact .inl (List.forall_mem_singleton.mpr hb)
    · exact .inr ⟨b, UInt8.not_lt.mp hb, rfl, rfl⟩

theorem text_iff (h : Munch next covered kind) {text : String} :
    ((∀ b ∈ covered, b < 128) ∧ utf8 text = covered ∨
        ∃ b, 128 ≤ b ∧ covered = [b] ∧ kind = .illegal ∧ text = "\uFFFD") ↔
      text = String.ofList (covered.map unit) := by
  have hstray {b : UInt8} (hb : 128 ≤ b) : String.ofList ([b].map unit) = "\uFFFD" := by
    rw [List.map_singleton, unit, if_neg (UInt8.not_lt.mpr hb)]
    decide
  constructor
  · rintro (⟨hascii, htext⟩ | ⟨b, hb, rfl, -, rfl⟩)
    · rw [← utf8_inj, htext, utf8_ofList_map_unit hascii]
    · exact (hstray hb).symm
  · rintro rfl
    rcases h.ascii_or_stray with hascii | ⟨b, hb, rfl, hkind⟩
    · exact .inl ⟨hascii, utf8_ofList_map_unit hascii⟩
    · exact .inr ⟨b, hb, rfl, hkind, hstray hb⟩

theorem kind_ne_eof (h : Munch next covered kind) : kind ≠ .eof := by
  have hreserved : ∀ p ∈ Kind.reserved, p.2 ≠ .eof := by decide
  have hpunctuation : ∀ p ∈ Kind.punctuation, p.2 ≠ .eof := by decide
  cases h with
  | keyword hmem => exact hreserved _ hmem
  | punctuation hmem => exact hpunctuation _ hmem
  | _ => simp

end Munch

theorem exists_munch {b : UInt8} (hb : ¬ IsBlank b) (rest : List UInt8) :
    ∃ run more kind, rest = run ++ more ∧ Munch more.head? (b :: run) kind := by
  have hsign {one two : Kind} (hone : rest.head? ≠ some '='.toUInt8 → Munch rest.head? [b] one)
      (htwo : ∀ more : List UInt8, Munch more.head? (b :: ['='.toUInt8]) two) :
      ∃ run more kind, rest = run ++ more ∧ Munch more.head? (b :: run) kind := by
    by_cases hhead : rest.head? = some '='.toUInt8
    · obtain ⟨more, rfl⟩ := List.head?_eq_some_iff.mp hhead
      exact ⟨['='.toUInt8], more, two, rfl, htwo more⟩
    · exact ⟨[], rest, one, rfl, hone hhead⟩
  by_cases hword : IsWord b
  · obtain ⟨run, more, rfl, hrun, hmore⟩ := exists_run IsWord rest
    by_cases hreserved : ∃ p ∈ Kind.reserved, b :: run = utf8 p.1
    · obtain ⟨p, hp, hutf8⟩ := hreserved
      exact ⟨run, more, p.2, rfl, hutf8 ▸ .keyword hp hmore⟩
    · refine ⟨run, more, _, rfl, .name (by simp) (List.forall_mem_cons.mpr ⟨hword, hrun⟩) ?_ hmore⟩
      exact fun p hp heq => hreserved ⟨p, hp, heq⟩
  by_cases hdigit : IsDigit b
  · obtain ⟨run, more, rfl, hrun, hmore⟩ := exists_run IsDigit rest
    exact ⟨run, more, _, rfl,
      .numeral (by simp) (List.forall_mem_cons.mpr ⟨hdigit, hrun⟩) hmore⟩
  by_cases heq : b = '='.toUInt8
  · subst heq
    exact hsign .assignment fun _ => .equals
  by_cases hbang : b = '!'.toUInt8
  · subst hbang
    exact hsign .not fun _ => .notEquals
  by_cases hpunctuation : ∃ p ∈ Kind.punctuation, b = p.1.toUInt8
  · obtain ⟨p, hp, rfl⟩ := hpunctuation
    exact ⟨[], rest, p.2, rfl, .punctuation hp⟩
  · refine ⟨[], rest, _, rfl, .illegal hb hword hdigit heq hbang ?_⟩
    exact fun p hp hbp => hpunctuation ⟨p, hp, hbp⟩

end ScriptFrontEnd
