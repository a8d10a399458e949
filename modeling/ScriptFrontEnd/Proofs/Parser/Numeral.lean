import ScriptFrontEnd.Proofs.Parser.Sentence
import ScriptFrontEnd.Proofs.Token.Numeral

namespace ScriptFrontEnd

namespace Numeral

theorem value?_eq_none_iff {text : String} :
    value? text = none ↔ ¬ ∃ n, Denotes (radix text.toList) text.toList n ∧ n < 2 ^ 63 := by
  rw [Option.eq_none_iff_forall_ne_some]
  simp only [ne_eq, value?_eq_some_iff]
  constructor
  · rintro h ⟨n, hn, hlt⟩
    exact h _ ⟨n, hn, hlt, rfl⟩
  · rintro h v ⟨n, hn, hlt, -⟩
    exact h ⟨n, hn, hlt⟩

theorem Denotes.exists_value {text : String} {n : Nat}
    (h : Denotes (radix text.toList) text.toList n) (hn : n ≤ 2 ^ 63 - 1) :
    ∃ v : Int64, v.toInt = n ∧ value? text = some v := by
  have hlt : n < 2 ^ 63 := by omega
  exact ⟨_, Int64.toInt_ofNat_of_lt hlt, value?_eq_some_iff.mpr ⟨n, h, hlt, rfl⟩⟩

theorem exists_denotes_decimal {digits : List Char} (hne : digits ≠ [])
    (hdigits : ∀ c ∈ digits, c.isDigit) : ∃ n, Denotes 10 digits n := by
  refine ⟨_, hne, fun c hc => ⟨hdigits c hc, ?_⟩, rfl⟩
  obtain ⟨-, hlt⟩ := toNat_of_isDigit (hdigits c hc)
  have hzero : '0'.toNat = 48 := rfl
  unfold digitValue
  omega

theorem Denotes.zeros_append {base n : Nat} {digits : List Char} (h : Denotes base digits n)
    (k : Nat) : Denotes base (List.replicate k '0' ++ digits) n where
  ne_nil := by simp [h.ne_nil]
  digit := by
    obtain ⟨c, hc⟩ := List.exists_mem_of_ne_nil _ h.ne_nil
    have hbase : 0 < base := Nat.zero_lt_of_lt (h.digit c hc).2
    refine List.forall_mem_append.mpr ⟨fun d hd => ?_, h.digit⟩
    rw [List.eq_of_mem_replicate hd]
    exact ⟨by decide, hbase⟩
  positional := by
    rw [List.reverse_append, List.map_append, List.reverse_replicate, List.map_replicate]
    exact (Nat.ofDigits_append_replicate_zero _).trans h.positional

theorem radix_zeros_append {digits : List Char} (hne : digits ≠ []) {k : Nat} (hk : 0 < k) :
    radix (List.replicate k '0' ++ digits) = 8 := by
  have hlength := List.length_pos_iff.mpr hne
  refine if_pos ⟨?_, ?_⟩
  · rw [List.length_append, List.length_replicate]
    omega
  · obtain ⟨k, rfl⟩ := Nat.exists_eq_succ_of_ne_zero (Nat.ne_of_gt hk)
    rfl

theorem radix_eq_eight_iff (digits : List Char) : radix digits = 8 ↔ isOctal digits := by
  rw [← base_eq_radix, base]
  split <;> simp_all

theorem radix_eq_ten_iff (digits : List Char) : radix digits = 10 ↔ ¬ isOctal digits := by
  rw [← base_eq_radix, base]
  split <;> simp_all

end Numeral

section

variable {d : String} (hne : d ≠ "") (hdigits : ∀ c ∈ d.toList, c.isDigit) (file : Option String)

include hne hdigits

theorem Cursor.ahead_ofSource_digits : (ofSource d file).ahead =
    [⟨.int, d, Span.ofOffsets 0 d.utf8ByteSize (file.getD "shell")⟩] := by
  have hunits : units d = d.toList :=
    units_of_ascii fun c hc => Nat.lt_trans (toNat_of_isDigit (hdigits c hc)).2 (by decide)
  have hsize : d.toList.length = d.utf8ByteSize := by rw [← hunits, length_units]
  obtain ⟨c, rest, hd⟩ := List.exists_cons_of_ne_nil (String.toList_eq_nil_iff.not.mpr hne)
  rw [hd] at hdigits
  obtain ⟨hc, hrest⟩ := List.forall_mem_cons.mp hdigits
  have hfirst : Lexeme.first c rest = ⟨.int, c :: rest⟩ := by
    rw [Lexeme.first_of_digit hc, List.takeWhile_eq_self_iff.mpr hrest]
  change Lexer.tokens ⟨file.getD "shell", 0, units d⟩ = _
  rw [hunits, hd, Lexer.tokens_cons (not_isWhitespace_of_class (.inr hc)), hfirst,
    List.drop_length, Lexer.tokens_nil]
  rw [Lexer.tokenHere, Lexeme.text, ← hd, String.ofList_toList, hsize, Nat.zero_add]

theorem parse_of_value {v : Int64} (hv : Numeral.value? d = some v) :
    let token : Token := ⟨.int, d, Span.ofOffsets 0 d.utf8ByteSize (file.getD "shell")⟩
    parse d file = (⟨[.expression token (.integer token v)]⟩, []) := by
  intro token
  have hw : (Phrase.leaf token).WellFormed .standard := rfl
  exact hw.parse_eq (.integer rfl hv) (Cursor.ahead_ofSource_digits hne hdigits file)
    (Nat.le_add_left 1 255) rfl

theorem parse_of_no_value (hv : Numeral.value? d = none) :
    parse d file = (⟨[]⟩, [⟨.badNumeral d, ⟨0, file.getD "shell"⟩⟩]) := by
  have htokens := Cursor.ahead_ofSource_digits hne hdigits file
  rw [Cursor.ahead_ofSource] at htokens
  exact parse_of_refused htokens rfl (.numeral rfl rfl hv)

theorem parse_of_denotes {n : Nat} (hn : Numeral.Denotes (Numeral.radix d.toList) d.toList n)
    (hle : n ≤ 2 ^ 63 - 1) :
    let token : Token := ⟨.int, d, Span.ofOffsets 0 d.utf8ByteSize (file.getD "shell")⟩
    ∃ v : Int64, v.toInt = n ∧ parse d file = (⟨[.expression token (.integer token v)]⟩, []) := by
  intro token
  obtain ⟨v, hint, hv⟩ := hn.exists_value hle
  exact ⟨v, hint, parse_of_value hne hdigits file hv⟩

theorem parse_digits :
    let token : Token := ⟨.int, d, Span.ofOffsets 0 d.utf8ByteSize (file.getD "shell")⟩
    let base := Numeral.radix d.toList
    (∀ n, Numeral.Denotes base d.toList n → n ≤ 2 ^ 63 - 1 → ∃ v : Int64, v.toInt = n ∧
        parse d file = (⟨[.expression token (.integer token v)]⟩, [])) ∧
      ((¬ ∃ n, Numeral.Denotes base d.toList n ∧ n ≤ 2 ^ 63 - 1) → ∃ x : Diagnostic,
        parse d file = (⟨[]⟩, [x]) ∧ x.cause = .badNumeral d ∧
        x.position = ⟨0, file.getD "shell"⟩ ∧
        (base = 8 → x.cause.tip =
          some ("Invalid integer: `" ++ d ++ "`, a leading `0` makes it octal")) ∧
        (base = 10 → x.cause.tip =
            some ("Invalid integer: `" ++ d ++ "`, is it above the integer limit?") ∧
          ∃ n, Numeral.Denotes 10 d.toList n ∧ 2 ^ 63 - 1 < n)) ∧
      ∀ k n, 0 < k → Numeral.Denotes 8 d.toList n → n ≤ 2 ^ 63 - 1 →
        ∃ (t : Token) (v : Int64), v.toInt = n ∧
          parse (String.ofList (List.replicate k '0') ++ d) file =
            (⟨[.expression t (.integer t v)]⟩, []) := by
  intro token base
  refine ⟨fun n hn hle => parse_of_denotes hne hdigits file hn hle, fun hnone => ?_,
    fun k n hk hn hle => ?_⟩
  · have hv : Numeral.value? d = none := by
      rw [Numeral.value?_eq_none_iff]
      rintro ⟨n, hn, hlt⟩
      exact hnone ⟨n, hn, by omega⟩
    refine ⟨_, parse_of_no_value hne hdigits file hv, rfl, rfl, fun hoctal => ?_, fun hten => ?_⟩
    · exact if_pos ((Numeral.radix_eq_eight_iff _).mp hoctal)
    · obtain ⟨n, hn⟩ :=
        Numeral.exists_denotes_decimal (String.toList_eq_nil_iff.not.mpr hne) hdigits
      have hlarge : 2 ^ 63 - 1 < n := Nat.lt_of_not_le fun hle => hnone ⟨n, hten ▸ hn, hle⟩
      exact ⟨if_neg ((Numeral.radix_eq_ten_iff _).mp hten), n, hn, hlarge⟩
  · let longer := String.ofList (List.replicate k '0') ++ d
    have hlist : longer.toList = List.replicate k '0' ++ d.toList := by
      rw [String.toList_append, String.toList_ofList]
    have hzeros : Numeral.Denotes (Numeral.radix longer.toList) longer.toList n := by
      rw [hlist, Numeral.radix_zeros_append hn.ne_nil hk]
      exact hn.zeros_append k
    have hlonger : longer ≠ "" := String.toList_eq_nil_iff.not.mp hzeros.ne_nil
    obtain ⟨v, hint, hparse⟩ :=
      parse_of_denotes hlonger (fun c hc => (hzeros.digit c hc).1) file hzeros hle
    exact ⟨_, v, hint, hparse⟩

end

theorem parse_digits_at_limit :
    (∃ (t : Token) (v : Int64), v.toInt = 2 ^ 63 - 1 ∧
        parse "00777777777777777777777" none = (⟨[.expression t (.integer t v)]⟩, [])) ∧
      ∃ x : Diagnostic, parse "9223372036854775808" none = (⟨[]⟩, [x]) ∧
        x.cause.tip =
          some "Invalid integer: `9223372036854775808`, is it above the integer limit?" := by
  have hoctal : Numeral.Denotes 8 "0777777777777777777777".toList (2 ^ 63 - 1) :=
    ⟨by decide, by simp [Numeral.digitValue], by decide⟩
  have hlarge : ¬ ∃ n, Numeral.Denotes 10 "9223372036854775808".toList n ∧ n ≤ 2 ^ 63 - 1 := by
    rintro ⟨n, ⟨-, -, hn⟩, hle⟩
    rw [← hn] at hle
    revert hle
    decide
  obtain ⟨-, -, hzeros⟩ := parse_digits (d := "0777777777777777777777") (by decide) (by simp) none
  obtain ⟨-, hreport, -⟩ := parse_digits (d := "9223372036854775808") (by decide) (by simp) none
  obtain ⟨x, hparse, -, -, -, htip⟩ := hreport hlarge
  exact ⟨hzeros 1 _ Nat.zero_lt_one hoctal le_rfl, x, hparse, (htip rfl).1⟩

end ScriptFrontEnd
