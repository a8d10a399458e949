import ScriptFrontEnd.Proofs.Token.Tokenisation
import ScriptFrontEnd.Token.Scanner

namespace ScriptFrontEnd

open Byte

theorem slice?_of_le {bytes : List UInt8} {start stop : Nat} (hstart : start ≤ stop)
    (hstop : stop ≤ bytes.length) : slice? bytes start stop = some (bytes.extract start stop) :=
  if_pos ⟨hstart, hstop⟩

theorem textOfBytes_of_ascii {bytes : List UInt8} (h : ∀ b ∈ bytes, b < 128) :
    textOfBytes bytes = String.ofList (bytes.map unit) := by
  have hbytes : (⟨bytes.toArray⟩ : ByteArray) = (String.ofList (bytes.map unit)).toByteArray := by
    rw [ByteArray.ext_iff, ← Array.toList_inj]
    exact (utf8_ofList_map_unit h).symm
  rw [textOfBytes, hbytes, String.fromUTF8?, dif_pos (String.isValidUTF8 _)]
  rfl

theorem textOfBytes_singleton (b : UInt8) : textOfBytes [b] = String.ofList [unit b] := by
  by_cases h : b < 128
  · exact textOfBytes_of_ascii (List.forall_mem_singleton.mpr h)
  have hinvalid : ¬ (⟨[b].toArray⟩ : ByteArray).IsValidUTF8 := by
    rintro ⟨cs, hcs⟩
    have hbytes : [b] = cs.flatMap String.utf8EncodeChar := by
      have hlist := congrArg (fun bytes => bytes.data.toList) hcs
      rwa [List.utf8Encode, List.toList_data_toByteArray] at hlist
    cases cs with
    | nil => cases hbytes
    | cons c cs =>
      rw [List.flatMap_cons] at hbytes
      have hc : c.toNat < 128 := by
        have hlength := congrArg List.length hbytes
        rw [List.length_append, String.length_utf8EncodeChar, List.length_singleton] at hlength
        have hpos := c.utf8Size_pos
        have hone : c.utf8Size = 1 := by omega
        have hle := UInt32.le_iff_toNat_le.mp (Char.utf8Size_eq_one_iff.mp hone)
        exact Nat.lt_succ_of_le hle
      rw [utf8EncodeChar_of_lt hc, List.singleton_append] at hbytes
      exact h ((List.cons.inj hbytes).1 ▸ toUInt8_lt hc)
  rw [textOfBytes, String.fromUTF8?, dif_neg hinvalid, unit, if_neg h]
  rfl

theorem Kind.ofPunctuationByte?_eq (b : UInt8) :
    Kind.ofPunctuationByte? b = Kind.ofPunctuation? (unit b) := by
  refine Option.ext fun k => ?_
  rw [ofPunctuation?_unit]
  constructor
  · intro h
    obtain ⟨front, back, hsplit, -⟩ := List.lookup_eq_some_iff.mp h
    have hmem : (b, k) ∈ front ++ (b, k) :: back := List.mem_append_right _ List.mem_cons_self
    rw [← hsplit] at hmem
    obtain ⟨⟨c, kind⟩, hc, heq⟩ := List.mem_map.mp hmem
    obtain ⟨rfl, rfl⟩ := Prod.mk.inj heq
    exact ⟨c, hc, rfl⟩
  · rintro ⟨c, hc, rfl⟩
    have hall : ∀ p ∈ Kind.punctuation, Kind.ofPunctuationByte? p.1.toUInt8 = some p.2 := by decide
    exact hall _ hc

namespace Scanner

def lexer (s : Scanner) : Lexer := ⟨s.file, s.pos, (s.bytes.drop s.pos).map unit⟩

structure Ahead (s : Scanner) (n : Nat) (t : Scanner) : Prop where
  source : t.source = s.source
  file : t.file = s.file
  pos : t.pos = s.pos + n
  coherent : t.Coherent

variable {s t u : Scanner} {m n : Nat}

theorem Ahead.bytes (h : s.Ahead n t) : t.bytes = s.bytes := congrArg utf8 h.source

theorem Ahead.trans (h : s.Ahead m t) (h' : t.Ahead n u) : s.Ahead (m + n) u where
  source := h'.source.trans h.source
  file := h'.file.trans h.file
  pos := by rw [h'.pos, h.pos, Nat.add_assoc]
  coherent := h'.coherent

theorem Ahead.lexer (h : s.Ahead n t) : t.lexer = s.lexer.skip n := by
  rw [Scanner.lexer, h.file, h.pos, h.bytes, Scanner.lexer, Lexer.skip, List.map_drop,
    List.map_drop, List.drop_drop]

theorem coherent_ofSource (source : String) (file : Option String) :
    (ofSource source file).Coherent where
  pos_le := Nat.min_le_right _ _
  readPos_eq := rfl
  ch_eq := by
    change (utf8 source)[0]? = (utf8 source)[min 0 _]?
    rw [Nat.zero_min]

namespace Coherent

theorem refl (h : s.Coherent) : s.Ahead 0 s := ⟨rfl, rfl, rfl, h⟩

theorem drop_eq_nil_iff (h : s.Coherent) : s.bytes.drop s.pos = [] ↔ s.ch = none := by
  rw [h.ch_eq, List.drop_eq_nil_iff, List.getElem?_eq_none_iff]

theorem drop_eq_cons {b : UInt8} (h : s.Coherent) (hb : s.ch = some b) :
    s.bytes.drop s.pos = b :: s.bytes.drop (s.pos + 1) := by
  rw [h.ch_eq] at hb
  obtain ⟨hlt, rfl⟩ := List.getElem?_eq_some_iff.mp hb
  exact List.drop_eq_getElem_cons hlt

theorem ch_eq_none_iff (h : s.Coherent) : s.ch = none ↔ s.pos = s.bytes.length := by
  have hle := h.pos_le
  rw [h.ch_eq, List.getElem?_eq_none_iff]
  omega

theorem readChar (h : s.Coherent) (hlt : s.pos < s.bytes.length) : s.Ahead 1 s.readChar := by
  have hread : s.readPos = s.pos + 1 := h.readPos_eq
  have hpos : s.readChar.pos = s.pos + 1 := by
    change min s.readPos s.bytes.length = s.pos + 1
    omega
  refine ⟨rfl, rfl, hpos, ?_, rfl, ?_⟩
  · rw [hpos]
    exact hlt
  · rw [hpos, ← hread]
    rfl

theorem advance (h : s.Coherent) (hle : s.pos + n ≤ s.bytes.length) : s.Ahead n (s.advance n) := by
  induction n generalizing s with
  | zero => exact h.refl
  | succ n ih =>
    have hstep := h.readChar (by omega)
    have hmore := ih hstep.coherent (by rw [hstep.pos, hstep.bytes]; omega)
    have htotal : s.Ahead (1 + n) (s.readChar.advance n) := hstep.trans hmore
    rwa [Nat.add_comm] at htotal

theorem rest_lexer {b : UInt8} (h : s.Coherent) (hb : s.ch = some b) :
    s.lexer.rest = unit b :: (s.bytes.drop (s.pos + 1)).map unit := by
  rw [lexer, h.drop_eq_cons hb, List.map_cons]

theorem rest_lexer_of_none (h : s.Coherent) (hch : s.ch = none) : s.lexer.rest = [] :=
  List.map_eq_nil_iff.mpr (h.drop_eq_nil_iff.mpr hch)

theorem pos_lt {b : UInt8} (h : s.Coherent) (hb : s.ch = some b) : s.pos < s.bytes.length := by
  rw [h.ch_eq] at hb
  exact (List.getElem?_eq_some_iff.mp hb).1

theorem skipBlanks (h : s.Coherent) :
    s.Ahead (s.lexer.rest.takeWhile Char.isWhitespace).length s.skipBlanks := by
  fun_induction Scanner.skipBlanks s with
  | case1 s hch =>
    rw [h.rest_lexer_of_none hch]
    exact h.refl
  | case2 s b hch hb ih =>
    have hstep := h.readChar (h.pos_lt hch)
    have hrest : s.lexer.rest = unit b :: s.readChar.lexer.rest := by
      rw [hstep.lexer, Lexer.skip, h.rest_lexer hch]
      rfl
    rw [hrest, List.takeWhile_cons_of_pos ((isWhitespace_unit b).mpr hb), List.length_cons,
      Nat.add_comm]
    exact hstep.trans (ih hstep.coherent)
  | case3 s b hch hb =>
    rw [h.rest_lexer hch, List.takeWhile_cons_of_neg ((isWhitespace_unit b).not.mpr hb)]
    exact h.refl

end Coherent

def Finds (s : Scanner) (x : Lexeme) (found : Token × Scanner) : Prop :=
  found.1 = s.lexer.tokenHere x ∧ s.Ahead x.units.length found.2

theorem Ahead.tokenTo_eq {x : Lexeme} (h : s.Ahead x.units.length t) :
    s.tokenTo t x.kind x.text = s.lexer.tokenHere x := by
  rw [tokenTo, h.pos]
  rfl

theorem charText_eq {b : UInt8} (hb : s.ch = some b) : s.charText = String.ofList [unit b] := by
  rw [charText, hb]
  exact textOfBytes_singleton b

theorem Coherent.peekChar_eq (h : s.Coherent) :
    s.peekChar = (s.bytes.drop (s.pos + 1)).head? := by
  rw [peekChar, h.readPos_eq, List.head?_drop]

theorem Coherent.exists_run? (h : s.Coherent) {fits : UInt8 → Prop} [DecidablePred fits]
    (hascii : ∀ b, fits b → b < 128) {run rest : List UInt8}
    (hsplit : s.bytes.drop s.pos = run ++ rest) (hrun : ∀ b ∈ run, fits b)
    (hrest : ∀ b ∈ rest.head?, ¬ fits b) (kind : String → Kind) :
    ∃ found, s.run? fits kind = some found ∧
      s.Finds ⟨kind (String.ofList (run.map unit)), run.map unit⟩ found := by
  have htake : (run ++ rest).takeWhile fits = run := by
    rw [List.takeWhile_append_of_pos (by simpa using hrun)]
    cases rest with
    | nil => rw [List.takeWhile_nil, List.append_nil]
    | cons b rest =>
      rw [List.takeWhile_cons_of_neg (by simpa using hrest b rfl), List.append_nil]
  have hremainder : slice? s.bytes s.pos s.bytes.length = some (run ++ rest) := by
    rw [slice?_of_le h.pos_le (Nat.le_refl _), List.extract_eq_take_drop,
      List.take_of_length_le (Nat.le_of_eq List.length_drop), hsplit]
  have hslice : slice? (run ++ rest) 0 run.length = some run := by
    rw [slice?_of_le (Nat.zero_le _) (by simp), List.extract_eq_take_drop, List.drop_zero,
      Nat.sub_zero, List.take_left]
  have htext : textOfBytes run = String.ofList (run.map unit) :=
    textOfBytes_of_ascii fun b hb => hascii b (hrun b hb)
  have hahead : s.Ahead (run.map unit).length (s.advance run.length) := by
    have hlength := congrArg List.length hsplit
    have hpos := h.pos_le
    rw [List.length_drop, List.length_append] at hlength
    rw [List.length_map]
    exact h.advance (by omega)
  have hfound : s.run? fits kind =
      some (s.tokenTo (s.advance run.length) (kind (textOfBytes run)) (textOfBytes run),
        s.advance run.length) := by
    rw [run?, hremainder, Option.bind_eq_bind, Option.bind_some, htake]
    dsimp only
    rw [hslice]
    rfl
  refine ⟨_, hfound, ?_, hahead⟩
  rw [htext]
  exact Ahead.tokenTo_eq (x := ⟨kind (String.ofList (run.map unit)), run.map unit⟩) hahead

section Find

variable {b : UInt8} (h : s.Coherent) (hb : s.ch = some b)

include h hb

theorem finds_single (kind : Kind) : s.Finds ⟨kind, [unit b]⟩ (s.single kind) := by
  have hstep := h.readChar (h.pos_lt hb)
  refine ⟨?_, hstep⟩
  change s.tokenTo s.readChar kind s.charText = _
  rw [charText_eq hb]
  exact Ahead.tokenTo_eq (x := ⟨kind, [unit b]⟩) hstep

theorem finds_oneOrTwo (one two : Kind) :
    s.Finds (if ((s.bytes.drop (s.pos + 1)).map unit).head? = some '=' then ⟨two, [unit b, '=']⟩
      else ⟨one, [unit b]⟩) (s.oneOrTwo one two) := by
  have hhead := head?_map_unit (c := '=') (by decide) (s.bytes.drop (s.pos + 1))
  rw [← h.peekChar_eq] at hhead
  by_cases hnext : s.peekChar = some '='.toUInt8
  · have hfirst := h.readChar (h.pos_lt hb)
    have hlt : s.readChar.pos < s.readChar.bytes.length := by
      rw [hfirst.pos, hfirst.bytes, ← h.readPos_eq]
      exact (List.getElem?_eq_some_iff.mp hnext).1
    have hsecond := hfirst.trans (hfirst.coherent.readChar hlt)
    have htext : (String.ofList [unit b]).push '=' = String.ofList [unit b, '='] := by
      rw [← String.toList_inj, String.toList_push, String.toList_ofList, String.toList_ofList]
      rfl
    rw [if_pos (hhead.mpr hnext), oneOrTwo, if_neg (not_not_intro hnext)]
    refine ⟨?_, hsecond⟩
    change s.tokenTo s.readChar.readChar two (s.charText.push '=') = _
    rw [charText_eq hb, htext]
    exact Ahead.tokenTo_eq (x := ⟨two, [unit b, '=']⟩) hsecond
  · rw [if_neg (hhead.not.mpr hnext), oneOrTwo, if_pos hnext]
    exact finds_single h hb one

theorem exists_tokenHere? : ∃ found, s.tokenHere? = some found ∧
    s.Finds (Lexeme.first (unit b) ((s.bytes.drop (s.pos + 1)).map unit)) found := by
  have hdrop := h.drop_eq_cons hb
  rw [tokenHere?, hb]
  dsimp only
  by_cases heq : b = '='.toUInt8
  · subst heq
    rw [if_pos rfl]
    exact ⟨_, rfl, finds_oneOrTwo h hb .assignment .equals⟩
  by_cases hbang : b = '!'.toUInt8
  · subst hbang
    rw [if_neg (by decide), if_pos rfl]
    exact ⟨_, rfl, finds_oneOrTwo h hb .not .notEquals⟩
  rw [if_neg heq, if_neg hbang, Kind.ofPunctuationByte?_eq]
  cases hk : Kind.ofPunctuation? (unit b) with
  | some kind =>
    rw [Lexeme.first_of_punctuation hk]
    exact ⟨_, rfl, finds_single h hb kind⟩
  | none =>
    dsimp only
    by_cases hword : IsWord b
    · obtain ⟨run, rest, hsplit, hrun, hrest⟩ := exists_run IsWord (s.bytes.drop (s.pos + 1))
      have hrun := List.forall_mem_cons.mpr ⟨hword, hrun⟩
      rw [hsplit] at hdrop
      rw [if_pos hword, hsplit, Lexeme.first_of_word_run hrun hrest]
      exact h.exists_run? (fun _ hw => lt_of_class (.inl hw)) hdrop hrun hrest Kind.ofWord
    by_cases hdigit : IsDigit b
    · obtain ⟨run, rest, hsplit, hrun, hrest⟩ := exists_run IsDigit (s.bytes.drop (s.pos + 1))
      have hrun := List.forall_mem_cons.mpr ⟨hdigit, hrun⟩
      rw [hsplit] at hdrop
      rw [if_neg hword, if_pos hdigit, hsplit, Lexeme.first_of_digit_run hrun hrest]
      exact h.exists_run? (fun _ hd => lt_of_class (.inr hd)) hdrop hrun hrest fun _ => .int
    have hillegal : Lexeme.first (unit b) ((s.bytes.drop (s.pos + 1)).map unit) =
        ⟨.illegal, [unit b]⟩ := by
      have heq := (unit_eq_iff (c := '=') (by decide) b).not.mpr heq
      have hbang := (unit_eq_iff (c := '!') (by decide) b).not.mpr hbang
      have hword := (isWordChar_unit b).not.mpr hword
      have hdigit := (isDigit_unit b).not.mpr hdigit
      simp only [Lexeme.first, hk, if_neg heq, if_neg hbang, if_neg hword, if_neg hdigit]
    rw [if_neg hword, if_neg hdigit, hillegal]
    exact ⟨_, rfl, finds_single h hb .illegal⟩

end Find

theorem Coherent.exists_next? (h : s.Coherent) : ∃ n t, s.next? = some (s.lexer.next.1, t) ∧
    s.Ahead n t ∧ t.lexer = s.lexer.next.2 ∧ (s.lexer.next.1.kind ≠ .eof → 0 < n) := by
  let u := s.skipBlanks
  have hu : s.Ahead _ u := h.skipBlanks
  have hblanks : s.lexer.skipBlanks = u.lexer := hu.lexer.symm
  cases hch : u.ch with
  | none =>
    have hrest : u.lexer.rest = [] := hu.coherent.rest_lexer_of_none hch
    have hnext : s.lexer.next = (s.lexer.eofToken, s.lexer.skip s.lexer.rest.length) := by
      rw [Lexer.next, Lexer.next?, hblanks, hrest]
      rfl
    have hend : u.pos = s.bytes.length := hu.bytes ▸ hu.coherent.ch_eq_none_iff.mp hch
    have hlength : s.lexer.rest.length = s.bytes.length - s.pos := by
      rw [lexer, List.length_map, List.length_drop]
    have hall : s.Ahead s.lexer.rest.length u := by
      refine ⟨hu.source, hu.file, ?_, hu.coherent⟩
      rw [hend, hlength, Nat.add_sub_of_le h.pos_le]
    have hhere : u.tokenHere? = some (u.tokenTo u .eof "", u) := by
      rw [tokenHere?, hch]
    have htoken : u.tokenTo u .eof "" = s.lexer.eofToken := by
      rw [tokenTo, hall.pos, hall.file]
      rfl
    rw [hnext]
    exact ⟨_, u, htoken ▸ hhere, hall, hall.lexer, fun hne => absurd rfl hne⟩
  | some b =>
    have hrest := hu.coherent.rest_lexer hch
    obtain ⟨⟨t, v⟩, hhere, ht, hv⟩ := exists_tokenHere? hu.coherent hch
    have hnext : s.lexer.next? = some (t, v.lexer) := by
      rw [Lexer.next?, hblanks, hrest]
      dsimp only
      rw [← ht, ← hv.lexer]
    have hpos : 0 < (Lexeme.first (unit b) ((u.bytes.drop (u.pos + 1)).map unit)).units.length :=
      List.length_pos_iff.mpr (Lexeme.units_first_ne_nil _ _)
    rw [Lexer.next, hnext]
    exact ⟨_, v, hhere, hu.trans hv, rfl, fun _ => Nat.add_pos_right _ hpos⟩

end Scanner

end ScriptFrontEnd
