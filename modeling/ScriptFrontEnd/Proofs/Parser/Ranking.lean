import Mathlib.Data.List.Forall2
import ScriptFrontEnd.Grammar.Fault
import ScriptFrontEnd.Proofs.Parser.Order
import ScriptFrontEnd.Proofs.Parser.Relocation
import ScriptFrontEnd.Proofs.Token.Tokenisation

namespace ScriptFrontEnd

def Position.rank (tokens : List Token) (p : Position) : Position :=
  ⟨(tokens.countP (·.start.offset < p.offset)).toUInt32, ""⟩

theorem Position.rank_append {front back : List Token} {p : Position}
    (hfront : ∀ t ∈ front, t.start.offset < p.offset)
    (hback : ∀ t ∈ back, ¬ t.start.offset < p.offset) :
    p.rank (front ++ back) = ⟨front.length.toUInt32, ""⟩ := by
  have hall : front.countP (·.start.offset < p.offset) = front.length :=
    List.countP_eq_length.mpr (by simpa using hfront)
  have hnone : back.countP (·.start.offset < p.offset) = 0 :=
    List.countP_eq_zero.mpr (by simpa using hback)
  rw [rank, List.countP_append, hall, hnone, Nat.add_zero]

def Token.ranked (i : Nat) (t : Token) : Token :=
  ⟨t.kind, t.text, Span.ofOffsets i (if t.kind = .eof then i else i + 1) ""⟩

section

variable {source : String} (h : source.utf8ByteSize < 2 ^ 32) (file : Option String)

include h

theorem pairwise_stop_tokenize :
    (tokenize source file).Pairwise fun t u => t.stopByte ≤ u.startByte := by
  have hmunch := (tokens_ofSource_iff h file).mp rfl
  refine List.pairwise_append.mpr ⟨hmunch.ordered, List.pairwise_singleton _ _, ?_⟩
  intro t ht u hu
  have hstart : u.startByte = source.utf8ByteSize := by
    rw [List.mem_singleton.mp hu, eofToken_ofSource]
    exact (Token.byte_of_ofOffsets h h).1
  rw [hstart]
  exact (hmunch.munched t ht).stop_le

theorem stop_of_mem_tokenize {t : Token} (ht : t ∈ tokenize source file) :
    t.kind = .eof ∧ t.span.stop = t.span.start ∨ t.kind ≠ .eof ∧ t.startByte < t.stopByte := by
  have hmunch := (tokens_ofSource_iff h file).mp rfl
  rcases List.mem_append.mp ht with ht | ht
  · exact .inr ⟨Lexer.kind_ne_eof_of_mem_tokens ht, (hmunch.munched t ht).start_lt_stop⟩
  · rw [List.mem_singleton.mp ht]
    exact .inl ⟨rfl, rfl⟩

variable {front back : List Token} {t : Token}

theorem rank_start (hsplit : tokenize source file = front ++ t :: back) :
    t.start.rank (tokenize source file) = ⟨front.length.toUInt32, ""⟩ := by
  have hstart := pairwise_start_tokenize h file
  rw [hsplit] at hstart ⊢
  obtain ⟨-, hback, hfront⟩ := List.pairwise_append.mp hstart
  refine Position.rank_append (fun u hu => hfront u hu t (List.mem_cons_self ..)) ?_
  refine List.forall_mem_cons.mpr ⟨UInt32.lt_irrefl _, fun u hu => ?_⟩
  exact UInt32.lt_asymm ((List.pairwise_cons.mp hback).1 u hu)

theorem rank_stop (hsplit : tokenize source file = front ++ t :: back)
    (ht : t.startByte < t.stopByte) :
    t.span.stop.rank (tokenize source file) = ⟨(front.length + 1).toUInt32, ""⟩ := by
  have hstart := pairwise_start_tokenize h file
  have hstop := pairwise_stop_tokenize h file
  rw [hsplit] at hstart hstop ⊢
  obtain ⟨-, -, hfront⟩ := List.pairwise_append.mp hstart
  obtain ⟨-, hback, -⟩ := List.pairwise_append.mp hstop
  have hown : t.start.offset < t.span.stop.offset := UInt32.lt_iff_toNat_lt.mpr ht
  have hbefore : ∀ u ∈ front ++ [t], u.start.offset < t.span.stop.offset := by
    refine List.forall_mem_append.mpr ⟨fun u hu => ?_, List.forall_mem_singleton.mpr hown⟩
    exact UInt32.lt_trans (hfront u hu t (List.mem_cons_self ..)) hown
  have hbehind : ∀ u ∈ back, ¬ u.start.offset < t.span.stop.offset := fun u hu =>
    UInt32.not_lt.mpr (UInt32.le_iff_toNat_le.mpr ((List.pairwise_cons.mp hback).1 u hu))
  have hrank := Position.rank_append hbefore hbehind
  rwa [List.append_assoc, List.singleton_append, List.length_append, List.length_singleton] at hrank

theorem relocate_rank (hsplit : tokenize source file = front ++ t :: back) :
    t.relocate (Position.rank (tokenize source file)) = t.ranked front.length := by
  have hstart : t.span.start.rank _ = _ := rank_start h file hsplit
  rw [Token.relocate, Token.ranked, hstart]
  rcases stop_of_mem_tokenize h file (hsplit ▸ by simp : t ∈ _) with ⟨hk, hstop⟩ | ⟨hk, hlt⟩
  · rw [hstop, hstart, if_pos hk]
    rfl
  · rw [rank_stop h file hsplit hlt, if_neg hk]
    rfl

theorem map_rank_tokenize :
    (tokenize source file).map (Token.relocate (Position.rank (tokenize source file))) =
      (tokenize source file).mapIdx Token.ranked := by
  refine List.ext_getElem (by simp) fun i hi _ => ?_
  rw [List.length_map] at hi
  have hsplit : tokenize source file = (tokenize source file).take i ++
      (tokenize source file)[i] :: (tokenize source file).drop (i + 1) := by
    rw [List.getElem_cons_drop, List.take_append_drop]
  have hlength : ((tokenize source file).take i).length = i :=
    List.length_take_of_le (Nat.le_of_lt hi)
  have hranked := relocate_rank h file hsplit
  rw [hlength] at hranked
  rw [List.getElem_map, List.getElem_mapIdx, hranked]

theorem index_le_startByte {i : Nat} (hi : (tokenize source file)[i]? = some t) :
    i ≤ t.startByte := by
  have hstart := List.pairwise_iff_getElem.mp (pairwise_start_tokenize h file)
  induction i generalizing t with
  | zero => exact Nat.zero_le _
  | succ i ih =>
    obtain ⟨hlt, rfl⟩ := List.getElem?_eq_some_iff.mp hi
    have hi : i < (tokenize source file).length := Nat.lt_of_succ_lt hlt
    have hle := ih (List.getElem?_eq_getElem hi)
    exact Nat.lt_of_le_of_lt hle (UInt32.lt_iff_toNat_lt.mp (hstart i (i + 1) hi hlt (by omega)))

theorem pointsAt_of_getElem? {i : Nat} {d : Diagnostic} (ht : (tokenize source file)[i]? = some t)
    (hd : d.position = t.start) : d.PointsAt (tokenize source file) i := by
  intro j
  constructor
  · rintro ⟨u, hu, hstart⟩
    exact eq_of_start_eq h hu ht (hstart.trans hd)
  · rintro rfl
    exact ⟨t, ht, hd.symm⟩

theorem exists_pointsAt {d : Diagnostic} (hd : d ∈ (parse source file).2) :
    ∃ i, d.PointsAt (tokenize source file) i ∧
      d.position.rank (tokenize source file) = ⟨i.toUInt32, ""⟩ ∧ i < 2 ^ 32 := by
  let c := Cursor.ofSource source file
  have hread := transcript_attempts Rules.regular_standard nestingLimit c rfl
  obtain ⟨front, t, back, hsplit, hposition, -⟩ := hread.exists_token (Nat.zero_lt_succ 255) hd
  have ht : (tokenize source file)[front.length]? = some t := by
    have hsplit : tokenize source file = front ++ t :: back := hsplit
    rw [hsplit, List.getElem?_append_right (Nat.le_refl _), Nat.sub_self]
    rfl
  refine ⟨front.length, pointsAt_of_getElem? h file ht hposition, ?_, ?_⟩
  · rw [hposition]
    exact rank_start h file hsplit
  · exact Nat.lt_of_le_of_lt (index_le_startByte h file ht) t.span.start.offset.toNat_lt

end

theorem mapIdx_ranked (tokens : List Token) :
    (tokens.map Token.unplaced).mapIdx Token.ranked = tokens.mapIdx Token.ranked := by
  refine List.ext_getElem (by simp) fun i hi _ => ?_
  rw [List.getElem_mapIdx, List.getElem_mapIdx, List.getElem_map]
  rfl

theorem Cursor.relocate_ofSource_congr {source source' : String} {file file' : Option String}
    {g g' : Position → Position}
    (h : (tokenize source file).map (Token.relocate g) =
      (tokenize source' file').map (Token.relocate g')) :
    (ofSource source file).relocate g = (ofSource source' file').relocate g' := by
  simp only [tokenize, List.map_append, List.map_cons, List.map_nil] at h
  obtain ⟨hahead, heof⟩ := List.append_inj' h rfl
  have heof := (List.cons.inj heof).1
  simp only [ofSource, ofLexer, relocate, hahead, heof]

theorem attempts_rank_congr {source source' : String} (h : source.utf8ByteSize < 2 ^ 32)
    (h' : source'.utf8ByteSize < 2 ^ 32) {file file' : Option String}
    (htokens : (tokenize source file).map Token.unplaced =
      (tokenize source' file').map Token.unplaced) :
    (attempts .standard nestingLimit (.ofSource source file)).1.map
        (relocateOutcome (Position.rank (tokenize source file))) =
      (attempts .standard nestingLimit (.ofSource source' file')).1.map
        (relocateOutcome (Position.rank (tokenize source' file'))) := by
  -- with ranks for places, the sources have the very same tokens
  have hranked := map_rank_tokenize h file
  rw [← mapIdx_ranked, htokens, mapIdx_ranked, ← map_rank_tokenize h' file'] at hranked
  have hread := attempts_relocate (g := Position.rank (tokenize source file)) .standard nestingLimit
    (.ofSource source file)
  rw [Cursor.relocate_ofSource_congr hranked, attempts_relocate] at hread
  exact (congrArg Prod.fst hread).symm

theorem map_unplaced_relocate (g : Position → Position) (ss : List Statement) :
    (ss.map (Statement.mapTokens (Token.relocate g))).map (Statement.mapTokens Token.unplaced) =
      ss.map (Statement.mapTokens Token.unplaced) := by
  rw [List.map_map]
  exact List.map_congr_left fun s _ => s.mapTokens_mapTokens _ _

theorem map_unplaced_succeeded_congr {g g' : Position → Position}
    {outcomes outcomes' : List (Except Diagnostic Statement)}
    (h : outcomes.map (relocateOutcome g) = outcomes'.map (relocateOutcome g')) :
    (succeeded outcomes).map (Statement.mapTokens Token.unplaced) =
      (succeeded outcomes').map (Statement.mapTokens Token.unplaced) := by
  have hstatements := congrArg succeeded h
  rw [succeeded_relocate, succeeded_relocate] at hstatements
  rw [← map_unplaced_relocate g, hstatements, map_unplaced_relocate]

theorem exists_pointsAt_of_rank_eq {source source' : String} (h : source.utf8ByteSize < 2 ^ 32)
    (h' : source'.utf8ByteSize < 2 ^ 32) {file file' : Option String} {d d' : Diagnostic}
    (hd : d ∈ (parse source file).2) (hd' : d' ∈ (parse source' file').2)
    (heq : d.position.rank (tokenize source file) = d'.position.rank (tokenize source' file')) :
    ∃ i, d.PointsAt (tokenize source file) i ∧ d'.PointsAt (tokenize source' file') i := by
  obtain ⟨i, hi, hrank, hlt⟩ := exists_pointsAt h file hd
  obtain ⟨j, hj, hrank', hlt'⟩ := exists_pointsAt h' file' hd'
  rw [hrank, hrank', Position.mk.injEq] at heq
  have hmod : i % 2 ^ 32 = j % 2 ^ 32 := congrArg UInt32.toNat heq.1
  obtain rfl : i = j := by omega
  exact ⟨i, hi, hj⟩

theorem parse_congr_of_tokens {source source' : String} (h : source.utf8ByteSize < 2 ^ 32)
    (h' : source'.utf8ByteSize < 2 ^ 32) (file file' : Option String)
    (htokens : (tokenize source file).map (fun t => (t.kind, t.text)) =
      (tokenize source' file').map fun t => (t.kind, t.text)) :
    (parse source file).1.mapTokens Token.unplaced =
        (parse source' file').1.mapTokens Token.unplaced ∧
      (parse source file).1.render = (parse source' file').1.render ∧
      List.Forall₂ (fun d d' => d.cause = d'.cause ∧ ∃ i, d.PointsAt (tokenize source file) i ∧
          d'.PointsAt (tokenize source' file') i)
        (parse source file).2 (parse source' file').2 := by
  have hbare : (tokenize source file).map Token.unplaced =
      (tokenize source' file').map Token.unplaced := by
    have hpairs := congrArg (List.map fun p => (⟨p.1, p.2, ⟨.nowhere, .nowhere⟩⟩ : Token)) htokens
    rwa [List.map_map, List.map_map] at hpairs
  have hread := attempts_rank_congr h h' hbare
  have hprogram : (parse source file).1.mapTokens Token.unplaced =
      (parse source' file').1.mapTokens Token.unplaced :=
    congrArg Program.mk (map_unplaced_succeeded_congr hread)
  refine ⟨hprogram, ?_, ?_⟩
  · have hrender (p : Program) : (p.mapTokens Token.unplaced).render = p.render :=
      Program.render_mapTokens (fun t => (rfl : t.unplaced.text = t.text)) p
    rw [← hrender, hprogram, hrender]
  · have hdiagnostics := congrArg failed hread
    rw [failed_relocate, failed_relocate, ← List.forall₂_eq_eq_eq, List.forall₂_map_left_iff,
      List.forall₂_map_right_iff, List.forall₂_iff_zip] at hdiagnostics
    obtain ⟨hlength, hpairs⟩ := hdiagnostics
    refine List.forall₂_iff_zip.mpr ⟨hlength, fun {d d'} hmem => ?_⟩
    obtain ⟨hd, hd'⟩ := List.of_mem_zip hmem
    have hmoved := hpairs hmem
    have hcause : (d.relocate _).cause = (d'.relocate _).cause := congrArg Diagnostic.cause hmoved
    exact ⟨hcause, exists_pointsAt_of_rank_eq h h' hd hd' (congrArg Diagnostic.position hmoved)⟩

theorem parse_congr_of_open_group :
    let source := "(a "
    let source' := " (\n a  "
    let d : Diagnostic := ⟨.unexpectedToken .closeParen .eof, ⟨3, "shell"⟩⟩
    let d' : Diagnostic := ⟨.unexpectedToken .closeParen .eof, ⟨7, "f"⟩⟩
    source.utf8ByteSize < 2 ^ 32 ∧ source'.utf8ByteSize < 2 ^ 32 ∧
      (tokenize source none).map (fun t => (t.kind, t.text)) =
        (tokenize source' (some "f")).map (fun t => (t.kind, t.text)) ∧
      (parse source none).2 = [d] ∧ (parse source' (some "f")).2 = [d'] ∧
      d.PointsAt (tokenize source none) 2 ∧ d'.PointsAt (tokenize source' (some "f")) 2 := by
  intro source source' d d'
  have hsize : source.utf8ByteSize < 2 ^ 32 ∧ source'.utf8ByteSize < 2 ^ 32 := by decide
  have htokens : (tokenize source none).map (fun t => (t.kind, t.text)) =
      (tokenize source' (some "f")).map fun t => (t.kind, t.text) := by decide +kernel
  have hd : (parse source none).2 = [d] := by decide +kernel
  have hd' : (parse source' (some "f")).2 = [d'] := by decide +kernel
  obtain ⟨-, -, h⟩ := parse_congr_of_tokens hsize.1 hsize.2 none (some "f") htokens
  rw [hd, hd'] at h
  have heof : (tokenize source none)[2]? = some ⟨.eof, "", Span.ofOffsets 3 3 "shell"⟩ := by
    decide +kernel
  cases h with
  | cons h _ =>
    obtain ⟨-, i, hi, hi'⟩ := h
    obtain rfl : 2 = i := (hi 2).mp ⟨_, heof, rfl⟩
    exact ⟨hsize.1, hsize.2, htokens, hd, hd', hi, hi'⟩

end ScriptFrontEnd
