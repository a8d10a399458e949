import ScriptFrontEnd.Proofs.Parser.Locality
import ScriptFrontEnd.Proofs.Parser.Meaningless
import ScriptFrontEnd.Proofs.Parser.Ranking
import ScriptFrontEnd.Proofs.Parser.Synchronisation
import ScriptFrontEnd.Proofs.Token.Semicolons
import ScriptFrontEnd.Proofs.Tree.Yield

namespace ScriptFrontEnd

structure SkipsValue (front value back : String) (file : Option String) (s : Statement) : Prop where
  read : ∃ d heading more,
    Tried .standard nestingLimit (.ofSource (front ++ value ++ back) file) d ∧
      (attempt .standard nestingLimit d).1 = .ok s ∧ s.Heading heading ∧
      d.ahead = heading ++ more ∧
      (tokenize (front ++ value ++ back) file).dropLast = (tokenize front file).dropLast ++ more
  value : ';' ∉ value.toList
  back : back = "" ∨ back.toList.head? = some ';'

section

variable {limit : Nat} {rest : List Token} {s : Statement}

theorem Statement.Heading.exists_cons {heading : List Token} (h : s.Heading heading) :
    ∃ t more, heading = t :: more := by
  cases h with
  | letBinding _ => exact ⟨_, _, rfl⟩
  | returning => exact ⟨_, _, rfl⟩

theorem skipped_append {value back : List Token} (hvalue : ∀ t ∈ value, t.kind ≠ .semicolon)
    (hback : ∀ t ∈ back.head?, t.kind = .semicolon) : Skipped (value ++ back) back.tail := by
  cases back with
  | nil => exact (List.append_nil value).symm ▸ .unclosed hvalue
  | cons t back => exact .closed hvalue (hback t rfl)

theorem Segment.replace_value {heading more : List Token}
    (h : Segment .standard limit (heading ++ more) s rest) (hheading : s.Heading heading) :
    (∀ t ∈ s.token :: s.tokens, t ∈ heading) ∧ ∀ value back : List Token,
      (∀ t ∈ value, t.kind ≠ .semicolon) → (∀ t ∈ back.head?, t.kind = .semicolon) →
        Segment .standard limit (heading ++ (value ++ back)) s back.tail := by
  generalize htokens : heading ++ more = tokens at h
  cases hheading with
  | letBinding ha =>
    cases h with
    | letBinding ht hn _ _ =>
      exact ⟨by simp [Statement.token, Statement.tokens], fun value back hvalue hback =>
        .letBinding ht hn ha (skipped_append hvalue hback)⟩
  | @returning t _ =>
    cases h with
    | returning ht _ =>
      have hk : t.kind ≠ .semicolon := by
        simp [(Rules.statementRule_standard_eq_returning_iff _).mp ht]
      exact ⟨by simp [Statement.token, Statement.tokens], fun value back hvalue hback =>
        .returning ht ((skipped_append hvalue hback).cons hk)⟩

end

theorem head?_units {source : String} {c : Char} (h : source.toList.head? = some c)
    (hc : c.toNat < 128) : (units source).head? = some c := by
  obtain ⟨cs, hcs⟩ := List.head?_eq_some_iff.mp h
  rw [units, hcs, List.flatMap_cons, charUnits, if_pos hc]
  rfl

section

variable {front value back : String} {file : Option String}

theorem not_fuses_back (hback : back = "" ∨ back.toList.head? = some ';') (a : List Char) :
    ¬ Fuses a (units back) := by
  rcases hback with rfl | hsemicolon
  · rintro ⟨_, _, _, hd, _⟩
    cases hd
  · exact not_fuses_of_head (head?_units hsemicolon (by decide)) (by decide)

theorem not_fuses_value (hback : back = "" ∨ back.toList.head? = some ';')
    (hvalue : value = "" ∨ value.toList.head? = some ' ') (a : List Char) :
    ¬ Fuses a (units (value ++ back)) := by
  rcases hvalue with rfl | hblank
  · rw [String.empty_append]
    exact not_fuses_back hback a
  · have hhead : (units (value ++ back)).head? = some ' ' := by
      rw [units_append, List.head?_append, head?_units hblank (by decide)]
      rfl
    exact not_fuses_of_head hhead (by decide)

theorem kind_head?_of_back (hback : back = "" ∨ back.toList.head? = some ';')
    (g : Position → Position) :
    ∀ t ∈ ((Cursor.ofSource back file).relocate g).ahead.head?, t.kind = .semicolon := by
  have hkind : ∀ t ∈ (Cursor.ofSource back file).ahead.head?, t.kind = .semicolon := by
    intro t ht
    have hhead := congrArg List.head? (Cursor.map_unplaced_ahead back file)
    rw [List.head?_map, Option.mem_def.mp ht] at hhead
    rcases hback with rfl | hsemicolon
    · rw [show units "" = [] from rfl, bareTokens_nil] at hhead
      cases hhead
    · obtain ⟨more, hmore⟩ := List.head?_eq_some_iff.mp (head?_units hsemicolon (by decide))
      rw [hmore, bareTokens, lexemes_cons (by decide)] at hhead
      exact congrArg Token.kind (Option.some.inj hhead)
  intro t ht
  rw [Cursor.relocate, List.head?_map] at ht
  obtain ⟨u, hu, rfl⟩ := Option.map_eq_some_iff.mp ht
  exact hkind u hu

theorem Cursor.exists_ofSource_value (hvalue : ';' ∉ value.toList)
    (hback : back = "" ∨ back.toList.head? = some ';')
    (hfront : (ofSource front file).ahead <+: (ofSource (front ++ value ++ back) file).ahead) :
    ∃ between, (∀ t ∈ between, t.kind ≠ .semicolon) ∧
      ofSource (front ++ value ++ back) file = ((ofSource front file).followedBy
          ⟨between, (ofSource front file).eof⟩).followedBy
        ((ofSource back file).relocate (Position.shift (front ++ value).utf8ByteSize)) := by
  rw [ofSource_append (not_fuses_back hback (units (front ++ value)))] at hfront ⊢
  have hcount : (ofSource (front ++ value) file).ahead.countP (·.kind = .semicolon) =
      (ofSource front file).ahead.countP (·.kind = .semicolon) := by
    have hwhole := countP_tokens (front ++ value) file
    rw [String.toList_append, List.count_append, List.count_eq_zero.mpr hvalue] at hwhole
    exact hwhole.trans (countP_tokens front file).symm
  have hstart : (ofSource front file).ahead <+: (ofSource (front ++ value) file).ahead := by
    rcases List.prefix_or_prefix_of_prefix hfront (List.prefix_append _ _) with h | ⟨gone, hgone⟩
    · exact h
    -- what the value took away would begin with the semicolon of `back`
    · rw [← hgone] at hfront hcount ⊢
      cases gone with
      | nil => exact List.append_nil _ ▸ List.prefix_refl _
      | cons t gone =>
        obtain ⟨more, hmore⟩ := (List.prefix_append_right_inj _).mp hfront
        have hk := kind_head?_of_back hback _ t (congrArg List.head? hmore.symm)
        rw [List.countP_append, List.countP_cons_of_pos (by simpa using hk)] at hcount
        omega
  obtain ⟨between, hbetween⟩ := hstart
  rw [← hbetween, List.countP_append] at hcount
  have hnone : between.countP (·.kind = .semicolon) = 0 := by omega
  refine ⟨between, by simpa using List.countP_eq_zero.mp hnone, ?_⟩
  simp [followedBy, ← hbetween]

end

theorem Transcript.mem_tokens {limit : Nat} (hl : 0 < limit) {eof : Token} {tokens : List Token}
    {outcomes : List (Except Diagnostic Statement)}
    (h : Transcript .standard limit eof tokens outcomes) :
    (∀ e ∈ failed outcomes, ∃ t ∈ tokens ++ [eof], e.position = t.start) ∧
      ∀ s ∈ succeeded outcomes, ∀ t ∈ s.token :: s.tokens, t ∈ tokens := by
  refine ⟨fun e he => ?_, h.yields.mem⟩
  obtain ⟨before, t, after, hsplit, hposition, -⟩ := h.exists_token hl he
  exact ⟨t, hsplit ▸ by simp, hposition⟩

theorem mem_of_outcomes {limit : Nat} (hl : 0 < limit) {passed : List Token} {u : Token}
    {outcomes : List (Except Diagnostic Statement)}
    (h : ∀ tail eof, eof.kind = .eof → (attempts .standard limit ⟨passed ++ u :: tail, eof⟩).1 =
      outcomes ++ (attempts .standard limit ⟨u :: tail, eof⟩).1) :
    (∀ e ∈ failed outcomes, ∃ t ∈ passed ++ [u], e.position = t.start) ∧
      ∀ s ∈ succeeded outcomes, ∀ t ∈ s.token :: s.tokens, t ∈ passed ++ [u] := by
  let eof : Token := { u with kind := .eof }
  have hread := transcript_attempts Rules.regular_standard limit ⟨passed ++ [u], eof⟩ rfl
  rw [h [] eof rfl] at hread
  obtain ⟨hfailed, hsucceeded⟩ := hread.mem_tokens hl
  rw [failed_append] at hfailed
  rw [succeeded_append] at hsucceeded
  refine ⟨fun e he => ?_, fun s hs => hsucceeded s (List.mem_append_left _ hs)⟩
  obtain ⟨t, ht, hposition⟩ := hfailed e (List.mem_append_left _ he)
  rcases List.mem_append.mp ht with ht | ht
  · exact ⟨t, ht, hposition⟩
  · have hstart : t.start = u.start := by
      rw [List.mem_singleton.mp ht]
      rfl
    exact ⟨u, by simp, hposition.trans hstart⟩

def Cursor.behind (front back : String) (file : Option String) : Cursor :=
  (ofSource back file).advance.relocate (Position.shift front.utf8ByteSize)

namespace SkipsValue

variable {front value back : String} {file : Option String} {s : Statement}

theorem exists_outcomes (h : SkipsValue front value back file s) :
    (Cursor.ofSource front file).ahead <+: (Cursor.ofSource (front ++ value ++ back) file).ahead ∧
      ∃ outcomes, (∀ e ∈ failed outcomes, ∃ t ∈ (Cursor.ofSource front file).ahead,
          e.position = t.start) ∧
        (∀ s ∈ succeeded outcomes, ∀ t ∈ s.token :: s.tokens,
          t ∈ (Cursor.ofSource front file).ahead) ∧
        ∀ value', ';' ∉ value'.toList → (Cursor.ofSource front file).ahead <+:
            (Cursor.ofSource (front ++ value' ++ back) file).ahead →
          (attempts .standard nestingLimit (.ofSource (front ++ value' ++ back) file)).1 =
            outcomes ++ (attempts .standard nestingLimit
              (.behind (front ++ value') back file)).1 := by
  obtain ⟨d, heading, more, htried, hread, hheading, hd, hsource⟩ := h.read
  rw [← Cursor.ahead_ofSource, ← Cursor.ahead_ofSource] at hsource
  obtain ⟨u, hs, rfl⟩ := hheading.exists_cons
  obtain ⟨passed, outcomes, hsplit, hlocal⟩ := htried.exists_outcomes rfl hd
  have hfront : (Cursor.ofSource front file).ahead = passed ++ u :: hs := by
    have hsplit : (Cursor.ofSource (front ++ value ++ back) file).ahead =
        passed ++ (u :: hs ++ more) := hsplit
    rw [hsource, ← List.append_assoc] at hsplit
    exact List.append_cancel_right hsplit
  obtain ⟨rest, hsegment, -⟩ := htried.exists_segment Rules.regular_standard rfl hread
  rw [hd] at hsegment
  obtain ⟨hown, hreplace⟩ := hsegment.replace_value hheading
  obtain ⟨hfailed, hsucceeded⟩ := mem_of_outcomes (Nat.zero_lt_succ 255) hlocal
  have hsub : ∀ t ∈ passed ++ [u], t ∈ (Cursor.ofSource front file).ahead := by
    intro t ht
    rw [hfront, List.append_cons]
    exact List.mem_append_left _ ht
  refine ⟨⟨more, hsource.symm⟩, outcomes ++ [.ok s], ?_, ?_, ?_⟩
  · intro e he
    rw [failed_append, failed_cons_ok] at he
    obtain ⟨t, ht, hposition⟩ := hfailed e (by simpa [failed] using he)
    exact ⟨t, hsub t ht, hposition⟩
  · intro s' hs' t ht
    rw [succeeded_append, succeeded_cons_ok] at hs'
    rcases List.mem_append.mp hs' with hs' | hs'
    · exact hsub t (hsucceeded s' hs' t ht)
    · obtain rfl := List.mem_singleton.mp hs'
      rw [hfront]
      exact List.mem_append_right _ (hown t ht)
  · intro value' hvalue' hstart
    obtain ⟨between, hbetween, hcursor⟩ := Cursor.exists_ofSource_value hvalue' h.back hstart
    let moved :=
      (Cursor.ofSource back file).relocate (Position.shift (front ++ value').utf8ByteSize)
    have hcursor : Cursor.ofSource (front ++ value' ++ back) file =
        ⟨passed ++ u :: (hs ++ (between ++ moved.ahead)), moved.eof⟩ := by
      rw [hcursor]
      simp [Cursor.followedBy, hfront, moved]
    have hstatement : Segment .standard nestingLimit (u :: (hs ++ (between ++ moved.ahead))) s
        moved.ahead.tail := hreplace between moved.ahead hbetween (kind_head?_of_back h.back _)
    have hbehind : (⟨moved.ahead.tail, moved.eof⟩ : Cursor) = .behind (front ++ value') back file :=
      Cursor.advance_relocate _
    rw [hcursor, hlocal _ _ rfl, attempts_of_attempt (List.cons_ne_nil u _)
      (hstatement.attempt_eq_ok Rules.regular_standard rfl), hbehind, List.append_assoc]
    rfl

end SkipsValue

section

variable {source : String} (h : source.utf8ByteSize < 2 ^ 32) (file : Option String) {t : Token}

include h

theorem bytes_of_mem_ahead (ht : t ∈ (Cursor.ofSource source file).ahead) :
    t.startByte < t.stopByte ∧ t.stopByte ≤ source.utf8ByteSize := by
  have hmunched := ((tokens_ofSource_iff h file).mp rfl).munched t ht
  exact ⟨hmunched.start_lt_stop, hmunched.stop_le⟩

theorem startByte_le_of_mem_tokenize (ht : t ∈ tokenize source file) :
    t.startByte ≤ source.utf8ByteSize := by
  rcases List.mem_append.mp ht with ht | ht
  · obtain ⟨hlt, hle⟩ := bytes_of_mem_ahead h file ht
    exact Nat.le_trans (Nat.le_of_lt hlt) hle
  · rw [List.mem_singleton.mp ht, eofToken_ofSource]
    exact Nat.le_of_eq (Token.byte_of_ofOffsets h h).1

end

theorem Token.le_startByte_shift {t : Token} {n : Nat} (h : t.startByte + n < 2 ^ 32) :
    n ≤ (t.shift n).startByte := by
  have hstart : (t.shift n).startByte = (t.startByte + n % 2 ^ 32) % 2 ^ 32 := rfl
  omega

theorem Cursor.le_startByte_behind {front back : String} {file : Option String}
    (h : front.utf8ByteSize + back.utf8ByteSize < 2 ^ 32) {t : Token}
    (ht : t ∈ (behind front back file).ahead ++ [(behind front back file).eof]) :
    front.utf8ByteSize ≤ t.startByte := by
  have hmem : ∃ u ∈ tokenize back file, u.shift front.utf8ByteSize = t := by
    rcases List.mem_append.mp ht with ht | ht
    · obtain ⟨u, hu, rfl⟩ := List.mem_map.mp ht
      exact ⟨u, List.mem_append_left _ (List.mem_of_mem_tail hu), rfl⟩
    · exact ⟨_, List.mem_append_right _ (List.mem_singleton_self _),
        (List.mem_singleton.mp ht).symm⟩
  obtain ⟨u, hu, rfl⟩ := hmem
  have hle := startByte_le_of_mem_tokenize (by omega) file hu
  exact Token.le_startByte_shift (by omega)

theorem parse_replace_value {front value back : String} {file : Option String} {s : Statement}
    (h : SkipsValue front value back file s) {value' : String} (hvalue : ';' ∉ value'.toList)
    (hblank : value' = "" ∨ value'.toList.head? = some ' ')
    (hsize : (front ++ value' ++ back).utf8ByteSize < 2 ^ 32) :
    let old := parse (front ++ value ++ back) file
    let new := parse (front ++ value' ++ back) file
    new.1.mapTokens Token.unplaced = old.1.mapTokens Token.unplaced ∧
      new.2.map Diagnostic.cause = old.2.map Diagnostic.cause ∧
      (∀ e ∈ new.2, e.position.offset.toNat < front.utf8ByteSize ∨
        (front ++ value').utf8ByteSize ≤ e.position.offset.toNat) ∧
      ∀ s ∈ new.1.statements, ∀ t ∈ s.token :: s.tokens,
        t.stopByte ≤ front.utf8ByteSize ∨ (front ++ value').utf8ByteSize ≤ t.startByte := by
  obtain ⟨hstart, outcomes, hfailed, hsucceeded, hread⟩ := h.exists_outcomes
  have hstart' : (Cursor.ofSource front file).ahead <+:
      (Cursor.ofSource (front ++ value' ++ back) file).ahead := by
    rw [String.append_assoc, Cursor.ofSource_append (not_fuses_value h.back hblank _)]
    exact List.prefix_append _ _
  have hold := hread value h.value hstart
  have hnew := hread value' hvalue hstart'
  have hlater := transcript_attempts Rules.regular_standard nestingLimit
    (.behind (front ++ value') back file) rfl
  obtain ⟨hfailed', hsucceeded'⟩ := hlater.mem_tokens (Nat.zero_lt_succ 255)
  rw [String.utf8ByteSize_append] at hsize
  have hfront : front.utf8ByteSize < 2 ^ 32 := by
    rw [String.utf8ByteSize_append] at hsize
    omega
  refine ⟨congrArg Program.mk ?_, ?_, fun e he => ?_, fun s hs t ht => ?_⟩
  · rw [parse_eq, parse_eq, hold, hnew]
    simp only [succeeded_append, List.map_append, Cursor.behind, attempts_relocate,
      succeeded_relocate, map_unplaced_relocate]
  · rw [parse_eq, parse_eq, hold, hnew]
    simp only [failed_append, List.map_append, Cursor.behind, attempts_relocate, failed_relocate,
      List.map_map]
    rfl
  · have he : e ∈ failed
        (attempts .standard nestingLimit (.ofSource (front ++ value' ++ back) file)).1 := he
    rw [hnew, failed_append] at he
    rcases List.mem_append.mp he with he | he
    · obtain ⟨t, ht, hposition⟩ := hfailed e he
      obtain ⟨hlt, hle⟩ := bytes_of_mem_ahead hfront file ht
      exact .inl (hposition ▸ Nat.lt_of_lt_of_le hlt hle)
    · obtain ⟨t, ht, hposition⟩ := hfailed' e he
      exact .inr (hposition ▸ Cursor.le_startByte_behind hsize ht)
  · have hs : s ∈ succeeded
        (attempts .standard nestingLimit (.ofSource (front ++ value' ++ back) file)).1 := hs
    rw [hnew, succeeded_append] at hs
    rcases List.mem_append.mp hs with hs | hs
    · exact .inl (bytes_of_mem_ahead hfront file (hsucceeded s hs t ht)).2
    · exact .inr (Cursor.le_startByte_behind hsize (List.mem_append_left _ (hsucceeded' s hs t ht)))

theorem parse_replace_value_by_illegal :
    let front := ") let x ="
    let back := "; ) y"
    let old := parse (front ++ " 1 + 2" ++ back) none
    let new := parse (front ++ " @ return (é" ++ back) none
    (∃ s, SkipsValue front " 1 + 2" back none s) ∧
      new.1.mapTokens Token.unplaced = old.1.mapTokens Token.unplaced ∧
      new.2.map Diagnostic.cause = old.2.map Diagnostic.cause ∧
      ∀ e ∈ new.2, e.position.offset.toNat < 9 ∨ 22 ≤ e.position.offset.toNat := by
  intro front back old new
  let token (kind : Kind) (text : String) (start stop : Nat) : Token :=
    ⟨kind, text, Span.ofOffsets start stop "shell"⟩
  let x := token .identifier "x" 6 7
  let heading := [token .letWord "let" 2 5, x, token .assignment "=" 8 9]
  let s : Statement := .letBinding (token .letWord "let" 2 5) ⟨x, "x"⟩ none
  let c := Cursor.ofSource (front ++ " 1 + 2" ++ back) none
  let d := (attempt .standard nestingLimit c).2
  have hne : c.ahead ≠ [] ∧ d.ahead ≠ [] := by decide +kernel
  have hread : (attempt .standard nestingLimit d).1 = .ok s ∧
      d.ahead = heading ++ d.ahead.drop 3 ∧
      (tokenize (front ++ " 1 + 2" ++ back) none).dropLast =
        (tokenize front none).dropLast ++ d.ahead.drop 3 := by decide +kernel
  obtain ⟨hok, hd, hsource⟩ := hread
  have hskips : SkipsValue front " 1 + 2" back none s :=
    ⟨⟨d, heading, d.ahead.drop 3, .later hne.1 (.here hne.2), hok, .letBinding rfl, hd, hsource⟩,
      by decide, .inr (by decide)⟩
  have hvalue : ';' ∉ " @ return (é".toList := by decide
  obtain ⟨hprogram, hcauses, hplaces, -⟩ :=
    parse_replace_value hskips hvalue (.inr (by decide)) (by decide)
  exact ⟨⟨s, hskips⟩, hprogram, hcauses, hplaces⟩

end ScriptFrontEnd
