import ScriptFrontEnd.Parser.Evaluation
import ScriptFrontEnd.Proofs.Parser.Accounting
import ScriptFrontEnd.Proofs.Parser.Failing

namespace ScriptFrontEnd

namespace Cursor

def remaining (c : Cursor) : Nat := c.ahead.countP (·.kind ≠ .eof)

structure Closed (c : Cursor) : Prop where
  eof : c.eof.kind = .eof
  ahead : ∀ t ∈ c.ahead, t.kind ≠ .eof

variable {c d : Cursor}

theorem Closed.of_reaches (h : c.Closed) (hd : c.Reaches d) : d.Closed :=
  ⟨hd.2 ▸ h.eof, fun t ht => h.ahead t (hd.1.subset ht)⟩

theorem Closed.remaining_eq (h : c.Closed) : c.remaining = c.ahead.length :=
  List.countP_eq_length.mpr (by simpa using h.ahead)

theorem Closed.current_kind_eq_eof_iff (h : c.Closed) : c.current.kind = .eof ↔ c.ahead = [] := by
  obtain ⟨ahead, eof⟩ := c
  cases ahead with
  | nil => exact iff_of_true h.eof rfl
  | cons t tokens =>
    exact iff_of_false (h.ahead t (List.mem_cons_self ..)) (List.cons_ne_nil t tokens)

theorem Reaches.remaining_le (h : c.Reaches d) : d.remaining ≤ c.remaining :=
  h.1.sublist.countP_le

theorem ne_nil_of_current_kind (he : c.eof.kind = .eof) (h : c.current.kind ≠ .eof) :
    c.ahead ≠ [] := by
  obtain ⟨ahead, eof⟩ := c
  rintro rfl
  exact h he

section Skip

variable {t eof : Token} {tokens : List Token}

theorem skipToSemicolon_cons_of_eq (h : t.kind = .semicolon) :
    skipToSemicolon ⟨t :: tokens, eof⟩ = ⟨t :: tokens, eof⟩ := by
  simp [skipToSemicolon, h]

theorem skipToSemicolon_cons_of_ne (h : t.kind ≠ .semicolon) :
    skipToSemicolon ⟨t :: tokens, eof⟩ = skipToSemicolon ⟨tokens, eof⟩ := by
  simp [skipToSemicolon, h]

theorem Skips.eq_skipToSemicolon (h : c.Skips d) (hc : c.Closed) : d = c.skipToSemicolon := by
  induction h with
  | @stop c hk =>
    obtain ⟨ahead, eof⟩ := c
    cases ahead with
    | nil => rfl
    | cons t tokens =>
      have hsemi : t.kind = .semicolon := hk.resolve_right (hc.ahead t (List.mem_cons_self ..))
      exact (skipToSemicolon_cons_of_eq hsemi).symm
  | @next c d hsemi heof _ ih =>
    obtain ⟨ahead, eof⟩ := c
    cases ahead with
    | nil => exact absurd hc.eof heof
    | cons t tokens =>
      rw [ih (hc.of_reaches (reaches_advance _))]
      exact (skipToSemicolon_cons_of_ne hsemi).symm

theorem Closed.skips_skipToSemicolon (hc : c.Closed) : c.Skips c.skipToSemicolon := by
  obtain ⟨ahead, eof⟩ := c
  induction ahead with
  | nil => exact .stop (.inr hc.eof)
  | cons t tokens ih =>
    by_cases hsemi : t.kind = .semicolon
    · rw [skipToSemicolon_cons_of_eq hsemi]
      exact .stop (.inl hsemi)
    · rw [skipToSemicolon_cons_of_ne hsemi]
      exact .next hsemi (hc.ahead t (List.mem_cons_self ..)) (ih (hc.of_reaches (reaches_advance _)))

theorem Closed.skips_iff (hc : c.Closed) : c.Skips d ↔ d = c.skipToSemicolon := by
  constructor
  · exact fun h => h.eq_skipToSemicolon hc
  · rintro rfl
    exact hc.skips_skipToSemicolon

end Skip

end Cursor

theorem Reader.lead_apply (operand : Precedence → Reader Expr) (rules : Rules) (c : Cursor) :
    Reader.lead operand rules c = match rules.operand c.current.kind with
      | none => Reader.fail (.noOperand c.current.kind) c
      | some .primary => Reader.primary c
      | some .unary => Reader.unary operand c
      | some .grouping => Reader.grouping operand c := by
  rw [Reader.lead, Reader.bind_apply]
  simp only [Reader.current]
  cases rules.operand c.current.kind with
  | none => rfl
  | some rule => cases rule <;> rfl

def Ending.Lands (c : Cursor) : Ending → Prop
  | .ok _ d => c.Reaches d ∧ d.ahead ≠ []
  | .error _ _ => True

namespace Ending.Lands

variable {c d : Cursor} {r : Ending}

theorem of_reaches (hd : c.Reaches d) (h : Lands d r) : Lands c r := by
  cases r with
  | ok e _ => exact ⟨hd.trans h.1, h.2⟩
  | error _ _ => trivial

theorem primary (he : c.eof.kind = .eof) : Lands c (Reader.primary c) := by
  cases hr : Reader.primary c with
  | error _ _ => trivial
  | ok e d =>
    obtain ⟨hd, rfl⟩ := Reader.primary_eq_ok.mp hr
    refine ⟨.refl _, Cursor.ne_nil_of_current_kind he fun hk => ?_⟩
    cases hd <;> simp_all

theorem unary (h : Lands c.advance r) : Lands c (Reader.unary (fun _ _ => r) c) := by
  cases r with
  | ok e d => exact h.of_reaches c.reaches_advance
  | error _ _ => trivial

theorem binary {left : Expr} {power : Precedence} (h : Lands c.advance r) :
    Lands c (Reader.binary (fun _ _ => r) left power c) := by
  cases r with
  | ok e d => exact h.of_reaches c.reaches_advance
  | error _ _ => trivial

theorem grouping (he : c.eof.kind = .eof) (h : Lands c.advance r) :
    Lands c (Reader.grouping (fun _ _ => r) c) := by
  cases hr : Reader.grouping (fun _ _ => r) c with
  | error _ _ => trivial
  | ok e d =>
    obtain ⟨c', rfl, hk, rfl⟩ := Reader.grouping_eq_ok.mp hr
    have hreaches := (c.reaches_advance.trans h.1).trans c'.reaches_advance
    have hclose : c'.advance.current.kind = .closeParen := hk
    refine ⟨hreaches, Cursor.ne_nil_of_current_kind (hreaches.2 ▸ he) ?_⟩
    simp [hclose]

end Ending.Lands

def Part.AtToken : Part → Cursor → Prop
  | .rest _ _, c => c.ahead ≠ []
  | _, _ => True

namespace Evaluates

variable {rules : Rules} {part : Part} {depth height : Nat} {c d : Cursor} {r : Ending}

theorem height_le (h : Evaluates rules part depth c height r) : height ≤ nestingLimit - depth := by
  -- only a whole expression opens one more, and it is refused at the limit
  induction h with
  | refused _ => omega
  | whole _ _ _ _ _ => omega
  | leadFails _ _ _ => omega
  | unknown _ => omega
  | primary _ => omega
  | unary _ _ ih => exact ih
  | grouping _ _ ih => exact ih
  | operator _ ih => exact ih
  | stop _ => omega
  | more _ _ _ _ _ => omega
  | operatorFails _ _ ih => exact ih

theorem lands (h : Evaluates rules part depth c height r) (he : c.eof.kind = .eof)
    (hp : part.AtToken c) : r.Lands c := by
  induction h with
  | refused _ => trivial
  | leadFails _ _ _ => trivial
  | unknown _ => trivial
  | operatorFails _ _ _ => trivial
  | whole _ _ _ ihl ihr =>
    obtain ⟨hd, hne⟩ := ihl he trivial
    exact (ihr (hd.2 ▸ he) hne).of_reaches hd
  | primary _ => exact .primary he
  | unary _ _ ih => exact (ih he trivial).unary
  | grouping _ _ ih => exact (ih he trivial).grouping he
  | operator _ ih => exact (ih he trivial).binary
  | stop _ => exact ⟨.refl _, hp⟩
  | @more _ _ _ c _ _ _ _ _ _ _ _ iho ihr =>
    obtain ⟨hd, hne⟩ := iho he trivial
    exact (ihr (hd.2 ▸ he) hne).of_reaches (c.reaches_advance.trans hd)

theorem length_lt {left e : Expr} {power : Precedence}
    (h : Evaluates rules (.operator left power) depth c.advance height (.ok e d))
    (he : c.eof.kind = .eof) : d.ahead.length < c.ahead.length := by
  obtain ⟨hd, hne⟩ := h.lands he trivial
  have hle := hd.length_le
  have hpos := List.length_pos_iff.mpr hne
  rw [Cursor.length_ahead_advance] at hle
  omega

end Evaluates

theorem exists_cons_of_length_le {α : Type} {l l' : List α} (hl : l ≠ [])
    (h : l.length ≤ l'.length) : ∃ a m, l' = a :: m :=
  List.exists_cons_of_length_pos (Nat.lt_of_lt_of_le (List.length_pos_iff.mpr hl) h)

def Part.Gives (rules : Rules) (levels : Nat) (c : Cursor) (r : Ending) : Part → Prop
  | .whole floor => Reader.expression rules levels floor c = r
  | .lead => Reader.lead (Reader.expression rules levels) rules c = r
  | .operator left power => Reader.binary (Reader.expression rules levels) left power c = r
  | .rest floor left => ∀ bound : List Token, c.ahead.length ≤ bound.length →
      Reader.extend (Reader.expression rules levels) rules floor bound left c = r

namespace Evaluates

variable {rules : Rules} {part : Part} {depth height : Nat} {c d : Cursor} {r : Ending}

theorem gives (h : Evaluates rules part depth c height r) (he : c.eof.kind = .eof)
    (hp : part.AtToken c) : part.Gives rules (nestingLimit - depth) c r := by
  induction h with
  | refused hdepth =>
    rw [Nat.sub_eq_zero_of_le hdepth]
    rfl
  | @whole floor depth c m n left d r hdepth hlead _ ihl ihr =>
    obtain ⟨hd, hne⟩ := hlead.lands he trivial
    have hlevels : nestingLimit - depth = nestingLimit - (depth + 1) + 1 := by omega
    have hrest := ihr (hd.2 ▸ he) hne d.ahead (Nat.le_refl _)
    rw [Part.Gives, hlevels, Reader.expression_succ_of_lead (ihl he trivial), hrest]
  | @leadFails floor depth c m e d hdepth _ ihl =>
    have hlevels : nestingLimit - depth = nestingLimit - (depth + 1) + 1 := by omega
    rw [Part.Gives, hlevels]
    exact Reader.expression_succ_eq_error.mpr (.inl (ihl he trivial))
  | unknown h => rw [Part.Gives, Reader.lead_apply, h]
  | primary h => rw [Part.Gives, Reader.lead_apply, h]
  | unary h _ ih =>
    rw [Part.Gives, Reader.lead_apply, h, ← ih he trivial]
    rfl
  | grouping h _ ih =>
    rw [Part.Gives, Reader.lead_apply, h, ← ih he trivial]
    rfl
  | operator _ ih =>
    rw [Part.Gives, ← ih he trivial]
    rfl
  | stop h =>
    intro bound hb
    obtain ⟨b, bound, rfl⟩ := exists_cons_of_length_le hp hb
    exact Reader.extend_cons_eq_ok.mpr (.inr ⟨h, rfl, rfl⟩)
  | @more floor left depth c m n e d r h ho _ iho ihr =>
    intro bound hb
    obtain ⟨b, bound, rfl⟩ := exists_cons_of_length_le hp hb
    have hlt := ho.length_lt he
    obtain ⟨hd, hne⟩ := ho.lands he trivial
    rw [Reader.extend_cons_of_binary h (iho he trivial)]
    exact ihr (hd.2 ▸ he) hne bound (Nat.le_of_lt_succ (Nat.lt_of_lt_of_le hlt hb))
  | operatorFails h _ iho =>
    intro bound hb
    obtain ⟨b, bound, rfl⟩ := exists_cons_of_length_le hp hb
    exact Reader.extend_cons_eq_error.mpr ⟨h, .inl (iho he trivial)⟩

section Exists

variable {operand : Precedence → Reader Expr}

theorem exists_lead
    (h : ∀ power, ∃ n, Evaluates rules (.whole power) depth c.advance n (operand power c.advance)) :
    ∃ n, Evaluates rules .lead depth c n (Reader.lead operand rules c) := by
  rw [Reader.lead_apply]
  cases hrule : rules.operand c.current.kind with
  | none => exact ⟨0, .unknown hrule⟩
  | some rule =>
    cases rule with
    | primary => exact ⟨0, .primary hrule⟩
    | unary =>
      obtain ⟨n, hn⟩ := h .unary
      exact ⟨n, .unary hrule hn⟩
    | grouping =>
      obtain ⟨n, hn⟩ := h .lowest
      exact ⟨n, .grouping hrule hn⟩

theorem exists_rest (h : ∀ (c : Cursor) (power : Precedence), c.eof.kind = .eof →
      ∃ n, Evaluates rules (.whole power) depth c n (operand power c))
    (he : c.eof.kind = .eof) (hne : c.ahead ≠ []) {bound : List Token}
    (hb : c.ahead.length ≤ bound.length) (floor : Precedence) (left : Expr) :
    ∃ n, Evaluates rules (.rest floor left) depth c n
      (Reader.extend operand rules floor bound left c) := by
  induction bound generalizing c left with
  | nil => exact absurd (List.length_eq_zero_iff.mp (Nat.le_zero.mp hb)) hne
  | cons b bound ih =>
    -- an operator leaves fewer tokens ahead and a token at hand, so that the bound is not used up
    by_cases hfloor : floor < rules.precedence c.peek.kind
    · obtain ⟨m, hm⟩ := h c.advance.advance (rules.precedence c.peek.kind) he
      have ho : Evaluates rules (.operator left (rules.precedence c.peek.kind)) depth c.advance m
          (Reader.binary operand left (rules.precedence c.peek.kind) c.advance) := .operator hm
      cases hr : Reader.binary operand left (rules.precedence c.peek.kind) c.advance with
      | ok e d =>
        rw [hr] at ho
        have hlt := ho.length_lt he
        obtain ⟨hd, hne⟩ := ho.lands he trivial
        obtain ⟨n, hn⟩ := ih (hd.2 ▸ he) hne (Nat.le_of_lt_succ (Nat.lt_of_lt_of_le hlt hb)) e
        rw [Reader.extend_cons_of_binary hfloor hr]
        exact ⟨_, .more hfloor ho hn⟩
      | error e d =>
        rw [hr] at ho
        rw [Reader.extend_cons_eq_error.mpr ⟨hfloor, .inl hr⟩]
        exact ⟨m, .operatorFails hfloor ho⟩
    · rw [Reader.extend_cons_eq_ok.mpr (.inr ⟨hfloor, rfl, rfl⟩)]
      exact ⟨0, .stop hfloor⟩

end Exists

theorem exists_whole (rules : Rules) (levels : Nat) (hdepth : nestingLimit - depth = levels)
    (floor : Precedence) (he : c.eof.kind = .eof) :
    ∃ n, Evaluates rules (.whole floor) depth c n (Reader.expression rules levels floor c) := by
  induction levels generalizing depth floor c with
  | zero => exact ⟨0, .refused (Nat.sub_eq_zero_iff_le.mp hdepth)⟩
  | succ levels ih =>
    have hopen : depth < nestingLimit := by omega
    have hoperand (c : Cursor) (floor : Precedence) (he : c.eof.kind = .eof) :
        ∃ n, Evaluates rules (.whole floor) (depth + 1) c n
          (Reader.expression rules levels floor c) := ih (by omega) floor he
    obtain ⟨m, hm⟩ := exists_lead (hoperand c.advance · he)
    cases hr : Reader.lead (Reader.expression rules levels) rules c with
    | ok left d =>
      rw [hr] at hm
      obtain ⟨hd, hne⟩ := hm.lands he trivial
      obtain ⟨n, hn⟩ := exists_rest hoperand (hd.2 ▸ he) hne (Nat.le_refl _) floor left
      rw [Reader.expression_succ_of_lead hr]
      exact ⟨_, .whole hopen hm hn⟩
    | error e d =>
      rw [hr] at hm
      rw [Reader.expression_succ_eq_error.mpr (.inl hr)]
      exact ⟨_, .leadFails hopen hm⟩

end Evaluates

theorem ahead_attempts (rules : Rules) (levels : Nat) (c : Cursor) :
    (attempts rules levels c).2.ahead = [] := by
  induction c using attempts_induction rules levels with
  | nil eof => rw [attempts_nil]
  | cons t tokens eof ih => rwa [attempts_cons]

namespace Parser

def remaining (p : Parser) : Nat := p.cursor.remaining

theorem closed_after (source : String) (file : Option String) (operations : List Operation) :
    ((ofSource source file).after operations).cursor.Closed := by
  refine .of_reaches ⟨rfl, fun t ht => ?_⟩ ((ofSource source file).reaches_after operations)
  exact Lexer.kind_ne_eof_of_mem_tokens ht

theorem remaining_ofSource (source : String) (file : Option String) :
    (ofSource source file).remaining = (tokenize source file).countP (·.kind ≠ .eof) := by
  rw [tokenize, List.countP_append]
  rfl

theorem remaining_lt_of_parseStatement {p : Parser} (hc : p.cursor.Closed)
    (h : p.current.kind ≠ .eof) : p.parseStatement.2.advance.2.remaining < p.remaining := by
  obtain ⟨outcome, d, hout⟩ : ∃ outcome d, attempt p.rules p.levels p.cursor = (outcome, d) :=
    ⟨_, _, rfl⟩
  have hne : p.cursor.ahead ≠ [] := fun hnil => h (hc.current_kind_eq_eof_iff.mpr hnil)
  have hreaches := reaches_attempt p.rules p.levels p.cursor
  rw [hout] at hreaches
  rw [(p.attempt_eq_parseStatement hout).2]
  change d.remaining < p.cursor.remaining
  rw [(hc.of_reaches hreaches).remaining_eq, hc.remaining_eq]
  exact length_ahead_attempt hne hout

theorem parsing_terminates (source : String) (file : Option String) (operations : List Operation) :
    let p := (ofSource source file).after operations
    (∃ outcomes : List (Option Statement), Reads p outcomes p.parseProgram.2 ∧
        p.parseProgram.1.statements = outcomes.reduceOption ∧ outcomes.length ≤ p.remaining) ∧
      p.remaining ≤ (tokenize source file).countP (·.kind ≠ .eof) ∧
      p.parseProgram.2.current.kind = .eof ∧
      (∀ o : Operation, (p.perform o).2.remaining ≤ p.remaining) ∧
      (p.current.kind ≠ .eof → p.parseStatement.2.advance.2.remaining < p.remaining) ∧
      (∀ (c d : Cursor) (left e : Expr) (depth height : Nat), p.cursor.Reaches c →
        Evaluates p.rules (.operator left (p.rules.precedence c.peek.kind)) depth c.advance height
          (.ok e d) → d.remaining < c.remaining) ∧
      (∀ floor : Precedence,
        (∃ height, Evaluates p.rules (.whole floor) p.depth p.cursor height
          (p.operand floor p.cursor)) ∧
        ∀ (height : Nat) (r : Ending),
          Evaluates p.rules (.whole floor) p.depth p.cursor height r →
          r = p.operand floor p.cursor ∧ height ≤ nestingLimit - p.depth) ∧
      ∀ d : Cursor, p.cursor.Skips d ↔ d = p.cursor.skipToSemicolon := by
  intro p
  have hc : p.cursor.Closed := closed_after source file operations
  refine ⟨⟨_, reads_parseProgram_after (Lexer.ofSource source file) operations,
    succeeded_eq_reduceOption _, ?_⟩, ?_, ?_, fun o => (p.reaches_perform o).remaining_le,
    remaining_lt_of_parseStatement hc, ?_, fun floor => ⟨?_, ?_⟩, fun d => hc.skips_iff⟩
  · rw [List.length_map]
    exact (length_attempts_le _ _ _).trans_eq hc.remaining_eq.symm
  · rw [← remaining_ofSource]
    exact ((ofSource source file).reaches_after operations).remaining_le
  · have hend : p.parseProgram.2.cursor.Closed :=
      hc.of_reaches (reaches_attempts p.rules p.levels p.cursor)
    exact hend.current_kind_eq_eof_iff.mpr (ahead_attempts p.rules p.levels p.cursor)
  · intro c d left e depth height hreaches ho
    have hcc := hc.of_reaches hreaches
    obtain ⟨hd, -⟩ := ho.lands hcc.eof trivial
    rw [hcc.remaining_eq, (hcc.of_reaches (c.reaches_advance.trans hd)).remaining_eq]
    exact ho.length_lt hcc.eof
  · exact Evaluates.exists_whole p.rules p.levels rfl floor hc.eof
  · exact fun height r h => ⟨(h.gives hc.eof trivial).symm, h.height_le⟩

example :
    ((ofSource "a +" none).after [.registerOperand .eof .grouping]).parseProgram.2.diagnostics.map
      (·.cause) = [.nestingTooDeep nestingLimit] := by
  decide +kernel

end Parser

end ScriptFrontEnd
