import ScriptFrontEnd.Proofs.Parser.Pull

namespace ScriptFrontEnd

namespace Cursor

variable {c d : Cursor}

theorem Reaches.nth_eq (h : c.Reaches d) (k : Nat) :
    d.nth k = c.nth (c.ahead.length - d.ahead.length + k) := by
  have hdrop : d.ahead = c.ahead.drop (c.ahead.length - d.ahead.length) :=
    List.suffix_iff_eq_drop.mp h.1
  rw [nth, nth, ← List.getElem?_drop, ← hdrop, h.2]

end Cursor

namespace Parser

def passed (p : Parser) : Operation → Nat
  | .advance => 1
  | .expect kind => if p.peek.kind = kind then 1 else 0
  | o => p.cursor.ahead.length - (p.perform o).2.cursor.ahead.length

def index (p : Parser) : List Operation → Nat
  | [] => 0
  | o :: operations => p.passed o + (p.perform o).2.index operations

theorem nth_perform (p : Parser) (o : Operation) (k : Nat) :
    (p.perform o).2.cursor.nth k = p.cursor.nth (p.passed o + k) := by
  have hadvance : p.advance.2.cursor.nth k = p.cursor.nth (1 + k) := by
    rw [Nat.add_comm, ← Cursor.nth_advance]
    rfl
  cases o with
  | advance => exact hadvance
  | expect kind =>
    rw [passed]
    by_cases hk : p.peek.kind = kind
    · rw [if_pos hk, ← hadvance, perform, expect_of_eq hk]
      rfl
    · rw [if_neg hk, Nat.zero_add, perform, expect_of_ne hk]
      rfl
  | _ => exact (p.reaches_perform _).nth_eq k

theorem nth_after (p : Parser) (operations : List Operation) (k : Nat) :
    (p.after operations).cursor.nth k = p.cursor.nth (p.index operations + k) := by
  induction operations generalizing p with
  | nil => exact congrArg p.cursor.nth (Nat.zero_add k).symm
  | cons o operations ih =>
    rw [index, Nat.add_assoc, ← nth_perform]
    exact ih (p.perform o).2

theorem index_append (p : Parser) (operations more : List Operation) :
    p.index (operations ++ more) = p.index operations + (p.after operations).index more := by
  induction operations generalizing p with
  | nil => exact (Nat.zero_add _).symm
  | cons o operations ih =>
    rw [List.cons_append, index, index, ih, Nat.add_assoc]
    rfl

end Parser

namespace PullParser

variable {w : PullParser} {p : Parser}

structure StandsAt (w : PullParser) (source : String) (file : Option String) (k : Nat) : Prop where
  current : w.current = tokenStream source file k
  peek : w.peek = tokenStream source file (k + 1)
  next : ∃ s, w.scanner.next? = some (tokenStream source file (k + 2), s)

theorem Shows.standsAt (h : w.Shows p) {source : String} {file : Option String} {k : Nat}
    (hp : ∀ n, p.cursor.nth n = tokenStream source file (k + n)) : w.StandsAt source file k := by
  obtain ⟨-, s, hnext, -⟩ := h.coherent.exists_next?
  refine ⟨?_, ?_, s, ?_⟩
  · rw [h.current, ← Nat.add_zero k, ← hp 0, Cursor.nth_zero]
    rfl
  · rw [h.peek, ← hp 1, ← Cursor.nth_advance, Cursor.nth_zero]
    rfl
  · rw [hnext, ← Cursor.current_ofLexer, h.behind, ← hp 2, ← Cursor.nth_advance,
      ← Cursor.nth_advance, Cursor.nth_zero]

namespace StandsAt

variable {source : String} {file : Option String} {k : Nat} {kind : Kind}

theorem expect_of_eq (h : w.StandsAt source file k) (hk : w.peek.kind = kind) :
    ∃ v, w.expect kind = some (some (tokenStream source file (k + 1)), v) := by
  obtain ⟨s, hnext⟩ := h.next
  refine ⟨{ w with scanner := s, current := w.peek, peek := tokenStream source file (k + 2) }, ?_⟩
  rw [expect, if_pos hk, advance, hnext, ← h.peek]
  rfl

theorem expect_of_ne (h : w.StandsAt source file k) (hk : w.peek.kind ≠ kind) :
    w.expect kind = some (none, { w with
      diagnostics := w.diagnostics ++
        [⟨.unexpectedToken kind w.peek.kind, (tokenStream source file (k + 1)).start⟩] }) := by
  rw [expect, if_neg hk, ← h.peek]
  rfl

end StandsAt

theorem window_coherent (source : String) (file : Option String) :
    ∃ index : List Operation → Nat, index [] = 0 ∧ ∀ operations, ∃ w,
      Settles (fun fuel => (ofSource source file).bind (·.after fuel operations)) w ∧
      w.StandsAt source file (index operations) ∧
      (∀ more, index operations ≤ index (operations ++ more)) ∧
      ∀ kind, if w.peek.kind = kind then
          index (operations ++ [.expect kind]) = index operations + 1 ∧
          ∃ v, w.expect kind = some (some (tokenStream source file (index operations + 1)), v)
        else
          index (operations ++ [.expect kind]) = index operations ∧
          w.expect kind = some (none, { w with
            diagnostics := w.diagnostics ++ [⟨.unexpectedToken kind w.peek.kind,
              (tokenStream source file (index operations + 1)).start⟩] }) := by
  obtain ⟨start, hstart, hshows⟩ := exists_shows_ofSource source file
  refine ⟨(Parser.ofSource source file).index, rfl, fun operations => ?_⟩
  obtain ⟨w, hw, hends⟩ := hshows.after operations
  have hstands : w.StandsAt source file ((Parser.ofSource source file).index operations) := by
    refine hends.standsAt fun n => ?_
    rw [Parser.nth_after, tokenStream_eq_nth]
    rfl
  refine ⟨w, hstart ▸ hw, hstands, fun more => ?_, fun kind => ?_⟩
  · rw [Parser.index_append]
    exact Nat.le_add_right _ _
  · have hpassed : (Parser.ofSource source file).index (operations ++ [.expect kind]) =
        (Parser.ofSource source file).index operations + if w.peek.kind = kind then 1 else 0 := by
      rw [Parser.index_append, hends.peek]
      rfl
    by_cases hk : w.peek.kind = kind
    · rw [if_pos hk] at hpassed ⊢
      exact ⟨hpassed, hstands.expect_of_eq hk⟩
    · rw [if_neg hk] at hpassed ⊢
      exact ⟨hpassed, hstands.expect_of_ne hk⟩

end PullParser

end ScriptFrontEnd
