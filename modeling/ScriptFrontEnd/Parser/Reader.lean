import ScriptFrontEnd.Diagnostic.Basic
import ScriptFrontEnd.Parser.Cursor

namespace ScriptFrontEnd

abbrev Reader (α : Type) := EStateM Diagnostic Cursor α

namespace Reader

variable {α β : Type}

def current : Reader Token := fun c => .ok c.current c

def peek : Reader Token := fun c => .ok c.peek c

def ahead : Reader (List Token) := fun c => .ok c.ahead c

def advance : Reader Token := fun c => .ok c.current c.advance

def fail (cause : Cause) : Reader α := fun c => .error ⟨cause, c.current.start⟩ c

def expect (kind : Kind) : Reader Token := fun c =>
  if c.peek.kind = kind then .ok c.peek c.advance
  else .error ⟨.unexpectedToken kind c.peek.kind, c.peek.start⟩ c

def move (f : Cursor → Cursor) : Reader Unit := fun c => .ok () (f c)

def andThen (x : Reader α) (f : Cursor → Cursor) : Reader α := fun c =>
  match x c with
  | .ok a d => .ok a (f d)
  | .error e d => .error e (f d)

def leaves (x : Reader α) (c : Cursor) : Cursor :=
  match x c with
  | .ok _ d => d
  | .error _ d => d

theorem pure_apply (a : α) (c : Cursor) : (pure a : Reader α) c = .ok a c := rfl

theorem bind_apply (x : Reader α) (f : α → Reader β) (c : Cursor) :
    (x >>= f) c = match x c with
      | .ok a d => f a d
      | .error e d => .error e d := by
  show EStateM.bind x f c = _
  unfold EStateM.bind
  cases x c <;> rfl

def Forward (x : Reader α) : Prop :=
  ∀ c : Cursor, c.Reaches (x.leaves c)

namespace Forward

theorem pure (a : α) : Forward (Pure.pure a) := fun c => .refl c

theorem bind {x : Reader α} {f : α → Reader β} (hx : Forward x) (hf : ∀ a, Forward (f a)) :
    Forward (x >>= f) := by
  intro c
  have h := hx c
  simp only [leaves, bind_apply] at h ⊢
  cases hc : x c with
  | ok a d => rw [hc] at h; exact h.trans (hf a d)
  | error e d => rw [hc] at h; exact h

theorem current : Forward current := fun c => .refl c

theorem peek : Forward peek := fun c => .refl c

theorem ahead : Forward ahead := fun c => .refl c

theorem advance : Forward advance := fun c => c.reaches_advance

theorem fail (cause : Cause) : Forward (fail cause : Reader α) := fun c => .refl c

theorem expect (kind : Kind) : Forward (expect kind) := by
  intro c
  by_cases h : c.peek.kind = kind
  · simp only [leaves, Reader.expect, if_pos h]
    exact c.reaches_advance
  · simp only [leaves, Reader.expect, if_neg h]
    exact .refl c

theorem move {f : Cursor → Cursor} (hf : ∀ c : Cursor, c.Reaches (f c)) : Forward (move f) := hf

theorem andThen {x : Reader α} {f : Cursor → Cursor} (hx : Forward x)
    (hf : ∀ c : Cursor, c.Reaches (f c)) : Forward (x.andThen f) := by
  intro c
  have h := hx c
  simp only [leaves, Reader.andThen] at h ⊢
  cases hc : x c with
  | ok a d => rw [hc] at h; exact h.trans (hf d)
  | error e d => rw [hc] at h; exact h.trans (hf d)

end Forward

end Reader

end ScriptFrontEnd
