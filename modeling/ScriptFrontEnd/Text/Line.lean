namespace ScriptFrontEnd.Text

def byteLength : List Char → Nat
  | [] => 0
  | c :: cs => c.utf8Size + byteLength cs

@[simp] theorem byteLength_nil : byteLength [] = 0 := rfl

@[simp] theorem byteLength_cons (c : Char) (cs : List Char) :
    byteLength (c :: cs) = c.utf8Size + byteLength cs := rfl

@[simp] theorem byteLength_append (cs ds : List Char) :
    byteLength (cs ++ ds) = byteLength cs + byteLength ds := by
  induction cs with
  | nil => simp
  | cons c cs ih => simp [ih, Nat.add_assoc]

def consLine (c : Char) : List (List Char) → List (List Char)
  | [] => [[c]]
  | l :: ls => if c = '\n' then [c] :: l :: ls else (c :: l) :: ls

def lines (cs : List Char) : List (List Char) :=
  cs.foldr consLine []

theorem flatten_consLine (c : Char) (ls : List (List Char)) :
    (consLine c ls).flatten = c :: ls.flatten := by
  unfold consLine
  repeat' split
  all_goals simp

theorem flatten_lines (cs : List Char) : (lines cs).flatten = cs := by
  induction cs with
  | nil => rfl
  | cons c cs ih => rw [lines, List.foldr_cons, flatten_consLine, ← lines, ih]

structure Place where
  number : Nat
  line : List Char
  column : Nat
  deriving DecidableEq, Repr

/-- The place `offset` bytes behind the start of some lines, the first of which has the given
number. The end of the text is a place too: that at which the last line ends, its line feed not
counted. -/
def locate : List (List Char) → Nat → Nat → Option Place
  | [], number, offset => if offset = 0 then some ⟨number, [], 0⟩ else none
  | l :: ls, number, offset =>
    if offset < byteLength l then some ⟨number, l, offset⟩
    else match ls with
      | [] =>
        if offset = byteLength l then some ⟨number, l, byteLength (l.filter (· ≠ '\n'))⟩ else none
      | _ :: _ => locate ls (number + 1) (offset - byteLength l)

def place? (content : String) (position : UInt32) : Option Place :=
  locate (lines content.toList) 1 position.toNat

/-- The characters of the Unicode property `White_Space`, as ranges of code points. -/
def blankRanges : List (Nat × Nat) :=
  [(0x09, 0x0d), (0x20, 0x20), (0x85, 0x85), (0xa0, 0xa0), (0x1680, 0x1680), (0x2000, 0x200a),
   (0x2028, 0x2029), (0x202f, 0x202f), (0x205f, 0x205f), (0x3000, 0x3000)]

def isBlank (c : Char) : Bool :=
  blankRanges.any fun (first, last) => first ≤ c.toNat && c.toNat ≤ last

def trimLeft (cs : List Char) : List Char :=
  cs.dropWhile isBlank

def trim (cs : List Char) : List Char :=
  (trimLeft (trimLeft cs).reverse).reverse

end ScriptFrontEnd.Text
