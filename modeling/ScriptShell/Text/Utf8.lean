/-!
# UTF-8

Bytes are read one at a time. A byte either ends a character, leaves a character unfinished, or
cannot follow what came before; in the last case the bytes of the unfinished character are
unreadable and the byte starts afresh. Strict reading refuses a text with unreadable bytes, and
lenient reading writes the replacement character for each unreadable run.
-/

namespace ScriptShell.Text.Utf8

/-- A character of which some bytes are read: how many bytes are owed, the bounds on the next one,
and the bits read so far. -/
structure Unfinished where
  owed : Nat
  low : Nat
  high : Nat
  bits : Nat
  deriving DecidableEq, Repr

/-- What the first byte of a character announces, if it can be a first byte. -/
def Unfinished.ofLead (b : Nat) : Option Unfinished :=
  if 0xC2 ≤ b ∧ b ≤ 0xDF then some ⟨1, 0x80, 0xBF, b - 0xC0⟩
  else if b = 0xE0 then some ⟨2, 0xA0, 0xBF, 0⟩
  else if b = 0xED then some ⟨2, 0x80, 0x9F, 0xD⟩
  else if 0xE1 ≤ b ∧ b ≤ 0xEF then some ⟨2, 0x80, 0xBF, b - 0xE0⟩
  else if b = 0xF0 then some ⟨3, 0x90, 0xBF, 0⟩
  else if 0xF1 ≤ b ∧ b ≤ 0xF3 then some ⟨3, 0x80, 0xBF, b - 0xF0⟩
  else if b = 0xF4 then some ⟨3, 0x80, 0x8F, 4⟩
  else none

/-- One item of a byte text: a character, or a run of bytes that is none. -/
inductive Item where
  | character (c : Char)
  | unreadable
  deriving DecidableEq, Repr

/-- Reads a byte with no character under way. -/
def startWith (b : Nat) : List Item × Option Unfinished :=
  if b < 0x80 then ([.character (Char.ofNat b)], none)
  else match Unfinished.ofLead b with
    | some u => ([], some u)
    | none => ([.unreadable], none)

/-- Reads one byte after an unfinished character, if there is one. -/
def step : Option Unfinished → Nat → List Item × Option Unfinished
  | none, b => startWith b
  | some u, b =>
    if u.low ≤ b ∧ b ≤ u.high then
      let bits := u.bits * 64 + (b - 0x80)
      if u.owed = 1 then ([.character (Char.ofNat bits)], none)
      else ([], some ⟨u.owed - 1, 0x80, 0xBF, bits⟩)
    else
      let (items, next) := startWith b
      (.unreadable :: items, next)

/-- The items of a byte text, `pending` being the unfinished character before it. -/
def itemsFrom (pending : Option Unfinished) : List UInt8 → List Item
  | [] => match pending with
    | none => []
    | some _ => [.unreadable]
  | b :: bs =>
    let (items, next) := step pending b.toNat
    items ++ itemsFrom next bs

/-- The items of a byte text. -/
def items (bs : List UInt8) : List Item := itemsFrom none bs

/-- The character of an item, if it is one. -/
def Item.character? : Item → Option Char
  | .character c => some c
  | .unreadable => none

/-- The text that some bytes spell, if every byte is part of a character. -/
def decode? (bs : List UInt8) : Option String :=
  ((items bs).mapM Item.character?).map String.ofList

/-- The text that some bytes spell, with U+FFFD for each unreadable run. -/
def decodeLenient (bs : List UInt8) : String :=
  String.ofList ((items bs).map fun item => item.character?.getD '\uFFFD')

/-- The bytes of a text. -/
def encode (s : String) : List UInt8 := s.toUTF8.toList

end ScriptShell.Text.Utf8
