/-!
# Bytes shown as text

Bytes need not be those of a text.  They are shown as a text all the same: a character whose bytes
are all there is shown as it is, and the character U+FFFD stands for the start of a character whose
other bytes are missing, and for a byte that no character starts with.
-/

namespace TokenEdit.Text

/-- The bounds of the bytes that follow the first byte of a character; `none` when no character
starts with it. -/
def followers? (first : UInt8) : Option (List (UInt8 × UInt8)) :=
  let follower := (0x80, 0xBF)
  if first < 0x80 then some []
  else if first < 0xC2 then none
  else if first < 0xE0 then some [follower]
  else if first = 0xE0 then some [(0xA0, 0xBF), follower]
  else if first = 0xED then some [(0x80, 0x9F), follower]
  else if first < 0xF0 then some [follower, follower]
  else if first = 0xF0 then some [(0x90, 0xBF), follower, follower]
  else if first < 0xF4 then some [follower, follower, follower]
  else if first = 0xF4 then some [(0x80, 0x8F), follower, follower]
  else none

/-- The number of bytes, from the first on, that are within their bounds. -/
def countWithin : List (UInt8 × UInt8) → List UInt8 → Nat
  | (low, high) :: bounds, byte :: bytes =>
    if low ≤ byte ∧ byte ≤ high then countWithin bounds bytes + 1 else 0
  | _, _ => 0

/-- The character with the given first byte and the given other bytes. -/
def charOfBytes (first : UInt8) (others : List UInt8) : Char :=
  let mark := match others.length with
    | 0 => 0
    | 1 => 0xC0
    | 2 => 0xE0
    | _ => 0xF0
  Char.ofNat (others.foldl (fun code byte => code * 64 + (byte.toNat - 0x80)) (first.toNat - mark))

/-- The text that is shown for bytes. -/
def replaced : List UInt8 → List Char
  | [] => []
  | first :: bytes =>
    match followers? first with
    | none => '\uFFFD' :: replaced bytes
    | some bounds =>
      let count := countWithin bounds bytes
      let shown := if count = bounds.length then charOfBytes first (bytes.take count) else '\uFFFD'
      shown :: replaced (bytes.drop count)
termination_by bytes => bytes.length
decreasing_by all_goals simp only [List.length_cons, List.length_drop]; omega

end TokenEdit.Text
