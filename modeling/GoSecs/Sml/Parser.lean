import GoSecs.Sml.Cursor

open Utf8 Strings Strconv Ieee754

namespace Sml
namespace Parser

open Secs2

def toUpperRune (ch : UInt8) : UInt8 :=
  if 'a'.toUInt8 ≤ ch ∧ ch ≤ 'z'.toUInt8 then ch - 32 else ch

def getIntFormatCode (signed byteSize : UInt8) : Option FormatCode :=
  if signed = 'I'.toUInt8 then
    if byteSize = '1'.toUInt8 then some .int8
    else if byteSize = '2'.toUInt8 then some .int16
    else if byteSize = '4'.toUInt8 then some .int32
    else if byteSize = '8'.toUInt8 then some .int64
    else none
  else if signed = 'U'.toUInt8 then
    if byteSize = '1'.toUInt8 then some .uint8
    else if byteSize = '2'.toUInt8 then some .uint16
    else if byteSize = '4'.toUInt8 then some .uint32
    else if byteSize = '8'.toUInt8 then some .uint64
    else none
  else
    none

-- The type that starts with the letter `first`, and how many characters it has, when `second` follows
-- the letter.
def typeFrom (data : Bytes) (first : UInt8) (second : Option UInt8) : Option (FormatCode × Nat) :=
  if first = 'L'.toUInt8 then some (.list, 1)
  else if first = 'A'.toUInt8 then some (.ascii, 1)
  else if first = 'J'.toUInt8 then some (.jis8, 1)
  else if first = 'W'.toUInt8 then some (.localizedStr, 1)
  else if first = 'B'.toUInt8 then
    match second with
    | none   => some (.binary, 1)
    | some c =>
      if c = 'O'.toUInt8 then
        if 7 ≤ data.length ∧ toUpper (data.take 7) = ascii "BOOLEAN" then some (.boolean, 7)
        else some (.binary, 1)
      else if c = ' '.toUInt8 ∨ c = '['.toUInt8 then some (.binary, 1)
      else none
  else if first = 'F'.toUInt8 then
    if second = some '4'.toUInt8 then some (.float32, 2)
    else if second = some '8'.toUInt8 then some (.float64, 2)
    else none
  else if first = 'I'.toUInt8 ∨ first = 'U'.toUInt8 then
    second.bind (getIntFormatCode first) |>.map (·, 2)
  else
    none

def secondByte (data : Bytes) : P (Option UInt8) :=
  if 2 ≤ data.length then some <$> byteAt data 1 else pure none

def parseItemType : P (Option FormatCode) := do
  discard skipSpace
  let p ← get
  if p.data.length < 1 then
    pure none
  else
    let first ← byteAt p.data 0
    let second ← secondByte p.data
    match typeFrom p.data (toUpperRune first) (second.map toUpperRune) with
    | none => pure none
    | some (fc, n) => do
      discard <| forward n
      pure (some fc)

-- What follows `[` and the sizes.
def closeItemSize (minSize maxSize : Nat) : P (Nat × Nat) := do
  if (← nextNonSpaceRune) = some ']'.toUInt8 then
    if minSize > maxSize then
      errf "minSize:%d > maxSize:%d" [.int minSize, .int maxSize]
    else
      pure (minSize, maxSize)
  else
    errf "invalid item size"

def parseItemSize : P (Nat × Nat) := do
  if (← nextNonSpaceRune) = some '['.toUInt8 then
    if (← peekNonSpaceRune) = some '.'.toUInt8 then
      discard <| forward 2
      closeItemSize 0 (← nextItemSize)
    else
      let minSize ← nextItemSize
      if (← peekNonSpaceRune) = some '.'.toUInt8 then
        discard <| forward 2
        if (← peekRune) = some ']'.toUInt8 then
          closeItemSize minSize minSize
        else
          closeItemSize minSize (← nextItemSize)
      else
        closeItemSize minSize minSize
  else
    backward 1
    pure (0, 0)

section ASCII

structure StrictState where
  numStart : Nat := 0
  isQuoteStr : Bool := false
  isNumStr : Bool := false
  isEscapedCh : Bool := false
  sb : Bytes := []

def findQuote : List (Nat × Nat) → Nat
  | [] => '"'.toNat
  | (_, r) :: rs =>
    if r = '>'.toNat then '"'.toNat
    else if r = '\''.toNat ∨ r = '"'.toNat then r
    else findQuote rs

def numericByte (token : Bytes) : P UInt8 :=
  match parseUint token 0 0 with
  | (_, some e) => errf "invalid ASCII numeric byte: %v" [.err e]
  | (val, none) =>
    if 255 < val then
      errf "non-printable char out of latin-1 range, got %d" [.int val]
    else
      pure (.ofNat val)

def strictLoop (data : Bytes) (quoteChar : Nat) : StrictState → List (Nat × Nat) → P Item
  | _,  [] => errf "invalid ASCII item, got EOF before item end"
  | st, (i, ch) :: rs =>
    if st.isQuoteStr then
      if ch = '\\'.toNat then
        if st.isEscapedCh = false then
          strictLoop data quoteChar { st with isEscapedCh := true } rs
        else
          strictLoop data quoteChar
            { st with sb := st.sb ++ encodeRune ch, isEscapedCh := false } rs
      else if ch = quoteChar then
        if st.isEscapedCh then
          strictLoop data quoteChar
            { st with sb := st.sb ++ encodeRune ch, isEscapedCh := false } rs
        else
          strictLoop data quoteChar { st with isQuoteStr := false } rs
      else if ch = '>'.toNat then
        if st.isEscapedCh = false then
          errf "unclosed quote string, no closing quote found"
        else
          strictLoop data quoteChar
            { st with sb := st.sb ++ encodeRune ch, isEscapedCh := false } rs
      else
        strictLoop data quoteChar { st with sb := st.sb ++ encodeRune ch, isEscapedCh := false } rs
    else if st.isNumStr then
      if ch = ' '.toNat then do
        let b ← numericByte (← sliceFrom (← sliceTo data i) st.numStart)
        strictLoop data quoteChar { st with isNumStr := false, sb := st.sb ++ [b] } rs
      else if ch = '>'.toNat then do
        let b ← numericByte (← sliceFrom (← sliceTo data i) st.numStart)
        discard <| forward (i + 1)
        pure (newASCIIItem (st.sb ++ [b]))
      else
        strictLoop data quoteChar st rs
    else if ch = quoteChar then
      strictLoop data quoteChar { st with isQuoteStr := true } rs
    else if ch = ' '.toNat then
      strictLoop data quoteChar st rs
    else if ch = '>'.toNat then do
      discard <| forward (i + 1)
      pure (newASCIIItem st.sb)
    else
      strictLoop data quoteChar { st with numStart := i, isNumStr := true } rs

def parseASCIIStrict : P Item := do
  let p ← get
  strictLoop p.data (findQuote (range p.data)) {} (range p.data)

-- Whether the byte at `idx` is the quote with only blanks up to `>`, and where the item ends then.
-- The bounds are those of the whole input, not of what is left of it.
def checkASCIICloseQuote (idx : Nat) (quoteCh : UInt8) : P (Option Nat) := do
  let p ← get
  if p.len ≤ idx + 1 ∨ p.len ≤ idx then
    pure none
  else if (← byteAt p.data idx) = quoteCh then
    match ← nonBlank p.data (p.len - (idx + 1)) (idx + 1) with
    | none => pure none
    | some nidx =>
      if (← byteAt p.data nidx) = '>'.toUInt8 then pure (some (nidx + 1)) else pure none
  else
    pure none

-- The first `n` bytes are the text, and the item ends at `nidx`.
def takeASCII (n nidx : Nat) : P Item := do
  let data ← sliceTo (← get).data n
  discard <| forward nidx
  pure (newASCIIItem data)

-- Tries the `k` positions from `i` on.
def fastLoop (quoteCh : UInt8) : Nat → Nat → P Item
  | 0,     _ => errf "unclosed quote string for ASCII item"
  | k + 1, i => do
    match ← checkASCIICloseQuote i quoteCh with
    | some nidx => takeASCII i nidx
    | none => fastLoop quoteCh k (i + 1)

def parseASCIIFast (maxSize : Nat) : P Item := do
  let ch ← nextNonSpaceRune
  if ch = some '>'.toUInt8 then
    pure (newASCIIItem [])
  else if ch = some '\''.toUInt8 ∨ ch = some '"'.toUInt8 then
    let p ← get
    if 0 < maxSize then
      if p.data.length < maxSize + 2 then
        errf "ASCII item size overflow, expect (%d+2), got %d" [.int maxSize, .int p.data.length]
      else
        match ← checkASCIICloseQuote maxSize (ch.getD 0) with
        | some nidx => takeASCII maxSize nidx
        | none => fastLoop (ch.getD 0) p.data.length 0
    else
      fastLoop (ch.getD 0) p.data.length 0
  else
    errf "invalid quote for ASCII string"

end ASCII

section Strings

-- The text up to the last quote before `>`, or nothing when there is no further quote.
def verbatimLoop (data : Bytes) (quoteCh : Nat) (unclosed : String) (new : Bytes → Item) :
    Nat → List (Nat × Nat) → P Item
  | _,            [] => errf unclosed
  | lastQuotePos, (i, ch) :: rs =>
    if ch = quoteCh then
      verbatimLoop data quoteCh unclosed new i rs
    else if ch = '>'.toNat then
      if lastQuotePos + 1 < i then
        verbatimLoop data quoteCh unclosed new lastQuotePos rs
      else do
        let text ← sliceTo data lastQuotePos
        discard <| forward (i + 1)
        pure (new text)
    else
      verbatimLoop data quoteCh unclosed new lastQuotePos rs

def parseVerbatim (badQuote unclosed : String) (new : Bytes → Item) : P Item := do
  let ch ← nextNonSpaceRune
  if ch = some '>'.toUInt8 then
    pure (new [])
  else if ch = some '\''.toUInt8 ∨ ch = some '"'.toUInt8 then
    let p ← get
    verbatimLoop p.data (ch.getD 0).toNat unclosed new 0 (range p.data)
  else
    errf badQuote

def parseJIS8 : P Item :=
  parseVerbatim "invalid quote for JIS-8 string" "unclosed quote string for JIS-8 item" newJIS8Item

def parseLocalizedStrVerbatim : P Item :=
  parseVerbatim "invalid quote for Localized string"
    "unclosed quote string for Localized string item" newUTF8StrItem

-- A run that the quote `ch` has opened, from `i` on: where it ends, and its text. The first argument
-- bounds the rounds.
def quotedRun (data : Bytes) (ch : UInt8) : Nat → Nat → Bytes → P (Nat × Bytes)
  | 0,     _, _   => throw .outOfFuel
  | k + 1, i, buf => do
    if i < data.length then
      let c ← byteAt data i
      if c = ch then
        pure (i, buf)
      else if c = '\\'.toUInt8 ∧ i + 1 < data.length then
        let d ← byteAt data (i + 1)
        if d = '\\'.toUInt8 ∨ d = '\''.toUInt8 ∨ d = '"'.toUInt8 then
          quotedRun data ch k (i + 2) (buf ++ [← byteAt data (i + 1)])
        else
          quotedRun data ch k (i + 1) (buf ++ [← byteAt data i])
      else
        quotedRun data ch k (i + 1) (buf ++ [← byteAt data i])
    else
      pure (i, buf)

structure Tokens where
  buf    : Bytes := []
  lsh    : UInt16 := lshUTF8
  tokens : Nat := 0

-- Where a token that starts with a digit ends.
def tokenEnd (data : Bytes) : Nat :=
  (indexAny data (ascii " \t\r\n>")).getD data.length

-- A token that starts with a digit: a byte of the text, or at first place the LSH.
def digitToken (st : Tokens) (tok : Bytes) : P Tokens :=
  if 2 < tok.length ∧ (tok.take 2 = ascii "0x" ∨ tok.take 2 = ascii "0X") then do
    match parseUint (← sliceFrom tok 2) 16 8 with
    | (_, some _) => errf "invalid byte token %q in Localized string" [.text tok]
    | (v, none)   => pure { st with buf := st.buf ++ [.ofNat v], tokens := st.tokens + 1 }
  else if st.tokens = 0 then
    match parseUint tok 10 16 with
    | (_, some _) => errf "invalid LSH %q in Localized string" [.text tok]
    | (v, none)   => pure { st with lsh := .ofNat v, tokens := st.tokens + 1 }
  else
    errf ("unexpected token %q in Localized string: a byte is written 0xHH, " ++
      "and an LSH only as the first token") [.text tok]

-- The token that starts with `ch`.
def tokenAt (zeroLength : Bool) (st : Tokens) (ch : UInt8) : P (Tokens ⊕ Item) := do
  let p ← get
  if ch = '>'.toUInt8 then
    discard <| forward 1
    pure (.inr (if zeroLength then newEmptyLocalizedStrItem
      else newLocalizedStrItem st.lsh st.buf))
  else if zeroLength then
    errf "zero-length Localized string <W[0]> must not have a value"
  else if ch = '\''.toUInt8 ∨ ch = '"'.toUInt8 then
    let (i, buf) ← quotedRun p.data ch (p.data.length + 1) 1 st.buf
    if i = p.data.length then
      errf "unclosed quote string for Localized string item"
    else
      discard <| forward (i + 1)
      pure (.inl { st with buf, tokens := st.tokens + 1 })
  else if isDecimal ch then
    let st ← digitToken st (← sliceTo p.data (tokenEnd p.data))
    discard <| forward (tokenEnd p.data)
    pure (.inl st)
  else
    errf "invalid token in Localized string"

def tokenStep (zeroLength : Bool) (st : Tokens) : P (Tokens ⊕ Item) := do
  if ← skipSpace then
    tokenAt zeroLength st (← byteAt (← get).data 0)
  else
    errf "unclosed Localized string item"

def parseLocalizedStrTokens (zeroLength : Bool) : P Item := fun p =>
  Prog.iterate .outOfFuel (tokenStep zeroLength) (p.data.length + 1) {} p

-- A value that the tokens do not cover is read once more from its start, verbatim.
def parseLocalizedStr (zeroLength : Bool) : P Item := fun p =>
  match parseLocalizedStrTokens zeroLength p with
  | .error (.parse e) =>
    if p.strict ∨ zeroLength then .error (.parse e) else parseLocalizedStrVerbatim p
  | r => r

end Strings

section Values

def getItemValueStrings : P (List Bytes) := do
  let p ← get
  match indexByte p.data '>'.toUInt8 with
  | none   => pure [[]]
  | some i => do
    let text ← sliceTo p.data i
    discard <| forward (i + 1)
    pure (fields text)

-- What the parsers of items with values have in common: the values are converted one by one, and an
-- error is reported at the position of the item.
def parseValues {α : Type} (convert : Bytes → Except Msg α) (new : List α → Item) : P Item := do
  let start ← get
  let values ← getItemValueStrings
  match values.mapM convert with
  | .error m  => errfAt start.pos m.format m.args
  | .ok items => pure (new items)

def toBool (val : Bytes) : Except Msg Bool :=
  if toUpper val = ascii "TRUE" ∨ toUpper val = ascii "T" then
    .ok true
  else if toUpper val = ascii "FALSE" ∨ toUpper val = ascii "F" then
    .ok false
  else
    .error { format := "expect boolean, found %s", args := [.text val] }

def parseBoolean : P Item :=
  parseValues toBool fun items => newBooleanItem [.bools items]

-- The conversion of an integer to one of Go's integer types, which wraps around.
def intValue (k : IntKind) (v : Int) : IntValue k where
  val := k.min + (v - k.min) % 2 ^ k.bits
  min_le := by have := Int.emod_nonneg (v - k.min) (show (2 : Int) ^ k.bits ≠ 0 by positivity); omega
  le_max := by
    have := Int.emod_lt_of_pos (v - k.min) (show (0 : Int) < 2 ^ k.bits by positivity)
    cases k <;> simp [IntKind.min, IntKind.max, IntKind.bits, IntKind.signed] at * <;> omega

def toByte (val : Bytes) : Except Msg UInt8 :=
  match Strconv.parseInt val 0 0 with
  | (_, some _)  => .error { format := "expect binary value, found %s", args := [.text val] }
  | (item, none) =>
    if item < 0 ∨ item ≥ 256 then
      .error { format := "binary value overflow, should be in range of [0, 256)" }
    else
      .ok (.ofNat item.toNat)

def parseBinary : P Item :=
  parseValues toByte fun items =>
    newBinaryItem [.ints .uint8 (items.map fun b => intValue .uint8 b.toNat)]

-- A value that is out of range has a message of its own.
def numErr (overflow expect : String) (byteSize : Nat) (val : Bytes) : NumErr → Msg
  | .errRange  => { format := overflow, args := [.int byteSize] }
  | .errSyntax => { format := expect, args := [.text val] }

def toFloat (floatValue : Nat → Bytes → Except NumErr F64) (byteSize : Nat) (val : Bytes) :
    Except Msg F64 :=
  match floatValue (byteSize * 8) val with
  | .error e => .error (numErr "f%d overflow" "expect float, found %s" byteSize val e)
  | .ok item => .ok item

def parseFloat (floatValue : Nat → Bytes → Except NumErr F64) (byteSize : Nat) : P Item :=
  parseValues (toFloat floatValue byteSize) fun items =>
    newFloatItem (floatValue 64) byteSize [.float64s items]

def toInt (byteSize : Nat) (val : Bytes) : Except Msg (IntValue .int64) :=
  match Strconv.parseInt val 0 (byteSize * 8) with
  | (_, some e) =>
    .error (numErr "i%d range overflow" "expect signed integer, found %s" byteSize val e)
  | (item, none) => .ok (intValue .int64 item)

def parseInt (byteSize : Nat) : P Item :=
  parseValues (toInt byteSize) fun items => newIntItem byteSize [.ints .int64 items]

def toUint (byteSize : Nat) (val : Bytes) : Except Msg (IntValue .uint64) :=
  match Strconv.parseUint val 0 (byteSize * 8) with
  | (_, some e) =>
    .error (numErr "u%d range overflow" "expect unsigned integer, found %s" byteSize val e)
  | (item, none) => .ok (intValue .uint64 item)

def parseUint (byteSize : Nat) : P Item :=
  parseValues (toUint byteSize) fun items => newUintItem byteSize [.ints .uint64 items]

end Values

-- The list's own nesting level, from the first child on.
def listStep (child : P Item) (childItems : List Item) : P (List Item ⊕ Item) := do
  match ← peekNonSpaceRune with
  | none    => errf "should not got eof"
  | some ch =>
    if ch = '<'.toUInt8 then
      let item ← child
      pure (.inl (childItems ++ [item]))
    else if ch = '>'.toUInt8 then
      discard <| forward 1
      modify fun p => { p with listDepth := p.listDepth - 1 }
      pure (.inr (newListItem (childItems.map some)))
    else
      errf "expected child data item or '<', '>', found %q" [.rune ch]

def parseList (child : P Item) : P Item := do
  modify fun p => { p with listDepth := p.listDepth + 1 }
  let p ← get
  if p.listDepth > maxListDepth then
    errf "list nesting depth exceeds maximum allowed: %d" [.int maxListDepth]
  else
    Prog.iterate .outOfFuel (listStep child) (p.data.length + 1) []

section Items

-- `strconv.ParseFloat`, by its bit size.
variable (floatValue : Nat → Bytes → Except NumErr F64)

def parseItemHead : P (FormatCode × Bool × Nat) := do
  if (← nextNonSpaceRune) = some '<'.toUInt8 then
    match ← parseItemType with
    | none => errf "failed to parse item type"
    | some itemType => do
      let ch ← peekNonSpaceRune
      let (_, maxSize) ← parseItemSize
      skipComment
      pure (itemType, ch = some '['.toUInt8, maxSize)
  else
    errf "expected '<'"

def parseItemBody (child : P Item) (hasSize : Bool) (maxSize : Nat) : FormatCode → P Item
  | .list => parseList child
  | .ascii => do
    if (← get).strict then parseASCIIStrict else parseASCIIFast maxSize
  | .jis8 => parseJIS8
  | .localizedStr => parseLocalizedStr (hasSize && maxSize = 0)
  | .boolean => parseBoolean
  | .binary => parseBinary
  | .float32 => parseFloat floatValue 4
  | .float64 => parseFloat floatValue 8
  | .int8 => parseInt 1
  | .int16 => parseInt 2
  | .int32 => parseInt 4
  | .int64 => parseInt 8
  | .uint8 => parseUint 1
  | .uint16 => parseUint 2
  | .uint32 => parseUint 4
  | .uint64 => parseUint 8

-- The first argument bounds how deep items nest.
def parseItemIn : Nat → P Item
  | 0 => throw .outOfFuel
  | d + 1 => do
    let (itemType, hasSize, maxSize) ← parseItemHead
    let item ← parseItemBody floatValue (parseItemIn d) hasSize maxSize itemType
    skipComment
    pure item

-- An item is in no list, or in up to `maxListDepth` many.
def parseItem : P Item :=
  parseItemIn floatValue (maxListDepth + 1)

def parseText : P Item := do
  skipComment
  if (← peekNonSpaceRune) = some '.'.toUInt8 then pure newEmptyItem else parseItem floatValue

end Items

-- Where the header ends: at the first newline or dot, or, when a name follows that and comes before
-- the first item, at the first one after the name.
def headerEnd (bracket : Option Nat) : P Nat := do
  let p ← get
  match indexAny p.data (ascii "\n.") with
  | none => errf "invalid SML message without dot symbol or newline"
  | some firstTerm =>
    match bracket with
    | none => pure firstTerm
    | some bracket =>
      match indexByte (← sliceTo p.data bracket) ':'.toUInt8 with
      | none => pure firstTerm
      | some nameSeparator =>
        if nameSeparator > firstTerm then
          match indexAny (← sliceFrom p.data (nameSeparator + 1)) (ascii "\n.") with
          | none => errf "invalid SML message without dot symbol or newline"
          | some nextTerm => pure (nameSeparator + 1 + nextTerm)
        else
          pure firstTerm

def skipName : P Unit := do
  let p ← get
  let firstTerm ← headerEnd (indexByte p.data '<'.toUInt8)
  let header ← sliceTo p.data (min firstTerm ((indexByte p.data '<'.toUInt8).getD firstTerm))
  match indexByte header ':'.toUInt8 with
  | none => pure ()
  | some midx => discard <| forward (midx + 1)

def skipQuote : P Unit := do
  let ch ← peekNonSpaceRune
  if ch = some '\''.toUInt8 ∨ ch = some '"'.toUInt8 then discard <| forward 1

def readWaitBit : P Unit := do
  if (← peekNonSpaceRune) = some 'W'.toUInt8 then
    modify fun p => { p with wbit := true }
    discard <| forward 1

def parseHSMSHeader : P Unit := do
  skipName
  skipQuote
  if (← nextRune) = some 'S'.toUInt8 then
    let streamVal ← nextCode
    if streamVal > 127 then
      errf "stream code range overflow, should be in range of [0, 128)"
    else
      modify fun p => { p with stream := streamVal }
      if (← nextRune) = some 'F'.toUInt8 then
        let funcVal ← nextCode
        modify fun p => { p with function := funcVal }
        skipQuote
        readWaitBit
      else
        errf "failed to parse function code"
  else
    errf "failed to parse stream code"

def newMessage (item : Item) : P (Option Hsms.DataMessage) := do
  let p ← get
  match Hsms.newDataMessage p.stream p.function p.wbit 0 ⟨0, 0, 0, 0⟩ (some item) with
  | .error e => throw (.wrapped e)
  | .ok msg  => pure (some msg)

def endMessage (item : Item) : P (Option Hsms.DataMessage) := do
  let ch ← nextNonSpaceRune
  if ch = some '.'.toUInt8 then
    newMessage item
  else
    errf "expect dot in the end of message, got %c" [.rune ch]

def reset (p : Parser) : Parser :=
  { p with stream := 0, function := 0, wbit := false }

section Messages

variable (floatValue : Nat → Bytes → Except NumErr F64)

-- A message behind its comment: the header and, if it is asked for, the body.
def parseMsgText (headerOnly : Bool) : P (Option Hsms.DataMessage) := do
  parseHSMSHeader
  if headerOnly then
    newMessage newEmptyItem
  else
    let item ← parseText floatValue
    endMessage item

-- Returns nothing at the end of the input.
def parseMsg (headerOnly : Bool) : P (Option Hsms.DataMessage) := do
  modify reset
  skipComment
  if (← peekNonSpaceRune) = none then pure none else parseMsgText floatValue headerOnly

def messageStep (messages : List Hsms.DataMessage) :
    P (List Hsms.DataMessage ⊕ List Hsms.DataMessage) := do
  match ← parseMsg floatValue false with
  | none => pure (.inr messages)
  | some msg => pure (.inl (messages ++ [msg]))

def parseAll : P (List Hsms.DataMessage) := fun p =>
  Prog.iterate .outOfFuel (messageStep floatValue) (p.data.length + 1) [] p

def parseOne (headerOnly : Bool) : P Hsms.DataMessage := do
  match ← parseMsg floatValue headerOnly with
  | none => throw .noMessage
  | some msg => pure msg

end Messages
end Parser

section Api

open Secs2

variable (floatValue : Nat → Bytes → Except NumErr F64) (p : Parser) (input : Bytes)

def result {α : Type} : Except Fault (α × Parser) → Except Fault α
  | .error e   => .error e
  | .ok (a, _) => .ok a

namespace Parser

def parse : Except Fault (List Hsms.DataMessage) :=
  result <| parseAll floatValue (p.initInput input)

def parseMessage : Except Fault Hsms.DataMessage :=
  result <| parseOne floatValue false (p.initInput input)

def parseHeader : Except Fault Hsms.DataMessage :=
  result <| parseOne floatValue true (p.initInput input)

end Parser

def parse : Except Fault (List Hsms.DataMessage) :=
  (newParser false).parse floatValue input

def parseStrict : Except Fault (List Hsms.DataMessage) :=
  (newParser true).parse floatValue input

end Api
end Sml
