import GoSecs.Lib.Decimal
import GoSecs.Lib.Hex
import GoSecs.Tracepack.Format

-- The keys of packs in a bucket, and the spelling rules that they share with the subjects of the bus.

open Run Strings Strconv

namespace Tracepack

open Format (UUID)

section Uuid

def uuidStringLen : Nat := 36

def UUID.groups : List (Nat × Nat) :=
  [(0, 8), (9, 13), (14, 18), (19, 23), (24, 36)]

-- `UUID.String`
def uuidString (u : UUID) : Bytes :=
  Hex.encode (u.bytes.take 4) ++ ascii "-" ++ Hex.encode ((u.bytes.drop 4).take 2) ++ ascii "-" ++
    Hex.encode ((u.bytes.drop 6).take 2) ++ ascii "-" ++ Hex.encode ((u.bytes.drop 8).take 2) ++
    ascii "-" ++ Hex.encode (u.bytes.drop 10)

def invalidUUID (s : Bytes) : Err :=
  .wrap "%q: %w" [.bytes s] (.sentinel .invalidUUID)

def decodeGroup (s : Bytes) (g : Nat × Nat) : Run Err Bytes := do
  match Hex.decode (← slice s g.1 g.2) with
  | none   => fail (invalidUUID s)
  | some b => pure b

-- `format.ParseUUID`
def parseUUID (s : Bytes) : Run Err UUID := do
  if s.length ≠ uuidStringLen then
    fail (invalidUUID s)
  else
    let hyphens ← [8, 13, 18, 23].mapM (index s)
    failIf (hyphens ≠ List.replicate 4 '-'.toUInt8) (invalidUUID s)
    let groups ← UUID.groups.mapM (decodeGroup s)
    UUID.ofBytes groups.flatten

-- `keyesc.ParseUUID`
def parseKeyUUID (s : Bytes) : Run Err UUID := do
  let u ← parseUUID s
  failIf (uuidString u ≠ s) (.text "UUID %q not in lowercase" [.bytes s])
  pure u

end Uuid

section Escape

def upperHex : Bytes :=
  ascii "0123456789ABCDEF"

def isUnreserved (c : UInt8) : Bool :=
  ('A'.toUInt8 ≤ c && c ≤ 'Z'.toUInt8) || ('a'.toUInt8 ≤ c && c ≤ 'z'.toUInt8) ||
    ('0'.toUInt8 ≤ c && c ≤ '9'.toUInt8) || c = '-'.toUInt8 || c = '.'.toUInt8 ||
    c = '_'.toUInt8 || c = '~'.toUInt8

def checkEquipment (equipment : Bytes) : Run Err Unit :=
  failIf (equipment = [] ∨ equipment = ascii "." ∨ equipment = ascii "..")
    (.text "equipment %q cannot be stored" [.bytes equipment])

variable (keep : UInt8 → Bool)

-- Every byte that is not kept is written `%XX`.
def escapeByte (c : UInt8) : Bytes :=
  if keep c then [c]
  else ['%'.toUInt8, upperHex.getD (c.toNat / 16) 0, upperHex.getD (c.toNat % 16) 0]

def escape (s : Bytes) : Bytes :=
  s.flatMap (escapeByte keep)

-- The errors of a text that is not the escape of another one, by the offset they are found at.
structure EscapeErrors where
  byte  : UInt8 → Nat → Err
  short : Nat → Err
  digit : Nat → Err
  kept  : UInt8 → Nat → Err

def unescape (errs : EscapeErrors) : Nat → Bytes → Run Err Bytes
  | _, [] => pure []
  | i, c :: s =>
    if keep c then do
      pure (c :: (← unescape errs (i + 1) s))
    else if c ≠ '%'.toUInt8 then
      fail (errs.byte c i)
    else
      match s with
      | a :: b :: s =>
        match indexByte upperHex a, indexByte upperHex b with
        | some hi, some lo =>
          if keep (.ofNat (hi * 16 + lo)) then
            fail (errs.kept (.ofNat (hi * 16 + lo)) i)
          else do
            pure (.ofNat (hi * 16 + lo) :: (← unescape errs (i + 3) s))
        | _, _ => fail (errs.digit i)
      | _ => fail (errs.short i)

end Escape

def escapeEquipmentID (equipment : Bytes) : Bytes :=
  escape isUnreserved equipment

def unescapeEquipmentID (s : Bytes) : Run Err Bytes := do
  let equipment ← unescape isUnreserved
    { byte  := fun c i => .text
        "equipment %q: byte %#02x at %d is neither unreserved nor an escape" [.bytes s, .nat c.toNat, .nat i]
      short := fun i => .text "equipment %q: escape at %d is cut short" [.bytes s, .nat i]
      digit := fun i => .text
        "equipment %q: escape at %d is not two uppercase hex digits" [.bytes s, .nat i]
      kept  := fun c i => .text
        "equipment %q: escape at %d encodes the unreserved byte %q" [.bytes s, .nat i, .bytes [c]] }
    0 s
  checkEquipment equipment
  pure equipment

section Keys

def keyPackSuffix : Bytes := ascii ".tpk"
def seqFirstDigits : Nat := 20
def segmentFileLen : Nat := seqFirstDigits + 1 + uuidStringLen + 4
def archiveFileLen : Nat := uuidStringLen + 1 + uuidStringLen + 4
def minKeyHour : Int := -2562048
def maxKeyHour : Int := 2562047

-- A calendar hour in UTC, by its fields.
structure CalendarHour where
  year  : Int
  month : Int
  day   : Int
  hour  : Int
deriving DecidableEq

-- The conversion of package `time` between hours since the Unix epoch and calendar hours, with what
-- it is assumed to do for the hours that a key can name.
structure Calendar where
  fields : Int → CalendarHour
  date : CalendarHour → Int
  date_fields : ∀ h, minKeyHour ≤ h → h ≤ maxKeyHour → date (fields h) = h
  year_range : ∀ h, minKeyHour ≤ h → h ≤ maxKeyHour → 0 ≤ (fields h).year ∧ (fields h).year < 10000
  month_range : ∀ h, minKeyHour ≤ h → h ≤ maxKeyHour → 0 ≤ (fields h).month ∧ (fields h).month < 100
  day_range : ∀ h, minKeyHour ≤ h → h ≤ maxKeyHour → 0 ≤ (fields h).day ∧ (fields h).day < 100
  hour_range : ∀ h, minKeyHour ≤ h → h ≤ maxKeyHour → 0 ≤ (fields h).hour ∧ (fields h).hour < 100

structure SegmentKeyParts where
  equipment : Bytes
  capture : UUID
  seqFirst : Nat
  pack : UUID
deriving DecidableEq

structure ArchiveKeyParts where
  equipment : Bytes
  hour : Int
  capture : UUID
  pack : UUID
deriving DecidableEq

def keyArgError (err : Err) : Err :=
  .mark .invalidKey err

def keyError (key : Bytes) (err : Err) : Err :=
  .tagged "%w %q: %w" [.bytes key] .invalidKey err

-- The start of every key of one area under `pre`.
def keyArea (pre area : Bytes) : Bytes :=
  if pre = [] then area ++ ascii "/" else pre ++ ascii "/" ++ area ++ ascii "/"

def stagingKeyDir (pre equipment : Bytes) (capture : UUID) : Run Err Bytes := do
  mapErr keyArgError (checkEquipment equipment)
  pure (keyArea pre (ascii "staging") ++ escapeEquipmentID equipment ++ ascii "/" ++
    uuidString capture ++ ascii "/")

def checkKeyHour (hour : Int) : Run Err Unit :=
  failIf (hour < minKeyHour ∨ hour > maxKeyHour)
    (.text "hour %d outside [%d, %d]" [.int hour, .int minKeyHour, .int maxKeyHour])

-- `%0kd`
def padInt (k : Nat) (v : Int) : Bytes :=
  if v < 0 then '-'.toUInt8 :: pad (k - 1) v.natAbs else pad k v.natAbs

def archiveKeyDir (cal : Calendar) (pre equipment : Bytes) (hour : Int) : Run Err Bytes := do
  mapErr keyArgError (checkEquipment equipment)
  mapErr keyArgError (checkKeyHour hour)
  let t := cal.fields hour
  pure (keyArea pre (ascii "archive") ++ escapeEquipmentID equipment ++ ascii "/" ++
    padInt 4 t.year ++ ascii "/" ++ padInt 2 t.month ++ ascii "/" ++ padInt 2 t.day ++ ascii "/" ++
    padInt 2 t.hour ++ ascii "/")

def segmentKey (pre equipment : Bytes) (capture : UUID) (seqFirst : Nat) (pack : UUID) :
    Run Err Bytes := do
  let dir ← stagingKeyDir pre equipment capture
  failIf (seqFirst > 2 ^ 63 - 1)
    (.wrap "%w: seq_first %d above 2^63-1" [.nat seqFirst] (.sentinel .invalidKey))
  pure (dir ++ pad seqFirstDigits seqFirst ++ ascii "-" ++ uuidString pack ++ keyPackSuffix)

def archiveKey (cal : Calendar) (pre equipment : Bytes) (capture : UUID) (hour : Int) (pack : UUID) :
    Run Err Bytes := do
  let dir ← archiveKeyDir cal pre equipment hour
  pure (dir ++ uuidString capture ++ ascii "-" ++ uuidString pack ++ keyPackSuffix)

def splitKey (pre area key : Bytes) (n : Nat) : Run Err (List Bytes) := do
  failIf (hasPrefix key (keyArea pre area) = false)
    (keyError key (.text "not under %q" [.bytes (keyArea pre area)]))
  let comps := (key.drop (keyArea pre area).length).splitOn '/'.toUInt8
  failIf (comps.length ≠ n) (keyError key (.text "%d components after %q, want %d"
    [.nat comps.length, .bytes (keyArea pre area), .nat n]))
  pure comps

-- The error of `strconv.ParseUint`.
def numError (s : Bytes) : NumErr → Err
  | .errSyntax => .text "strconv.ParseUint: parsing %q: invalid syntax" [.bytes s]
  | .errRange  => .text "strconv.ParseUint: parsing %q: value out of range" [.bytes s]

def parseDigits (s : Bytes) (bitSize : Nat) : Run Err Nat :=
  match parseUint s 10 bitSize with
  | (n, none)   => pure n
  | (_, some e) => fail (numError s e)

def parseKeyDigits (s : Bytes) : Run Err Nat :=
  parseDigits s 64

def parseKeyHour (cal : Calendar) (year month day hour : Bytes) : Run Err Int := do
  failIf (year.length ≠ 4 ∨ month.length ≠ 2 ∨ day.length ≠ 2 ∨ hour.length ≠ 2)
    (.text "hour %s/%s/%s/%s not YYYY MM DD HH"
      [.bytes year, .bytes month, .bytes day, .bytes hour])
  let y ← parseDigits year 16
  let m ← parseDigits month 16
  let d ← parseDigits day 16
  let h ← parseDigits hour 16
  let f : CalendarHour := { year := y, month := m, day := d, hour := h }
  failIf (cal.fields (cal.date f) ≠ f) (.text "hour %s%s%s%s not a calendar hour"
    [.bytes year, .bytes month, .bytes day, .bytes hour])
  checkKeyHour (cal.date f)
  pure (cal.date f)

def parseSegmentKey (pre key : Bytes) : Run Err SegmentKeyParts := do
  let comps ← splitKey pre (ascii "staging") key 3
  let equipment ← mapErr (keyError key) (unescapeEquipmentID (← index comps 0))
  let capture ← mapErr (keyError key) (parseKeyUUID (← index comps 1))
  let file ← index comps 2
  failIf (file.length ≠ segmentFileLen ∨ file[seqFirstDigits]? ≠ some '-'.toUInt8 ∨
      keyPackSuffix.isSuffixOf file = false)
    (keyError key (.text "not <seq_first>-<pack_id>.tpk" []))
  let seqFirst ← mapErr (keyError key) (parseKeyDigits (← slice file 0 seqFirstDigits))
  failIf (seqFirst > 2 ^ 63 - 1) (keyError key (.text "seq_first above 2^63-1" []))
  let pack ← mapErr (keyError key)
    (parseKeyUUID (← slice file (seqFirstDigits + 1) (seqFirstDigits + 1 + uuidStringLen)))
  pure { equipment, capture, seqFirst, pack }

def parseArchiveKey (cal : Calendar) (pre key : Bytes) : Run Err ArchiveKeyParts := do
  let comps ← splitKey pre (ascii "archive") key 6
  let equipment ← mapErr (keyError key) (unescapeEquipmentID (← index comps 0))
  let hour ← mapErr (keyError key)
    (parseKeyHour cal (← index comps 1) (← index comps 2) (← index comps 3) (← index comps 4))
  let file ← index comps 5
  failIf (file.length ≠ archiveFileLen ∨ file[uuidStringLen]? ≠ some '-'.toUInt8 ∨
      keyPackSuffix.isSuffixOf file = false)
    (keyError key (.text "not <capture_id>-<pack_id>.tpk" []))
  let capture ← mapErr (keyError key) (parseKeyUUID (← slice file 0 uuidStringLen))
  let pack ← mapErr (keyError key)
    (parseKeyUUID (← slice file (uuidStringLen + 1) (2 * uuidStringLen + 1)))
  pure { equipment, hour, capture, pack }

end Keys

end Tracepack
