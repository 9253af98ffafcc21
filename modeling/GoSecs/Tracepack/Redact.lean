import GoSecs.Lib.AesSiv
import GoSecs.Lib.Sha256
import GoSecs.Tracepack.Marking
import GoSecs.Tracepack.PackMeta
import GoSecs.Tracepack.Record
import GoSecs.Tracepack.SecsItem

open Run LittleEndian

namespace Tracepack.Redact

open Format (UUID)
open SecsItem (Pattern Range)

def keySize : Nat := 64
def sivSize : Nat := 16
def framePrefixLen : Nat := 14
def maxStream : UInt8 := 127
def maxDomainLen : Nat := 65535

def domainMessageText : Bytes := Strings.ascii "message-text"

def digestAlgorithmHMACSHA256 : UInt8 := 1
def encryptionAlgorithmAESSIVCMAC512 : UInt8 := 1

-- The cipher `subtle.AESSIV` and HMAC-SHA-256.
structure Crypto where
  encrypt : (key plaintext ad : Bytes) → Option Bytes
  decrypt : (key ciphertext ad : Bytes) → Option Bytes
  mac : (key message : Bytes) → Bytes
  decrypt_encrypt : ∀ key p ad c, encrypt key p ad = some c → decrypt key c ad = some p
  length_encrypt : ∀ key p ad c, encrypt key p ad = some c → c.length = sivSize + p.length

def aesSiv : Crypto where
  encrypt := AesSiv.encrypt
  decrypt := AesSiv.decrypt
  mac := Sha256.hmac
  decrypt_encrypt := fun _ _ _ _ => AesSiv.decrypt_encrypt
  length_encrypt  := fun _ _ _ _ => AesSiv.length_encrypt

namespace Siv

variable (crypto : Crypto)

-- "tracepack-original-v1", the capture, the seq and the first offset
def associatedData (capture : UUID) (seq firstOffset : Nat) : Bytes :=
  Strings.ascii "tracepack-original-v1" ++ capture.bytes ++ bytes 8 seq ++ bytes 8 firstOffset

def sealText (key ad plaintext : Bytes) : Run Err (Bytes × Bytes) :=
  if key.length ≠ keySize then
    fail (.sentinel .keySize)
  else
    match crypto.encrypt key plaintext ad with
    | none => fail (.text "siv: encrypt" [])
    | some out => do return (out.take sivSize, ← slice out sivSize out.length)

def openText (key ad iv ciphertext : Bytes) : Option Bytes :=
  if key.length ≠ keySize ∨ iv.length ≠ sivSize then none
  else crypto.decrypt key (iv ++ ciphertext) ad

end Siv

structure ItemRule where
  stream : UInt8
  function : UInt8
  path : Bytes
  domain : Bytes

structure AnnotationRule where
  kind   : UInt8
  domain : Bytes
deriving DecidableEq

-- `encryption` is the id of the encryption key.
structure Policy where
  id : Bytes
  version : Nat
  digestKeyID : Bytes
  encryption : Option Bytes
  itemRules : List ItemRule
  annotationRules : List AnnotationRule

structure CompiledRule where
  stream   : UInt8
  function : UInt8
  pattern  : Pattern
  domain   : Bytes
deriving DecidableEq

structure Compiled where
  policy : Policy
  items  : List CompiledRule := []

def checkDomain (domain : Bytes) : Run Err Unit :=
  failIf (domain = [] ∨ maxDomainLen < domain.length ∨ Utf8.valid domain = false)
    (.wrap "%w: %d bytes" [.nat domain.length] (.sentinel .domain))

def checkPackPolicy (p : Policy) : Run Err Unit := do
  failIf (Utf8.valid p.id = false) (.text "policy %s is not valid UTF-8" [.text "ID"])
  failIf (Utf8.valid p.digestKeyID = false)
    (.text "policy %s is not valid UTF-8" [.text "DigestKeyID"])
  failIf (p.encryption.any fun id => Utf8.valid id = false)
    (.text "policy %s is not valid UTF-8" [.text "Encryption.KeyID"])
  failIf (Marking.maxInt64 < p.version)
    (.text "policy Version %d is above 2^63-1" [.nat p.version])

def Compiled.rulesOf (c : Compiled) (stream function : UInt8) : List CompiledRule :=
  c.items.filter fun r => r.stream = stream ∧ r.function = function

def invalid (i : Nat) (kind : String) (err : Err) : Err :=
  .mark .invalidPolicy (.wrap (kind ++ " rule %d: %w") [.nat i] err)

def compileItems (p : Policy) : Nat → List ItemRule → Compiled → Run Err Compiled
  | _, [],      c => pure c
  | i, r :: rs, c => do
    mapErr (invalid i "item") (checkDomain r.domain)
    failIf (maxStream < r.stream) (invalid i "item"
      (.text "stream %d is above %d" [.nat r.stream.toNat, .nat maxStream.toNat]))
    let pattern ← mapErr (invalid i "item") (SecsItem.parsePattern r.path)
    let clash := (c.rulesOf r.stream r.function).find? fun other =>
      p.encryption.isSome && SecsItem.overlaps pattern other.pattern
    match clash with
    | some other =>
      fail (.mark .invalidPolicy
        (.wrap "item rule %d (%q) and the rule of path %q for S%dF%d: %w"
          [.nat i, .bytes r.path, .bytes (SecsItem.patternText other.pattern),
           .nat r.stream.toNat, .nat r.function.toNat] (.sentinel .overlappingRules)))
    | none =>
      compileItems p (i + 1) rs { c with
        items := c.items ++ [⟨r.stream, r.function, pattern, r.domain⟩] }

def checkAnnotationRules : Nat → List AnnotationRule → Run Err Unit
  | _, [] => pure ()
  | i, r :: rs => do
    mapErr (invalid i "annotation") (checkDomain r.domain)
    checkAnnotationRules (i + 1) rs

def compile (p : Policy) : Run Err Compiled := do
  mapErr (.mark .invalidPolicy) (checkPackPolicy p)
  let c ← compileItems p 0 p.itemRules { policy := p }
  checkAnnotationRules 0 p.annotationRules
  return c

def Compiled.packPolicy (c : Compiled) : RedactionPolicy where
  policyID := c.policy.id
  policyVersion := .ofNat c.policy.version
  keyID := c.policy.digestKeyID
  digestAlgorithm := digestAlgorithmHMACSHA256
  encryptionAlgorithm := c.policy.encryption.map fun _ => encryptionAlgorithmAESSIVCMAC512
  encryptionKeyID := c.policy.encryption

-- What a rule selects in a record: the ranges to mask and the range of the digest.
structure Match where
  path    : Option Bytes := none
  ranges  : List MaskedRange
  domain  : Bytes
  digest  : Range
  encrypt : Bool := false
deriving DecidableEq

def Match.firstOffset (m : Match) : Nat :=
  (m.ranges.head?.map (·.offset)).getD 0

section Mask

variable (c : Compiled)

def wholeText (payload : Bytes) : List Match :=
  [{ ranges  := [⟨framePrefixLen, payload.length - framePrefixLen⟩]
     domain  := domainMessageText
     digest  := ⟨framePrefixLen, payload.length⟩
     encrypt := c.policy.encryption.isSome }]

-- The match of a selected item, none for an item without content.
def matchOf (text : SecsItem.Text) (rule : CompiledRule) (sel : SecsItem.Selection) :
    Run Err (List Match) := do
  let content ← text.contentOf sel.item
  if content = [] then
    return []
  else
    return [{
      path := some sel.path
      ranges := content.map fun r => ⟨framePrefixLen + r.start, r.stop - r.start⟩
      domain := rule.domain
      digest := ⟨framePrefixLen + sel.item.start, framePrefixLen + sel.item.stop⟩
      encrypt := c.policy.encryption.isSome }]

-- The matches of the rules, none when a rule's path does not lead to items.
def itemMatches (text : SecsItem.Text) : List CompiledRule → Run Err (Option (List Match))
  | [] => pure (some [])
  | rule :: rules => do
    match ← text.select rule.pattern with
    | none => pure none
    | some sels => do
      let ms ← sels.mapM (matchOf c text rule)
      let rest ← itemMatches text rules
      return rest.map (ms.flatten ++ ·)

def dataMatches (payload : Bytes) : Run Err (List Match) := do
  if payload.length ≤ framePrefixLen then
    return []
  else
    let rules := c.rulesOf ((← index payload 6) &&& 0x7F) (← index payload 7)
    if rules = [] then
      return []
    else
      let text ← mapErr (fun e => .mark .cannotScreen e.err)
        (SecsItem.screen (← slice payload framePrefixLen payload.length))
      if text.one ∧ ¬text.content then
        return []
      else if ¬text.one then
        return wholeText c payload
      else
        match ← itemMatches c text rules with
        | none    => return wholeText c payload
        | some ms => return ms.insertionSort fun a b => a.firstOffset ≤ b.firstOffset

def annotationValue (payload : Bytes) : Range :=
  match Tlv.decode payload with
  | .ok entries =>
    match entries.find? fun e => e.tag = 0x0005 ∨ e.tag = 0x0006 with
    | some e => ⟨e.offset + Tlv.headerLen, e.offset + Tlv.headerLen + e.value.length⟩
    | none   => ⟨0, 0⟩
  | .error _ => ⟨0, 0⟩

def annotationMatches (payload : Bytes) : Run Err (List Match) := do
  if c.policy.annotationRules = [] then
    return []
  else
    let a ← mapErr (.mark .cannotScreen) <| unmarshalAnnotation payload
    let domains := (c.policy.annotationRules.filter (·.kind = a.annotationKind)).map (·.domain)
    let value := annotationValue payload
    if domains = [] ∨ value.start = value.stop then
      return []
    else
      return domains.map fun d =>
        { ranges := [⟨value.start, value.stop - value.start⟩], domain := d, digest := value }

end Mask

section Apply

variable (crypto : Crypto)

def digestWith (key domain original : Bytes) : Bytes :=
  crypto.mac key (bytes 2 domain.length ++ domain ++ original)

def gather (payload : Bytes) : List MaskedRange → Run Err Bytes
  | [] => pure []
  | r :: rs => do
    let a ← slice payload r.offset r.stop
    return a ++ (← gather payload rs)

def scatter (payload : Bytes) : List MaskedRange → Bytes → Run Err Bytes
  | [],      _ => pure payload
  | r :: rs, b => do
    let room ← slice payload r.offset r.stop
    let n := min room.length b.length
    scatter (Splice.overwrite payload r.offset (b.take n)) rs (b.drop n)

def clear (payload : Bytes) : List MaskedRange → Run Err Bytes
  | [] => pure payload
  | r :: rs => do
    let room ← slice payload r.offset r.stop
    clear (Splice.overwrite payload r.offset (List.replicate room.length 0)) rs

def entryOf (r : Record) (digestKey : Bytes) (m : Match) : Run Err RedactionEntry := do
  let original ← slice r.payload m.digest.start m.digest.stop
  return {
    seq := r.seq
    itemPath := m.path
    maskedRanges := m.ranges
    domain := m.domain
    digest := digestWith crypto digestKey m.domain original }

-- The payload and the entries after one match. The plaintext is that of the record.
def applyMatch (capture : UUID) (r : Record) (encKey : Bytes) (out : Bytes)
    (m : Match) (e : RedactionEntry) : Run Err (Bytes × RedactionEntry) := do
  if m.encrypt then
    let first ← index m.ranges 0
    let plaintext ← gather r.payload m.ranges
    let (iv, ct) ← mapErr (.wrap "redact: encrypt: %w" [])
      (Siv.sealText crypto encKey (Siv.associatedData capture r.seq first.offset) plaintext)
    return (← scatter out m.ranges ct, { e with siv := iv, hasSIV := true })
  else
    return (← clear out m.ranges, e)

def applyMatches (capture : UUID) (r : Record) (digestKey encKey : Bytes) :
    Bytes → List Match → Run Err (Bytes × List RedactionEntry)
  | out, [] => pure (out, [])
  | out, m :: ms => do
    let e ← entryOf crypto r digestKey m
    let (out, e) ← applyMatch crypto capture r encKey out m e
    let (out, es) ← applyMatches capture r digestKey encKey out ms
    return (out, e :: es)

def apply (capture : UUID) (r : Record) (ms : List Match) (digestKey encKey : Bytes) :
    Run Err (Record × List RedactionEntry) := do
  let (payload, entries) ← applyMatches crypto capture r digestKey encKey r.payload ms
  return ({ r with payload, quality := r.quality ||| qualityRedacted }, entries)

end Apply

structure Keys where
  digestKey : (keyID : Bytes) → Except Err Bytes
  encryptionKey : (capture : UUID) → (keyID : Bytes) → Except Err Bytes

def fetch (what : String) (keyID : Bytes) (x : Except Err Bytes) : Run Err Bytes :=
  match x with
  | .ok key  => pure key
  | .error e => fail (.wrap (what ++ " key %q: %w") [.bytes keyID] e)

def checkCtx (ctx : Option Err) : Run Err Unit :=
  match ctx with
  | none   => pure ()
  | some e => fail e

def matchesOf (c : Compiled) (r : Record) : Run Err (List Match) :=
  if r.kind = kindData then dataMatches c r.payload
  else if r.kind = kindAnnotation then annotationMatches c r.payload
  else pure []

def encryptionKey (keys : Keys) (capture : UUID) (keyID : Bytes) : Run Err Bytes := do
  let key ← fetch "encryption" keyID (keys.encryptionKey capture keyID)
  failIf (key.length ≠ keySize) (.wrap "%w: key %q holds %d bytes" [.bytes keyID, .nat key.length]
    (.sentinel .keySize))
  return key

-- `ctx` is what `ctx.Err` returns at the two places that look at it.
def Compiled.mask (crypto : Crypto) (c : Compiled) (ctx : Option Err × Option Err) (capture : UUID)
    (r : Record) (unobserved : Bool) (keys : Keys) : Run Err (Record × List RedactionEntry) := do
  let wrap : Err → Err := .wrap "redact: seq %d: %w" [.nat r.seq]
  if unobserved then
    failIf (r.quality &&& qualityUnobserved = 0) (wrap (.sentinel .notUnobserved))
    return (r, [])
  else
    failIf (r.quality &&& qualityRedacted ≠ 0) (wrap (.sentinel .redacted))
    let ms ← mapErr wrap (matchesOf c r)
    if ms = [] then
      return (r, [])
    else
      checkCtx ctx.1
      let keyID := c.policy.digestKeyID
      let digestKey ← mapErr wrap (fetch "digest" keyID (keys.digestKey keyID))
      let encKey ← (if ms.any (·.encrypt) then do
          checkCtx ctx.2
          mapErr wrap (encryptionKey keys capture (c.policy.encryption.getD []))
        else
          pure [])
      mapErr wrap (apply crypto capture r ms digestKey encKey)

-- The marking of a record that a reader gives out. A defect is its error.
structure RecordRedaction where
  entries : List RedactionEntry
  whollyMasked : Bool := false
  defects : List Err := []

def defectsError (seq : Nat) (defects : List Err) : Err :=
  let noun := if defects.length = 1 then "defect" else "defects"
  .joined (.wrap "%w: seq %d: its Marking lists %d %s" [.nat seq, .nat defects.length, .text noun]
    (.sentinel .redactionDefect)) defects

-- The record and its marking, each of which the caller may leave out.
def checkRestorable : Option Record → Option RecordRedaction → Run Err (Record × RecordRedaction)
  | some r, some rr => do
    failIf (rr.defects ≠ []) (defectsError r.seq rr.defects)
    failIf (rr.whollyMasked = true) (.wrap "%w: seq %d is wholly masked" [.nat r.seq]
      (.sentinel .redactionDefect))
    failIf (rr.entries = [] ∧ r.quality &&& qualityRedacted = 0)
      (.wrap "%w: seq %d is not masked" [.nat r.seq] (.sentinel .notRestorable))
    return (r, rr)
  | _, _ => fail (.wrap "%w: no record or no Marking" [] (.sentinel .notRestorable))

def markingEntry (e : RedactionEntry) : Marking.Entry where
  seq := e.seq
  ranges := if e.rawMaskedRanges = [] then e.maskedRanges else []
  malformed := e.rawMaskedRanges ≠ []
  hasSIV := e.hasSIV || e.siv ≠ []
  sivLen := e.siv.length

def markingRecord (r : Record) : Marking.Record where
  seq := r.seq
  kind :=
    if r.kind = kindData then .data
    else if r.kind = kindAnnotation then Marking.Kind.annotation
    else .other
  redacted := r.quality &&& qualityRedacted ≠ 0
  payload  := r.payload

-- Every fault of the entries, those of an entry and of its order before those of the record.
def markingFaults (r : Record) (entries : List RedactionEntry) : List Err :=
  let mes := entries.map markingEntry
  let each := mes.zipIdx.flatMap fun (e, i) =>
    (Marking.checkEntry e).map (.wrap "entry %d: %w" [.nat i]) ++
    if i = 0 then []
    else
      (mes[i - 1]?.bind (Marking.checkOrder · e)).toList.map (.wrap "entry %d: %w" [.nat i])
  each ++ (Marking.checkRecord (markingRecord r) mes true).map fun d =>
    .wrap "entry %d: %w" [.int ((d.entry.map Int.ofNat).getD (-1))] d.err

def checkMarking (r : Record) (entries : List RedactionEntry) : Run Err Unit :=
  match markingFaults r entries with
  | [] => pure ()
  | e :: es => fail (.mark .redactionDefect (.wrap "seq %d: %w" [.nat r.seq] (.joined e es)))

def restoreEntries (crypto : Crypto) (capture : UUID) (r : Record) (key : Bytes) :
    Nat → Bytes → List RedactionEntry → Run Err Bytes
  | _, out, [] => pure out
  | i, out, e :: es => do
    let first ← index e.maskedRanges 0
    let ad := Siv.associatedData capture r.seq first.offset
    match Siv.openText crypto key ad e.siv (← gather r.payload e.maskedRanges) with
    | none => fail (.wrap "%w: seq %d, entry %d" [.nat r.seq, .nat i] (.sentinel .authentication))
    | some plain => do
      let out ← scatter out e.maskedRanges plain
      restoreEntries crypto capture r key (i + 1) out es

def restore (crypto : Crypto) (capture : UUID) (r : Option Record) (rr : Option RecordRedaction)
    (policy : Option RedactionPolicy) (key : Bytes) : Run Err Bytes := do
  let (r, rr) ← checkRestorable r rr
  match policy with
  | none   => fail (.sentinel .noEncryption)
  | some p =>
    match p.encryptionAlgorithm, p.encryptionKeyID with
    | some alg, some _ => do
      failIf (alg ≠ encryptionAlgorithmAESSIVCMAC512) (.wrap "%w: %s" [.nat alg.toNat]
        (.sentinel .unsupportedAlgorithm))
      failIf (key.length ≠ keySize) (.wrap "%w: %d bytes" [.nat key.length] (.sentinel .keySize))
      checkMarking r rr.entries
      failIf (r.kind ≠ kindData)
        (.wrap "%w: seq %d is an annotation, whose masks keep no original" [.nat r.seq]
          (.sentinel .notRestorable))
      restoreEntries crypto capture r key 0 r.payload rr.entries
    | _, _ => fail (.sentinel .noEncryption)

end Tracepack.Redact
