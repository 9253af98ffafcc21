import GoSecs.Tracepack.Theorems.Matches

open Run

namespace Tracepack.Redact

open Splice (Covered Inside Span)
open SecsItem (Node Pattern Text Selection selectionOf)

variable {c : Compiled} {n : Node} {t : Text} {payload : Bytes} {ms : List Match} {m : Match}
variable {crypto : Crypto} {ctx : Option Err × Option Err} {capture : Format.UUID} {r r' : Record}
variable {unobserved : Bool} {keys : Keys} {es : List RedactionEntry} {i : Nat} {payload' : Bytes}

def maskedBytes (es : List RedactionEntry) (i : Nat) : Prop :=
  Covered (es.flatMap (·.maskedRanges)) i

theorem maskedBytes_iff (h : List.Forall₂ (EntryFor r) ms es) :
    maskedBytes es i ↔ ∃ m ∈ ms, Covered m.ranges i := by
  rw [maskedBytes, Splice.covered_flatMap]
  induction h
  case nil => simp
  case cons hfor _ hi => simp [hi, hfor.ranges]

-- Masking item by item keeps the item, and masks the content that the rules select.
structure SameItems (c : Compiled) (payload payload' : Bytes) (es : List RedactionEntry) (t : Text)
    (n : Node) : Prop where
  before  : OneItem (payload.drop framePrefixLen) n
  after   : OneItem (payload'.drop framePrefixLen) n
  screen  : SecsItem.screen (payload'.drop framePrefixLen) =
    .ok { t with b := payload'.drop framePrefixLen }
  select  : ∀ p : Pattern, (t.select p : Run Err (Option (List Selection))) =
    .ok ((n.select p []).map (·.map selectionOf))
  again   : ∀ p : Pattern, (Text.select { t with b := payload'.drop framePrefixLen } p :
    Run Err (Option (List Selection))) = t.select p
  targets : ∀ i, maskedBytes es i ↔ Target c payload n i

theorem select_of_oneItem {text : Bytes} {content : Bool} (h : OneItem text n) (p : Pattern) :
    (Text.select { b := text, one := true, content } p : Run Err (Option (List Selection))) =
      .ok ((n.select p []).map (·.map selectionOf)) := by
  rw [Text.select, if_pos rfl, SecsItem.selectAt_of_tree h.1]

-- Payloads that agree outside the targets hold the same items.
theorem OneItem.congr (hn : OneItem (payload.drop framePrefixLen) n)
    (hl : payload'.length = payload.length)
    (hb : ∀ i, ¬Target c payload n i → payload'[i]? = payload[i]?) :
    OneItem (payload'.drop framePrefixLen) n := by
  have hd : (payload'.drop framePrefixLen).length = (payload.drop framePrefixLen).length := by
    simp [hl]
  refine ⟨SecsItem.tree_congr hd hn.1 fun i _ _ hi => ?_, by rw [hd, hn.2]⟩
  rw [List.getElem?_drop, List.getElem?_drop, hb]
  rintro ⟨_, rule, _, out, ho, x, hx, s, hs, hh⟩
  rw [Nat.add_sub_cancel_left] at hh
  exact hi s (SecsItem.select_contents ho hx s hs) hh

theorem sameItems (hm : DataMatches c payload ms) (hes : List.Forall₂ (EntryFor r) ms es)
    (hf : Frame ms payload payload')
    (ht : SecsItem.screen (payload.drop framePrefixLen) = .ok t) (ho : t.one = true)
    (hr : ∀ rule ∈ rulesFor c payload,
      (t.select rule.pattern : Run Err (Option (List Selection))) ≠ .ok none) :
    ∃ n, SameItems c payload payload' es t n := by
  have ⟨n, hn⟩ := oneItem_of_screen ht ho
  obtain rfl := Except.ok.inj (ht.symm.trans (screen_of_oneItem hn))
  have hsel : ∀ rule ∈ rulesFor c payload, n.select rule.pattern [] ≠ none := by
    intro rule hrule h
    apply hr rule hrule
    rw [select_of_oneItem hn, h, Option.map_none]
  have htargets : ∀ i, maskedBytes es i ↔ Target c payload n i := fun i => by
    rw [maskedBytes_iff hes, hm.covered hn hsel]
  have hafter : OneItem (payload'.drop framePrefixLen) n :=
    hn.congr hf.length fun i hi => hf.outside i fun m hmem hc =>
      hi ((hm.covered hn hsel).mp ⟨m, hmem, hc⟩)
  exact ⟨n, {
    before  := hn
    after   := hafter
    screen  := screen_of_oneItem hafter
    select  := select_of_oneItem hn
    again   := fun p => by rw [select_of_oneItem hafter, select_of_oneItem hn]
    targets := htargets }⟩

theorem matchesOf_data (hk : r.kind = kindData) (hm : matchesOf c r = .ok ms) :
    DataMatches c r.payload ms := by
  rw [matchesOf, if_pos hk] at hm
  exact dataMatches_cases hm

theorem Frame.take (hf : Frame ms payload payload') (hm : ∀ m ∈ ms, m.Ok payload) :
    payload'.take framePrefixLen = payload.take framePrefixLen := by
  apply List.ext_getElem?
  intro i
  rw [List.getElem?_take, List.getElem?_take]
  split
  case isFalse   => rfl
  case isTrue hi =>
    refine hf.outside i ?_
    rintro m hmem ⟨s, hs, hlo, _⟩
    have := (hm m hmem).behind s hs
    omega

theorem Masked.frame (h : Masked crypto c capture keys r unobserved r' es) :
    ∃ ms, List.Forall₂ (EntryFor r) ms es ∧ Frame ms r.payload r'.payload ∧
      (unobserved = false → matchesOf c r = .ok ms) ∧ (unobserved = true → ms = []) ∧
      r' = { r with
        payload := r'.payload
        quality := if es = [] then r.quality else r.quality ||| qualityRedacted } ∧
      (es = [] → r' = r) := by
  cases h
  case unobserved => exact ⟨[], .nil, ⟨rfl, fun _ _ => rfl⟩, by simp, by simp, by simp, by simp⟩
  case unmatched hm =>
    exact ⟨[], .nil, ⟨rfl, fun _ _ => rfl⟩, fun _ => hm, by simp, by simp, by simp⟩
  case applied ms _ _ payload hq hm hne hk ha =>
    have ⟨hes, _, hf⟩ := applyMatches_frame ha
    have hne' : es ≠ [] := by
      rintro rfl
      cases hes
      exact hne rfl
    exact ⟨ms, hes, hf, fun _ => hm, by simp, by rw [if_neg hne'], fun h => absurd h hne'⟩

-- Masking changes the target bytes and the redacted bit only.
theorem mask_touches_targets (h : c.mask crypto ctx capture r unobserved keys = .ok (r', es)) :
    r'.payload.length = r.payload.length ∧
    (∀ i, ¬maskedBytes es i → r'.payload[i]? = r.payload[i]?) ∧
    (r.kind = kindData → r'.payload.take framePrefixLen = r.payload.take framePrefixLen) ∧
    r' = { r with
      payload := r'.payload
      quality := if es = [] then r.quality else r.quality ||| qualityRedacted } ∧
    (∀ t, unobserved = false → r.kind = kindData →
      SecsItem.screen (r.payload.drop framePrefixLen) = .ok t → t.one = true →
      (∀ rule ∈ rulesFor c r.payload,
        (t.select rule.pattern : Run Err (Option (List Selection))) ≠ .ok none) →
      ∃ n, SameItems c r.payload r'.payload es t n) ∧
    (es = [] → r' = r) ∧
    (matchesOf c r = .ok [] → es = [] ∧ r' = r) := by
  have ⟨ms, hes, hf, hm, hun, hr', hnil⟩ := (mask_cases h).frame
  refine ⟨hf.length, ?_, ?_, hr', ?_, hnil, ?_⟩
  · intro i hi
    rw [maskedBytes_iff hes] at hi
    exact hf.outside i fun m hmem hc => hi ⟨m, hmem, hc⟩
  · intro hk
    cases unobserved
    case true =>
      obtain rfl := hun rfl
      exact hf.take (by simp)
    case false => exact hf.take (matchesOf_data hk (hm rfl)).ok
  · intro t hu hk ht ho hsel
    exact sameItems (matchesOf_data hk (hm hu)) hes hf ht ho hsel
  · intro h₀
    have hes₀ : es = [] := by
      cases unobserved
      case true =>
        obtain rfl := hun rfl
        cases hes
        rfl
      case false =>
        obtain rfl := Except.ok.inj ((hm rfl).symm.trans h₀)
        cases hes
        rfl
    exact ⟨hes₀, hnil hes₀⟩

section Sample

-- The key of a Wycheproof vector for AES-SIV-CMAC.
def sampleKey : Bytes :=
  BigEndian.bytes 32 0x3ab062dbdd38b951a9fb0d8bb185959a93dab3496b850a3062b93003036c8bd2 ++
  BigEndian.bytes 32 0xaabbf37d5d3f6a399d4cedefb70c1b8a7b45639fe118c10e39f36fa58618a84d

example : aesSiv.encrypt sampleKey [0x5c, 0x6f] (BigEndian.bytes 12 0xe8605f13db8c482d48bdba2d) =
    some (BigEndian.bytes 18 0xfddea9ac778b978a968033ce52ec61162588) := by
  decide +kernel

def samplePolicy (encryption : Option Bytes) : Policy where
  id := Strings.ascii "p"
  version := 1
  digestKeyID := Strings.ascii "d"
  encryption := encryption
  itemRules := [⟨1, 1, Strings.ascii "1", Strings.ascii "recipe"⟩]
  annotationRules := []

def sampleCompiled (encryption : Option Bytes) : Compiled where
  policy := samplePolicy encryption
  items  := [⟨1, 1, [1], Strings.ascii "recipe"⟩]

def sampleCapture : Format.UUID :=
  .zero

def sampleKeys : Keys where
  digestKey := fun _ => .ok [1]
  encryptionKey := fun _ _ => .ok sampleKey

def sampleRecord : Record where
  seq := 7
  tsUTCNs := 0
  monoNs := 0
  monoPresent := false
  epoch := 1
  kind := kindData
  dir := 1
  fidelity := 0
  decodeStatus := 0
  trailingBytes := 0
  quality := 0
  fieldValidity := 0
  payload :=
    [0, 0, 0, 19, 0, 0, 0x81, 1, 0, 0, 0, 0, 0, 1] ++ [1, 2, 0x41, 2, 0x61, 0x62, 0x21, 1, 5]

def sampleEntry : RedactionEntry where
  seq := 7
  itemPath := some (Strings.ascii "1")
  maskedRanges := [⟨18, 2⟩]
  domain := Strings.ascii "recipe"
  digest := BigEndian.bytes 32 0xef48584307b204a38ef38a7855fca6392aaf70ddba81bcadef8c51c969b8f253

def sampleCleared : Record := { sampleRecord with
  quality := qualityRedacted
  payload := sampleRecord.payload.take 18 ++ [0, 0] ++ [0x21, 1, 5] }

def sampleText : Text where
  b := sampleRecord.payload.drop framePrefixLen
  one := true
  content := true

theorem mask_sample_touches_targets :
    (sampleCompiled none).mask aesSiv (none, none) sampleCapture sampleRecord false sampleKeys =
      .ok (sampleCleared, [sampleEntry]) ∧
    ∃ n, SameItems (sampleCompiled none) sampleRecord.payload sampleCleared.payload [sampleEntry]
      sampleText n := by
  have h : (sampleCompiled none).mask aesSiv (none, none) sampleCapture sampleRecord false
      sampleKeys = .ok (sampleCleared, [sampleEntry]) := by
    decide +kernel
  exact ⟨h, (mask_touches_targets h).2.2.2.2.1 sampleText rfl rfl (by decide) rfl (by decide)⟩

end Sample

end Tracepack.Redact
