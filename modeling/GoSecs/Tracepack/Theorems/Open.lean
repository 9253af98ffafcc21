import GoSecs.Tracepack.Blocks
import GoSecs.Tracepack.Pack
import GoSecs.Tracepack.Theorems.Format

open Run List

namespace Tracepack

open Codec (Zstd)
open Format

variable {z : Zstd} {obj b : Bytes} {lim : Limits} {held : List Held} {off n lo hi : Nat}
variable {hdr : FileHeader} {tr : Trailer} {w : Windows} {trailer : Except Err Trailer}
  {onDisk : Option Bytes} {p : Pack}

theorem readAt_eq (h : off + n ≤ obj.length) : readAt obj off n = .ok ((obj.drop off).take n) :=
  if_pos h

def Held.Of (obj : Bytes) (s : Held) : Prop :=
  s.off + s.data.length ≤ obj.length ∧ s.data = (obj.drop s.off).take s.data.length

theorem Held.Of.range {s : Held} (h : s.Of obj) (hr : s.range off n = some b) :
    off + n ≤ obj.length ∧ b = (obj.drop off).take n := by
  unfold Held.range at hr
  split at hr
  case isFalse => simp at hr
  case isTrue hc =>
    have ⟨hle, hdata⟩ := h
    refine ⟨by omega, ?_⟩
    rw [← Option.some.inj hr, hdata, drop_take, take_take, drop_drop]
    congr 1
    · omega
    · congr 1
      omega

theorem heldRange_of (h : ∀ s ∈ held, s.Of obj) (hr : heldRange held off n = some b) :
    off + n ≤ obj.length ∧ b = (obj.drop off).take n := by
  have ⟨s, hs, hb⟩ := exists_of_findSome?_eq_some hr
  exact (h s hs).range hb

theorem fetch_eq (h : ∀ s ∈ held, s.Of obj) : fetch obj held off n = readAt obj off n := by
  unfold fetch
  split
  case h_1 b hr =>
    have ⟨hle, hb⟩ := heldRange_of h hr
    rw [readAt_eq hle, hb]
    rfl
  case h_2 => rfl

-- The first round reads the object's head and its end.
structure Bootstrap.Of (obj : Bytes) (b : Bootstrap) : Prop where
  head : b.head = obj.take b.head.length
  headLen : fileHeaderLen ≤ b.head.length ∧ b.head.length ≤ obj.length
  suffix : b.suffix = obj.drop b.suffixStart
  suffixLen : b.suffixStart + trailerLen ≤ obj.length

theorem Bootstrap.Of.pieces {b : Bootstrap} (h : b.Of obj) : ∀ s ∈ b.held, s.Of obj := by
  have hhead : Held.Of obj ⟨0, b.head⟩ := ⟨by simpa using h.headLen.2, by simpa using h.head⟩
  have hsuffix : Held.Of obj ⟨b.suffixStart, b.suffix⟩ := by
    have := h.suffixLen
    constructor
    · simp only [h.suffix, length_drop]
      omega
    · simp [h.suffix]
  unfold Bootstrap.held
  split
  case isTrue  => simpa using hhead
  case isFalse => simpa using ⟨hhead, hsuffix⟩

theorem windows_bounds (o : ReaderOptions) :
    fileHeaderLen ≤ o.windows.headWindow ∧ trailerLen ≤ o.windows.tailWindow :=
  ⟨le_max_right .., le_max_right ..⟩

theorem readFirst_of (hl : fileHeaderLen ≤ obj.length) (hh : fileHeaderLen ≤ w.headWindow)
    (ht : trailerLen ≤ w.tailWindow) : ∃ b, readFirst obj lim w = .ok b ∧ b.Of obj := by
  unfold readFirst
  have hlen : fileHeaderLen = 80 ∧ trailerLen = 64 := ⟨rfl, rfl⟩
  split
  case isTrue =>
    rw [readAt_eq (by omega), bind_ok]
    exact ⟨_, rfl, by simp, by simpa using hl, by simp, by simp only; omega⟩
  case isFalse hc =>
    rw [not_or, not_le, not_le] at hc
    generalize hs : (if hintUsable obj lim w = true then w.footerOffset
      else obj.length - w.tailWindow) = start
    have hstart : start + trailerLen ≤ obj.length := by
      rw [← hs]
      split
      case isTrue hint =>
        simp only [hintUsable, decide_eq_true_eq] at hint
        omega
      case isFalse => omega
    simp only
    rw [hs, readAt_eq (by omega), readAt_eq (by omega), bind_ok, bind_ok]
    refine ⟨_, rfl, by simp, ?_, ?_, hstart⟩
    · simp only [drop_zero, length_take]
      omega
    · simp

theorem checkShort_ok {layout : String} (h : n ≤ b.length) : checkShort layout b n = .ok () := by
  rw [checkShort, failIf, if_neg (by omega)]
  rfl

theorem unmarshalFileHeader_take (hn : fileHeaderLen ≤ n) (hl : fileHeaderLen ≤ b.length) :
    unmarshalFileHeader (b.take n) = unmarshalFileHeader b := by
  have hn' : 80 ≤ n := hn
  have hlen : fileHeaderLen ≤ (b.take n).length := by simp only [length_take]; omega
  unfold unmarshalFileHeader
  rw [checkShort_ok hlen, checkShort_ok hl]
  simp (disch := first | omega | (simp only [fileHeaderMagic, List.length]; omega)) only
    [checkMagic, checkCRC, uint, int64, slice_take]

theorem parseFileHeader_eq {b : Bootstrap} (h : b.Of obj) :
    parseFileHeader obj lim b.head = parseFileHeader obj lim obj := by
  have hl := h.headLen
  rw [parseFileHeader, parseFileHeader, h.head, unmarshalFileHeader_take hl.1 (by omega)]

theorem parseFileHeader_bounds (h : parseFileHeader obj lim b = .ok hdr) :
    blocksStart hdr ≤ obj.length := by
  obtain ⟨hdr', _, h⟩ := bind_eq_ok.mp h
  obtain ⟨_, hl, h⟩ := bind_eq_ok.mp h
  obtain ⟨_, _, h⟩ := bind_eq_ok.mp h
  obtain rfl := Except.ok.inj h
  exact not_lt.mp (failIf_eq_ok.mp hl)

theorem parseTrailer_bounds (h : parseTrailer obj hdr b = .ok tr) :
    tr.footerOffset + tr.footerLen = obj.length - trailerLen ∧ blocksStart hdr ≤ tr.footerOffset := by
  obtain ⟨tr', _, h⟩ := bind_eq_ok.mp h
  obtain ⟨_, hs, h⟩ := bind_eq_ok.mp h
  obtain ⟨_, hb, h⟩ := bind_eq_ok.mp h
  obtain rfl := Except.ok.inj h
  exact ⟨not_not.mp (failIf_eq_ok.mp hs), not_lt.mp (failIf_eq_ok.mp hb)⟩

theorem readMeta_eq {b : Bootstrap} (h : b.Of obj) (hb : blocksStart hdr ≤ obj.length) :
    readMeta obj hdr b = .ok ((obj.drop fileHeaderLen).take hdr.packMetadataLen) := by
  have hl := h.headLen
  have hstop : blocksStart hdr = fileHeaderLen + hdr.packMetadataLen := rfl
  unfold readMeta
  by_cases hc : blocksStart hdr ≤ b.head.length
  · rw [if_pos hc, slice_eq (by omega) hc, h.head, drop_take, take_take]
    congr 2
    omega
  · rw [if_neg hc, slice_eq hl.1 le_rfl, bind_ok]
    have hfront : ((b.head.drop fileHeaderLen).take (b.head.length - fileHeaderLen)).length =
        b.head.length - fileHeaderLen := by
      simp
    rw [hfront, readAt_eq (by omega), bind_ok, take_of_length_le (by simp)]
    have hsplit : hdr.packMetadataLen = (b.head.length - fileHeaderLen) +
        (hdr.packMetadataLen - (b.head.length - fileHeaderLen)) := by
      omega
    have hhead : b.head.drop fileHeaderLen =
        (obj.drop fileHeaderLen).take (b.head.length - fileHeaderLen) := by
      rw [← drop_take, ← h.head]
    conv_rhs => rw [hsplit, take_add, drop_drop]
    rw [hhead, Nat.add_sub_cancel' hl.1]
    rfl

theorem suffix_trailer {b : Bootstrap} (h : b.Of obj) :
    (slice b.suffix (b.suffix.length - trailerLen) b.suffix.length : Run Err Bytes) =
      .ok (obj.drop (obj.length - trailerLen)) := by
  have hs := h.suffixLen
  rw [slice_eq (by omega) le_rfl, h.suffix, drop_drop, length_drop,
    take_of_length_le (by simp; omega)]
  congr 2
  omega

theorem readFooter_eq {b : Bootstrap} (h : b.Of obj)
    (ht : ∀ tr, trailer = .ok tr → tr.footerOffset + tr.footerLen = obj.length - trailerLen) :
    readFooter obj lim b trailer = .ok (footerBytes obj lim trailer) := by
  have hs := h.suffixLen
  cases trailer
  case error e => rfl
  case ok tr =>
    have ht := ht tr rfl
    simp only [readFooter, footerBytes]
    split
    case isFalse => rfl
    case isTrue hlim =>
      have hin : (b.suffix.drop 0).take (b.suffix.length - trailerLen - 0) =
          (obj.drop b.suffixStart).take (obj.length - trailerLen - b.suffixStart) := by
        rw [h.suffix, drop_zero, length_drop]
        congr 1
        omega
      rw [slice_eq (by omega) (by omega), bind_ok, hin]
      split
      case isTrue hf =>
        rw [slice_eq (by simp; omega) le_rfl, bind_ok, take_of_length_le (by simp),
          drop_take, drop_drop]
        simp only [pure_eq]
        congr 3
        · omega
        · congr 1
          omega
      case isFalse hf =>
        rw [readAt_eq (by omega), bind_ok, take_take]
        have hsplit : tr.footerLen = (b.suffixStart - tr.footerOffset) +
            (tr.footerLen - (b.suffixStart - tr.footerOffset)) := by
          omega
        conv_rhs => rw [hsplit, take_add, drop_drop]
        simp only [pure_eq]
        congr 4
        · omega
        · congr 1
          omega

theorem streamFooterCRC_eq {fuel stop : Nat} {acc : UInt32} (hs : stop ≤ obj.length)
    (hf : stop - off < fuel) : streamFooterCRC obj fuel acc off stop =
      .ok (Crc32.update acc ((obj.drop off).take (stop - off))) := by
  induction fuel generalizing acc off
  case zero => omega
  case succ fuel hi =>
    unfold streamFooterCRC
    split
    case isFalse hlt =>
      rw [Nat.sub_eq_zero_of_le (by omega), take_zero, Crc32.update_nil]
      rfl
    case isTrue hlt =>
      have hpos : 0 < footerCRCChunk := by decide
      have hle : min (stop - off) footerCRCChunk ≤ stop - off := min_le_left ..
      have hlen : ((obj.drop off).take (min (stop - off) footerCRCChunk)).length =
          min (stop - off) footerCRCChunk := by
        simp only [length_take, length_drop]
        omega
      rw [readAt_eq (by omega), bind_ok, hlen, hi (by omega), ← Crc32.update_append]
      have hsplit : stop - off = min (stop - off) footerCRCChunk +
          (stop - (off + min (stop - off) footerCRCChunk)) := by
        omega
      conv_rhs => rw [hsplit, take_add, drop_drop]

theorem footerCRC_eq (hh : ∀ s ∈ held, s.Of obj)
    (ht : tr.footerOffset + tr.footerLen ≤ obj.length) :
    footerCRC obj held tr onDisk = footerCRC obj [] tr onDisk := by
  cases onDisk
  case some b => rfl
  case none =>
    have hstream : streamFooterCRC obj (tr.footerLen + 1) 0 tr.footerOffset
        (tr.footerOffset + tr.footerLen) =
        .ok (Crc32.update 0 ((obj.drop tr.footerOffset).take tr.footerLen)) := by
      rw [streamFooterCRC_eq ht (by omega), Nat.add_sub_cancel_left]
    have hnil : footerCRC obj [] tr none = .ok (crc ((obj.drop tr.footerOffset).take tr.footerLen)) := by
      simp [footerCRC, heldRange, hstream, crc, Crc32.checksum_eq_update]
    cases hr : heldRange held tr.footerOffset tr.footerLen
    case none =>
      rw [hnil]
      simp [footerCRC, hr, hstream, crc, Crc32.checksum_eq_update]
    case some b =>
      rw [hnil, ← (heldRange_of hh hr).2]
      simp [footerCRC, hr]

theorem settleFooter_eq {keepF3 : Bool} (hh : ∀ s ∈ held, s.Of obj)
    (ht : ∀ tr, trailer = .ok tr → tr.footerOffset + tr.footerLen = obj.length - trailerLen) :
    settleFooter z obj lim held keepF3 p trailer onDisk =
      settleFooter z obj lim [] keepF3 p trailer onDisk := by
  cases trailer
  case error e => rfl
  case ok tr =>
    have := ht tr rfl
    simp only [settleFooter]
    rw [footerCRC_eq hh (by omega)]

theorem walkFrom_eq {cut : Sentinel} {stop fuel : Nat} {wk : Walk} (hh : ∀ s ∈ held, s.Of obj) :
    walkFrom obj lim held cut stop fuel wk = walkFrom obj lim [] cut stop fuel wk := by
  induction fuel generalizing wk
  case zero => rfl
  case succ fuel hi =>
    have hnil : ∀ s ∈ ([] : List Held), s.Of obj := by simp
    simp only [walkFrom, fetch_eq hh, fetch_eq hnil, hi]

theorem walk_eq (hh : ∀ s ∈ held, s.Of obj) : p.walk obj lim held = p.walk obj lim [] := by
  rw [Pack.walk, Pack.walk, walkFrom_eq hh]

theorem retain_of {b : Bootstrap} (h : b.Of obj) : ∀ s ∈ p.retain obj b, s.Of obj := by
  intro s hs
  have hp := h.pieces
  unfold Bootstrap.held at hp
  unfold Pack.retain at hs
  rcases mem_append.mp hs with hs | hs
  · have hs := (mem_filter.mp hs).1
    refine hp s ?_
    split
    case isTrue  => exact hs
    case isFalse => exact mem_cons.mpr (.inl (mem_singleton.mp hs))
  · split at hs
    case isFalse => simp at hs
    case isTrue hw =>
      have hs := (mem_filter.mp hs).1
      rw [if_neg hw.1] at hp
      exact hp s (mem_cons_of_mem _ hs)

-- The windows decide what is held, and nothing else.
theorem openReader_eq (z : Zstd) (o : ReaderOptions) (keepF3 : Bool) (hs : checkSize obj = .ok ())
    (hn : ReaderOptions.checkNegative o.budgets = .ok ()) :
    ∃ b : Bootstrap, b.Of obj ∧ openReader z obj o keepF3 = (do
      let p ← openPack z obj o.limits keepF3
      return { toPack := p, obj, limits := o.limits, held := p.retain obj b }) := by
  have hl : fileHeaderLen ≤ obj.length := not_lt.mp (failIf_eq_ok.mp hs)
  have ⟨hh, ht⟩ := windows_bounds o
  have ⟨b, hb, hof⟩ : ∃ b, readFirst obj o.limits o.windows = .ok b ∧ b.Of obj :=
    readFirst_of hl hh ht
  refine ⟨b, hof, ?_⟩
  unfold openReader openPack
  rw [hs, hn]
  simp only [bind_ok, hb, parseFileHeader_eq hof, suffix_trailer hof, bind_assoc]
  refine bind_congr rfl fun hdr hhdr => ?_
  refine bind_congr rfl fun trailer htrailer => ?_
  have htr : ∀ tr, trailer = .ok tr → tr.footerOffset + tr.footerLen = obj.length - trailerLen := by
    rintro tr rfl
    exact (parseTrailer_bounds (attempt_eq_ok.mp htrailer)).1
  rw [readMeta_eq hof (parseFileHeader_bounds hhdr), bind_ok, readFooter_eq hof htr, bind_ok]
  refine bind_congr rfl fun packMeta _ => ?_
  rw [settleFooter_eq hof.pieces htr]
  refine bind_congr rfl fun p _ => ?_
  rw [Pack.locate]
  cases hp : p.footer
  case some idx => rfl
  case none => simp only [walk_eq hof.pieces]

-- Two readers of one pack, which give the bytes of the object.
structure SameReader (z : Zstd) (obj : Bytes) (r r' : Reader) : Prop where
  pack  : r.toPack = r'.toPack
  bytes : ∀ off n, fetch r.obj r.held off n = readAt obj off n ∧
    fetch r'.obj r'.held off n = readAt obj off n
  read  : ∀ i, r.readBlock z i = r'.readBlock z i

theorem sameReader {b b' : Bootstrap} (p : Pack) (hb : b.Of obj) (hb' : b'.Of obj) : SameReader z obj
    { toPack := p, obj, limits := lim, held := p.retain obj b }
    { toPack := p, obj, limits := lim, held := p.retain obj b' } where
  pack  := rfl
  bytes := fun off n => ⟨fetch_eq (retain_of hb), fetch_eq (retain_of hb')⟩
  read  := fun i => by
    simp only [Reader.readBlock, Reader.checkBlockBudget, fetch_eq (retain_of hb),
      fetch_eq (retain_of hb')]

-- Opening a pack and reading its blocks does not depend on the windows.
theorem open_windows_irrelevant {o o' : ReaderOptions}
    (hw : 0 < o.wholeReadThreshold ∧ 0 < o.headWindow ∧ 0 < o.tailWindow)
    (hw' : 0 < o'.wholeReadThreshold ∧ 0 < o'.headWindow ∧ 0 < o'.tailWindow)
    (hm : o.maxPackMetadataLen = o'.maxPackMetadataLen) (hf : o.maxFooterLen = o'.maxFooterLen)
    (hb : o.maxBlockLen = o'.maxBlockLen) (hk : o.maxWalkedBlocks = o'.maxWalkedBlocks) :
    (∃ e, Reader.open z obj o = .error e ∧ Reader.open z obj o' = .error e) ∨
    ∃ r r', Reader.open z obj o = .ok r ∧ Reader.open z obj o' = .ok r' ∧ SameReader z obj r r' := by
  have hneg : ReaderOptions.checkNegative o.budgets = ReaderOptions.checkNegative o'.budgets := by
    simp [ReaderOptions.checkNegative, ReaderOptions.budgets, hm, hf, hb, hk, failIf, hw.1.not_gt,
      hw.2.1.not_gt, hw.2.2.not_gt, hw'.1.not_gt, hw'.2.1.not_gt, hw'.2.2.not_gt]
  have hlim : o.limits = o'.limits := by
    simp [ReaderOptions.limits, hm, hf, hb, hk]
  cases hs : checkSize obj
  case error e => exact .inl ⟨e, by rw [Reader.open, openReader, hs]; rfl,
    by rw [Reader.open, openReader, hs]; rfl⟩
  case ok =>
    cases hn : ReaderOptions.checkNegative o.budgets
    case error e => exact .inl ⟨e, by rw [Reader.open, openReader, hs, hn]; rfl,
      by rw [Reader.open, openReader, hs, ← hneg, hn]; rfl⟩
    case ok =>
      have ⟨b, hof, ho⟩ := openReader_eq z o false hs hn
      have ⟨b', hof', ho'⟩ := openReader_eq z o' false hs (hneg ▸ hn)
      rw [← hlim] at ho'
      cases hp : openPack z obj o.limits false
      case error e => exact .inl ⟨e, by rw [Reader.open, ho, hp]; rfl,
        by rw [Reader.open, ho', hp]; rfl⟩
      case ok p => exact .inr ⟨_, _, by rw [Reader.open, ho, hp]; rfl,
        by rw [Reader.open, ho', hp]; rfl, sameReader p hof hof'⟩

section Sample

open Tlv

def sampleID : UUID :=
  ⟨List.replicate 16 1, rfl⟩

def sampleMetadata : Bytes :=
  [utf8Entry 0x0002 [0x65], u8Entry 0x0003 0, u8Entry 0x0004 0, u8Entry 0x0005 0,
   utf8Entry 0x0006 [0x72], utf8Entry 0x0007 [0x77], u8Entry 0x0009 0, i64Entry 0x0010 0,
   i64Entry 0x0011 3600000000000, u8Entry 0x0012 0, boolEntry 0x0013 false, u8Entry 0x0018 1,
   u8Entry 0x0019 0, uuidEntry 0x001B sampleID, u64Entry 0x0027 0, u64Entry 0x002D 0].flatMap
    appendEntry

def sampleHeader : FileHeader where
  formatMajor := 1
  formatMinor := 2
  flags := 0
  packMetadataLen := sampleMetadata.length
  packMetadataCRC := crc sampleMetadata
  writerStartUTCNs := 0
  packID := sampleID
  captureID := sampleID

def samplePack : Bytes :=
  appendFileHeader sampleHeader ++ sampleMetadata

-- A zstd frame of one raw block, and the decoder for such frames.
def rawFrame (b : Bytes) : Bytes :=
  [0x28, 0xB5, 0x2F, 0xFD, 0x20, .ofNat b.length] ++ LittleEndian.bytes 3 (b.length * 8 + 1) ++ b

def rawZstd : Zstd :=
  fun src => .ok (src.drop 9, none)

def sampleRow (seq : Nat) : Row where
  header := {
    seq, tsUTCNs := 5, monoNs := 0, epoch := 0, payloadLen := 0, trailingBytes := 0, quality := 0
    kind := 1, dir := 1, fidelity := 1, decodeStatus := 0, fieldValidity := 0, recordFlags := 0 }
  event  := none

def sampleBody (seq : Nat) : Bytes :=
  rawFrame (appendRecordHeader (sampleRow seq).header)

def sampleBlock (seq : Nat) : Bytes :=
  appendBlockEnvelope {
    codec := 1, recordHeaderLen := 44, bodyLen := 53, uncompressedLen := 44, recordCount := 1
    bodyCRC := crc (sampleBody seq), firstSeq := seq } ++ sampleBody seq

def sampleFooter (start : Nat) : Bytes :=
  let block (seq : Nat) : BlockData :=
    { rows := [sampleRow seq], onDiskLen := 93, bodyCRC := crc (sampleBody seq) }
  let summaries := BlockData.place start [block 0, block 7]
  match buildFooter summaries maxLen32 0 with
  | .ok (footer, stats) => footer ++ appendTrailer
      (finalizeTrailer summaries stats (start + 186) footer.length footer.length (crc footer) 0)
  | .error _ => []

def damagedPack : Bytes :=
  samplePack ++ (List.replicate 4 0 ++ (sampleBlock 0).drop 4) ++ sampleBlock 7 ++
    sampleFooter samplePack.length

-- Windows that split the metadata and the footer, and ones with the offset of another footer.
def splitWindows : ReaderOptions where
  wholeReadThreshold := 1
  headWindow := 100
  tailWindow := 100

def staleWindows : ReaderOptions where
  wholeReadThreshold := 1
  headWindow := 1
  tailWindow := 1
  footerOffset := 300

set_option maxRecDepth 100000 in
theorem open_damagedPack_windows : ∃ r r', Reader.open rawZstd damagedPack splitWindows = .ok r ∧
    Reader.open rawZstd damagedPack staleWindows = .ok r' ∧ r.footer.isSome = true ∧
    SameReader rawZstd damagedPack r r' := by
  have hok : (match Reader.open rawZstd damagedPack splitWindows with
      | .error _ => false
      | .ok r    => r.footer.isSome) = true := by
    decide +kernel
  rcases @open_windows_irrelevant rawZstd damagedPack splitWindows staleWindows
    ⟨by decide, by decide, by decide⟩ ⟨by decide, by decide, by decide⟩ rfl rfl rfl rfl
    with ⟨e, ho, _⟩ | ⟨r, r', ho, ho', hs⟩
  case inl => simp [ho] at hok
  case inr => exact ⟨r, r', ho, ho', by simpa [ho] using hok, hs⟩

end Sample

end Tracepack
