import GoSecs.Tracepack.Theorems.FooterSound
import GoSecs.Tracepack.Theorems.Open
import GoSecs.Tracepack.Theorems.ReadBlock

open Run

namespace Tracepack

open Codec (Zstd)
open Format

variable {z : Zstd} {obj : Bytes} {lim : Limits} {o : ReaderOptions} {r : Reader} {p : Pack}
variable {idx : FooterIndex} {hdr : FileHeader} {tr : Trailer} {keepF3 : Bool} {info : BlockInfo}

-- A reader of the pack in `obj`.
structure Reader.Opens (r : Reader) (z : Zstd) (obj : Bytes) : Prop where
  pack   : openPack z obj r.limits false = .ok r.toPack
  pieces : ∀ s ∈ r.held, s.Of obj
  source : r.obj = obj

theorem opens_of_open (h : Reader.open z obj o = .ok r) : r.Opens z obj := by
  have ⟨_, hs, h'⟩ := bind_eq_ok.mp h
  have ⟨_, hn, _⟩ := bind_eq_ok.mp h'
  have ⟨b, hof, ho⟩ := openReader_eq z o false hs hn
  rw [Reader.open, ho] at h
  obtain ⟨p, hp, h⟩ := bind_eq_ok.mp h
  obtain rfl := Except.ok.inj h
  exact ⟨hp, retain_of hof, rfl⟩

-- A pack whose footer is used: its blocks are those of the footer.
structure Pack.Indexed (p : Pack) (obj : Bytes) (idx : FooterIndex) (tr : Trailer) : Prop where
  footer : p.footer = some idx
  trailer : p.trailer = some (.of tr)
  finalized : p.finalized = true
  footerErr : p.footerErr = none
  walkStop : p.walkStop = none
  blocks : p.blocks = indexedBlocks idx
  defects : p.openDefects = []
  sound : idx.Sound tr (blocksStart p.hdr)
  ordered : idx.Ordered
  stop : tr.footerOffset ≤ obj.length
  total : tr.recordCount ≤ maxU64

theorem unmarshalTrailer_spec (b : Bytes) :
    Spec (unmarshalTrailer b) fun tr => tr.recordCount ≤ maxU64 := by
  refine (checkShort_spec ..).bind fun _ hl => ?_
  have hl : 64 ≤ b.length := hl
  refine (checkMagic_spec (by simpa [trailerMagic] using by omega)).bind fun _ _ => ?_
  refine (checkCRC_spec (by omega)).bind fun _ _ => ?_
  simp (disch := omega) only [uint_eq, bind_ok]
  refine .check fun _ => ?_
  refine (checkLimitFields_spec ..).bind fun _ hf => Agree.pure ?_
  simp only [List.forall_mem_cons] at hf
  exact hf.2.2.2.1

theorem parseTrailer_recordCount {b : Bytes}
    (h : parseTrailer obj hdr b = .ok tr) : tr.recordCount ≤ maxU64 := by
  obtain ⟨tr', htr, h⟩ := bind_eq_ok.mp h
  obtain ⟨_, _, h⟩ := bind_eq_ok.mp h
  obtain ⟨_, _, h⟩ := bind_eq_ok.mp h
  obtain rfl := Except.ok.inj h
  exact (unmarshalTrailer_spec b).post _ htr

theorem decodeFooter_sound {onDisk : Bytes}
    (h : decodeFooter z lim hdr keepF3 onDisk tr = .ok idx) :
    idx.Sound tr (blocksStart hdr) ∧ idx.Ordered := by
  obtain ⟨_, _, h⟩ := bind_eq_ok.mp h
  obtain ⟨decoded, _, h⟩ := bind_eq_ok.mp h
  exact (parseFooter_agree ..).post idx h

theorem settleFooter_footer {p p' : Pack} {trailer : Except Err Trailer}
    {onDisk : Option Bytes} (h : settleFooter z obj lim [] keepF3 p trailer onDisk = .ok p')
    (hp : p.footer = none) (hf : p'.footer = some idx) :
    ∃ tr b, trailer = .ok tr ∧ decodeFooter z lim p.hdr keepF3 b tr = .ok idx ∧
      p' = { p with trailer := some (.of tr), finalized := true, footer := some idx } := by
  unfold settleFooter at h
  split at h
  case h_1 =>
    obtain rfl := Except.ok.inj h
    simp [hp] at hf
  case h_2 tr =>
    obtain ⟨got, hgot, h⟩ := bind_eq_ok.mp h
    split at h
    case isTrue =>
      obtain rfl := Except.ok.inj h
      simp [hp] at hf
    case isFalse =>
      split at h
      case h_1 =>
        obtain rfl := Except.ok.inj h
        simp [hp] at hf
      case h_2 =>
        obtain ⟨res, hres, h⟩ := bind_eq_ok.mp h
        cases res
        case error e =>
          obtain rfl := Except.ok.inj h
          simp [hp] at hf
        case ok idx' =>
          obtain rfl := Except.ok.inj h
          obtain rfl := Option.some.inj hf
          exact ⟨tr, _, rfl, attempt_eq_ok.mp hres, rfl⟩

theorem openPack_indexed (h : openPack z obj lim keepF3 = .ok p)
    (hf : p.footer = some idx) : ∃ tr, p.Indexed obj idx tr := by
  obtain ⟨hdr, hhdr, h⟩ := bind_eq_ok.mp h
  obtain ⟨trailer, htrailer, h⟩ := bind_eq_ok.mp h
  obtain ⟨packMeta, _, h⟩ := bind_eq_ok.mp h
  obtain ⟨q, hq, h⟩ := bind_eq_ok.mp h
  unfold Pack.locate at h
  split at h
  case h_2 hn =>
    obtain ⟨w, _, h⟩ := bind_eq_ok.mp h
    obtain rfl := Except.ok.inj h
    simp [hn] at hf
  case h_1 idx' hi =>
    obtain rfl := Except.ok.inj h
    obtain ⟨tr, b, rfl, hd, hq⟩ := settleFooter_footer hq rfl hi
    have ht := attempt_eq_ok.mp htrailer
    have ⟨hsound, hordered⟩ := decodeFooter_sound hd
    have := (parseTrailer_bounds ht).1
    obtain rfl : idx' = idx := by simpa [hi] using hf
    subst hq
    exact ⟨tr, rfl, rfl, rfl, rfl, rfl, rfl, rfl, hsound, hordered, by omega,
      parseTrailer_recordCount ht⟩

def Reader.Fits (r : Reader) (info : BlockInfo) : Prop :=
  info.onDiskLen - envelopeLen ≤ r.limits.maxBlockLen ∧ info.uncompressedLen ≤ r.limits.maxBlockLen

theorem Reader.checkBlockBudget_spec (r : Reader) (info : BlockInfo) :
    Spec (r.checkBlockBudget info) fun _ => r.Fits info := by
  refine .check fun h => ?_
  exact (Agree.failIf ..).mono fun _ h' => ⟨Nat.le_of_not_lt h, Nat.le_of_not_lt h'⟩

theorem Reader.checkBlockBudget_eq_ok (h : r.Fits info) :
    r.checkBlockBudget info = .ok () := by
  simp [Reader.checkBlockBudget, failIf, h.1.not_gt, h.2.not_gt]

theorem Reader.Opens.fetch {off n : Nat} (ho : r.Opens z obj) (h : off + n ≤ obj.length) :
    fetch r.obj r.held off n = .ok ((obj.drop off).take n) := by
  rw [ho.source, fetch_eq ho.pieces, readAt_eq h]

theorem Reader.Opens.readBlock {i : Nat} (ho : r.Opens z obj)
    (hi : r.blocks[i]? = some info) (hl : info.offset + info.onDiskLen ≤ obj.length) :
    Returns (r.readBlock z i) fun res =>
      (r.Fits info ∧ ReadsAs i info (blockAt z obj info) res) ∨
      (¬r.Fits info ∧ ∃ f, res = (none, some f) ∧ f.reason = .limit) := by
  have hidx : index r.blocks i = (.ok info : Run Err BlockInfo) := by rw [index, hi]; rfl
  rw [Reader.readBlock, hidx, bind_ok]
  refine (Returns.attempt (r.checkBlockBudget_spec info)).bind fun b hb => ?_
  cases b
  case error e =>
    refine Returns.pure (.inr ⟨fun hfit => ?_, _, rfl, rfl⟩)
    rw [r.checkBlockBudget_eq_ok hfit] at hb
    cases hb
  case ok =>
    simp only [ho.fetch hl, bind_ok]
    exact (checkAndDecode_returns ..).mono fun _ h => .inl ⟨hb.2, h⟩

theorem Tiles.bounds {start stop : Nat} {bs : List BlockSummary} (h : Tiles start bs stop) :
    start ≤ stop ∧ ∀ b ∈ bs, b.offset + b.onDiskLen ≤ stop := by
  induction bs generalizing start
  case nil => exact ⟨Nat.le_of_eq h, by simp⟩
  case cons b bs hi =>
    have ⟨ho, _, hs⟩ := h
    have ⟨hle, hbs⟩ := hi hs
    exact ⟨by omega, List.forall_mem_cons.mpr ⟨by omega, hbs⟩⟩

end Tracepack
