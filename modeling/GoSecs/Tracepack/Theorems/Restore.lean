import GoSecs.Tracepack.Theorems.Marking
import GoSecs.Tracepack.Theorems.MaskItems

open Run List

namespace Tracepack.Redact

open Splice (Covered Inside Span)
open SecsItem (Node overlaps)

variable {p : Policy} {c c' : Compiled} {rule rule' : CompiledRule} {rules : List CompiledRule}
variable {x y : Bytes × Node} {m m' : Match} {ms : List Match} {n : Node} {payload : Bytes}
variable {crypto : Crypto} {capture : Format.UUID} {r r' : Record} {key out : Bytes}
variable {es : List RedactionEntry} {e : RedactionEntry} {i k : Nat}

-- Rules for one kind of message whose patterns do not overlap.
def CompiledRule.Separate (a b : CompiledRule) : Prop :=
  a.stream = b.stream → a.function = b.function → overlaps b.pattern a.pattern = false

theorem compileItems_separate {rs : List ItemRule} (he : p.encryption.isSome = true)
    (h : compileItems p i rs c = .ok c') (hc : c.items.Pairwise CompiledRule.Separate) :
    c'.policy = c.policy ∧ c'.items.Pairwise CompiledRule.Separate := by
  induction rs generalizing i c
  case nil =>
    obtain rfl := Except.ok.inj h
    exact ⟨rfl, hc⟩
  case cons r rs hi =>
    obtain ⟨_, _, h⟩ := bind_eq_ok.mp h
    obtain ⟨_, _, h⟩ := bind_eq_ok.mp h
    obtain ⟨pattern, _, h⟩ := bind_eq_ok.mp h
    dsimp only at h
    split at h
    case h_1 => simp at h
    case h_2 hnone =>
      have ⟨hp, hs⟩ := hi h (pairwise_append.mpr ⟨hc, pairwise_singleton .., ?_⟩)
      · exact ⟨hp, hs⟩
      · intro a ha b hb hstream hfunction
        obtain rfl := mem_singleton.mp hb
        have hmem : a ∈ c.rulesOf r.stream r.function :=
          mem_filter.mpr ⟨ha, by simp [hstream, hfunction]⟩
        simpa [he] using find?_eq_none.mp hnone a hmem

theorem compile_separate (h : compile p = .ok c) (he : p.encryption.isSome = true) :
    c.policy = p ∧ c.items.Pairwise CompiledRule.Separate := by
  obtain ⟨_, _, h⟩ := bind_eq_ok.mp h
  obtain ⟨c', hc, h⟩ := bind_eq_ok.mp h
  obtain ⟨_, _, h⟩ := bind_eq_ok.mp h
  obtain rfl := Except.ok.inj h
  exact compileItems_separate he hc .nil

theorem rulesOf_separate {stream function : UInt8} (h : c.items.Pairwise CompiledRule.Separate) :
    (c.rulesOf stream function).Pairwise fun a b => overlaps b.pattern a.pattern = false := by
  refine (h.filter _).imp_of_mem fun {a b} ha hb hs => ?_
  have ha := (mem_filter.mp ha).2
  have hb := (mem_filter.mp hb).2
  simp only [decide_eq_true_eq] at ha hb
  exact hs (ha.1.trans hb.1.symm) (ha.2.trans hb.2.symm)

theorem Match.Apart.symm (h : m.Apart m') : m'.Apart m :=
  fun s hs t ht => (h t ht s hs).symm

theorem nodeMatch_apart (hx : x.2.Ok) (hy : y.2.Ok) (ha : SecsItem.Apart x y)
    (hm : m ∈ nodeMatch c rule x) (hm' : m' ∈ nodeMatch c rule' y) : m.Apart m' := by
  obtain ⟨_, rfl⟩ := mem_nodeMatch.mp hm
  obtain ⟨_, rfl⟩ := mem_nodeMatch.mp hm'
  intro _ hs _ ht
  obtain ⟨s, hs', rfl⟩ := mem_map.mp hs
  obtain ⟨t, ht', rfl⟩ := mem_map.mp ht
  have hws := hx.contents_within s hs'
  have hwt := hy.contents_within t ht'
  rw [Span.Disjoint, shift_stop hws.2.1, shift_stop hwt.2.1]
  simp only [SecsItem.Apart, shift] at ha ⊢
  omega

theorem treeMatches_apart (hn : n.Ok)
    (hr : rules.Pairwise fun a b => overlaps b.pattern a.pattern = false)
    (hm : treeMatches c n rules = some ms) : ms.Pairwise Match.Apart := by
  induction rules generalizing ms
  case nil =>
    obtain rfl := Option.some.inj hm
    exact .nil
  case cons rule rules hi =>
    obtain ⟨hr, hrs⟩ := pairwise_cons.mp hr
    simp only [treeMatches, Option.bind_eq_bind, Option.bind_eq_some_iff, Option.pure_def,
      Option.some.injEq] at hm
    obtain ⟨out, ho, rest, hrest, rfl⟩ := hm
    have hok : ∀ x ∈ out, x.2.Ok := fun x hx => (SecsItem.select_within hn ho hx).1
    refine pairwise_append.mpr ⟨pairwise_flatMap.mpr ⟨?_, ?_⟩, hi hrs hrest, ?_⟩
    · intro x _
      unfold nodeMatch
      split
      case isTrue  => exact .nil
      case isFalse => exact pairwise_singleton ..
    · exact (SecsItem.select_pairwise hn ho).imp_of_mem fun hx hy ha m hm m' hm' =>
        nodeMatch_apart (hok _ hx) (hok _ hy) ha hm hm'
    · intro m hm m' hm'
      obtain ⟨x, hx, hm⟩ := mem_flatMap.mp hm
      obtain ⟨rule', hrule', out', ho', y, hy, hm'⟩ := (mem_treeMatches hrest).mp hm'
      have hyok := (SecsItem.select_within hn ho' hy).1
      have ha := SecsItem.select_apart hn (hr rule' hrule') ho' ho hy hx
      exact (nodeMatch_apart hyok (hok x hx) ha hm' hm).symm

theorem DataMatches.apart (hc : c.items.Pairwise CompiledRule.Separate)
    (h : DataMatches c payload ms) : ms.Pairwise Match.Apart := by
  cases h
  case none  => exact .nil
  case whole => exact pairwise_singleton ..
  case items n ms₀ _ hn hms =>
    have ha := treeMatches_apart (SecsItem.tree_ok hn.1).1 (rulesOf_separate hc) hms
    exact ((perm_insertionSort _ ms₀).pairwise_iff fun h => h.symm).mpr ha

theorem DataMatches.sorted (h : DataMatches c payload ms) :
    ms.Pairwise fun a b => a.firstOffset ≤ b.firstOffset := by
  cases h
  case none  => exact .nil
  case whole => exact pairwise_singleton ..
  case items n ms₀ _ _ _ => exact pairwise_insertionSort ..

theorem DataMatches.encrypt (h : DataMatches c payload ms) :
    ∀ m ∈ ms, m.encrypt = c.policy.encryption.isSome := by
  cases h
  case none  => simp
  case whole => simp [wholeText]
  case items n ms₀ _ _ hms =>
    intro m hm
    have hm := (perm_insertionSort _ _).mem_iff.mp hm
    have ⟨rule, _, out, _, x, _, hm⟩ := (mem_treeMatches hms).mp hm
    obtain ⟨_, rfl⟩ := mem_nodeMatch.mp hm
    rfl

section Marking

open Marking (Piece maxInt64)

variable {ss : List Span}

theorem checkRangesFrom_none {prev : Option Span}
    (hpos : ∀ s ∈ ss, 0 < s.length) (hin : ∀ s ∈ ss, s.stop ≤ maxInt64)
    (hsep : ss.Pairwise fun s t => s.stop < t.offset)
    (hprev : ∀ s ∈ prev, ∀ t ∈ ss, s.stop < t.offset) :
    Marking.checkRangesFrom i prev ss = none := by
  induction ss generalizing i prev
  case nil => rfl
  case cons s ss hi =>
    have ⟨hs, hss⟩ := pairwise_cons.mp hsep
    have ⟨hps, hpss⟩ := forall_mem_cons.mp hpos
    have ⟨his, hiss⟩ := forall_mem_cons.mp hin
    simp only [Span.stop] at his
    have hp : ¬(prev.any fun p : Span => s.offset ≤ p.stop) := by
      cases prev
      case none   => simp
      case some q => simpa using hprev q rfl s mem_cons_self
    rw [Marking.checkRangesFrom, if_neg (by omega), if_neg (by omega), if_neg hp]
    exact hi hpss hiss hss fun q hq => by
      obtain rfl := Option.some.inj hq
      exact hs

theorem checkEntry_nil (hfor : EntryFor r m e) (hm : m.Ok payload)
    (hl : payload.length ≤ maxInt64) (hsiv : e.siv.length = sivSize) :
    Marking.checkEntry (markingEntry e) = [] := by
  have hr : (markingEntry e).ranges = m.ranges := by
    rw [markingEntry, if_pos hfor.raw, hfor.ranges]
  have hmal : (markingEntry e).malformed = false := by
    simp [markingEntry, hfor.raw]
  have hcheck : Marking.checkRanges (markingEntry e) = none := by
    rw [Marking.checkRanges, if_neg (by simp [hmal]), if_neg (by rw [hr]; exact hm.nonempty), hr]
    exact checkRangesFrom_none hm.positive (fun s hs => (hm.inside s hs).trans hl) hm.separated
      (by simp)
  rw [Marking.checkEntry, hcheck, if_neg (by simp [markingEntry, hsiv, sivSize, Marking.sivLen])]
  rfl

theorem checkOrder_none {e' : RedactionEntry} (hfor : EntryFor r m e) (hfor' : EntryFor r m' e')
    (ho : m.firstOffset ≤ m'.firstOffset) :
    Marking.checkOrder (markingEntry e) (markingEntry e') = none := by
  have hr : (markingEntry e).ranges = m.ranges := by
    rw [markingEntry, if_pos hfor.raw, hfor.ranges]
  have hr' : (markingEntry e').ranges = m'.ranges := by
    rw [markingEntry, if_pos hfor'.raw, hfor'.ranges]
  have hseq : (markingEntry e).seq = r.seq := hfor.seq
  have hseq' : (markingEntry e').seq = r.seq := hfor'.seq
  simp only [Match.firstOffset] at ho
  simp only [Marking.checkOrder, hr, hr', hseq, hseq', lt_irrefl, true_and, false_or]
  cases h : m.ranges
  case nil => simp
  case cons s ss =>
    cases h' : m'.ranges
    case nil => simp
    case cons s' ss' =>
      simp only [h, h', head?_cons, Option.map_some, Option.getD_some] at ho
      simp [not_lt.mpr ho]

theorem encryptedOverlap_none {mes : List Marking.Entry}
    (hpos : ∀ e ∈ mes, ∀ s ∈ e.ranges, 0 < s.length ∧ s.stop ≤ maxInt64)
    (hap : mes.Pairwise fun a b => ∀ s ∈ a.ranges, ∀ t ∈ b.ranges, s.Disjoint t) :
    Marking.encryptedOverlap mes = none := by
  have hpos : ∀ e ∈ mes, e.Positive := by
    intro e he s hs
    have := hpos e he s hs
    simp only [Span.stop, maxInt64] at this
    omega
  refine (Marking.encryptedOverlap_eq_none hpos).mpr fun p hp q hq hne => ?_
  obtain ⟨i, a, ha, _, r, hr, rfl⟩ := (Marking.mem_piecesOf hpos).mp hp
  obtain ⟨j, b, hb, _, s, hs, rfl⟩ := (Marking.mem_piecesOf hpos).mp hq
  obtain ⟨hi, ha⟩ := List.getElem?_eq_some_iff.mp ha
  obtain ⟨hj, hb⟩ := List.getElem?_eq_some_iff.mp hb
  have hap := pairwise_iff_getElem.mp hap
  have hd : r.Disjoint s := by
    rcases Nat.lt_or_gt_of_ne hne with hlt | hlt
    · exact hap i j hi hj hlt r (ha ▸ hr) s (hb ▸ hs)
    · exact (hap j i hj hi hlt s (hb ▸ hs) r (ha ▸ hr)).symm
  exact hd.imp (Nat.min_le_left ..).trans (Nat.min_le_left ..).trans

theorem checkBoundsFrom_none {rec : Marking.Record} {values : Option (List (Nat × Nat))}
    (hk : rec.kind ≠ Marking.Kind.annotation)
    (hin : ∀ s ∈ ss, s.stop ≤ rec.payload.length ∧ framePrefixLen ≤ s.offset) :
    Marking.checkBoundsFrom rec values i ss = none := by
  induction ss generalizing i
  case nil => rfl
  case cons s ss hi =>
    have ⟨⟨hs, hb⟩, hss⟩ := forall_mem_cons.mp hin
    simp only [Span.stop] at hs
    rw [Marking.checkBoundsFrom, if_neg (by omega), if_pos hk,
      if_neg (by simp only [framePrefixLen, Marking.framePrefixLen] at *; omega)]
    exact hi hss

end Marking

theorem redacted_bit (q : UInt16) : (q ||| qualityRedacted) &&& qualityRedacted ≠ 0 := by
  intro h
  have := congrArg (fun x : UInt16 => x.toBitVec.getLsbD 5) h
  simp [qualityRedacted] at this

theorem exists_match (h : List.Forall₂ (EntryFor r) ms es) (he : e ∈ es) :
    ∃ m ∈ ms, EntryFor r m e := by
  induction h
  case nil => simp at he
  case cons m e' _ _ hfor _ hi =>
    rcases mem_cons.mp he with rfl | he
    · exact ⟨m, mem_cons_self, hfor⟩
    · have ⟨m', hm', hfor'⟩ := hi he
      exact ⟨m', mem_cons_of_mem _ hm', hfor'⟩

theorem pairwise_entries {R : Match → Match → Prop} {S : RedactionEntry → RedactionEntry → Prop}
    (h : List.Forall₂ (EntryFor r) ms es) (hR : ms.Pairwise R)
    (hS : ∀ {m m' e e'}, EntryFor r m e → EntryFor r m' e' → R m m' → S e e') : es.Pairwise S := by
  induction h
  case nil => exact .nil
  case cons m e ms es hfor hrest hi =>
    have ⟨hm, hms⟩ := pairwise_cons.mp hR
    refine .cons (fun e' he' => ?_) (hi hms)
    have ⟨m', hm', hfor'⟩ := exists_match hrest he'
    exact hS hfor hfor' (hm m' hm')

theorem markingEntry_ranges (hfor : EntryFor r m e) : (markingEntry e).ranges = m.ranges := by
  rw [markingEntry, if_pos hfor.raw, hfor.ranges]

section Marked

variable (hes : List.Forall₂ (EntryFor r) ms es) (hms : ∀ m ∈ ms, m.Ok r.payload)
include hes hms

variable {rec : Marking.Record} (hk : rec.kind = .data) (hseq : rec.seq = r.seq)
variable (hlen : rec.payload.length = r.payload.length) (hsiv : ∀ e ∈ es, e.hasSIV = true)
include hk hseq hlen hsiv

theorem checkRecordEntry_nil (he : e ∈ es) :
    Marking.checkRecordEntry rec (some []) true i (markingEntry e) = [] := by
  have ⟨m, hm, hfor⟩ := exists_match hes he
  have hseq' : (markingEntry e).seq = r.seq := hfor.seq
  have hhas : (markingEntry e).hasSIV = true := by simp [markingEntry, hsiv e he]
  have hb : Marking.checkBounds rec (markingEntry e) (some []) = none := by
    rw [Marking.checkBounds, markingEntry_ranges hfor]
    refine checkBoundsFrom_none (by simp [hk]) fun s hs => ⟨?_, (hms m hm).behind s hs⟩
    rw [hlen]
    exact (hms m hm).inside s hs
  simp [Marking.checkRecordEntry, hk, hb, hhas, hseq, hseq']

theorem checkRecord_nil (hl : r.payload.length ≤ Marking.maxInt64) (hap : ms.Pairwise Match.Apart)
    (hne : es ≠ []) (hr : rec.redacted = true) :
    Marking.checkRecord rec (es.map markingEntry) true = [] := by
  have heach : (es.map markingEntry).zipIdx.flatMap
      (fun p => Marking.checkRecordEntry rec (some []) true p.2 p.1) = [] := by
    refine flatMap_eq_nil_iff.mpr ?_
    rintro ⟨me, i⟩ ha
    obtain ⟨e, he, rfl⟩ := mem_map.mp (fst_mem_of_mem_zipIdx ha)
    exact checkRecordEntry_nil hes hms hk hseq hlen hsiv he
  have hover : Marking.encryptedOverlap (es.map markingEntry) = none := by
    refine encryptedOverlap_none ?_ <| pairwise_map.mpr <| pairwise_entries hes hap ?_
    · intro _ hmem s hs
      obtain ⟨e, he, rfl⟩ := mem_map.mp hmem
      obtain ⟨m, hm, hfor⟩ := exists_match hes he
      rw [markingEntry_ranges hfor] at hs
      exact ⟨(hms m hm).positive s hs, ((hms m hm).inside s hs).trans hl⟩
    · intro _ _ _ _ hfor hfor' h
      rw [markingEntry_ranges hfor, markingEntry_ranges hfor']
      exact h
  simpa [Marking.checkRecord, hk, hr, hover, hne] using heach

end Marked

theorem markingFaults_nil (hentry : ∀ e ∈ es, Marking.checkEntry (markingEntry e) = [])
    (horder : (es.map markingEntry).Pairwise fun a b => Marking.checkOrder a b = none)
    (hrec : Marking.checkRecord (markingRecord r) (es.map markingEntry) true = []) :
    markingFaults r es = [] := by
  simp only [markingFaults, hrec, map_nil, append_nil]
  refine flatMap_eq_nil_iff.mpr fun ⟨me, i⟩ ha => ?_
  obtain ⟨e, he, rfl⟩ := mem_map.mp (fst_mem_of_mem_zipIdx ha)
  simp only [hentry e he, map_nil, nil_append]
  split
  case isTrue => rfl
  case isFalse hi =>
    have ⟨_, hlt, hget⟩ := mem_zipIdx ha
    simp only [Nat.zero_add, Nat.sub_zero] at hlt hget
    have hprev := pairwise_iff_getElem.mp horder (i - 1) i (by omega) hlt (by omega)
    rw [← hget] at hprev
    rw [getElem?_eq_getElem (by omega), Option.bind_some, hprev]
    rfl

-- Each entry writes back what the record held, so that no position gets worse.
theorem restoreEntries_eq (hes : ∀ e ∈ es, Opens crypto capture r key r'.payload e)
    (hseq : r'.seq = r.seq) (hp : r'.payload.length = r.payload.length)
    (hout : out.length = r.payload.length) :
    ∃ out', restoreEntries crypto capture r' key k out es = .ok out' ∧
      out'.length = r.payload.length ∧
      ∀ i, out[i]? = r.payload[i]? ∨ maskedBytes es i → out'[i]? = r.payload[i]? := by
  induction es generalizing k out
  case nil => exact ⟨out, rfl, hout, fun i hi => hi.resolve_right (by simp [maskedBytes])⟩
  case cons e es hi =>
    obtain ⟨he, hes⟩ := forall_mem_cons.mp hes
    obtain ⟨first, rest, hfirst, hopen⟩ := he.opens
    have hin : Inside e.maskedRanges r'.payload.length := by rw [hp]; exact he.inside
    have hind : (index e.maskedRanges 0 : Run Err _) = .ok first := by simp [index, hfirst]
    have htotal : Splice.total e.maskedRanges = (Splice.gather r.payload e.maskedRanges).length :=
      (Splice.length_gather he.inside).symm
    have hino : Inside e.maskedRanges out.length := by rw [hout]; exact he.inside
    have hs := (scatter_eq_ok htotal).mpr ⟨hino, rfl⟩
    have hlen := (Splice.length_scatter hino htotal).trans hout
    obtain ⟨out', hr, hl', hb⟩ := @hi _ (k + 1) hes hlen
    refine ⟨out', ?_, hl', fun i hor => hb i ?_⟩
    · rw [restoreEntries, hind, bind_ok, gather_eq_ok.mpr ⟨hin, rfl⟩, bind_ok, hseq]
      simp only [hopen, hs, bind_ok, hr]
    · by_cases hc : Covered e.maskedRanges i
      · exact .inl (Splice.scatter_gather he.inside hout hc)
      · rw [Splice.scatter_outside hino htotal hc]
        refine hor.imp_right fun hm => ?_
        simp only [maskedBytes, Splice.covered_flatMap, mem_cons, exists_eq_or_imp] at hm ⊢
        exact hm.resolve_left hc

theorem restoreEntries_ne_ok {e : RedactionEntry} {first : MaskedRange} {rest : List MaskedRange}
    {ct b : Bytes} (he : e ∈ es) (hf : e.maskedRanges = first :: rest)
    (hg : gather r.payload e.maskedRanges = .ok ct)
    (ho : Siv.openText crypto key (Siv.associatedData capture r.seq first.offset) e.siv ct = none) :
    restoreEntries crypto capture r key k out es ≠ .ok b := by
  induction es generalizing k out
  case nil => simp at he
  case cons e' es hi =>
    intro h
    obtain ⟨first', hfirst', h⟩ := bind_eq_ok.mp h
    obtain ⟨ct', hg', h⟩ := bind_eq_ok.mp h
    rcases mem_cons.mp he with rfl | he
    · obtain rfl : ct = ct' := Except.ok.inj (hg.symm.trans hg')
      have hind : (index e.maskedRanges 0 : Run Err _) = .ok first := by simp [index, hf]
      obtain rfl : first = first' := Except.ok.inj (hind.symm.trans hfirst')
      simp [ho] at h
    · split at h
      case h_1 => simp at h
      case h_2 =>
        obtain ⟨out', _, h⟩ := bind_eq_ok.mp h
        exact hi he h

def OpenFails (crypto : Crypto) (capture : Format.UUID) (r : Record) (key : Bytes)
    (e : RedactionEntry) : Prop :=
  ∃ first rest ct, e.maskedRanges = first :: rest ∧ gather r.payload e.maskedRanges = .ok ct ∧
    Siv.openText crypto key (Siv.associatedData capture r.seq first.offset) e.siv ct = none

theorem restore_ne_ok {rr : RecordRedaction} {policy : Option RedactionPolicy} {b : Bytes}
    (he : e ∈ rr.entries) (hf : OpenFails crypto capture r key e) :
    restore crypto capture (some r) (some rr) policy key ≠ .ok b := by
  have ⟨first, rest, ct, hr, hg, ho⟩ := hf
  intro h
  obtain ⟨_, hc, h⟩ := bind_eq_ok.mp h
  obtain ⟨_, _, hc⟩ := bind_eq_ok.mp hc
  obtain ⟨_, _, hc⟩ := bind_eq_ok.mp hc
  obtain ⟨_, _, hc⟩ := bind_eq_ok.mp hc
  obtain rfl := Except.ok.inj hc
  cases policy
  case none => simp at h
  case some p =>
    dsimp only at h
    split at h
    case h_2 => simp at h
    case h_1 =>
      obtain ⟨_, _, h⟩ := bind_eq_ok.mp h
      obtain ⟨_, _, h⟩ := bind_eq_ok.mp h
      obtain ⟨_, _, h⟩ := bind_eq_ok.mp h
      obtain ⟨_, _, h⟩ := bind_eq_ok.mp h
      exact restoreEntries_ne_ok he hr hg ho h

theorem restore_eq {keyID : Bytes} (hp : c.policy.encryption = some keyID)
    (hkey : key.length = keySize) (hk : r.kind = kindData) (hne : es ≠ [])
    (hm : markingFaults r es = []) :
    restore crypto capture (some r) (some { entries := es }) (some c.packPolicy) key =
      restoreEntries crypto capture r key 0 r.payload es := by
  simp [restore, checkRestorable, failIf, Compiled.packPolicy, hp, hkey, checkMarking, hm, hk, hne]

variable {ctx : Option Err × Option Err} {unobserved : Bool} {keys : Keys} {keyID : Bytes}

-- The length of a slice is an `int`.
theorem restore_mask (hc : compile p = .ok c) (hp : p.encryption = some keyID)
    (hk : r.kind = kindData) (hl : r.payload.length ≤ Marking.maxInt64)
    (hkey : keys.encryptionKey capture keyID = .ok key)
    (hm : c.mask crypto ctx capture r unobserved keys = .ok (r', es)) (hne : es ≠ []) :
    (∀ e ∈ es, Marking.checkEntry (markingEntry e) = []) ∧
    (es.map markingEntry).Pairwise (fun a b => Marking.checkOrder a b = none) ∧
    Marking.checkRecord (markingRecord r') (es.map markingEntry) true = [] ∧
    restore crypto capture (some r') (some { entries := es }) (some c.packPolicy) key =
      .ok r.payload ∧
    ∀ (r : Record) (rr : RecordRedaction) (policy : Option RedactionPolicy) (key b : Bytes),
      (∃ e ∈ rr.entries, OpenFails crypto capture r key e) →
      restore crypto capture (some r) (some rr) policy key ≠ .ok b := by
  have ⟨hpol, hsep⟩ := compile_separate hc (by simp [hp])
  cases mask_cases hm
  case unobserved     => simp at hne
  case unmatched      => simp at hne
  case applied ms _ encKey masked hq hms hmne hk' ha =>
    have hd := matchesOf_data hk hms
    have henc : ∀ m ∈ ms, m.encrypt = true := fun m hm => by simp [hd.encrypt m hm, hpol, hp]
    have hany : ms.any (·.encrypt) = true := by
      have ⟨m, hm⟩ := List.exists_mem_of_ne_nil ms hmne
      exact List.any_eq_true.mpr ⟨m, hm, henc m hm⟩
    have ⟨hsize, hkey'⟩ := hk' hany
    rw [hpol, hp, Option.getD_some, hkey] at hkey'
    obtain rfl := Except.ok.inj hkey'
    have hok := hd.ok
    have hap := hd.apart hsep
    have ⟨hes, _, hf⟩ := applyMatches_frame ha
    have hopens := applyMatches_opens henc hap
      (fun m hm => (hok m hm).separated.imp fun h => .inl (Nat.le_of_lt h)) ha
    have hentry : ∀ e ∈ es, Marking.checkEntry (markingEntry e) = [] := fun e he => by
      have ⟨m, hm, hfor⟩ := exists_match hes he
      exact checkEntry_nil hfor (hok m hm) hl (hopens e he).siv
    have horder : (es.map markingEntry).Pairwise fun a b => Marking.checkOrder a b = none :=
      List.pairwise_map.mpr <| pairwise_entries hes hd.sorted checkOrder_none
    generalize hr' : ({ r with
      payload := masked, quality := r.quality ||| qualityRedacted } : Record) = r'
    have hk' : r'.kind = kindData := by rw [← hr']; exact hk
    have hseq : r'.seq = r.seq := by rw [← hr']
    have hlen : r'.payload.length = r.payload.length := by rw [← hr']; exact hf.length
    have hkind : (markingRecord r').kind = .data := by simp [markingRecord, hk']
    have hred : (markingRecord r').redacted = true := by simp [markingRecord, ← hr', redacted_bit]
    have hrec := checkRecord_nil hes hok hkind hseq hlen (fun e he => (hopens e he).hasSIV) hl
      hap hne hred
    refine ⟨hentry, horder, hrec, ?_, fun r rr policy key b ⟨e, he, hfail⟩ => restore_ne_ok he hfail⟩
    rw [restore_eq (hpol ▸ hp) hsize hk' hne (markingFaults_nil hentry horder hrec)]
    have hmasked : masked = r'.payload := by rw [← hr']
    rw [hmasked] at hopens hf
    have ⟨out', hr, _, hb⟩ := restoreEntries_eq (k := 0) hopens hseq hlen hlen
    rw [hr]
    congr 1
    apply List.ext_getElem?
    intro i
    refine hb i ?_
    by_cases hc : maskedBytes es i
    · exact .inr hc
    · rw [maskedBytes_iff hes] at hc
      exact .inl (hf.outside i fun m hm hcov => hc ⟨m, hm, hcov⟩)

def sampleSealed : Record := { sampleRecord with
  quality := qualityRedacted
  payload := sampleRecord.payload.take 18 ++ [0xc2, 0x93] ++ [0x21, 1, 5] }

def sampleSealedEntry : RedactionEntry :=
  { sampleEntry with siv := BigEndian.bytes 16 0xb232ef3e24b72fa315dccd87bc3ffd1c, hasSIV := true }

theorem restore_mask_sample :
    (sampleCompiled (some [])).mask aesSiv (none, none) sampleCapture sampleRecord false sampleKeys =
      .ok (sampleSealed, [sampleSealedEntry]) ∧
    restore aesSiv sampleCapture (some sampleSealed) (some { entries := [sampleSealedEntry] })
      (some (sampleCompiled (some [])).packPolicy) sampleKey = .ok sampleRecord.payload := by
  have hc : compile (samplePolicy (some [])) = .ok (sampleCompiled (some [])) := rfl
  have h : (sampleCompiled (some [])).mask aesSiv (none, none) sampleCapture sampleRecord false
      sampleKeys = .ok (sampleSealed, [sampleSealedEntry]) := by
    decide +kernel
  exact ⟨h, (restore_mask hc rfl rfl (by decide) rfl h (by simp)).2.2.2.1⟩

end Tracepack.Redact
