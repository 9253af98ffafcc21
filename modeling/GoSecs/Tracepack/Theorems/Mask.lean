import GoSecs.Tracepack.Redact
import GoSecs.Tracepack.Theorems.ItemSelect

open Run List

namespace Tracepack.Redact

open Splice (Covered Inside Span)

variable {crypto : Crypto} {payload b out out' key ad iv ct : Bytes} {ss : List Span}
variable {e e' : RedactionEntry} {es : List RedactionEntry} {m : Match} {ms : List Match}
variable {r r' : Record} {capture : Format.UUID} {digestKey encKey : Bytes} {p : Bytes}

theorem slice_span_eq_ok {s : Span} : (slice payload s.offset s.stop : Run Err Bytes) = .ok b ↔
    s.stop ≤ payload.length ∧ b = (payload.drop s.offset).take s.length := by
  rw [slice_eq_ok]
  simp [Span.stop]

theorem gather_eq_ok : gather payload ss = .ok b ↔
    Inside ss payload.length ∧ b = Splice.gather payload ss := by
  induction ss generalizing b
  case nil => simp [gather, Splice.gather, Inside, eq_comm]
  case cons s ss hi =>
    simp only [gather, bind_eq_ok, slice_span_eq_ok, hi, Splice.inside_cons, pure_eq,
      Except.ok.injEq]
    constructor
    · rintro ⟨_, ⟨hs, rfl⟩, _, ⟨hss, rfl⟩, rfl⟩
      exact ⟨⟨hs, hss⟩, rfl⟩
    · rintro ⟨⟨hs, hss⟩, rfl⟩
      exact ⟨_, ⟨hs, rfl⟩, _, ⟨hss, rfl⟩, rfl⟩

theorem scatter_eq_ok (hc : Splice.total ss = ct.length) : scatter payload ss ct = .ok b ↔
    Inside ss payload.length ∧ b = Splice.scatter payload ss ct := by
  induction ss generalizing payload ct
  case nil => simp [scatter, Splice.scatter, Inside, eq_comm]
  case cons s ss hi =>
    have ht := Splice.length_take_eq hc
    simp only [scatter, bind_eq_ok, slice_span_eq_ok, Splice.inside_cons, Splice.scatter]
    have hn : s.stop ≤ payload.length →
        min ((payload.drop s.offset).take s.length).length ct.length = s.length := by
      intro hs
      simp only [Span.stop] at hs
      simp only [length_take, length_drop] at ht ⊢
      omega
    have hl : s.stop ≤ payload.length →
        (Splice.overwrite payload s.offset (ct.take s.length)).length = payload.length :=
      fun hs => Splice.length_overwrite (by rw [ht]; exact hs)
    constructor
    · rintro ⟨_, ⟨hs, rfl⟩, hr⟩
      rw [hn hs, hi (Splice.total_drop_eq hc), hl hs] at hr
      exact ⟨⟨hs, hr.1⟩, hr.2⟩
    · rintro ⟨⟨hs, hss⟩, rfl⟩
      refine ⟨_, ⟨hs, rfl⟩, ?_⟩
      rw [hn hs, hi (Splice.total_drop_eq hc), hl hs]
      exact ⟨hss, rfl⟩

-- To clear is to scatter zeros.
theorem clear_eq_scatter :
    clear payload ss = scatter payload ss (List.replicate (Splice.total ss) 0) := by
  induction ss generalizing payload
  case nil => rfl
  case cons s ss hi =>
    rw [clear, scatter]
    cases hr : (slice payload s.offset s.stop : Run Err Bytes)
    case error => rfl
    case ok room =>
      have ⟨hs, hr⟩ := slice_span_eq_ok.mp hr
      have hl : room.length = s.length := by
        simp only [Span.stop] at hs
        simp only [hr, length_take, length_drop]
        omega
      simp [hi, hl]

theorem clear_eq_ok : clear payload ss = .ok b ↔ Inside ss payload.length ∧
    b = Splice.scatter payload ss (List.replicate (Splice.total ss) 0) := by
  rw [clear_eq_scatter, scatter_eq_ok (length_replicate ..).symm]

theorem sealText_eq_ok (h : Siv.sealText crypto key ad p = .ok (iv, ct)) :
    key.length = keySize ∧ iv.length = sivSize ∧ ct.length = p.length ∧
      crypto.encrypt key p ad = some (iv ++ ct) := by
  unfold Siv.sealText at h
  split at h
  case isTrue => simp at h
  case isFalse hk =>
    cases he : crypto.encrypt key p ad
    case none => simp [he] at h
    case some c =>
      have hl := crypto.length_encrypt key p ad c he
      simp only [he] at h
      rw [slice_eq (by omega) le_rfl, bind_ok, pure_eq, Except.ok.injEq, Prod.mk.injEq] at h
      obtain ⟨rfl, rfl⟩ := h
      refine ⟨not_not.mp hk, ?_, ?_, ?_⟩
      · simp [hl]
      · simp [hl]
      · congr 1
        rw [take_of_length_le (l := c.drop sivSize) (by simp), take_append_drop]

theorem openText_seal (h : Siv.sealText crypto key ad p = .ok (iv, ct)) :
    Siv.openText crypto key ad iv ct = some p := by
  have ⟨hk, hiv, _, he⟩ := sealText_eq_ok h
  rw [Siv.openText, if_neg (by simp [hk, hiv]), crypto.decrypt_encrypt _ _ _ _ he]

theorem entryOf_eq_ok (h : entryOf crypto r digestKey m = .ok e) :
    e.seq = r.seq ∧ e.itemPath = m.path ∧ e.maskedRanges = m.ranges ∧ e.rawMaskedRanges = [] ∧
      e.siv = [] ∧ e.hasSIV = false := by
  obtain ⟨_, _, h⟩ := bind_eq_ok.mp h
  obtain rfl := Except.ok.inj h
  exact ⟨rfl, rfl, rfl, rfl, rfl, rfl⟩

structure EntryFor (r : Record) (m : Match) (e : RedactionEntry) : Prop where
  seq    : e.seq = r.seq
  path   : e.itemPath = m.path
  ranges : e.maskedRanges = m.ranges
  raw    : e.rawMaskedRanges = []

structure Frame (ms : List Match) (out out' : Bytes) : Prop where
  length  : out'.length = out.length
  outside : ∀ i, (∀ m ∈ ms, ¬Covered m.ranges i) → out'[i]? = out[i]?

-- An entry that opens to what the record held.
structure Opens (crypto : Crypto) (capture : Format.UUID) (r : Record) (key masked : Bytes)
    (e : RedactionEntry) : Prop where
  inside : Inside e.maskedRanges r.payload.length
  hasSIV : e.hasSIV = true
  siv    : e.siv.length = sivSize
  opens  : ∃ first rest, e.maskedRanges = first :: rest ∧
    Siv.openText crypto key (Siv.associatedData capture r.seq first.offset) e.siv
      (Splice.gather masked e.maskedRanges) = some (Splice.gather r.payload e.maskedRanges)

section ApplyMatch

variable (he : entryOf crypto r digestKey m = .ok e)
variable (ha : applyMatch crypto capture r encKey out m e = .ok (out', e'))
include he ha

theorem applyMatch_encrypt (hm : m.encrypt = true) : EntryFor r m e' ∧
    Inside m.ranges r.payload.length ∧ Inside m.ranges out.length ∧
    ∃ ct, Splice.total m.ranges = ct.length ∧ out' = Splice.scatter out m.ranges ct ∧
    e'.hasSIV = true ∧ e'.siv.length = sivSize ∧ ∃ first rest, m.ranges = first :: rest ∧
      Siv.openText crypto encKey (Siv.associatedData capture r.seq first.offset) e'.siv ct =
        some (Splice.gather r.payload m.ranges) := by
  have ⟨hseq, hpath, hranges, hraw, _, _⟩ := entryOf_eq_ok he
  rw [applyMatch, if_pos hm] at ha
  obtain ⟨first, hfirst, ha⟩ := bind_eq_ok.mp ha
  obtain ⟨p, hp, ha⟩ := bind_eq_ok.mp ha
  obtain ⟨⟨iv, ct⟩, hseal, ha⟩ := bind_eq_ok.mp ha
  obtain ⟨o, hs, ha⟩ := bind_eq_ok.mp ha
  obtain ⟨rfl, rfl⟩ := Prod.mk.inj (Except.ok.inj ha)
  have ⟨hin, hp⟩ := gather_eq_ok.mp hp
  have hseal := mapErr_eq_ok.mp hseal
  have ⟨_, hiv, hct, _⟩ := sealText_eq_ok hseal
  have htotal : Splice.total m.ranges = ct.length := by
    rw [hct, hp, Splice.length_gather hin]
  have ⟨hout, ho⟩ := (scatter_eq_ok htotal).mp hs
  have ⟨rest, hrest⟩ : ∃ rest, m.ranges = first :: rest := by
    cases hr : m.ranges
    case nil =>
      rw [hr] at hfirst
      cases hfirst
    case cons s rest =>
      rw [hr] at hfirst
      have hsf : s = first := Except.ok.inj hfirst
      exact ⟨rest, by rw [hsf]⟩
  refine ⟨⟨hseq, hpath, hranges, hraw⟩, hin, hout, ct, htotal, ho, rfl, hiv, first, rest, hrest, ?_⟩
  rw [← hp]
  exact openText_seal hseal

theorem applyMatch_frame : EntryFor r m e' ∧ Inside m.ranges out.length ∧ Frame [m] out out' := by
  -- Both ways of masking write over the ranges.
  have frame : ∀ {c : Bytes}, Splice.total m.ranges = c.length → Inside m.ranges out.length →
      out' = Splice.scatter out m.ranges c → Frame [m] out out' := fun hc hin ho =>
    { length  := by rw [ho, Splice.length_scatter hin hc]
      outside := fun i hi => by rw [ho, Splice.scatter_outside hin hc (hi m mem_cons_self)] }
  by_cases hm : m.encrypt = true
  · have ⟨hfor, _, hin, _, hc, ho, _⟩ := applyMatch_encrypt he ha hm
    exact ⟨hfor, hin, frame hc hin ho⟩
  · have ⟨hseq, hpath, hranges, hraw, _, _⟩ := entryOf_eq_ok he
    rw [applyMatch, if_neg hm] at ha
    obtain ⟨o, hs, ha⟩ := bind_eq_ok.mp ha
    obtain ⟨rfl, rfl⟩ := Prod.mk.inj (Except.ok.inj ha)
    have ⟨hin, ho⟩ := clear_eq_ok.mp hs
    exact ⟨⟨hseq, hpath, hranges, hraw⟩, hin, frame (by simp) hin ho⟩

end ApplyMatch

theorem applyMatches_cons
    (ha : applyMatches crypto capture r digestKey encKey out (m :: ms) = .ok (out', es)) :
    ∃ e e' o es', entryOf crypto r digestKey m = .ok e ∧
      applyMatch crypto capture r encKey out m e = .ok (o, e') ∧
      applyMatches crypto capture r digestKey encKey o ms = .ok (out', es') ∧ es = e' :: es' := by
  obtain ⟨e, he, ha⟩ := bind_eq_ok.mp ha
  obtain ⟨⟨o, e'⟩, hm, ha⟩ := bind_eq_ok.mp ha
  obtain ⟨⟨o', es'⟩, hms, ha⟩ := bind_eq_ok.mp ha
  obtain ⟨rfl, rfl⟩ := Prod.mk.inj (Except.ok.inj ha)
  exact ⟨e, e', o, es', he, hm, hms, rfl⟩

theorem applyMatches_frame
    (ha : applyMatches crypto capture r digestKey encKey out ms = .ok (out', es)) :
    List.Forall₂ (EntryFor r) ms es ∧ (∀ m ∈ ms, Inside m.ranges out.length) ∧
      Frame ms out out' := by
  induction ms generalizing out es
  case nil =>
    obtain ⟨rfl, rfl⟩ := Prod.mk.inj (Except.ok.inj ha)
    exact ⟨.nil, by simp, rfl, fun _ _ => rfl⟩
  case cons m ms hi =>
    obtain ⟨e, e', o, es', he, hm, hms, rfl⟩ := applyMatches_cons ha
    have ⟨hfor, hin, hf⟩ := applyMatch_frame he hm
    have ⟨hfors, hins, hfs⟩ := hi hms
    rw [hf.length] at hins
    refine ⟨.cons hfor hfors, forall_mem_cons.mpr ⟨hin, hins⟩, hfs.length.trans hf.length, ?_⟩
    intro i hni
    have ⟨h₁, h₂⟩ := forall_mem_cons.mp hni
    rw [hfs.outside i h₂, hf.outside i (by simpa using h₁)]

def Match.Apart (m m' : Match) : Prop :=
  ∀ s ∈ m.ranges, ∀ t ∈ m'.ranges, s.Disjoint t

theorem Match.Apart.not_covered {m' : Match} {i : Nat} (h : m.Apart m') (hi : Covered m.ranges i) :
    ¬Covered m'.ranges i := by
  rintro ⟨t, ht, h₁, h₂⟩
  have ⟨s, hs, h₃, h₄⟩ := hi
  have := h s hs t ht
  simp only [Span.Disjoint] at this
  omega

-- No later match writes over what an earlier one has encrypted.
theorem applyMatches_opens (hm : ∀ m ∈ ms, m.encrypt = true) (hms : ms.Pairwise Match.Apart)
    (hd : ∀ m ∈ ms, m.ranges.Pairwise Span.Disjoint)
    (ha : applyMatches crypto capture r digestKey encKey out ms = .ok (out', es)) :
    ∀ e ∈ es, Opens crypto capture r encKey out' e := by
  induction ms generalizing out es
  case nil =>
    obtain ⟨rfl, rfl⟩ := Prod.mk.inj (Except.ok.inj ha)
    simp
  case cons m ms hi =>
    obtain ⟨e, e', o, es', he, ham, hams, rfl⟩ := applyMatches_cons ha
    have ⟨hme, hmse⟩ := forall_mem_cons.mp hm
    have ⟨hap, haps⟩ := pairwise_cons.mp hms
    have ⟨hdm, hdms⟩ := forall_mem_cons.mp hd
    have hlater := (applyMatches_frame hams).2.2.outside
    have ⟨hfor, hin, hout, ct, hct, ho, hsiv, hlen, first, rest, hfirst, hopen⟩ :=
      applyMatch_encrypt he ham hme
    have hg : Splice.gather out' m.ranges = ct := by
      rw [← Splice.gather_scatter hout hct hdm, ← ho]
      exact Splice.gather_congr fun i hc => hlater i fun m' hm' => (hap m' hm').not_covered hc
    refine forall_mem_cons.mpr ⟨⟨?_, hsiv, hlen, first, rest, ?_, ?_⟩, hi hmse haps hdms hams⟩
    · rw [hfor.ranges]; exact hin
    · rw [hfor.ranges]; exact hfirst
    · rw [hfor.ranges, hg]; exact hopen

end Tracepack.Redact
