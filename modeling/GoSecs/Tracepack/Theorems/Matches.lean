import GoSecs.Tracepack.Theorems.Mask
import Mathlib.Data.List.GetD

open Run List

namespace Tracepack.Redact

open Splice (Covered Inside Span)
open SecsItem (Node Range Text tree selectionOf)

variable {c : Compiled} {rule : CompiledRule} {rules : List CompiledRule} {t : Text} {n : Node}
variable {x : Bytes × Node} {room : Nat} {payload text : Bytes} {m : Match} {ms : List Match}
  {i : Nat}

def shift (r : Range) : MaskedRange :=
  ⟨framePrefixLen + r.start, r.stop - r.start⟩

def nodeMatch (c : Compiled) (rule : CompiledRule) (x : Bytes × Node) : List Match :=
  if x.2.contents = [] then
    []
  else
    [{ path := some x.1
       ranges := x.2.contents.map shift
       domain := rule.domain
       digest := ⟨framePrefixLen + x.2.start, framePrefixLen + x.2.stop⟩
       encrypt := c.policy.encryption.isSome }]

-- The matches of the rules in a tree, none when a path does not resolve.
def treeMatches (c : Compiled) (n : Node) : List CompiledRule → Option (List Match)
  | [] => some []
  | rule :: rules => do
    let out ← n.select rule.pattern []
    let rest ← treeMatches c n rules
    return out.flatMap (nodeMatch c rule) ++ rest

def OneItem (text : Bytes) (n : Node) : Prop :=
  tree text SecsItem.maxDepth 0 = some n ∧ n.stop = text.length

theorem matchOf_eq (ht : tree t.b room x.2.start = some x.2) :
    matchOf c t rule (selectionOf x) = .ok (nodeMatch c rule x) := by
  have hstop := (SecsItem.tree_ok ht).2.2
  have hc : (t.contentOf (selectionOf x).item : Run Err _) = .ok x.2.contents := by
    rw [Text.contentOf, selectionOf, Node.range,
      SecsItem.appendContent_of_tree ht (by omega) (by simp), nil_append]
  rw [matchOf, hc, bind_ok, nodeMatch]
  split
  case isTrue  => rfl
  case isFalse => rfl

theorem itemMatches_eq (ho : t.one = true) (ht : tree t.b room 0 = some n) :
    itemMatches c t rules = .ok (treeMatches c n rules) := by
  induction rules
  case nil => rfl
  case cons rule rules hi =>
    rw [itemMatches, Text.select, if_pos ho, SecsItem.selectAt_of_tree ht, bind_ok, treeMatches]
    cases hs : n.select rule.pattern []
    case none => rfl
    case some out =>
      have hm : (out.map selectionOf).mapM (matchOf c t rule) = .ok (out.map (nodeMatch c rule)) := by
        rw [mapM_map]
        refine mapM_ok fun x hx => ?_
        have ⟨_, hx⟩ := SecsItem.select_tree ht hs hx
        exact matchOf_eq hx
      simp only [Option.map_some, hm, hi, bind_ok, pure_eq, Option.bind_eq_bind, Option.bind_some,
        flatMap_def]
      cases treeMatches c n rules
      case none => rfl
      case some => rfl

theorem mem_treeMatches (hm : treeMatches c n rules = some ms) : m ∈ ms ↔
    ∃ rule ∈ rules, ∃ out, n.select rule.pattern [] = some out ∧ ∃ x ∈ out, m ∈ nodeMatch c rule x := by
  induction rules generalizing ms
  case nil =>
    obtain rfl := Option.some.inj hm
    simp
  case cons rule rules hi =>
    simp only [treeMatches, Option.bind_eq_bind, Option.bind_eq_some_iff, Option.pure_def,
      Option.some.injEq] at hm
    obtain ⟨out, ho, rest, hr, rfl⟩ := hm
    simp [hi hr, ho]

theorem OneItem.ne_nil (h : OneItem text n) : text ≠ [] := by
  rintro rfl
  have ⟨hok, _, hs⟩ := SecsItem.tree_ok h.1
  have := hok.start_lt
  simp at hs
  omega

theorem screen_of_oneItem (h : OneItem text n) : SecsItem.screen text =
    .ok { b := text, one := true, content := decide (n.contents ≠ []) } := by
  rw [SecsItem.screen, if_neg h.ne_nil, SecsItem.validate_of_tree h.1]
  simp [h.2]

theorem oneItem_of_screen (h : SecsItem.screen text = .ok t) (ho : t.one = true) :
    ∃ n, OneItem text n := by
  unfold SecsItem.screen at h
  split at h
  case isTrue =>
    obtain rfl := Except.ok.inj h
    simp at ho
  case isFalse =>
    split at h
    case h_1 stop content hv =>
      obtain rfl := Except.ok.inj h
      have ⟨n, hn⟩ := SecsItem.tree_of_validate hv
      rw [SecsItem.validate_of_tree hn, Except.ok.injEq, Prod.mk.injEq] at hv
      exact ⟨n, hn, hv.1.trans (of_decide_eq_true ho)⟩
    case h_2 => simp at h
    case h_3 =>
      obtain rfl := Except.ok.inj h
      simp at ho
    case h_4 => cases h
    case h_5 => cases h

def rulesFor (c : Compiled) (payload : Bytes) : List CompiledRule :=
  c.rulesOf (payload.getD 6 0 &&& 0x7F) (payload.getD 7 0)

-- The matches of a data record: none, the whole text, or those of the selected items.
inductive DataMatches (c : Compiled) (payload : Bytes) : List Match → Prop
  | none (h : payload.length ≤ framePrefixLen ∨ rulesFor c payload = [] ∨
      ∃ n, OneItem (payload.drop framePrefixLen) n ∧ n.contents = []) : DataMatches c payload []
  | whole (hl : framePrefixLen < payload.length)
      (hn : ∀ n, OneItem (payload.drop framePrefixLen) n →
        treeMatches c n (rulesFor c payload) = .none) : DataMatches c payload (wholeText c payload)
  | items {n : Node} {ms : List Match} (hl : framePrefixLen < payload.length)
      (hn : OneItem (payload.drop framePrefixLen) n)
      (hm : treeMatches c n (rulesFor c payload) = some ms) :
      DataMatches c payload (ms.insertionSort fun a b => a.firstOffset ≤ b.firstOffset)

theorem dataMatches_cases (h : dataMatches c payload = .ok ms) : DataMatches c payload ms := by
  unfold dataMatches at h
  by_cases hl : payload.length ≤ framePrefixLen
  · rw [if_pos hl] at h
    obtain rfl := Except.ok.inj h
    exact .none (.inl hl)
  · rw [if_neg hl] at h
    simp only [framePrefixLen, not_le] at hl
    rw [index_eq (by omega), index_eq (by omega), bind_ok, bind_ok,
      slice_eq (by simp only [framePrefixLen]; omega) le_rfl] at h
    have hr : c.rulesOf (payload[6] &&& 0x7F) payload[7] = rulesFor c payload := by
      rw [rulesFor, getD_eq_getElem _ _ (by omega), getD_eq_getElem _ _ (by omega)]
    rw [hr] at h
    by_cases hrules : rulesFor c payload = []
    · rw [if_pos hrules] at h
      obtain rfl := Except.ok.inj h
      exact .none (.inr (.inl hrules))
    · rw [if_neg hrules, bind_ok, take_of_length_le (by simp)] at h
      obtain ⟨t, ht, h⟩ := bind_eq_ok.mp h
      have ht := mapErr_eq_ok.mp ht
      by_cases ho : t.one = true
      · have ⟨n, hn⟩ := oneItem_of_screen ht ho
        obtain rfl := Except.ok.inj (ht.symm.trans (screen_of_oneItem hn))
        by_cases hc : n.contents = []
        · rw [if_pos (by simp [hc])] at h
          obtain rfl := Except.ok.inj h
          exact .none (.inr (.inr ⟨n, hn, hc⟩))
        · rw [if_neg (by simp [hc]), if_neg (by simp), itemMatches_eq rfl hn.1, bind_ok] at h
          cases hm : treeMatches c n (rulesFor c payload)
          case none =>
            simp only [hm] at h
            obtain rfl := Except.ok.inj h
            refine .whole hl fun n' hn' => ?_
            rwa [Option.some.inj (hn'.1.symm.trans hn.1)]
          case some ms₀ =>
            simp only [hm] at h
            obtain rfl := Except.ok.inj h
            exact .items hl hn hm
      · rw [if_neg (by simp [ho]), if_pos ho] at h
        obtain rfl := Except.ok.inj h
        refine .whole hl fun n hn => ?_
        obtain rfl := Except.ok.inj (ht.symm.trans (screen_of_oneItem hn))
        simp at ho

-- The ranges of a match lie behind the first bytes of the frame, in order and apart.
structure Match.Ok (payload : Bytes) (m : Match) : Prop where
  nonempty  : m.ranges ≠ []
  positive  : ∀ s ∈ m.ranges, 0 < s.length
  inside    : Inside m.ranges payload.length
  behind    : ∀ s ∈ m.ranges, framePrefixLen ≤ s.offset
  separated : m.ranges.Pairwise fun s t => s.stop < t.offset

theorem mem_nodeMatch : m ∈ nodeMatch c rule x ↔ x.2.contents ≠ [] ∧ m = {
    path := some x.1
    ranges := x.2.contents.map shift
    domain := rule.domain
    digest := ⟨framePrefixLen + x.2.start, framePrefixLen + x.2.stop⟩
    encrypt := c.policy.encryption.isSome } := by
  unfold nodeMatch
  split
  case isTrue h  => simp [h]
  case isFalse h => simp [h]

theorem shift_stop {s : Range} (h : s.start < s.stop) : (shift s).stop = framePrefixLen + s.stop := by
  simp only [shift, Span.stop]
  omega

theorem nodeMatch_ok (hx : x.2.Ok) (hl : framePrefixLen + x.2.stop ≤ payload.length)
    (hm : m ∈ nodeMatch c rule x) : m.Ok payload := by
  obtain ⟨hne, rfl⟩ := mem_nodeMatch.mp hm
  have hw := hx.contents_within
  constructor
  case nonempty => simpa using hne
  case positive =>
    intro _ hs
    obtain ⟨s, hm, rfl⟩ := mem_map.mp hs
    have := hw s hm
    simp only [shift]
    omega
  case inside =>
    intro _ hs
    obtain ⟨s, hm, rfl⟩ := mem_map.mp hs
    have := hw s hm
    rw [shift_stop this.2.1]
    omega
  case behind =>
    intro _ hs
    obtain ⟨s, hs, rfl⟩ := mem_map.mp hs
    exact Nat.le_add_right ..
  case separated =>
    refine pairwise_map.mpr (hx.contents_separated.imp_of_mem fun hs ht hst => ?_)
    rw [shift_stop (hw _ hs).2.1]
    exact Nat.add_lt_add_left hst _

theorem DataMatches.ok (h : DataMatches c payload ms) : ∀ m ∈ ms, m.Ok payload := by
  cases h
  case none => simp
  case whole hl _ =>
    intro m hm
    obtain rfl := mem_singleton.mp hm
    constructor
    case nonempty  => simp
    case positive  => simp; omega
    case inside    => simp [Inside, Span.stop]; omega
    case behind    => simp
    case separated => simp
  case items n ms₀ hl hn hms =>
    intro m hm
    have hm := (perm_insertionSort _ _).mem_iff.mp hm
    obtain ⟨rule, _, out, ho, x, hx, hm⟩ := (mem_treeMatches hms).mp hm
    obtain ⟨hok, _, hstop⟩ := SecsItem.tree_ok hn.1
    obtain ⟨hxok, _, hxs⟩ := SecsItem.select_within hok ho hx
    refine nodeMatch_ok hxok ?_ hm
    simp only [length_drop] at hstop
    omega

-- A payload's position is content of an item that a rule selects.
def Target (c : Compiled) (payload : Bytes) (n : Node) (i : Nat) : Prop :=
  framePrefixLen ≤ i ∧ ∃ rule ∈ rulesFor c payload, ∃ out, n.select rule.pattern [] = some out ∧
    ∃ x ∈ out, ∃ s ∈ x.2.contents, s.Holds (i - framePrefixLen)

theorem covered_shift {ss : List Range} : Covered (ss.map shift) i ↔
    framePrefixLen ≤ i ∧ ∃ s ∈ ss, s.Holds (i - framePrefixLen) := by
  have hs : ∀ s : Range, (shift s).Holds i ↔ framePrefixLen ≤ i ∧ s.Holds (i - framePrefixLen) := by
    intro s
    simp only [shift, Span.Holds, Span.stop, Range.Holds]
    omega
  simp only [Covered, mem_map]
  constructor
  · rintro ⟨_, ⟨s, hm, rfl⟩, hi⟩
    exact ⟨((hs s).mp hi).1, s, hm, ((hs s).mp hi).2⟩
  · rintro ⟨hi, s, hm, h⟩
    exact ⟨_, ⟨s, hm, rfl⟩, (hs s).mpr ⟨hi, h⟩⟩

theorem covered_nodeMatch : (∃ m ∈ nodeMatch c rule x, Covered m.ranges i) ↔
    framePrefixLen ≤ i ∧ ∃ s ∈ x.2.contents, s.Holds (i - framePrefixLen) := by
  rw [← covered_shift]
  constructor
  · rintro ⟨m, hm, hi⟩
    obtain ⟨_, rfl⟩ := mem_nodeMatch.mp hm
    exact hi
  · intro hi
    have hne : x.2.contents ≠ [] := by
      intro h
      simp [h] at hi
    exact ⟨_, mem_nodeMatch.mpr ⟨hne, rfl⟩, hi⟩

theorem treeMatches_some (h : ∀ rule ∈ rules, n.select rule.pattern [] ≠ none) :
    ∃ ms, treeMatches c n rules = some ms := by
  induction rules
  case nil => exact ⟨[], rfl⟩
  case cons rule rules hi =>
    have ⟨hr, hrs⟩ := forall_mem_cons.mp h
    have ⟨out, ho⟩ := Option.ne_none_iff_exists'.mp hr
    have ⟨ms, hms⟩ := hi hrs
    exact ⟨_, by simp only [treeMatches, ho, hms]; rfl⟩

-- The matches of the items cover exactly the content that the rules select.
theorem DataMatches.covered (h : DataMatches c payload ms)
    (hn : OneItem (payload.drop framePrefixLen) n)
    (hr : ∀ rule ∈ rulesFor c payload, n.select rule.pattern [] ≠ .none) :
    (∃ m ∈ ms, Covered m.ranges i) ↔ Target c payload n i := by
  cases h
  case none h =>
    simp only [not_mem_nil, false_and, exists_false, false_iff]
    rintro ⟨_, rule, hrule, out, ho, x, hx, s, hs, _⟩
    rcases h with h | h | ⟨n', hn', h⟩
    · exact hn.ne_nil (drop_eq_nil_of_le h)
    · simp [h] at hrule
    · obtain rfl := Option.some.inj (hn'.1.symm.trans hn.1)
      have := SecsItem.select_contents ho hx s hs
      simp [h] at this
  case whole hl hw =>
    have ⟨ms, hms⟩ := treeMatches_some (c := c) hr
    simp [hw n hn] at hms
  case items n' ms₀ hl hn' hms =>
    obtain rfl := Option.some.inj (hn'.1.symm.trans hn.1)
    constructor
    · rintro ⟨m, hm, hi⟩
      have hm := (perm_insertionSort _ _).mem_iff.mp hm
      have ⟨rule, hrule, out, ho, x, hx, hm⟩ := (mem_treeMatches hms).mp hm
      have ⟨hlo, hc⟩ := covered_nodeMatch.mp ⟨m, hm, hi⟩
      exact ⟨hlo, rule, hrule, out, ho, x, hx, hc⟩
    · rintro ⟨hlo, rule, hrule, out, ho, x, hx, hc⟩
      have hcov : ∃ m ∈ nodeMatch c rule x, Covered m.ranges i := covered_nodeMatch.mpr ⟨hlo, hc⟩
      have ⟨m, hm, hi⟩ := hcov
      have hm := (mem_treeMatches hms).mpr ⟨rule, hrule, out, ho, x, hx, hm⟩
      exact ⟨m, (perm_insertionSort _ _).mem_iff.mpr hm, hi⟩

variable {crypto : Crypto} {ctx : Option Err × Option Err} {capture : Format.UUID} {r r' : Record}
variable {unobserved : Bool} {keys : Keys} {es : List RedactionEntry}

inductive Masked (crypto : Crypto) (c : Compiled) (capture : Format.UUID) (keys : Keys) (r : Record) :
    Bool → Record → List RedactionEntry → Prop
  | unobserved : Masked crypto c capture keys r true r []
  | unmatched (hm : matchesOf c r = .ok []) : Masked crypto c capture keys r false r []
  | applied {ms digestKey encKey payload es} (hq : r.quality &&& qualityRedacted = 0)
      (hm : matchesOf c r = .ok ms) (hne : ms ≠ [])
      (hk : ms.any (·.encrypt) = true → encKey.length = keySize ∧
        keys.encryptionKey capture (c.policy.encryption.getD []) = .ok encKey)
      (ha : applyMatches crypto capture r digestKey encKey r.payload ms = .ok (payload, es)) :
      Masked crypto c capture keys r false
        { r with payload, quality := r.quality ||| qualityRedacted } es

theorem fetch_eq_ok {what : String} {keyID key : Bytes} {x : Except Err Bytes} :
    fetch what keyID x = .ok key ↔ x = .ok key := by
  cases x <;> simp [fetch]

theorem mask_cases (h : c.mask crypto ctx capture r unobserved keys = .ok (r', es)) :
    Masked crypto c capture keys r unobserved r' es := by
  unfold Compiled.mask at h
  cases unobserved
  case true =>
    rw [if_pos rfl] at h
    obtain ⟨_, _, h⟩ := bind_eq_ok.mp h
    obtain ⟨rfl, rfl⟩ := Prod.mk.inj (Except.ok.inj h)
    exact .unobserved
  case false =>
    rw [if_neg (by simp)] at h
    obtain ⟨_, hq, h⟩ := bind_eq_ok.mp h
    obtain ⟨ms, hm, h⟩ := bind_eq_ok.mp h
    have hq := not_not.mp (failIf_eq_ok.mp hq)
    have hm := mapErr_eq_ok.mp hm
    by_cases hne : ms = []
    · rw [if_pos hne] at h
      obtain ⟨rfl, rfl⟩ := Prod.mk.inj (Except.ok.inj h)
      exact .unmatched (hne ▸ hm)
    · rw [if_neg hne] at h
      obtain ⟨_, _, h⟩ := bind_eq_ok.mp h
      obtain ⟨digestKey, _, h⟩ := bind_eq_ok.mp h
      obtain ⟨encKey, hk, h⟩ := bind_eq_ok.mp h
      obtain ⟨⟨payload, es'⟩, ha, h⟩ := bind_eq_ok.mp (mapErr_eq_ok.mp h)
      obtain ⟨rfl, rfl⟩ := Prod.mk.inj (Except.ok.inj h)
      refine .applied hq hm hne (fun hany => ?_) ha
      rw [if_pos hany] at hk
      obtain ⟨_, _, hk⟩ := bind_eq_ok.mp hk
      obtain ⟨key, hf, hk⟩ := bind_eq_ok.mp (mapErr_eq_ok.mp hk)
      obtain ⟨_, hl, hk⟩ := bind_eq_ok.mp hk
      obtain rfl := Except.ok.inj hk
      exact ⟨not_not.mp (failIf_eq_ok.mp hl), fetch_eq_ok.mp hf⟩

end Tracepack.Redact
