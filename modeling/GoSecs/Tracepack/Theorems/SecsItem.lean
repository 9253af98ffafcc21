import GoSecs.Tracepack.Theorems.ItemTree

open Run List

namespace Tracepack.SecsItem

variable {b b' : Bytes} {room off count fuel : Nat} {n : Node} {ns : List Node} {h : Header}
variable {item : Nat → Option Node} {f : Nat → Run Fault (Nat × Bool)} {r : Nat × Bool}

theorem validate_eq : validate b room off =
    match header? b off with
    | none   => fail .invalid
    | some h =>
      if h.code = listCode then
        match room with
        | 0 => fail (.depth (maxDepth + 1))
        | room + 1 =>
          if (b.length - h.body) / 2 < h.length then fail .invalid
          else validateItems (validate b room) h.length h.body
      else if LeafOk b h then
        .ok (h.body + h.length,
          decide ((if h.code = localizedCode then localizedHeaderLen else 0) < h.length))
      else
        fail .invalid := by
  rw [validate.eq_def]
  by_cases hoff : b.length ≤ off
  · have hn : header? b off = none := by simp [header?, getElem?_eq_none hoff]
    simp [hn, hoff, failIf, fail]
  · have hoff' := not_le.mp hoff
    have hi : (index b off : Run Fault UInt8) = .ok b[off] := index_eq hoff'
    by_cases hk : (b[off] &&& 0x03).toNat = 0 ∨ b.length < off + 1 + (b[off] &&& 0x03).toNat
    · have hn : header? b off = none := by simp only [header?, getElem?_eq_getElem hoff', if_pos hk]
      simp only [hn, failIf, if_neg hoff, pure_eq, bind_ok, hi, if_pos hk]
      rfl
    · obtain ⟨h, hh⟩ : ∃ h, header? b off = some h := by
        simp only [header?, getElem?_eq_getElem hoff', if_neg hk]
        exact ⟨_, rfl⟩
      simp only [hh, failIf, if_neg hoff, pure_eq, bind_ok, hi, if_neg hk, readHeader_of_header? hh]
      by_cases hc : h.code = listCode
      · simp only [if_pos hc]
        cases room
        case zero => rfl
        case succ room =>
          by_cases hl : (b.length - h.body) / 2 < h.length
          · simp only [if_pos hl]; rfl
          · simp only [if_neg hl]; rfl
      · simp only [if_neg hc]
        cases hs : elementSize h.code
        case none =>
          have hno : ¬LeafOk b h := by simp [LeafOk, hs]
          rw [if_neg hno]
        case some size =>
          by_cases hok : LeafOk b h
          · have hbad : ¬(h.length % size ≠ 0 ∨ h.code = localizedCode ∧ h.length = 1 ∨
                b.length - h.body < h.length) := by
              obtain ⟨size', hs', h₁, h₂, h₃⟩ := hok
              obtain rfl : size = size' := by simpa [hs] using hs'
              rintro (h | h | h)
              · exact h h₁
              · exact h₂ h
              · omega
            simp only [if_neg hbad, if_pos hok]
            rfl
          · have hbad : h.length % size ≠ 0 ∨ h.code = localizedCode ∧ h.length = 1 ∨
                b.length - h.body < h.length := by
              by_contra hg
              simp only [not_or, not_not, not_lt] at hg
              exact hok ⟨size, by simp [hs], hg.1, hg.2.1, hg.2.2⟩
            simp only [if_pos hbad, if_neg hok]
            rfl

theorem contentsOf_cons_ne_nil : contentsOf (n :: ns) ≠ [] ↔ n.contents ≠ [] ∨ contentsOf ns ≠ [] := by
  rw [contentsOf, Ne, append_eq_nil_iff, not_and_or]

theorem validateItems_of_tree
    (hf : ∀ off n, item off = some n → f off = .ok (n.stop, decide (n.contents ≠ [])))
    (ht : Items item count off ns) :
    validateItems f count off = .ok (stopOf off ns, decide (contentsOf ns ≠ [])) := by
  induction ht
  case nil => rfl
  case cons hx _ hi =>
    simp only [validateItems, hf _ _ hx, bind_ok, hi, pure_eq, stopOf, ← Bool.decide_or,
      contentsOf_cons_ne_nil]

theorem leaf_contents_ne_nil {code : UInt8} {start body length : Nat} :
    (Node.leaf code start body (body + length)).contents ≠ [] ↔
      (if code = localizedCode then localizedHeaderLen else 0) < length := by
  simp only [Node.contents, leafStart, localizedHeaderLen]
  split <;> split at * <;> simp_all
  all_goals omega

theorem validate_of_tree (ht : tree b room off = some n) :
    validate b room off = .ok (n.stop, decide (n.contents ≠ [])) := by
  induction room using Nat.strong_induction_on generalizing off n
  case h room hi =>
    have ⟨h, hh, ht⟩ := tree_eq_some.mp ht
    rw [validate_eq, hh]
    rcases ht with ⟨hc, hok, rfl⟩ | ⟨hc, hl, room, rfl, items, hit, rfl⟩
    · simp only [if_neg hc, if_pos hok, Node.stop, leaf_contents_ne_nil]
    · simp only [if_pos hc, if_neg (not_lt.mpr hl)]
      exact validateItems_of_tree (fun off n => hi room (Nat.lt_succ_self room)) hit

theorem items_of_validate
    (hf : ∀ off n, item off = some n → f off = .ok (n.stop, decide (n.contents ≠ [])))
    (hi : ∀ off r, f off = .ok r → ∃ n, item off = some n)
    (hv : validateItems f count off = .ok r) : ∃ ns, Items item count off ns := by
  induction count generalizing off r
  case zero => exact ⟨[], .nil⟩
  case succ count ih =>
    have ⟨⟨next, c⟩, hx, hv⟩ := bind_eq_ok.mp hv
    have ⟨⟨stop, c'⟩, hxs, _⟩ := bind_eq_ok.mp hv
    have ⟨x, hn⟩ := hi off _ hx
    have hnext : next = x.stop := by
      rw [hf off x hn] at hx
      exact (Prod.ext_iff.mp (Except.ok.inj hx)).1.symm
    have ⟨xs, hns⟩ := ih hxs
    exact ⟨x :: xs, .cons hn (hnext ▸ hns)⟩

theorem tree_of_validate (hv : validate b room off = .ok r) :
    ∃ n, tree b room off = some n := by
  induction room using Nat.strong_induction_on generalizing off r
  case h room hi =>
    rw [validate_eq] at hv
    cases hh : header? b off
    case none => simp [hh] at hv
    case some h =>
      simp only [hh] at hv
      by_cases hc : h.code = listCode
      · cases room
        case zero => simp [hc] at hv
        case succ room =>
          by_cases hl : (b.length - h.body) / 2 < h.length
          · simp [hc, hl] at hv
          · simp only [if_pos hc, if_neg hl] at hv
            have ⟨items, hit⟩ := items_of_validate (fun off n => validate_of_tree)
              (fun off r => hi room (Nat.lt_succ_self room)) hv
            exact ⟨_, tree_eq_some.mpr ⟨h, hh, .inr ⟨hc, not_lt.mp hl, room, rfl, items, hit, rfl⟩⟩⟩
      · by_cases hok : LeafOk b h
        · exact ⟨_, tree_eq_some.mpr ⟨h, hh, .inl ⟨hc, hok, rfl⟩⟩⟩
        · simp [hc, hok] at hv

section Walk

variable {ε : Type} {lo hi : Nat} {path : Bytes} {dst : List Range} {next : Nat → Run ε Nat}

theorem Items.stop_ge (hs : ∀ off n, item off = some n → off ≤ n.stop)
    (ht : Items item count off ns) : off ≤ stopOf off ns := by
  induction ht
  case nil => exact le_rfl
  case cons hx _ hi => exact (hs _ _ hx).trans hi

theorem tree_le (ht : tree b room off = some n) : off ≤ n.stop := by
  have ⟨hn, hs, _⟩ := tree_ok ht
  have := hn.start_lt
  omega

theorem endItems_of_tree {f : Nat → Run ε Nat} (hs : ∀ off n, item off = some n → off ≤ n.stop)
    (hf : ∀ off n, item off = some n → lo ≤ off → n.stop ≤ hi → f off = .ok n.stop)
    (ht : Items item count off ns) (hlo : lo ≤ off) (hhi : stopOf off ns ≤ hi) :
    endItems f count off = .ok (stopOf off ns) := by
  induction ht
  case nil => rfl
  case cons hx hxs ih =>
    rw [endItems, hf _ _ hx hlo ((hxs.stop_ge hs).trans hhi), bind_ok]
    exact ih (hlo.trans (hs _ _ hx)) hhi

-- The nesting is at most the length of the item, since every header takes two bytes.
theorem endOf_of_tree (ht : tree b room off = some n) (hf : n.stop - n.start ≤ fuel) :
    (endOf b fuel off : Run ε Nat) = .ok n.stop := by
  induction fuel generalizing room off n
  case zero =>
    have := (tree_ok ht).1.start_lt
    omega
  case succ fuel ih =>
    have ⟨hn, hstart, _⟩ := tree_ok ht
    have ⟨h, hh, ht⟩ := tree_eq_some.mp ht
    have hb := header?_bounds hh
    rw [endOf, readHeader_of_header? hh, bind_ok]
    rcases ht with ⟨hc, _, rfl⟩ | ⟨hc, _, room, _, items, hit, rfl⟩
    · rw [if_pos hc]
      rfl
    · rw [if_neg (not_not.mpr hc)]
      refine endItems_of_tree (fun off n => tree_le) (fun off n ht hlo hhi => ih ht ?_) hit le_rfl
        le_rfl
      have := (tree_ok ht).2.1
      simp only [Node.start, Node.stop] at hf
      omega

theorem endOf_text (ht : tree b room off = some n) :
    (endOf b (b.length + 1) off : Run ε Nat) = .ok n.stop :=
  endOf_of_tree ht (by have := (tree_ok ht).2.2; omega)

theorem appendRange_eq {r : Range} (hd : ∀ l ∈ dst.getLast?, l.stop < r.start) :
    appendRange dst r = dst ++ [r] := by
  unfold appendRange
  split
  case h_1 l hl => rw [if_neg (hd l hl).ne]
  case h_2 => rfl

theorem le_stop (hok : ∀ off n, item off = some n → n.Ok ∧ n.start = off) :
    ∀ off n, item off = some n → off ≤ n.stop := by
  intro off n hn
  have := (hok off n hn).1.start_lt
  have := (hok off n hn).2
  omega

theorem contentItems_of_tree {f : Nat → List Range → Run ε (List Range)}
    (hok : ∀ off n, item off = some n → n.Ok ∧ n.start = off)
    (hnext : ∀ off n, item off = some n → next off = .ok n.stop)
    (hf : ∀ off n dst, item off = some n → lo ≤ off → n.stop ≤ hi →
      (∀ l ∈ dst.getLast?, l.stop ≤ off) → f off dst = .ok (dst ++ n.contents))
    (ht : Items item count off ns) (hlo : lo ≤ off) (hhi : stopOf off ns ≤ hi)
    (hd : ∀ l ∈ dst.getLast?, l.stop ≤ off) :
    contentItems f next count off dst = .ok (dst ++ contentsOf ns) := by
  induction ht generalizing dst
  case nil => simp [contentItems, contentsOf]
  case cons off x _ _ hx hxs ih =>
    have h₁ := le_stop hok off x hx
    have h₂ := hxs.stop_ge (le_stop hok)
    have hd' : ∀ l ∈ (dst ++ x.contents).getLast?, l.stop ≤ x.stop := by
      intro l hl
      rw [getLast?_append] at hl
      cases hx' : x.contents.getLast?
      case none =>
        rw [hx', Option.none_or] at hl
        exact (hd l hl).trans h₁
      case some l' =>
        rw [hx', Option.some_or] at hl
        obtain rfl := Option.some.inj hl
        exact ((hok off x hx).1.contents_within l' (mem_of_getLast? hx')).2.2
    rw [contentItems, hf off x dst hx hlo (h₂.trans hhi) hd, bind_ok, hnext off x hx, bind_ok,
      ih (hlo.trans h₁) hhi hd', contentsOf, append_assoc]

theorem appendContent_of_tree (ht : tree b room off = some n) (hf : n.stop - n.start ≤ fuel)
    (hd : ∀ l ∈ dst.getLast?, l.stop ≤ off) :
    (appendContent b fuel off dst : Run ε _) = .ok (dst ++ n.contents) := by
  induction fuel generalizing room off n dst
  case zero =>
    have := (tree_ok ht).1.start_lt
    omega
  case succ fuel ih =>
    have ⟨hn, hstart, _⟩ := tree_ok ht
    have ⟨h, hh, ht⟩ := tree_eq_some.mp ht
    have hb := header?_bounds hh
    rw [appendContent, readHeader_of_header? hh, bind_ok]
    rcases ht with ⟨hc, _, rfl⟩ | ⟨hc, _, room, _, items, hit, rfl⟩
    · have hl : leafStart h.code h.body (h.body + h.length) =
          if h.code = localizedCode ∧ 0 < h.length then h.body + localizedHeaderLen
          else h.body := by
        simp [leafStart]
      simp only [if_neg hc, ← hl, Node.contents]
      split
      case isTrue  => simp
      case isFalse =>
        have := leafStart_ge h.code h.body (h.body + h.length)
        rw [appendRange_eq, pure_eq]
        intro l hl
        have := hd l hl
        simp only
        omega
    · rw [if_pos hc, Node.contents]
      refine contentItems_of_tree (fun off n ht => ⟨(tree_ok ht).1, (tree_ok ht).2.1⟩)
        (fun off n => endOf_text) (fun off n dst ht hlo hhi hd => ih ht ?_ hd) hit le_rfl le_rfl ?_
      · have := (tree_ok ht).2.1
        simp only [Node.start, Node.stop] at hf
        omega
      · intro l hl
        have := hd l hl
        omega

def selectionOf (x : Bytes × Node) : Selection :=
  ⟨x.1, x.2.range⟩

theorem selectItems_of_tree {f : Nat → Bytes → Run ε (Option (List Selection))}
    {g : Node → Bytes → Option (List (Bytes × Node))} {step k : Nat}
    (hnext : ∀ off n, item off = some n → next off = .ok n.stop)
    (hf : ∀ off n path, item off = some n → f off path = .ok ((g n path).map (·.map selectionOf)))
    (ht : Items item count off ns) :
    selectItems f next step path count k off =
      .ok ((selectNodes g step path k ns).map (·.map selectionOf)) := by
  induction ht generalizing k
  case nil => rfl
  case cons off x _ _ hx _ ih =>
    rw [selectItems, selectNodes]
    by_cases hs : step = 0 ∨ step = k
    · rw [if_pos hs, if_pos hs, hf off x _ hx, bind_ok]
      cases g x (childPath path k)
      case none => rfl
      case some out =>
        by_cases hk : step = k
        · simp only [Option.map_some, if_pos hk, pure_eq]
        · simp only [Option.map_some, if_neg hk, hnext off x hx, bind_ok, ih, pure_eq,
            Option.map_map]
          congr 2
          funext l
          simp
    · rw [if_neg hs, if_neg hs, hnext off x hx, bind_ok, ih]

theorem selectAt_of_tree {p : Pattern} (ht : tree b room off = some n) :
    (selectAt b p off path : Run ε _) = .ok ((n.select p path).map (·.map selectionOf)) := by
  induction p generalizing room off n path
  case nil =>
    have hs := (tree_ok ht).2.1
    rw [selectAt, endOf_text ht, bind_ok]
    simp [Node.select, selectionOf, Node.range, hs]
  case cons step p ih =>
    have ⟨h, hh, ht⟩ := tree_eq_some.mp ht
    rw [selectAt, readHeader_of_header? hh, bind_ok]
    rcases ht with ⟨hc, _, rfl⟩ | ⟨hc, _, room, _, items, hit, rfl⟩
    · rw [if_pos (.inl hc)]
      rfl
    · rw [Node.select]
      have hl := hit.length
      by_cases hs : items.length < step
      · rw [if_pos (.inr (hl ▸ hs)), if_pos hs]
        rfl
      · rw [if_neg (not_or.mpr ⟨not_not.mpr hc, hl ▸ hs⟩), if_neg hs]
        exact selectItems_of_tree (fun off n => endOf_text) (fun off n path ht => ih ht) hit

end Walk

end Tracepack.SecsItem
