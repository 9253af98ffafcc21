import GoSecs.Hsmsss.Frame

open BigEndian Secs2 List

namespace Hsmsss

variable {c : Conn} {r : Reader} {room fuel : Nat} {s : Bytes} {o : Outcome}

section Read

-- A read takes bytes from the stream, and reports the end only when nothing is left.
structure Conn.Reads (c : Conn) (room : Nat) (bs : Bytes) (err : Option FrameErr) (c' : Conn) :
    Prop where
  stream : c.stream = bs ++ c'.stream
  le : bs.length ≤ room
  eof : ∀ e, err = some e → e = .eof ∧ c'.stream = []
  some : bs = [] → err = some .eof

theorem Conn.read_reads (hr : 0 < room) :
    c.Reads room (c.read room).1 (c.read room).2.1 (c.read room).2.2 := by
  rcases c with ⟨chunks, early, hc⟩
  rcases chunks with _ | ⟨chunk, rest⟩
  case nil => exact ⟨rfl, Nat.zero_le _, fun _ he => ⟨(Option.some.inj he).symm, rfl⟩, fun _ => rfl⟩
  case cons =>
    have hne := (forall_mem_cons.mp hc).1
    simp only [Conn.read]
    split
    case isTrue h =>
      refine ⟨?_, length_take_le .., nofun, fun hb => ?_⟩
      · simp only [Conn.stream, flatten_cons]
        rw [← append_assoc, take_append_drop]
      · rcases take_eq_nil_iff.mp hb with h0 | h0
        · omega
        · exact absurd h0 hne
    case isFalse h =>
      refine ⟨by simp only [Conn.stream, flatten_cons], not_lt.mp h, fun e he => ?_,
        fun hb => absurd hb hne⟩
      split at he
      case isTrue hl =>
        refine ⟨(Option.some.inj he).symm, ?_⟩
        simp only [Conn.stream, hl.1, flatten_nil]
      case isFalse => cases he

-- What `readN` returns depends on the stream alone.
structure ReadsN (r : Reader) (room : Nat) (res : Reader × Option (Except FrameErr Bytes)) : Prop where
  enough : room ≤ r.conn.stream.length → res.2 = some (.ok (r.conn.stream.take room)) ∧
    res.1.conn.stream = r.conn.stream.drop room ∧ res.1.started = (r.started || decide (0 < room))
  short  : r.conn.stream.length < room → res.2 = some (.error .eof) ∧
    res.1.started = (r.started || decide (r.conn.stream ≠ []))

theorem readLoop_readsN (h : room < fuel) : ReadsN r room (readLoop fuel r room) := by
  induction fuel generalizing r room
  case zero => omega
  case succ fuel hi =>
    rw [readLoop]
    split
    case isTrue h0 =>
      subst h0
      refine ⟨fun _ => ⟨rfl, rfl, ?_⟩, nofun⟩
      simp
    case isFalse h0 =>
      have hread := r.conn.read_reads (Nat.pos_of_ne_zero h0)
      generalize r.conn.read room = res at hread ⊢
      rcases res with ⟨bs, err, conn⟩
      simp only at hread ⊢
      have hs := hread.stream
      have hle := hread.le
      have hlen : r.conn.stream.length = bs.length + conn.stream.length := by
        rw [hs, length_append]
      split
      case isTrue hb =>
        have hne : bs ≠ [] := ne_nil_of_length_pos (by omega)
        refine ⟨fun _ => ⟨?_, ?_, ?_⟩, fun _ => by omega⟩
        · rw [hs, ← hb, take_left]
        · rw [hs, ← hb, drop_left]
        · simp [hne, Nat.pos_of_ne_zero h0]
      case isFalse hb =>
        rcases err with _ | e
        case some =>
          have ⟨he, hnil⟩ := hread.eof e rfl
          rw [hnil, append_nil] at hs
          refine ⟨fun _ => by rw [hnil] at hlen; simp at hlen; omega, fun _ => ⟨by rw [he], ?_⟩⟩
          rw [hs]
        case none =>
          have hne : bs ≠ [] := fun h => nomatch hread.some h
          have hpos := length_pos_iff.mpr hne
          have hless : room - bs.length < fuel := by omega
          have hi := hi (r := ⟨conn, r.started || bs ≠ [], r.deadlines ++ [r.started]⟩) hless
          generalize readLoop fuel _ (room - bs.length) = res at hi ⊢
          rcases res with ⟨r', out⟩
          refine ⟨fun he => ?_, fun he => ?_⟩
          · have ⟨ho, hc, hst⟩ := hi.enough (by show _ ≤ conn.stream.length; omega)
            simp only at ho hc hst
            subst ho
            refine ⟨?_, ?_, ?_⟩
            · rw [hs, take_append, take_of_length_le hle]
            · rw [hs, drop_append, drop_of_length_le hle, nil_append]
              exact hc
            · simp [hst, hne, Nat.pos_of_ne_zero h0]
          · have ⟨ho, hst⟩ := hi.short (by show conn.stream.length < _; omega)
            simp only at ho hst
            subst ho
            refine ⟨rfl, ?_⟩
            simp [hst, hne, hs]

theorem readN_readsN (r : Reader) (n : Nat) : ReadsN r n (readN r n) :=
  readLoop_readsN n.lt_succ_self

-- T8 runs in every read once a byte has arrived.
theorem readLoop_deadlines (hr : 0 < room) : ∃ n, (readLoop (fuel + 1) r room).1.deadlines =
    r.deadlines ++ r.started :: List.replicate n true := by
  induction fuel generalizing r room
  all_goals
    rw [readLoop, if_neg hr.ne']
    have hread := r.conn.read_reads hr
    generalize r.conn.read room = res at hread ⊢
    rcases res with ⟨bs, err, conn⟩
    simp only at hread ⊢
    split
    case isTrue => exact ⟨0, rfl⟩
  case zero => cases err <;> exact ⟨0, rfl⟩
  case succ fuel ih hb =>
    rcases err with _ | e
    case some => exact ⟨0, rfl⟩
    case none =>
      have hne : bs ≠ [] := fun h => nomatch hread.some h
      have hlt : 0 < room - bs.length := Nat.sub_pos_of_lt (Nat.lt_of_le_of_ne hread.le hb)
      have ⟨n, hn⟩ := @ih ⟨conn, r.started || bs ≠ [], r.deadlines ++ [r.started]⟩ _ hlt
      refine ⟨n + 1, ?_⟩
      simp only [hne, ne_eq, not_false_eq_true, decide_true, Bool.or_true, append_assoc] at hn ⊢
      generalize readLoop _ _ (room - bs.length) = res at hn ⊢
      rcases res with ⟨r', _ | _ | _⟩ <;> exact hn

end Read

section Cut

inductive Outcome
  | clean
  | truncated
  | below (msgLen : Nat)
  | above (msgLen : Nat)
deriving DecidableEq

def Outcome.err : Outcome → FrameErr
  | clean | truncated => .eof
  | below n => .belowMinimum n
  | above n => .exceedsMaximum n

-- The first frame of a stream by its length prefix.
def cutFrame (s : Bytes) : Except Outcome (Bytes × Bytes) :=
  let n := nat (s.take 4)
  if s = [] then .error .clean
  else if s.length < 4 then .error .truncated
  else if n < 10 then .error (.below n)
  else if maxByteSize < n then .error (.above n)
  else if s.length < 4 + n then .error .truncated
  else .ok (s.take (4 + n), s.drop (4 + n))

theorem cutFrame_ok {f rest : Bytes} (h : cutFrame s = .ok (f, rest)) :
    ∃ n, nat (s.take 4) = n ∧ 10 ≤ n ∧ n ≤ maxByteSize ∧ 4 + n ≤ s.length ∧
      f = s.take (4 + n) ∧ rest = s.drop (4 + n) := by
  simp only [cutFrame] at h
  repeat' split at h
  all_goals cases h
  exact ⟨_, rfl, by omega, by omega, by omega, rfl, rfl⟩

theorem length_cutFrame {f rest : Bytes} (h : cutFrame s = .ok (f, rest)) :
    rest.length < s.length := by
  have ⟨n, _, _, _, _, _, hr⟩ := cutFrame_ok h
  rw [hr, length_drop]
  omega

def cut (s : Bytes) : List Bytes × Outcome :=
  match h : cutFrame s with
  | .error o => ([], o)
  | .ok (f, rest) =>
    have := length_cutFrame h
    ((cut rest).1.cons f, (cut rest).2)
termination_by s.length

theorem cut_error (h : cutFrame s = .error o) : cut s = ([], o) := by
  rw [cut]
  split
  case h_1 h' => cases h.symm.trans h'; rfl
  case h_2 h' => cases h.symm.trans h'

theorem cut_ok {f rest : Bytes} (h : cutFrame s = .ok (f, rest)) :
    cut s = (f :: (cut rest).1, (cut rest).2) := by
  rw [cut]
  split
  case h_1 h' => cases h.symm.trans h'
  case h_2 h' => cases h.symm.trans h'; rfl

end Cut

section Frames

-- The buffer of a frame is never smaller than its header, nor larger than the largest frame.
def Sized (n : Nat) : Prop :=
  4 + 10 ≤ n ∧ n ≤ 4 + maxByteSize

structure ReadFrame.Cuts (f : ReadFrame) (s : Bytes) : Prop where
  sized : ∀ n ∈ f.allocs, Sized n
  frame : ∀ frame rest, cutFrame s = .ok (frame, rest) →
    f.out = some (.ok frame) ∧ f.reader.conn.stream = rest
  stop  : ∀ o, cutFrame s = .error o →
    f.out = some (.error o.err) ∧ f.reader.started = decide (o ≠ .clean)

theorem ReadFrame.Cuts.of_error {f : ReadFrame}
    (hcut : cutFrame s = .error o) (hs : ∀ n ∈ f.allocs, Sized n)
    (ho : f.out = some (.error o.err)) (hst : f.reader.started = decide (o ≠ .clean)) :
    f.Cuts s where
  sized := hs
  frame _ _ h := nomatch hcut.symm.trans h
  stop o' h := by cases hcut.symm.trans h; exact ⟨ho, hst⟩

theorem readFrame_cuts (c : Conn) : (readFrame c).Cuts c.stream := by
  have hp := readN_readsN { conn := c } 4
  simp only [readFrame]
  generalize readN { conn := c } 4 = res at hp ⊢
  rcases res with ⟨r, out⟩
  by_cases h4 : c.stream.length < 4
  case pos =>
    have ⟨ho, hst⟩ := hp.short h4
    simp only at ho hst
    subst ho
    have hcut : cutFrame c.stream = .error (if c.stream = [] then .clean else .truncated) := by
      simp only [cutFrame, h4, if_true]
      split <;> rfl
    refine .of_error hcut nofun ?_ ?_
    all_goals by_cases hn : c.stream = [] <;> simp [hn, hst, Outcome.err]
  case neg =>
    have ⟨ho, hr, hst⟩ := hp.enough (not_lt.mp h4)
    simp only at ho hr hst
    subst ho
    have hne : c.stream ≠ [] := ne_nil_of_length_pos (by omega)
    simp only
    generalize hn : nat (c.stream.take 4) = n
    split
    case isTrue hlt =>
      refine .of_error (o := .below n) ?_ nofun rfl (by simpa using hst)
      simp only [cutFrame, hne, h4, hn, hlt, if_true, if_false]
    case isFalse hge =>
      split
      case isTrue hgt =>
        refine .of_error (o := .above n) ?_ nofun rfl (by simpa using hst)
        simp only [cutFrame, hne, h4, hn, hge, if_false]
        rw [if_pos hgt]
      case isFalse hle =>
        have hsized : ∀ m ∈ [4 + n], Sized m :=
          forall_mem_singleton.mpr ⟨by omega, by omega⟩
        have hb := readN_readsN r n
        generalize readN r n = res at hb ⊢
        rcases res with ⟨r', out⟩
        have hdrop : r.conn.stream.length = c.stream.length - 4 := by rw [hr, length_drop]
        by_cases hl : c.stream.length < 4 + n
        case pos =>
          have ⟨ho, hst'⟩ := hb.short (by omega)
          simp only at ho hst'
          subst ho
          refine .of_error (o := .truncated) ?_ hsized rfl ?_
          · simp only [cutFrame, hne, h4, hn, hge, hle, hl, if_true, if_false]
          · simp [hst', hst]
        case neg =>
          have ⟨ho, hr', _⟩ := hb.enough (by omega)
          simp only at ho hr'
          subst ho
          have hcut : cutFrame c.stream = .ok (c.stream.take (4 + n), c.stream.drop (4 + n)) := by
            simp only [cutFrame, hne, h4, hn, hge, hle, hl, if_false]
          refine ⟨hsized, fun f rest h => ?_, fun o h => nomatch hcut.symm.trans h⟩
          cases hcut.symm.trans h
          refine ⟨?_, ?_⟩
          · rw [hr, take_add]
          · rw [hr', hr, drop_drop]

-- A link may wait for a frame for ever. After its first byte T8 bounds every wait.
theorem readFrame_deadlines (c : Conn) :
    ∃ n, (readFrame c).reader.deadlines = false :: List.replicate n true := by
  obtain ⟨n, hn⟩ : ∃ n, (readN { conn := c } 4).1.deadlines = false :: List.replicate n true :=
    readLoop_deadlines (r := { conn := c }) (by decide : 0 < 4)
  have hp := readN_readsN { conn := c } 4
  simp only [readFrame]
  generalize readN { conn := c } 4 = res at hn hp ⊢
  rcases res with ⟨r, _ | e | lenBuf⟩
  case none       => exact ⟨n, hn⟩
  case some.error => exact ⟨n, hn⟩
  case some.ok =>
    have hst : r.started = true := by
      rcases Nat.lt_or_ge c.stream.length 4 with h | h
      case inl => exact nomatch (hp.short h).1
      case inr => simpa using (hp.enough h).2.2
    simp only
    split
    case isTrue => exact ⟨n, hn⟩
    case isFalse hmin =>
      split
      case isTrue => exact ⟨n, hn⟩
      case isFalse =>
        obtain ⟨k, hk⟩ : ∃ k, (readN r (nat lenBuf)).1.deadlines =
            r.deadlines ++ r.started :: List.replicate k true := readLoop_deadlines (by omega)
        have hsum : false :: List.replicate (n + (k + 1)) true =
            r.deadlines ++ r.started :: List.replicate k true := by
          rw [show r.deadlines = _ from hn, hst, List.replicate_add]
          rfl
        refine ⟨n + (k + 1), ?_⟩
        rw [hsum]
        generalize readN r (nat lenBuf) = res at hk ⊢
        rcases res with ⟨r', _ | _ | _⟩ <;> exact hk

theorem recvLoop_cut {fuel : Nat} (h : c.stream.length < fuel) :
    (recvLoop fuel c).frames = (cut c.stream).1 ∧
    (recvLoop fuel c).err = some (cut c.stream).2.err ∧
    (recvLoop fuel c).inside = decide ((cut c.stream).2 ≠ .clean) ∧
    ∀ n ∈ (recvLoop fuel c).allocs, Sized n := by
  induction fuel generalizing c
  case zero => omega
  case succ fuel hi =>
    have hf := readFrame_cuts c
    simp only [recvLoop]
    rcases hcut : cutFrame c.stream with o | ⟨f, rest⟩
    case error =>
      have ⟨ho, hst⟩ := hf.stop o hcut
      rw [cut_error hcut, ho]
      exact ⟨rfl, rfl, hst, hf.sized⟩
    case ok =>
      have ⟨ho, hr⟩ := hf.frame f rest hcut
      have hlt := length_cutFrame hcut
      have ⟨hfs, he, hin, hs⟩ := hi (c := (readFrame c).reader.conn) (by rw [hr]; omega)
      rw [hr] at hfs he hin
      rw [cut_ok hcut, ho]
      exact ⟨congrArg (f :: ·) hfs, he, hin, forall_mem_append.mpr ⟨hf.sized, hs⟩⟩

theorem cut_frames (s : Bytes) : ∀ f ∈ (cut s).1, ∃ header body : Bytes, header.length = 10 ∧
    10 + body.length ≤ maxByteSize ∧ f = bytes 4 (10 + body.length) ++ (header ++ body) := by
  induction s using cut.induct
  case case1 s o h =>
    rw [cut_error h]
    exact nofun
  case case2 s f rest h _ hi =>
    rw [cut_ok h]
    refine forall_mem_cons.mpr ⟨?_, hi⟩
    have ⟨n, hn, hge, hle, hlen, hf, _⟩ := cutFrame_ok h
    have hbody : ((s.drop 14).take (n - 10)).length = n - 10 := by
      rw [length_take, length_drop]
      omega
    have hhead : bytes 4 n = s.take 4 := by
      have h4 : (s.take 4).length = 4 := by
        rw [length_take]
        omega
      rw [← hn]
      nth_rewrite 1 [← h4]
      exact bytes_nat _
    refine ⟨(s.drop 4).take 10, (s.drop 14).take (n - 10), ?_, by omega, ?_⟩
    · rw [length_take, length_drop]
      omega
    · rw [hbody, Nat.add_sub_cancel' hge, hhead, hf]
      calc s.take (4 + n) = s.take 4 ++ (s.drop 4).take (10 + (n - 10)) := by
            rw [take_add, Nat.add_sub_cancel' hge]
        _ = _ := by rw [take_add, drop_drop]

-- Frames do not depend on how the stream is cut into reads.
theorem received_cut (c : Conn) :
    (received c).frames = (cut c.stream).1 ∧
    (received c).err = some (cut c.stream).2.err ∧
    (received c).inside = decide ((cut c.stream).2 ≠ .clean) ∧
    (∀ n ∈ (received c).allocs, Sized n) ∧
    ∀ f ∈ (received c).frames, ∃ header body : Bytes, header.length = 10 ∧
      f = bytes 4 (10 + body.length) ++ (header ++ body) := by
  have ⟨hf, he, hin, hs⟩ := recvLoop_cut c.stream.length.lt_succ_self
  refine ⟨hf, he, hin, hs, fun f hm => ?_⟩
  have ⟨header, body, hh, _, hfb⟩ := cut_frames c.stream f (hf ▸ hm)
  exact ⟨header, body, hh, hfb⟩

end Frames
end Hsmsss
