import GoSecs.Tracepack.Hours

namespace Tracepack.Hours

open Word

variable {m : Type → Type} [Monad m] [LawfulMonad m] {op : Int → m Int} {ts x f s q : Int}

theorem hourOf_eq_ediv (h : Fits ts) : Tracepack.hourOf ts = ts / hourNs :=
  floorDiv_eq (m := Id) (fun _ _ => rfl) h (by decide) (by decide)

theorem hourOf_eq (hop : Exact op) (h : Fits ts) :
    hourOf op ts = pure (Tracepack.hourOf ts) := by
  rw [hourOf_eq_ediv h]
  exact floorDiv_eq hop h (by decide) (by decide)

-- The ends of an hour, cut off at those of the words.
theorem hourBounds_eq (hop : Exact op) (hl : minInt64 / hourNs ≤ q) (hr : q ≤ maxInt64 / hourNs) :
    hourBounds op q =
      pure (max minInt64 (q * hourNs), min maxInt64 ((q + 1) * hourNs - 1)) := by
  have hmin : minInt64.tdiv hourNs = -2562047 := by decide
  have hmax : maxInt64.tdiv hourNs = 2562047 := by decide
  have h63 : minInt64 = -2 ^ 63 ∧ maxInt64 = 2 ^ 63 - 1 := ⟨rfl, rfl⟩
  rw [hourBounds, hmin, hmax]
  simp only [hourNs] at hl hr ⊢
  have hfirst : (if q ≥ -2562047 then op (q * 3600000000000) else pure minInt64) =
      pure (max minInt64 (q * 3600000000000)) := by
    split
    case isTrue  => rw [hop _ ⟨by omega, by omega⟩, max_eq_right (by omega)]
    case isFalse => rw [max_eq_left (by omega)]
  rw [hfirst, pure_bind]
  split
  case isTrue =>
    rw [hop _ ⟨by omega, by omega⟩, pure_bind, hop _ ⟨by omega, by omega⟩, pure_bind,
      hop _ ⟨by omega, by omega⟩, pure_bind, min_eq_right (by omega)]
  case isFalse => rw [pure_bind, min_eq_left (by omega)]

theorem mem_hour : ts / hourNs * hourNs ≤ x ∧ x ≤ (ts / hourNs + 1) * hourNs - 1 ↔
    x / hourNs = ts / hourNs := by
  simp only [hourNs]
  omega

theorem periodOf_eq (hop : Exact op) (h : Fits ts) (hf : 0 < f) (hd : f ∣ hourNs) :
    periodOf op ts f = pure (if Fits (ts / f * f) ∧ Fits (ts / f * f + f) then
      some (ts / f * f, ts / f * f + f) else none) := by
  have hle : f ≤ hourNs := Int.le_of_dvd (by decide) hd
  have hmax : hourNs ≤ maxInt64 := by decide
  have hmin : minInt64 ≤ 0 := by decide
  have hts : ts / f * f ≤ ts := Int.ediv_mul_le ts hf.ne'
  have ⟨_, hr⟩ := h
  rw [periodOf, floorDiv_eq hop h hf (by omega), hop _ (fits_tdiv_minInt64 hf)]
  simp only [pure_bind, lt_tdiv_minInt64 hf]
  split
  case isTrue hlow => rw [if_neg fun hs => by have := hs.1.1; omega]
  case isFalse hlow =>
    have hs : Fits (ts / f * f) := ⟨by omega, by omega⟩
    have hg : Fits (maxInt64 - f) := ⟨by omega, by omega⟩
    simp only [hop _ hs, hop _ hg, pure_bind]
    split
    case isTrue hhigh => rw [if_neg fun he => by have := he.2.2; omega]
    case isFalse hhigh =>
      have he : Fits (ts / f * f + f) := ⟨by omega, by omega⟩
      rw [hop _ he, if_pos ⟨hs, he⟩, pure_bind]

theorem period_hour (hf : 0 < f) (hd : f ∣ hourNs) (hl : ts / f * f ≤ x) (hr : x < ts / f * f + f) :
    x / hourNs = ts / hourNs := by
  have hx := ediv_eq_of_mem hf hl hr
  obtain ⟨k, hk⟩ := hd
  rw [hk, ← Int.ediv_ediv_of_nonneg hf.le, hx, Int.ediv_ediv_of_nonneg hf.le]

theorem periodHour_eq (hop : Exact op) (hs : Fits s) (he : Fits (s + f)) (hf : 0 < f)
    (hh : Tracepack.hourOf (s + f - 1) = Tracepack.hourOf s) :
    periodHour op s (s + f) = pure (some (Tracepack.hourOf s)) := by
  have hlast : Fits (s + f - 1) := ⟨by have := hs.1; omega, by have := he.2; omega⟩
  rw [periodHour, if_neg (by omega)]
  simp [hourOf_eq hop hs, hop _ hlast, hourOf_eq hop hlast, hh]

theorem hours_exact (ts : Int) (h : Fits ts) :
    Computes (hourOf · ts) (Tracepack.hourOf ts) ∧
    (∃ a b, Computes (hourBounds · (Tracepack.hourOf ts)) (a, b) ∧
      ∀ x, a ≤ x ∧ x ≤ b ↔ Fits x ∧ Tracepack.hourOf x = Tracepack.hourOf ts) ∧
    ∀ f, 0 < f → f ∣ hourNs → ∃ s, (f ∣ s ∧ s ≤ ts ∧ ts < s + f) ∧
      (∀ s', f ∣ s' → s' ≤ ts → ts < s' + f → s' = s) ∧
      Computes (periodOf · ts f) (if Fits s ∧ Fits (s + f) then some (s, s + f) else none) ∧
      (Fits s → Fits (s + f) →
        (∀ x, s ≤ x → x < s + f → Tracepack.hourOf x = Tracepack.hourOf ts) ∧
        Computes (periodHour · s (s + f)) (some (Tracepack.hourOf ts))) := by
  refine ⟨.of_exact (hourOf_eq · h), ?_, fun f hf hd => ?_⟩
  case refine_1 =>
    have hl : minInt64 / hourNs ≤ ts / hourNs := Int.ediv_le_ediv (by decide) h.1
    have hr : ts / hourNs ≤ maxInt64 / hourNs := Int.ediv_le_ediv (by decide) h.2
    rw [hourOf_eq_ediv h]
    refine ⟨_, _, .of_exact (hourBounds_eq · hl hr), fun x => ?_⟩
    rw [max_le_iff, le_min_iff, and_and_and_comm, mem_hour, Fits, and_congr_right_iff]
    exact fun hx => by rw [hourOf_eq_ediv hx]
  case refine_2 =>
    have hts := Int.ediv_mul_le ts hf.ne'
    have hlt := Int.lt_ediv_add_one_mul_self ts hf
    rw [Int.add_mul, Int.one_mul] at hlt
    refine ⟨ts / f * f, ⟨Int.dvd_mul_left .., hts, hlt⟩, ?_, .of_exact (periodOf_eq · h hf hd),
      fun hs he => ?_⟩
    · rintro s ⟨k, rfl⟩ hle hlt
      have hk : ts / f = k :=
        ediv_eq_of_mem hf (by rwa [Int.mul_comm]) (by rwa [Int.mul_comm])
      rw [hk, Int.mul_comm]
    · have hin (x) (hl : ts / f * f ≤ x) (hr : x < ts / f * f + f) :
          Tracepack.hourOf x = Tracepack.hourOf ts := by
        have hx : Fits x := ⟨hs.1.trans hl, hr.le.trans he.2⟩
        rw [hourOf_eq_ediv hx, hourOf_eq_ediv h]
        exact period_hour hf hd hl hr
      have hfirst := hin _ le_rfl (by omega)
      have hlast := hin (ts / f * f + f - 1) (by omega) (by omega)
      refine ⟨hin, ?_⟩
      rw [← hfirst] at hlast ⊢
      exact .of_exact (periodHour_eq · hs he hf hlast)

-- The last hour of the words is cut short, and no period ends behind them.
theorem hours_exact_maxInt64 :
    hourOf checked maxInt64 = some 2562047 ∧
    (∃ a b, hourBounds checked 2562047 = some (a, b) ∧ a ≤ maxInt64 ∧ maxInt64 ≤ b) ∧
    periodOf checked maxInt64 hourNs = some none := by
  have h := hours_exact maxInt64 (by decide)
  obtain ⟨a, b, hb, hx⟩ := h.2.1
  obtain ⟨s, hs, -, hp, -⟩ := h.2.2 hourNs (by decide) (by decide)
  refine ⟨h.1.2, ⟨a, b, hb.2, (hx maxInt64).mpr ⟨by decide, rfl⟩⟩, ?_⟩
  rw [if_neg fun hf => absurd hf.2.2 (not_le.mpr hs.2.2)] at hp
  exact hp.2

end Tracepack.Hours
