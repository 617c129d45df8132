import ChatReactor.PercentileProofs

/-!
# The histogram that `save` writes

The loop is a run-length encoding of the lows of the samples (`Lib/RunLength`): for sorted samples `x < low + 5` says that
the low of `x` is still `low`. The only thing that can go wrong is `100 * sum`, an `int`.
-/

namespace ChatReactor.Percentile

open CheckedInt Decimal RunLength

/-- What the lines of buckets say: the low ends and the numbers of samples. -/
structure Histogram (latencies : List Int32) (buckets : List (Int × Nat)) : Prop where
  increasing : (buckets.map Prod.fst).Pairwise (· < ·)
  multiple : ∀ b ∈ buckets, kInterval ∣ b.1
  count_eq : ∀ b ∈ buckets, b.2 = latencies.countP (fun x => b.1 ≤ x.toInt ∧ x.toInt < b.1 + kInterval)
  covers : ∀ x ∈ latencies, ∃ b ∈ buckets, b.1 ≤ x.toInt ∧ x.toInt < b.1 + kInterval
  sum_eq : (buckets.map Prod.snd).sum = latencies.length

/-- The lines for some buckets behind `sum` samples. -/
def bucketLines (pt : PercentText) (total sum : Nat) : List (Int × Nat) → List (List UInt8)
  | [] => []
  | [(low, count)] => [bucketText low count (pt.f1 (100 * (sum + count : Nat)) total)]
  | (low, count) :: b :: bs =>
    bucketText low count (pt.f2 (100 * (sum + count : Nat)) total) :: bucketLines pt total (sum + count) (b :: bs)

/-! ## The low end of a sample -/

def low (x : Int) : Int := x / kInterval * kInterval

theorem lowOf_eq {x : Int} (h : 0 ≤ x) (h' : x ≤ 2147483647) : lowOf x = some (low x) := by
  rw [lowOf, div_bind (by decide) ⟨h, h'⟩, mul_eq]
  · rfl
  · unfold kInterval
    omega

theorem low_le (x : Int) : low x ≤ x ∧ x < low x + kInterval := by
  unfold low kInterval
  omega

theorem low_dvd (x : Int) : kInterval ∣ low x := Dvd.intro_left _ rfl

theorem low_nonneg {x : Int} (h : 0 ≤ x) : 0 ≤ low x := by
  unfold low kInterval
  omega

theorem low_mono {x y : Int} (h : x ≤ y) : low x ≤ low y := by
  unfold low kInterval
  omega

/-- The samples of a bucket are those with its low end. -/
theorem low_eq_iff {x b : Int} (h : kInterval ∣ b) : low x = b ↔ b ≤ x ∧ x < b + kInterval := by
  unfold kInterval at h
  unfold low kInterval
  omega

/-! ## The lines -/

section
variable {pt : PercentText} {total : Nat}

theorem bufLine_eq {text : List UInt8} (h : text.length < 64) : bufLine text = some text := by
  rw [bufLine, check_of h]
  rfl

theorem length_bucketText_lt {l : Int} {count : Nat} {percent : List UInt8} (hl : 0 ≤ l ∧ l ≤ 2147483647)
    (hcount : count ≤ 21474836) (hpercent : percent.length ≤ 6) : (bucketText l count percent).length < 64 := by
  have hlow := length_decimal_le (v := l) (k := 10) (by decide) (by omega)
  have hdecimal := length_decimal_le (v := count) (k := 10) (by decide) (by omega)
  simp only [bucketText, List.length_append, List.length_cons, length_padded, List.length_nil]
  omega

theorem bucketLines_cons (sum : Nat) (b : Int × Nat) {bs : List (Int × Nat)} (hne : bs ≠ []) :
    bucketLines pt total sum (b :: bs) =
      bucketText b.1 b.2 (pt.f2 (100 * (sum + b.2 : Nat)) total) :: bucketLines pt total (sum + b.2) bs := by
  cases bs with
  | nil => exact absurd rfl hne
  | cons b' bs => rfl

/-- The last line of `total` samples. -/
theorem saveLast_eq {l : Int} {count sum : Nat} (hl : 0 ≤ l ∧ l ≤ 2147483647) (hsum : sum + count = total)
    (htotal : total ≤ 21474836) :
    saveLast pt total l count sum = some (bucketText l count (pt.f1 (100 * (sum + count : Nat)) total)) := by
  have hpercent := pt.f1_le (100 * (sum + count : Nat)) total (by omega) (by omega)
  rw [saveLast, add_bind (by omega), check_of (by omega), Option.bind_eq_bind, Option.bind_some, mul_bind (by omega),
    ← Int.natCast_add, bufLine_eq (length_bucketText_lt hl (by omega) hpercent)]

/-- The loop and the last line are the lines of the runs of lows. -/
theorem saveLoop_spec (pt : PercentText) (xs : List Int32) (hsorted : xs.Pairwise (· ≤ ·))
    (hrange : ∀ x ∈ xs, x.toInt < 2147483642) {l : Int} (hl : 0 ≤ l ∧ l ≤ 2147483647) (hdvd : kInterval ∣ l)
    (hle : ∀ x ∈ xs, l ≤ x.toInt) {count sum : Nat} (hsum : sum + count + xs.length = total) (htotal : total ≤ 21474836) :
    ∃ lines l' count' sum' last, saveLoop pt total l count sum xs = some (lines, l', count', sum') ∧
      saveLast pt total l' count' sum' = some last ∧
      lines ++ [last] = bucketLines pt total sum (runsFrom l count (xs.map fun x => low x.toInt)) := by
  induction xs generalizing l count sum with
  | nil => exact ⟨[], l, count, sum, _, rfl, saveLast_eq hl hsum htotal, rfl⟩
  | cons x xs ih =>
    obtain ⟨hx, hxs⟩ := List.pairwise_cons.1 hsorted
    have hlx := hle x List.mem_cons_self
    have hxr := hrange x List.mem_cons_self
    have hrest : ∀ y ∈ xs, y.toInt < 2147483642 := fun y hy => hrange y (List.mem_cons_of_mem x hy)
    rw [List.length_cons] at hsum
    have hint : (5 : Int) = kInterval := rfl
    rw [saveLoop, add_bind (by omega), List.map_cons, runsFrom]
    by_cases hlt : x.toInt < l + kInterval
    · have hle' : ∀ y ∈ xs, l ≤ y.toInt := fun y hy => hle y (List.mem_cons_of_mem x hy)
      rw [if_pos hlt, if_pos ((low_eq_iff hdvd).2 ⟨hlx, hlt⟩), add_bind (by omega), ← Int.natCast_succ]
      exact ih hxs hrest hl hdvd hle' (by omega)
    · have hnonneg : 0 ≤ x.toInt := by omega
      have hlow := low_le x.toInt
      have hpercent := pt.f2_le (100 * (sum + count : Nat)) total (by omega) (by omega)
      have hle' : ∀ y ∈ xs, low x.toInt ≤ y.toInt := fun y hy => hlow.1.trans (Int32.le_iff_toInt_le.1 (hx y hy))
      have hsum' : sum + count + 1 + xs.length = total := by omega
      obtain ⟨lines, l', count', sum', last, hloop, hlast, hlines⟩ :=
        ih hxs hrest ⟨low_nonneg hnonneg, by omega⟩ (low_dvd _) hle' hsum'
      rw [Int.natCast_one] at hloop
      have hkey : low x.toInt ≠ l := fun h => hlt ((low_eq_iff hdvd).1 h).2
      rw [if_neg hlt, if_neg hkey, add_bind (by omega), mul_bind (by omega), ← Int.natCast_add,
        bind_of_eq_some (bufLine_eq (length_bucketText_lt hl (by omega) hpercent)),
        bind_of_eq_some (lowOf_eq hnonneg (by omega)), add_bind (by omega), bind_of_eq_some (check_of hlow.2),
        bind_of_eq_some hloop]
      refine ⟨_, l', count', sum', last, rfl, hlast, ?_⟩
      rw [bucketLines_cons _ _ (runsFrom_ne_nil _ _ _), ← hlines, List.cons_append]

theorem mapM_debugText (xs : List Int32) : (xs.mapM fun x => bufLine (debugText x)) = some (xs.map debugText) := by
  induction xs with
  | nil => rfl
  | cons x xs ih =>
    have hfits := fits_toInt x
    have hdecimal := length_decimal_le (v := x.toInt) (k := 10) (by decide) (by have := hfits.1; have := hfits.2; omega)
    have hline : (debugText x).length < 64 := by
      have htwo : (bytesOf "# ").length = 2 := by decide
      simp only [debugText, List.length_append, htwo, List.length_cons, List.length_nil]
      omega
    rw [List.mapM_cons, bind_of_eq_some (bufLine_eq hline), bind_of_eq_some ih]
    rfl

/-- The buckets of some samples. -/
def buckets (latencies : List Int32) : List (Int × Nat) :=
  runsFrom (low (latencies.headD 0).toInt) 0 (latencies.map fun x => low x.toInt)

/-- Everything `save` writes for the buckets. -/
def saved (pt : PercentText) (stat : LogStream) (latencies : List Int32) (buckets : List (Int × Nat)) : List (List UInt8) :=
  [bytesOf "# ", stat.buffer.toString, bytesOf "\n"] ++ latencies.map debugText ++ bucketLines pt latencies.length 0 buckets

variable {stat : LogStream} {latencies : List Int32}

theorem save_eq (hne : latencies ≠ []) (hsorted : latencies.Pairwise (· ≤ ·))
    (hrange : ∀ x ∈ latencies, 0 ≤ x.toInt ∧ x.toInt < 2147483642) (htotal : latencies.length ≤ 21474836) :
    save pt stat latencies = some (saved pt stat latencies (buckets latencies)) := by
  cases latencies with
  | nil => exact absurd rfl hne
  | cons x xs =>
    obtain ⟨hnonneg, hlt⟩ := hrange x List.mem_cons_self
    have hlow := low_le x.toInt
    have hle : ∀ y ∈ x :: xs, low x.toInt ≤ y.toInt := by
      refine List.forall_mem_cons.2 ⟨hlow.1, fun y hy => hlow.1.trans ?_⟩
      exact Int32.le_iff_toInt_le.1 ((List.pairwise_cons.1 hsorted).1 y hy)
    have hzero : 0 + 0 + (x :: xs).length = (x :: xs).length := by omega
    obtain ⟨lines, l, count, sum, last, hloop, hlast, hlines⟩ := saveLoop_spec pt (x :: xs) hsorted
      (fun y hy => (hrange y hy).2) ⟨low_nonneg hnonneg, by omega⟩ (low_dvd _) hle hzero htotal
    rw [Int.natCast_zero] at hloop
    rw [save, bind_of_eq_some (lowOf_eq hnonneg (by omega)), bind_of_eq_some (mapM_debugText _), bind_of_eq_some hloop]
    dsimp only
    rw [bind_of_eq_some hlast, saved, buckets, List.headD_cons, ← hlines, List.append_assoc]
    rfl

/-- The runs of lows are a histogram. -/
theorem histogram_buckets (hne : latencies ≠ []) (hsorted : latencies.Pairwise (· ≤ ·)) :
    Histogram latencies (buckets latencies) := by
  have hfirst : ∃ x ∈ latencies, (latencies.headD 0) = x ∧ ∀ y ∈ latencies, x ≤ y := by
    cases latencies with
    | nil => exact absurd rfl hne
    | cons x xs =>
      exact ⟨x, List.mem_cons_self, rfl, List.forall_mem_cons.2 ⟨Int32.le_refl x, (List.pairwise_cons.1 hsorted).1⟩⟩
  obtain ⟨first, hmem, hhead, hmin⟩ := hfirst
  have hlow : ∀ {x y : Int32}, x ≤ y → low x.toInt ≤ low y.toInt := fun h => low_mono (Int32.le_iff_toInt_le.1 h)
  have hkeys : (low first.toInt :: latencies.map fun x => low x.toInt).Pairwise (· ≤ ·) := by
    refine List.pairwise_cons.2 ⟨fun key hkey => ?_, List.pairwise_map.2 (hsorted.imp hlow)⟩
    obtain ⟨x, hx, rfl⟩ := List.mem_map.1 hkey
    exact hlow (hmin x hx)
  have hmultiple : ∀ b ∈ buckets latencies, kInterval ∣ b.1 := by
    intro b hb
    obtain heq | hkey := mem_runsFrom hb
    · exact heq ▸ low_dvd _
    · obtain ⟨x, -, hx⟩ := List.mem_map.1 hkey
      exact hx ▸ low_dvd _
  rw [buckets, hhead] at hmultiple ⊢
  refine ⟨runsFrom_increasing hkeys, hmultiple, fun b hb => ?_, fun x hx => ?_, ?_⟩
  · have hcount := count_runsFrom hkeys hb
    rw [← hcount, List.replicate_zero, List.nil_append, List.count_eq_countP, List.countP_map]
    refine List.countP_congr fun x _ => ?_
    simpa using low_eq_iff (hmultiple b hb)
  · have hmemKey : low x.toInt ∈ latencies.map fun x => low x.toInt := List.mem_map_of_mem hx
    obtain ⟨b, hb, hkey⟩ := exists_run hmemKey
    exact ⟨b, hb, hkey ▸ low_le _⟩
  · rw [sum_runsFrom, Nat.zero_add, List.length_map]

/-! ## Too many samples -/

theorem length_le_of_save {chunks : List (List UInt8)} (hne : latencies ≠ [])
    (h : save pt stat latencies = some chunks) : latencies.length ≤ 21474836 := by
  cases latencies with
  | nil => exact absurd rfl hne
  | cons x xs =>
    simp only [save, saveLast, Option.bind_eq_bind, Option.bind_eq_some_iff, check_eq_some] at h
    obtain ⟨l, -, debug, -, ⟨lines, l', count, sum⟩, hloop, last, ⟨sum', -, _, hsum, hundred, hmul, -⟩, -⟩ := h
    obtain ⟨hfits, -⟩ := int_eq_some_iff.1 hmul
    have := hfits.2
    omega

/-- **The histogram.** For sorted samples, `save` writes the lines of the buckets of the samples, exactly if there are not
too many of them for `100 * sum`. -/
theorem save_iff (pt : PercentText) (stat : LogStream) (hne : latencies ≠ []) (hsorted : latencies.Pairwise (· ≤ ·))
    (hrange : ∀ x ∈ latencies, 0 ≤ x.toInt ∧ x.toInt < 2147483642) :
    (∃ buckets, Histogram latencies buckets ∧ save pt stat latencies = some (saved pt stat latencies buckets)) ↔
      latencies.length ≤ 21474836 := by
  constructor
  · rintro ⟨buckets, -, hsave⟩
    exact length_le_of_save hne hsave
  · intro htotal
    exact ⟨buckets latencies, histogram_buckets hne hsorted, save_eq hne hsorted hrange htotal⟩

/-- One bucket takes no more samples than `count` can count. -/
theorem saveLoop_replicate_zero {sum : Int} (k : Nat) {count : Int} (hcount : 0 ≤ count ∧ count ≤ 2147483647)
    (h : 2147483647 < count + k) : saveLoop pt total 0 count sum (List.replicate k 0) = none := by
  induction k generalizing count with
  | zero => omega
  | succ k ih =>
    have hzero : (0 : Int32).toInt < 0 + kInterval := by decide
    rw [List.replicate_succ, saveLoop, add_bind (by decide), if_pos hzero]
    by_cases hfits : count + 1 ≤ 2147483647
    · rw [add_bind (by omega)]
      exact ih (by omega) (by omega)
    · rw [add_eq_none (by omega)]
      rfl

end

theorem length_integral_le (x : Int) (n : Nat) (h : 0 ≤ x) (hle : x ≤ 100 * n) : (padded 5 (x / n)).length ≤ 6 := by
  have hnonneg : 0 ≤ x / n := Int.ediv_nonneg h (Int.natCast_nonneg n)
  have hquot : x / n ≤ 100 := by
    obtain rfl | hpos := Nat.eq_zero_or_pos n
    · rw [Int.natCast_zero, Int.ediv_zero]
      decide
    · exact Int.ediv_le_of_le_mul (by omega) hle
  have hlen := length_decimal_le (v := x / n) (k := 3) (by decide) (by omega)
  rw [length_padded]
  omega

/-- Percents without their fractions. -/
def integralPercents : PercentText := ⟨fun x n => padded 5 (x / n), fun x n => padded 5 (x / n), length_integral_le,
  length_integral_le⟩

/-- Four samples, in three buckets. -/
theorem save_iff_four : ∃ buckets, Histogram [3, 4, 12, 30] buckets ∧
    save integralPercents (LogStream.new fun _ => 0) [3, 4, 12, 30] =
      some (saved integralPercents (LogStream.new fun _ => 0) [3, 4, 12, 30] buckets) := by
  have hrange : ∀ x ∈ ([3, 4, 12, 30] : List Int32), 0 ≤ x.toInt ∧ x.toInt < 2147483642 := by
    simp only [List.forall_mem_cons, List.not_mem_nil, false_implies, implies_true]
    decide
  exact (save_iff integralPercents (LogStream.new fun _ => 0) (List.cons_ne_nil 3 [4, 12, 30]) (by decide) hrange).2
    (by decide)

/-- 2147483648 samples of 0 µs: the last one is too much for `count`. -/
theorem count_overflows :
    saveLoop integralPercents (2 ^ 31) 0 0 0 (List.replicate (2 ^ 31) 0) = none ∧
      save integralPercents (LogStream.new fun _ => 0) (List.replicate (2 ^ 31) 0) = none := by
  refine ⟨saveLoop_replicate_zero (2 ^ 31) (by decide) (by decide), ?_⟩
  refine Option.eq_none_iff_forall_ne_some.2 fun chunks hsave => ?_
  have hlen := length_le_of_save (List.ne_nil_of_length_pos (by rw [List.length_replicate]; decide)) hsave
  rw [List.length_replicate] at hlen
  exact absurd hlen (by decide)

end ChatReactor.Percentile
