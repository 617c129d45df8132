import Mathlib.Algebra.Order.BigOperators.Group.List
import Mathlib.Data.List.Pairwise
import ChatReactor.Percentile

/-!
# The values of a report and the lines of the histogram

`getPercentile` is the nearest rank of a sorted vector (`getPercentile_nearest`). The mean is exact as long as the sum and
the number of samples fit an `int` (`mean_iff`).
-/

namespace ChatReactor.Percentile

open CheckedInt Decimal BoundedLog

/-! ## Ranks -/

section
variable {latencies : List Int32} {percent : Int}

/-- Without overflow the index is the quotient rounded up, less one. -/
theorem index_spec {size : Nat} (hpercent : 0 < percent) (hsize : 0 < size) (hfits : size * percent.toNat + 99 < 2 ^ 64) :
    100 * index size percent < size * percent.toNat ∧ size * percent.toNat ≤ 100 * (index size percent + 1) := by
  have hpos : 0 < size * percent.toNat := Nat.mul_pos hsize (by omega)
  unfold index
  omega

theorem index_lt {size : Nat} (hpercent : 0 < percent) (hle : percent ≤ 100) (hsize : 0 < size)
    (hfits : size * percent.toNat + 99 < 2 ^ 64) : index size percent < size := by
  obtain ⟨hlt, -⟩ := index_spec hpercent hsize hfits
  have hmul : size * percent.toNat ≤ size * 100 := Nat.mul_le_mul_left size (by omega)
  omega

theorem getPercentile_eq (hpercent : 0 < percent) (hsize : 0 < latencies.length) :
    getPercentile latencies percent = latencies[index latencies.length percent]? := by
  by_cases hlt : index latencies.length percent < latencies.length
  · simp [getPercentile, hpercent, hsize, hlt]
  · simp [getPercentile, hpercent, hsize, check, hlt]

theorem getPercentile_defined_iff (hpercent : 0 < percent) (hsize : 0 < latencies.length) :
    (∃ v, getPercentile latencies percent = some v) ↔ index latencies.length percent < latencies.length := by
  rw [getPercentile_eq hpercent hsize]
  exact ⟨fun ⟨_, hv⟩ => (List.getElem?_eq_some_iff.1 hv).1, fun hlt => ⟨_, List.getElem?_eq_getElem hlt⟩⟩

/-- **Nearest rank.** The index is in range, and the sample there is the smallest that `percent` of the samples do not
exceed. -/
theorem getPercentile_nearest (hne : latencies ≠ []) (hsorted : latencies.Pairwise (· ≤ ·)) (hpercent : 1 ≤ percent)
    (hle : percent ≤ 100) (hfits : latencies.length * percent.toNat + 99 < 2 ^ 64) :
    index latencies.length percent < latencies.length ∧
      ∃ v ∈ latencies, getPercentile latencies percent = some v ∧
        percent * latencies.length ≤ 100 * latencies.countP (· ≤ v) ∧
        ∀ w ∈ latencies, percent * latencies.length ≤ 100 * latencies.countP (· ≤ w) → v ≤ w := by
  have hsize : 0 < latencies.length := List.length_pos_of_ne_nil hne
  have hpos : 0 < percent := by omega
  have hindex := index_lt hpos hle hsize hfits
  obtain ⟨hlow, hhigh⟩ := index_spec hpos hsize hfits
  have hcast : percent * latencies.length = ((latencies.length * percent.toNat : Nat) : Int) := by
    rw [Int.natCast_mul, Int.toNat_of_nonneg (by omega), Int.mul_comm]
  rw [getPercentile_eq hpos hsize]
  generalize index latencies.length percent = i at hindex hlow hhigh ⊢
  refine ⟨hindex, latencies[i], List.getElem_mem hindex, List.getElem?_eq_getElem hindex, ?_, ?_⟩
  · have hcount := NearestRank.lt_countP_getElem Int32.le_refl hsorted hindex
    rw [hcast]
    omega
  · intro w _ hw
    rw [hcast] at hw
    exact NearestRank.getElem_le_of_lt_countP Int32.le_refl Int32.le_trans hsorted hindex (by omega)

/-- The 50th percentile of four samples is the second of them. -/
theorem getPercentile_nearest_four :
    getPercentile [3, 5, 5, 8] 50 = some 5 ∧ ∃ v ∈ ([3, 5, 5, 8] : List Int32), getPercentile [3, 5, 5, 8] 50 = some v ∧
      (50 : Int) * 4 ≤ 100 * ([3, 5, 5, 8] : List Int32).countP (· ≤ v) := by
  refine ⟨by decide, ?_⟩
  have hfits : ([3, 5, 5, 8] : List Int32).length * (50 : Int).toNat + 99 < 2 ^ 64 := by decide
  obtain ⟨-, v, hmem, hget, hcount, -⟩ :=
    getPercentile_nearest (List.cons_ne_nil _ _) (by decide) (by decide) (by decide) hfits
  exact ⟨v, hmem, hget, hcount⟩

end

/-! ## The sum -/

/-- The samples below zero, summed. -/
def negativeSum (xs : List Int) : Int := (xs.filter (· < 0)).sum

theorem negativeSum_nonpos (xs : List Int) : negativeSum xs ≤ 0 := by
  have hneg : ∀ x ∈ xs.filter (· < 0), x ≤ 0 := fun x hx => Int.le_of_lt (by simpa using List.of_mem_filter hx)
  rw [negativeSum]
  simpa using List.sum_le_card_nsmul _ 0 hneg

theorem negativeSum_eq_zero {xs : List Int} (h : ∀ x ∈ xs, 0 ≤ x) : negativeSum xs = 0 := by
  have hnone : xs.filter (· < 0) = [] := List.filter_eq_nil_iff.2 fun x hx => by simpa using h x hx
  rw [negativeSum, hnone, List.sum_nil]

theorem negativeSum_le_sum (xs : List Int) : negativeSum xs ≤ xs.sum := by
  induction xs with
  | nil => exact Int.le_refl 0
  | cons x xs ih =>
    rw [negativeSum] at ih ⊢
    by_cases hneg : x < 0
    · rw [List.filter_cons_of_pos (by simpa using hneg), List.sum_cons, List.sum_cons]
      omega
    · rw [List.filter_cons_of_neg (by simpa using hneg), List.sum_cons]
      omega

/-- Over a sorted vector the partial sums fall as long as the samples are negative, and rise from there. -/
theorem foldlM_add_sorted (xs : List Int) (hsorted : xs.Pairwise (· ≤ ·)) {s : Int} (hs : Fits s) :
    xs.foldlM add s = if -2147483648 ≤ s + negativeSum xs ∧ s + xs.sum ≤ 2147483647 then some (s + xs.sum) else none := by
  induction xs generalizing s with
  | nil =>
    rw [List.foldlM_nil, negativeSum_eq_zero (List.forall_mem_nil _), List.sum_nil, Int.add_zero]
    exact (if_pos hs).symm
  | cons x xs ih =>
    obtain ⟨hx, hxs⟩ := List.pairwise_cons.1 hsorted
    have hs₁ := hs.1
    have hs₂ := hs.2
    rw [List.foldlM_cons, List.sum_cons, ← Int.add_assoc]
    by_cases hneg : x < 0
    · have hsum : s + negativeSum (x :: xs) = s + x + negativeSum xs := by
        rw [negativeSum, List.filter_cons_of_pos (by simpa using hneg), List.sum_cons, negativeSum, Int.add_assoc]
      have hle := negativeSum_nonpos xs
      rw [hsum]
      by_cases hfits : -2147483648 ≤ s + x
      · have hs' : Fits (s + x) := ⟨hfits, by omega⟩
        rw [add_bind hs', ih hxs hs']
      · rw [add_eq_none (by omega), if_neg (by omega)]
        rfl
    · have hnonneg : ∀ y ∈ xs, 0 ≤ y := fun y hy => (Int.not_lt.1 hneg).trans (hx y hy)
      have hsum : 0 ≤ xs.sum := List.sum_nonneg hnonneg
      rw [negativeSum_eq_zero (List.forall_mem_cons.2 ⟨Int.not_lt.1 hneg, hnonneg⟩)]
      by_cases hfits : s + x ≤ 2147483647
      · have hs' : Fits (s + x) := ⟨by omega, hfits⟩
        rw [add_bind hs', ih hxs hs', negativeSum_eq_zero hnonneg]
        simp only [Int.add_zero, hs₁, hs'.1]
      · rw [add_eq_none (by omega), if_neg (by omega)]
        rfl

/-! ## The mean -/

/-- The exact sum and the quotient by an exact length. -/
def exactSum (latencies : List Int32) : Int := (latencies.map Int32.toInt).sum

variable {latencies : List Int32}

theorem accumulate_eq (hsorted : latencies.Pairwise (· ≤ ·)) :
    accumulate latencies =
      if -2147483648 ≤ negativeSum (latencies.map Int32.toInt) ∧ exactSum latencies ≤ 2147483647 then
        some (exactSum latencies)
      else none := by
  have hpairwise : (latencies.map Int32.toInt).Pairwise (· ≤ ·) :=
    List.pairwise_map.2 (hsorted.imp fun h => Int32.le_iff_toInt_le.1 h)
  have hfold := foldlM_add_sorted _ hpairwise (show Fits 0 by decide)
  rw [Int.zero_add, Int.zero_add, List.foldlM_map] at hfold
  exact hfold

/-- A truncated mean is between bounds of the samples. -/
theorem tdiv_between {xs : List Int} {lo hi : Int} (hne : xs ≠ []) (hlo : ∀ x ∈ xs, lo ≤ x) (hhi : ∀ x ∈ xs, x ≤ hi) :
    lo ≤ xs.sum.tdiv xs.length ∧ xs.sum.tdiv xs.length ≤ hi := by
  have hpos : (0 : Int) < xs.length := Int.natCast_pos.2 (List.length_pos_of_ne_nil hne)
  have hcancel : ∀ y : Int, (xs.length • y).tdiv xs.length = y := fun y => by
    rw [nsmul_eq_mul, Int.mul_tdiv_cancel_left _ hpos.ne']
  constructor
  · rw [← hcancel lo]
    exact Int.tdiv_le_tdiv hpos (List.card_nsmul_le_sum _ _ hlo)
  · rw [← hcancel hi]
    exact Int.tdiv_le_tdiv hpos (List.sum_le_card_nsmul _ _ hhi)

theorem tdiv_eq_zero_iff {s d : Int} (hd : d ≠ 0) : s.tdiv d = 0 ↔ s.natAbs < d.natAbs := by
  rw [← Int.natAbs_eq_zero, Int.natAbs_tdiv]
  exact Nat.div_eq_zero_iff_lt (Int.natAbs_pos.2 hd)

/-- A length that is no `int` is replaced by the `int` it is congruent to. The quotient stays the same only if that is still
larger than the sum. -/
theorem div_toInt_iff {s : Int} {n : Nat} (hs : Fits s) (hquot : Fits (s.tdiv n)) (hn : 0 < n) :
    div s (toInt n) = some (s.tdiv n) ↔ n ≤ 2147483647 ∨ s.natAbs < (toInt n).natAbs := by
  by_cases hle : n ≤ 2147483647
  · refine iff_of_true ?_ (.inl hle)
    rw [toInt_eq (by omega)]
    exact div_eq_some_iff.2 ⟨by omega, hquot, rfl⟩
  · have hcast : (toInt n).natAbs ≤ 2147483648 ∧ (n = 2147483648 → toInt n = -2147483648) := by
      unfold toInt
      omega
    have hs₁ := hs.1
    have hs₂ := hs.2
    have hn' : (n : Int) ≠ 0 := by omega
    constructor
    · intro hdiv
      obtain ⟨hzero, -, heq⟩ := div_eq_some_iff.1 hdiv
      refine .inr ((tdiv_eq_zero_iff hzero).1 (heq.trans ((tdiv_eq_zero_iff hn').2 ?_)))
      -- the exact quotient is zero, or else -1, and then the other one is 1
      by_contra hge
      have hsum : s = -2147483648 := by omega
      have hlen : n = 2147483648 := by omega
      rw [hcast.2 hlen, hsum, hlen] at heq
      exact absurd heq (by decide)
    · rintro (h | hlt)
      · exact absurd h hle
      · have hzero : toInt n ≠ 0 := by
          intro h
          rw [h] at hlt
          exact Nat.not_lt_zero _ hlt
        have hboth : s.tdiv (toInt n) = s.tdiv n := by
          rw [(tdiv_eq_zero_iff hzero).2 hlt, (tdiv_eq_zero_iff hn').2 (by omega)]
        exact div_eq_some_iff.2 ⟨hzero, by rwa [hboth], hboth⟩

/-! ## The report -/

theorem insertFmt_shows {s : LogStream} {l : Log UInt8 kSmallBuffer} (h : s.Shows l) {text : List UInt8}
    (hlen : text.length < 32) : ∃ s', s.insertFmt text = some s' ∧ s'.Shows (l.offer (whole text)) := by
  obtain ⟨s', hs', hshows⟩ := LogStream.append_ofNat_shows h (Nat.le_refl text.length) (by omega)
  rw [List.take_length] at hshows
  refine ⟨s', ?_, hshows⟩
  rw [LogStream.insertFmt, check_of hlen]
  exact hs'

def Summary.text (s : Summary) : List UInt8 :=
  bytesOf " min " ++ decimal s.min.toInt ++ bytesOf " max " ++ decimal s.max.toInt ++ bytesOf " avg " ++
    decimal s.mean.toInt ++ bytesOf " median " ++ decimal s.median.toInt ++ bytesOf " p90 " ++ decimal s.p90.toInt ++
    bytesOf " p99 " ++ decimal s.p99.toInt

/-- The line that is reported for some latencies. -/
def report (size : Nat) (infly : Int32) (s : Summary) : List UInt8 :=
  bytesOf "recv " ++ sizeText size ++ bytesOf " in-fly " ++ decimal infly.toInt ++ s.text

def sort (latencies : List Int32) : List Int32 := latencies.mergeSort (fun a b => decide (a ≤ b))

section
variable {F D : Type} (pf : Printf F D) (data : Fin kSmallBuffer → UInt8)

theorem length_sizeText_lt (size : Nat) : (sizeText size).length < 32 := by
  have hbmod : ((size : Int).bmod (2 ^ 64)).natAbs < 10 ^ 20 := by
    rw [Int.bmod_def]
    split <;> omega
  have hdecimal := length_decimal_le (by decide) hbmod
  rw [sizeText, length_padded]
  omega

theorem literal_offer (str : String) : (literal str : Item F D).offer pf = whole (cString (bytesOf str)) := rfl

/-- The stream has room for the whole report: it is sixteen insertions of at most 32 bytes. -/
theorem report_taken {size : List UInt8} (hsize : size.length < 32) (infly : Int32) (s : Summary) :
    (LogStream.emptyLog.offers ((literal "recv " : Item F D).offer pf :: whole size ::
      ([literal " in-fly ", .int infly] ++ s.items).map (Item.offer pf))).content =
        bytesOf "recv " ++ size ++ bytesOf " in-fly " ++ decimal infly.toInt ++ s.text := by
  have hliterals : ∀ str ∈ ["recv ", " in-fly ", " min ", " max ", " avg ", " median ", " p90 ", " p99 "],
      cString (bytesOf str) = bytesOf str ∧ (bytesOf str).length < 32 := by decide
  simp only [List.forall_mem_cons] at hliterals
  have hint : ∀ v : Int32, ((.int v : Item F D).offer pf).need = 32 ∧ ((.int v : Item F D).offer pf).text = decimal v.toInt :=
    fun _ => ⟨rfl, rfl⟩
  rw [Log.offers_all]
  · simp [Summary.items, Summary.text, literal_offer, hliterals, hint, LogStream.emptyLog]
  · simp only [Summary.items, literal_offer, hliterals, hint, LogStream.emptyLog, List.cons_append, List.nil_append,
      List.map_cons, List.map_nil, whole_need, List.sum_cons, List.sum_nil, List.length_nil, kSmallBuffer]
    omega

theorem new_eq (hne : latencies ≠ []) (infly : Int32) :
    ∃ stat : Summary → LogStream,
      new pf data latencies infly = (summary (sort latencies)).map (fun s => (stat s, sort latencies)) ∧
        ∀ s, (stat s).buffer.toString = report latencies.length infly s := by
  have hfmt := length_sizeText_lt latencies.length
  obtain ⟨s₁, hs₁, h₁⟩ := LogStream.shl_shows pf (LogStream.new_shows data) (literal "recv ")
  obtain ⟨s₂, hs₂, h₂⟩ := insertFmt_shows h₁ hfmt
  obtain ⟨s₃, hs₃, h₃⟩ := LogStream.insertAll_shows pf h₂ [literal " in-fly ", .int infly]
  choose stat hstat hshows using fun s : Summary => LogStream.insertAll_shows pf h₃ s.items
  refine ⟨stat, ?_, fun s => ?_⟩
  · rw [new, bind_of_eq_some hs₁, bind_of_eq_some hs₂, bind_of_eq_some hs₃, if_neg hne]
    simp only [hstat, Option.map_eq_bind]
    rfl
  · rw [hshows s, ← Log.offers_append, ← List.map_append]
    rw [report, ← report_taken pf hfmt infly s, Log.offers_cons, Log.offers_cons]

/-! ## The mean of a report -/

/-- The sum of the samples and of the negative ones are `int`s, the number of samples is one or does not matter, and the
percentiles are in range. -/
def MeanFits (latencies : List Int32) : Prop :=
  -2147483648 ≤ negativeSum (latencies.map Int32.toInt) ∧ exactSum latencies ≤ 2147483647 ∧
    (latencies.length ≤ 2147483647 ∨ (exactSum latencies).natAbs < (toInt latencies.length).natAbs) ∧
    ∀ percent ∈ [50, 90, 99], index latencies.length percent < latencies.length

instance (latencies : List Int32) : Decidable (MeanFits latencies) := inferInstanceAs (Decidable (_ ∧ _ ∧ _ ∧ _))

theorem toInt_ofInt_of_fits {x : Int} (h : Fits x) : (Int32.ofInt x).toInt = x := by
  have h₁ := h.1
  have h₂ := h.2
  exact Int32.toInt_ofInt_of_le (by omega) (by omega)

theorem fits_toInt (x : Int32) : Fits x.toInt := by
  have h₁ := x.le_toInt
  have h₂ := x.toInt_lt
  exact ⟨by omega, by omega⟩

/-- The first and the last of sorted samples bound their truncated mean. -/
theorem head_le_mean_le_getLast (hne : latencies ≠ []) (hsorted : latencies.Pairwise (· ≤ ·)) :
    (latencies.head hne).toInt ≤ (exactSum latencies).tdiv latencies.length ∧
      (exactSum latencies).tdiv latencies.length ≤ (latencies.getLast hne).toInt := by
  have hlo : ∀ x ∈ latencies.map Int32.toInt, (latencies.head hne).toInt ≤ x := by
    intro x hx
    obtain ⟨v, hv, rfl⟩ := List.mem_map.1 hx
    exact Int32.le_iff_toInt_le.1 (hsorted.rel_head_of_rel_head_head hv (Int32.le_refl _))
  have hhi : ∀ x ∈ latencies.map Int32.toInt, x ≤ (latencies.getLast hne).toInt := by
    intro x hx
    obtain ⟨v, hv, rfl⟩ := List.mem_map.1 hx
    exact Int32.le_iff_toInt_le.1 (hsorted.rel_getLast_of_rel_getLast_getLast hv (Int32.le_refl _))
  have hbetween := tdiv_between (by simpa using hne) hlo hhi
  rwa [List.length_map] at hbetween

/-- The summary of sorted latencies has the exact mean. -/
theorem summary_iff (hne : latencies ≠ []) (hsorted : latencies.Pairwise (· ≤ ·)) :
    (∃ s, summary latencies = some s ∧ s.min ≤ s.mean ∧ s.mean ≤ s.max ∧
        s.mean.toInt = (exactSum latencies).tdiv latencies.length) ↔ MeanFits latencies := by
  have hpos : 0 < latencies.length := List.length_pos_of_ne_nil hne
  obtain ⟨hlo, hhi⟩ := head_le_mean_le_getLast hne hsorted
  have hquot : Fits ((exactSum latencies).tdiv latencies.length) :=
    ⟨(fits_toInt _).1.trans hlo, hhi.trans (fits_toInt _).2⟩
  have hfits : -2147483648 ≤ negativeSum (latencies.map Int32.toInt) → exactSum latencies ≤ 2147483647 →
      Fits (exactSum latencies) := fun hneg hle => ⟨hneg.trans (negativeSum_le_sum _), hle⟩
  constructor
  · rintro ⟨s, hs, -, -, hmean⟩
    rw [summary, Option.bind_eq_bind, Option.bind_eq_bind] at hs
    simp only [Option.bind_eq_some_iff] at hs
    obtain ⟨min, -, max, -, sum, hsum, mean, hdiv, median, hmedian, p90, hp90, p99, hp99, hpure⟩ := hs
    cases hpure
    rw [accumulate_eq hsorted, Option.ite_none_right_eq_some] at hsum
    obtain ⟨⟨hneg, hle⟩, ⟨⟩⟩ := hsum
    have hmeanFits : Fits mean := by
      obtain ⟨-, hfits, rfl⟩ := div_eq_some_iff.1 hdiv
      exact hfits
    rw [toInt_ofInt_of_fits hmeanFits] at hmean
    refine ⟨hneg, hle, (div_toInt_iff (hfits hneg hle) hquot hpos).1 (hmean ▸ hdiv), ?_⟩
    simp only [List.forall_mem_cons, List.not_mem_nil, false_implies, implies_true, and_true]
    exact ⟨(getPercentile_defined_iff (by decide) hpos).1 ⟨_, hmedian⟩,
      (getPercentile_defined_iff (by decide) hpos).1 ⟨_, hp90⟩, (getPercentile_defined_iff (by decide) hpos).1 ⟨_, hp99⟩⟩
  · rintro ⟨hneg, hle, hlen, hrange⟩
    obtain ⟨median, hmedian⟩ := (getPercentile_defined_iff (by decide) hpos).2 (hrange 50 (by decide))
    obtain ⟨p90, hp90⟩ := (getPercentile_defined_iff (by decide) hpos).2 (hrange 90 (by decide))
    obtain ⟨p99, hp99⟩ := (getPercentile_defined_iff (by decide) hpos).2 (hrange 99 (by decide))
    have hsum : accumulate latencies = some (exactSum latencies) := by rw [accumulate_eq hsorted, if_pos ⟨hneg, hle⟩]
    have hdiv := (div_toInt_iff (hfits hneg hle) hquot hpos).2 hlen
    have hmean := toInt_ofInt_of_fits hquot
    refine ⟨⟨latencies.head hne, latencies.getLast hne, Int32.ofInt ((exactSum latencies).tdiv latencies.length), median,
      p90, p99⟩, ?_, ?_, ?_, hmean⟩
    · rw [summary, bind_of_eq_some (List.head?_eq_some_head hne), bind_of_eq_some (List.getLast?_eq_some_getLast hne),
        bind_of_eq_some hsum, bind_of_eq_some hdiv, bind_of_eq_some hmedian, bind_of_eq_some hp90, bind_of_eq_some hp99]
      rfl
    · exact Int32.le_iff_toInt_le.2 (hmean.symm ▸ hlo)
    · exact Int32.le_iff_toInt_le.2 (hmean.symm ▸ hhi)

theorem sort_perm (latencies : List Int32) : (sort latencies).Perm latencies := List.mergeSort_perm _ _

theorem sort_sorted (latencies : List Int32) : (sort latencies).Pairwise (· ≤ ·) := by
  have htrans : ∀ a b c : Int32, decide (a ≤ b) = true → decide (b ≤ c) = true → decide (a ≤ c) = true := by
    simpa using fun a b c => @Int32.le_trans a b c
  have htotal : ∀ a b : Int32, (decide (a ≤ b) || decide (b ≤ a)) = true := by
    simpa using Int32.le_total
  rw [sort]
  simpa using List.pairwise_mergeSort htrans htotal latencies

theorem meanFits_perm {l l' : List Int32} (h : l.Perm l') : MeanFits l ↔ MeanFits l' := by
  have hmap := h.map Int32.toInt
  have hneg : negativeSum (l.map Int32.toInt) = negativeSum (l'.map Int32.toInt) := (hmap.filter _).sum_eq
  have hsum : exactSum l = exactSum l' := hmap.sum_eq
  rw [MeanFits, MeanFits, hneg, hsum, h.length_eq]

/-- **The mean of a report** is the truncated quotient of the exact sum by the number of samples, between the minimum and the
maximum, exactly if the computation does not leave `int`. -/
theorem mean_iff {latencies : List Int32} (hne : latencies ≠ []) (infly : Int32) :
    (∃ stat sorted s, new pf data latencies infly = some (stat, sorted) ∧ summary sorted = some s ∧
        stat.buffer.toString = report latencies.length infly s ∧ s.min ≤ s.mean ∧ s.mean ≤ s.max ∧
        s.mean.toInt = (exactSum latencies).tdiv latencies.length) ↔ MeanFits latencies := by
  obtain ⟨stat, hnew, htext⟩ := new_eq pf data hne infly
  have hperm := sort_perm latencies
  have hsum : exactSum (sort latencies) = exactSum latencies := (hperm.map Int32.toInt).sum_eq
  rw [← meanFits_perm hperm, ← summary_iff (fun h => hne (List.perm_nil.1 (h ▸ hperm.symm))) (sort_sorted latencies), hsum,
    hperm.length_eq, hnew]
  constructor
  · rintro ⟨stat', sorted, s, hmap, hs, -, hmean⟩
    obtain ⟨s', -, hpair⟩ := Option.map_eq_some_iff.1 hmap
    cases hpair
    exact ⟨s, hs, hmean⟩
  · rintro ⟨s, hs, hmean⟩
    exact ⟨stat s, sort latencies, s, by rw [hs, Option.map_some], hs, htext s, hmean⟩

end

/-- Three samples with the sum 19. -/
theorem mean_iff_three :
    ∃ stat sorted s, new noDoubles (fun _ => 0) [7, 4, 8] 0 = some (stat, sorted) ∧ summary sorted = some s ∧
      stat.buffer.toString = report 3 0 s ∧ s.mean.toInt = 6 := by
  obtain ⟨stat, sorted, s, hnew, hs, htext, -, -, hmean⟩ :=
    (mean_iff noDoubles (fun _ => 0) (List.cons_ne_nil 7 [4, 8]) 0).2 (by decide)
  exact ⟨stat, sorted, s, hnew, hs, htext, hmean⟩

/-- Two samples with a sum that is no `int`. -/
theorem sum_overflows : new noDoubles (fun _ => 0) [1, 2147483647] 0 = none := by
  obtain ⟨stat, hnew, -⟩ := new_eq noDoubles (fun _ => 0) (List.cons_ne_nil 1 [2147483647]) 0
  have hsort : sort [1, 2147483647] = [1, 2147483647] := List.mergeSort_of_pairwise (by decide)
  have hsummary : summary [1, 2147483647] = none := by decide
  rw [hnew, hsort, hsummary, Option.map_none]

end ChatReactor.Percentile
