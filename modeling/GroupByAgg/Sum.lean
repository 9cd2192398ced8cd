import GroupByAgg.Correct
import Mathlib.Algebra.Group.Prod

/-!
# `DataFrameSum`: `sum_` over a chunked series

`DataFrameSum.get_reduction_callable` returns `sum_`: `value.sum(skipna=skipna)` when `min_count == 0`, otherwise
`where_function(value.count() >= min_count, value.sum(skipna=skipna), np.nan)`. The values of a series are exact
numbers or NaN (`Value`); NaN absorbs in `+`, which makes `Value` a commutative monoid, so that the sum of a series
is `List.sum` over the values `skipna` keeps.

`is_atomic` (`min_count == 0`) lets the reduction run `sum_` on every chunk and again on the partial results;
otherwise the reduction is compiled into the map steps `count()` and `sum(skipna)`, summed across chunks, and
`sum_`'s `where_function` on the totals (`chunkedSum`).

* `count()` and `sum(skipna)` of a series are the sums of those of its chunks (`seriesCount_flatten`,
  `seriesSum_flatten`); with `skipna` no partial sum is NaN (`seriesSum_true_ne_nan`);
* hence `sum_` is a homomorphism on every split when `min_count == 0` (`getReductionCallable_atomic`), the
  where-form on the totals is `sum_` of the whole (`whereForm_totals`), and so is the chunked evaluation
  (`chunked_sum_eq_whole`);
* reapplying `sum_` is exact on every split exactly when `min_count = 0` or `min_count = 1` with `skipna`
  (`reapply_exact_iff`): `is_atomic` is sufficient, not necessary;
* every groupby tiling whose input chunks carry the map steps' `(count(), sum(skipna))` sums them to the totals,
  and the where-form on its output is `sum_` of the whole series (`tile_sum_where_form`).
-/

namespace GroupByAgg

/-! ## Values -/

/-- A value of a series: an exact number, or NaN. -/
inductive Value
  | num (x : ℚ)
  | nan
  deriving DecidableEq, Repr

namespace Value

/-- Float addition on exact numbers: a NaN operand gives NaN. -/
def add : Value → Value → Value
  | .nan, _ => .nan
  | _, .nan => .nan
  | .num x, .num y => .num (x + y)

instance : Add Value := ⟨add⟩

instance : Zero Value := ⟨num 0⟩

@[simp] theorem num_add_num (x y : ℚ) : num x + num y = num (x + y) := rfl

@[simp] theorem nan_add (a : Value) : nan + a = nan := by cases a <;> rfl

@[simp] theorem add_nan (a : Value) : a + nan = nan := by cases a <;> rfl

theorem zero_eq : (0 : Value) = num 0 := rfl

@[simp] theorem zero_ne_nan : (0 : Value) ≠ nan := fun h => Value.noConfusion h

/-- NaN-absorbing addition is a commutative monoid with `0`. -/
instance : AddCommMonoid Value where
  add_assoc a b c := by cases a <;> cases b <;> cases c <;> simp [add_assoc]
  zero_add a := by cases a <;> simp [zero_eq]
  add_zero a := by cases a <;> simp [zero_eq]
  add_comm a b := by cases a <;> cases b <;> simp [add_comm]
  nsmul := nsmulRec

/-- A sum of values that are not NaN is not NaN. -/
theorem sum_ne_nan : ∀ {l : List Value}, (∀ a ∈ l, a ≠ nan) → l.sum ≠ nan
  | [], _ => by simp
  | a :: l, h => by
    have hl := sum_ne_nan fun b hb => h b (List.mem_cons_of_mem _ hb)
    rw [List.sum_cons]
    cases a with
    | nan => exact absurd rfl (h _ (List.mem_cons_self _ _))
    | num x =>
      cases hs : l.sum with
      | nan => exact absurd hs hl
      | num y => simp

end Value

/-! ## `sum_` -/

/-- `Series.sum(skipna=skipna)` with `min_count=0`: the values that are not NaN, or all of them when `skipna` is
false, summed (an empty sum is `0`). -/
def seriesSum (skipna : Bool) (value : List Value) : Value :=
  (if skipna then value.filter (· ≠ .nan) else value).sum

/-- `Series.count()`: the number of values that are not NaN. -/
def seriesCount (value : List Value) : Nat := value.countP (· ≠ .nan)

/-- Modelled from the spec: `where_function` is not in the sources; on a scalar condition it is `var1` when the
condition holds and `var2` otherwise. -/
def whereFunction (cond : Bool) (var1 var2 : Value) : Value := if cond then var1 else var2

/-- The fields of `DataFrameSum` that `sum_` reads. -/
structure DataFrameSum where
  skipna : Bool
  minCount : Nat
  deriving DecidableEq, Repr

/-- `is_atomic`: `self.min_count == 0`. -/
def DataFrameSum.isAtomic (op : DataFrameSum) : Bool := op.minCount == 0

/-- `get_reduction_callable(op)`, applied: `sum_(value)`. -/
def getReductionCallable (op : DataFrameSum) (value : List Value) : Value :=
  if op.minCount = 0 then seriesSum op.skipna value
  else whereFunction (decide (seriesCount value ≥ op.minCount)) (seriesSum op.skipna value) .nan

/-- The where-form of `sum_` on a count and a sum. -/
def whereForm (op : DataFrameSum) (count : Nat) (total : Value) : Value :=
  whereFunction (decide (count ≥ op.minCount)) total .nan

/-- Modelled from the spec: the reduction compiler that stages `sum_` is not in the sources. An atomic reduction runs
`sum_` on every chunk and again on the partial results; any other runs the map steps `count()` and
`sum(skipna=skipna)` on every chunk, sums their results across chunks, and applies the where-form to the totals. -/
def chunkedSum (op : DataFrameSum) (chunks : List (List Value)) : Value :=
  if op.isAtomic then getReductionCallable op (chunks.map (getReductionCallable op))
  else whereForm op (chunks.map seriesCount).sum (chunks.map (seriesSum op.skipna)).sum

/-! ## Splits -/

theorem seriesCount_flatten (chunks : List (List Value)) :
    seriesCount chunks.flatten = (chunks.map seriesCount).sum := by
  rw [seriesCount, List.countP_flatten]
  rfl

theorem seriesSum_flatten (skipna : Bool) (chunks : List (List Value)) :
    seriesSum skipna chunks.flatten = (chunks.map (seriesSum skipna)).sum := by
  have h : seriesSum skipna = fun xs => (if skipna then xs.filter (· ≠ .nan) else xs).sum := funext fun _ => rfl
  rw [h]
  cases skipna <;> simp [List.sum_flatten, Function.comp_def]

/-- With `skipna`, a sum is never NaN. -/
theorem seriesSum_true_ne_nan (value : List Value) : seriesSum true value ≠ .nan :=
  Value.sum_ne_nan fun a ha => by simpa using (List.mem_filter.mp ha).2

/-- With `skipna`, a series with nothing counted sums to `0`. -/
theorem seriesSum_true_of_count_zero {xs : List Value} (h : seriesCount xs = 0) : seriesSum true xs = 0 := by
  rw [seriesCount, List.countP_eq_zero] at h
  rw [seriesSum, if_pos rfl, List.filter_eq_nil_iff.mpr h]
  rfl

@[simp] theorem seriesCount_cons_nan (l : List Value) : seriesCount (.nan :: l) = seriesCount l := by
  simp [seriesCount]

@[simp] theorem seriesSum_true_cons_nan (l : List Value) : seriesSum true (.nan :: l) = seriesSum true l := by
  simp [seriesSum]

theorem seriesCount_cons_of_ne {v : Value} (hv : v ≠ .nan) (l : List Value) :
    seriesCount (v :: l) = seriesCount l + 1 := by
  simp [seriesCount, hv]

theorem seriesSum_true_cons_of_ne {v : Value} (hv : v ≠ .nan) (l : List Value) :
    seriesSum true (v :: l) = v + seriesSum true l := by
  simp [seriesSum, List.filter_cons, hv]

@[simp] theorem seriesCount_append (a b : List Value) : seriesCount (a ++ b) = seriesCount a + seriesCount b := by
  simp [seriesCount]

@[simp] theorem seriesSum_append (skipna : Bool) (a b : List Value) :
    seriesSum skipna (a ++ b) = seriesSum skipna a + seriesSum skipna b := by
  cases skipna <;> simp [seriesSum]

/-- **`sum_` is a homomorphism when `min_count == 0`**: `sum_` of the partial results of a split is `sum_` of the
whole. -/
theorem getReductionCallable_atomic {op : DataFrameSum} (h : op.minCount = 0) (chunks : List (List Value)) :
    getReductionCallable op (chunks.map (getReductionCallable op)) = getReductionCallable op chunks.flatten := by
  have hf : getReductionCallable op = seriesSum op.skipna := funext fun xs => by simp [getReductionCallable, h]
  rw [hf, seriesSum_flatten]
  cases op.skipna with
  | false => rfl
  | true =>
    have hkeep : ∀ p ∈ chunks.map (seriesSum true), p ≠ .nan := by
      simp only [List.mem_map]
      rintro _ ⟨xs, -, rfl⟩
      exact seriesSum_true_ne_nan xs
    rw [seriesSum, if_pos rfl, List.filter_eq_self.mpr (by simpa using hkeep)]

/-- **The where-form on the totals is `sum_` of the whole**, for every `min_count`. -/
theorem whereForm_totals (op : DataFrameSum) (chunks : List (List Value)) :
    whereForm op (chunks.map seriesCount).sum (chunks.map (seriesSum op.skipna)).sum =
      getReductionCallable op chunks.flatten := by
  rw [← seriesCount_flatten, ← seriesSum_flatten, whereForm, getReductionCallable]
  split_ifs with h
  · simp [whereFunction, h]
  · rfl

/-- **The chunked evaluation of `DataFrameSum` is `sum_` of the whole series**, for every `min_count`, `skipna` and
split into consecutive chunks: through `sum_` reapplied to the partial results when `is_atomic`, and through the
where-form on the totals of `count()` and `sum(skipna)` in every case. -/
theorem chunked_sum_eq_whole (op : DataFrameSum) (chunks : List (List Value)) :
    chunkedSum op chunks = getReductionCallable op chunks.flatten ∧
      (op.isAtomic = true →
        getReductionCallable op (chunks.map (getReductionCallable op)) = getReductionCallable op chunks.flatten) ∧
      whereFunction (decide ((chunks.map seriesCount).sum ≥ op.minCount)) (chunks.map (seriesSum op.skipna)).sum
        .nan = getReductionCallable op chunks.flatten := by
  have hatomic : op.isAtomic = true →
      getReductionCallable op (chunks.map (getReductionCallable op)) = getReductionCallable op chunks.flatten :=
    fun h => getReductionCallable_atomic (by simpa [DataFrameSum.isAtomic] using h) chunks
  refine ⟨?_, hatomic, whereForm_totals op chunks⟩
  unfold chunkedSum
  split_ifs with h
  · exact hatomic h
  · exact whereForm_totals op chunks

/-! ## Reapplying `sum_` -/

/-- With `min_count = 1` and `skipna`, the partial results of a split count nothing exactly when the series counts
nothing, and have the series' sum. -/
theorem reapply_one_skipna {op : DataFrameSum} (h1 : op.minCount = 1) (hs : op.skipna = true) :
    ∀ chunks : List (List Value),
      (seriesCount (chunks.map (getReductionCallable op)) = 0 ↔ seriesCount chunks.flatten = 0) ∧
        seriesSum true (chunks.map (getReductionCallable op)) = seriesSum true chunks.flatten
  | [] => by simp [seriesCount, seriesSum]
  | xs :: rest => by
    obtain ⟨hc, hsum⟩ := reapply_one_skipna h1 hs rest
    rw [List.map_cons, List.flatten_cons, seriesCount_append, seriesSum_append]
    by_cases hx : seriesCount xs = 0
    · have hf : getReductionCallable op xs = .nan := by simp [getReductionCallable, whereFunction, h1, hx]
      rw [hf, seriesCount_cons_nan, seriesSum_true_cons_nan, seriesSum_true_of_count_zero hx, hx, zero_add, zero_add]
      exact ⟨hc, hsum⟩
    · have hf : getReductionCallable op xs = seriesSum true xs := by
        simp [getReductionCallable, whereFunction, h1, hs]
        omega
      have hv := seriesSum_true_ne_nan xs
      rw [hf, seriesCount_cons_of_ne hv, seriesSum_true_cons_of_ne hv, hsum]
      exact ⟨by omega, rfl⟩

/-- **When reapplying `sum_` is exact**: `sum_` of the partial results of every split is `sum_` of the whole exactly
when `min_count = 0`, or `min_count = 1` with `skipna`; `is_atomic` admits the first case only. Otherwise the split
`[[0], []]` (`min_count = 1` without `skipna`) or `[[0], [0] * (min_count - 1)]` gives NaN for `0`. -/
theorem reapply_exact_iff (op : DataFrameSum) :
    (∀ chunks : List (List Value),
      getReductionCallable op (chunks.map (getReductionCallable op)) = getReductionCallable op chunks.flatten) ↔
      op.minCount = 0 ∨ op.minCount = 1 ∧ op.skipna = true := by
  constructor
  · intro h
    by_contra hne
    push_neg at hne
    obtain ⟨h0, h1⟩ := hne
    by_cases hm : op.minCount = 1
    · have hs : op.skipna = false := by simpa using h1 hm
      have := h [[0], []]
      simp [getReductionCallable, whereFunction, seriesSum, seriesCount, hm, hs] at this
    · have := h [[0], List.replicate (op.minCount - 1) 0]
      simp [getReductionCallable, whereFunction, seriesSum, seriesCount, h0, List.countP_replicate,
        show ¬ op.minCount ≤ 1 by omega, show ¬ op.minCount ≤ op.minCount - 1 by omega,
        show op.minCount ≤ op.minCount - 1 + 1 by omega, nsmul_zero] at this
  · rintro (h0 | ⟨h1, hs⟩) chunks
    · exact getReductionCallable_atomic h0 chunks
    · obtain ⟨hc, hsum⟩ := reapply_one_skipna h1 hs chunks
      have hpos : 1 ≤ seriesCount (chunks.map (getReductionCallable op)) ↔ 1 ≤ seriesCount chunks.flatten := by
        omega
      simp only [getReductionCallable, h1, one_ne_zero, if_false, hs, hsum, whereFunction, ge_iff_le, hpos]

/-! ## Through the groupby plan -/

/-- A sum of pairs is the pair of sums. -/
theorem sum_map_pair {α : Type} (f : α → ℕ) (g : α → Value) (l : List α) :
    (l.map fun x => (f x, g x)).sum = ((l.map f).sum, (l.map g).sum) := by
  induction l with
  | nil => rfl
  | cons a l ih => simp [ih]

/-- A list read at every position below its length is the list. -/
theorem map_range_getD {β : Type} (f : List Value → β) (l : List (List Value)) :
    (List.range l.length).map (fun i => f (l.getD i [])) = l.map f := by
  apply List.ext_getElem (by simp)
  intro n h _
  simp [List.getElem?_eq_getElem (by simpa using h)]

/-- **Every groupby tiling computes the compiled `sum_`**: in every tiling of `n` input chunks with
`combine_size ≥ 0` (tree, shuffle, or auto after any number of rounds), and for every shuffle split, when input chunk `i` carries the map steps'
`(count(), sum(skipna))` of chunk `i` of a series, the output chunks sum to the totals, and the where-form on them is
`sum_` of the whole series, for every `min_count` and `skipna`. -/
theorem tile_sum_where_form (sop : DataFrameSum) (chunks : List (List Value)) (sp : Splitter (ℕ × Value))
    {rt : Runtime} {fuel : Nat} {op : DataFrameGroupByAgg} {inDf : InputTileable} {out : Tileable}
    {objs : List String} (hc : 0 ≤ op.combineSize) (h : tile rt fuel op inDf = .ok (out, objs))
    (hn : chunks.length = inDf.nChunks) :
    (out.chunks.map (Chunk.value sp fun i =>
        (seriesCount (chunks.getD i []), seriesSum sop.skipna (chunks.getD i [])))).sum =
      ((chunks.map seriesCount).sum, (chunks.map (seriesSum sop.skipna)).sum) ∧
    whereForm sop (out.chunks.map (Chunk.value sp fun i =>
        (seriesCount (chunks.getD i []), seriesSum sop.skipna (chunks.getD i [])))).sum.1
      (out.chunks.map (Chunk.value sp fun i =>
        (seriesCount (chunks.getD i []), seriesSum sop.skipna (chunks.getD i [])))).sum.2 =
      getReductionCallable sop chunks.flatten := by
  have htot : (out.chunks.map (Chunk.value sp fun i =>
        (seriesCount (chunks.getD i []), seriesSum sop.skipna (chunks.getD i [])))).sum =
      ((chunks.map seriesCount).sum, (chunks.map (seriesSum sop.skipna)).sum) := by
    rw [sum_value_tile sp _ hc h, ← hn, sum_map_pair, map_range_getD, map_range_getD]
  rw [htot]
  exact ⟨rfl, whereForm_totals sop chunks⟩

theorem tile_sum_where_form_three_chunks :
    ∃ out objs, tile ⟨[], "", []⟩ 3 ⟨"tree", 2, 1024, true, .dataframe, 1⟩ ⟨3, true⟩ = .ok (out, objs) ∧
      (0 : Int) ≤ 2 ∧ [[Value.num 1], [.nan], [.num 2]].length = 3 ∧
      ((out.chunks.map (Chunk.value Splitter.first fun i =>
          (seriesCount ([[Value.num 1], [.nan], [.num 2]].getD i []),
            seriesSum true ([[Value.num 1], [.nan], [.num 2]].getD i [])))).sum =
        (([[Value.num 1], [.nan], [.num 2]].map seriesCount).sum,
          ([[Value.num 1], [.nan], [.num 2]].map (seriesSum true)).sum) ∧
      whereForm ⟨true, 1⟩ (out.chunks.map (Chunk.value Splitter.first fun i =>
          (seriesCount ([[Value.num 1], [.nan], [.num 2]].getD i []),
            seriesSum true ([[Value.num 1], [.nan], [.num 2]].getD i [])))).sum.1
        (out.chunks.map (Chunk.value Splitter.first fun i =>
          (seriesCount ([[Value.num 1], [.nan], [.num 2]].getD i []),
            seriesSum true ([[Value.num 1], [.nan], [.num 2]].getD i [])))).sum.2 =
        getReductionCallable ⟨true, 1⟩ [[Value.num 1], [.nan], [.num 2]].flatten) := by
  obtain ⟨p, hp⟩ : ∃ p, tile ⟨[], "", []⟩ 3 ⟨"tree", 2, 1024, true, .dataframe, 1⟩ ⟨3, true⟩ = .ok p :=
    ⟨_, rfl⟩
  exact ⟨p.1, p.2, hp, by decide, rfl, tile_sum_where_form ⟨true, 1⟩ _ Splitter.first (by decide) hp rfl⟩

end GroupByAgg
